import JavaTypes.Proofs.LastingRanks
import JavaTypes.Proofs.Lineages

/-!
# Entries that are tied

The entries of a closure are put in order by the ranks and names of their elements. Two elements that
share both are tied: neither comes before the other, and a merge that meets them side by side goes on in
both lists at once. So what two lists have in common can come up in one of them later than in the other,
and gets a second entry, but only if it is tied with something else.

* `Session.Ahead T a b`, `Session.Tied T a b`: the order of what entries stand for, by the ranks that the
  session gives and by names. None of it need be known;
* `compares_of_known_precedes`, `Lineage.eq_iff_of_known_sameEntry`: what the answers of the comparisons
  say;
* `Session.Follows T P a b`: `b` may come after `a` in a closure. It may be `a` itself if `a` is tied with
  something else in `P`;
* `Session.Joins`: a list has the entries of two others, and is in order if they are;
* `Lineage.joins_closureInsert`, `Lineage.joins_closureUnion`: what is inserted or merged is joined.
-/

set_option synthInstance.maxSize 512

namespace JavaTypes

open Action

/-- What is known of a sequence whose parts last is known of its parts. -/
theorem Action.exists_of_known_bind {α β : Type} {x : Query α} {f : α → Query β} [hx : Lasts x x]
    [hf : ∀ a, Lasts (f a) (f a)] {S : Session} {b : β} (h : Known (x >>= f) S b) :
    ∃ a, Known x S a ∧ Known (f a) S b := by
  obtain ⟨a, T, h₁, h₂⟩ := bind_eq_ok h
  have hknown : Known x S a := hx.stays h₁ ((hf a).ranks.of_eq h₂).toInforms
  exact ⟨a, hknown, hknown.of_bind h⟩

namespace Session

variable {S T : Session} {C : ElementId → Prop} {a b c : Owner} {t u v x y : TypeId}
  {m n : TypeNode} {fuel r q : Nat} {name : String} {e d : ElementId}

/-! ### Ranks and names -/

/-- The rank that the session gives: it is zero for `Object` and for types without an element, and has
to be remembered otherwise. -/
def RankGiven (T : Session) : Owner → Nat → Prop
  | .element e, r => ∃ o, T.IsObject o ∧ (e = o ∧ r = 0 ∨ e ≠ o ∧ T.memo.ranks.lookup e = some r)
  | .node _, r => r = 0

/-- The qualified name, which is empty for types without an element. -/
def NameGiven (T : Session) : Owner → String → Prop
  | .element e, name => Known (onStore (qualifiedName e)) T name
  | .node _, name => name = ""

theorem RankGiven.mono (h : S.RankGiven a r) (hT : S.Informs T) : T.RankGiven a r := by
  cases a with
  | node => exact h
  | element e =>
    obtain ⟨o, ho, hr⟩ := h
    exact ⟨o, ho.mono hT.le, hr.imp_right fun ⟨hne, hlook⟩ => ⟨hne, hT.ranks hlook⟩⟩

theorem RankGiven.unique (hq : T.RankGiven a q) (hr : T.RankGiven a r) : q = r := by
  cases a with
  | node => exact .trans hq (.symm hr)
  | element e =>
    obtain ⟨o, ho, hq⟩ := hq
    obtain ⟨o', ho', hr⟩ := hr
    obtain rfl := ho.unique ho'
    rcases hq with ⟨heq, rfl⟩ | ⟨hne, hq⟩
    · rcases hr with ⟨-, rfl⟩ | ⟨hne, -⟩
      · rfl
      · exact absurd heq hne
    · rcases hr with ⟨heq, -⟩ | ⟨-, hr⟩
      · exact absurd heq hne
      · exact Option.some.inj (hq.symm.trans hr)

theorem NameGiven.mono (h : S.NameGiven a name) (hle : S ≤ T) : T.NameGiven a name := by
  cases a with
  | node => exact h
  | element e => exact h.mono hle

theorem NameGiven.unique {p q : String} (hp : T.NameGiven a p) (hq : T.NameGiven a q) : p = q := by
  cases a with
  | node => exact .trans hp (.symm hq)
  | element e => exact Known.unique hp hq

/-! ### The order of closures -/

/-- The first has the greater rank, or the same rank and the name that comes first. Names are of no
account where the ranks differ. -/
def Ahead (T : Session) (a b : Owner) : Prop :=
  ∃ q r, T.RankGiven a q ∧ T.RankGiven b r ∧ (r < q ∨ q = r ∧ ∃ x y, T.NameGiven a x ∧
    T.NameGiven b y ∧ T.config.closureOrder.before x y = true)

/-- Both have the same rank and the same name. -/
def Tied (T : Session) (a b : Owner) : Prop :=
  ∃ r x, T.RankGiven a r ∧ T.RankGiven b r ∧ T.NameGiven a x ∧ T.NameGiven b x

theorem Ahead.mono (h : S.Ahead a b) (hT : S.Informs T) : T.Ahead a b := by
  obtain ⟨q, r, hq, hr, horder⟩ := h
  refine ⟨q, r, hq.mono hT, hr.mono hT, horder.imp_right ?_⟩
  rintro ⟨heq, x, y, hx, hy, hbefore⟩
  exact ⟨heq, x, y, hx.mono hT.le, hy.mono hT.le, by rwa [hT.le.config]⟩

theorem not_ahead_self : ¬ T.Ahead a a := by
  rintro ⟨q, r, hq, hr, hlt | ⟨-, x, y, hx, hy, hbefore⟩⟩
  · exact Nat.ne_of_gt hlt (hq.unique hr)
  · rw [hx.unique hy] at hbefore
    exact ClosureOrder.before_irrefl hbefore

theorem Tied.mono (h : S.Tied a b) (hT : S.Informs T) : T.Tied a b := by
  obtain ⟨r, x, har, hbr, hax, hbx⟩ := h
  exact ⟨r, x, har.mono hT, hbr.mono hT, hax.mono hT.le, hbx.mono hT.le⟩

theorem Tied.symm (h : T.Tied a b) : T.Tied b a := by
  obtain ⟨r, x, har, hbr, hax, hbx⟩ := h
  exact ⟨r, x, hbr, har, hbx, hax⟩

theorem Tied.trans (hab : T.Tied a b) (hbc : T.Tied b c) : T.Tied a c := by
  obtain ⟨r, x, har, hbr, hax, hbx⟩ := hab
  obtain ⟨r', x', hbr', hcr, hbx', hcx⟩ := hbc
  obtain rfl := hbr.unique hbr'
  obtain rfl := hbx.unique hbx'
  exact ⟨r, x, har, hcr, hax, hcx⟩

theorem Tied.ahead (hab : T.Tied a b) (hbc : T.Ahead b c) : T.Ahead a c := by
  obtain ⟨r, x, har, hbr, hax, hbx⟩ := hab
  obtain ⟨q, s, hbq, hcs, horder⟩ := hbc
  obtain rfl := hbr.unique hbq
  refine ⟨r, s, har, hcs, horder.imp_right ?_⟩
  rintro ⟨heq, x', z, hbx', hcz, hbefore⟩
  obtain rfl := hbx.unique hbx'
  exact ⟨heq, x, z, hax, hcz, hbefore⟩

theorem Ahead.tied (hab : T.Ahead a b) (hbc : T.Tied b c) : T.Ahead a c := by
  obtain ⟨q, r, haq, hbr, horder⟩ := hab
  obtain ⟨r', y, hbr', hcr, hby, hcy⟩ := hbc
  obtain rfl := hbr.unique hbr'
  refine ⟨q, r, haq, hcr, horder.imp_right ?_⟩
  rintro ⟨heq, x, y', hax, hby', hbefore⟩
  obtain rfl := hby.unique hby'
  exact ⟨heq, x, y, hax, hcy, hbefore⟩

theorem Ahead.trans (hab : T.Ahead a b) (hbc : T.Ahead b c) : T.Ahead a c := by
  obtain ⟨q, r, haq, hbr, hqr⟩ := hab
  obtain ⟨r', s, hbr', hcs, hrs⟩ := hbc
  obtain rfl := hbr.unique hbr'
  refine ⟨q, s, haq, hcs, ?_⟩
  rcases hqr with hlt | ⟨rfl, x, y, hax, hby, hxy⟩
  · refine .inl ?_
    rcases hrs with hlt' | ⟨rfl, -⟩
    · exact hlt'.trans hlt
    · exact hlt
  · refine hrs.imp_right ?_
    rintro ⟨heq, y', z, hby', hcz, hyz⟩
    obtain rfl := hby.unique hby'
    exact ⟨heq, x, z, hax, hcz, ClosureOrder.before_trans hxy hyz⟩

/-! ### What comparisons say -/

theorem rankGiven_of_known_rankOfElement
    (h : Known (rankOfElement fuel (rankFrom fuel) [] e) T r) : T.RankGiven (.element e) r := by
  have hranks : Query.Ranks [] (rankOfElement fuel (rankFrom fuel) [] e) := ranks_rankOfElement [] e
  obtain ⟨o, T₁, hobject, hrest⟩ := bind_eq_ok h
  have hknown : Known objectElement T₁ o := settles_objectElement.stays hobject le_rfl
  have hle : T₁ ≤ T := (hranks.of_eq ((bind_of_ok hknown).trans hrest)).le
  have hobject := hknown.mono hle
  obtain ⟨known, hwell, rfl⟩ := known_map.1 hobject
  refine ⟨known.object, ⟨known, hwell, rfl⟩, ?_⟩
  by_cases heq : e = known.object
  · have h := hobject.of_bind h
    rw [if_pos heq] at h
    exact .inl ⟨heq, known_pure.1 h⟩
  · exact .inr ⟨heq, lookup_of_rankOfElement hobject heq h⟩

theorem rankGiven_of_known_rankFrom (h : Known (rankFrom fuel [] t) T r)
    (ht : T.OwnedBy t a) : T.RankGiven a r := by
  obtain ⟨u, n, q, hpeek, hk, hq, rfl⟩ := ht
  cases fuel with
  | zero => cases h
  | succ fuel =>
  have h := (known_onStore.2 (known_viewType.2 hpeek)).of_bind h
  dsimp only at h
  split at h
  case h_1 | h_2 =>
    have h := hq.of_bind h
    cases q with
    | none => exact known_pure.1 h
    | some e => exact rankGiven_of_known_rankOfElement h
  case h_3 | h_4 =>
    next hshape =>
    rw [TypeNode.kind, hshape] at hk
    cases hk
  case h_5 hdeclared herror _ _ =>
    rcases TypeKind.isDeclaredLike_iff.1 hk with hk | hk
    · obtain ⟨d, hshape⟩ := TypeNode.shape_of_declared hk
      exact absurd hshape (hdeclared d)
    · obtain ⟨d, hshape⟩ := TypeNode.shape_of_error hk
      exact absurd hshape (herror d)

theorem nameGiven_of_known (h : Known (onStore n.qualifiedName) T name)
    (hpeek : T.Shows t u n) (ht : T.OwnedBy t a) : T.NameGiven a name := by
  obtain ⟨u', n', q, hpeek', -, hq, rfl⟩ := ht
  cases hpeek.symm.trans hpeek'
  have h := (known_onStore.1 hq).of_bind (known_onStore.1 h)
  cases q with
  | none => exact known_pure.1 h
  | some e => exact known_onStore.2 h

/-- The answer to the question which of two types comes first. -/
theorem compares_of_known_precedes {r : Bool} (h : Known (precedes fuel x y) T r)
    (hx : T.OwnedBy x a) (hy : T.OwnedBy y b) :
    (r = true → T.Ahead a b) ∧ (r = false → T.Ahead b a ∨ T.Tied a b) := by
  obtain ⟨u, m, -, hu, hm, -⟩ := id hx
  obtain ⟨v, n, -, hv, hn, -⟩ := id hy
  have h := (known_onStore.2 (known_viewType.2 hu)).of_bind h
  have h := (known_onStore.2 (known_viewType.2 hv)).of_bind h
  dsimp only at h
  split at h
  · next hk _ =>
    rw [hk] at hm
    cases hm
  · next hk _ =>
    rw [hk] at hm
    cases hm
  · next hk _ =>
    rw [hk] at hn
    cases hn
  rw [hm, hn] at h
  obtain ⟨i, hi, h⟩ := exists_of_known_bind h
  obtain ⟨j, hj, h⟩ := exists_of_known_bind h
  have hi := rankGiven_of_known_rankFrom hi ((ownedBy_node_iff hu).2 hx)
  have hj := rankGiven_of_known_rankFrom hj ((ownedBy_node_iff hv).2 hy)
  split at h
  · next heq =>
    subst heq
    obtain ⟨p, hp, h⟩ := known_bind.1 h
    obtain ⟨q, hq, h⟩ := known_bind.1 h
    obtain ⟨config, hconfig, rfl⟩ := known_map.1 h
    cases hconfig
    have hp := nameGiven_of_known hp hu hx
    have hq := nameGiven_of_known hq hv hy
    refine ⟨fun htrue => ⟨i, i, hi, hj, .inr ⟨rfl, p, q, hp, hq, htrue⟩⟩, fun hfalse => ?_⟩
    by_cases heq : p = q
    · subst heq
      exact .inr ⟨i, p, hi, hj, hp, hq⟩
    · refine .inl ⟨i, i, hj, hi, .inr ⟨rfl, q, p, hq, hp, ?_⟩⟩
      exact (ClosureOrder.before_total heq).resolve_left (by rw [hfalse]; decide)
  · next hne =>
    obtain rfl := known_pure.1 h
    refine ⟨fun htrue => ⟨i, j, hi, hj, .inl (of_decide_eq_true htrue)⟩, fun hfalse => ?_⟩
    have hle := of_decide_eq_false hfalse
    exact .inl ⟨j, i, hj, hi, .inl (by omega)⟩

/-- Elements of which one is in a lineage are equal if and only if they are the same. -/
theorem Lineage.eq_iff_of_known_sameElement (H : T.Lineage C) {p q : ElementNode}
    (hC : C d) (hd : T.store.peekElement d = some (d, p)) (he : T.store.peekElement e = some (e, q))
    {r : Bool} (h : Known (sameElement fuel d e) T r) : r = true ↔ d = e := by
  have h := (known_onStore.2 (known_resolveElement.2 ⟨p, hd⟩)).of_bind h
  have h := (known_onStore.2 (known_resolveElement.2 ⟨q, he⟩)).of_bind h
  split at h
  · next heq =>
    obtain rfl := known_pure.1 h
    exact iff_of_true rfl heq
  · next hne =>
    have hequal := Equality.known_elements_iff (known_onStore.1 h)
    exact ⟨fun htrue => H.separate .rfl hC hd he (hequal.1 htrue), fun heq => absurd heq hne⟩

/-- Types share an entry if and only if they stand for the same. -/
theorem Lineage.eq_iff_of_known_sameEntry (H : T.Lineage C) (hC : ∀ e, a = .element e → C e)
    {r : Bool} (h : Known (sameEntry fuel x y) T r) (hx : T.OwnedBy x a) (hy : T.OwnedBy y b) :
    r = true ↔ a = b := by
  obtain ⟨u, m, p, hu, hm, hp, ha⟩ := id hx
  obtain ⟨v, n, q, hv, hn, hq, hb⟩ := id hy
  have h := (known_onStore.2 (known_viewType.2 hu)).of_bind h
  have h := (known_onStore.2 (known_viewType.2 hv)).of_bind h
  dsimp only at h
  split at h
  · next heq =>
    subst heq
    obtain rfl := known_pure.1 h
    exact iff_of_true rfl (((ownedBy_node_iff hu).2 hx).unique ((ownedBy_node_iff hv).2 hy))
  next hne =>
  have h := hq.of_bind (hp.of_bind h)
  subst ha hb
  cases p with
  | none =>
    obtain rfl := known_pure.1 h
    cases q <;> simp [hne]
  | some d =>
    cases q with
    | none =>
      obtain rfl := known_pure.1 h
      simp
    | some e =>
      obtain ⟨p, hd⟩ := exists_peek_of_elementOf hp
      obtain ⟨q, he⟩ := exists_peek_of_elementOf hq
      rw [H.eq_iff_of_known_sameElement (hC d rfl) hd he h]
      simp

/-! ### Lists in order -/

/-- What may come after `a` in a closure. It has the same rank and name only if `a` shares them with
something else in `P`. -/
def Follows (T : Session) (P : Owner → Prop) (a b : Owner) : Prop :=
  T.Ahead a b ∨ T.Tied a b ∧ ∃ c, P c ∧ c ≠ a ∧ T.Tied a c

variable {P Q : Owner → Prop}

theorem Follows.mono (h : S.Follows P a b) (hT : S.Informs T) : T.Follows P a b := by
  refine h.imp (fun hab => hab.mono hT) ?_
  rintro ⟨hab, c, hc, hne, hac⟩
  exact ⟨hab.mono hT, c, hc, hne, hac.mono hT⟩

theorem Follows.imp (h : T.Follows P a b) (hPQ : ∀ c, P c → Q c) : T.Follows Q a b := by
  refine h.imp_right ?_
  rintro ⟨hab, c, hc, hne, hac⟩
  exact ⟨hab, c, hPQ c hc, hne, hac⟩

theorem Ahead.follows (hab : T.Ahead a b) (hbc : T.Follows P b c) : T.Ahead a c := by
  rcases hbc with hbc | ⟨hbc, -⟩
  · exact hab.trans hbc
  · exact hab.tied hbc

/-- Of two that are tied, each may come after the other, and before what comes after the other. -/
theorem Tied.follows (hab : T.Tied a b) (hne : b ≠ a) (hb : P b) (hbc : T.Follows P b c) :
    T.Follows P a c := by
  rcases hbc with hbc | ⟨hbc, -⟩
  · exact .inl (hab.ahead hbc)
  · exact .inr ⟨hab.trans hbc, b, hb, hne, hab⟩

/-- Of two different things, the first may be put before the second. -/
def MayPrecede (T : Session) (a b : Owner) : Prop :=
  T.Ahead a b ∨ a ≠ b ∧ T.Tied a b

variable {xs ys r : List TypeId} {as bs cs : List Owner}

theorem follows_of_head (hab : T.MayPrecede a b) (hb : P b) (hbs : ∀ c ∈ bs, T.Follows P b c) :
    ∀ c ∈ b :: bs, T.Follows P a c := by
  intro c hc
  rcases hab with hab | ⟨hne, hab⟩
  · rcases List.mem_cons.1 hc with rfl | hc
    · exact .inl hab
    · exact .inl (hab.follows (hbs c hc))
  · rcases List.mem_cons.1 hc with rfl | hc
    · exact .inr ⟨hab, c, hb, hne.symm, hab⟩
    · exact hab.follows hne.symm hb (hbs c hc)

/-- The entries stand for what is in the second list, in order, and all of this is in `P`. Elements are
in `C`. -/
structure Arranged (T : Session) (C : ElementId → Prop) (P : Owner → Prop) (entries : List TypeId)
    (owners : List Owner) : Prop where
  owned : List.Forall₂ T.OwnedBy entries owners
  order : owners.Pairwise (T.Follows P)
  mem : ∀ o ∈ owners, P o ∧ ∀ e, o = .element e → C e

theorem Arranged.mono (h : S.Arranged C P xs as) (hT : S.Informs T) : T.Arranged C P xs as :=
  ⟨h.owned.imp fun _ _ ho => ho.mono hT.le, h.order.imp fun hab => hab.mono hT, h.mem⟩

theorem Arranged.imp (h : T.Arranged C P xs as) (hPQ : ∀ c, P c → Q c) : T.Arranged C Q xs as :=
  ⟨h.owned, h.order.imp fun hab => hab.imp hPQ, fun o ho => ⟨hPQ o (h.mem o ho).1, (h.mem o ho).2⟩⟩

theorem Arranged.exists_cons (h : T.Arranged C P (x :: xs) as) :
    ∃ a as', as = a :: as' ∧ T.OwnedBy x a ∧ (P a ∧ ∀ e, a = .element e → C e) ∧
      (∀ b ∈ as', T.Follows P a b) ∧ T.Arranged C P xs as' := by
  obtain ⟨howned, horder, hmem⟩ := h
  cases howned with
  | cons hx hrest =>
    obtain ⟨hfollows, horder⟩ := List.pairwise_cons.1 horder
    obtain ⟨ha, hmem⟩ := List.forall_mem_cons.1 hmem
    exact ⟨_, _, rfl, hx, ha, hfollows, hrest, horder, hmem⟩

theorem Arranged.cons (h : T.Arranged C P xs as) (hx : T.OwnedBy x a)
    (ha : P a ∧ ∀ e, a = .element e → C e) (hfollows : ∀ b ∈ as, T.Follows P a b) :
    T.Arranged C P (x :: xs) (a :: as) :=
  ⟨.cons hx h.owned, List.pairwise_cons.2 ⟨hfollows, h.order⟩, List.forall_mem_cons.2 ⟨ha, h.mem⟩⟩

/-! ### Joining two lists -/

/-- If `xs` and `ys` are in order then so is `r`, and it has all that they have. -/
def Joins (T : Session) (C : ElementId → Prop) (xs ys r : List TypeId) : Prop :=
  ∀ P as bs, T.Arranged C P xs as → T.Arranged C P ys bs →
    ∃ cs, T.Arranged C P r cs ∧ ∀ c, c ∈ cs ↔ c ∈ as ∨ c ∈ bs

/-- What is said of the first entries of two lists, whatever they stand for. -/
def Heads (T : Session) (C : ElementId → Prop) (x y : TypeId) (R : Owner → Owner → Prop) : Prop :=
  ∀ a b, (∀ e, a = .element e → C e) → (∀ e, b = .element e → C e) → T.OwnedBy x a → T.OwnedBy y b →
    R a b

theorem joins_nil_left : T.Joins C [] ys ys := by
  intro P as bs has hbs
  cases has.owned
  exact ⟨bs, hbs, by simp⟩

theorem joins_nil_right : T.Joins C xs [] xs := by
  intro P as bs has hbs
  cases hbs.owned
  exact ⟨as, has, by simp⟩

theorem joins_same (hsame : T.Heads C x y (· = ·)) (h : T.Joins C xs ys r) :
    T.Joins C (x :: xs) (y :: ys) (x :: r) := by
  intro P as bs has hbs
  obtain ⟨a, as', rfl, hx, ha, has', hxs⟩ := has.exists_cons
  obtain ⟨b, bs', rfl, hy, hb, hbs', hys⟩ := hbs.exists_cons
  obtain rfl := hsame a b ha.2 hb.2 hx hy
  obtain ⟨cs, hcs, hmem⟩ := h P as' bs' hxs hys
  refine ⟨a :: cs, hcs.cons hx ha fun c hc => ?_, fun c => ?_⟩
  · exact ((hmem c).1 hc).elim (has' c) (hbs' c)
  · simp only [List.mem_cons, hmem]
    exact or_or_distrib_left

theorem joins_first (hfirst : T.Heads C x y T.MayPrecede) (h : T.Joins C xs (y :: ys) r) :
    T.Joins C (x :: xs) (y :: ys) (x :: r) := by
  intro P as bs has hbs
  obtain ⟨a, as', rfl, hx, ha, has', hxs⟩ := has.exists_cons
  obtain ⟨b, bs', rfl, hy, hb, hbs', -⟩ := hbs.exists_cons
  obtain ⟨cs, hcs, hmem⟩ := h P as' (b :: bs') hxs hbs
  have hab := follows_of_head (hfirst a b ha.2 hb.2 hx hy) hb.1 hbs'
  refine ⟨a :: cs, hcs.cons hx ha fun c hc => ?_, fun c => ?_⟩
  · exact ((hmem c).1 hc).elim (has' c) (hab c)
  · rw [List.mem_cons, hmem, List.mem_cons (b := a)]
    exact or_assoc.symm

theorem joins_second (hsecond : T.Heads C y x T.MayPrecede) (h : T.Joins C (x :: xs) ys r) :
    T.Joins C (x :: xs) (y :: ys) (y :: r) := by
  intro P as bs has hbs
  obtain ⟨a, as', rfl, hx, ha, has', -⟩ := has.exists_cons
  obtain ⟨b, bs', rfl, hy, hb, hbs', hys⟩ := hbs.exists_cons
  obtain ⟨cs, hcs, hmem⟩ := h P (a :: as') bs' has hys
  have hba := follows_of_head (hsecond b a hb.2 ha.2 hy hx) ha.1 has'
  refine ⟨b :: cs, hcs.cons hy hb fun c hc => ?_, fun c => ?_⟩
  · exact ((hmem c).1 hc).elim (hba c) (hbs' c)
  · rw [List.mem_cons, hmem, List.mem_cons (b := b)]
    exact or_left_comm

/-- Where neither comes first, both entries are taken at once. -/
theorem joins_both (hfirst : T.Heads C x y T.MayPrecede) (hsecond : T.Heads C y x T.MayPrecede)
    (h : T.Joins C xs ys r) : T.Joins C (x :: xs) (y :: ys) (x :: y :: r) := by
  intro P as bs has hbs
  obtain ⟨a, as', rfl, hx, ha, has', hxs⟩ := has.exists_cons
  obtain ⟨b, bs', rfl, hy, hb, hbs', hys⟩ := hbs.exists_cons
  obtain ⟨cs, hcs, hmem⟩ := h P as' bs' hxs hys
  have hab := follows_of_head (hfirst a b ha.2 hb.2 hx hy) hb.1 hbs'
  have hba := follows_of_head (hsecond b a hb.2 ha.2 hy hx) ha.1 has'
  have hbcs : ∀ c ∈ cs, T.Follows P b c := fun c hc =>
    ((hmem c).1 hc).elim (fun hc => hba c (List.mem_cons_of_mem a hc)) (hbs' c)
  refine ⟨a :: b :: cs, (hcs.cons hy hb hbcs).cons hx ha fun c hc => ?_, fun c => ?_⟩
  · rcases List.mem_cons.1 hc with rfl | hc
    · exact hab c List.mem_cons_self
    · exact ((hmem c).1 hc).elim (has' c) fun hc => hab c (List.mem_cons_of_mem b hc)
  · simp only [List.mem_cons, hmem]
    tauto

/-! ### The code -/

section Code

theorem heads_of_before (h : Known (precedes fuel x y) T true) : T.Heads C x y T.MayPrecede :=
  fun _ _ _ _ hx hy => .inl ((compares_of_known_precedes h hx hy).1 rfl)

/-- Of two different types, the second may be put first if the first does not come before it. -/
theorem heads_of_not_before (hne : T.Heads C x y (· ≠ ·)) (h : Known (precedes fuel x y) T false) :
    T.Heads C y x T.MayPrecede :=
  fun b a hb ha hy hx => ((compares_of_known_precedes h hx hy).2 rfl).imp_right
    fun hab => ⟨(hne a b ha hb hx hy).symm, hab.symm⟩

variable (H : T.Lineage C)

include H

theorem Lineage.heads_of_same (h : Known (sameEntry fuel x y) T true) : T.Heads C x y (· = ·) :=
  fun _ _ ha _ hx hy => (H.eq_iff_of_known_sameEntry ha h hx hy).1 rfl

theorem Lineage.heads_of_different (h : Known (sameEntry fuel x y) T false) :
    T.Heads C x y (· ≠ ·) :=
  fun _ _ ha _ hx hy heq => Bool.false_ne_true ((H.eq_iff_of_known_sameEntry ha h hx hy).2 heq)

/-- A type is put into its place, unless what it stands for has an entry. -/
theorem Lineage.joins_closureInsert (h : Known (closureInsert fuel t xs) T r) :
    T.Joins C xs [t] r := by
  induction xs generalizing r with
  | nil =>
    obtain rfl := known_pure.1 h
    exact joins_nil_left
  | cons x xs ih =>
    obtain ⟨same, hsame, h⟩ := exists_of_known_bind h
    cases same with
    | true =>
      obtain rfl := known_pure.1 h
      exact joins_same (fun a b ha hb hx ht => (H.heads_of_same hsame b a hb ha ht hx).symm)
        joins_nil_right
    | false =>
      obtain ⟨before, hbefore, h⟩ := exists_of_known_bind h
      cases before with
      | true =>
        obtain rfl := known_pure.1 h
        exact joins_second (heads_of_before hbefore) joins_nil_right
      | false =>
        obtain ⟨rest, hrest, h⟩ := exists_of_known_bind h
        obtain rfl := known_pure.1 h
        exact joins_first (heads_of_not_before (H.heads_of_different hsame) hbefore) (ih hrest)

/-- One step of a merge, given how the rest is merged. -/
theorem Lineage.joins_mergeEntry {merge : List TypeId → Query (List TypeId)}
    [∀ zs, Lasts (merge zs) (merge zs)]
    (hmerge : ∀ {zs r}, Known (merge zs) T r → T.Joins C xs zs r)
    (h : Known (mergeEntry fuel x xs merge ys) T r) : T.Joins C (x :: xs) ys r := by
  induction ys generalizing r with
  | nil =>
    obtain rfl := known_pure.1 h
    exact joins_nil_right
  | cons y ys ih =>
    obtain ⟨same, hsame, h⟩ := exists_of_known_bind h
    cases same with
    | true =>
      obtain ⟨rest, hrest, h⟩ := exists_of_known_bind h
      obtain rfl := known_pure.1 h
      exact joins_same (H.heads_of_same hsame) (hmerge hrest)
    | false =>
      obtain ⟨before, hxy, h⟩ := exists_of_known_bind h
      cases before with
      | true =>
        obtain ⟨rest, hrest, h⟩ := exists_of_known_bind h
        obtain rfl := known_pure.1 h
        exact joins_first (heads_of_before hxy) (hmerge hrest)
      | false =>
        have hne := H.heads_of_different hsame
        obtain ⟨after, hyx, h⟩ := exists_of_known_bind h
        cases after with
        | true =>
          obtain ⟨rest, hrest, h⟩ := exists_of_known_bind h
          obtain rfl := known_pure.1 h
          exact joins_second (heads_of_before hyx) (ih hrest)
        | false =>
          obtain ⟨rest, hrest, h⟩ := exists_of_known_bind h
          obtain rfl := known_pure.1 h
          exact joins_both (heads_of_not_before (fun b a hb ha hy hx => (hne a b ha hb hx hy).symm) hyx)
            (heads_of_not_before hne hxy) (hmerge hrest)

theorem Lineage.joins_closureUnion (h : Known (closureUnion fuel xs ys) T r) : T.Joins C xs ys r := by
  induction xs generalizing ys r with
  | nil =>
    obtain rfl := known_pure.1 h
    exact joins_nil_left
  | cons x xs ih =>
    exact H.joins_mergeEntry ih h

end Code

end Session

end JavaTypes
