import JavaTypes.Proofs.RepeatedClosures
import JavaTypes.Proofs.TiedEntries

/-!
# Elements that come up twice in a closure

A closure has one entry for each element, except for elements that share their rank and their name with
something else in the closure. Local classes of different methods can do so. Nothing is asked of the
class graph but that what it names is declared or missing: ranks need not be right, and there may be
cycles, as long as the closure is found.

* `Session.Onward S T`: the session `T` comes after `S` and remembers its ranks;
* `Session.Sorts T C t r`: the list is in order, and what `t` stands for has an entry;
* `Action.Upholds`: a triple for questions that remember closures in order;
* `upholds_closureOf`: closures are found in order, and remembered so;
* `closure_duplicatesTied`: an element that has two entries is tied.
-/

namespace JavaTypes

open Action

namespace Session

variable {S T U V : Session} {C : ElementId → Prop} {e : ElementId} {k t u : TypeId} {n : TypeNode}
  {ks r xs ys : List TypeId} {fuel : Nat} {key : Fingerprint}

/-- The second session comes after the first, and remembers its ranks. -/
structure Onward (S T : Session) : Prop where
  later : Later S T
  ranks : ∀ {e r}, S.memo.ranks.lookup e = some r → T.memo.ranks.lookup e = some r

theorem Onward.refl (S : Session) : Onward S S :=
  ⟨.rfl, id⟩

theorem Onward.trans (h₁ : Onward S T) (h₂ : Onward T U) : Onward S U :=
  ⟨h₁.later.trans h₂.later, fun hlook => h₂.ranks (h₁.ranks hlook)⟩

theorem Ranks.onward {pending : List ElementId} (h : Ranks pending S T) : Onward S T :=
  ⟨h.later, h.ranks⟩

theorem Onward.informs (h : Onward S T) : S.Informs T :=
  ⟨h.later.le, h.ranks⟩

/-! ### Closures in order -/

/-- The list is in order. What `t` stands for, if it is an element, has an entry. -/
def Sorts (T : Session) (C : ElementId → Prop) (t : TypeId) (r : List TypeId) : Prop :=
  ∃ owners, T.Arranged C (· ∈ owners) r owners ∧
    ∃ o, T.OwnedBy t o ∧ ∀ e, o = .element e → o ∈ owners

theorem Sorts.mono (h : S.Sorts C t r) (hT : S.Informs T) : T.Sorts C t r := by
  obtain ⟨owners, harranged, o, ho, hmem⟩ := h
  exact ⟨owners, harranged.mono hT, o, ho.mono hT.le, hmem⟩

theorem sorts_singleton (h : T.OwnedIn C t) : T.Sorts C t [t] := by
  obtain ⟨o, ho, hC⟩ := h
  exact ⟨[o], ⟨.cons ho .nil, List.pairwise_singleton _ _, by simpa using hC⟩, o, ho,
    fun _ _ => List.mem_cons_self⟩

/-- Lists that are joined stay in order: what was tied within one of them still is. -/
theorem Joins.sorts (h : T.Joins C xs ys r) (hxs : T.Sorts C k xs) (hys : T.Sorts C t ys) :
    T.Sorts C k r ∧ T.Sorts C t r := by
  obtain ⟨as, has, a, hka, ha⟩ := hxs
  obtain ⟨bs, hbs, b, htb, hb⟩ := hys
  obtain ⟨cs, hcs, hmem⟩ := h (fun c => c ∈ as ∨ c ∈ bs) as bs (has.imp fun _ => .inl)
    (hbs.imp fun _ => .inr)
  have harranged : T.Arranged C (· ∈ cs) r cs := hcs.imp fun c hc => (hmem c).2 hc
  exact ⟨⟨cs, harranged, a, hka, fun e he => (hmem a).2 (.inl (ha e he))⟩,
    ⟨cs, harranged, b, htb, fun e he => (hmem b).2 (.inr (hb e he))⟩⟩

/-- A closure of an equal type will do. -/
theorem Lineage.sorts_of_equalTypes (H : T.Lineage C) (ht : T.OwnedIn C t) (h : T.TypesEqual t k)
    (hk : T.Sorts C k r) : T.Sorts C t r := by
  obtain ⟨owners, harranged, o, hko, hmem⟩ := hk
  obtain ⟨o', hto, hC⟩ := ht
  refine ⟨owners, harranged, o', hto, fun e he => ?_⟩
  subst he
  obtain rfl := hko.unique (H.ownedBy_of_equalTypes (hC e rfl) hto h)
  exact hmem e rfl

/-! ### What is remembered -/

/-- All closures that are remembered for types that belong to `C` are in order. -/
def Recollects (T : Session) (C : ElementId → Prop) : Prop :=
  ∀ {key entry}, entry ∈ T.memo.closuresAt key → ∀ {V}, T.Informs V → V.OwnedIn C entry.type →
    V.Sorts C entry.type entry.closure

theorem Recollects.of_closures (h : S.Recollects C) (hT : S.Informs T)
    (hclosures : ∀ key, T.memo.closuresAt key = S.memo.closuresAt key) : T.Recollects C := by
  intro key entry hentry V hV
  rw [hclosures] at hentry
  exact h hentry (hT.trans hV)

theorem Recollects.of_ranks (h : S.Recollects C) (hT : S.Ranks [] T) : T.Recollects C := by
  refine h.of_closures hT.toInforms fun key => ?_
  rw [Memo.closuresAt, hT.closures]
  rfl

theorem informs_remember (T : Session) (closures : List (Fingerprint × List ClosureEntry)) :
    T.Informs { T with memo := { T.memo with closures := closures } } :=
  ⟨(later_remember T T.memo.ranks closures).le, id⟩

theorem Recollects.openClosures (h : T.Recollects C) (key : Fingerprint) :
    Recollects { T with memo := T.memo.openClosures key } C := by
  obtain ⟨closures, heq⟩ := exists_openClosures_eq T.memo key
  refine h.of_closures ?_ fun key' => closuresAt_openClosures T.memo key key'
  rw [heq]
  exact informs_remember T closures

theorem Recollects.addClosure (h : T.Recollects C) (key : Fingerprint) {entry : ClosureEntry}
    (hentry : ∀ V, T.Informs V → V.OwnedIn C entry.type → V.Sorts C entry.type entry.closure) :
    Recollects { T with memo := T.memo.addClosure key entry } C := by
  intro key' entry' hmem V hV
  have hTV := (informs_remember T (T.memo.addClosure key entry).closures).trans hV
  rcases mem_closuresAt_addClosure hmem with hmem | rfl
  · exact h hmem hTV
  · exact hentry V hTV

/-- It is known what a type stands for once its fingerprint is. -/
theorem Belongs.ownedIn (h : T.Belongs C t) (hkey : Known (onStore (typeFingerprint t)) T key) :
    T.OwnedIn C t := by
  obtain ⟨u, n, ht⟩ := exists_peekType_of_fingerprint (known_onStore.1 hkey)
  obtain ⟨hk, hC⟩ := h T .rfl u n ht
  cases hd : n.element with
  | none =>
    exact ⟨.node u, ⟨u, n, none, ht, hk, known_elementOf_none.2 hd, rfl⟩, nofun⟩
  | some d =>
    obtain ⟨⟨e, m⟩, hm⟩ := exists_peek_of_fingerprint (known_onStore.1 hkey) ht hk hd
    have he := known_elementOf_some.2 ⟨d, m, hd, hm⟩
    refine ⟨.element e, ⟨u, n, some e, ht, hk, he, rfl⟩, ?_⟩
    rintro e' ⟨⟩
    exact hC e he

/-- What a type stands for was known before, if its fingerprint was. -/
theorem OwnedIn.of_fingerprint (h : V.OwnedIn C t)
    (hkey : Known (onStore (typeFingerprint t)) T key) (hle : T ≤ V) : T.OwnedIn C t := by
  obtain ⟨u, n, ht⟩ := exists_peekType_of_fingerprint (known_onStore.1 hkey)
  obtain ⟨o, ho, hC⟩ := h
  obtain ⟨u', n', -, ht', hk, -⟩ := id ho
  cases (peekType_mono hle.store ht).symm.trans ht'
  have hany : T.Belongs (fun _ => True) t := by
    intro W hW v m hv
    cases (peekType_mono hW.le.store ht).symm.trans hv
    exact ⟨hk, fun _ _ => trivial⟩
  obtain ⟨o', ho', -⟩ := hany.ownedIn hkey
  obtain rfl := ho.unique (ho'.mono hle)
  exact ⟨o, ho', hC⟩

end Session

/-! ### Questions that keep what is remembered in order -/

namespace Action

open Session

variable {α β : Type} {S : Session} {C : ElementId → Prop} {x : Query α} {f : α → Query β}
  {P Q : Session → α → Prop} {R : Session → β → Prop}

/-- Asked in any session after `S` that remembers closures in order, `x` leads to such a session. If it
answers, the answer has a property from then on. -/
def Upholds (C : ElementId → Prop) (S : Session) (x : Query α) (Q : Session → α → Prop) : Prop :=
  ∀ T, Onward S T → T.Recollects C → Onward T (x T).2 ∧ (x T).2.Recollects C ∧
    ∀ a, (x T).1 = .ok a → ∀ V, Onward (x T).2 V → Q V a

theorem Upholds.imp (h : Upholds C S x P) (hPQ : ∀ T a, Onward S T → P T a → Q T a) :
    Upholds C S x Q := by
  intro T hT hmemo
  obtain ⟨honward, hmemo', hanswer⟩ := h T hT hmemo
  exact ⟨honward, hmemo', fun a ha V hV =>
    hPQ V a (hT.trans (honward.trans hV)) (hanswer a ha V hV)⟩

theorem upholds_pure {a : α} (h : ∀ T, Onward S T → Q T a) : Upholds C S (pure a) Q := by
  intro T hT hmemo
  refine ⟨.refl T, hmemo, fun b hb V hV => ?_⟩
  cases hb
  exact h V (hT.trans hV)

theorem upholds_throw {e : Fault} : Upholds C S (throw e : Query α) Q :=
  fun T _ hmemo => ⟨.refl T, hmemo, nofun⟩

theorem Upholds.bind (hx : Upholds C S x P)
    (hf : ∀ T a, Onward S T → (∀ V, Onward T V → P V a) → Upholds C T (f a) R) :
    Upholds C S (x >>= f) R := by
  intro T hT hmemo
  obtain ⟨honward, hmemo', hanswer⟩ := hx T hT hmemo
  rw [bind_apply]
  cases hr : x T with
  | mk r U =>
    rw [hr] at honward hmemo' hanswer
    cases r with
    | ok a =>
      obtain ⟨honward', hmemo'', hanswer'⟩ :=
        hf U a (hT.trans honward) (hanswer a rfl) U (.refl U) hmemo'
      exact ⟨honward.trans honward', hmemo'', hanswer'⟩
    | error e => exact ⟨honward, hmemo', nofun⟩

/-- A question whose answer lasts remembers no closures. -/
theorem upholds_of_lasts [h : Lasts x x] : Upholds C S x fun V a => Known x V a := by
  intro T hT hmemo
  have hranks := h.ranks.run T
  refine ⟨hranks.onward, hmemo.of_ranks hranks, fun a ha V hV => ?_⟩
  exact h.stays (Prod.ext ha rfl) hV.informs

theorem upholds_modifyMemo {change : Memo → Memo}
    (hchange : ∀ m, ∃ closures, change m = { m with closures := closures })
    (h : ∀ T, Onward S T → T.Recollects C → Recollects { T with memo := change T.memo } C) :
    Upholds C S (modifyMemo change) fun _ _ => True := by
  intro T hT hmemo
  refine ⟨?_, h T hT hmemo, fun _ _ _ _ => trivial⟩
  obtain ⟨closures, heq⟩ := hchange T.memo
  show Onward T { T with memo := change T.memo }
  rw [heq]
  exact ⟨later_remember T T.memo.ranks closures, id⟩

end Action

namespace Session

section Closures

variable {S : Session} {C : ElementId → Prop} {t u : TypeId} {n : TypeNode} {r ks : List TypeId}
  {fuel : Nat} {key : Fingerprint} (H : S.Lineage C) (hkey : Known (onStore (typeFingerprint u)) S
  key) {closureOf : TypeId → Query (List TypeId)}

/-- A closure that is remembered for an equal type. -/
theorem upholds_rememberedClosure :
    Upholds C S (rememberedClosure fuel key t) fun V r => ∀ closure, r = some closure →
      ∃ k, V.TypesEqual k t ∧ (V.OwnedIn C k → V.Sorts C k closure) := by
  intro T hT hmemo
  have hranks := (ranks_rememberedClosure fuel key t).run T
  refine ⟨hranks.onward, hmemo.of_ranks hranks, fun r hr V hV closure hclosure => ?_⟩
  subst hclosure
  have hknown := known_of_rememberedClosure le_rfl (Prod.ext hr rfl)
  obtain ⟨entry, hmem, rfl, hequal⟩ :=
    exists_equal_of_known_findClosure (known_rememberedClosure.1 hknown)
  refine ⟨entry.type, TypesEqual.mono hequal hV.later.le, ?_⟩
  exact hmemo.of_ranks hranks hmem hV.informs

include hkey

theorem upholds_rememberClosure (hclosure : ∀ V, Onward S V → V.Belongs C u → V.Sorts C u r) :
    Upholds C S (rememberClosure fuel key u r) fun _ _ => True := by
  refine (upholds_modifyMemo (fun m => exists_openClosures_eq m key)
    fun T _ hmemo => hmemo.openClosures key).bind fun T _ hT _ => ?_
  refine upholds_rememberedClosure.bind fun U found hU _ => ?_
  cases found with
  | some _ => exact upholds_pure fun _ _ => trivial
  | none =>
    refine upholds_modifyMemo (fun m => ⟨_, rfl⟩) fun V hV hmemo => hmemo.addClosure key
      fun W hW howned => ?_
    have hSV := hT.trans (hU.trans hV)
    have hbefore := howned.of_fingerprint (known_typeFingerprint_mono hkey hSV.later.le) hW.le
    exact (hclosure V hSV hbefore.belongs).mono hW

include H

theorem upholds_unionEach
    (hrec : ∀ T k, Onward S T → Upholds C T (closureOf k) fun V r => V.Belongs C k → V.Sorts C k r)
    (hks : ∀ V, Onward S V → V.Belongs C u → ∀ k ∈ ks, V.Belongs C k)
    (hr : ∀ V, Onward S V → V.Belongs C u → V.Sorts C u r) :
    Upholds C S (unionEach fuel closureOf r ks) fun V r => V.Belongs C u → V.Sorts C u r := by
  induction ks generalizing S r with
  | nil => exact upholds_pure hr
  | cons k ks ih =>
    refine (hrec S k (.refl S)).bind fun T other hT hother => ?_
    refine upholds_of_lasts.bind fun U merged hU hmerged => ?_
    have hSU := hT.trans hU
    refine ih (H.later hSU.later) (known_typeFingerprint_mono hkey hSU.later.le)
      (fun V k' hV => hrec V k' (hSU.trans hV))
      (fun V hV hu k' hk' => hks V (hSU.trans hV) hu k' (List.mem_cons_of_mem k hk'))
      fun V hV hu => ?_
    have hSV := hSU.trans hV
    have hjoins := (H.later hSV.later).joins_closureUnion (hmerged V hV)
    exact (hjoins.sorts (hr V hSV hu)
      (hother V (hU.trans hV) (hks V hSV hu k List.mem_cons_self))).1

/-- The superclass of a type that belongs to the lineage is absent, declared or missing. -/
theorem upholds_classClosure (hpeek : S.Shows u u n)
    (hrec : ∀ T k, Onward S T → Upholds C T (closureOf k) fun V r =>
      V.Belongs C k → V.Sorts C k r) :
    Upholds C S (classClosure fuel closureOf u n) fun V r => V.Belongs C u → V.Sorts C u r := by
  have hself : ∀ V, Onward S V → V.Belongs C u → V.Sorts C u [u] := fun V hV hu =>
    sorts_singleton (hu.ownedIn (known_typeFingerprint_mono hkey hV.later.le))
  have hkind : ∀ V, Onward S V → V.Belongs C u → n.kind.isDeclaredLike = true := fun V hV hu =>
    (hu V .rfl u n (hpeek.mono hV.later.le)).1
  refine upholds_of_lasts.bind fun T above hT habove => ?_
  have hbelongs : ∀ V, Onward T V → V.Belongs C u → above = TypeId.none ∨ V.Belongs C above :=
    fun V hV hu => (H.later (hT.trans hV).later).belongs_supertype hu (habove V hV)
  split
  · next hinter =>
    refine (hrec T above hT).imp fun V r hV _ hu => ?_
    have hlike := hkind V (hT.trans hV) hu
    rw [hinter] at hlike
    cases hlike
  refine upholds_of_lasts.bind fun U kind hU hknown => ?_
  -- what is above is declared or missing, unless it is absent
  have hlike : ∀ V, Onward U V → V.Belongs C u → kind = .noType .none ∨
      kind.isDeclaredLike = true ∧ V.Belongs C above := by
    intro V hV hu
    obtain ⟨v, m, hv, rfl⟩ := known_typeKind.1 (known_onStore.1 (hknown V hV))
    rcases hbelongs V (hU.trans hV) hu with rfl | habove
    · obtain ⟨m', hm', hnone⟩ := (H.later (hT.trans (hU.trans hV)).later).absent
      cases hv.symm.trans hm'
      exact .inl hnone
    · exact .inr ⟨(habove V .rfl v m hv).1, habove⟩
  have hTU := hT.trans hU
  split
  case h_1 | h_2 =>
    refine (hrec U above hTU).bind fun W closure hW hclosure => ?_
    refine upholds_of_lasts.imp fun V r hV hr hu => ?_
    have hSV := hTU.trans (hW.trans hV)
    have habove := ((hlike V (hW.trans hV) hu).resolve_left (by rintro ⟨⟩)).2
    have hjoins := (H.later hSV.later).joins_closureInsert hr
    exact (hjoins.sorts (hclosure V hV habove) (hself V hSV hu)).2
  case h_3 =>
    refine (hrec U above hTU).bind fun W closure hW _ => upholds_pure fun V hV hu => ?_
    rcases hlike V (hW.trans hV) hu with hnone | ⟨hlike, -⟩
    · cases hnone
    · cases hlike
  case h_4 => exact upholds_pure fun V hV hu => hself V (hTU.trans hV) hu

end Closures

variable {S T V : Session} {C : ElementId → Prop} {t : TypeId} {r : List TypeId} {fuel : Nat}

/-- A closure is found in order, and remembered so. -/
theorem upholds_closureOf (fuel : Nat) (t : TypeId) (H : S.Lineage C) :
    Upholds C S (closureOf fuel t) fun V r => V.Belongs C t → V.Sorts C t r := by
  induction fuel generalizing t S with
  | zero => exact upholds_throw
  | succ fuel ih =>
    refine upholds_of_lasts.bind fun T x hT hx => ?_
    obtain ⟨u, n⟩ := x
    have ht : ∀ V, Onward T V → V.Shows t u n := fun V hV => shows_of_known (hx V hV)
    -- what is said of the completed type is said of the type
    have hnode : ∀ V r, Onward T V → (V.Belongs C u → V.Sorts C u r) → V.Belongs C t →
        V.Sorts C t r := by
      intro V r hV h hbelongs
      obtain ⟨owners, harranged, o, ho, hmem⟩ := h (hbelongs.of_node (ht V hV))
      exact ⟨owners, harranged, o, (ownedBy_node_iff (ht V hV)).1 ho, hmem⟩
    refine .imp ?_ fun V r hV h => hnode V r hV h
    refine upholds_of_lasts.bind fun U key hU hkey => ?_
    refine upholds_rememberedClosure.bind fun W found hW hfound => ?_
    have hTW := hU.trans hW
    have hHW := H.later (hT.trans hTW).later
    cases found with
    | some closure =>
      refine upholds_pure fun V hV hu => ?_
      obtain ⟨k, hequal, hk⟩ := hfound V hV closure rfl
      have hequal := Equality.EqualTypes.symm hequal
      have howned := hu.ownedIn (hkey V (hW.trans hV))
      have hHV := hHW.later hV.later
      exact hHV.sorts_of_equalTypes howned hequal (hk (hHV.ownedIn_of_equalTypes howned hequal))
    | none =>
      have hpeek : ∀ V, Onward W V → V.Shows u u n := fun V hV =>
        Store.peekType_self (ht V (hTW.trans hV))
      have hrec : ∀ V k, Onward W V → Upholds C V (closureOf fuel k) fun V r =>
          V.Belongs C k → V.Sorts C k r := fun V k hV => ih k (hHW.later hV.later)
      refine (upholds_classClosure hHW (hkey W hW) (hpeek W (.refl W)) hrec).bind
        fun X classes hX hclasses => ?_
      refine upholds_of_lasts.bind fun Y ks hY hks => ?_
      have hWY := hX.trans hY
      have hHY := hHW.later hWY.later
      have hinterfaces : ∀ V, Onward Y V → V.Belongs C u → ∀ k ∈ ks, V.Belongs C k :=
        fun V hV hu => (hHY.later hV.later).belongs_interfaces hu (hks V hV)
      refine (upholds_unionEach hHY (hkey Y (hW.trans hWY)) (fun V k hV => hrec V k (hWY.trans hV))
        hinterfaces fun V hV => hclasses V (hY.trans hV)).bind fun Z closure hZ hclosure => ?_
      have hWZ := hWY.trans hZ
      refine (upholds_rememberClosure (hkey Z (hW.trans hWZ)) hclosure).bind fun A _ hA _ => ?_
      exact upholds_pure fun V hV => hclosure V (hA.trans hV)

theorem upholds_closure (H : S.Lineage C) :
    Upholds C S (closure fuel t) fun V r => V.Belongs C t → V.Sorts C t r := by
  refine upholds_of_lasts.bind fun T kind hT _ => ?_
  split
  · exact upholds_closureOf fuel t (H.later hT.later)
  · exact upholds_throw

/-! ### What questions leave behind -/

/-- The session started without closures. Since then it may have learnt more in any other way, and
whenever a question was asked that remembers ranks and closures, whether it answered or failed, the
elements in `C` were a lineage. -/
inductive Recorded (C : ElementId → Prop) : Session → Prop
  | start {S : Session} (hclosures : S.memo.closures = []) : Recorded C S
  | grow {S T : Session} (h : Recorded C S) (hT : S.Informs T)
      (hclosures : T.memo.closures = S.memo.closures) : Recorded C T
  | ask {S : Session} {α : Type} {x : Query α} (h : Recorded C S) (H : S.Lineage C)
      (hx : Recalls α x) : Recorded C (x S).2

theorem Recalls.onward {α : Type} {x : Query α} (hx : Recalls α x) (H : S.Lineage C)
    (hS : S.Recollects C) : Onward S (x S).2 ∧ (x S).2.Recollects C := by
  have hlasts : Query.Ranks [] x → Onward S (x S).2 ∧ (x S).2.Recollects C := fun h =>
    ⟨(h.run S).onward, hS.of_ranks (h.run S)⟩
  cases hx with
  | closure =>
    obtain ⟨honward, hmemo, -⟩ := upholds_closure H S (.refl S) hS
    exact ⟨honward, hmemo⟩
  | _ => exact hlasts inferInstance

/-- Whatever closures are left behind are in order. -/
theorem Recorded.recollects (h : Recorded C T) : T.Recollects C := by
  induction h with
  | start hclosures =>
    intro key entry hentry
    rw [Memo.closuresAt, hclosures] at hentry
    cases hentry
  | grow _ hT hclosures ih =>
    refine ih.of_closures hT fun key => ?_
    rw [Memo.closuresAt, hclosures]
    rfl
  | ask _ H hx ih => exact (hx.onward H ih).2

/-! ### Duplicates -/

/-- In a list that is in order, what has two entries is tied with something else in the list. -/
theorem Arranged.tied_of_sublist {P : Owner → Prop} {owners : List Owner} {a : Owner} {x y : TypeId}
    (h : T.Arranged C P r owners) (hsub : [x, y].Sublist r) (hx : T.OwnedBy x a)
    (hy : T.OwnedBy y a) : ∃ c, P c ∧ c ≠ a ∧ T.Tied a c := by
  induction r generalizing owners with
  | nil => cases hsub
  | cons z r ih =>
    obtain ⟨b, owners', rfl, hz, -, hfollows, hrest⟩ := h.exists_cons
    cases hsub with
    | cons _ hsub => exact ih hrest hsub
    | cons_cons _ hsub =>
      obtain rfl := hx.unique hz
      obtain ⟨b, hb, hyb⟩ := exists_of_forall₂_left hrest.owned (List.singleton_sublist.1 hsub)
      obtain rfl := hy.unique hyb
      exact ((hfollows a hb).resolve_left not_ahead_self).2

/-- An element that has two entries in a closure shares its rank and its name with something else that
has an entry. -/
theorem closure_duplicatesTied (H : S.Lineage C) (hS : Recorded C S) (ht : S.Belongs C t)
    (hr : closure fuel t S = (.ok r, V)) :
    (∀ e, V.OwnedBy t (.element e) → ∃ x ∈ r, V.OwnedBy x (.element e)) ∧
      ∀ x y e, [x, y].Sublist r → V.OwnedBy x (.element e) → V.OwnedBy y (.element e) →
        ∃ z ∈ r, ∃ o, V.OwnedBy z o ∧ o ≠ .element e ∧ V.Tied (.element e) o := by
  obtain ⟨honward, -, hanswer⟩ := upholds_closure H S (Onward.refl S) hS.recollects
  rw [hr] at honward hanswer
  obtain ⟨owners, harranged, o, hto, hmem⟩ :=
    hanswer r rfl V (Onward.refl V) (ht.later honward.later)
  have hentry : ∀ a ∈ owners, ∃ x ∈ r, V.OwnedBy x a := fun a ha =>
    exists_of_forall₂_right harranged.owned ha
  refine ⟨fun e he => ?_, fun x y e hsub hx hy => ?_⟩
  · obtain rfl := hto.unique he
    exact hentry (.element e) (hmem e rfl)
  · obtain ⟨c, hc, hne, htied⟩ := harranged.tied_of_sublist hsub hx hy
    obtain ⟨z, hz, hzc⟩ := hentry c hc
    exact ⟨z, hz, c, hzc, hne, htied⟩

/-! ### Local classes that share a name -/

/-- Two methods `f` and `g` each have a local interface `L`. A class `A` and an interface `B` name both of
them, in different orders, and the class `D` extends `A` and implements `B`. -/
def localTypes : Session :=
  ofNodes
    [.ofClass 5 [], .ofClass 6 [], .ofClass 7 [], .ofClass 8 [], .ofClass 9 []]
    [{ name := some "f", detail := .executable .method {} },
     { name := some "g", detail := .executable .method {} },
     { name := some "L", type := some ⟨17⟩, enclosing := some ⟨3⟩, detail := .type .interface {} },
     { name := some "L", type := some ⟨18⟩, enclosing := some ⟨4⟩, detail := .type .interface {} },
     .ofType "A" 19 .plain { interfaces := [⟨17⟩, ⟨18⟩] },
     .ofType "B" 20 .interface { interfaces := [⟨18⟩, ⟨17⟩] },
     .ofType "D" 21 .plain { superclass := some ⟨19⟩, interfaces := [⟨20⟩] }]

/-- The classes of `localTypes`. -/
def localClasses : List ElementId :=
  [⟨0⟩, ⟨1⟩, ⟨2⟩, ⟨5⟩, ⟨6⟩, ⟨7⟩, ⟨8⟩, ⟨9⟩]

theorem known_wellKnown_localTypes : Known wellKnown localTypes languageClasses := rfl

theorem listsClass_localTypes :
    ∀ e ∈ localClasses, localTypes.listsClass languageClasses localClasses e = true := by
  decide +kernel

theorem lineage_localTypes : localTypes.Lineage (· ∈ localClasses) := by
  have hcomplete : localTypes.store.Complete := ⟨rfl, rfl⟩
  have hapart : ∀ a ∈ localClasses, localTypes.listsApart a = true := by decide +kernel
  refine lineage_of_classes nofun ⟨_, rfl, rfl⟩ (fun e he => ?_)
    fun T hT d d' a b m n ha => eq_of_listsApart hcomplete hT (hapart a ha)
  exact tableClass_of_listsClass known_wellKnown_localTypes (by decide) (listsClass_localTypes e he)

/-- No class of `localTypes` is above itself. But the closure of `D` has two entries for each `L`. -/
theorem closure_repeats_localTypes :
    (∀ T, Later localTypes T → ∀ e ∈ localClasses, ¬ Relation.TransGen T.Extends e e) ∧
      localTypes.IsClass ⟨17⟩ ⟨5⟩ ∧ localTypes.IsClass ⟨18⟩ ⟨6⟩ ∧
        (closure 30 ⟨21⟩ localTypes).1 =
          .ok [⟨21⟩, ⟨19⟩, ⟨20⟩, ⟨17⟩, ⟨18⟩, ⟨18⟩, ⟨17⟩, ⟨14⟩] := by
  refine ⟨fun T hT e he => ?_, isClass_of_classOf rfl, isClass_of_classOf rfl, by decide +kernel⟩
  exact not_above_self_of_listsClass known_wellKnown_localTypes listsClass_localTypes hT he

/-- The first `L` has two entries in the closure of `D`, so it is tied with something else. -/
theorem closure_duplicatesTied_localTypes :
    ∃ r V, closure 30 ⟨21⟩ localTypes = (.ok r, V) ∧ [⟨17⟩, ⟨17⟩].Sublist r ∧
      V.OwnedBy ⟨17⟩ (.element ⟨5⟩) ∧
        ∃ z ∈ r, ∃ o, V.OwnedBy z o ∧ o ≠ .element ⟨5⟩ ∧ V.Tied (.element ⟨5⟩) o := by
  have hfound : (closure 30 ⟨21⟩ localTypes).1 =
      .ok [⟨21⟩, ⟨19⟩, ⟨20⟩, ⟨17⟩, ⟨18⟩, ⟨18⟩, ⟨17⟩, ⟨14⟩] := by
    decide +kernel
  have hstart : Recorded (· ∈ localClasses) localTypes := .start rfl
  have honward := ((Recalls.closure 30 ⟨21⟩).onward lineage_localTypes hstart.recollects).1
  have hbelongs : localTypes.Belongs (· ∈ localClasses) ⟨21⟩ :=
    ((isClass_of_classOf rfl).declaredIn (by decide)).belongs
  have hclass : localTypes.IsClass ⟨17⟩ ⟨5⟩ := isClass_of_classOf rfl
  -- what follows is about any session after the question, and must not evaluate this one
  generalize hr : closure 30 ⟨21⟩ localTypes = answer at hfound honward ⊢
  obtain ⟨first, V⟩ := answer
  obtain rfl : first = .ok [⟨21⟩, ⟨19⟩, ⟨20⟩, ⟨17⟩, ⟨18⟩, ⟨18⟩, ⟨17⟩, ⟨14⟩] := hfound
  have howned := hclass.ownedBy.mono honward.later.le
  refine ⟨_, V, rfl, by decide, howned, ?_⟩
  exact (closure_duplicatesTied lineage_localTypes hstart hbelongs hr).2 ⟨17⟩ ⟨17⟩ ⟨5⟩ (by decide)
    howned howned

end Session

end JavaTypes
