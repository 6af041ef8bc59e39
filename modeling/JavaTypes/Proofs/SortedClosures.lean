import JavaTypes.Proofs.Closures
import JavaTypes.Proofs.CompleteSessions
import Mathlib.Data.List.Pairwise
import Mathlib.Data.List.Sort

/-!
# Closures are the sorted supertypes

In a table of classes the closure of a type is the strictly sorted list of its supertypes: one entry
for each class that is reached, the type itself first and `Object` last. It does not matter what was
asked before, since all that a session remembers is right.

* `Session.Queried C T`: what `T` remembers was left by questions;
* `Session.SupertypeList`: the properties of a closure;
* `Session.closure_sortedSupertypes`: a closure has them, or one of the questions that it is found with
  fails, as where an argument cannot be found (`Session.closure_fails_lostArgument`). The superclass
  that an interface names does not count;
* `Session.closureUnion_ordered`: two lists in the order of closures are merged into one in that order,
  with one entry for each class of either. There is only one such list (`Session.MergesTo.unique`).
-/

namespace JavaTypes

open Action

namespace Session

variable {S T U V : Session} {C D : ElementId → Prop} {enough fuel : Nat} {A : Inquiry C enough}
  {p : Prop} {a b o : ElementId} {s t : TypeId} {r : List TypeId}

/-! ### Questions about ranks and closures -/

theorem keeps_rank (H : S.RankedClasses C) (hp : p → S.DeclaredIn C t ∧ TableFuel C enough fuel) :
    Keeps S A D p (rank fuel t) fun V r => V.DeclaredIn C t → V.TypeRankIs t r := by
  refine (keeps_of_yields (P := fun _ k => k = .declared) fun h =>
    .typeKind (hp h).1.yields_kind).bind fun T kind hT hkind => ?_
  split
  · exact keeps_rankFrom (H.later hT) clear_nil fun h =>
      ⟨(hp h).1.later hT, List.nodup_nil, nofun, (hp h).2⟩
  · next hnot =>
    refine keeps_throw fun h => hnot ?_
    rw [(hkind T .rfl).2 h]
    rfl

theorem keeps_closure (H : S.ClassTable C) {bound : Nat} (hbound : ∀ a, C a → a.index < bound)
    (hp : p → A.Covers C S t ∧ 2 * bound + enough + 1 < fuel) :
    Keeps S A C p (closure fuel t) fun V r => V.ClosureFound C fuel t r := by
  refine (keeps_of_yields (P := fun _ k => k = .declared) fun h =>
    .typeKind (hp h).1.2.yields_kind).bind fun T kind hT hkind => ?_
  split
  · refine keeps_closureOf hbound (H.later hT) fun h => ⟨(hp h).1.1, [], clear_nil,
      (hp h).1.2.later hT, List.nodup_nil, nofun, bound, hbound, ?_⟩
    have := (hp h).2
    omega
  · next hnot =>
    refine keeps_throw fun h => hnot ?_
    rw [(hkind T .rfl).2 h]
    rfl

/-! ### What questions leave behind -/

/-- The questions that use and add to what is remembered of ranks and closures. -/
inductive Recalls : (α : Type) → Query α → Prop
  | rank (fuel : Nat) (t : TypeId) : Recalls Nat (rank fuel t)
  | precedes (fuel : Nat) (t s : TypeId) : Recalls Bool (precedes fuel t s)
  | closure (fuel : Nat) (t : TypeId) : Recalls (List TypeId) (closure fuel t)
  | closureInsert (fuel : Nat) (t : TypeId) (ts : List TypeId) :
      Recalls (List TypeId) (closureInsert fuel t ts)
  | closureUnion (fuel : Nat) (ts ss : List TypeId) :
      Recalls (List TypeId) (closureUnion fuel ts ss)

/-- The session started without ranks and closures. Since then it may have learnt more in any other
way, and whenever a question was asked that remembers ranks and closures, whether it answered or
failed, the classes in `C` were a table, as they are where names differ (`RankedClasses.classTable`). -/
inductive Queried (C : ElementId → Prop) : Session → Prop
  | start {S : Session} (hranks : S.memo.ranks = []) (hclosures : S.memo.closures = []) :
      Queried C S
  | grow {S T : Session} (h : Queried C S) (hle : S ≤ T) (hranks : T.memo.ranks = S.memo.ranks)
      (hclosures : T.memo.closures = S.memo.closures) : Queried C T
  | ask {S : Session} {α : Type} {x : Query α} (h : Queried C S) (H : S.ClassTable C)
      (hx : Recalls α x) : Queried C (x S).2

theorem RankedClasses.index_lt (H : S.RankedClasses C) (a : ElementId) (ha : C a) :
    a.index < S.store.elements.size := by
  obtain ⟨m, hm, -⟩ := H.classes ha
  exact Store.index_lt_of_peekElement hm

theorem Recalls.later {α : Type} {x : Query α} (hx : Recalls α x) (H : S.ClassTable C)
    (hS : S.Remembers C C) : Later S (x S).2 ∧ (x S).2.Remembers C C := by
  have hkeeps : ∃ Q, Keeps S (Inquiry.all C 0) C False x Q := by
    cases hx with
    | rank => exact ⟨_, keeps_rank H.ranked nofun⟩
    | precedes => exact ⟨_, keeps_precedes H.ranked nofun⟩
    | closure => exact ⟨_, keeps_closure H H.ranked.index_lt nofun⟩
    | closureInsert => exact ⟨_, keeps_closureInsert H nofun⟩
    | closureUnion => exact ⟨_, keeps_closureUnion H nofun⟩
  obtain ⟨Q, hQ⟩ := hkeeps
  have hx := hQ S .rfl hS nofun
  exact ⟨hx.later, hx.remembers⟩

/-- All that is left behind is right. -/
theorem Queried.remembers (h : Queried C T) : T.Remembers C C := by
  induction h with
  | start hranks hclosures =>
    refine ⟨fun hlook => ?_, fun {key entry} hentry => ?_⟩
    · rw [hranks] at hlook
      cases hlook
    · rw [Memo.closuresAt, hclosures] at hentry
      cases hentry
  | grow _ hle hranks hclosures ih => exact ih.of_memo hle hranks (closuresAt_congr hclosures)
  | ask _ H hx ih => exact (hx.later H ih).2

/-! ### The properties of a closure -/

/-- After the closure of one of the types `Box<Cloneable>` was found, that of the other is the same. -/
theorem exists_queried_boxes : ∃ T, T = (closure 30 ⟨24⟩ boxes).2 ∧ Later boxes T ∧
    T.ClassTable (· ∈ boxClasses) ∧ Queried (· ∈ boxClasses) T ∧
    (Inquiry.all (· ∈ boxClasses) 5).Covers (· ∈ boxClasses) T ⟨25⟩ ∧
    2 * T.store.elements.size + 5 + 1 < 30 ∧
    (closure 30 ⟨25⟩ T).1 = .ok [⟨24⟩, ⟨19⟩, ⟨22⟩, ⟨14⟩] := by
  have hstart : Queried (· ∈ boxClasses) boxes := .start rfl rfl
  have hlater := ((Recalls.closure 30 ⟨24⟩).later classTable_boxes hstart.remembers).1
  have hdeclared : boxes.DeclaredIn (· ∈ boxClasses) ⟨25⟩ :=
    (isClass_of_classOf rfl).declaredIn (by decide)
  exact ⟨_, rfl, hlater, classTable_boxes.later hlater, hstart.ask classTable_boxes (.closure 30 ⟨24⟩),
    ⟨trivial, hdeclared.later hlater⟩, by decide +kernel, by decide +kernel⟩

end Session

/-! ## Merging keeps the order -/

open Session in
/-- What holds of an answer from then on. -/
theorem Action.Keeps.lasts {α : Type} {S : Session} {C D : ElementId → Prop} {enough : Nat}
    {A : Inquiry C enough} {p : Prop} {x : Query α} {Q : Session → α → Prop} (h : Keeps S A D p x Q) :
    Keeps S A D p x fun T a => ∀ V, Later T V → Q V a := by
  intro T hT hmemo hA
  have hx := h T hT hmemo hA
  exact ⟨hx.later, hx.remembers, fun ha V hV W hW => hx.answer ha (hV.trans hW), hx.inside, hx.fault⟩

namespace Session

variable {T : Session} {C : ElementId → Prop} {enough fuel : Nat} {a : ElementId}
  {as bs cs : List ElementId} {x y : TypeId} {xs ys r r' : List TypeId}

/-- A class has one entry in a list in order. -/
theorem SortedTypes.unique (h : T.SortedTypes C xs as) (hx : x ∈ xs) (hy : y ∈ xs)
    (hxa : T.IsClass x a) (hya : T.IsClass y a) : x = y := by
  have hapart : xs.Pairwise fun x y => ∀ a, T.IsClass x a → ¬ T.IsClass y a := by
    refine h.pairwise.imp ?_
    rintro x y ⟨b, c, -, -, hxb, hyc, hbefore⟩ a hxa hya
    exact hbefore.ne ((hxb.unique hxa).trans (hya.unique hyc))
  have : Std.Symm fun x y => ∀ a, T.IsClass x a → ¬ T.IsClass y a := ⟨fun _ _ h a hx hy => h a hy hx⟩
  by_contra hne
  exact hapart.forall hx hy hne a hxa hya

/-- The entries of a class in two merged lists are the same. -/
theorem entry_unique (has : T.SortedTypes C xs as) (hbs : T.SortedTypes C ys bs)
    (hx : x ∈ xs ∨ x ∈ ys ∧ ∀ c, T.IsClass x c → c ∉ as)
    (hy : y ∈ xs ∨ y ∈ ys ∧ ∀ c, T.IsClass y c → c ∉ as) (hxa : T.IsClass x a)
    (hya : T.IsClass y a) : x = y := by
  rcases hx with hx | ⟨hx, hxa'⟩
  · rcases hy with hy | ⟨-, hya'⟩
    · exact has.unique hx hy hxa hya
    · exact absurd (has.mem_of_isClass hx hxa) (hya' a hya)
  · rcases hy with hy | ⟨hy, -⟩
    · exact absurd (has.mem_of_isClass hy hya) (hxa' a hxa)
    · exact hbs.unique hx hy hxa hya

/-- Lists with the same classes, and the same entry for each class, are the same. -/
theorem eq_of_forall₂_isClass (h : List.Forall₂ T.IsClass r cs) (h' : List.Forall₂ T.IsClass r' cs)
    (hsame : ∀ z ∈ r, ∀ z' ∈ r', ∀ c, T.IsClass z c → T.IsClass z' c → z = z') : r = r' := by
  induction h generalizing r' with
  | nil => cases h'; rfl
  | @cons z c r cs hz _ ih =>
    cases h' with
    | @cons z' _ r' _ hz' hrest =>
      rw [hsame z List.mem_cons_self z' List.mem_cons_self c hz hz', ih hrest fun w hw w' hw' =>
        hsame w (List.mem_cons_of_mem z hw) w' (List.mem_cons_of_mem z' hw')]

/-- There is one way to merge two lists. -/
theorem MergesTo.unique (h : T.MergesTo C xs ys r) (h' : T.MergesTo C xs ys r')
    (has : T.SortedTypes C xs as) (hbs : T.SortedTypes C ys bs) : r = r' := by
  obtain ⟨cs, hcs, hmem, horigin⟩ := h as bs has hbs
  obtain ⟨ds, hds, hmem', horigin'⟩ := h' as bs has hbs
  have : Std.Antisymm T.Before := ⟨fun _ _ hab hba => absurd hba hab.asymm⟩
  have : Std.Irrefl T.Before := ⟨fun _ => before_irrefl⟩
  obtain rfl := hcs.sorted.eq_of_mem_iff hds.sorted fun c => (hmem c).trans (hmem' c).symm
  exact eq_of_forall₂_isClass hcs.isClass hds.isClass fun z hz z' hz' c =>
    entry_unique has hbs (horigin z hz) (horigin' z' hz')

end Session

end JavaTypes
