import JavaTypes.Proofs.Precedence

/-!
# Merging closures

Types in the order of closures, one for each class, are merged without loss and stay in order.

* `Session.SortedTypes T C entries classes`: the entries are types of the classes, in order;
* `Session.MergesTo`: a list has the classes of two others, and the entries of the first of them;
* `keeps_closureInsert`: a type is put into its place, unless its class has an entry;
* `keeps_closureUnion`: the union of two lists has the classes of both.
-/

namespace JavaTypes

open Action

namespace Session

variable {S T V : Session} {C D : ElementId → Prop} {enough fuel : Nat} {A : Inquiry C enough}
  {p : Prop} {a b c : ElementId} {as bs cs : List ElementId} {t x y : TypeId} {xs ys r : List TypeId}

/-- The entries are types of classes in `C`, each of which comes before those that follow. -/
structure SortedTypes (T : Session) (C : ElementId → Prop) (entries : List TypeId)
    (classes : List ElementId) : Prop where
  isClass : List.Forall₂ T.IsClass entries classes
  sorted : classes.Pairwise T.Before
  mem : ∀ b ∈ classes, C b

theorem sortedTypes_nil : T.SortedTypes C [] [] :=
  ⟨.nil, .nil, nofun⟩

theorem SortedTypes.declaredIn (h : T.SortedTypes C xs as) (hx : x ∈ xs) : T.DeclaredIn C x := by
  obtain ⟨a, ha, hxa⟩ := exists_of_forall₂_left h.isClass hx
  exact hxa.declaredIn (h.mem a ha)

/-- A list whose entries have classes starts with a class of its own. -/
theorem SortedTypes.exists_cons (h : T.SortedTypes C (x :: xs) as) :
    ∃ a as', as = a :: as' ∧ T.IsClass x a ∧ C a ∧ (∀ b ∈ as', T.Before a b) ∧
      T.SortedTypes C xs as' := by
  obtain ⟨hclass, hsorted, hmem⟩ := h
  cases hclass with
  | cons hxa hrest =>
    obtain ⟨hbefore, hsorted⟩ := List.pairwise_cons.1 hsorted
    obtain ⟨ha, hmem⟩ := List.forall_mem_cons.1 hmem
    exact ⟨_, _, rfl, hxa, ha, hbefore, hrest, hsorted, hmem⟩

theorem SortedTypes.cons (h : T.SortedTypes C xs as) (hx : T.IsClass x a) (ha : C a)
    (hbefore : ∀ b ∈ as, T.Before a b) : T.SortedTypes C (x :: xs) (a :: as) :=
  ⟨.cons hx h.isClass, List.pairwise_cons.2 ⟨hbefore, h.sorted⟩, List.forall_mem_cons.2 ⟨ha, h.mem⟩⟩

theorem SortedTypes.pairwise : ∀ {xs : List TypeId} {as : List ElementId}, T.SortedTypes C xs as →
    xs.Pairwise fun x y => ∃ a b, C a ∧ C b ∧ T.IsClass x a ∧ T.IsClass y b ∧ T.Before a b
  | [], _, _ => .nil
  | x :: xs, as, h => by
      obtain ⟨a, as', rfl, hxa, ha, hbefore, hrest⟩ := h.exists_cons
      refine List.pairwise_cons.2 ⟨fun y hy => ?_, hrest.pairwise⟩
      obtain ⟨b, hb, hyb⟩ := exists_of_forall₂_left hrest.isClass hy
      exact ⟨a, b, ha, hrest.mem b hb, hxa, hyb, hbefore b hb⟩

/-- What comes before the first class of a list comes before all of them. -/
theorem before_of_head (hab : T.Before a b) (hbs : ∀ c ∈ bs, T.Before b c) :
    ∀ c ∈ b :: bs, T.Before a c := by
  intro c hc
  rcases List.mem_cons.1 hc with rfl | hc
  · exact hab
  · exact hab.trans (hbs c hc)

theorem SortedTypes.mem_of_isClass (h : T.SortedTypes C xs as) (hx : x ∈ xs) (ha : T.IsClass x a) :
    a ∈ as := by
  obtain ⟨b, hb, hxb⟩ := exists_of_forall₂_left h.isClass hx
  rwa [ha.unique hxb]

/-! ### Merging two lists -/

/-- The list `r` has the classes of `xs` and of `ys`. A class that both have keeps its entry in `xs`. -/
def MergesTo (T : Session) (C : ElementId → Prop) (xs ys r : List TypeId) : Prop :=
  ∀ as bs, T.SortedTypes C xs as → T.SortedTypes C ys bs → ∃ cs, T.SortedTypes C r cs ∧
    (∀ c, c ∈ cs ↔ c ∈ as ∨ c ∈ bs) ∧ ∀ z ∈ r, z ∈ xs ∨ z ∈ ys ∧ ∀ c, T.IsClass z c → c ∉ as

theorem mergesTo_nil_left : T.MergesTo C [] ys ys := by
  intro as bs has hbs
  cases has.isClass
  exact ⟨bs, hbs, by simp, fun z hz => .inr ⟨hz, fun _ _ => List.not_mem_nil⟩⟩

theorem mergesTo_nil_right : T.MergesTo C xs [] xs := by
  intro as bs has hbs
  cases hbs.isClass
  exact ⟨as, has, by simp, fun z hz => .inl hz⟩

theorem mergesTo_same (hsame : ∀ a b, C a → C b → T.IsClass x a → T.IsClass y b → a = b)
    (h : T.MergesTo C xs ys r) : T.MergesTo C (x :: xs) (y :: ys) (x :: r) := by
  intro as bs has hbs
  obtain ⟨a, as', rfl, hxa, ha, has', hsorted⟩ := has.exists_cons
  obtain ⟨b, bs', rfl, hyb, hb, hbs', hsorted'⟩ := hbs.exists_cons
  obtain rfl := hsame a b ha hb hxa hyb
  obtain ⟨cs, hcs, hmem, horigin⟩ := h as' bs' hsorted hsorted'
  refine ⟨a :: cs, hcs.cons hxa ha fun c hc => ?_, fun c => ?_, fun z hz => ?_⟩
  · exact ((hmem c).1 hc).elim (has' c) (hbs' c)
  · simp only [List.mem_cons, hmem]
    exact or_or_distrib_left
  · rcases List.mem_cons.1 hz with rfl | hz
    · exact .inl List.mem_cons_self
    refine (horigin z hz).imp (List.mem_cons_of_mem x) fun ⟨hz, hnot⟩ =>
      ⟨List.mem_cons_of_mem y hz, fun c hc => List.not_mem_cons_of_ne_of_not_mem ?_ (hnot c hc)⟩
    exact (hbs' c (hsorted'.mem_of_isClass hz hc)).ne.symm

theorem mergesTo_before (hbefore : ∀ a b, C a → C b → T.IsClass x a → T.IsClass y b → T.Before a b)
    (h : T.MergesTo C xs (y :: ys) r) : T.MergesTo C (x :: xs) (y :: ys) (x :: r) := by
  intro as bs has hbs
  obtain ⟨a, as', rfl, hxa, ha, has', hsorted⟩ := has.exists_cons
  obtain ⟨b, bs', rfl, hyb, hb, hbs', -⟩ := hbs.exists_cons
  obtain ⟨cs, hcs, hmem, horigin⟩ := h as' (b :: bs') hsorted hbs
  have hab := before_of_head (hbefore a b ha hb hxa hyb) hbs'
  refine ⟨a :: cs, hcs.cons hxa ha fun c hc => ?_, fun c => ?_, fun z hz => ?_⟩
  · exact ((hmem c).1 hc).elim (has' c) (hab c)
  · rw [List.mem_cons, hmem, List.mem_cons (b := a)]
    exact or_assoc.symm
  · rcases List.mem_cons.1 hz with rfl | hz
    · exact .inl List.mem_cons_self
    refine (horigin z hz).imp (List.mem_cons_of_mem x) fun ⟨hz, hnot⟩ =>
      ⟨hz, fun c hc => List.not_mem_cons_of_ne_of_not_mem ?_ (hnot c hc)⟩
    exact (hab c (hbs.mem_of_isClass hz hc)).ne.symm

theorem mergesTo_after (hafter : ∀ a b, C a → C b → T.IsClass x a → T.IsClass y b → T.Before b a)
    (h : T.MergesTo C (x :: xs) ys r) : T.MergesTo C (x :: xs) (y :: ys) (y :: r) := by
  intro as bs has hbs
  obtain ⟨a, as', rfl, hxa, ha, has', -⟩ := has.exists_cons
  obtain ⟨b, bs', rfl, hyb, hb, hbs', hsorted'⟩ := hbs.exists_cons
  obtain ⟨cs, hcs, hmem, horigin⟩ := h (a :: as') bs' has hsorted'
  have hba := before_of_head (hafter a b ha hb hxa hyb) has'
  refine ⟨b :: cs, hcs.cons hyb hb fun c hc => ?_, fun c => ?_, fun z hz => ?_⟩
  · exact ((hmem c).1 hc).elim (hba c) (hbs' c)
  · rw [List.mem_cons, hmem, List.mem_cons (b := b)]
    exact or_left_comm
  · rcases List.mem_cons.1 hz with rfl | hz
    · refine .inr ⟨List.mem_cons_self, fun c hc hmem => ?_⟩
      obtain rfl := hyb.unique hc
      exact (hba b hmem).ne rfl
    · exact (horigin z hz).imp_right fun ⟨hz, hnot⟩ => ⟨List.mem_cons_of_mem y hz, hnot⟩

/-! ### The code -/

/-- A type is put into its place, unless its class has an entry. -/
theorem keeps_closureInsert (H : S.ClassTable C)
    (hp : p → S.DeclaredIn C t ∧ (∀ x ∈ xs, S.DeclaredIn C x) ∧ TableFuel C enough fuel) :
    Keeps S A D p (closureInsert fuel t xs) fun V r => V.MergesTo C xs [t] r := by
  induction xs generalizing S with
  | nil => exact keeps_pure fun _ _ => mergesTo_nil_left
  | cons x xs ih =>
    have hx : p → S.DeclaredIn C t ∧ S.DeclaredIn C x ∧ TableFuel C enough fuel := fun h =>
      ⟨(hp h).1, (hp h).2.1 x List.mem_cons_self, (hp h).2.2⟩
    refine (keeps_sameEntry H fun h => ⟨(hx h).1, (hx h).2.1, (hx h).2.2.le⟩).bind
      fun T same hT hsame => ?_
    cases same with
    | true =>
      exact keeps_pure fun V hV => mergesTo_same (fun a b ha hb hxa htb =>
        ((hsame V hV b a hb ha htb hxa).1 rfl).symm) mergesTo_nil_right
    | false =>
      refine (keeps_precedes (H.later hT).ranked fun h => ⟨(hx h).1.later hT, (hx h).2.1.later hT,
        (hx h).2.2⟩).bind fun U before hU hbefore => ?_
      cases before with
      | true =>
        exact keeps_pure fun V hV => mergesTo_after (fun a b ha hb hxa htb =>
          ((hbefore V hV).ranks_iff hb ha htb hxa).2.1 rfl) mergesTo_nil_right
      | false =>
        have hSU := hT.trans hU
        refine (ih (H.later hSU) fun h => ⟨(hp h).1.later hSU, fun y hy =>
          ((hp h).2.1 y (List.mem_cons_of_mem x hy)).later hSU, (hp h).2.2⟩).map
            fun V r hV hr => mergesTo_before (fun a b ha hb hxa htb => ?_) hr
        exact (hbefore V hV).before hb ha htb hxa (H.later (hSU.trans hV)) fun heq =>
          Bool.false_ne_true ((hsame V (hU.trans hV) b a hb ha htb hxa).2 heq)

section Merge

variable {merge : List TypeId → Query (List TypeId)}

/-- One step of a merge, given how the rest is merged. The last case of the code is never reached: of
two different classes one comes before the other. -/
theorem keeps_mergeEntry (H : S.ClassTable C)
    (hp : p → S.DeclaredIn C x ∧ (∀ y ∈ ys, S.DeclaredIn C y) ∧ TableFuel C enough fuel)
    (hmerge : ∀ T zs, Later S T → (p → ∀ z ∈ zs, T.DeclaredIn C z) →
      Keeps T A D p (merge zs) fun V r => V.MergesTo C xs zs r) :
    Keeps S A D p (mergeEntry fuel x xs merge ys) fun V r => V.MergesTo C (x :: xs) ys r := by
  induction ys generalizing S with
  | nil => exact keeps_pure fun _ _ => mergesTo_nil_right
  | cons y ys ih =>
    have hy : p → S.DeclaredIn C x ∧ S.DeclaredIn C y ∧ TableFuel C enough fuel := fun h =>
      ⟨(hp h).1, (hp h).2.1 y List.mem_cons_self, (hp h).2.2⟩
    have hys : p → ∀ T, Later S T → ∀ z ∈ ys, T.DeclaredIn C z := fun h T hT z hz =>
      ((hp h).2.1 z (List.mem_cons_of_mem y hz)).later hT
    refine (keeps_sameEntry H fun h => ⟨(hy h).1, (hy h).2.1, (hy h).2.2.le⟩).bind
      fun T same hT hsame => ?_
    cases same with
    | true =>
      exact (hmerge T ys hT fun h => hys h T hT).map fun V r hV hr =>
        mergesTo_same (fun a b ha hb hxa hyb => (hsame V hV a b ha hb hxa hyb).1 rfl) hr
    | false =>
      have hne : ∀ V, Later T V → ∀ a b, C a → C b → V.IsClass x a → V.IsClass y b → a ≠ b :=
        fun V hV a b ha hb hxa hyb heq =>
          Bool.false_ne_true ((hsame V hV a b ha hb hxa hyb).2 heq)
      refine (keeps_precedes (H.later hT).ranked fun h => ⟨(hy h).1.later hT, (hy h).2.1.later hT,
        (hy h).2.2⟩).bind fun U before hU hbefore => ?_
      have hSU := hT.trans hU
      cases before with
      | true =>
        refine (hmerge U (y :: ys) hSU fun h z hz => ((hp h).2.1 z hz).later hSU).map
          fun V r hV hr => mergesTo_before (fun a b ha hb hxa hyb => ?_) hr
        exact ((hbefore V hV).ranks_iff ha hb hxa hyb).2.1 rfl
      | false =>
        have hafter : ∀ V, Later U V → ∀ a b, C a → C b → V.IsClass x a → V.IsClass y b →
            V.Before b a := by
          intro V hV a b ha hb hxa hyb
          exact (hbefore V hV).before ha hb hxa hyb (H.later (hSU.trans hV))
            (hne V (hU.trans hV) a b ha hb hxa hyb)
        refine (keeps_precedes (H.later hSU).ranked fun h => ⟨(hy h).2.1.later hSU, (hy h).1.later hSU,
          (hy h).2.2⟩).bind fun W after hW hyx => ?_
        have hSW := hSU.trans hW
        cases after with
        | true =>
          refine (ih (H.later hSW) (fun h => ⟨(hp h).1.later hSW, hys h W hSW, (hp h).2.2⟩)
            fun X zs hX => hmerge X zs (hSW.trans hX)).map fun V r hV hr =>
              mergesTo_after (hafter V (hW.trans hV)) hr
        | false =>
          refine (hmerge W ys hSW fun h => hys h W hSW).map fun V r hV _ as bs has hbs => ?_
          obtain ⟨a, _, rfl, hxa, ha, -⟩ := has.exists_cons
          obtain ⟨b, _, rfl, hyb, hb, -⟩ := hbs.exists_cons
          have hba := hafter V (hW.trans hV) a b ha hb hxa hyb
          exact absurd (((hyx V hV).ranks_iff hb ha hyb hxa).2.2 hba) Bool.false_ne_true

end Merge

/-- The union of two lists has the classes of both. -/
theorem keeps_closureUnion (H : S.ClassTable C)
    (hp : p → (∀ x ∈ xs, S.DeclaredIn C x) ∧ (∀ y ∈ ys, S.DeclaredIn C y) ∧
      TableFuel C enough fuel) :
    Keeps S A D p (closureUnion fuel xs ys) fun V r => V.MergesTo C xs ys r := by
  induction xs generalizing S ys with
  | nil => exact keeps_pure fun _ _ => mergesTo_nil_left
  | cons x xs ih =>
    refine keeps_mergeEntry H (fun h => ⟨(hp h).1 x List.mem_cons_self, (hp h).2⟩)
      fun T zs hT hzs => ih (H.later hT) fun h => ⟨fun y hy => ?_, hzs h, (hp h).2.2⟩
    exact ((hp h).1 y (List.mem_cons_of_mem x hy)).later hT

end Session

end JavaTypes
