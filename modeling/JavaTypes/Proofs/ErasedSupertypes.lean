import JavaTypes.Proofs.DirectSupertypes
import JavaTypes.Proofs.ErasedInstances

/-!
# The supertypes of an erased type

A type and its erasure are instances of the same class. So the direct supertypes of the two are as many,
and each of them is erased to the same type as the one in its place.

* `Session.NamesErasable V a`: what is asked of the types that the class `a` names. They are declared,
  missing or absent, and have no arguments where they are marked as erased;
* `Session.SameErasure V x x'`: whichever of `x` and `x'` is erased first, the other is erased to the
  same type;
* `directSupertypes_sameErasure`: the direct supertypes of a type and of its erasure have the same
  erasures.
-/

namespace JavaTypes

open Action

namespace Session

variable {S T V : Session} {a : ElementId} {k t t' u v x x' y : TypeId} {n : TypeNode}
  {ks : List TypeId} {fuel : Nat}

theorem Sees.mono (h : S.Sees t a k x) (hle : S ≤ T) : T.Sees t a k x := by
  obtain ⟨fuel, h⟩ := h
  exact ⟨fuel, h.mono hle⟩

/-! ### Questions about erasure -/

/-- A type that has an erasure is of a kind that has one. -/
theorem cases_of_known_erasure (hhook : T.hooks.erasure t = none) (h : Known (erasure fuel t) T y) :
    T.Erases t y ∧ ∃ u n, T.Shows t u n ∧ n.kind.hasErasure = true := by
  have hhooks : Known JavaTypes.hooks T T.hooks := rfl
  have h := hhooks.of_bind h
  rw [hhook] at h
  obtain ⟨kind, hkind, h⟩ := known_bind.1 h
  obtain ⟨u, n, ht, rfl⟩ := known_typeKind.1 (known_onStore.1 hkind)
  split at h
  · next hn => exact ⟨⟨fuel, h⟩, u, n, ht, hn⟩
  · cases h

theorem erases_of_known_erasure (hhook : T.hooks.erasure t = none) (h : Known (erasure fuel t) T y) :
    T.Erases t y :=
  (cases_of_known_erasure hhook h).1

theorem Erases.known_erasure (h : T.Erases t y) (hhook : T.hooks.erasure t = none)
    (ht : T.Shows t u n) (hn : n.kind.hasErasure = true) :
    ∃ enough, ∀ fuel, enough ≤ fuel → Known (erasure fuel t) T y := by
  obtain ⟨enough, h⟩ := h
  refine ⟨enough, fun fuel hle => ?_⟩
  have hhooks : Known JavaTypes.hooks T T.hooks := rfl
  refine hhooks.bind ?_
  rw [hhook]
  refine (known_onStore.2 (known_typeKind.2 ⟨u, n, ht, rfl⟩)).bind ?_
  rw [if_pos hn]
  have := Fact.mk hle
  exact h.grow le_rfl

theorem Erases.exists_known_erasure (h : T.Erases t y) (hhook : T.hooks.erasure t = none)
    (ht : T.Shows t u n) (hn : n.kind.isDeclaredOrNone = true) :
    ∃ fuel, Known (erasure fuel t) T y := by
  have hkind : n.kind.hasErasure = true := by
    rcases TypeKind.isDeclaredOrNone_iff.1 hn with hn | hn | hn
    all_goals rw [hn]; rfl
  obtain ⟨enough, h⟩ := h.known_erasure hhook ht hkind
  exact ⟨enough, h enough le_rfl⟩

/-- The erasure of a declared type is of the same class. -/
theorem Erases.sameClass (hT : T.DerivesShapes) (ht : T.IsClass t a) (h : T.Erases t y) :
    T.SameClass y t := by
  obtain ⟨fuel, h⟩ := h
  obtain ⟨u, n, d, m, hn, hk, -⟩ := ht
  have hdeclared : Yields T (onStore (viewType t)) fun _ x => x.2.kind = .declared :=
    (yields_viewType_of_peek hn).imp fun _ _ _ hx => by rw [hx]; exact hk
  exact (ensures_erase hT.classes hdeclared).of_known h

/-- The question was answered at some time before the session. -/
def Answered {α : Type} (V : Session) (x : Query α) (answer : α) : Prop :=
  ∃ S T, x S = (.ok answer, T) ∧ Later T V

theorem Answered.known {α : Type} {x : Query α} {answer : α} (h : V.Answered x answer)
    [hx : Settles x x] : Known x V answer := by
  obtain ⟨S, T, h, hV⟩ := h
  exact (ensures_of_settles S .rfl answer T h).2 V hV

/-- From here on, erasing the one type answers what erasing the other has answered, in either order. -/
def SameErasure (V : Session) (x x' : TypeId) : Prop :=
  ∀ S, Later V S → ∀ fuel y T,
    (erasure fuel x S = (.ok y, T) → ∃ fuel', erasure fuel' x' T = (.ok y, T)) ∧
      (erasure fuel x' S = (.ok y, T) → ∃ fuel', erasure fuel' x T = (.ok y, T))

theorem sameErasure_refl (V : Session) (x : TypeId) : V.SameErasure x x := by
  intro S hS fuel y T
  have hagain : erasure fuel x S = (.ok y, T) → ∃ fuel', erasure fuel' x T = (.ok y, T) := fun h =>
    ⟨fuel, Answered.known ⟨S, T, h, .refl T⟩⟩
  exact ⟨hagain, hagain⟩

/-! ### Types that a class names -/

/-- However the session goes on, the types that the class `a` names turn out to be declared, missing or
absent, and they have no arguments where they are marked as erased. -/
structure NamesErasable (V : Session) (a : ElementId) : Prop where
  derived : V.DerivesShapes
  absent : ∃ n, V.store.peekType TypeId.none = some (TypeId.none, n) ∧ n.kind = .noType .none
  kinds : ∀ {T}, Later V T → ∀ ks, Known (supertypesPresent a) T ks → ∀ k ∈ ks, ∀ v m,
    T.store.peekType k = some (v, m) → m.kind.isDeclaredOrNone = true
  bare : ∀ {T}, Later V T → ∀ ks, Known (supertypesPresent a) T ks → ∀ k ∈ ks, T.ErasedBare k

theorem NamesErasable.later (H : V.NamesErasable a) (hT : Later V T) : T.NamesErasable a where
  derived := H.derived.later hT
  absent := by
    obtain ⟨n, hn, hk⟩ := H.absent
    exact ⟨n, peekType_mono hT.le.store hn, hk⟩
  kinds hU := H.kinds (hT.trans hU)
  bare hU := H.bare (hT.trans hU)

section Named

variable (H : V.NamesErasable a)

include H

theorem Sees.erases_iff_named (h : V.Sees t a k x) (hks : Known (supertypesPresent a) V ks)
    (hk : k ∈ ks) : V.Erases x y ↔ V.Erases k y :=
  h.erases_iff H.derived H.absent (H.bare .rfl ks hks k hk) (H.kinds .rfl ks hks k hk)

/-- What erasing a type that is seen from an instance answers is answered for all instances. -/
theorem Sees.exists_known_erasure (hhook : ∀ z, V.hooks.erasure z = none)
    (hks : Known (supertypesPresent a) V ks) (hk : k ∈ ks) (h : V.Sees t a k x) (h' : V.Sees t' a k x')
    (hx : Known (erasure fuel x) V y) : ∃ fuel', Known (erasure fuel' x') V y := by
  have hnamed := (h.erases_iff_named H hks hk).1 (erases_of_known_erasure (hhook x) hx)
  have hx' := (h'.erases_iff_named H hks hk).2 hnamed
  obtain ⟨-, v, m, -, hv, -⟩ := node_of_known_erase hnamed.choose_spec
  obtain ⟨-, u, n, -, hu, -⟩ := node_of_known_erase hx'.choose_spec
  have hm := H.kinds .rfl ks hks k hk v m hv
  refine hx'.exists_known_erasure (hhook x') hu ?_
  rw [h'.kind_eq H.derived.classes hv hm hu]
  exact hm

theorem sameErasure_of_sees (hhook : ∀ z, V.hooks.erasure z = none)
    (hks : Known (supertypesPresent a) V ks) (hk : k ∈ ks) (h : V.Sees t a k x)
    (h' : V.Sees t' a k x') : V.SameErasure x x' := by
  intro S hS fuel y T
  have hstep : ∀ {x x' t t'}, V.Sees t a k x → V.Sees t' a k x' → erasure fuel x S = (.ok y, T) →
      ∃ fuel', erasure fuel' x' T = (.ok y, T) := by
    intro x x' t t' h h' hrun
    obtain ⟨hT, hknown⟩ := ensures_of_settles S .rfl y T hrun
    have hVT := hS.trans hT
    have hhookT : ∀ z, T.hooks.erasure z = none := by
      rw [hVT.le.hooks]
      exact hhook
    exact Sees.exists_known_erasure (H.later hVT) hhookT
      (hks.mono hVT.le) hk (h.mono hVT.le) (h'.mono hVT.le)
      (hknown T .rfl)
  exact ⟨hstep h h', hstep h' h⟩

end Named

/-! ### Direct supertypes -/

/-- The direct supertypes of an instance of a class are the types that the class names, seen from the
instance. `Object` has none. -/
theorem cases_of_known_supertypesOf {ds : List TypeId} (H : V.NamesErasable a) (ha : V.IsClass t a)
    (h : Known (supertypesOf fuel t) V ds) :
    V.IsObject a ∧ ds = [] ∨ ¬ V.IsObject a ∧ ∃ u ks, Known (supertypesPresent a) V ks ∧
      List.Forall₂ (V.Sees u a) ks ds := by
  obtain ⟨fuel, u, m, rfl, ht, h⟩ := node_of_known_supertypesOf h
  obtain ⟨d, hd⟩ := TypeNode.shape_of_declared (ha.kind_eq ht)
  have hau := ha.of_node ht
  have hu := ht.self
  rcases cases_of_known_supertypesOfNode h hd with ⟨htrue, rfl⟩ | ⟨hfalse, habove⟩
  · obtain ⟨o, ho, heq⟩ := eq_of_known_isObject hau htrue
    obtain rfl := of_decide_eq_true heq.symm
    exact .inl ⟨.of_known ho, rfl⟩
  · obtain ⟨o, ho, heq⟩ := eq_of_known_isObject hau hfalse
    refine .inr ⟨fun hobject => ?_, u, ?_⟩
    · exact of_decide_eq_false heq.symm (hobject.unique (.of_known ho))
    · exact exists_of_directlyAbove hau hu H.derived.classes H.absent (H.kinds .rfl) habove

/-- The direct supertypes of a type and those of its erasure have the same erasures, one by one. -/
theorem directSupertypes_sameErasure {f f₁ f₂ : Nat} {ds ds' : List TypeId} (H : V.NamesErasable a)
    (ha : V.IsClass t a) (hhook : ∀ z, V.hooks.erasure z = none)
    (hlist : V.hooks.directSupertypes t = V.hooks.directSupertypes t')
    (ht' : V.Answered (erasure f t) t') (hds : V.Answered (directSupertypes f₁ t) ds)
    (hds' : V.Answered (directSupertypes f₂ t') ds') : List.Forall₂ V.SameErasure ds ds' := by
  have hhooks : Known JavaTypes.hooks V V.hooks := rfl
  have herases := erases_of_known_erasure (hhook t) (ht'.known)
  have hds := hhooks.of_bind (hds.known)
  have hds' := hhooks.of_bind (hds'.known)
  rw [← hlist] at hds'
  cases hanswer : V.hooks.directSupertypes t with
  | some answer =>
    rw [hanswer] at hds hds'
    obtain rfl := known_pure.1 hds
    obtain rfl := known_pure.1 hds'
    exact List.forall₂_same.2 fun x _ => sameErasure_refl V x
  | none =>
    rw [hanswer] at hds hds'
    have ha' : V.IsClass t' a := (Erases.sameClass H.derived ha herases).isClass_iff.2 ha
    rcases cases_of_known_supertypesOf H ha hds with ⟨hobject, rfl⟩ | ⟨hnot, u, ks, hks, hseen⟩
    · rcases cases_of_known_supertypesOf H ha' hds' with ⟨-, rfl⟩ | ⟨hnot, -⟩
      · exact .nil
      · exact absurd hobject hnot
    · rcases cases_of_known_supertypesOf H ha' hds' with ⟨hobject, -⟩ | ⟨-, u', ks', hks', hseen'⟩
      · exact absurd hobject hnot
      · obtain rfl := hks.unique hks'
        exact forall₂_of_common hseen hseen' fun k hk _ _ h h' =>
          sameErasure_of_sees H hhook hks hk h h'

/-- The erasures of the direct supertypes of a type, and of the direct supertypes of its erasure. -/
def erasedSupertypes (fuel : Nat) (t : TypeId) : Query (List TypeId × List TypeId) := do
  let t' ← erasure fuel t
  let ds ← directSupertypes fuel t
  let ds' ← directSupertypes fuel t'
  return (← mapTypes (erasure fuel) ds, ← mapTypes (erasure fuel) ds')

/-- The classes of the language at 0, 1 and 2, their types from 14 on, and a class `Box<E>`, at 3. A
deferred handle, at 19, leads to its variable, and is named as the superclass. There is a type
`Box<Cloneable>`, at 20. -/
def variableSuperclass : Session where
  store := .after ((Operation.newType .declared).language ++
    [.newNamedElement (.type .plain) "Box", .newNamedElement .typeParameter "E",
      .attach .typeParameter ⟨3⟩ ⟨4⟩, .newType .typeVar, .setElementType ⟨4⟩ ⟨17⟩,
      .makeShape (.declared { element := some ⟨3⟩, arguments := [⟨17⟩] }), .setElementType ⟨3⟩ ⟨18⟩,
      .deferType (.give ⟨17⟩), .editElement ⟨3⟩ (.superclass ⟨19⟩),
      .makeShape (.declared { element := some ⟨3⟩, arguments := [⟨15⟩] })])

/-- No type is marked as erased. But the superclass of `Box<Cloneable>` is erased to `Cloneable`, and
the superclass of the raw type is erased to `Object`. -/
theorem erasedSupertypes_differ_variableSuperclass :
    (∀ i ∈ List.range variableSuperclass.store.types.size,
      (variableSuperclass.store.peekType ⟨i⟩).all (fun x => !x.2.erased) = true) ∧
      variableSuperclass.IsClass ⟨20⟩ ⟨3⟩ ∧
        (erasedSupertypes 10 ⟨20⟩ variableSuperclass).1 = .ok ([⟨15⟩], [⟨14⟩]) := by
  refine ⟨by decide +kernel, isClass_of_classOf (by decide +kernel), by decide +kernel⟩

/-- The types of the list are known, and none of them is marked as erased. The list has the types around
each of its types. -/
def listsUnmarked (S : Session) (ws : List TypeId) : Bool :=
  ws.all fun w => (S.store.peekType w).any fun x =>
    !x.2.erased && (S.store.peekType x.2.enclosingOrNone).any fun y => decide (y.1 ∈ ws)

theorem erasedBare_of_listsUnmarked {ws : List TypeId} (h : S.listsUnmarked ws = true)
    (hT : Later S T) (ht : t ∈ ws) : T.ErasedBare t := by
  have hnode : ∀ w ∈ ws, ∃ v n w' m, S.Shows w v n ∧ n.erased = false ∧
      S.Shows n.enclosingOrNone w' m ∧ w' ∈ ws := by
    intro w hw
    have hw := List.all_eq_true.1 h w hw
    simp only [Option.any_eq_true, Bool.and_eq_true, Bool.not_eq_true', decide_eq_true_eq] at hw
    obtain ⟨⟨v, n⟩, hv, hfree, ⟨w', m⟩, hw', hmem⟩ := hw
    exact ⟨v, n, w', m, hv, hfree, hw', hmem⟩
  have hmem : ∀ w, Relation.ReflTransGen T.EnclosedBy t w → w ∈ ws := by
    intro w hw
    induction hw with
    | refl => exact ht
    | tail _ hstep ih =>
      obtain ⟨u, n, m, hu, hw'⟩ := hstep
      obtain ⟨u', n', w', m', hu', -, hw'', hmem⟩ := hnode _ ih
      cases hu.symm.trans (hu'.mono hT.le)
      cases hw'.symm.trans (hw''.mono hT.le)
      exact hmem
  intro w v m hw hv herased
  obtain ⟨v', m', -, -, hv', hfree, -⟩ := hnode w (hmem w hw)
  cases hv.symm.trans (hv'.mono hT.le)
  rw [hfree] at herased
  cases herased

/-- A class `Outer<A>` has an inner class `Inner<B>`, and `Box<E>` extends `Outer<E>.Inner<E>`. There is
a type `Box<Cloneable>`, at 25. -/
def innerBoxes : Session :=
  ofNodes
    [.ofClass 3 [18], .variableOf 6, .ofInner 4 17 [20], .variableOf 7, .ofClass 5 [22],
     .variableOf 8, .ofClass 3 [22], .ofInner 4 23 [22], .ofClass 5 [15]]
    [{ name := some "Outer", type := some ⟨17⟩, enclosed := [⟨4⟩],
       detail := .type .plain { typeParameters := [⟨6⟩] } },
     { name := some "Inner", type := some ⟨19⟩, enclosing := some ⟨3⟩,
       detail := .type .plain { typeParameters := [⟨7⟩] } },
     .ofType "Box" 21 .plain { superclass := some ⟨24⟩, typeParameters := [⟨8⟩] },
     .parameter "A" 18 3, .parameter "B" 20 4, .parameter "E" 22 5]

theorem namesErasable_innerBoxes : innerBoxes.NamesErasable ⟨5⟩ := by
  have hnamed : Known (supertypesPresent ⟨5⟩) innerBoxes [⟨24⟩] := rfl
  have hunmarked : innerBoxes.listsUnmarked [⟨24⟩, ⟨23⟩, TypeId.none] = true := by decide +kernel
  obtain ⟨n, hn, hk⟩ : ∃ n, innerBoxes.store.peekType ⟨24⟩ = some (⟨24⟩, n) ∧ n.kind = .declared :=
    ⟨_, rfl, rfl⟩
  have hderived : innerBoxes.DerivesShapes := nofun
  have habsent : ∃ n, innerBoxes.store.peekType TypeId.none = some (TypeId.none, n) ∧
      n.kind = .noType .none := ⟨_, rfl, rfl⟩
  generalize innerBoxes = S at *
  have hlist : ∀ {T ks}, Later S T → Known (supertypesPresent ⟨5⟩) T ks → ks = [⟨24⟩] :=
    fun hT hks => hks.unique (hnamed.mono hT.le)
  refine ⟨hderived, habsent, fun hT ks hks k hmem v m hv => ?_, fun hT ks hks k hmem => ?_⟩
  · obtain rfl := hlist hT hks
    obtain rfl := List.mem_singleton.1 hmem
    cases hv.symm.trans (peekType_mono hT.le.store hn)
    rw [hk]
    rfl
  · obtain rfl := hlist hT hks
    obtain rfl := List.mem_singleton.1 hmem
    exact erasedBare_of_listsUnmarked hunmarked hT (by simp)

/-- The superclass of `Box<Cloneable>` is another type than that of the raw type `Box`, and has the same
erasure. -/
theorem directSupertypes_sameErasure_innerBoxes : ∃ (V : Session) (d d' : TypeId),
    V.Answered (erasure 10 ⟨25⟩) ⟨26⟩ ∧ V.Answered (directSupertypes 10 ⟨25⟩) [d] ∧
      V.Answered (directSupertypes 10 ⟨26⟩) [d'] ∧ d ≠ d' ∧ V.SameErasure d d' := by
  have hfirst : (erasure 10 ⟨25⟩ innerBoxes).1 = .ok ⟨26⟩ := by decide +kernel
  have hsecond : (directSupertypes 10 ⟨25⟩ (erasure 10 ⟨25⟩ innerBoxes).2).1 = .ok [⟨28⟩] := by
    decide +kernel
  have hthird : (directSupertypes 10 ⟨26⟩ (directSupertypes 10 ⟨25⟩
      (erasure 10 ⟨25⟩ innerBoxes).2).2).1 = .ok [⟨30⟩] := by
    decide +kernel
  have hclass : innerBoxes.IsClass ⟨25⟩ ⟨5⟩ := isClass_of_classOf rfl
  have hhooks : innerBoxes.hooks = {} := rfl
  have hnames := namesErasable_innerBoxes
  -- what follows holds of any session, and must not evaluate this one
  generalize innerBoxes = S at *
  have herasure : erasure 10 ⟨25⟩ S = (.ok ⟨26⟩, (erasure 10 ⟨25⟩ S).2) := Prod.ext hfirst rfl
  generalize (erasure 10 ⟨25⟩ S).2 = S₁ at *
  have htypes : directSupertypes 10 ⟨25⟩ S₁ = (.ok [⟨28⟩], (directSupertypes 10 ⟨25⟩ S₁).2) :=
    Prod.ext hsecond rfl
  generalize (directSupertypes 10 ⟨25⟩ S₁).2 = S₂ at *
  have hraw : directSupertypes 10 ⟨26⟩ S₂ = (.ok [⟨30⟩], (directSupertypes 10 ⟨26⟩ S₂).2) :=
    Prod.ext hthird rfl
  generalize (directSupertypes 10 ⟨26⟩ S₂).2 = V at *
  have hlater : ∀ {α : Type} {x : Query α} {a S T}, Settles x x → x S = (.ok a, T) → Later S T :=
    fun hx h => (ensures_of_settles _ .rfl _ _ h).1
  have hS₂ := hlater (settles_directSupertypes _) htypes
  have hV := hlater (settles_directSupertypes _) hraw
  have hSV := (hlater (settles_erasure _) herasure).trans (hS₂.trans hV)
  have hhooksV : V.hooks = {} := hSV.le.hooks.trans hhooks
  have ht' : V.Answered (erasure 10 ⟨25⟩) ⟨26⟩ := ⟨S, S₁, herasure, hS₂.trans hV⟩
  have hds : V.Answered (directSupertypes 10 ⟨25⟩) [⟨28⟩] := ⟨S₁, S₂, htypes, hV⟩
  have hds' : V.Answered (directSupertypes 10 ⟨26⟩) [⟨30⟩] := ⟨S₂, V, hraw, Later.refl V⟩
  have hsame := directSupertypes_sameErasure (hnames.later hSV) (hclass.mono hSV.le)
    (by rw [hhooksV]; exact fun _ => rfl) (by rw [hhooksV]) ht' hds hds'
  exact ⟨V, ⟨28⟩, ⟨30⟩, ht', hds, hds', by decide, (List.forall₂_cons.1 hsame).1⟩

end Session

end JavaTypes
