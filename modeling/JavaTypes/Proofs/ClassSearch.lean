import JavaTypes.Proofs.SearchAnswers

/-!
# The search for a superclass

On classes without generics the search for a supertype ends, and finds an element if and only if it is
reached in the graph of classes, or is `Object`.

* `PlainClasses.ladder`: going up from a plain type, all types are plain;
* `PlainClasses.responds_supertype`, `PlainClasses.responds_interfaces`: the direct supertypes of a plain
  type are found;
* `PlainClasses.responds_asSuperFrom`: the search is answered, with enough fuel for every class once.
-/

namespace JavaTypes

namespace Session

open Action

variable {S T : Session} {C : ElementId → Prop} {enough fuel : Nat} {a e : ElementId} {k t u : TypeId}
  {n : TypeNode} {seen : List ElementId} (H : S.PlainClasses C enough)

/-! ### Going up -/

theorem PlainType.plainDeclared (ht : S.PlainType C t) (hn : S.Shows t u n) : S.PlainDeclared C n :=
  Yields.of_known ht .rfl hn.known

/-- The class of a plain type. -/
theorem yields_isClass (ht : S.Shows t u n) (hn : S.PlainDeclared C n) :
    Yields S (onStore n.elementOf) fun T r => ∃ e, r = some e ∧ C e ∧ T.IsClass t e :=
  (plainType_of_peek ht hn).declaredIn.yields_elementOf ht

include H

/-- The type of `Object` is known to be declared. -/
theorem PlainClasses.declaredBy_object (h : Known objectType S k) :
    ∃ o, S.IsObject o ∧ S.DeclaredBy o k ∧ (C o → S.PlainType C k) := by
  obtain ⟨known, hknown, rfl⟩ := known_map.1 h
  exact ⟨known.object, ⟨known, hknown, rfl⟩, (H.wellKnown.of_known .rfl hknown).1⟩

/-- All that is above a plain type is plain. -/
theorem PlainClasses.ladder : S.Ladder C (S.PlainType C) where
  absent := H.absent
  declaredIn h := h.declaredIn
  node h ht := plainType_of_peek (Store.peekType_self ht) (h.plainDeclared ht)
  superclass hC ha hk := by
    obtain ⟨m, hm, hplain⟩ := H.classes hC
    obtain ⟨hi, known, hknown, -, ⟨hsome, hunless⟩ | ⟨hnone, rfl⟩⟩ :=
      cases_of_known_superclassNamed hm hk
    · obtain ⟨u, n, hu, heq⟩ := known_unlessNone.1 hunless
      refine plainType_of_peek hu (((hplain.superclass hi _ hsome).of_known .rfl hu.known).resolve_left ?_)
      intro hkind
      rw [if_pos hkind] at heq
      cases heq
    · exact (H.wellKnown.of_known .rfl hknown).1.2 ((hplain.implicit hi hnone).of_known .rfl hknown)
  interfaces hC ha hks := by
    obtain ⟨m, hm, hplain⟩ := H.classes hC
    obtain rfl := hks.unique (known_onStore_declaredInterfaces hm)
    exact hplain.interfaces
  sees {t a k x} ht ha h hk := by
    obtain ⟨u, n, -, -, hn, -⟩ := ha
    obtain ⟨fuel, h⟩ := h
    have h : Known (seenFrom (fuel + 2) t a k) S x := h.grow le_rfl
    obtain rfl := (yields_seenFrom H hn (ht.plainDeclared hn) (Nat.le_add_left 2 fuel) k).of_known .rfl h
    exact ⟨.inl rfl, hk⟩

/-! ### Direct supertypes -/

theorem PlainClasses.responds_objectElement : Responds S objectElement :=
  H.wellKnown.responds.bind fun _ _ _ _ => responds_pure _

theorem PlainClasses.responds_objectType : Responds S objectType :=
  H.wellKnown.responds.bind fun _ _ _ _ => responds_pure _

section Declared

variable (ht : S.Shows t u n) (hn : S.PlainDeclared C n)

include ht hn

theorem PlainClasses.responds_isObject : Responds S (isObject t) := by
  refine (yields_typeNode_of_peek ht).bind_eq fun T hT => ?_
  rw [if_neg (not_not.2 hn.1)]
  refine (yields_isClass (ht.mono hT.le) (hn.later hT)).bind fun U r hU hr => ?_
  obtain ⟨a, rfl, -⟩ := hr U .rfl
  exact (H.later (hT.trans hU)).responds_objectElement.bind fun _ _ _ _ => responds_pure _

theorem PlainClasses.responds_superclassSeen (hf : 2 ≤ fuel) (hk : Responds S (onStore (viewType k))) :
    Responds S (superclassSeen fuel t e k) := by
  refine (Yields.typeKind (Q := fun _ _ => True) hk).bind fun T kind hT _ => ?_
  split
  · exact responds_pure _
  · exact (yields_seenFrom (H.later hT) (ht.mono hT.le) (hn.later hT) hf k).responds

theorem PlainClasses.responds_superclassOf (hf : 2 ≤ fuel) : Responds S (superclassOf fuel t n) := by
  refine (yields_isClass ht hn).responds.bind fun T r hT hr => ?_
  obtain ⟨e, rfl, he, hclass⟩ := (yields_isClass ht hn).of_known hT hr
  obtain ⟨m, hm, hplain⟩ := (H.later hT).classes he
  have hkind : Responds T (do return (← elementKind e).isInterface : Query Bool) :=
    (yields_of_known (known_onStore_elementKind hm)).responds.bind fun _ _ _ _ => responds_pure _
  refine (hkind.either fun U hU => (H.later (hT.trans hU)).responds_isObject
    (ht.mono (hT.trans hU).le) (hn.later (hT.trans hU))).bind fun U b hU hb => ?_
  cases b with
  | true => exact responds_pure _
  | false =>
    have hmU := peekElement_mono hU.le.store hm
    obtain ⟨hi, -⟩ := (superclassNamed_of_known_rootless (hclass.mono hU.le) hmU hb).2 rfl
    refine (yields_of_known (known_onStore_declaredSuperclass hmU)).bind_eq fun V hV => ?_
    have hSV := hT.trans (hU.trans hV)
    cases hsuper : m.superclass with
    | some named =>
      exact (H.later hSV).responds_superclassSeen (ht.mono hSV.le) (hn.later hSV) hf
        ((hplain.superclass hi named hsuper).later (hU.trans hV)).responds
    | none =>
      refine (H.later hSV).responds_objectType.bind fun W k hW hk => ?_
      have hSW := hSV.trans hW
      obtain ⟨o, -, hobject, -⟩ := (H.later hSW).declaredBy_object hk
      exact (H.later hSW).responds_superclassSeen (ht.mono hSW.le) (hn.later hSW) hf
        (.responds hobject)

end Declared

variable (ht : S.PlainType C t)

include ht

theorem PlainClasses.responds_supertype (hf : 3 ≤ fuel) : Responds S (supertype fuel t) := by
  obtain ⟨fuel, rfl⟩ : ∃ k, fuel = k + 1 := ⟨fuel - 1, by omega⟩
  refine (Yields.peekType ht).bind fun T x hT hx => ?_
  obtain ⟨htT, hn⟩ := hx T .rfl
  obtain ⟨d, hd⟩ := x.2.shape_of_declared hn.1
  dsimp only
  rw [hd]
  exact (H.later hT).responds_superclassOf (Store.peekType_self htT) hn (by omega)

theorem PlainClasses.responds_interfaces (hf : 3 ≤ fuel) : Responds S (interfaces fuel t) := by
  obtain ⟨fuel, rfl⟩ : ∃ k, fuel = k + 1 := ⟨fuel - 1, by omega⟩
  refine (Yields.peekType ht).bind fun T x hT hx => ?_
  obtain ⟨htT, hn⟩ := hx T .rfl
  obtain ⟨d, hd⟩ := x.2.shape_of_declared hn.1
  dsimp only
  rw [hd]
  refine (yields_isClass htT hn).bind fun U r hU hr => ?_
  obtain ⟨e, rfl, he, -⟩ := hr U .rfl
  have hSU := hT.trans hU
  obtain ⟨m, hm, -⟩ := (H.later hSU).classes he
  refine (yields_of_known (known_onStore_declaredInterfaces hm)).bind_eq fun V hV => ?_
  -- Each of the interfaces is seen from the type, whatever was asked before.
  have hseen : ∀ (ks : List TypeId) (W : Session), Later V W →
      Responds W (mapTypes (seenFrom fuel x.1 e) ks) := by
    intro ks
    induction ks with
    | nil => exact fun _ _ => responds_pure _
    | cons k ks ih =>
      intro W hW
      have hTW := hU.trans (hV.trans hW)
      refine (yields_seenFrom (H.later (hT.trans hTW)) (.mono (Store.peekType_self htT) hTW.le)
        (hn.later hTW) (by omega) k).bind fun X l hX _ => ?_
      exact .bind (ih X (hW.trans hX)) fun _ _ _ _ => responds_pure _
  exact hseen m.interfaces V .rfl

/-! ### The whole search -/

omit ht in
theorem PlainClasses.responds_implicitObject : Responds S (implicitObject e) := by
  refine H.responds_objectElement.bind fun T o hT _ => ?_
  split
  · exact (H.later hT).responds_objectType.bind fun _ _ _ _ => responds_pure _
  · exact responds_pure _

/-- The search above a plain type ends if the searches from the plain types above it do. -/
theorem PlainClasses.responds_searchAbove {search : TypeId → Query (Option TypeId)}
    [∀ t, Settles (search t) (search t)]
    (hsearch : ∀ T k, Later S T → T.PlainType C k → Responds T (search k)) (hf : 3 ≤ fuel) (hC : C a)
    (ha : S.IsClass t a) : Responds S (searchAbove fuel search t) := by
  have hfirst : ∀ (ks : List TypeId) (T : Session), Later S T → (∀ k ∈ ks, T.PlainType C k) →
      Responds T (firstFound search ks) := by
    intro ks
    induction ks with
    | nil => exact fun _ _ _ => responds_pure _
    | cons k ks ih =>
      intro T hT hks
      refine (hsearch T k hT (hks k List.mem_cons_self)).bind fun U found hU _ => ?_
      cases found with
      | some found => exact responds_pure _
      | none => exact ih U (hT.trans hU) fun j hj => .later (hks j (List.mem_cons_of_mem k hj)) hU
  have hbeside : ∀ T, Later S T → Responds T (interfaces fuel t >>= firstFound search) := by
    intro T hT
    refine ((H.later hT).responds_interfaces (.later ht hT) hf).bind fun U ks hU hks => ?_
    have hSU := hT.trans hU
    obtain ⟨named, -, hnamed⟩ := (H.later hSU).ladder.forall₂_of_known_interfaces hC (ha.mono hSU.le)
      (.later ht hSU) hks
    refine hfirst ks U hSU fun k hk => ?_
    obtain ⟨s, -, -, hplain⟩ := exists_of_forall₂_left hnamed hk
    exact hplain
  refine (H.responds_supertype ht hf).bind fun T above hT habove => ?_
  have hseen : ∀ U, Later T U → U.SuperclassSeen (U.PlainType C) a above := fun U hU =>
    (H.later (hT.trans hU)).ladder.superclassSeen hC (ha.mono (hT.trans hU).le)
      (.later ht (hT.trans hU)) (habove.mono hU.le)
  refine .bind (.typeKind
    ((hseen T .rfl).responds_view (H.later hT).ladder)) fun U kind hU hkind => ?_
  have hSU := hT.trans hU
  split
  · exact hbeside U hSU
  next hsome =>
  obtain ⟨-, s, -, -, hplain⟩ := ((hseen U hU).cases_kind (H.later hSU).ladder hkind).resolve_left
    fun h => hsome h.1
  refine (hsearch U above hSU hplain).bind fun V found hV _ => ?_
  cases found with
  | some found => exact responds_pure _
  | none => exact hbeside V (hSU.trans hV)

omit H ht in
/-- The search for `e` above a plain type ends. Each class on the way to the current one is in `seen`, so
what is left of the classes bounds the depth. -/
theorem PlainClasses.responds_asSuperFrom {bound : Nat} (hbound : ∀ a, C a → a.index < bound) :
    ∀ {fuel : Nat} {S : Session} (_ : S.PlainClasses C enough) {seen : List ElementId} {t : TypeId},
      Trail C seen → bound + 5 ≤ fuel + seen.length → S.PlainType C t →
        Responds S (asSuperFrom e fuel seen t)
  | 0, S, H, seen, t, hseen, hfuel, _ => by
      have := hseen.length_le hbound
      omega
  | fuel + 1, S, H, seen, t, hseen, hfuel, ht => by
      rw [asSuperFrom]
      refine (Yields.peekType ht).bind fun T x hT hx => ?_
      obtain ⟨htT, hn⟩ := hx T .rfl
      rw [asSuperNode_of_declared hn.1]
      refine (yields_isClass (Store.peekType_self htT) hn).bind fun U r hU hr => ?_
      obtain ⟨a, rfl, hC, ha⟩ := hr U .rfl
      have hSU := hT.trans hU
      unfold asSuperDeclared
      dsimp only
      split
      · exact responds_pure _
      have himplicit : ∀ V, Later U V → Responds V (implicitObject e) := fun V hV =>
        (H.later (hSU.trans hV)).responds_implicitObject
      split
      · exact himplicit U .rfl
      next hmem =>
      have hseen' := hseen.cons hC hmem
      have hlength := hseen'.length_le hbound
      rw [List.length_cons] at hlength
      have hsearch : ∀ V k, Later U V → V.PlainType C k →
          Responds V (asSuperFrom e fuel (a :: seen) k) := fun V k hV hk =>
        PlainClasses.responds_asSuperFrom hbound (H.later (hSU.trans hV)) hseen'
          (by rw [List.length_cons]; omega) hk
      have hu := plainType_of_peek (Store.peekType_self htT) hn
      refine ((H.later hSU).responds_searchAbove (Yields.later hu hU) hsearch (by omega) hC ha).bind
        fun V found hV _ => ?_
      cases found with
      | some found => exact responds_pure _
      | none => exact himplicit V hV

end Session

end JavaTypes
