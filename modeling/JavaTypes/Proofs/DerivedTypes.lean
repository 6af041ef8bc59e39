import JavaTypes.Proofs.ClassGraph

/-!
# Derived types

The relations derive types when they erase a type or put arguments into it. A type is made with the
shape that was asked for, and a declared type that is derived from another belongs to the same class.

* `TypeEdit.fill`: what an edit gives to a node. The edits of a shape make up the shape
  (`TypeEdit.foldl_fill_edits`);
* `peekType_makeShape`: a type is made with its shape;
* `Session.DerivesShapes`: the types that a session remembers have their shapes.
  `Session.DerivesClasses` says less: they are of the classes for which they were derived;
* `Session.SameClass T k t`: the types `k` and `t` are declared by the same element;
* `ensures_seenFrom`: what a declaration names, seen from an instance, is of the same class.
-/

namespace JavaTypes

open Action

/-! ### Filling in a type -/

theorem exists_of_bind_eq_ok {ε α β : Type} {x : Except ε α} {f : α → Except ε β} {b : β}
    (h : x >>= f = .ok b) : ∃ a, x = .ok a ∧ f a = .ok b := by
  cases x with
  | ok a => exact ⟨a, rfl, h⟩
  | error e => cases h

section Refusals

variable {ε α : Type} {b : α}

/-- What follows a test decides the outcome, if the test refuses nothing. -/
theorem eq_ok_of_guard {x : Except ε Unit} {y : Except ε α} (h : (do x; y) = .ok b) : y = .ok b := by
  obtain ⟨-, -, h⟩ := exists_of_bind_eq_ok h
  exact h

theorem eq_ok_of_unless {c : Prop} [Decidable c] {e : ε} {y : Unit → Except ε α}
    (h : (if c then throw e >>= y else y ()) = .ok b) : y () = .ok b := by
  split at h
  · cases h
  · exact h

/-- The first value that a part is set to stays. -/
theorem eq_of_setOnce {β : Type} [BEq β] {field : String} {old : Option β} {new : β}
    {f : Option β → α} (h : (do return f (← setOnce field old new)) = Except.ok b) :
    b = f (some (old.getD new)) := by
  obtain ⟨r, hr, h⟩ := exists_of_bind_eq_ok h
  cases h
  cases old with
  | none =>
    cases hr
    rfl
  | some v =>
    unfold setOnce setOnceBy at hr
    dsimp only at hr
    split at hr
    · cases hr
      rfl
    · cases hr

end Refusals

namespace TypeEdit

variable {s : Store} {owner : TypeId} {edit : TypeEdit} {shape shape' : TypeShape}

/-- The shape with the part that an edit gives to it. -/
def extend : TypeEdit → TypeShape → TypeShape
  | .component t, .array c => .array (some (c.getD t))
  | .definingElement e, .declared d => .declared { d with element := some (d.element.getD e) }
  | .definingElement e, .typeVar v => .typeVar { v with element := some (v.element.getD e) }
  | .enclosing t, .declared d => .declared { d with enclosing := some (d.enclosing.getD t) }
  | .argument t, .declared d => .declared { d with arguments := d.arguments ++ [t] }
  | .erased value, .declared d => .declared { d with erased := some (d.erased.getD value) }
  | .parameter t, .executable x => .executable { x with parameters := x.parameters ++ [t] }
  | .returnType t, .executable x =>
      .executable { x with returnType := some (x.returnType.getD t) }
  | .receiver t, .executable x => .executable { x with receiver := some (x.receiver.getD t) }
  | .thrown t, .executable x => .executable { x with thrown := x.thrown ++ [t] }
  | .typeVariable t, .executable x =>
      .executable { x with typeVariables := x.typeVariables ++ [t] }
  | .intersectionBound t, .intersection bs => .intersection (bs ++ [t])
  | .unionAlternative t, .union bs => .union (bs ++ [t])
  | .upperBound t, .typeVar v => .typeVar { v with upper := some (v.upper.getD t) }
  | .lowerBound t, .typeVar v => .typeVar { v with lower := some (v.lower.getD t) }
  | .capturedWildcard t, .typeVar v =>
      .typeVar { v with capturedFrom := some (v.capturedFrom.getD t) }
  | .extendsBound t, .wildcard w => .wildcard { w with upper := some (w.upper.getD t) }
  | .superBound t, .wildcard w => .wildcard { w with lower := some (w.lower.getD t) }
  | _, shape => shape

/-- An edit that is not refused adds its part and changes nothing else. -/
theorem reshape_eq_extend
    (h : edit.reshape s owner shape = .ok shape') : shape' = edit.extend shape := by
  unfold reshape at h
  split at h
  -- component of an array
  · exact eq_of_setOnce (eq_ok_of_guard (eq_ok_of_guard h))
  -- element of a declared type, and of a type variable
  · exact eq_of_setOnce (eq_ok_of_guard h)
  · exact eq_of_setOnce (eq_ok_of_guard h)
  -- enclosing type, arguments and mark of a declared type
  · exact eq_of_setOnce (eq_ok_of_guard (eq_ok_of_guard h))
  · cases eq_ok_of_guard (eq_ok_of_guard (eq_ok_of_unless h))
    rfl
  · exact eq_of_setOnce (eq_ok_of_unless h)
  -- parts of an executable type
  · cases eq_ok_of_guard h
    rfl
  · exact eq_of_setOnce (eq_ok_of_guard h)
  · exact eq_of_setOnce (eq_ok_of_guard h)
  · cases eq_ok_of_guard h
    rfl
  · cases eq_ok_of_guard h
    rfl
  -- bounds of an intersection, alternatives of a union
  · cases eq_ok_of_guard (eq_ok_of_guard h)
    rfl
  · cases eq_ok_of_guard (eq_ok_of_guard h)
    rfl
  -- bounds and origin of a type variable
  · exact eq_of_setOnce (eq_ok_of_guard (eq_ok_of_guard h))
  · exact eq_of_setOnce (eq_ok_of_guard (eq_ok_of_guard h))
  · exact eq_of_setOnce (eq_ok_of_guard h)
  -- bounds of a wildcard
  · exact eq_of_setOnce (eq_ok_of_guard (eq_ok_of_guard (eq_ok_of_unless h)))
  · exact eq_of_setOnce (eq_ok_of_guard (eq_ok_of_guard (eq_ok_of_unless h)))
  -- every other edit is refused
  · cases h

/-- The node with what an edit gives to it. -/
def fill (n : TypeNode) : TypeEdit → TypeNode
  | .annotate a => { n with annotations := n.annotations ++ [a] }
  | edit => { n with shape := edit.extend n.shape }

theorem applyTo_eq_fill {n n' : TypeNode}
    (h : edit.applyTo s owner n = .ok n') : n' = fill n edit := by
  unfold applyTo at h
  split at h
  · cases h
  cases edit with
  | annotate a =>
    cases h
    rfl
  | _ =>
    obtain ⟨shape, hshape, h⟩ := exists_of_bind_eq_ok h
    cases h
    rw [reshape_eq_extend hshape]
    rfl

/-- Edits that each add a type to a list. -/
theorem foldl_fill_map {f : List TypeId → TypeNode} {edit : TypeId → TypeEdit}
    (h : ∀ ts t, fill (f ts) (edit t) = f (ts ++ [t])) (ts : List TypeId) :
    (ts.map edit).foldl fill (f []) = f ts := by
  have hfrom : ∀ ts', (ts.map edit).foldl fill (f ts') = f (ts' ++ ts) := by
    induction ts with
    | nil => exact fun ts' => congrArg f (List.append_nil ts').symm
    | cons t ts ih =>
      intro ts'
      rw [List.map_cons, List.foldl_cons, h, ih, List.append_assoc]
      rfl
  exact hfrom []

/-- An edit that gives a part, if there is one to give. -/
theorem foldl_fill_toList {α : Type} {f : Option α → TypeNode} {edit : α → TypeEdit}
    (h : ∀ a, fill (f none) (edit a) = f (some a)) (a : Option α) :
    (a.map edit).toList.foldl fill (f none) = f a := by
  cases a with
  | none => rfl
  | some a => exact h a

/-- The edits of a shape make up the shape. -/
theorem foldl_fill_edits (h : shape.kind ≠ .error) :
    shape.edits.foldl fill { shape := shape.blank } = { shape := shape } := by
  cases shape with
  | error e => exact absurd rfl h
  | array c => exact foldl_fill_toList (f := fun c => { shape := .array c }) (fun _ => rfl) c
  | declared d =>
    obtain ⟨element, enclosing, arguments, erased⟩ := d
    simp only [TypeShape.edits, TypeShape.blank, List.foldl_append]
    rw [foldl_fill_toList (f := fun element => { shape := .declared { element } }) fun _ => rfl,
      foldl_fill_toList (f := fun enclosing => { shape := .declared { element, enclosing } })
        fun _ => rfl,
      foldl_fill_map (f := fun arguments =>
        { shape := .declared { element, enclosing, arguments } }) fun _ _ => rfl,
      foldl_fill_toList (f := fun erased =>
        { shape := .declared { element, enclosing, arguments, erased } }) fun _ => rfl]
  | executable x =>
    obtain ⟨typeVariables, parameters, returnType, receiver, thrown⟩ := x
    simp only [TypeShape.edits, TypeShape.blank, List.foldl_append]
    rw [foldl_fill_map (f := fun typeVariables => { shape := .executable { typeVariables } })
        fun _ _ => rfl,
      foldl_fill_map (f := fun parameters =>
        { shape := .executable { typeVariables, parameters } }) fun _ _ => rfl,
      foldl_fill_toList (f := fun returnType =>
        { shape := .executable { typeVariables, parameters, returnType } }) fun _ => rfl,
      foldl_fill_toList (f := fun receiver =>
        { shape := .executable { typeVariables, parameters, returnType, receiver } }) fun _ => rfl,
      foldl_fill_map (f := fun thrown =>
        { shape := .executable { typeVariables, parameters, returnType, receiver, thrown } })
          fun _ _ => rfl]
  | intersection bs =>
    exact foldl_fill_map (f := fun bs => { shape := .intersection bs }) (fun _ _ => rfl) bs
  | typeVar v =>
    obtain ⟨element, upper, lower, capturedFrom⟩ := v
    simp only [TypeShape.edits, TypeShape.blank, List.foldl_append]
    rw [foldl_fill_toList (f := fun element => { shape := .typeVar { element } }) fun _ => rfl,
      foldl_fill_toList (f := fun upper => { shape := .typeVar { element, upper } }) fun _ => rfl,
      foldl_fill_toList (f := fun lower => { shape := .typeVar { element, upper, lower } })
        fun _ => rfl,
      foldl_fill_toList (f := fun capturedFrom =>
        { shape := .typeVar { element, upper, lower, capturedFrom } }) fun _ => rfl]
  | union bs => exact foldl_fill_map (f := fun bs => { shape := .union bs }) (fun _ _ => rfl) bs
  | wildcard w =>
    obtain ⟨upper, lower⟩ := w
    simp only [TypeShape.edits, TypeShape.blank, List.foldl_append]
    rw [foldl_fill_toList (f := fun upper => { shape := .wildcard { upper } }) fun _ => rfl,
      foldl_fill_toList (f := fun lower => { shape := .wildcard { upper, lower } }) fun _ => rfl]
  | primitive p => rfl
  | noType n => rfl
  | null => rfl

end TypeEdit

/-- A type that was filled in has what the edits gave to it. -/
theorem slot_of_editTypeNodeAll {k : TypeId} : ∀ {edits : List TypeEdit} {n : TypeNode}
    {s s' : Store}, s.types[k.index]? = some (.node n) → editTypeNodeAll k n edits s = (.ok (), s') →
      s'.types[k.index]? = some (.node (edits.foldl TypeEdit.fill n))
  | [], n, s, s', hk, h => by
      cases h
      exact hk
  | edit :: edits, n, s, s', hk, h => by
      obtain ⟨n', s₁, h₁, h₂⟩ := bind_eq_ok h
      unfold editTypeNode at h₁
      split at h₁
      · next n₁ happly =>
        cases h₁
        rw [List.foldl_cons, ← TypeEdit.applyTo_eq_fill happly]
        exact slot_of_editTypeNodeAll (Slot.get_set hk _) h₂
      · cases h₁

/-- A type is made with the shape that was asked for. -/
theorem peekType_makeShape {shape : TypeShape} (hshape : shape.kind ≠ .error) {s s' : Store}
    {k : TypeId} (h : makeShape shape s = (.ok k, s')) :
    s'.peekType k = some (k, { shape := shape }) := by
  obtain ⟨k', s₁, h₁, h⟩ := bind_eq_ok h
  obtain ⟨⟨⟩, s₂, h₂, h⟩ := bind_eq_ok h
  cases h
  cases h₁
  have hslot := slot_of_editTypeNodeAll Array.getElem?_push_size h₂
  rw [TypeEdit.foldl_fill_edits hshape] at hslot
  exact Slot.peek_node hslot _

namespace Session

variable {S T : Session}

/-! ### What a session has derived -/

section Remembered

variable {P : TypeShape → TypeId → Store → Prop}
  (hmono : ∀ {shape : TypeShape} {k : TypeId} {s s' : Store}, s ≤ s' → P shape k s → P shape k s')
  (hmade : ∀ {shape : TypeShape} {k : TypeId} {s s' : Store}, makeShape shape s = (.ok k, s') →
    P shape k s')

include hmono hmade

theorem forall_derived_derive
    (h : ∀ shape k, S.memo.derived.lookup shape = some k → P shape k S.store) (made : TypeShape) :
    ∀ shape k, (JavaTypes.derive made S).2.memo.derived.lookup shape = some k →
      P shape k (JavaTypes.derive made S).2.store := by
  intro shape k hlook
  have hle := grows_derive made S
  cases hknown : S.memo.derived.lookup made with
  | some k' =>
    rw [derive_of_lookup hknown] at hlook ⊢
    exact h shape k hlook
  | none =>
    rw [derive_of_lookup_none hknown] at hlook hle ⊢
    cases hmake : makeShape made S.store with
    | mk r store =>
      rw [hmake] at hlook hle
      cases r with
      | error f => exact hmono hle.store (h shape k hlook)
      | ok k' =>
        by_cases heq : shape = made
        · subst heq
          cases Option.some.inj (List.lookup_cons_self.symm.trans hlook)
          exact hmade hmake
        · rw [List.lookup_cons, beq_false_of_ne heq] at hlook
          exact hmono hle.store (h shape k hlook)

/-- What holds of every type that is made, and stays true, holds of all that a session derives. -/
theorem forall_derived_later
    (h : ∀ shape k, S.memo.derived.lookup shape = some k → P shape k S.store) (hT : Later S T) :
    ∀ shape k, T.memo.derived.lookup shape = some k → P shape k T.store := by
  induction hT with
  | refl => exact h
  | tail _ hstep ih =>
    rcases hstep with (⟨store, hstep, rfl⟩ | ⟨shape, rfl⟩) | ⟨ranks, closures, rfl⟩
    · exact fun shape k hlook => hmono (Evolving.le_of_step hstep) (ih shape k hlook)
    · exact forall_derived_derive (P := P) hmono hmade ih shape
    · exact ih

end Remembered

/-- The types that the session has derived have the shapes that they were derived for. Types that
stand for an error are not made this way. -/
def DerivesShapes (T : Session) : Prop :=
  ∀ (shape : TypeShape) (k : TypeId), T.memo.derived.lookup shape = some k → shape.kind ≠ .error →
    T.store.peekType k = some (k, { shape := shape })

theorem DerivesShapes.later (h : S.DerivesShapes) (hT : Later S T) : T.DerivesShapes :=
  forall_derived_later (fun hle hk hkind => peekType_mono hle (hk hkind))
    (fun hmake hkind => peekType_makeShape hkind hmake) h hT

/-- The declared types that the session has derived are of the classes that they were derived for. The
parts that they were derived without may have been filled in since. -/
def DerivesClasses (T : Session) : Prop :=
  ∀ (shape : TypeShape) (k : TypeId), T.memo.derived.lookup shape = some k →
    ∀ d, shape = .declared d → ∃ n, T.store.peekType k = some (k, n) ∧ n.kind = .declared ∧
      n.element = d.element

theorem DerivesShapes.classes (h : S.DerivesShapes) : S.DerivesClasses := by
  rintro shape k hlook d rfl
  exact ⟨_, h _ k hlook (by rintro ⟨⟩), rfl, rfl⟩

theorem DerivesClasses.later (h : S.DerivesClasses) (hT : Later S T) : T.DerivesClasses := by
  refine forall_derived_later (P := fun shape k s => ∀ d, shape = .declared d →
    ∃ n, s.peekType k = some (k, n) ∧ n.kind = .declared ∧ n.element = d.element) ?_ ?_ h hT
  · intro shape k s s' hle hk d hd
    obtain ⟨n, hn, hkind, helement⟩ := hk d hd
    exact ⟨n, peekType_mono hle hn, hkind, helement⟩
  · rintro _ k s s' hmake d rfl
    exact ⟨_, peekType_makeShape (by rintro ⟨⟩) hmake, rfl, rfl⟩

/-! ### Types of the same class -/

/-- The two types are the same handle, or they are declared types that have the same element. The
first can have the element itself where the second has a handle that stands for it. -/
def SameClass (T : Session) (k t : TypeId) : Prop :=
  k = t ∨ ∃ u m v n, T.store.peekType k = some (u, m) ∧ T.store.peekType t = some (v, n) ∧
    m.kind = .declared ∧ n.kind = .declared ∧ (m.element = n.element ∨ ∃ d e x, n.element = some d ∧
        T.store.peekElement d = some (e, x) ∧ m.element = some e)

variable {k t u v : TypeId} {n : TypeNode} {e : ElementId} {C : ElementId → Prop}

theorem SameClass.mono (h : S.SameClass k t) (hle : S ≤ T) : T.SameClass k t := by
  refine h.imp_right ?_
  rintro ⟨u, m, v, n, hk, ht, hm, hn, helement⟩
  refine ⟨u, m, v, n, peekType_mono hle.store hk, peekType_mono hle.store ht, hm, hn, ?_⟩
  refine helement.imp_right ?_
  rintro ⟨d, e, x, hd, he, hm⟩
  exact ⟨d, e, x, hd, peekElement_mono hle.store he, hm⟩

theorem SameClass.isClass_iff (h : T.SameClass k t) : T.IsClass k e ↔ T.IsClass t e := by
  rcases h with rfl | ⟨u, m, v, n, hk, ht, hm, hn, helement⟩
  · exact .rfl
  constructor
  · rintro ⟨u', m', d, x, hk', -, hd, hx⟩
    cases hk.symm.trans hk'
    rcases helement with helement | ⟨d', e', x', hd', he', hm'⟩
    · exact ⟨v, n, d, x, ht, hn, helement.symm.trans hd, hx⟩
    · cases hd.symm.trans hm'
      cases hx.symm.trans (Store.peekElement_self he')
      exact ⟨v, n, d', x, ht, hn, hd', he'⟩
  · rintro ⟨v', n', d, x, ht', -, hd, hx⟩
    cases ht.symm.trans ht'
    rcases helement with helement | ⟨d', e', x', hd', he', hm'⟩
    · exact ⟨u, m, d, x, hk, hm, helement.trans hd, hx⟩
    · cases hd.symm.trans hd'
      cases hx.symm.trans he'
      exact ⟨u, m, e, x, hk, hm, hm', Store.peekElement_self hx⟩

theorem SameClass.declaredIn (h : S.SameClass k t) (ht : S.DeclaredIn C t) : S.DeclaredIn C k := by
  rcases h with rfl | ⟨u, m, v, n, hk, ht', hm, hn, helement⟩
  · exact ht
  obtain ⟨-, d, hd, hdeclared⟩ :=
    Yields.of_known ht (Later.refl S) (known_onStore.2 (known_viewType.2 ht'))
  refine (yields_viewType_of_peek hk).imp fun T x hT hx => ?_
  subst hx
  refine ⟨hm, ?_⟩
  rcases helement with helement | ⟨d', e, x, hd', he, hm'⟩
  · exact ⟨d, helement.trans hd, hdeclared.later hT⟩
  · cases hd.symm.trans hd'
    have hCe : C e := hdeclared.of_known (Later.refl S) (known_onStore.2 (known_viewElement.2 he))
    refine ⟨e, hm', Yields.imp (yields_viewElement_of_peek
      (peekElement_mono hT.le.store (Store.peekElement_self he))) fun _ y _ hy => ?_⟩
    rw [hy]
    exact hCe

theorem sameClass_of_node (ht : T.Shows t u n) (hn : n.kind = .declared) : T.SameClass u t :=
  .inr ⟨u, n, u, n, ht.self, ht, hn, hn, .inl rfl⟩

section Derived

variable (hS : S.DerivesClasses) (ht : S.Shows t u n) (hn : n.kind = .declared)
  {change : TypeId → Query TypeId}

include ht hn in
theorem ensures_same : Ensures S (pure u : Query TypeId) fun T k => T.SameClass k t :=
  ensures_pure fun _ hT => sameClass_of_node (ht.mono hT.le) hn

include hS ht hn

/-- A type that is derived for the element of a declared type has its class. -/
theorem ensures_deriveDeclared {d : ElementId} (hd : n.element = some d)
    (enclosing : TypeId) (arguments : List TypeId) (erased : Bool) :
    Ensures S (do
      let outer ← unlessNone enclosing
      deriveDeclared (← resolveElement d) outer arguments erased : Query TypeId)
        fun T k => T.SameClass k t := by
  refine ensures_of_settles.bind fun T outer hT _ => ?_
  refine ensures_of_settles.bind fun U e hU he => ?_
  refine ensures_of_settles.imp fun V k hV hk => ?_
  have hSV := hT.trans (hU.trans hV)
  obtain ⟨x, hx⟩ := known_resolveElement.1 (known_onStore.1 (he V hV))
  obtain ⟨m, hm, hkind, helement⟩ := hS.later hSV _ k (lookup_of_derive hk) _ rfl
  exact .inr ⟨k, m, u, n, hm, ht.mono hSV.le, hkind, hn, .inr ⟨d, e, x, hd, hx, helement⟩⟩

theorem ensures_eraseDeclared [hc : ∀ t, Settles (change t) (change t)] :
    Ensures S (eraseDeclared change u n) fun T k => T.SameClass k t := by
  have hstays := ensures_same ht hn
  unfold eraseDeclared
  split
  · exact hstays
  cases hd : n.element with
  | none => exact hstays
  | some d =>
    refine ensures_bind_of_settles fun T x hT => ?_
    refine ensures_ite_bind_of_settles fun U enclosing' hU => ?_
    refine ensures_bind_of_settles fun V plain hV => ?_
    have hSV := hT.trans (hU.trans hV)
    split
    · exact hstays.later hSV
    · exact (ensures_deriveDeclared hS ht hn hd _ _ _).later hSV

theorem ensures_substituteDeclared [hc : ∀ t, Settles (change t) (change t)] :
    Ensures S (substituteDeclared change u n) fun T k => T.SameClass k t := by
  have hstays := ensures_same ht hn
  refine ensures_bind_of_settles fun T x hT => ?_
  refine ensures_ite_bind_of_settles fun U enclosing' hU => ?_
  refine ensures_bind_of_settles fun V arguments' hV => ?_
  have hSV := hT.trans (hU.trans hV)
  split
  · exact hstays.later hSV
  cases hd : n.element with
  | none => exact hstays.later hSV
  | some d => exact (ensures_deriveDeclared hS ht hn hd _ _ _).later hSV

end Derived

section Seen

variable (hS : S.DerivesClasses)
  (ht : Yields S (onStore (viewType t)) fun _ x => x.2.kind = .declared)

include hS ht

theorem ensures_erase : ∀ {fuel : Nat}, Ensures S (erase fuel t) fun T k => T.SameClass k t
  | 0 => ensures_throw
  | fuel + 1 => by
      refine ht.peekType.ensures.bind fun T x hT hx => ?_
      obtain ⟨hpeek, hn⟩ := hx T .rfl
      obtain ⟨d, hshape⟩ := TypeNode.shape_of_declared hn
      dsimp only
      rw [hshape]
      exact ensures_eraseDeclared (hS.later hT) hpeek hn

theorem ensures_substitute {σ : Substitution} : ∀ {fuel : Nat},
    Ensures S (substitute σ fuel t) fun T k => T.SameClass k t
  | 0 => ensures_throw
  | fuel + 1 => by
      refine ht.peekType.ensures.bind fun T x hT hx => ?_
      obtain ⟨hpeek, hn⟩ := hx T .rfl
      obtain ⟨d, hshape⟩ := TypeNode.shape_of_declared hn
      dsimp only
      rw [hshape]
      split
      · exact ensures_substituteDeclared (hS.later hT) hpeek hn
      · exact ensures_same hpeek hn

/-- What a declaration names, seen from an instance, is of the same class. -/
theorem ensures_seenFrom {fuel : Nat} (seer : TypeId) (e : ElementId) :
    Ensures S (seenFrom fuel seer e t) fun T k => T.SameClass k t := by
  refine ensures_bind_of_settles fun T raw hT => ?_
  split
  · exact (ensures_erase hS ht).later hT
  refine ensures_bind_of_settles fun U parameterized hU => ?_
  split
  · refine ensures_bind_of_settles fun V own hV => ?_
    refine ensures_bind_of_settles fun W vars hW => ?_
    refine ensures_bind_of_settles fun X vals hX => ?_
    exact (ensures_substitute hS ht).later (hT.trans (hU.trans (hV.trans (hW.trans hX))))
  · exact ensures_pure fun V _ => .inl rfl

end Seen

end Session

end JavaTypes
