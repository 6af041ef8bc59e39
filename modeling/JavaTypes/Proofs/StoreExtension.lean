import JavaTypes.Proofs.ElementChanges

/-!
# Nothing is taken back

`s.Extends t` says that the store `t` has all that `s` has: the node of a type or element is still one,
of the same kind, with the parts that it was given; a deferred slot that was completed stands for the
same handle, and one that failed has the same fault; and there are no fewer slots. A part that can be
given once stays as it was given, a list only gets longer at its end, and modifiers are only added.

* `TypeNode.Extends`, `ElementNode.Extends`: the same for single nodes, part by part;
* `TypeEdit.extends_applyTo`, `ElementEdit.extends_applyTo`: what filling in does to a node;
* `Store.extends_of_change`: every step extends the store, and so does any number of steps
  (`Store.extends_of_moves`);
* `Store.Extends.peekType`, `Store.Extends.peekElement`: a handle that leads to a node leads to it from
  then on.
-/

namespace JavaTypes

/-! ### Parts -/

/-- A part that can be given once: if it is there, it stays. -/
def StaysSet {α : Type} (old new : Option α) : Prop :=
  ∀ v, old = some v → new = some v

section StaysSet

variable {α : Type} {a b c : Option α}

theorem StaysSet.refl (a : Option α) : StaysSet a a :=
  fun _ h => h

theorem StaysSet.trans (hab : StaysSet a b) (hbc : StaysSet b c) : StaysSet a c :=
  fun v h => hbc v (hab v h)

theorem staysSet_none (a : Option α) : StaysSet none a := by
  intro v h
  cases h

theorem staysSet_getD (a : Option α) (v : α) : StaysSet a (some (a.getD v)) := by
  rintro w rfl
  rfl

theorem staysSet_of_setOnceBy {same : α → α → Bool} {field : String} {v : α}
    (h : setOnceBy same field a v = .ok b) : StaysSet a b := by
  cases a with
  | none => exact staysSet_none b
  | some w =>
    unfold setOnceBy at h
    dsimp only at h
    split at h
    · cases h
      exact .refl _
    · cases h

theorem staysSet_of_setOnce [BEq α] {field : String} {v : α}
    (h : setOnce field a v = .ok b) : StaysSet a b :=
  staysSet_of_setOnceBy h

theorem prefix_insertNew [BEq α] (v : α) (as : List α) : as <+: insertNew v as := by
  unfold insertNew
  split
  · exact List.prefix_refl as
  · exact List.prefix_append as [v]

end StaysSet

/-! ### Types -/

/-- A declared type with further parts. -/
structure DeclaredType.Extends (d d' : DeclaredType) : Prop where
  element : StaysSet d.element d'.element
  enclosing : StaysSet d.enclosing d'.enclosing
  arguments : d.arguments <+: d'.arguments
  erased : StaysSet d.erased d'.erased

/-- An executable type with further parts. -/
structure ExecutableType.Extends (x x' : ExecutableType) : Prop where
  typeVariables : x.typeVariables <+: x'.typeVariables
  parameters : x.parameters <+: x'.parameters
  returnType : StaysSet x.returnType x'.returnType
  receiver : StaysSet x.receiver x'.receiver
  thrown : x.thrown <+: x'.thrown

/-- A type variable with further parts. -/
structure TypeVariable.Extends (v v' : TypeVariable) : Prop where
  element : StaysSet v.element v'.element
  upper : StaysSet v.upper v'.upper
  lower : StaysSet v.lower v'.lower
  capturedFrom : StaysSet v.capturedFrom v'.capturedFrom

/-- A wildcard with further parts. -/
structure WildcardType.Extends (w w' : WildcardType) : Prop where
  upper : StaysSet w.upper w'.upper
  lower : StaysSet w.lower w'.lower

/-- A shape of the same kind with further parts. -/
inductive TypeShape.Extends : TypeShape → TypeShape → Prop
  | same (shape : TypeShape) : Extends shape shape
  | array {c c' : Option TypeId} (h : StaysSet c c') : Extends (.array c) (.array c')
  | declared {d d' : DeclaredType} (h : d.Extends d') : Extends (.declared d) (.declared d')
  | error {e e' : Option ElementId} (h : StaysSet e e') : Extends (.error e) (.error e')
  | executable {x x' : ExecutableType} (h : x.Extends x') : Extends (.executable x) (.executable x')
  | intersection {bs bs' : List TypeId} (h : bs <+: bs') :
      Extends (.intersection bs) (.intersection bs')
  | typeVar {v v' : TypeVariable} (h : v.Extends v') : Extends (.typeVar v) (.typeVar v')
  | union {bs bs' : List TypeId} (h : bs <+: bs') : Extends (.union bs) (.union bs')
  | wildcard {w w' : WildcardType} (h : w.Extends w') : Extends (.wildcard w) (.wildcard w')

/-- The node of a type with further parts. -/
structure TypeNode.Extends (m n : TypeNode) : Prop where
  shape : m.shape.Extends n.shape
  annotations : m.annotations <+: n.annotations

theorem DeclaredType.Extends.refl (d : DeclaredType) : d.Extends d :=
  ⟨.refl _, .refl _, List.prefix_refl _, .refl _⟩

theorem ExecutableType.Extends.refl (x : ExecutableType) : x.Extends x :=
  ⟨List.prefix_refl _, List.prefix_refl _, .refl _, .refl _, List.prefix_refl _⟩

theorem TypeVariable.Extends.refl (v : TypeVariable) : v.Extends v :=
  ⟨.refl _, .refl _, .refl _, .refl _⟩

theorem WildcardType.Extends.refl (w : WildcardType) : w.Extends w :=
  ⟨.refl _, .refl _⟩

theorem DeclaredType.Extends.trans {a b c : DeclaredType} (h₁ : a.Extends b) (h₂ : b.Extends c) :
    a.Extends c where
  element := h₁.element.trans h₂.element
  enclosing := h₁.enclosing.trans h₂.enclosing
  arguments := h₁.arguments.trans h₂.arguments
  erased := h₁.erased.trans h₂.erased

theorem ExecutableType.Extends.trans {a b c : ExecutableType} (h₁ : a.Extends b)
    (h₂ : b.Extends c) : a.Extends c where
  typeVariables := h₁.typeVariables.trans h₂.typeVariables
  parameters := h₁.parameters.trans h₂.parameters
  returnType := h₁.returnType.trans h₂.returnType
  receiver := h₁.receiver.trans h₂.receiver
  thrown := h₁.thrown.trans h₂.thrown

theorem TypeVariable.Extends.trans {a b c : TypeVariable} (h₁ : a.Extends b) (h₂ : b.Extends c) :
    a.Extends c where
  element := h₁.element.trans h₂.element
  upper := h₁.upper.trans h₂.upper
  lower := h₁.lower.trans h₂.lower
  capturedFrom := h₁.capturedFrom.trans h₂.capturedFrom

theorem WildcardType.Extends.trans {a b c : WildcardType} (h₁ : a.Extends b) (h₂ : b.Extends c) :
    a.Extends c where
  upper := h₁.upper.trans h₂.upper
  lower := h₁.lower.trans h₂.lower

theorem TypeShape.Extends.trans {a b c : TypeShape} (h₁ : a.Extends b) (h₂ : b.Extends c) :
    a.Extends c := by
  cases h₁ with
  | same => exact h₂
  | array h =>
    cases h₂ with
    | same => exact .array h
    | array h' => exact .array (h.trans h')
  | declared h =>
    cases h₂ with
    | same => exact .declared h
    | declared h' => exact .declared (h.trans h')
  | error h =>
    cases h₂ with
    | same => exact .error h
    | error h' => exact .error (h.trans h')
  | executable h =>
    cases h₂ with
    | same => exact .executable h
    | executable h' => exact .executable (h.trans h')
  | intersection h =>
    cases h₂ with
    | same => exact .intersection h
    | intersection h' => exact .intersection (h.trans h')
  | typeVar h =>
    cases h₂ with
    | same => exact .typeVar h
    | typeVar h' => exact .typeVar (h.trans h')
  | union h =>
    cases h₂ with
    | same => exact .union h
    | union h' => exact .union (h.trans h')
  | wildcard h =>
    cases h₂ with
    | same => exact .wildcard h
    | wildcard h' => exact .wildcard (h.trans h')

theorem TypeShape.Extends.kind_eq {a b : TypeShape} (h : a.Extends b) : b.kind = a.kind := by
  cases h <;> rfl

namespace TypeNode.Extends

variable {m n o : TypeNode}

theorem refl (m : TypeNode) : m.Extends m :=
  ⟨.same _, List.prefix_refl _⟩

theorem trans (h₁ : m.Extends n) (h₂ : n.Extends o) : m.Extends o :=
  ⟨h₁.shape.trans h₂.shape, h₁.annotations.trans h₂.annotations⟩

theorem kind_eq (h : m.Extends n) : n.kind = m.kind :=
  h.shape.kind_eq

end TypeNode.Extends

namespace TypeEdit

/-- An edit adds to a shape. -/
theorem extends_extend (edit : TypeEdit) (shape : TypeShape) :
    shape.Extends (edit.extend shape) := by
  unfold extend
  split
  -- component of an array
  · exact .array (staysSet_getD _ _)
  -- element of a declared type, and of a type variable
  · exact .declared { DeclaredType.Extends.refl _ with element := staysSet_getD _ _ }
  · exact .typeVar { TypeVariable.Extends.refl _ with element := staysSet_getD _ _ }
  -- enclosing type, arguments and mark of a declared type
  · exact .declared { DeclaredType.Extends.refl _ with enclosing := staysSet_getD _ _ }
  · exact .declared { DeclaredType.Extends.refl _ with arguments := List.prefix_append _ _ }
  · exact .declared { DeclaredType.Extends.refl _ with erased := staysSet_getD _ _ }
  -- parts of an executable type
  · exact .executable { ExecutableType.Extends.refl _ with parameters := List.prefix_append _ _ }
  · exact .executable { ExecutableType.Extends.refl _ with returnType := staysSet_getD _ _ }
  · exact .executable { ExecutableType.Extends.refl _ with receiver := staysSet_getD _ _ }
  · exact .executable { ExecutableType.Extends.refl _ with thrown := List.prefix_append _ _ }
  · exact .executable { ExecutableType.Extends.refl _ with typeVariables := List.prefix_append _ _ }
  -- bounds of an intersection, alternatives of a union
  · exact .intersection (List.prefix_append _ _)
  · exact .union (List.prefix_append _ _)
  -- bounds and origin of a type variable
  · exact .typeVar { TypeVariable.Extends.refl _ with upper := staysSet_getD _ _ }
  · exact .typeVar { TypeVariable.Extends.refl _ with lower := staysSet_getD _ _ }
  · exact .typeVar { TypeVariable.Extends.refl _ with capturedFrom := staysSet_getD _ _ }
  -- bounds of a wildcard
  · exact .wildcard { WildcardType.Extends.refl _ with upper := staysSet_getD _ _ }
  · exact .wildcard { WildcardType.Extends.refl _ with lower := staysSet_getD _ _ }
  -- every other edit changes nothing
  · exact .same _

theorem extends_applyTo {s : Store} {owner : TypeId} {edit : TypeEdit} {n n' : TypeNode}
    (h : edit.applyTo s owner n = .ok n') : n.Extends n' := by
  rw [applyTo_eq_fill h]
  cases edit with
  | annotate a => exact ⟨.same _, List.prefix_append _ _⟩
  | _ => exact ⟨extends_extend _ _, List.prefix_refl _⟩

end TypeEdit

/-- A type that is linked to the element that it is the type of. -/
theorem TypeNode.extends_linked {m : TypeNode} {e : ElementId}
    (hfree : m.element = none ∨ m.element = some e) : m.Extends (m.linked e) := by
  obtain ⟨shape, annotations⟩ := m
  have hstays : StaysSet (TypeNode.mk shape annotations).element (some e) := by
    intro v hv
    rcases hfree with hnone | hsome
    · rw [hnone] at hv
      cases hv
    · exact hsome.symm.trans hv
  cases shape with
  | declared d =>
    exact ⟨.declared { DeclaredType.Extends.refl d with element := hstays }, List.prefix_refl _⟩
  | error e' => exact ⟨.error hstays, List.prefix_refl _⟩
  | typeVar v =>
    exact ⟨.typeVar { TypeVariable.Extends.refl v with element := hstays }, List.prefix_refl _⟩
  | _ => exact .refl _

/-! ### Elements -/

/-- The parts of a type element with further ones. -/
structure ClassDecl.Extends (d d' : ClassDecl) : Prop where
  nesting : StaysSet d.nesting d'.nesting
  superclass : StaysSet d.superclass d'.superclass
  interfaces : d.interfaces <+: d'.interfaces
  permitted : d.permitted <+: d'.permitted
  typeParameters : d.typeParameters <+: d'.typeParameters

/-- The parts of an element that declares code with further ones. -/
structure ExecutableDecl.Extends (d d' : ExecutableDecl) : Prop where
  parameters : d.parameters <+: d'.parameters
  typeParameters : d.typeParameters <+: d'.typeParameters
  varargs : StaysSet d.varargs d'.varargs
  isDefault : StaysSet d.isDefault d'.isDefault
  defaultValue : StaysSet d.defaultValue d'.defaultValue

/-- An element of the same kind with further parts that only its kind has. -/
inductive ElementDetail.Extends : ElementDetail → ElementDetail → Prop
  | same (detail : ElementDetail) : Extends detail detail
  | type (k : ClassKind) {d d' : ClassDecl} (h : d.Extends d') : Extends (.type k d) (.type k d')
  | var (k : VariableKind) {c c' : Option Constant} (h : StaysSet c c') :
      Extends (.var k c) (.var k c')
  | executable (k : ExecutableKind) {d d' : ExecutableDecl} (h : d.Extends d') :
      Extends (.executable k d) (.executable k d')
  | recordComponent {a a' : Option ElementId} (h : StaysSet a a') :
      Extends (.recordComponent a) (.recordComponent a')

/-- The node of an element with further parts. -/
structure ElementNode.Extends (m n : ElementNode) : Prop where
  name : StaysSet m.name n.name
  type : StaysSet m.type n.type
  modifiers : m.modifiers ⊆ n.modifiers
  enclosing : StaysSet m.enclosing n.enclosing
  enclosed : m.enclosed <+: n.enclosed
  annotations : m.annotations <+: n.annotations
  detail : m.detail.Extends n.detail

theorem ClassDecl.Extends.refl (d : ClassDecl) : d.Extends d :=
  ⟨.refl _, .refl _, List.prefix_refl _, List.prefix_refl _, List.prefix_refl _⟩

theorem ExecutableDecl.Extends.refl (d : ExecutableDecl) : d.Extends d :=
  ⟨List.prefix_refl _, List.prefix_refl _, .refl _, .refl _, .refl _⟩

theorem ClassDecl.Extends.trans {a b c : ClassDecl} (h₁ : a.Extends b) (h₂ : b.Extends c) :
    a.Extends c where
  nesting := h₁.nesting.trans h₂.nesting
  superclass := h₁.superclass.trans h₂.superclass
  interfaces := h₁.interfaces.trans h₂.interfaces
  permitted := h₁.permitted.trans h₂.permitted
  typeParameters := h₁.typeParameters.trans h₂.typeParameters

theorem ExecutableDecl.Extends.trans {a b c : ExecutableDecl} (h₁ : a.Extends b)
    (h₂ : b.Extends c) : a.Extends c where
  parameters := h₁.parameters.trans h₂.parameters
  typeParameters := h₁.typeParameters.trans h₂.typeParameters
  varargs := h₁.varargs.trans h₂.varargs
  isDefault := h₁.isDefault.trans h₂.isDefault
  defaultValue := h₁.defaultValue.trans h₂.defaultValue

theorem ElementDetail.Extends.trans {a b c : ElementDetail} (h₁ : a.Extends b)
    (h₂ : b.Extends c) : a.Extends c := by
  cases h₁ with
  | same => exact h₂
  | type k h =>
    cases h₂ with
    | same => exact .type k h
    | type _ h' => exact .type k (h.trans h')
  | var k h =>
    cases h₂ with
    | same => exact .var k h
    | var _ h' => exact .var k (h.trans h')
  | executable k h =>
    cases h₂ with
    | same => exact .executable k h
    | executable _ h' => exact .executable k (h.trans h')
  | recordComponent h =>
    cases h₂ with
    | same => exact .recordComponent h
    | recordComponent h' => exact .recordComponent (h.trans h')

theorem ElementDetail.Extends.kind_eq {a b : ElementDetail} (h : a.Extends b) : b.kind = a.kind := by
  cases h <;> rfl

namespace ElementNode.Extends

variable {m n o : ElementNode}

theorem refl (m : ElementNode) : m.Extends m :=
  ⟨.refl _, .refl _, List.Subset.refl _, .refl _, List.prefix_refl _, List.prefix_refl _, .same _⟩

theorem trans (h₁ : m.Extends n) (h₂ : n.Extends o) : m.Extends o where
  name := h₁.name.trans h₂.name
  type := h₁.type.trans h₂.type
  modifiers := List.Subset.trans h₁.modifiers h₂.modifiers
  enclosing := h₁.enclosing.trans h₂.enclosing
  enclosed := h₁.enclosed.trans h₂.enclosed
  annotations := h₁.annotations.trans h₂.annotations
  detail := h₁.detail.trans h₂.detail

theorem kind_eq (h : m.Extends n) : n.kind = m.kind :=
  h.detail.kind_eq

end ElementNode.Extends

namespace ElementEdit

variable {edit : ElementEdit}

theorem extends_applyToClass {k : ClassKind} {d d' : ClassDecl}
    (h : edit.applyToClass k d = .ok d') : d.Extends d' := by
  cases edit with
  | nesting =>
    obtain ⟨new, hset, h⟩ := exists_of_bind_eq_ok h
    cases h
    exact { ClassDecl.Extends.refl d with nesting := staysSet_of_setOnce hset }
  | superclass =>
    obtain ⟨new, hset, h⟩ := exists_of_bind_eq_ok h
    cases h
    exact { ClassDecl.Extends.refl d with superclass := staysSet_of_setOnce hset }
  | interface =>
    cases h
    exact { ClassDecl.Extends.refl d with interfaces := List.prefix_append _ _ }
  | permitted =>
    cases h
    exact { ClassDecl.Extends.refl d with permitted := List.prefix_append _ _ }
  | _ => cases h

theorem extends_applyToExecutable {k : ExecutableKind} {d d' : ExecutableDecl}
    (h : edit.applyToExecutable k d = .ok d') : d.Extends d' := by
  cases edit with
  | varargs =>
    obtain ⟨new, hset, h⟩ := exists_of_bind_eq_ok h
    cases h
    exact { ExecutableDecl.Extends.refl d with varargs := staysSet_of_setOnce hset }
  | isDefault =>
    obtain ⟨new, hset, h⟩ := exists_of_bind_eq_ok h
    cases h
    exact { ExecutableDecl.Extends.refl d with isDefault := staysSet_of_setOnce hset }
  | defaultValue =>
    obtain ⟨new, hset, h⟩ := exists_of_bind_eq_ok h
    cases h
    exact { ExecutableDecl.Extends.refl d with defaultValue := staysSet_of_setOnceBy hset }
  | _ => cases h

theorem extends_applyToDetail {detail detail' : ElementDetail}
    (h : edit.applyToDetail detail = .ok detail') : detail.Extends detail' := by
  cases detail with
  | type k d =>
    obtain ⟨d', hd, h⟩ := exists_of_bind_eq_ok h
    cases h
    exact .type k (extends_applyToClass hd)
  | executable k d =>
    obtain ⟨d', hd, h⟩ := exists_of_bind_eq_ok h
    cases h
    exact .executable k (extends_applyToExecutable hd)
  | var k c =>
    cases edit with
    | constant =>
      obtain ⟨c', hset, h⟩ := exists_of_bind_eq_ok h
      cases h
      exact .var k (staysSet_of_setOnceBy hset)
    | _ => cases h
  | _ => cases h

/-- Filling in an element adds to its node. -/
theorem extends_applyTo {n n' : ElementNode} (h : edit.applyTo n = .ok n') : n.Extends n' := by
  cases edit with
  | simpleName =>
    obtain ⟨new, hset, h⟩ := exists_of_bind_eq_ok h
    cases h
    exact { ElementNode.Extends.refl n with name := staysSet_of_setOnce hset }
  | modifier m =>
    cases h
    split
    · exact .refl n
    · exact { ElementNode.Extends.refl n with modifiers := List.subset_append_left _ _ }
  | annotate =>
    cases h
    exact { ElementNode.Extends.refl n with annotations := List.prefix_append _ _ }
  | _ =>
    obtain ⟨detail, hdetail, h⟩ := exists_of_bind_eq_ok h
    cases h
    exact { ElementNode.Extends.refl n with detail := extends_applyToDetail hdetail }

end ElementEdit

theorem ElementNode.extends_enclosedBy {n n' : ElementNode} {parent : ElementId}
    {outer : ElementKind} (h : n.enclosedBy parent outer = .ok n') : n.Extends n' := by
  obtain ⟨-, enclosing', rfl, hset⟩ := ElementNode.of_enclosedBy h
  exact { ElementNode.Extends.refl n with enclosing := staysSet_of_setOnce hset }

/-- An element with one more member. -/
theorem ElementNode.extends_addMember (n : ElementNode) (role : Membership) (child : ElementId) :
    n.Extends (n.addMember role child) := by
  unfold addMember
  split
  · exact { ElementNode.Extends.refl n with enclosed := prefix_insertNew child n.enclosed }
  · next k d hd =>
    refine { ElementNode.Extends.refl n with detail := ?_ }
    rw [hd]
    exact .type k { ClassDecl.Extends.refl d with typeParameters := prefix_insertNew child _ }
  · next k d hd =>
    refine { ElementNode.Extends.refl n with detail := ?_ }
    rw [hd]
    exact .executable k
      { ExecutableDecl.Extends.refl d with typeParameters := prefix_insertNew child _ }
  · next k d hd =>
    refine { ElementNode.Extends.refl n with detail := ?_ }
    rw [hd]
    exact .executable k
      { ExecutableDecl.Extends.refl d with parameters := prefix_insertNew child _ }
  · exact .refl n

/-! ### Slots -/

namespace Slot

variable {ν κ : Type} {R : ν → ν → Prop} {slots slots' slots'' : Array (Slot ν κ)}

/-- The slots of the second array go on from those of the first, where `R` says what may become of a
node. -/
structure Extended (R : ν → ν → Prop) (slots slots' : Array (Slot ν κ)) : Prop where
  node : ∀ {i : Nat} {m : ν}, slots[i]? = some (.node m) → ∃ n, slots'[i]? = some (.node n) ∧ R m n
  done : ∀ {i : Nat} {target : κ}, slots[i]? = some (.done target) →
    slots'[i]? = some (.done target)
  failed : ∀ {i : Nat} {fault : Fault}, slots[i]? = some (.failed fault) →
    slots'[i]? = some (.failed fault)
  size : slots.size ≤ slots'.size

namespace Extended

theorem trans (hR : ∀ {a b c}, R a b → R b c → R a c) (h₁ : Extended R slots slots')
    (h₂ : Extended R slots' slots'') : Extended R slots slots'' where
  node h := by
    obtain ⟨n, hn, hmn⟩ := h₁.node h
    obtain ⟨o, ho, hno⟩ := h₂.node hn
    exact ⟨o, ho, hR hmn hno⟩
  done h := h₂.done (h₁.done h)
  failed h := h₂.failed (h₁.failed h)
  size := le_trans h₁.size h₂.size

variable (hR : ∀ m, R m m)

include hR

/-- What is final in the first array is the same in the second. -/
theorem of_kept (h : Kept slots slots') (hsize : slots.size ≤ slots'.size) :
    Extended R slots slots' where
  node {i m} hi := ⟨m, h i _ hi rfl, hR m⟩
  done hi := h _ _ hi rfl
  failed hi := h _ _ hi rfl
  size := hsize

theorem refl (slots : Array (Slot ν κ)) : Extended R slots slots :=
  of_kept hR (fun _ _ h _ => h) le_rfl

theorem push (slots : Array (Slot ν κ)) (slot : Slot ν κ) : Extended R slots (slots.push slot) :=
  of_kept hR (.push (fun _ _ h _ => h) slot) (by simp)

/-- A slot that is not final is replaced. -/
theorem setOpen {i : Nat} {old : Slot ν κ} (hi : slots[i]? = some old) (hopen : old.isFinal = false)
    (slot : Slot ν κ) : Extended R slots (slots.setIfInBounds i slot) := by
  refine of_kept hR (.set (fun _ _ h _ => h) (fun old' h => ?_) slot) (by simp)
  rw [hi] at h
  cases h
  exact hopen

/-- A node is replaced. -/
theorem setNode {i : Nat} {m n : ν} (hi : slots[i]? = some (.node m)) (hmn : R m n) :
    Extended R slots (slots.setIfInBounds i (.node n)) := by
  -- A slot with another content is another slot.
  have hother : ∀ {k : Nat} {slot : Slot ν κ}, slots[k]? = some slot → slot ≠ .node m →
      (slots.setIfInBounds i (.node n))[k]? = some slot := by
    intro k slot hk hne
    rw [Array.getElem?_setIfInBounds_ne, hk]
    rintro rfl
    rw [hi] at hk
    cases hk
    exact hne rfl
  refine ⟨fun {k m'} hk => ?_, fun hk => hother hk ?_, fun hk => hother hk ?_, by simp⟩
  · by_cases hki : i = k
    · subst hki
      cases hi.symm.trans hk
      exact ⟨n, Slot.get_set hi _, hmn⟩
    · exact ⟨m', by rw [Array.getElem?_setIfInBounds_ne hki, hk], hR m'⟩
  · intro h
    cases h
  · intro h
    cases h

omit hR

/-- A walk over completed slots leads to the same node. -/
theorem peek (h : Extended R slots slots') {index : κ → Nat} :
    ∀ {n n' : Nat} (_ : n ≤ n') {k l : κ} {v : ν}, Slot.peek slots index n k = some (l, v) →
      ∃ w, Slot.peek slots' index n' k = some (l, w) ∧ R v w
  | 0, _, _, _, _, _, hp => by cases hp
  | n + 1, 0, hle, _, _, _, _ => by cases hle
  | n + 1, n' + 1, hle, k, l, v, hp => by
      unfold Slot.peek at hp
      split at hp
      · next v' hk =>
        cases hp
        obtain ⟨w, hw, hvw⟩ := h.node hk
        exact ⟨w, peek_node hw n', hvw⟩
      · next k' hk =>
        rw [peek_done (h.done hk) n']
        exact peek h (Nat.le_of_succ_le_succ hle) hp
      · cases hp

end Extended

end Slot

/-! ### Stores -/

/-- The second store has all that the first has. -/
structure Store.Extends (s t : Store) : Prop where
  types : Slot.Extended TypeNode.Extends s.types t.types
  elements : Slot.Extended ElementNode.Extends s.elements t.elements

namespace Store

variable {s t u : Store} {k owner : TypeId} {e p c : ElementId} {m n n' : ElementNode}

theorem Extends.refl (s : Store) : s.Extends s :=
  ⟨.refl .refl _, .refl .refl _⟩

theorem Extends.trans (h₁ : s.Extends t) (h₂ : t.Extends u) : s.Extends u :=
  ⟨h₁.types.trans .trans h₂.types, h₁.elements.trans .trans h₂.elements⟩

theorem extends_setTypeNode {m n : TypeNode} (hk : s.types[k.index]? = some (.node m))
    (h : m.Extends n) : s.Extends (s.setTypeNode k n) :=
  ⟨.setNode .refl hk h, .refl .refl _⟩

theorem extends_setElementNode (he : s.elements[e.index]? = some (.node m)) (h : m.Extends n) :
    s.Extends (s.setElementNode e n) :=
  ⟨.refl .refl _, .setNode .refl he h⟩

/-- The two ends of the link between an element and its member are written one after the other. -/
theorem extends_withMember {role : Membership}
    (hp : s.elements[p.index]? = some (.node m)) (hc : s.elements[c.index]? = some (.node n))
    (h : n.Extends n') : s.Extends (s.withMember role p c m n') := by
  have hwritten := slot_setElementNode hp hc n'
  exact (extends_setElementNode hc h).trans
    (extends_setElementNode hwritten (ElementNode.extends_addMember _ role c))

/-- Every step extends the store. -/
theorem extends_of_change (h : Change s t) : s.Extends t := by
  cases h with
  | names => exact ⟨.refl .refl _, .refl .refl _⟩
  | newType => exact ⟨.push .refl _ _, .refl .refl _⟩
  | newElement => exact ⟨.refl .refl _, .push .refl _ _⟩
  | deferType => exact ⟨.push .refl _ _, .refl .refl _⟩
  | deferElement => exact ⟨.refl .refl _, .push .refl _ _⟩
  | startType h => exact ⟨.setOpen .refl h rfl _, .refl .refl _⟩
  | startElement h => exact ⟨.refl .refl _, .setOpen .refl h rfl _⟩
  | finishType h => exact ⟨.setOpen .refl h rfl _, .refl .refl _⟩
  | finishElement h => exact ⟨.refl .refl _, .setOpen .refl h rfl _⟩
  | editType h hedit => exact extends_setTypeNode h (TypeEdit.extends_applyTo hedit)
  | editElement h hedit => exact extends_setElementNode h (ElementEdit.extends_applyTo hedit)
  | @setAccessor _ _ n _ _ h hn hset =>
    refine extends_setElementNode h { ElementNode.Extends.refl n with detail := ?_ }
    rw [hn]
    exact .recordComponent (staysSet_of_setOnce hset)
  | attach hp hc hset => exact extends_withMember hp hc (ElementNode.extends_enclosedBy hset)
  | @setType _ n _ _ h _ hset =>
    exact extends_setElementNode h
      { ElementNode.Extends.refl n with type := staysSet_of_setOnce hset }
  | @linkType _ n _ _ _ type' h _ hset ht hfree =>
    have hgiven : n.Extends { n with type := type' } :=
      { ElementNode.Extends.refl n with type := staysSet_of_setOnce hset }
    exact (extends_setElementNode h hgiven).trans
      (extends_setTypeNode (Slot.slot_of_peek ht) (TypeNode.extends_linked hfree))

/-- Any number of steps extend the store. -/
theorem extends_of_moves (h : Moves s t) : s.Extends t := by
  induction h with
  | refl => exact .refl s
  | tail _ hchange ih => exact ih.trans (extends_of_change hchange)

/-- A handle that leads to a type leads to it from then on. -/
theorem Extends.peekType (h : s.Extends t) {m : TypeNode} (hk : s.peekType k = some (owner, m)) :
    ∃ n, t.peekType k = some (owner, n) ∧ m.Extends n :=
  h.types.peek (Nat.succ_le_succ h.types.size) hk

theorem Extends.peekElement (h : s.Extends t) {e owner : ElementId}
    (he : s.peekElement e = some (owner, m)) :
    ∃ n, t.peekElement e = some (owner, n) ∧ m.Extends n :=
  h.elements.peek (Nat.succ_le_succ h.elements.size) he

end Store

end JavaTypes
