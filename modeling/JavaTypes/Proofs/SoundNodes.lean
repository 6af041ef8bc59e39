import JavaTypes.Proofs.StoreExtension

/-!
# Sound nodes

A node is sound if its parts are what the tests of the edits ask for, in the store as it is now. The
tests look at the kind of a part only if its handle is completed, so this holds of parts that were given
by handles that were completed at the time.

* `TypePart`: a type that stands as a part of a type or element, with the kinds that can stand there;
* `TypeNode.Sound`, `ElementNode.Sound`: all parts lead to nodes of such kinds. What is sound stays sound
  when the store is extended;
* `TypeNode.Sound.applyTo`, `ElementNode.Sound.applyTo`: an edit with completed handles keeps a node
  sound.
-/

namespace JavaTypes

variable {s : Store}

/-! ### Parts -/

/-- A type as a part of a type or element: its handle, the kinds that can stand there, and whether it
must not be the type that it is a part of. -/
structure TypePart where
  type : TypeId
  accepts : TypeKind → Bool
  apart : Bool

/-- The type that an edit of a type gives to it. -/
def TypeEdit.part? : TypeEdit → Option TypePart
  | component t => some ⟨t, TypeKind.isComponent, true⟩
  | enclosing t => some ⟨t, TypeKind.isDeclaredOrNone, true⟩
  | argument t => some ⟨t, TypeKind.isArgument, true⟩
  | parameter t => some ⟨t, TypeKind.isComponent, false⟩
  | returnType t => some ⟨t, TypeKind.isResult, false⟩
  | receiver t => some ⟨t, TypeKind.isDeclaredOrNone, false⟩
  | thrown t => some ⟨t, TypeKind.isNonNullReference, false⟩
  | typeVariable t => some ⟨t, (· == .typeVar), false⟩
  | intersectionBound t => some ⟨t, TypeKind.isNonNullReference, true⟩
  | unionAlternative t => some ⟨t, TypeKind.isNonNullReference, true⟩
  | upperBound t => some ⟨t, TypeKind.isNonNullReference, true⟩
  | lowerBound t => some ⟨t, TypeKind.isReference, true⟩
  | capturedWildcard t => some ⟨t, (· == .wildcard), false⟩
  | extendsBound t => some ⟨t, TypeKind.isNonNullReference, true⟩
  | superBound t => some ⟨t, TypeKind.isNonNullReference, true⟩
  | definingElement _ | erased _ | annotate _ => none

/-- The types that are parts of a type: what the edits give that make it up. -/
def TypeShape.parts (shape : TypeShape) : List TypePart :=
  shape.edits.filterMap TypeEdit.part?

/-- The type that an edit of an element gives to it. -/
def ElementEdit.part? : ElementEdit → Option TypePart
  | superclass t | interface t | permitted t => some ⟨t, TypeKind.isDeclaredOrNone, false⟩
  | _ => none

/-- The types that a type element names: its superclass, its interfaces and the subclasses that it
permits. -/
def ElementNode.named (n : ElementNode) : List TypeId :=
  n.superclass.toList ++ n.interfaces ++ n.permitted

/-- The types that are parts of an element: its own type, and those that it names. -/
def ElementNode.typeParts (n : ElementNode) : List TypePart :=
  n.type.toList.map (⟨·, n.kind.admitsType, false⟩) ++
    n.named.map (⟨·, TypeKind.isDeclaredOrNone, false⟩)

/-- The part leads to a node of a kind that can stand there, and that is not the owner where it must
not be. -/
def TypePart.Sound (s : Store) (owner : Option TypeId) (p : TypePart) : Prop :=
  ∃ t n, s.peekType p.type = some (t, n) ∧ p.accepts n.kind = true ∧ (p.apart = true → owner ≠ some t)

/-- A wildcard has at most one bound, and a declared type that is marked as erased has no arguments. -/
def TypeShape.Regular : TypeShape → Prop
  | wildcard w => w.upper = none ∨ w.lower = none
  | declared d => d.erased = some true → d.arguments = []
  | _ => True

/-- The node of the type `t` is as its kind asks for. -/
structure TypeNode.Sound (s : Store) (t : TypeId) (n : TypeNode) : Prop where
  regular : n.shape.Regular
  parts : ∀ p ∈ n.shape.parts, p.Sound s (some t)
  /-- The element is a type element for a declared type and a type parameter for a type variable. -/
  element : ∀ e, n.element = some e → ∃ d m, s.peekElement e = some (d, m) ∧
    (n.kind = .declared → m.kind.isType = true) ∧ (n.kind = .typeVar → m.kind = .typeParameter)
  error : n.kind = .error → n.annotations = [] ∧ n.arguments = [] ∧ n.bounds = []

/-- The node of an element is as its kind asks for, and leads to the element around it. -/
structure ElementNode.Sound (s : Store) (n : ElementNode) : Prop where
  parts : ∀ p ∈ n.typeParts, p.Sound s none
  enclosing : ∀ e, n.enclosing = some e → ∃ d m, s.peekElement e = some (d, m)

section Extends

variable {s s' : Store} (hext : s.Extends s')

include hext

theorem TypePart.Sound.extend {owner : Option TypeId} {p : TypePart} (h : p.Sound s owner) :
    p.Sound s' owner := by
  obtain ⟨t, n, ht, haccepts, hapart⟩ := h
  obtain ⟨n', ht', hn⟩ := hext.peekType ht
  exact ⟨t, n', ht', by rwa [hn.kind_eq], hapart⟩

theorem TypeNode.Sound.extend {t : TypeId} {n : TypeNode} (h : n.Sound s t) : n.Sound s' t where
  regular := h.regular
  parts p hp := (h.parts p hp).extend hext
  element e he := by
    obtain ⟨d, m, hd, hdeclared, hvar⟩ := h.element e he
    obtain ⟨m', hd', hm⟩ := hext.peekElement hd
    rw [← hm.kind_eq] at hdeclared hvar
    exact ⟨d, m', hd', hdeclared, hvar⟩
  error := h.error

theorem ElementNode.Sound.extend {n : ElementNode} (h : n.Sound s) : n.Sound s' where
  parts p hp := (h.parts p hp).extend hext
  enclosing e he := by
    obtain ⟨d, m, hd⟩ := h.enclosing e he
    obtain ⟨m', hd', -⟩ := hext.peekElement hd
    exact ⟨d, m', hd'⟩

end Extends

/-! ### Tests -/

/-- The handle of a type is completed. -/
def Store.knowsType (s : Store) (t : TypeId) : Bool :=
  (s.peekType t).isSome

/-- The handle of an element is completed. -/
def Store.knowsElement (s : Store) (e : ElementId) : Bool :=
  (s.peekElement e).isSome

theorem Store.knowsType_iff {t : TypeId} :
    s.knowsType t = true ↔ ∃ u n, s.peekType t = some (u, n) :=
  Option.isSome_iff_exists.trans Prod.exists

theorem Store.knowsElement_iff {e : ElementId} :
    s.knowsElement e = true ↔ ∃ d n, s.peekElement e = some (d, n) :=
  Option.isSome_iff_exists.trans Prod.exists

/-- The handle that an edit of a type gives is completed. -/
def TypeEdit.isKnown (s : Store) (edit : TypeEdit) : Bool :=
  match edit with
  | definingElement e => s.knowsElement e
  | edit => edit.part?.all fun p => s.knowsType p.type

/-- The handle that an edit of an element gives is completed. -/
def ElementEdit.isKnown (s : Store) (edit : ElementEdit) : Bool :=
  edit.part?.all fun p => s.knowsType p.type

section Tests

variable {s : Store} {ε α : Type}

variable {field operation : String} {n : TypeNode} {owner t u : TypeId} {b : α}
  {accepts : TypeKind → Bool} {y : Except Fault α}

theorem eq_ok_of_test {x : Except ε Unit} {y : Except ε α} (h : (do x; y) = .ok b) :
    x = .ok () := by
  obtain ⟨⟨⟩, hx, -⟩ := exists_of_bind_eq_ok h
  exact hx

/-- The part has passed the tests of its edit. -/
structure TypePart.Tested (s : Store) (owner : TypeId) (p : TypePart) : Prop where
  kind : ∃ operation, s.admitType operation p.accepts p.type = .ok ()
  apart : p.apart = true → ∃ field, s.refuseSelf owner p.type field = .ok ()

theorem accepts_of_admitType
    (h : s.admitType operation accepts t = .ok ()) (ht : s.peekType t = some (u, n)) :
    accepts n.kind = true := by
  unfold Store.admitType Store.peekTypeKind at h
  rw [ht] at h
  dsimp only [Option.map_some] at h
  split at h
  · assumption
  · cases h

theorem accepts_of_admitElement {accepts : ElementKind → Bool} {e d : ElementId}
    {n : ElementNode} (h : s.admitElement operation accepts e = .ok ())
    (he : s.peekElement e = some (d, n)) : accepts n.kind = true := by
  unfold Store.admitElement Store.peekElementKind at h
  rw [he] at h
  dsimp only [Option.map_some] at h
  split at h
  · assumption
  · cases h

theorem ne_of_refuseSelf
    (h : s.refuseSelf owner t field = .ok ()) (ht : s.peekType t = some (u, n)) : owner ≠ u := by
  rintro rfl
  unfold Store.refuseSelf at h
  rw [ht] at h
  simp at h

/-- A part that has passed the tests is sound if its handle is completed. -/
theorem TypePart.Tested.sound {p : TypePart} (h : p.Tested s owner)
    (hknown : s.knowsType p.type = true) : p.Sound s (some owner) := by
  obtain ⟨t, n, ht⟩ := Store.knowsType_iff.1 hknown
  obtain ⟨operation, hkind⟩ := h.kind
  refine ⟨t, n, ht, accepts_of_admitType hkind ht, fun hapart hself => ?_⟩
  obtain ⟨field, hfield⟩ := h.apart hapart
  exact ne_of_refuseSelf hfield ht (Option.some.inj hself)

theorem tested_kind (h : (do s.admitType operation accepts t; y) = .ok b) :
    TypePart.Tested s owner ⟨t, accepts, false⟩ where
  kind := ⟨operation, eq_ok_of_test h⟩
  apart h := by cases h

theorem tested_apart
    (h : (do s.refuseSelf owner t field; s.admitType operation accepts t; y) = .ok b) :
    TypePart.Tested s owner ⟨t, accepts, true⟩ where
  kind := ⟨operation, eq_ok_of_test (eq_ok_of_guard h)⟩
  apart _ := ⟨field, eq_ok_of_test h⟩

end Tests

/-! ### Edits of types -/

namespace TypeEdit

variable {s : Store} {owner : TypeId} {edit : TypeEdit} {shape shape' : TypeShape}

/-- An edit that is not refused has tested the part that it gives. -/
theorem tested_of_reshape {p : TypePart} (h : edit.reshape s owner shape = .ok shape')
    (hp : edit.part? = some p) : p.Tested s owner := by
  unfold reshape at h
  split at h
  -- every other edit is refused
  case h_19 => cases h
  -- parts that can be the owner
  case h_7 | h_8 | h_9 | h_10 | h_11 | h_16 =>
    cases hp
    exact tested_kind h
  -- parts that are tested after something else
  case h_5 | h_17 | h_18 =>
    cases hp
    exact tested_apart (eq_ok_of_unless h)
  all_goals
    cases hp
    try exact tested_apart h

/-- The tests of an edit keep a wildcard from having two bounds, and an erased type from having
arguments. -/
theorem regular_of_reshape (h : edit.reshape s owner shape = .ok shape') (hshape : shape.Regular) :
    shape'.Regular := by
  rw [reshape_eq_extend h]
  unfold reshape at h
  split at h
  -- an argument is given only to a type that is not erased
  case h_5 d =>
    intro herased
    rw [if_pos herased] at h
    cases h
  -- a type is marked only if it has no argument
  case h_6 value d =>
    intro herased
    cases hd : d.erased with
    | some old =>
      refine hshape ?_
      rwa [hd] at herased ⊢
    | none =>
      rw [hd] at herased
      cases herased
      cases hargs : d.arguments with
      | nil => rfl
      | cons t ts =>
        rw [hargs] at h
        cases h
  -- a wildcard is given a bound only if it does not have the other
  case h_17 t w =>
    refine .inr ?_
    cases hw : w.lower with
    | none => rfl
    | some lower =>
      rw [hw] at h
      cases h
  case h_18 t w =>
    refine .inl ?_
    cases hw : w.upper with
    | none => rfl
    | some upper =>
      rw [hw] at h
      cases h
  case h_19 => cases h
  all_goals exact hshape

theorem mem_toList_getD {α : Type} {old : Option α} {new : α} {f : α → TypeEdit} {e : TypeEdit}
    (h : e ∈ (Option.map f (some (old.getD new))).toList) : e ∈ (old.map f).toList ∨ e = f new := by
  cases old with
  | none => exact .inr (by simpa using h)
  | some v => exact .inl h

/-- A shape that was extended is made up by the edits that made it up before, and the new one. -/
theorem mem_edits_extend {e : TypeEdit} (h : e ∈ (edit.extend shape).edits) :
    e ∈ shape.edits ∨ e = edit := by
  revert h
  fun_cases extend edit shape <;> intro h
  case case19 => exact .inl h
  all_goals
    simp only [TypeShape.edits, List.mem_append, List.map_append, List.map_cons, List.map_nil,
      List.mem_singleton] at h ⊢
    grind [mem_toList_getD]

/-- The element of a shape that was extended was there before, or is the one that the edit gives. -/
theorem element_extend {annotations annotations' : List AnnotationUse} {e : ElementId}
    (h : TypeNode.element ⟨edit.extend shape, annotations'⟩ = some e) :
    TypeNode.element ⟨shape, annotations⟩ = some e ∨ edit = .definingElement e := by
  revert h
  fun_cases extend edit shape <;> intro h
  case case2 d =>
    cases hd : d.element with
    | some old => exact .inl (by simpa [TypeNode.element, hd] using h)
    | none => simpa [TypeNode.element, hd] using h
  case case3 v =>
    cases hv : v.element with
    | some old => exact .inl (by simpa [TypeNode.element, hv] using h)
    | none => simpa [TypeNode.element, hv] using h
  all_goals exact .inl h

theorem kind_extend (edit : TypeEdit) (shape : TypeShape) : (edit.extend shape).kind = shape.kind := by
  fun_cases extend edit shape <;> rfl

/-- The element that an edit gives is of a kind that fits the type. -/
theorem admitElement_of_reshape {e : ElementId}
    (h : (definingElement e).reshape s owner shape = .ok shape') :
    (shape.kind = .declared → ∃ operation, s.admitElement operation ElementKind.isType e = .ok ()) ∧
    (shape.kind = .typeVar →
      ∃ operation, s.admitElement operation (· == .typeParameter) e = .ok ()) := by
  cases shape with
  | declared d =>
    refine ⟨fun _ => ⟨_, eq_ok_of_test h⟩, fun hkind => ?_⟩
    cases hkind
  | typeVar v =>
    refine ⟨fun hkind => ?_, fun _ => ⟨_, eq_ok_of_test h⟩⟩
    cases hkind
  | _ => cases h

end TypeEdit

theorem TypeEdit.knowsType_of_isKnown {edit : TypeEdit} {p : TypePart}
    (h : edit.isKnown s = true) (hp : edit.part? = some p) : s.knowsType p.type = true := by
  cases edit <;> cases hp <;> exact h

section Edit

variable {s : Store} {t : TypeId} {n n' : TypeNode} {edit : TypeEdit} {shape' : TypeShape}

/-- The element that a type has after an edit is of a kind that fits the type. -/
theorem TypeNode.Sound.element_reshape (hn : n.Sound s t) (hknown : edit.isKnown s = true)
    (h : edit.reshape s t n.shape = .ok shape') {e : ElementId}
    (he : TypeNode.element { n with shape := edit.extend n.shape } = some e) :
    ∃ d m, s.peekElement e = some (d, m) ∧ (n.kind = .declared → m.kind.isType = true) ∧
      (n.kind = .typeVar → m.kind = .typeParameter) := by
  rcases TypeEdit.element_extend he with hold | rfl
  · exact hn.element e hold
  · obtain ⟨d, m, hd⟩ := Store.knowsElement_iff.1 hknown
    obtain ⟨hdeclared, hvar⟩ := TypeEdit.admitElement_of_reshape h
    refine ⟨d, m, hd, fun hkind => ?_, fun hkind => ?_⟩
    · obtain ⟨operation, hadmit⟩ := hdeclared hkind
      exact accepts_of_admitElement hadmit hd
    · obtain ⟨operation, hadmit⟩ := hvar hkind
      exact eq_of_beq (accepts_of_admitElement hadmit hd)

theorem TypeNode.Sound.reshape (hn : n.Sound s t) (hkind : n.kind ≠ .error)
    (hknown : edit.isKnown s = true) (h : edit.reshape s t n.shape = .ok shape') :
    TypeNode.Sound s t { n with shape := shape' } := by
  obtain rfl := TypeEdit.reshape_eq_extend h
  have hsame : TypeNode.kind { n with shape := edit.extend n.shape } = n.kind :=
    TypeEdit.kind_extend edit n.shape
  refine ⟨TypeEdit.regular_of_reshape h hn.regular, fun p hp => ?_, fun e he => ?_, ?_⟩
  · obtain ⟨given, hgiven, hpart⟩ := List.mem_filterMap.1 hp
    rcases TypeEdit.mem_edits_extend hgiven with hold | rfl
    · exact hn.parts p (List.mem_filterMap.2 ⟨given, hold, hpart⟩)
    · exact (TypeEdit.tested_of_reshape h hpart).sound
        (TypeEdit.knowsType_of_isKnown hknown hpart)
  · rw [hsame]
    exact hn.element_reshape hknown h he
  · intro herror
    exact absurd (hsame.symm.trans herror) hkind

/-- Types that stand for an error are fixed. -/
theorem TypeEdit.kind_ne_error (h : edit.applyTo s t n = .ok n') : n.kind ≠ .error := by
  intro herror
  obtain ⟨shape, annotations⟩ := n
  cases shape with
  | error e => cases h
  | _ => cases herror

/-- An edit keeps a node sound if the handle that it gives is completed. -/
theorem TypeNode.Sound.applyTo (hn : n.Sound s t) (hknown : edit.isKnown s = true)
    (h : edit.applyTo s t n = .ok n') : n'.Sound s t := by
  have hkind := TypeEdit.kind_ne_error h
  unfold TypeEdit.applyTo at h
  split at h
  · cases h
  cases edit with
  | annotate a =>
    cases h
    exact { hn with error := fun herror => absurd herror hkind }
  | _ =>
    obtain ⟨shape', hshape, h⟩ := exists_of_bind_eq_ok h
    cases h
    exact hn.reshape hkind hknown hshape

end Edit

/-! ### Edits of elements -/

namespace ElementEdit

variable {s : Store} {edit : ElementEdit} {n n' : ElementNode} {t : TypeId}

/-- The types that a type element names after an edit were named before, or are given by it. -/
theorem mem_named_of_applyToClass {k : ClassKind} {d d' : ClassDecl}
    (h : edit.applyToClass k d = .ok d')
    (ht : t ∈ d'.superclass.toList ++ d'.interfaces ++ d'.permitted) :
    t ∈ d.superclass.toList ++ d.interfaces ++ d.permitted ∨
      edit.part? = some ⟨t, TypeKind.isDeclaredOrNone, false⟩ := by
  cases edit with
  | nesting k =>
    obtain ⟨new, -, h⟩ := exists_of_bind_eq_ok h
    cases h
    exact .inl ht
  | superclass u =>
    obtain rfl := eq_of_setOnce h
    cases hd : d.superclass with
    | none =>
      simp only [hd, Option.getD_none, Option.toList_some, List.cons_append, List.mem_cons] at ht
      rcases ht with rfl | ht
      · exact .inr rfl
      · exact .inl ht
    | some v => exact .inl (by simpa [hd] using ht)
  | interface u =>
    cases h
    simp only [List.mem_append, List.mem_singleton] at ht ⊢
    rcases ht with (ht | ht | rfl) | ht
    · exact .inl (.inl (.inl ht))
    · exact .inl (.inl (.inr ht))
    · exact .inr rfl
    · exact .inl (.inr ht)
  | permitted u =>
    cases h
    simp only [List.mem_append, List.mem_singleton] at ht ⊢
    rcases ht with ht | ht | rfl
    · exact .inl (.inl ht)
    · exact .inl (.inr ht)
    · exact .inr rfl
  | _ => cases h

theorem mem_named_of_applyToDetail {detail : ElementDetail}
    (h : edit.applyToDetail n.detail = .ok detail)
    (ht : t ∈ ElementNode.named { n with detail := detail }) :
    t ∈ n.named ∨ edit.part? = some ⟨t, TypeKind.isDeclaredOrNone, false⟩ := by
  obtain ⟨name, type, modifiers, enclosing, enclosed, annotations, old⟩ := n
  cases old with
  | type k d =>
    obtain ⟨d', hd, h⟩ := exists_of_bind_eq_ok h
    cases h
    exact mem_named_of_applyToClass hd ht
  | executable k d =>
    obtain ⟨d', -, h⟩ := exists_of_bind_eq_ok h
    cases h
    exact .inl ht
  | var k c =>
    cases edit with
    | constant =>
      obtain ⟨c', -, h⟩ := exists_of_bind_eq_ok h
      cases h
      exact .inl ht
    | _ => cases h
  | _ => cases h

theorem mem_named_of_applyTo (h : edit.applyTo n = .ok n') (ht : t ∈ n'.named) :
    t ∈ n.named ∨ edit.part? = some ⟨t, TypeKind.isDeclaredOrNone, false⟩ := by
  cases edit with
  | simpleName =>
    obtain ⟨new, -, h⟩ := exists_of_bind_eq_ok h
    cases h
    exact .inl ht
  | modifier m =>
    cases h
    split at ht
    · exact .inl ht
    · exact .inl ht
  | annotate =>
    cases h
    exact .inl ht
  | _ =>
    obtain ⟨detail, hdetail, h⟩ := exists_of_bind_eq_ok h
    cases h
    exact mem_named_of_applyToDetail hdetail ht

/-- The test of an edit, made with a completed handle, makes the part that it gives sound. -/
theorem sound_of_admissible {p : TypePart} (h : edit.admissible s = .ok ())
    (hknown : edit.isKnown s = true) (hp : edit.part? = some p) : p.Sound s none := by
  have hsound : ∀ {operation : String} {t : TypeId},
      s.admitType operation TypeKind.isDeclaredOrNone t = .ok () → s.knowsType t = true →
        TypePart.Sound s none ⟨t, TypeKind.isDeclaredOrNone, false⟩ := by
    intro operation t hadmit hknown
    obtain ⟨u, m, ht⟩ := Store.knowsType_iff.1 hknown
    refine ⟨u, m, ht, accepts_of_admitType hadmit ht, fun hapart => ?_⟩
    cases hapart
  cases edit <;> cases hp <;> exact hsound h hknown

end ElementEdit

namespace ElementNode

variable {s : Store} {n n' : ElementNode}

theorem mem_typeParts {p : TypePart} : p ∈ n.typeParts ↔
    (∃ t, n.type = some t ∧ p = ⟨t, n.kind.admitsType, false⟩) ∨
      ∃ t ∈ n.named, p = ⟨t, TypeKind.isDeclaredOrNone, false⟩ := by
  unfold typeParts
  simp only [List.mem_append, List.mem_map, Option.mem_toList, eq_comm]

/-- An edit keeps a node sound if the handle that it gives is completed. -/
theorem Sound.applyTo {edit : ElementEdit} (hn : n.Sound s) (hadmissible : edit.admissible s = .ok ())
    (hknown : edit.isKnown s = true) (h : edit.applyTo n = .ok n') : n'.Sound s := by
  have hagrees := ElementEdit.agrees_of_applyTo h
  refine ⟨fun p hp => ?_, fun e he => hn.enclosing e (hagrees.enclosing ▸ he)⟩
  rcases mem_typeParts.1 hp with ⟨t, ht, rfl⟩ | ⟨t, ht, rfl⟩
  · rw [hagrees.kind]
    exact hn.parts _ (mem_typeParts.2 (.inl ⟨t, hagrees.type ▸ ht, rfl⟩))
  · rcases ElementEdit.mem_named_of_applyTo h ht with hold | hpart
    · exact hn.parts _ (mem_typeParts.2 (.inr ⟨t, hold, rfl⟩))
    · exact ElementEdit.sound_of_admissible hadmissible hknown hpart

end ElementNode

/-! ### New nodes -/

/-- A type without parts is sound. -/
theorem TypeNode.sound_blank (s : Store) (t : TypeId) (shape : TypeShape) :
    TypeNode.Sound s t { shape := shape.blank } := by
  have hparts : shape.blank.parts = [] := by cases shape <;> rfl
  have helement : TypeNode.element { shape := shape.blank } = none := by cases shape <;> rfl
  have harguments : TypeNode.arguments { shape := shape.blank } = [] := by cases shape <;> rfl
  have hbounds : TypeNode.bounds { shape := shape.blank } = [] := by cases shape <;> rfl
  refine ⟨?_, fun p hp => ?_, fun e he => ?_, fun _ => ⟨rfl, harguments, hbounds⟩⟩
  · cases shape with
    | wildcard w => exact .inl rfl
    | declared d => exact fun _ => rfl
    | _ => trivial
  · rw [hparts] at hp
    cases hp
  · rw [helement] at he
    cases he

theorem TypeNode.sound_error (t : TypeId) {element : Option ElementId}
    (h : ∀ e, element = some e → s.knowsElement e = true) :
    TypeNode.Sound s t { shape := .error element } where
  regular := trivial
  parts p hp := by cases hp
  element e he := by
    obtain ⟨d, m, hd⟩ := Store.knowsElement_iff.1 (h e he)
    refine ⟨d, m, hd, fun hkind => ?_, fun hkind => ?_⟩
    · cases hkind
    · cases hkind
  error _ := ⟨rfl, rfl, rfl⟩

theorem ElementNode.sound_blank (s : Store) (k : ElementKind) :
    ElementNode.Sound s { detail := ElementDetail.blank k } := by
  refine ⟨fun p hp => ?_, fun e he => ?_⟩
  · cases k <;> cases hp
  · cases he

end JavaTypes
