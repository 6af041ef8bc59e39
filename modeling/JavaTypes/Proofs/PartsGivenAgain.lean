import JavaTypes.Proofs.CarefulOperations
import JavaTypes.Proofs.FailedOperations
import JavaTypes.Proofs.StructuralEquality

/-!
# Parts that are given again

A part that can be given once can be given again with the same value. `Operation.givesOnce` tells the
operations that give such a part. One that has succeeded succeeds again and then changes nothing,
with two exceptions (`Operation.Restatable`):

* a "not a number" is not the same as itself, so a value that holds one cannot be given again;
* the superclass of an element, and its type, are tested before the handles are completed. A handle
  that the operation itself completes is tested when the operation is repeated, and can be refused.

Each operation first tests and then writes. The tests are repeated on the node as it was written
(`TypeEdit.applyTo_again`, `ElementEdit.applyTo_again_iff`), and in a store with that node in it. Most
tests look at kinds, which no operation changes. The tests of an accessor compare types, and these
lead to elements: `Store.Restyled` says that two stores differ in nothing that the comparison reads.
-/

namespace JavaTypes

variable {ε α β : Type} {a b : α} {s t : Store} {owner k : TypeId} {e : ElementId}

/-! ### Not a number -/

/-- Whether a constant is a floating-point "not a number". -/
def Constant.isNaN : Constant → Bool
  | float bits => 0x7f800000 < bits &&& 0x7fffffff
  | double bits => 0x7ff0000000000000 < bits &&& 0x7fffffffffffffff
  | _ => false

theorem Constant.same_self (c : Constant) : c.same c = !c.isNaN := by
  cases c with
  | float bits =>
    rw [Bool.eq_iff_iff]
    simp [same, isNaN, sameBinary32_iff]
  | double bits =>
    rw [Bool.eq_iff_iff]
    simp [same, isNaN, sameBinary64_iff]
  | _ => simp [same, isNaN]

namespace AnnotationValue

mutual

/-- Whether an annotation value holds a "not a number". -/
def hasNaN : AnnotationValue → Bool
  | .constant c => c.isNaN
  | .type _ | .enumConstant _ => false
  | .nested _ members => membersHaveNaN members
  | .list items => itemsHaveNaN items

def itemsHaveNaN : List AnnotationValue → Bool
  | [] => false
  | a :: as => a.hasNaN || itemsHaveNaN as

def membersHaveNaN : List (String × AnnotationValue) → Bool
  | [] => false
  | (_, a) :: as => a.hasNaN || membersHaveNaN as

end

mutual

theorem same_self : ∀ a : AnnotationValue, a.same a = !a.hasNaN
  | .constant c => c.same_self
  | .type t => by simp [same, hasNaN]
  | .enumConstant e => by simp [same, hasNaN]
  | .nested t members => by simp [same, hasNaN, sameMembers_self members]
  | .list items => sameItems_self items

theorem sameItems_self : ∀ as : List AnnotationValue, sameItems as as = !itemsHaveNaN as
  | [] => rfl
  | a :: as => by simp [sameItems, itemsHaveNaN, same_self a, sameItems_self as]

theorem sameMembers_self : ∀ as : List (String × AnnotationValue),
    sameMembers as as = !membersHaveNaN as
  | [] => rfl
  | (m, a) :: as => by simp [sameMembers, membersHaveNaN, same_self a, sameMembers_self as]

end

end AnnotationValue

/-! ### A part alone -/

section Part

variable {α β : Type} {b : β} {field : String} {old new : Option α} {a : α}

/-- A part that was given can be given again if it is the same as itself. -/
theorem setOnceBy_again_iff {same : α → α → Bool} (hself : ∀ v, same v a = true → same a a = true)
    (h : setOnceBy same field old a = .ok new) :
    setOnceBy same field new a = .ok new ↔ same a a = true := by
  cases old with
  | none =>
    cases h
    simp [setOnceBy]
  | some v =>
    by_cases hv : same v a = true
    · simp only [setOnceBy, hv, if_true, Except.ok.injEq] at h
      subst h
      simp [setOnceBy, hv, hself v hv]
    · simp [setOnceBy, hv] at h

variable [BEq α] [LawfulBEq α]

theorem setOnce_some_self (field : String) (a : α) : setOnce field (some a) a = .ok (some a) := by
  simp [setOnce, setOnceBy]

/-- An edit that ends with giving a part, repeated on what it gave. -/
theorem ok_of_setOnce {f : Option α → β} (h : (do return f (← setOnce field old a)) = Except.ok b) :
    b = f (some a) ∧ (do return f (← setOnce field (some a) a)) = Except.ok (f (some a)) := by
  obtain ⟨new, hnew, h⟩ := exists_of_bind_eq_ok h
  cases h
  obtain ⟨rfl, -⟩ := eq_some_of_setOnce hnew
  rw [setOnce_some_self]
  exact ⟨rfl, rfl⟩

end Part

/-- A test that was passed is passed again. -/
theorem ok_of_guard {x : Except ε Unit} {y z : Except ε α}
    (h : (do x; y) = .ok a) (hz : z = .ok b) : (do x; z) = .ok b := by
  rw [eq_ok_of_test h]
  exact hz

theorem ok_of_unless {c : Prop} [Decidable c] {e : ε} {y z : Unit → Except ε α}
    (h : (if c then throw e >>= y else y ()) = .ok a) (hz : z () = .ok b) :
    (if c then throw e >>= z else z ()) = .ok b := by
  split at h
  · cases h
  · next hc => rwa [if_neg hc]

/-- A part is given again if the whole is made again. -/
theorem map_eq_ok_iff {x : Except ε α} {f : α → β} (hf : Function.Injective f) :
    (do return f (← x)) = Except.ok (f a) ↔ x = .ok a := by
  constructor
  · intro h
    obtain ⟨b, hb, h⟩ := exists_of_bind_eq_ok h
    rw [hb, hf (Except.ok.inj h)]
  · rintro rfl
    rfl

/-! ### Edits of types -/

namespace TypeEdit

/-- Whether an edit gives a part that can be given once. -/
def givesOnce : TypeEdit → Bool
  | argument _ | parameter _ | thrown _ | typeVariable _ | intersectionBound _ | unionAlternative _
  | annotate _ => false
  | _ => true

variable {s : Store} {owner : TypeId} {edit : TypeEdit} {shape shape' : TypeShape}

theorem isFrozen_extend (owner : TypeId) (edit : TypeEdit) (shape : TypeShape) :
    (edit.extend shape).isFrozen owner = shape.isFrozen owner := by
  fun_cases extend edit shape <;> rfl

/-- The edit of a shape, repeated. -/
theorem reshape_again (hedit : edit.givesOnce = true)
    (h : edit.reshape s owner shape = .ok shape') : edit.reshape s owner shape' = .ok shape' := by
  unfold reshape at h
  split at h
  -- the edits that can be made several times, and those that are refused
  case h_5 | h_7 | h_10 | h_11 | h_12 | h_13 => cases hedit
  case h_19 => cases h
  -- the mark of an erased type
  case h_6 value d =>
    obtain ⟨rfl, hagain⟩ := ok_of_setOnce (eq_ok_of_unless h)
    unfold reshape
    refine ok_of_unless h ?_
    exact hagain
  -- the bounds of a wildcard
  case h_17 | h_18 =>
    have htests := eq_ok_of_unless h
    obtain ⟨rfl, hagain⟩ := ok_of_setOnce (eq_ok_of_guard (eq_ok_of_guard htests))
    unfold reshape
    refine ok_of_unless h ?_
    exact ok_of_guard htests (ok_of_guard (eq_ok_of_guard htests) hagain)
  -- the parts that may be the owner
  case h_2 | h_3 | h_8 | h_9 | h_16 =>
    obtain ⟨rfl, hagain⟩ := ok_of_setOnce (eq_ok_of_guard h)
    exact ok_of_guard h hagain
  all_goals
    obtain ⟨rfl, hagain⟩ := ok_of_setOnce (eq_ok_of_guard (eq_ok_of_guard h))
    exact ok_of_guard h (ok_of_guard (eq_ok_of_guard h) hagain)

end TypeEdit

namespace Store

variable {s : Store} {owner : TypeId} {n n' : TypeNode}

/-- The kinds of types, after the content of one was replaced. -/
theorem peekTypeKind_setTypeNode (hn : s.types[owner.index]? = some (.node n))
    (hkind : n'.kind = n.kind) (t : TypeId) :
    (s.setTypeNode owner n').peekTypeKind t = s.peekTypeKind t := by
  unfold peekTypeKind
  rw [peekType_setTypeNode hn, Option.map_map]
  refine Option.map_congr fun found hfound => ?_
  obtain ⟨u, m⟩ := found
  by_cases hu : u = owner
  · subst hu
    cases (Slot.slot_of_peek hfound).symm.trans hn
    simp [hkind]
  · simp [hu]

theorem admitType_setTypeNode (hn : s.types[owner.index]? = some (.node n))
    (hkind : n'.kind = n.kind) (operation : String) (accepts : TypeKind → Bool) (t : TypeId) :
    (s.setTypeNode owner n').admitType operation accepts t = s.admitType operation accepts t := by
  unfold admitType
  rw [peekTypeKind_setTypeNode hn hkind]

theorem refuseSelf_setTypeNode (hn : s.types[owner.index]? = some (.node n)) (k t : TypeId)
    (field : String) :
    (s.setTypeNode owner n').refuseSelf k t field = s.refuseSelf k t field := by
  unfold refuseSelf
  rw [peekType_setTypeNode hn, Option.map_map]
  rfl

theorem admitElement_setTypeNode (operation : String) (accepts : ElementKind → Bool) (e : ElementId) :
    (s.setTypeNode owner n').admitElement operation accepts e = s.admitElement operation accepts e :=
  rfl

end Store

section EditType

variable {s s' : Store} {t owner : TypeId} {edit : TypeEdit} {n n' : TypeNode}

theorem TypeEdit.reshape_setTypeNode (hn : s.types[owner.index]? = some (.node n))
    (hkind : n'.kind = n.kind) (edit : TypeEdit) (shape : TypeShape) :
    edit.reshape (s.setTypeNode owner n') owner shape = edit.reshape s owner shape := by
  unfold reshape
  simp only [Store.admitType_setTypeNode hn hkind, Store.refuseSelf_setTypeNode hn,
    Store.admitElement_setTypeNode]

/-- The edit of a node, repeated in the store that holds what it made of the node. -/
theorem TypeEdit.applyTo_again (hedit : edit.givesOnce = true)
    (hn : s.types[owner.index]? = some (.node n)) (h : edit.applyTo s owner n = .ok n') :
    edit.applyTo (s.setTypeNode owner n') owner n' = .ok n' := by
  have hfrozen := isFrozen_of_applyTo h
  unfold applyTo at h ⊢
  rw [hfrozen] at h
  cases edit with
  | annotate a => cases hedit
  | _ =>
    obtain ⟨shape, hshape, h⟩ := exists_of_bind_eq_ok h
    cases h
    have hextend := reshape_eq_extend hshape
    have hkind : TypeNode.kind { n with shape := shape } = n.kind := by
      rw [hextend]
      exact kind_extend _ _
    have hfrozen' : shape.isFrozen owner = false := by
      rw [hextend, isFrozen_extend, hfrozen]
    dsimp only
    rw [hfrozen', reshape_setTypeNode hn hkind, reshape_again hedit hshape]
    rfl

theorem of_editType (h : editType t edit s = (.ok (), s')) :
    ∃ owner n n' s₁, s₁.peekType t = some (owner, n) ∧ edit.applyTo s₁ owner n = .ok n' ∧
      s' = s₁.setTypeNode owner n' := by
  obtain ⟨⟨owner, n⟩, s₁, hview, h⟩ := Action.bind_eq_ok h
  obtain ⟨n', s₂, hedit, h⟩ := Action.bind_eq_ok h
  cases h
  unfold editTypeNode at hedit
  split at hedit
  · next n'' hn'' =>
    cases hedit
    exact ⟨owner, n, _, s₁, peekType_of_viewType hview, hn'', rfl⟩
  · cases hedit

/-- A part of a type is given again. -/
theorem editType_again (hedit : edit.givesOnce = true) (h : editType t edit s = (.ok (), s')) :
    editType t edit s' = (.ok (), s') := by
  obtain ⟨owner, n, n', s₁, ht, happly, rfl⟩ := of_editType h
  have hn := Slot.slot_of_peek ht
  have hview := viewType_of_peekType (Store.peekType_setTypeNode_self ht n')
  have hagain : editTypeNode owner n' edit (s₁.setTypeNode owner n') =
      (.ok n', s₁.setTypeNode owner n') := by
    unfold editTypeNode
    rw [TypeEdit.applyTo_again hedit hn happly]
    dsimp only
    rw [Store.setTypeNode_self (Slot.get_set hn _)]
  unfold editType
  rw [Action.bind_of_ok hview]
  exact Action.bind_of_ok hagain

end EditType

/-! ### Edits of elements -/

namespace ElementEdit

/-- Whether an edit gives a part that can be given once. -/
def givesOnce : ElementEdit → Bool
  | modifier _ | annotate _ | interface _ | permitted _ => false
  | _ => true

/-- Whether an edit gives a value that holds a "not a number". -/
def givesNaN : ElementEdit → Bool
  | defaultValue v => v.hasNaN
  | constant c => c.isNaN
  | _ => false

variable {edit : ElementEdit}

theorem applyToClass_again (hedit : edit.givesOnce = true) {k : ClassKind} {d d' : ClassDecl}
    (h : edit.applyToClass k d = .ok d') :
    edit.applyToClass k d' = .ok d' ∧ edit.givesNaN = false := by
  cases edit with
  | nesting | superclass =>
    obtain ⟨rfl, hagain⟩ := ok_of_setOnce h
    exact ⟨hagain, rfl⟩
  | interface | permitted => cases hedit
  | _ => cases h

theorem applyToExecutable_again_iff {k : ExecutableKind} {d d' : ExecutableDecl}
    (h : edit.applyToExecutable k d = .ok d') :
    edit.applyToExecutable k d' = .ok d' ↔ edit.givesNaN = false := by
  cases edit with
  | varargs | isDefault =>
    obtain ⟨rfl, hagain⟩ := ok_of_setOnce h
    exact iff_of_true hagain rfl
  | defaultValue value =>
    obtain ⟨new, hnew, h⟩ := exists_of_bind_eq_ok h
    cases h
    have hself : ∀ v, AnnotationValue.same v value = true → AnnotationValue.same value value = true :=
      fun v hv => AnnotationValue.same_trans (AnnotationValue.same_symm hv) hv
    have hagain := setOnceBy_again_iff hself hnew
    rw [AnnotationValue.same_self, Bool.not_eq_true'] at hagain
    refine .trans (map_eq_ok_iff fun v w h => ?_) hagain
    exact congrArg ExecutableDecl.defaultValue h
  | _ => cases h

theorem applyToDetail_again_iff (hedit : edit.givesOnce = true) {detail detail' : ElementDetail}
    (h : edit.applyToDetail detail = .ok detail') :
    edit.applyToDetail detail' = .ok detail' ↔ edit.givesNaN = false := by
  cases detail with
  | type k d =>
    obtain ⟨d', hd', h⟩ := exists_of_bind_eq_ok h
    cases h
    obtain ⟨hagain, hnumber⟩ := applyToClass_again hedit hd'
    refine iff_of_true ((map_eq_ok_iff fun a b h => ?_).2 hagain) hnumber
    cases h
    rfl
  | executable k d =>
    obtain ⟨d', hd', h⟩ := exists_of_bind_eq_ok h
    cases h
    refine .trans (map_eq_ok_iff fun a b h => ?_) (applyToExecutable_again_iff hd')
    cases h
    rfl
  | var k c =>
    cases edit with
    | constant value =>
      obtain ⟨new, hnew, h⟩ := exists_of_bind_eq_ok h
      cases h
      have hself : ∀ v, Constant.same v value = true → Constant.same value value = true :=
        fun v hv => Constant.same_trans (Constant.same_symm hv) hv
      have hagain := setOnceBy_again_iff hself hnew
      rw [Constant.same_self, Bool.not_eq_true'] at hagain
      refine .trans (map_eq_ok_iff fun v w h => ?_) hagain
      cases h
      rfl
    | _ => cases h
  | _ => cases h

/-- The edit of a node, repeated. -/
theorem applyTo_again_iff (hedit : edit.givesOnce = true) {n n' : ElementNode}
    (h : edit.applyTo n = .ok n') : edit.applyTo n' = .ok n' ↔ edit.givesNaN = false := by
  cases edit with
  | simpleName =>
    obtain ⟨rfl, hagain⟩ := ok_of_setOnce h
    exact iff_of_true hagain rfl
  | modifier | annotate => cases hedit
  | _ =>
    obtain ⟨detail, hdetail, h⟩ := exists_of_bind_eq_ok h
    cases h
    refine .trans (map_eq_ok_iff fun v w h => ?_) (applyToDetail_again_iff hedit hdetail)
    exact congrArg ElementNode.detail h

end ElementEdit

section EditElement

variable {s s' : Store} {e : ElementId} {edit : ElementEdit}

theorem of_editElement (h : editElement e edit s = (.ok (), s')) :
    ∃ owner n n' s₁, edit.admissible s = .ok () ∧ s ≤ s₁ ∧ s₁.peekElement e = some (owner, n) ∧
      edit.applyTo n = .ok n' ∧ s' = s₁.setElementNode owner n' := by
  obtain ⟨_, _, hget, h⟩ := Action.bind_eq_ok h
  cases hget
  obtain ⟨⟨⟩, _, htest, h⟩ := Action.bind_eq_ok h
  obtain ⟨hadmissible, rfl⟩ := Prod.mk.inj htest
  obtain ⟨⟨owner, n⟩, s₁, hview, h⟩ := Action.bind_eq_ok h
  obtain ⟨n', _, hset, h⟩ := Action.bind_eq_ok h
  obtain ⟨happly, rfl⟩ := Prod.mk.inj hset
  cases h
  exact ⟨owner, n, n', s₁, hadmissible, Action.le_of_ok hview,
    peekElement_of_viewElement hview, happly, rfl⟩

/-- What an edit of an element does once its element is completed. -/
theorem editElement_of_peekElement {owner : ElementId} {n n' : ElementNode}
    (he : s.peekElement e = some (owner, n)) (hadmissible : edit.admissible s = .ok ())
    (happly : edit.applyTo n = .ok n') :
    editElement e edit s = (.ok (), s.setElementNode owner n') := by
  unfold editElement
  rw [Action.bind_of_ok (Action.get_apply s), hadmissible, Action.bind_of_ok (Action.ofExcept_apply _ s),
    Action.bind_of_ok (viewElement_of_peekElement he)]
  dsimp only
  rw [happly]
  rfl

/-- A part of an element is given again. -/
theorem editElement_again_iff (hedit : edit.givesOnce = true)
    (h : editElement e edit s = (.ok (), s')) :
    editElement e edit s' = (.ok (), s') ↔ edit.admissible s' = .ok () ∧ edit.givesNaN = false := by
  obtain ⟨owner, n, n', s₁, -, -, he, happly, hs'⟩ := of_editElement h
  have he' : s'.peekElement e = some (owner, n') := by
    rw [hs']
    exact Store.peekElement_setElementNode_self he n'
  rw [← ElementEdit.applyTo_again_iff hedit happly]
  constructor
  · intro hagain
    obtain ⟨owner', m, m', s₂, hadmissible, hle, hm, happly', hs₂⟩ := of_editElement hagain
    have hm' : s₂.peekElement e = some (owner, n') := peekElement_mono hle he'
    rw [hm] at hm'
    cases hm'
    refine ⟨hadmissible, ?_⟩
    -- The repeated edit leaves what it made, and it leaves the store as it is.
    have hstored : s'.peekElement e = some (owner, m') := by
      rw [hs₂]
      exact Store.peekElement_setElementNode_self hm m'
    rw [he'] at hstored
    cases hstored
    exact happly'
  · rintro ⟨hadmissible, hagain⟩
    rw [editElement_of_peekElement he' hadmissible hagain,
      Store.setElementNode_self (Slot.slot_of_peek he')]

end EditElement

/-! ### The type of an element -/

/-- The element has the type, and a type that is to be linked back to it is. -/
structure TypeGiven (s : Store) (t : TypeId) (e : ElementId) (n : ElementNode) : Prop where
  type : n.type = some t
  link : n.kind.linksBack = true →
    ∃ owner m, s.peekType t = some (owner, m) ∧ m.checkLink s owner e = .ok () ∧ m.linked e = m

theorem TypeNode.linked_linked (m : TypeNode) (e : ElementId) : (m.linked e).linked e = m.linked e := by
  obtain ⟨shape, annotations⟩ := m
  cases shape <;> rfl

theorem checkOnce_some_self [BEq α] [LawfulBEq α] (field : String) (a : α) :
    checkOnce field (some a) a = .ok () := by
  simp [checkOnce]

/-- A type that could be linked to an element can be linked to it again. -/
theorem TypeNode.checkLink_linked {m : TypeNode}
    (h : m.checkLink s owner e = .ok ()) : (m.linked e).checkLink s owner e = .ok () := by
  obtain ⟨shape, annotations⟩ := m
  cases shape with
  | error element => exact checkOnce_some_self "element" e
  | declared d => exact ok_of_guard h (checkOnce_some_self "element" e)
  | typeVar v => exact ok_of_guard h (checkOnce_some_self "element" e)
  | _ => rfl

section SetElementType

variable {s s' : Store} {e e' : ElementId} {t : TypeId} {n' : ElementNode}

/-- What the tests of an element's type have found. -/
theorem of_checkElementType (h : checkElementType e t s = (.ok (e', n'), s')) :
    ∃ n s₁, s ≤ s₁ ∧ s₁ ≤ s' ∧ s₁.peekElement e = some (e', n) ∧ n'.kind = n.kind ∧
      s₁.admitType "set_element_type" n.kind.admitsType t = .ok () := by
  obtain ⟨⟨e'', n⟩, s₁, hview, h⟩ := Action.bind_eq_ok h
  obtain ⟨_, _, hget, h⟩ := Action.bind_eq_ok h
  cases hget
  obtain ⟨⟨⟩, _, htest, h⟩ := Action.bind_eq_ok h
  obtain ⟨haccepts, rfl⟩ := Prod.mk.inj htest
  obtain ⟨⟨⟩, s₂, hlink, h⟩ := Action.bind_eq_ok h
  obtain ⟨type', _, hset, h⟩ := Action.bind_eq_ok h
  obtain ⟨hset, rfl⟩ := Prod.mk.inj hset
  cases h
  have hle : s₁ ≤ s' := by
    cases hkind : n.kind.linksBack with
    | false =>
      rw [hkind] at hlink
      cases hlink
      exact le_rfl
    | true =>
      rw [hkind] at hlink
      have hleads := (finds_checkDefiningElement t e' (s := s₁)).leads
      rw [show checkDefiningElement t e' s₁ = _ from hlink] at hleads
      exact hleads.le
  exact ⟨n, s₁, Action.le_of_ok hview, hle, peekElement_of_viewElement hview, rfl, haccepts⟩

/-- The element and its type, after they were put together. -/
theorem typeGiven_of_setElementType (h : setElementType e t s = (.ok (), s')) :
    ∃ e' n' s₁, s ≤ s₁ ∧ s₁.admitType "set_element_type" n'.kind.admitsType t = .ok () ∧
      s'.peekElement e = some (e', n') ∧ TypeGiven s' t e' n' := by
  obtain ⟨⟨e', n'⟩, s₂, hcheck, h⟩ := Action.bind_eq_ok h
  obtain ⟨n, s₁, hle, hle', he, hkind, haccepts⟩ := of_checkElementType hcheck
  obtain ⟨n₂, type', hn', hgive⟩ := (finds_checkElementType e t).found hcheck
  dsimp only at hn' hgive
  replace he := peekElement_mono hle' he
  cases (Slot.slot_of_peek he).symm.trans hgive.node
  obtain ⟨rfl, -⟩ := eq_some_of_setOnce hgive.set
  have htype : n'.type = some t := by rw [hn']
  obtain ⟨⟨⟩, _, hwrite, h⟩ := Action.bind_eq_ok h
  cases hwrite
  rw [← hkind] at haccepts
  refine ⟨e', n', s₁, hle, haccepts, ?_⟩
  have he' := Store.peekElement_setElementNode_self he n'
  cases hlinks : n'.kind.linksBack with
  | false =>
    rw [hlinks] at h
    cases h
    exact ⟨he', htype, fun hlinks' => absurd (hlinks.symm.trans hlinks') Bool.false_ne_true⟩
  | true =>
    rw [hlinks] at h
    obtain ⟨owner, m, ht, hlink⟩ := hgive.link (hkind ▸ hlinks)
    have hkept := TypeNode.checkLink_setElementNode hgive.node n' hkind owner m
    rw [hlink] at hkept
    have ht' : (s₂.setElementNode e' n').peekType t = some (owner, m) := ht
    obtain ⟨hlinked, -⟩ := linkDefiningElement_of_checkLink ht' hkept
    cases hlinked.symm.trans h
    exact ⟨he', htype, fun _ => ⟨owner, m.linked e', Store.peekType_setTypeNode_self ht' _,
      TypeNode.checkLink_linked hkept, m.linked_linked e'⟩⟩

/-- Giving an element the type that it has changes nothing. -/
theorem setElementType_of_typeGiven (he : s.peekElement e = some (e', n')) (hgiven : TypeGiven s t e' n')
    (haccepts : s.admitType "set_element_type" n'.kind.admitsType t = .ok ()) :
    setElementType e t s = (.ok (), s) := by
  have hlink : (Action.onlyIf n'.kind.linksBack (checkDefiningElement t e') s = (.ok (), s)) ∧
      Action.onlyIf n'.kind.linksBack (linkDefiningElement t e') s = (.ok (), s) := by
    cases hlinks : n'.kind.linksBack with
    | false => exact ⟨rfl, rfl⟩
    | true =>
      obtain ⟨owner, m, ht, hcheck, hlinked⟩ := hgiven.link hlinks
      constructor
      · refine (Action.bind_of_ok (viewType_of_peekType ht)).trans ?_
        dsimp only
        rw [Action.bind_of_ok (Action.get_apply s), hcheck]
        rfl
      · refine (linkDefiningElement_of_checkLink ht hcheck).1.trans ?_
        rw [hlinked, Store.setTypeNode_self (Slot.slot_of_peek ht)]
  have hsame : { n' with type := some t } = n' := by
    rw [← hgiven.type]
  have hwrite : (modify fun s => s.setElementNode e' n' : Build Unit) s = (.ok (), s) := by
    show (Except.ok (), s.setElementNode e' n') = _
    rw [Store.setElementNode_self (Slot.slot_of_peek he)]
  have hcheck : checkElementType e t s = (.ok (e', n'), s) := by
    unfold checkElementType
    rw [Action.bind_of_ok (viewElement_of_peekElement he)]
    dsimp only
    rw [Action.bind_of_ok (Action.get_apply s), haccepts, Action.bind_of_ok (Action.ofExcept_apply _ s),
      Action.bind_of_ok hlink.1, hgiven.type, setOnce_some_self,
      Action.bind_of_ok (Action.ofExcept_apply _ s), hsame]
    rfl
  unfold setElementType
  rw [Action.bind_of_ok hcheck]
  exact (Action.bind_of_ok hwrite).trans hlink.2

/-- The type of an element is given again. -/
theorem setElementType_again_iff (h : setElementType e t s = (.ok (), s')) :
    setElementType e t s' = (.ok (), s') ↔
      ∀ k j, s'.peekElementKind e = some k → s'.peekTypeKind t = some j → k.admitsType j = true := by
  obtain ⟨e', n', -, -, -, he, hgiven⟩ := typeGiven_of_setElementType h
  have hkind : s'.peekElementKind e = some n'.kind := by
    rw [Store.peekElementKind, he, Option.map_some]
  constructor
  · intro hagain k j hk hj
    obtain ⟨⟨e'', n''⟩, s₂, hcheck, -⟩ := Action.bind_eq_ok hagain
    obtain ⟨n, s₁, hle, -, hn, -, haccepts⟩ := of_checkElementType hcheck
    cases hn.symm.trans (peekElement_mono hle he)
    cases hkind.symm.trans hk
    obtain ⟨⟨u, m⟩, hm, rfl⟩ := Option.map_eq_some_iff.1 hj
    exact accepts_of_admitType haccepts (peekType_mono hle hm)
  · intro hadmits
    refine setElementType_of_typeGiven he hgiven ?_
    unfold Store.admitType
    cases hj : s'.peekTypeKind t with
    | none => rfl
    | some j => exact if_pos (hadmits _ j hkind hj)

end SetElementType

/-! ### Answers carried over to another state -/

namespace Action

variable {σ α β : Type} [Evolving σ] {s t : σ} {x y : Action σ α} {r : α → β → Action σ Bool}

/-- A question with the same answer in two states, as far as it is known in the first. -/
structure Carries (s t : σ) (x : Action σ α) : Prop where
  settles : Settles x x
  known : ∀ {a}, Known x s a → Known x t a

theorem carries_pure (a : α) : Carries s t (pure a) where
  settles := settles_pure a
  known h := known_pure.2 (known_pure.1 h)

theorem carries_throw (e : Fault) : Carries s t (throw e : Action σ α) where
  settles := settles_throw e _
  known h := by cases h

theorem Carries.bind {f : α → Action σ β} (hx : Carries s t x)
    (hf : ∀ a, Carries s t (f a)) : Carries s t (x >>= f) where
  settles :=
    have := hx.settles
    have := fun a => (hf a).settles
    settles_bind
  known h := by
    have := hx.settles
    have := fun a => (hf a).settles
    obtain ⟨a, ha, h⟩ := known_bind.1 h
    exact (hx.known ha).bind ((hf a).known h)

theorem carries_ite {c : Prop} [Decidable c] (hx : Carries s t x)
    (hy : Carries s t y) : Carries s t (if c then x else y) := by
  split
  · exact hx
  · exact hy

theorem Carries.both {x y : Action σ Bool} (hx : Carries s t x) (hy : Carries s t y) :
    Carries s t (Action.both x y) :=
  hx.bind fun _ => carries_ite hy (carries_pure false)

theorem carries_allPairs (hr : ∀ a b, Carries s t (r a b)) :
    ∀ as bs, Carries s t (allPairs r as bs) := by
  intro as
  induction as with
  | nil => rintro (_ | _) <;> exact carries_pure _
  | cons a as ih =>
    rintro (_ | ⟨b, bs⟩)
    · exact carries_pure false
    · exact (hr a b).both (ih bs)

theorem carries_sameLists (hr : ∀ a b, Carries s t (r a b))
    (as : List α) (bs : List β) : Carries s t (sameLists r as bs) :=
  carries_ite (carries_allPairs hr as bs) (carries_pure false)

theorem carries_sameOptions (hr : ∀ a b, Carries s t (r a b)) :
    ∀ a b, Carries s t (sameOptions r a b) := by
  rintro (_ | a) (_ | b)
  case some.some => exact hr a b
  all_goals exact carries_pure _

end Action

/-! ### Accessors -/

open Action

/-- The types of the two stores are the same. An element of the first is in the second, and differs
at most in the parts that only elements of its kind have. -/
structure Store.Restyled (s t : Store) : Prop where
  types : ∀ k, t.peekType k = s.peekType k
  elements : ∀ {k k' n}, s.peekElement k = some (k', n) →
    ∃ detail : ElementDetail, detail.kind = n.kind ∧
      t.peekElement k = some (k', { n with detail := detail })

namespace Store.Restyled

variable {s t : Store} (h : s.Restyled t)

include h

theorem carries_viewType (k : TypeId) : Carries s t (viewType k) where
  settles := settles_viewType k
  known hk := known_viewType.2 ((h.types k).trans (known_viewType.1 hk))

theorem carries_typeNode (k : TypeId) : Carries s t (typeNode k) :=
  (h.carries_viewType k).bind fun _ => carries_pure _

theorem carries_resolveElement (k : ElementId) : Carries s t (resolveElement k) where
  settles := settles_resolveElement k
  known hk := by
    obtain ⟨n, hn⟩ := known_resolveElement.1 hk
    obtain ⟨detail, -, hn'⟩ := h.elements hn
    exact known_resolveElement.2 ⟨_, hn'⟩

theorem carries_signature (n : ElementNode) : Carries s t (Equality.signature n) := by
  unfold Equality.signature
  split
  · exact ((h.carries_typeNode _).bind fun _ => carries_pure _).bind fun _ => carries_pure _
  · exact carries_pure none

section Contents

variable {types : TypeId → TypeId → Build Bool} {elements : ElementId → ElementId → Build Bool}
  (ht : ∀ a b, Carries s t (types a b)) (he : ∀ a b, Carries s t (elements a b))

omit h in
include ht in
theorem carries_sameAnnotations (as bs : List AnnotationUse) :
    Carries s t (Equality.sameAnnotations types as bs) :=
  carries_sameLists (fun (a b : AnnotationUse) => (ht a.type b.type).both (carries_pure _)) as bs

omit h in
include ht he in
theorem carries_typeContents (q : Equality) (m n : TypeNode) :
    Carries s t (q.typeContents types elements m n) := by
  refine (carries_ite (carries_sameAnnotations ht _ _) (carries_pure true)).both ?_
  rw [Equality.sameTypeParts_eq]
  exact carries_ite ((carries_allPairs (carries_sameOptions he) _ _).both
    (carries_allPairs (carries_sameLists ht) _ _)) (carries_pure false)

include ht he

theorem carries_elementContents (q : Equality) (m n : ElementNode) :
    Carries s t (q.elementContents types elements m n) := by
  refine (carries_ite (carries_sameAnnotations ht _ _) (carries_pure true)).both ?_
  unfold Equality.sameElementParts
  cases m.kind with
  | package | module => exact carries_pure true
  | executable k =>
    exact (carries_sameOptions he _ _).both ((h.carries_signature m).bind fun as =>
      (h.carries_signature n).bind fun bs => carries_sameOptions (carries_sameLists ht) as bs)
  | _ => exact carries_sameOptions he _ _

end Contents

omit h in
theorem elementContents_detail (q : Equality) (types : TypeId → TypeId → Build Bool)
    (elements : ElementId → ElementId → Build Bool) (m n : ElementNode) {detail : ElementDetail}
    (hdetail : detail.kind = m.kind) (detail' : ElementDetail) :
    q.elementContents types elements { m with detail := detail } { n with detail := detail' } =
      q.elementContents types elements m n := by
  have hkind : ElementNode.kind { m with detail := detail } = m.kind := hdetail
  unfold Equality.elementContents Equality.sameElementParts
  rw [hkind]
  rfl

mutual

/-- A comparison of types reads nothing in which the two stores differ. -/
theorem carries_typesAssuming (q : Equality) :
    ∀ (fuel : Nat) (assumed : List (ElementId × ElementId)) (a b : TypeId),
      Carries s t (q.typesAssuming fuel assumed a b)
  | 0, _, _, _ => by
      rw [Equality.typesAssuming]
      exact carries_throw _
  | fuel + 1, assumed, a, b => by
      rw [Equality.typesAssuming_succ]
      refine (h.carries_viewType a).bind fun x => (h.carries_viewType b).bind fun y => ?_
      refine carries_ite (carries_pure true) (carries_ite (carries_pure false) ?_)
      exact carries_typeContents (carries_typesAssuming q fuel assumed)
        (carries_elementsAssuming q fuel assumed) q x.2 y.2

theorem carries_elementsAssuming (q : Equality) :
    ∀ (fuel : Nat) (assumed : List (ElementId × ElementId)) (a b : ElementId),
      Carries s t (q.elementsAssuming fuel assumed a b)
  | 0, _, _, _ => by
      rw [Equality.elementsAssuming]
      exact carries_throw _
  | fuel + 1, assumed, a, b => by
      refine ⟨Equality.settles_elementsAssuming q assumed a b, fun {r} hknown => ?_⟩
      obtain ⟨a', m, b', n, ha, hb, hr⟩ := Equality.known_elementsAssuming_succ.1 hknown
      obtain ⟨detail, hdetail, ha'⟩ := h.elements ha
      obtain ⟨detail', hdetail', hb'⟩ := h.elements hb
      refine Equality.known_elementsAssuming_succ.2 ⟨a', _, b', _, ha', hb', ?_⟩
      have hm : ElementNode.kind { m with detail := detail } = m.kind := hdetail
      have hn : ElementNode.kind { n with detail := detail' } = n.kind := hdetail'
      rw [hm, hn, elementContents_detail q _ _ m n hdetail detail']
      refine Carries.known (carries_ite (carries_pure true) (carries_ite (carries_pure false)
        (carries_ite (carries_pure true) ?_))) hr
      exact h.carries_elementContents (carries_typesAssuming q fuel _)
        (carries_elementsAssuming q fuel _) q m n

end

theorem carries_checkAccessor (fuel : Nat) (component method : ElementNode) :
    Carries s t (checkAccessor fuel component method) := by
  have hreturn : Carries s t (statedReturnType method) := by
    unfold statedReturnType
    split
    · exact (h.carries_typeNode _).bind fun _ => carries_pure _
    · exact carries_pure none
  have htype : Carries s t (returnsComponentType fuel component method) := by
    refine hreturn.bind fun actual => ?_
    split
    · exact h.carries_typesAssuming _ _ _ _ _
    · exact carries_pure false
  have howner : Carries s t (sameOwner component method) := by
    unfold sameOwner
    split
    · exact (h.carries_resolveElement _).bind fun _ =>
        (h.carries_resolveElement _).bind fun _ => carries_pure _
    · exact carries_pure true
  have hrefuse : ∀ (c : Bool) (f : Fault), Carries s t (onlyIf c (throw f) : Build Unit) :=
    fun c f => carries_ite (carries_throw f) (carries_pure ())
  unfold checkAccessor
  split
  · exact carries_throw _
  · exact htype.bind fun _ => (hrefuse _ _).bind fun _ => howner.bind fun _ => hrefuse _ _

end Store.Restyled

theorem Store.restyled_setElementNode {n : ElementNode}
    (hn : s.elements[e.index]? = some (.node n)) (detail : ElementDetail)
    (hdetail : detail.kind = n.kind) :
    s.Restyled (s.setElementNode e { n with detail := detail }) where
  types _ := rfl
  elements := by
    intro k k' m hk
    rw [peekElement_setElementNode hn, hk, Option.map_some]
    by_cases hke : k' = e
    · subst hke
      cases (Slot.slot_of_peek hk).symm.trans hn
      exact ⟨detail, hdetail, by rw [if_pos rfl]⟩
    · exact ⟨m.detail, rfl, by rw [if_neg hke]⟩

section SetAccessor

variable {fuel fuel' : Nat} {s s' : Store} {component accessor : ElementId}

theorem of_setAccessor (h : setAccessor fuel component accessor s = (.ok (), s')) :
    ∃ e n m method s₁, s₁.peekElement component = some (e, n) ∧ n.kind = .recordComponent ∧
      s₁.peekElement accessor = some (m, method) ∧ Known (checkAccessor fuel n method) s₁ () ∧
      s' = s₁.setElementNode e { n with detail := .recordComponent (some accessor) } := by
  obtain ⟨⟨e, n⟩, s₁, hview, h⟩ := bind_eq_ok h
  cases hdetail : n.detail with
  | recordComponent old =>
    simp only [hdetail] at h
    obtain ⟨method, s₂, hmethod, h⟩ := bind_eq_ok h
    obtain ⟨⟨⟩, s₃, hcheck, h⟩ := bind_eq_ok h
    obtain ⟨new, _, hset, h⟩ := bind_eq_ok h
    obtain ⟨hnew, rfl⟩ := Prod.mk.inj hset
    obtain ⟨rfl, -⟩ := eq_some_of_setOnce hnew
    cases h
    have hle₂ := le_of_ok hmethod
    have hle₃ := le_of_ok hcheck
    have hknown := known_of_ok hmethod hle₃
    obtain ⟨m, hm⟩ := known_elementNode.1 hknown
    exact ⟨e, n, m, method, s₃, peekElement_mono (hle₂.trans hle₃) (peekElement_of_viewElement hview),
      by rw [ElementNode.kind, hdetail]; rfl, hm, known_of_ok hcheck le_rfl, rfl⟩
  | _ =>
    simp only [hdetail] at h
    cases h

/-- A method that passes the tests is another element than the component. -/
theorem kind_of_known_checkAccessor {n method : ElementNode}
    (h : Known (checkAccessor fuel n method) s ()) : method.kind = .executable .method := by
  unfold checkAccessor at h
  split at h
  · cases h
  · next hflaw =>
    unfold accessorFlaw? at hflaw
    split at hflaw
    · cases hflaw
    · next hkind => exact not_not.1 hkind

/-- The accessor of a component is given again. -/
theorem setAccessor_again (hfuel : fuel ≤ fuel')
    (h : setAccessor fuel component accessor s = (.ok (), s')) :
    setAccessor fuel' component accessor s' = (.ok (), s') := by
  obtain ⟨e, n, m, method, s₁, hn, hkind, hm, hcheck, hs'⟩ := of_setAccessor h
  have hmethod := kind_of_known_checkAccessor hcheck
  have hslot := Slot.slot_of_peek hn
  have hrestyled := Store.restyled_setElementNode hslot (.recordComponent (some accessor)) hkind.symm
  rw [← hs'] at hrestyled
  have hn' : s'.peekElement component =
      some (e, { n with detail := .recordComponent (some accessor) }) := by
    rw [hs']
    exact Store.peekElement_setElementNode_self hn _
  have hme : m ≠ e := by
    rintro rfl
    cases (Slot.slot_of_peek hm).symm.trans hslot
    cases hmethod.symm.trans hkind
  have hm' : s'.peekElement accessor = some (m, method) := by
    rw [hs', Store.peekElement_setElementNode hslot, hm, Option.map_some, if_neg hme]
  have hcheck' : checkAccessor fuel' { n with detail := .recordComponent (some accessor) } method s' =
      (.ok (), s') := by
    have : Fact (fuel ≤ fuel') := ⟨hfuel⟩
    have hmore : Known (checkAccessor fuel' n method) s₁ () := hcheck.grow le_rfl
    exact (hrestyled.carries_checkAccessor fuel' n method).known hmore
  unfold setAccessor
  rw [bind_of_ok (viewElement_of_peekElement hn')]
  dsimp only
  rw [bind_of_ok (known_elementNode.2 ⟨m, hm'⟩), bind_of_ok hcheck', setOnce_some_self,
    bind_of_ok (ofExcept_apply _ s')]
  show (Except.ok (), s'.setElementNode e _) = _
  rw [Store.setElementNode_self (Slot.slot_of_peek hn')]

end SetAccessor

/-! ### Operations that are repeated -/

/-- The kind of a type that is completed is fixed. -/
theorem Store.Extends.peekTypeKind (h : s.Extends t) {j : TypeKind}
    (hk : s.peekTypeKind k = some j) : t.peekTypeKind k = some j := by
  obtain ⟨⟨u, m⟩, hm, rfl⟩ := Option.map_eq_some_iff.1 hk
  obtain ⟨m', hm', hextends⟩ := h.peekType hm
  rw [Store.peekTypeKind, hm']
  exact congrArg some hextends.shape.kind_eq

namespace Operation

/-- Whether an operation gives a part that can be given once. -/
def givesOnce : Operation → Bool
  | editType _ edit => edit.givesOnce
  | editElement _ edit => edit.givesOnce
  | setElementType _ _ | setAccessor _ _ _ => true
  | _ => false

/-- The fuel of an operation that compares types. -/
def fuel : Operation → Nat
  | setAccessor fuel _ _ => fuel
  | _ => 0

/-- The same operation with other fuel. -/
def withFuel (fuel : Nat) : Operation → Operation
  | setAccessor _ component accessor => setAccessor fuel component accessor
  | op => op

/-- What an operation gives can be given again: a value holds no "not a number", and a superclass or
an element's type, as far as it is completed, is of a kind that can stand there. -/
def Restatable (s : Store) : Operation → Prop
  | editElement _ (.superclass t) => ∀ k, s.peekTypeKind t = some k → k.isDeclaredOrNone = true
  | editElement _ edit => edit.givesNaN = false
  | setElementType e t =>
      ∀ k j, s.peekElementKind e = some k → s.peekTypeKind t = some j → k.admitsType j = true
  | _ => True

/-- What an operation gives holds no "not a number", and is no handle that the operation may have to
complete. -/
def isFirm (s : Store) : Operation → Bool
  | editElement _ (.superclass t) => s.knowsType t
  | editElement _ edit => !edit.givesNaN
  | setElementType _ t => s.knowsType t
  | _ => true

variable {op : Operation} {s s' : Store}

theorem admissible_superclass_iff {t : TypeId} : (ElementEdit.superclass t).admissible s = .ok () ↔
      ∀ k, s.peekTypeKind t = some k → k.isDeclaredOrNone = true := by
  simp only [ElementEdit.admissible, Store.admitType]
  cases s.peekTypeKind t with
  | none => simp
  | some k => by_cases hk : k.isDeclaredOrNone = true <;> simp [hk]

/-- A part that was given with a completed handle, and without a "not a number", can be given again. -/
theorem restatable_of_isFirm (hcall : op.call s = (.ok (), s')) (hfirm : op.isFirm s = true) :
    op.Restatable s' := by
  have hextends : s.Extends s' := by
    have hmoves := Store.extends_of_moves (op.moves s)
    rwa [← op.call_eq s, hcall] at hmoves
  cases op with
  | editElement e edit =>
    cases edit with
    | superclass t =>
      intro k hk
      obtain ⟨owner, n, n', s₁, hadmissible, -⟩ := of_editElement hcall
      obtain ⟨u, m, hm⟩ := Store.knowsType_iff.1 hfirm
      have hkind : s.peekTypeKind t = some m.kind := by rw [Store.peekTypeKind, hm, Option.map_some]
      cases (hextends.peekTypeKind hkind).symm.trans hk
      exact admissible_superclass_iff.1 hadmissible _ hkind
    | _ => exact (Bool.not_eq_true' _).mp hfirm
  | setElementType e t =>
    intro k j hk hj
    obtain ⟨e', n', s₁, hle, haccepts, he, -⟩ := typeGiven_of_setElementType hcall
    obtain ⟨u, m, hm⟩ := Store.knowsType_iff.1 hfirm
    have hkind : s.peekTypeKind t = some m.kind := by rw [Store.peekTypeKind, hm, Option.map_some]
    rw [Store.peekElementKind, he] at hk
    cases hk
    cases (hextends.peekTypeKind hkind).symm.trans hj
    exact accepts_of_admitType haccepts (peekType_mono hle hm)
  | _ => trivial

/-- An operation that has given a part that can be given once succeeds again, and then changes
nothing, exactly if what it gives can be given again. It can, unless it holds a "not a number" or is a
handle that was not completed before. -/
theorem call_again {fuel : Nat} (honce : op.givesOnce = true) (hcall : op.call s = (.ok (), s'))
    (hfuel : op.fuel ≤ fuel) :
    ((op.withFuel fuel).call s' = (.ok (), s') ↔ op.Restatable s') ∧
      (op.isFirm s = true → op.Restatable s') := by
  refine ⟨?_, restatable_of_isFirm hcall⟩
  cases op with
  | editType t edit => exact iff_of_true (editType_again honce hcall) trivial
  | editElement e edit =>
    refine (editElement_again_iff honce hcall).trans ?_
    cases edit with
    | superclass t => exact (and_iff_left rfl).trans admissible_superclass_iff
    | interface | permitted => cases honce
    | _ => exact and_iff_right rfl
  | setElementType e t => exact setElementType_again_iff hcall
  | setAccessor fuel₀ component accessor =>
    exact iff_of_true (setAccessor_again hfuel hcall) trivial
  | _ => cases honce

end Operation

/-- A record component and a method, both with the name `x` and the type `int`, and a deferred handle
of the method. -/
def Store.pointRecord : Store :=
  .after [.newNamedElement .recordComponent "x", .setElementType ⟨0⟩ (.primitive .int),
    .newNamedElement (.executable .method) "x", .editElement ⟨1⟩ (.modifier .publicAccess),
    .makeShape (.executable { returnType := some (.primitive .int) }), .setElementType ⟨1⟩ ⟨14⟩,
    .deferElement (.give ⟨1⟩)]

/-- The method is made the accessor of the component, through the deferred handle, and then again with
more fuel. -/
theorem Operation.call_again_pointRecord :
    (Operation.setAccessor 1 ⟨0⟩ ⟨2⟩).call Store.pointRecord =
      (.ok (), (Operation.setAccessor 1 ⟨0⟩ ⟨2⟩).apply Store.pointRecord) ∧
    (Operation.setAccessor 5 ⟨0⟩ ⟨2⟩).call
        ((Operation.setAccessor 1 ⟨0⟩ ⟨2⟩).apply Store.pointRecord) =
      (.ok (), (Operation.setAccessor 1 ⟨0⟩ ⟨2⟩).apply Store.pointRecord) := by
  have hcall : (Operation.setAccessor 1 ⟨0⟩ ⟨2⟩).call Store.pointRecord =
      (.ok (), (Operation.setAccessor 1 ⟨0⟩ ⟨2⟩).apply Store.pointRecord) :=
    Prod.ext rfl (Operation.call_eq _ _)
  have hfuel : (Operation.setAccessor 1 ⟨0⟩ ⟨2⟩).fuel ≤ 5 := by decide
  have hagain := Operation.call_again rfl hcall hfuel
  exact ⟨hcall, hagain.1.2 (hagain.2 rfl)⟩

/-- A field, and a class with a deferred handle of `int`. -/
def Store.fieldAndClass : Store :=
  .after [.newElement (.var .field), .newElement (.type .plain), .deferType (.give (.primitive .int))]

/-- The field is given a "not a number", and the class a handle that turns out to be `int`. Both can
be done once, and neither can be done again. -/
theorem Operation.call_again_refused :
    ((Operation.editElement ⟨0⟩ (.constant (.float 0x7fc00000))).call Store.fieldAndClass).1 = .ok () ∧
    ((Operation.editElement ⟨0⟩ (.constant (.float 0x7fc00000))).call
        ((Operation.editElement ⟨0⟩ (.constant (.float 0x7fc00000))).apply Store.fieldAndClass)).1 =
      .error (.alreadySet "constant value") ∧
    ((Operation.setElementType ⟨1⟩ ⟨14⟩).call Store.fieldAndClass).1 = .ok () ∧
    ((Operation.setElementType ⟨1⟩ ⟨14⟩).call
        ((Operation.setElementType ⟨1⟩ ⟨14⟩).apply Store.fieldAndClass)).1 =
      .error (.typeKind "set_element_type" (.primitive .int)) :=
  ⟨rfl, rfl, rfl, rfl⟩

end JavaTypes
