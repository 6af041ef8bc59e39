import JavaTypes.Proofs.MemberLinks

/-!
# Elements and their types

The type of a type element or type parameter belongs to that element alone: a declared type, error
type or type variable that is given to it knows the element. The link is tested first and then written
at both ends, and the type may be given by a deferred handle.

* `Store.Change.peekType`: a step leads no handle to another type, and no type loses its element;
* `Store.TypesLinked`: the types of type elements and type parameters know their elements, and
  `TypesLinked.step`: every step keeps this;
* `Store.elementType_linked`: so it holds after every sequence of operations, and an element that
  cannot be given a type is left as it is.
-/

namespace JavaTypes

/-! ### What steps do to types -/

theorem TypeEdit.kind_fill (n : TypeNode) (edit : TypeEdit) : (fill n edit).kind = n.kind := by
  obtain ⟨shape, annotations⟩ := n
  cases edit <;> cases shape <;> rfl

/-- An edit takes no element away from a type. -/
theorem TypeEdit.element_fill {n : TypeNode} {e : ElementId} (h : n.element = some e)
    (edit : TypeEdit) : (fill n edit).element = some e := by
  obtain ⟨shape, annotations⟩ := n
  cases edit with
  | definingElement e' =>
    cases shape with
    | declared d =>
      show some (d.element.getD e') = some e
      rw [show d.element = some e from h]
      rfl
    | typeVar v =>
      show some (v.element.getD e') = some e
      rw [show v.element = some e from h]
      rfl
    | _ => exact h
  | _ => cases shape <;> exact h

/-- The second node is of the same kind and has the element of the first, if that has one. -/
structure TypeNode.Keeps (m m' : TypeNode) : Prop where
  kind : m'.kind = m.kind
  element : ∀ {e}, m.element = some e → m'.element = some e

theorem TypeNode.Keeps.refl (m : TypeNode) : m.Keeps m :=
  ⟨rfl, id⟩

theorem TypeNode.keeps_fill (m : TypeNode) (edit : TypeEdit) : m.Keeps (edit.fill m) :=
  ⟨TypeEdit.kind_fill m edit, fun h => TypeEdit.element_fill h edit⟩

theorem TypeNode.keeps_linked {m : TypeNode} {e : ElementId}
    (hfree : m.element = none ∨ m.element = some e) : m.Keeps (m.linked e) := by
  refine ⟨m.kind_linked e, fun {e'} h => ?_⟩
  have hkind : m.kind.hasElement = true := by
    obtain ⟨shape, annotations⟩ := m
    cases shape <;> first | rfl | cases h
  rw [element_linked e hkind, ← h]
  obtain hnone | hsome := hfree
  · rw [hnone] at h
    cases h
  · exact hsome.symm

namespace Store

variable {s t : Store} {k owner : TypeId} {m : TypeNode}

theorem peekType_of_kept (hkept : Slot.Kept s.types t.types) (hsize : s.types.size ≤ t.types.size)
    (hk : s.peekType k = some (owner, m)) : ∃ m', t.peekType k = some (owner, m') ∧ m.Keeps m' :=
  ⟨m, Slot.peek_mono hkept (Nat.succ_le_succ hsize) hk, .refl m⟩

/-- The node of one type is replaced. -/
theorem exists_peekType_setTypeNode {k' : TypeId} {n n' : TypeNode}
    (h : s.types[k'.index]? = some (.node n)) (hkeeps : n.Keeps n')
    (hk : s.peekType k = some (owner, m)) :
    ∃ m', (s.setTypeNode k' n').peekType k = some (owner, m') ∧ m.Keeps m' := by
  refine ⟨_, by rw [peekType_setTypeNode h, hk, Option.map_some], ?_⟩
  split
  · next hown =>
    subst hown
    have hsame := (Slot.slot_of_peek hk).symm.trans h
    cases hsame
    exact hkeeps
  · exact .refl m

theorem not_final {i : Nat} {slot : Slot TypeNode TypeId} (h : s.types[i]? = some slot)
    (hopen : slot.isFinal = false) : ∀ old, s.types[i]? = some old → old.isFinal = false := by
  intro old hold
  rw [h] at hold
  cases hold
  exact hopen

/-- A handle that leads to a type leads to it after every step, and the type keeps its element. -/
theorem Change.peekType (h : Change s t) (hk : s.peekType k = some (owner, m)) :
    ∃ m', t.peekType k = some (owner, m') ∧ m.Keeps m' := by
  -- Steps on elements and names leave the types as they are.
  have hsame (ht : t.types = s.types) : ∃ m', t.peekType k = some (owner, m') ∧ m.Keeps m' := by
    refine ⟨m, ?_, .refl m⟩
    unfold Store.peekType
    rw [ht]
    exact hk
  have hrefl : Slot.Kept s.types s.types := fun _ _ h _ => h
  cases h with
  | names => exact hsame rfl
  | newType | deferType =>
    refine peekType_of_kept (hrefl.push _) ?_ hk
    simp
  | startType h =>
    exact peekType_of_kept (hrefl.set (not_final h rfl) .running) Array.size_setIfInBounds.ge hk
  | @finishType _ slot h _ =>
    exact peekType_of_kept (hrefl.set (not_final h rfl) slot) Array.size_setIfInBounds.ge hk
  | editType h hedit =>
    rw [TypeEdit.applyTo_eq_fill hedit]
    exact exists_peekType_setTypeNode h (TypeNode.keeps_fill _ _) hk
  | linkType _ _ _ ht hfree =>
    exact exists_peekType_setTypeNode (Slot.slot_of_peek ht) (TypeNode.keeps_linked hfree) hk
  | newElement => exact hsame rfl
  | deferElement => exact hsame rfl
  | startElement => exact hsame rfl
  | finishElement => exact hsame rfl
  | editElement => exact hsame rfl
  | setAccessor => exact hsame rfl
  | attach => exact hsame rfl
  | setType => exact hsame rfl

/-- The absent type is there after every sequence of operations. -/
theorem absent_after (ops : List Operation) :
    ∃ n, (Store.after ops).peekType TypeId.none = some (TypeId.none, n) ∧ n.kind = .noType .none := by
  refine after_induction (P := fun s => ∃ n, s.peekType TypeId.none = some (TypeId.none, n) ∧
    n.kind = .noType .none) ⟨_, rfl, rfl⟩ (fun h hs => ?_) ops
  obtain ⟨n, hn, hkind⟩ := hs
  obtain ⟨n', hn', hkeeps⟩ := h.peekType hn
  exact ⟨n', hn', hkeeps.kind.trans hkind⟩

/-! ### The invariant -/

/-- The type of a type element or type parameter is there, and knows the element. -/
def TypesLinked (s : Store) : Prop :=
  ∀ (e : ElementId) (n : ElementNode) (k : TypeId), s.HasElement e n → n.kind.linksBack = true →
    n.type = some k → ∃ owner m, s.peekType k = some (owner, m) ∧
      (m.kind.hasElement = true → m.element = some e)

theorem typesLinked_empty : TypesLinked Store.empty := by
  intro e n k h
  cases h

/-- A link that is there stays. -/
theorem Change.linked (h : Change s t) {e : ElementId}
    (hlink : ∃ owner m, s.peekType k = some (owner, m) ∧
      (m.kind.hasElement = true → m.element = some e)) :
    ∃ owner m, t.peekType k = some (owner, m) ∧ (m.kind.hasElement = true → m.element = some e) := by
  obtain ⟨owner, m, hk, helement⟩ := hlink
  obtain ⟨m', hk', hkeeps⟩ := h.peekType hk
  refine ⟨owner, m', hk', fun hkind => hkeeps.element (helement ?_)⟩
  rw [← hkeeps.kind]
  exact hkind

/-- Every step keeps the links between elements and their types. -/
theorem TypesLinked.step (h : Change s t) (hs : s.TypesLinked) : t.TypesLinked := by
  intro e x k hx hkind htype
  cases h.elementChange with
  | new k' ht =>
    unfold HasElement at hx
    rw [ht] at hx
    obtain hx | ⟨-, hblank⟩ := hasElement_push.1 hx
    · exact h.linked (hs _ _ _ hx hkind htype)
    · cases hblank
      cases htype
  | plain hmaps hagrees =>
    obtain ⟨y, hy, rfl⟩ := (hmaps _ _).1 hx
    rw [(hagrees hy).kind] at hkind
    rw [(hagrees hy).type] at htype
    exact h.linked (hs _ _ _ hy hkind htype)
  | attach _ _ _ _ hmaps =>
    obtain ⟨y, hy, rfl⟩ := (hmaps _ _).1 hx
    rw [ElementNode.kind_afterAttach] at hkind
    rw [ElementNode.type_afterAttach] at htype
    exact h.linked (hs _ _ _ hy hkind htype)
  | type he hmaps hlink =>
    obtain ⟨y, hy, rfl⟩ := (hmaps _ _).1 hx
    beta_reduce at hkind htype
    split at hkind
    · next hee =>
      rw [if_pos hee] at htype
      cases htype
      rw [hee]
      exact hlink hkind
    · next hee =>
      rw [if_neg hee] at htype
      exact h.linked (hs _ _ _ hy hkind htype)

theorem typesLinked_after (ops : List Operation) : (Store.after ops).TypesLinked :=
  after_induction typesLinked_empty TypesLinked.step ops

/-- After any sequence of operations, the type of a type element or type parameter is there, and if it
is a declared type, an error type or a type variable it knows the element, so no two elements have the
same such type. An element that cannot be given a type is left as it is, together with all types; and
once the tests have passed the link is made. -/
theorem elementType_linked (ops : List Operation) :
    (∀ {e : ElementId} {n : ElementNode} {k : TypeId}, (Store.after ops).HasElement e n →
      n.kind.linksBack = true → n.type = some k →
        ∃ owner m, (Store.after ops).peekType k = some (owner, m) ∧
          (m.kind.hasElement = true → m.element = some e ∧
            ∀ {e' : ElementId} {n' : ElementNode} {k' : TypeId},
              (Store.after ops).HasElement e' n' → n'.kind.linksBack = true → n'.type = some k' →
                (Store.after ops).peekType k' = some (owner, m) → e' = e)) ∧
    (∀ {e : ElementId} {k : TypeId} {f : Fault} {t : Store},
      setElementType e k (Store.after ops) = (.error f, t) →
        (∀ {e' n}, (Store.after ops).HasElement e' n → t.HasElement e' n) ∧
          ∀ {k' found}, (Store.after ops).peekType k' = some found → t.peekType k' = some found) ∧
    ∀ {e : ElementId} {k : TypeId} {x : ElementId × ElementNode} {t : Store},
      checkElementType e k (Store.after ops) = (.ok x, t) →
        (setElementType e k (Store.after ops)).1 = .ok () := by
  have hlinked := typesLinked_after ops
  refine ⟨fun {e n k} he hkind htype => ?_, fun {e k f t} h => ?_, fun {e k x t} h => ?_⟩
  · obtain ⟨owner, m, hk, helement⟩ := hlinked _ _ _ he hkind htype
    refine ⟨owner, m, hk, fun hhas => ⟨helement hhas, fun {e' n' k'} he' hkind' htype' hk' => ?_⟩⟩
    obtain ⟨owner', m', hk'', helement'⟩ := hlinked _ _ _ he' hkind' htype'
    rw [hk'] at hk''
    cases hk''
    have hsame := (helement' hhas).symm.trans (helement hhas)
    cases hsame
    rfl
  · have hle := le_of_setElementType_eq_error h
    exact ⟨fun hn => hle.elements _ _ hn rfl, fun hk => peekType_mono hle hk⟩
  · obtain ⟨s', hset, -⟩ := setElementType_of_checkElementType h
    rw [hset]

/-- A class is given a declared type by a deferred handle. An interface that asks for the same type is
refused. -/
def sharedType : List Operation :=
  [.newElement (.type .plain), .newElement (.type .interface), .newType .declared,
    .deferType (.give ⟨14⟩), .setElementType ⟨0⟩ ⟨15⟩, .setElementType ⟨1⟩ ⟨14⟩]

theorem elementType_linked_sharedType :
    ∃ n owner m, (Store.after sharedType).HasElement ⟨0⟩ n ∧ n.kind.linksBack = true ∧
      n.type = some ⟨15⟩ ∧ (Store.after sharedType).peekType ⟨15⟩ = some (owner, m) ∧
      (m.kind.hasElement = true → m.element = some ⟨0⟩) ∧
      ∃ f t, setElementType ⟨1⟩ ⟨14⟩ (Store.after sharedType) = (.error f, t) ∧ t.HasElement ⟨0⟩ n := by
  have hn : (Store.after sharedType).HasElement ⟨0⟩
      { type := some ⟨15⟩, detail := .type .plain {} } := rfl
  obtain ⟨hlinked, hatomic, -⟩ := elementType_linked sharedType
  obtain ⟨owner, m, hk, helement⟩ := hlinked hn rfl rfl
  have hrefused : setElementType ⟨1⟩ ⟨14⟩ (Store.after sharedType) =
      (.error (.alreadySet "element"), Store.after sharedType) := rfl
  exact ⟨_, owner, m, hn, rfl, rfl, hk, fun hhas => (helement hhas).1, _, _, hrefused,
    (hatomic hrefused).1 hn⟩

end Store

end JavaTypes
