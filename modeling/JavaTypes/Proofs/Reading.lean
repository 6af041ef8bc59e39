import JavaTypes.Proofs.Growth
import JavaTypes.QualifiedName

/-!
# Readings of a store

A reading completes a handle and gives a part of the node. Readings settle, and what a reading gives
is known from the node that can be peeked at.
-/

namespace JavaTypes

open Action

variable {a b e c e' : ElementId} {fuel : Nat} {n : ElementNode} {name : String} {s : Store}
  {t : TypeId} {ν κ α : Type} {slots : Array (Slot ν κ)} {index : κ → Nat}

/-- The node behind what was peeked at. -/
theorem Slot.slot_of_peek :
    ∀ {n : Nat} {k k' : κ} {v : ν}, Slot.peek slots index n k = some (k', v) →
      slots[index k']? = some (.node v)
  | 0, _, _, _, h => by cases h
  | n + 1, k, k', v, h => by
      unfold Slot.peek at h
      split at h
      · next w hk =>
        cases h
        exact hk
      · exact Slot.slot_of_peek h
      · cases h

/-- A handle denotes one node. -/
theorem Store.peekType_node {a b c : TypeId} {m n : TypeNode}
    (ha : s.peekType a = some (c, m)) (hb : s.peekType b = some (c, n)) : m = n := by
  have h := (Slot.slot_of_peek ha).symm.trans (Slot.slot_of_peek hb)
  cases h
  rfl

theorem Store.peekElement_node {m : ElementNode}
    (ha : s.peekElement a = some (c, m)) (hb : s.peekElement b = some (c, n)) : m = n := by
  have h := (Slot.slot_of_peek ha).symm.trans (Slot.slot_of_peek hb)
  cases h
  rfl

/-- The handle of a node stands for the node. -/
theorem Slot.peek_of_peek {n m : Nat}
    {k k' : κ} {v : ν} (h : Slot.peek slots index n k = some (k', v)) :
    Slot.peek slots index (m + 1) k' = some (k', v) := by
  unfold Slot.peek
  rw [Slot.slot_of_peek h]

theorem Store.peekType_self {a b : TypeId} {n : TypeNode}
    (h : s.peekType a = some (b, n)) : s.peekType b = some (b, n) :=
  Slot.peek_of_peek h

theorem Store.peekElement_self (h : s.peekElement a = some (b, n)) : s.peekElement b = some (b, n) :=
  Slot.peek_of_peek h

/-- What is peeked at is in the store. -/
theorem Store.index_lt_of_peekElement (h : s.peekElement a = some (b, n)) : b.index < s.elements.size :=
  (Array.getElem?_eq_some_iff.1 (Slot.slot_of_peek h)).1

/-! ### Types -/

instance settles_typeNode (t : TypeId) : Settles (typeNode t) (typeNode t) :=
  settles_bind

instance settles_resolveType (t : TypeId) : Settles (resolveType t) (resolveType t) :=
  settles_bind

instance settles_typeKind (t : TypeId) : Settles (typeKind t) (typeKind t) :=
  settles_bind

instance settles_parameterTypes (t : TypeId) : Settles (parameterTypes t) (parameterTypes t) :=
  settles_bind

instance settles_enclosingType (t : TypeId) : Settles (enclosingType t) (enclosingType t) :=
  settles_bind

instance settles_declaredUpperBound (t : TypeId) :
    Settles (declaredUpperBound t) (declaredUpperBound t) :=
  settles_bind

instance settles_declaredLowerBound (t : TypeId) :
    Settles (declaredLowerBound t) (declaredLowerBound t) :=
  settles_bind

theorem known_typeNode {n : TypeNode} : Known (typeNode t) s n ↔ ∃ t', s.peekType t = some (t', n) := by
  unfold typeNode
  simp only [known_map, known_viewType]
  constructor
  · rintro ⟨⟨t', m⟩, h, rfl⟩
    exact ⟨t', h⟩
  · rintro ⟨t', h⟩
    exact ⟨(t', n), h, rfl⟩

theorem known_resolveType {t' : TypeId} :
    Known (resolveType t) s t' ↔ ∃ n, s.peekType t = some (t', n) := by
  unfold resolveType
  simp only [known_map, known_viewType]
  constructor
  · rintro ⟨⟨u, m⟩, h, rfl⟩
    exact ⟨m, h⟩
  · rintro ⟨n, h⟩
    exact ⟨(t', n), h, rfl⟩

theorem known_typeKind {k : TypeKind} :
    Known (typeKind t) s k ↔ ∃ t' n, s.peekType t = some (t', n) ∧ k = n.kind := by
  unfold typeKind
  simp only [known_map, known_typeNode]
  constructor
  · rintro ⟨n, ⟨t', h⟩, rfl⟩
    exact ⟨t', n, h, rfl⟩
  · rintro ⟨t', n, h, rfl⟩
    exact ⟨n, ⟨t', h⟩, rfl⟩

/-! ### Elements -/

instance settles_elementNode (e : ElementId) : Settles (elementNode e) (elementNode e) :=
  settles_bind

instance settles_resolveElement (e : ElementId) : Settles (resolveElement e) (resolveElement e) :=
  settles_bind

instance settles_elementKind (e : ElementId) : Settles (elementKind e) (elementKind e) :=
  settles_bind

instance settles_elementType (e : ElementId) : Settles (elementType e) (elementType e) :=
  settles_bind

instance settles_enclosingElement (e : ElementId) :
    Settles (enclosingElement e) (enclosingElement e) :=
  settles_bind

instance settles_typeParameters (e : ElementId) : Settles (typeParameters e) (typeParameters e) :=
  settles_bind

instance settles_declaredSuperclass (e : ElementId) :
    Settles (declaredSuperclass e) (declaredSuperclass e) :=
  settles_bind

instance settles_declaredInterfaces (e : ElementId) :
    Settles (declaredInterfaces e) (declaredInterfaces e) :=
  settles_bind

theorem known_elementNode : Known (elementNode e) s n ↔ ∃ e', s.peekElement e = some (e', n) := by
  unfold elementNode
  simp only [known_map, known_viewElement]
  constructor
  · rintro ⟨⟨e', m⟩, h, rfl⟩
    exact ⟨e', h⟩
  · rintro ⟨e', h⟩
    exact ⟨(e', n), h, rfl⟩

theorem known_resolveElement :
    Known (resolveElement e) s e' ↔ ∃ n, s.peekElement e = some (e', n) := by
  unfold resolveElement
  simp only [known_map, known_viewElement]
  constructor
  · rintro ⟨⟨u, m⟩, h, rfl⟩
    exact ⟨m, h⟩
  · rintro ⟨n, h⟩
    exact ⟨(e', n), h, rfl⟩

/-! ### Names -/

/-- The names of types that are members of the elements of a kind go on from the name of the element. -/
def ElementKind.Qualifies (k : ElementKind) : Prop :=
  k = .package ∨ ∃ t, k = .type t

section Members

variable {s : Store} {fuel : Nat} {n m : ElementNode} {k : ClassKind} {parent p : ElementId}
  (hk : n.kind = .type k) (hparent : n.enclosing = some parent)

include hk hparent

theorem Store.qualifiedNameWithin_of_none (hp : s.peekElement parent = none) :
    s.qualifiedNameWithin (fuel + 1) n = .error (.unknownElement parent) := by
  rw [Store.qualifiedNameWithin, hk, hparent]
  dsimp only
  rw [hp]

variable (hp : s.peekElement parent = some (p, m))

include hp

theorem Store.qualifiedNameWithin_of_qualifies (hq : m.kind.Qualifies) :
    s.qualifiedNameWithin (fuel + 1) n =
      (s.qualifiedNameWithin fuel m).map (qualify · n.simpleName) := by
  rw [Store.qualifiedNameWithin, hk, hparent]
  dsimp only
  rw [hp]
  rcases hq with hq | ⟨t, hq⟩
  · dsimp only
    rw [hq]
    rfl
  · dsimp only
    rw [hq]
    rfl

theorem Store.qualifiedNameWithin_of_not_qualifies (hq : ¬ m.kind.Qualifies) :
    s.qualifiedNameWithin (fuel + 1) n = .ok n.simpleName := by
  rw [Store.qualifiedNameWithin, hk, hparent]
  dsimp only
  rw [hp]
  dsimp only
  split
  · next h => exact absurd (.inl h) hq
  · next t h => exact absurd (.inr ⟨t, h⟩) hq
  · rfl

end Members

theorem Store.qualifiedNameWithin_of_not_member
    (h : ∀ k parent, n.kind = .type k → n.enclosing ≠ some parent) :
    s.qualifiedNameWithin (fuel + 1) n = .ok n.simpleName := by
  rw [Store.qualifiedNameWithin]
  split
  · next k parent hk hparent => exact absurd hparent (h k parent hk)
  · rfl

/-- A name is a simple name, or a type's name that goes on from that of its parent. -/
theorem Store.qualifiedNameWithin_succ : s.qualifiedNameWithin (fuel + 1) n = .ok name ↔
      (name = n.simpleName ∧ ∀ k parent, n.kind = .type k → n.enclosing = some parent →
        ∃ p m, s.peekElement parent = some (p, m) ∧ ¬ m.kind.Qualifies) ∨
      ∃ k parent p m outer, n.kind = .type k ∧ n.enclosing = some parent ∧
        s.peekElement parent = some (p, m) ∧ m.kind.Qualifies ∧
          s.qualifiedNameWithin fuel m = .ok outer ∧ name = qualify outer n.simpleName := by
  constructor
  · intro h
    by_cases hmember : ∃ k parent, n.kind = .type k ∧ n.enclosing = some parent
    · obtain ⟨k, parent, hk, hparent⟩ := hmember
      cases hp : s.peekElement parent with
      | none =>
        rw [qualifiedNameWithin_of_none hk hparent hp] at h
        cases h
      | some found =>
        obtain ⟨p, m⟩ := found
        by_cases hq : m.kind.Qualifies
        · rw [qualifiedNameWithin_of_qualifies hk hparent hp hq] at h
          cases houter : s.qualifiedNameWithin fuel m with
          | error f =>
            rw [houter] at h
            cases h
          | ok outer =>
            rw [houter] at h
            cases h
            exact .inr ⟨k, parent, p, m, outer, hk, hparent, hp, hq, houter, rfl⟩
        · rw [qualifiedNameWithin_of_not_qualifies hk hparent hp hq] at h
          cases h
          refine .inl ⟨rfl, fun _ parent' _ hparent' => ?_⟩
          cases hparent.symm.trans hparent'
          exact ⟨p, m, hp, hq⟩
    · have hnot : ∀ k parent, n.kind = .type k → n.enclosing ≠ some parent :=
        fun k parent hk hparent => hmember ⟨k, parent, hk, hparent⟩
      rw [qualifiedNameWithin_of_not_member hnot] at h
      cases h
      exact .inl ⟨rfl, fun k parent hk hparent => absurd hparent (hnot k parent hk)⟩
  · rintro (⟨rfl, h⟩ | ⟨k, parent, p, m, outer, hk, hparent, hp, hq, houter, rfl⟩)
    · by_cases hmember : ∃ k parent, n.kind = .type k ∧ n.enclosing = some parent
      · obtain ⟨k, parent, hk, hparent⟩ := hmember
        obtain ⟨p, m, hp, hq⟩ := h k parent hk hparent
        exact qualifiedNameWithin_of_not_qualifies hk hparent hp hq
      · exact qualifiedNameWithin_of_not_member fun k parent hk hparent =>
          hmember ⟨k, parent, hk, hparent⟩
    · rw [qualifiedNameWithin_of_qualifies hk hparent hp hq, houter]
      rfl

/-- Two nodes with the same kind, name and container. -/
structure ElementNode.SamePlace (n n' : ElementNode) : Prop where
  kind : n'.kind = n.kind
  name : n'.name = n.name
  enclosing : n'.enclosing = n.enclosing

/-- The second store has the elements of the first, with the same kinds, names and containers. -/
structure Store.Places (s t : Store) : Prop where
  peek : ∀ {e p n}, s.peekElement e = some (p, n) →
    ∃ n', t.peekElement e = some (p, n') ∧ n.SamePlace n'
  size_le : s.elements.size ≤ t.elements.size

theorem Store.places_of_le {s t : Store} (h : s ≤ t) : s.Places t :=
  ⟨fun he => ⟨_, peekElement_mono h he, rfl, rfl, rfl⟩, h.size_elements⟩

theorem Store.Places.qualifiedNameWithin {s t : Store} (h : s.Places t) :
    ∀ {fuel fuel' : Nat} (_ : fuel ≤ fuel') {n n' : ElementNode} {name : String}, n.SamePlace n' →
      s.qualifiedNameWithin fuel n = .ok name → t.qualifiedNameWithin fuel' n' = .ok name
  | 0, _, _, _, _, _, _, hn => by cases hn
  | fuel + 1, 0, hf, _, _, _, _, _ => by cases hf
  | fuel + 1, fuel' + 1, hf, n, n', name, hplace, hn => by
      have hsimple : n'.simpleName = n.simpleName := congrArg (·.getD "") hplace.name
      rw [qualifiedNameWithin_succ, hsimple, hplace.kind, hplace.enclosing]
      rw [qualifiedNameWithin_succ] at hn
      rcases hn with ⟨rfl, hnot⟩ | ⟨k, parent, p, m, outer, hk, hparent, hp, hq, houter, rfl⟩
      · refine .inl ⟨rfl, fun k parent hk hparent => ?_⟩
        obtain ⟨p, m, hp, hq⟩ := hnot k parent hk hparent
        obtain ⟨m', hp', hm'⟩ := h.peek hp
        exact ⟨p, m', hp', hm'.kind.symm ▸ hq⟩
      · obtain ⟨m', hp', hm'⟩ := h.peek hp
        exact .inr ⟨k, parent, p, m', outer, hk, hparent, hp', hm'.kind.symm ▸ hq,
          h.qualifiedNameWithin (Nat.le_of_succ_le_succ hf) hm' houter, rfl⟩

theorem Store.Places.qualifiedNameOf {s t : Store} (h : s.Places t) {n n' : ElementNode}
    (hplace : n.SamePlace n') (hn : s.qualifiedNameOf n = .ok name) : t.qualifiedNameOf n' = .ok name :=
  h.qualifiedNameWithin (Nat.succ_le_succ h.size_le) hplace hn

instance settles_qualifiedName (e : ElementId) : Settles (qualifiedName e) (qualifiedName e) := by
  refine settles_bind_of fun n => ⟨fun s => Leads.refl s, ?_, Repeats.refl _⟩
  intro s s' t name h ht
  obtain ⟨hname, rfl⟩ := Prod.mk.inj (h : (s.qualifiedNameOf n, s) = (.ok name, s'))
  have hname' := (Store.places_of_le ht).qualifiedNameOf ⟨rfl, rfl, rfl⟩ hname
  exact Prod.ext hname' rfl

/-- What is computed from a store and the node of an element. -/
theorem known_ofNode {f : Store → ElementNode → Except Fault α} {x : α} :
    Known (do let n ← elementNode e; let s ← get; Action.ofExcept (f s n)) s x ↔
      ∃ e' n, s.peekElement e = some (e', n) ∧ f s n = .ok x := by
  constructor
  · intro h
    obtain ⟨n, t, hnode, h⟩ := bind_eq_ok h
    obtain ⟨hx, rfl⟩ := Prod.mk.inj (h : (f t n, t) = (.ok x, s))
    obtain ⟨e', he⟩ := known_elementNode.1 (known_of_ok hnode le_rfl)
    exact ⟨e', n, he, hx⟩
  · rintro ⟨e', n, he, hx⟩
    exact (known_elementNode.2 ⟨e', he⟩).bind (Prod.ext hx rfl)

theorem known_qualifiedName : Known (qualifiedName e) s name ↔
    ∃ e' n, s.peekElement e = some (e', n) ∧ s.qualifiedNameOf n = .ok name :=
  known_ofNode

end JavaTypes
