import JavaTypes.Proofs.ElementChanges

/-!
# Elements and their members

An element knows the element that it is a member of, and that one lists it among its enclosed
elements, its type parameters or its parameters. The two directions are written one after the other,
and either element may be given by a deferred handle.

* `Store.MembersLinked`: the two directions agree, and nothing is listed twice;
* `Store.MembersLinked.attach`, `Store.MembersLinked.step`: every step keeps this;
* `Store.enclosing_iff_listed`: so it holds after every sequence of operations.
-/

namespace JavaTypes

/-! ### Lists of members -/

theorem mem_insertNew {α : Type} [BEq α] [LawfulBEq α] {a b : α} {as : List α} :
    b ∈ insertNew a as ↔ b = a ∨ b ∈ as := by
  unfold insertNew
  split
  · next h =>
    have ha : a ∈ as := List.contains_iff_mem.1 h
    exact ⟨.inr, fun hb => hb.elim (fun hba => hba ▸ ha) id⟩
  · rw [List.mem_append, List.mem_singleton, or_comm]

theorem nodup_insertNew {α : Type} [BEq α] [LawfulBEq α] {as : List α} (h : as.Nodup) (a : α) :
    (insertNew a as).Nodup := by
  unfold insertNew
  split
  · exact h
  · next hnot =>
    have ha : a ∉ as := fun ha => hnot (List.contains_iff_mem.2 ha)
    exact List.nodup_append.2 ⟨h, List.nodup_singleton a, fun b hb c hc hbc =>
      ha (List.mem_singleton.1 hc ▸ hbc ▸ hb)⟩

namespace ElementNode

variable (n : ElementNode) (role : Membership) (c : ElementId)

@[simp] theorem kind_addMember : (n.addMember role c).kind = n.kind := by
  unfold addMember kind
  split <;> simp_all [ElementDetail.kind]

@[simp] theorem enclosing_addMember : (n.addMember role c).enclosing = n.enclosing := by
  unfold addMember
  split <;> rfl

@[simp] theorem type_addMember : (n.addMember role c).type = n.type := by
  unfold addMember
  split <;> rfl

theorem members_addMember_of_ne {n : ElementNode} {role role' : Membership} (h : role' ≠ role) :
    (n.addMember role c).members role' = n.members role' := by
  cases role <;> cases role' <;> first | exact absurd rfl h | skip
  all_goals
    cases hd : n.detail <;> simp [addMember, members, typeParameters, parameters, hd]

/-- An element that can contain another has a list for it. -/
theorem members_addMember {n : ElementNode} {k : ElementKind} (h : n.kind.canEnclose k = true) :
    (n.addMember (Membership.of k) c).members (Membership.of k) =
      insertNew c (n.members (Membership.of k)) := by
  unfold kind at h
  cases k with
  | typeParameter =>
    cases hd : n.detail <;> rw [hd] at h <;> first | cases h | skip
    all_goals simp [addMember, members, typeParameters, Membership.of, hd]
  | var v =>
    cases v with
    | parameter =>
      cases hd : n.detail <;> rw [hd] at h <;> first | cases h | skip
      simp [addMember, members, parameters, Membership.of, hd]
    | _ => rfl
  | _ => rfl

variable {n role} {parent child e : ElementId}

theorem kind_afterAttach : (afterAttach role parent child e n).kind = n.kind := by
  have hsame : (if e = child then { n with enclosing := some parent } else n).kind = n.kind := by
    split <;> rfl
  unfold afterAttach
  by_cases hep : e = parent
  · rw [if_pos hep, kind_addMember, hsame]
  · rw [if_neg hep, hsame]

theorem type_afterAttach : (afterAttach role parent child e n).type = n.type := by
  unfold afterAttach
  split <;> split <;> simp

theorem enclosing_afterAttach :
    (afterAttach role parent child e n).enclosing = if e = child then some parent else n.enclosing := by
  unfold afterAttach
  split <;> split <;> simp

/-- Only the one list of the container changes. -/
theorem members_afterAttach {k : ElementKind} (h : e = parent → n.kind.canEnclose k = true)
    (role : Membership) :
    (afterAttach (Membership.of k) parent child e n).members role =
      if e = parent ∧ role = Membership.of k then insertNew child (n.members role)
      else n.members role := by
  have hsame : ∀ n' : ElementNode, n'.kind = n.kind → n'.members role = n.members role →
      (if e = parent then n'.addMember (Membership.of k) child else n').members role =
        if e = parent ∧ role = Membership.of k then insertNew child (n.members role)
        else n.members role := by
    intro n' hkind hmembers
    by_cases hep : e = parent
    · by_cases hrole : role = Membership.of k
      · subst hrole
        rw [if_pos hep, if_pos ⟨hep, rfl⟩, members_addMember child (hkind ▸ h hep), hmembers]
      · rw [if_pos hep, if_neg fun h => hrole h.2, members_addMember_of_ne child hrole, hmembers]
    · rw [if_neg hep, if_neg fun h => hep h.1, hmembers]
  unfold afterAttach
  split
  · exact hsame _ rfl (by cases role <;> rfl)
  · exact hsame n rfl rfl

end ElementNode

/-! ### The invariant -/

namespace Store

/-- Every element that is listed as a member knows its container, and is listed by it once. -/
structure MembersLinked (s : Store) : Prop where
  /-- What is listed is a member, and listed where members of its kind are. -/
  listed : ∀ {p c : ElementId} {m : ElementNode} {role : Membership}, s.HasElement p m →
    c ∈ m.members role → ∃ n, s.HasElement c n ∧ n.enclosing = some p ∧
      role = Membership.of n.kind ∧ m.kind.canEnclose n.kind = true
  nodup : ∀ {p : ElementId} {m : ElementNode} (role : Membership), s.HasElement p m →
    (m.members role).Nodup
  /-- A member is listed. -/
  enclosed : ∀ {p c : ElementId} {n : ElementNode}, s.HasElement c n → n.enclosing = some p →
    ∃ m, s.HasElement p m ∧ c ∈ m.members (Membership.of n.kind)

theorem membersLinked_empty : MembersLinked Store.empty where
  listed h := by cases h
  nodup _ h := by cases h
  enclosed h := by cases h

namespace MembersLinked

variable {s t : Store}

/-- A new element has no members and is no member. -/
theorem new (hs : s.MembersLinked) {k : ElementKind}
    (ht : t.elements = s.elements.push (.node { detail := .blank k })) : t.MembersLinked := by
  have hold : ∀ {e n}, s.HasElement e n → t.HasElement e n := by
    intro e n h
    unfold HasElement
    rw [ht]
    exact hasElement_push.2 (.inl h)
  have hcases : ∀ {e n}, t.HasElement e n → s.HasElement e n ∨ n = { detail := .blank k } := by
    intro e n h
    unfold HasElement at h
    rw [ht] at h
    obtain h | ⟨-, h⟩ := hasElement_push.1 h
    · exact .inl h
    · cases h
      exact .inr rfl
  have hblank : ∀ role, ElementNode.members { detail := .blank k } role = [] := by
    intro role
    cases role <;> cases k <;> rfl
  constructor
  · intro p c m role hp hc
    obtain hp | rfl := hcases hp
    · obtain ⟨n, hn, hlink⟩ := hs.listed hp hc
      exact ⟨n, hold hn, hlink⟩
    · rw [hblank] at hc
      cases hc
  · intro p m role hp
    obtain hp | rfl := hcases hp
    · exact hs.nodup role hp
    · rw [hblank]
      exact List.nodup_nil
  · intro p c n hc henclosing
    obtain hc | rfl := hcases hc
    · obtain ⟨m, hm, hmem⟩ := hs.enclosed hc henclosing
      exact ⟨m, hold hm, hmem⟩
    · cases henclosing

/-- Nodes are replaced by others with the same members and the same container. -/
theorem of_maps (hs : s.MembersLinked) {g : ElementId → ElementNode → ElementNode}
    (hmaps : Maps g s t)
    (hg : ∀ {e n}, s.HasElement e n → (g e n).kind = n.kind ∧ (g e n).enclosing = n.enclosing ∧
      ∀ role, (g e n).members role = n.members role) : t.MembersLinked := by
  constructor
  · intro p c m' role hp hc
    obtain ⟨m, hm, rfl⟩ := (hmaps _ _).1 hp
    obtain ⟨hkind, -, hmembers⟩ := hg hm
    rw [hmembers] at hc
    obtain ⟨n, hn, henclosing, hrole, hcan⟩ := hs.listed hm hc
    obtain ⟨hkind', henclosing', -⟩ := hg hn
    refine ⟨g c n, (hmaps _ _).2 ⟨n, hn, rfl⟩, henclosing'.trans henclosing, ?_, ?_⟩
    · rw [hkind', hrole]
    · rw [hkind, hkind', hcan]
  · intro p m' role hp
    obtain ⟨m, hm, rfl⟩ := (hmaps _ _).1 hp
    rw [(hg hm).2.2]
    exact hs.nodup role hm
  · intro p c n' hc henclosing
    obtain ⟨n, hn, rfl⟩ := (hmaps _ _).1 hc
    obtain ⟨hkind, henclosing', -⟩ := hg hn
    obtain ⟨m, hm, hmem⟩ := hs.enclosed hn (henclosing'.symm.trans henclosing)
    refine ⟨g p m, (hmaps _ _).2 ⟨m, hm, rfl⟩, ?_⟩
    rw [(hg hm).2.2, hkind]
    exact hmem

/-- An element becomes a member of another that can contain it. -/
theorem attach (hs : s.MembersLinked) {parent child : ElementId} {m n : ElementNode}
    (hp : s.HasElement parent m) (hc : s.HasElement child n)
    (hkind : m.kind.canEnclose n.kind = true)
    (hfree : n.enclosing = none ∨ n.enclosing = some parent)
    (hmaps : Maps (ElementNode.afterAttach (Membership.of n.kind) parent child) s t) :
    t.MembersLinked := by
  have hcan : ∀ {e y}, s.HasElement e y → e = parent → y.kind.canEnclose n.kind = true := by
    rintro e y hy rfl
    rw [hy.unique hp]
    exact hkind
  constructor
  · intro p c x role hx hmem
    obtain ⟨y, hy, rfl⟩ := (hmaps _ _).1 hx
    rw [ElementNode.members_afterAttach (hcan hy)] at hmem
    -- Either the new member is listed where it was put, or another is listed where it was.
    have hcases : (p = parent ∧ role = Membership.of n.kind ∧ c = child) ∨ c ∈ y.members role := by
      split at hmem
      · next hput =>
        exact (mem_insertNew.1 hmem).imp (fun hcc => ⟨hput.1, hput.2, hcc⟩) id
      · exact .inr hmem
    obtain ⟨rfl, rfl, rfl⟩ | hmem := hcases
    · refine ⟨_, (hmaps _ _).2 ⟨n, hc, rfl⟩, ?_, ?_, ?_⟩
      · rw [ElementNode.enclosing_afterAttach, if_pos rfl]
      · rw [ElementNode.kind_afterAttach]
      · rw [ElementNode.kind_afterAttach, ElementNode.kind_afterAttach]
        exact hcan hy rfl
    · obtain ⟨z, hz, henclosing, hrole, hyz⟩ := hs.listed hy hmem
      refine ⟨_, (hmaps _ _).2 ⟨z, hz, rfl⟩, ?_, ?_, ?_⟩
      · rw [ElementNode.enclosing_afterAttach]
        split
        · next hcc =>
          subst hcc
          rw [hz.unique hc] at henclosing
          obtain hnone | hsome := hfree
          · rw [hnone] at henclosing
            cases henclosing
          · rw [← hsome, henclosing]
        · exact henclosing
      · rw [ElementNode.kind_afterAttach, hrole]
      · rw [ElementNode.kind_afterAttach, ElementNode.kind_afterAttach, hyz]
  · intro p x role hx
    obtain ⟨y, hy, rfl⟩ := (hmaps _ _).1 hx
    rw [ElementNode.members_afterAttach (hcan hy)]
    split
    · exact nodup_insertNew (hs.nodup role hy) child
    · exact hs.nodup role hy
  · intro p c x hx henclosing
    obtain ⟨y, hy, rfl⟩ := (hmaps _ _).1 hx
    rw [ElementNode.enclosing_afterAttach] at henclosing
    rw [ElementNode.kind_afterAttach]
    split at henclosing
    · next hcc =>
      subst hcc
      cases henclosing
      refine ⟨_, (hmaps _ _).2 ⟨m, hp, rfl⟩, ?_⟩
      rw [hy.unique hc, ElementNode.members_afterAttach (hcan hp), if_pos ⟨rfl, rfl⟩]
      exact mem_insertNew.2 (.inl rfl)
    · obtain ⟨z, hz, hmem⟩ := hs.enclosed hy henclosing
      refine ⟨_, (hmaps _ _).2 ⟨z, hz, rfl⟩, ?_⟩
      rw [ElementNode.members_afterAttach (hcan hz)]
      split
      · exact mem_insertNew.2 (.inr hmem)
      · exact hmem

/-- Every step keeps the two directions in agreement. -/
theorem step (h : Change s t) (hs : s.MembersLinked) : t.MembersLinked := by
  cases h.elementChange with
  | new k ht => exact hs.new ht
  | plain hmaps hagrees =>
    exact hs.of_maps hmaps fun hn =>
      ⟨(hagrees hn).kind, (hagrees hn).enclosing, (hagrees hn).members⟩
  | attach hp hc hkind hfree hmaps => exact hs.attach hp hc hkind hfree hmaps
  | type he hmaps _ =>
    refine hs.of_maps hmaps fun {e n} hn => ?_
    split
    · next hee =>
      subst hee
      rw [hn.unique he]
      exact ⟨rfl, rfl, fun role => by cases role <;> rfl⟩
    · exact ⟨rfl, rfl, fun _ => rfl⟩

end MembersLinked

theorem membersLinked_after (ops : List Operation) : (Store.after ops).MembersLinked :=
  after_induction membersLinked_empty MembersLinked.step ops

/-- After any sequence of operations, an element `c` is a member of `p` exactly if `p` lists it. It is
then listed once, in the list for members of its kind, and `p` can contain elements of its kind. -/
theorem enclosing_iff_listed (ops : List Operation) {p c : ElementId} {m n : ElementNode}
    (hp : (Store.after ops).HasElement p m) (hc : (Store.after ops).HasElement c n) :
    (n.enclosing = some p ↔ c ∈ m.enclosed ∨ c ∈ m.typeParameters ∨ c ∈ m.parameters) ∧
      (n.enclosing = some p → m.kind.canEnclose n.kind = true ∧
        ∀ role, (m.members role).count c = if role = Membership.of n.kind then 1 else 0) := by
  have hlinked := membersLinked_after ops
  have hlisted : ∀ {role}, c ∈ m.members role →
      n.enclosing = some p ∧ role = Membership.of n.kind ∧ m.kind.canEnclose n.kind = true := by
    intro role hmem
    obtain ⟨n', hn', hlink⟩ := hlinked.listed hp hmem
    rw [hc.unique hn']
    exact hlink
  have hmember : n.enclosing = some p → c ∈ m.members (Membership.of n.kind) := by
    intro henclosing
    obtain ⟨m', hm', hmem⟩ := hlinked.enclosed hc henclosing
    rw [hp.unique hm']
    exact hmem
  refine ⟨⟨fun henclosing => ?_, ?_⟩, fun henclosing => ⟨?_, fun role => ?_⟩⟩
  · have hmem := hmember henclosing
    cases hrole : Membership.of n.kind <;> rw [hrole] at hmem
    · exact .inl hmem
    · exact .inr (.inl hmem)
    · exact .inr (.inr hmem)
  · rintro (hmem | hmem | hmem)
    · exact (hlisted (show c ∈ m.members .enclosed from hmem)).1
    · exact (hlisted (show c ∈ m.members .typeParameter from hmem)).1
    · exact (hlisted (show c ∈ m.members .parameter from hmem)).1
  · exact (hlisted (hmember henclosing)).2.2
  · split
    · next hrole =>
      rw [hrole]
      exact List.count_eq_one_of_mem (hlinked.nodup _ hp) (hmember henclosing)
    · next hrole => exact List.count_eq_zero.2 fun hmem => hrole (hlisted hmem).2.1

/-- A class with a generic method. The type parameter is given to the method twice, first by a deferred
handle, and then refused to the class. -/
def genericMethod : List Operation :=
  [.newElement (.type .plain), .newElement (.executable .method), .newElement .typeParameter,
    .deferElement (.give ⟨2⟩), .attach .enclosed ⟨0⟩ ⟨1⟩, .attach .typeParameter ⟨1⟩ ⟨3⟩,
    .attach .typeParameter ⟨1⟩ ⟨2⟩, .attach .typeParameter ⟨0⟩ ⟨2⟩]

theorem enclosing_iff_listed_genericMethod :
    ∃ m n, (Store.after genericMethod).HasElement ⟨1⟩ m ∧
      (Store.after genericMethod).HasElement ⟨2⟩ n ∧ n.enclosing = some ⟨1⟩ ∧
      (n.enclosing = some ⟨1⟩ ↔ ⟨2⟩ ∈ m.enclosed ∨ ⟨2⟩ ∈ m.typeParameters ∨ ⟨2⟩ ∈ m.parameters) ∧
      (m.members .typeParameter).count ⟨2⟩ = 1 := by
  have hm : (Store.after genericMethod).HasElement ⟨1⟩
      { enclosing := some ⟨0⟩, detail := .executable .method { typeParameters := [⟨2⟩] } } := rfl
  have hn : (Store.after genericMethod).HasElement ⟨2⟩
      { enclosing := some ⟨1⟩, detail := .typeParameter } := rfl
  obtain ⟨hiff, hlisted⟩ := enclosing_iff_listed genericMethod hm hn
  exact ⟨_, _, hm, hn, rfl, hiff, (hlisted rfl).2 .typeParameter⟩

end Store

end JavaTypes
