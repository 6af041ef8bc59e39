import JavaTypes.Proofs.WellFormedStores

/-!
# Operations with completed handles

The tests of an operation look at the kind of a part only if the handle of the part is completed. A run
is careful if each operation gets completed handles only (`Store.isCareful`). After such a run every
node is as its kind asks for.

* `Build.Still s x`: the action `x` leaves the store `s` as it is. Questions about completed handles do,
  and so do comparisons in a well-formed store, where the handles of all parts are completed
  (`Equality.still_assuming`);
* `Operation.wellFormed_apply`: a careful operation keeps a store well-formed, whether it succeeds or
  fails;
* `Store.wellFormed_foldl`: so does a careful run.
-/

namespace JavaTypes

open Action

/-! ### Questions about completed handles -/

variable {e : ElementId} {n : ElementNode} {s : Store} {t : TypeId}

/-- The action leaves the store as it is. -/
def Build.Still {α : Type} (s : Store) (x : Build α) : Prop :=
  (x s).2 = s

namespace Build

variable {α β : Type} {s : Store} {x y : Build α} {r : α → β → Build Bool} {as : List α}
  {bs : List β}

theorem Still.bind {f : α → Build β} (hx : Still s x)
    (hf : ∀ a, x s = (.ok a, s) → Still s (f a)) : Still s (x >>= f) := by
  unfold Still at hx ⊢
  rw [bind_apply]
  cases hs : x s with
  | mk r s' =>
    rw [hs] at hx
    cases hx
    cases r with
    | ok a => exact hf a hs
    | error e => rfl

theorem still_pure (a : α) : Still s (pure a) := rfl

theorem Still.map (hx : Still s x) (f : α → β) : Still s (do return f (← x)) :=
  hx.bind fun a _ => still_pure (f a)

theorem Still.ite {c : Prop} [Decidable c] (hx : c → Still s x) (hy : Still s y) :
    Still s (if c then x else y) := by
  split
  · next hc => exact hx hc
  · exact hy

theorem Still.both {x y : Build Bool} (hx : Still s x) (hy : Still s y) : Still s (both x y) :=
  hx.bind fun _ _ => .ite (fun _ => hy) (still_pure false)

theorem still_allPairs (h : ∀ a ∈ as, ∀ b ∈ bs, Still s (r a b)) : Still s (allPairs r as bs) := by
  induction as generalizing bs with
  | nil => cases bs <;> exact still_pure _
  | cons a as ih =>
    cases bs with
    | nil => exact still_pure false
    | cons b bs =>
      refine (h a List.mem_cons_self b List.mem_cons_self).both (ih fun a' ha b' hb => ?_)
      exact h a' (List.mem_cons_of_mem a ha) b' (List.mem_cons_of_mem b hb)

theorem still_sameLists (h : ∀ a ∈ as, ∀ b ∈ bs, Still s (r a b)) : Still s (sameLists r as bs) :=
  .ite (fun _ => still_allPairs h) (still_pure false)

theorem still_sameOptions {a : Option α} {b : Option β}
    (h : ∀ x, a = some x → ∀ y, b = some y → Still s (r x y)) : Still s (sameOptions r a b) := by
  cases a with
  | none => cases b <;> exact still_pure _
  | some x =>
    cases b with
    | none => exact still_pure false
    | some y => exact h x rfl y rfl

theorem still_viewType (h : s.knowsType t = true) : Still s (viewType t) := by
  obtain ⟨u, n, ht⟩ := Store.knowsType_iff.1 h
  unfold Still
  rw [viewType_of_peekType ht]

theorem still_viewElement (h : s.knowsElement e = true) : Still s (viewElement e) := by
  obtain ⟨d, n, he⟩ := Store.knowsElement_iff.1 h
  unfold Still
  rw [viewElement_of_peekElement he]

end Build

open Build

theorem eq_some_of_getD {α : Type} {o : Option α} {a b : α} (h : b = o.getD a) :
    o = some b ∨ b = a := by
  cases o with
  | none => exact .inr h
  | some c => exact .inl (congrArg some h.symm)

/-- The types in the outline of a type are parts of it, or stand for a part that is not there. -/
theorem TypeNode.mem_outline {n : TypeNode} {ts : List TypeId}
    (hts : ts ∈ n.outline.types) (ht : t ∈ ts) :
    (∃ p ∈ n.shape.parts, p.type = t) ∨ t = TypeId.none ∨ t = TypeId.void := by
  obtain ⟨shape, annotations⟩ := n
  have hpart : ∀ (edit : TypeEdit) {p : TypePart}, edit ∈ shape.edits → edit.part? = some p →
      p.type = t → ∃ p ∈ shape.parts, p.type = t :=
    fun _ _ hmem hp heq => ⟨_, List.mem_filterMap.2 ⟨_, hmem, hp⟩, heq⟩
  cases shape with
  | array c =>
    obtain rfl := List.mem_singleton.1 hts
    have hc := Option.mem_toList.1 ht
    exact .inl (hpart (.component t) (by simp [TypeShape.edits, hc]) rfl rfl)
  | declared d =>
    rcases List.mem_pair.1 hts with rfl | rfl
    · rcases eq_some_of_getD (List.mem_singleton.1 ht) with henclosing | hnone
      · replace henclosing : d.enclosing = some t := henclosing
        exact .inl (hpart (.enclosing t) (by simp [TypeShape.edits, henclosing]) rfl rfl)
      · exact .inr (.inl hnone)
    · exact .inl (hpart (.argument t) (by simp [TypeShape.edits, ht]) rfl rfl)
  | executable x =>
    simp only [outline, List.mem_cons, List.not_mem_nil, or_false] at hts
    rcases hts with rfl | rfl | rfl | rfl | rfl
    · exact .inl (hpart (.parameter t) (by simp [TypeShape.edits, ht]) rfl rfl)
    · rcases eq_some_of_getD (List.mem_singleton.1 ht) with hreturn | hvoid
      · replace hreturn : x.returnType = some t := hreturn
        exact .inl (hpart (.returnType t) (by simp [TypeShape.edits, hreturn]) rfl rfl)
      · exact .inr (.inr hvoid)
    · rcases eq_some_of_getD (List.mem_singleton.1 ht) with hreceiver | hnone
      · replace hreceiver : x.receiver = some t := hreceiver
        exact .inl (hpart (.receiver t) (by simp [TypeShape.edits, hreceiver]) rfl rfl)
      · exact .inr (.inl hnone)
    · exact .inl (hpart (.thrown t) (by simp [TypeShape.edits, ht]) rfl rfl)
    · exact .inl (hpart (.typeVariable t) (by simp [TypeShape.edits, ht]) rfl rfl)
  | intersection bs =>
    obtain rfl := List.mem_singleton.1 hts
    exact .inl (hpart (.intersectionBound t) (by simp [TypeShape.edits, ht]) rfl rfl)
  | union bs =>
    obtain rfl := List.mem_singleton.1 hts
    exact .inl (hpart (.unionAlternative t) (by simp [TypeShape.edits, ht]) rfl rfl)
  | wildcard w =>
    rcases List.mem_pair.1 hts with rfl | rfl
    · have hw := Option.mem_toList.1 ht
      exact .inl (hpart (.extendsBound t) (by simp [TypeShape.edits, hw]) rfl rfl)
    · have hw := Option.mem_toList.1 ht
      exact .inl (hpart (.superBound t) (by simp [TypeShape.edits, hw]) rfl rfl)
  | _ => cases hts

theorem TypeNode.element_of_mem_outline {n : TypeNode}
    (he : some e ∈ n.outline.elements) : n.element = some e := by
  obtain ⟨shape, annotations⟩ := n
  cases shape with
  | declared | error | typeVar => exact (List.mem_singleton.1 he).symm
  | _ => cases he

/-- The parameters of a type are in its outline. -/
theorem TypeNode.parameters_mem_outline {n : TypeNode} (ht : t ∈ n.parameters) :
    n.parameters ∈ n.outline.types := by
  obtain ⟨shape, annotations⟩ := n
  cases shape with
  | executable x => exact List.mem_cons_self
  | _ => cases ht

/-- The return type of a type is in its outline. -/
theorem TypeNode.returnType_mem_outline {n : TypeNode} (ht : n.returnType = some t) :
    [t] ∈ n.outline.types := by
  obtain ⟨shape, annotations⟩ := n
  cases shape with
  | executable x =>
    have hreturn : returnOrVoid ⟨.executable x, annotations⟩ = t := by rw [returnOrVoid, ht]; rfl
    simp [outline, hreturn]
  | _ => cases ht

namespace Store.WellFormed

variable {s : Store}

variable {e : ElementId} {n : TypeNode} {t u : TypeId}

theorem sound_of_peekType (h : s.WellFormed) (ht : s.peekType t = some (u, n)) : n.Sound s u :=
  h.types (Slot.slot_of_peek ht)

theorem sound_of_peekElement (h : s.WellFormed) {d : ElementId} {n : ElementNode}
    (he : s.peekElement e = some (d, n)) : n.Sound s :=
  h.elements (Slot.slot_of_peek he)

/-- The types that are compared when a type is compared have completed handles. -/
theorem knowsType_of_mem_outline (h : s.WellFormed)
    (hn : n.Sound s t) {ts : List TypeId} (hts : ts ∈ n.outline.types) (hu : u ∈ ts) :
    s.knowsType u = true := by
  have hshared : ∀ {v : TypeId} {shape : TypeShape}, sharedShapes[v.index]? = some shape →
      s.knowsType v = true := by
    intro v shape hv
    exact knowsType_iff.2 ⟨v, _, Slot.peek_node (h.shared hv) _⟩
  rcases TypeNode.mem_outline hts hu with ⟨p, hp, rfl⟩ | rfl | rfl
  · obtain ⟨v, m, hv, -⟩ := hn.parts p hp
    exact knowsType_iff.2 ⟨v, m, hv⟩
  · exact hshared rfl
  · exact hshared rfl

theorem knowsElement_of_mem_outline (hn : n.Sound s t)
    (he : some e ∈ n.outline.elements) : s.knowsElement e = true := by
  obtain ⟨d, m, hd, -⟩ := hn.element e (TypeNode.element_of_mem_outline he)
  exact knowsElement_iff.2 ⟨d, m, hd⟩

end Store.WellFormed

theorem ElementNode.Sound.knowsType (hn : n.Sound s) (ht : n.type = some t) : s.knowsType t = true := by
  obtain ⟨u, m, hu, -⟩ := hn.parts _ (ElementNode.mem_typeParts.2 (.inl ⟨t, ht, rfl⟩))
  exact Store.knowsType_iff.2 ⟨u, m, hu⟩

theorem ElementNode.Sound.knowsElement (hn : n.Sound s)
    (he : n.enclosing = some e) : s.knowsElement e = true := by
  obtain ⟨d, m, hd⟩ := hn.enclosing e he
  exact Store.knowsElement_iff.2 ⟨d, m, hd⟩

/-- The node of the type of an element is read in the store as it is. -/
theorem ElementNode.Sound.exists_typeNode (h : s.WellFormed) (hn : n.Sound s) (ht : n.type = some t) :
    ∃ u m, typeNode t s = (.ok m, s) ∧ m.Sound s u := by
  obtain ⟨u, m, hu⟩ := Store.knowsType_iff.1 (hn.knowsType ht)
  exact ⟨u, m, bind_of_ok (viewType_of_peekType hu), h.sound_of_peekType hu⟩

/-- A new member is no part that is tested. -/
theorem ElementNode.Sound.addMember (hn : n.Sound s)
    (role : Membership) (child : ElementId) : (n.addMember role child).Sound s := by
  obtain ⟨name, type, modifiers, enclosing, enclosed, annotations, detail⟩ := n
  cases role <;> cases detail <;> exact ⟨hn.parts, hn.enclosing⟩

namespace Equality

variable {s : Store} {types : TypeId → TypeId → Build Bool}
  {elements : ElementId → ElementId → Build Bool}

theorem still_typeContents (h : s.WellFormed)
    (htypes : ∀ {a b}, s.knowsType a = true → s.knowsType b = true → Still s (types a b))
    (helements : ∀ {a b}, s.knowsElement a = true → s.knowsElement b = true → Still s (elements a b))
    {t u : TypeId} {m n : TypeNode} (hm : m.Sound s t) (hn : n.Sound s u) :
    Still s (typeContents ⟨false⟩ types elements m n) := by
  refine (still_pure true).both ?_
  rw [sameTypeParts_eq]
  refine .ite (fun _ => .both ?_ ?_) (still_pure false)
  · refine still_allPairs fun a ha b hb => still_sameOptions fun x hx y hy => ?_
    rw [hx] at ha
    rw [hy] at hb
    exact helements (Store.WellFormed.knowsElement_of_mem_outline hm ha)
      (Store.WellFormed.knowsElement_of_mem_outline hn hb)
  · refine still_allPairs fun as has bs hbs => still_sameLists fun a ha b hb => ?_
    exact htypes (h.knowsType_of_mem_outline hm has ha) (h.knowsType_of_mem_outline hn hbs hb)

/-- The parameter types of an element are found in the store as it is, and their handles are
completed. -/
theorem exists_signature (h : s.WellFormed) (hn : n.Sound s) :
    ∃ signed, signature n s = (.ok signed, s) ∧ ∀ ts, signed = some ts →
      ∀ t ∈ ts, s.knowsType t = true := by
  unfold signature
  cases ht : n.type with
  | none =>
    refine ⟨none, rfl, fun ts hts => ?_⟩
    cases hts
  | some t =>
    obtain ⟨u, m, hnode, hm⟩ := hn.exists_typeNode h ht
    have hread : parameterTypes t s = (.ok m.parameters, s) := bind_of_ok hnode
    refine ⟨some m.parameters, bind_of_ok hread, fun ts hts v hv => ?_⟩
    cases hts
    exact h.knowsType_of_mem_outline hm (TypeNode.parameters_mem_outline hv) hv

theorem still_elementContents (h : s.WellFormed)
    (htypes : ∀ {a b}, s.knowsType a = true → s.knowsType b = true → Still s (types a b))
    (helements : ∀ {a b}, s.knowsElement a = true → s.knowsElement b = true → Still s (elements a b))
    {m n : ElementNode} (hm : m.Sound s) (hn : n.Sound s) :
    Still s (elementContents ⟨false⟩ types elements m n) := by
  have henclosing : Still s (sameOptions elements m.enclosing n.enclosing) :=
    still_sameOptions fun _ hx _ hy => helements (hm.knowsElement hx) (hn.knowsElement hy)
  refine (still_pure true).both ?_
  unfold sameElementParts
  cases m.kind with
  | package => exact still_pure true
  | module => exact still_pure true
  | executable k =>
    -- Only here is a part read that another node has: the parameters stand in the type of the method.
    obtain ⟨as, has, hknown⟩ := exists_signature h hm
    obtain ⟨bs, hbs, hknown'⟩ := exists_signature h hn
    refine henclosing.both ?_
    unfold Still
    rw [bind_of_ok has, bind_of_ok hbs]
    exact still_sameOptions fun ts hts us hus => still_sameLists fun a ha b hb =>
      htypes (hknown ts hts a ha) (hknown' us hus b hb)
  | _ => exact henclosing

/-- Types and elements with completed handles are compared in the store as it is. -/
theorem still_assuming (h : s.WellFormed) (fuel : Nat) :
    (∀ (assumed : List (ElementId × ElementId)) {a b : TypeId}, s.knowsType a = true →
      s.knowsType b = true → Still s (typesAssuming ⟨false⟩ fuel assumed a b)) ∧
    ∀ (assumed : List (ElementId × ElementId)) {a b : ElementId}, s.knowsElement a = true →
      s.knowsElement b = true → Still s (elementsAssuming ⟨false⟩ fuel assumed a b) := by
  induction fuel with
  | zero =>
    refine ⟨fun _ _ _ _ _ => ?_, fun _ _ _ _ _ => ?_⟩
    · rw [typesAssuming]
      rfl
    · rw [elementsAssuming]
      rfl
  | succ fuel ih =>
    obtain ⟨htypes, helements⟩ := ih
    refine ⟨fun assumed a b ha hb => ?_, fun assumed a b ha hb => ?_⟩
    · rw [typesAssuming_succ]
      refine (still_viewType ha).bind fun x hx => (still_viewType hb).bind fun y hy => ?_
      refine .ite (fun _ => still_pure true) (.ite (fun _ => still_pure false) ?_)
      exact still_typeContents h (htypes assumed) (helements assumed)
        (h.sound_of_peekType (peekType_of_viewType hx)) (h.sound_of_peekType (peekType_of_viewType hy))
    · rw [elementsAssuming_succ]
      refine (still_viewElement ha).bind fun x hx => (still_viewElement hb).bind fun y hy => ?_
      refine .ite (fun _ => still_pure true) (.ite (fun _ => still_pure false)
        (.ite (fun _ => still_pure true) ?_))
      exact still_elementContents h (htypes _) (helements _)
        (h.sound_of_peekElement (peekElement_of_viewElement hx))
        (h.sound_of_peekElement (peekElement_of_viewElement hy))

end Equality

/-! ### The accessor of a record component -/

/-- The return type of a method is found in the store as it is, and its handle is completed. -/
theorem exists_statedReturnType (h : s.WellFormed) (hn : n.Sound s) :
    ∃ stated, statedReturnType n s = (.ok stated, s) ∧ ∀ t, stated = some t →
      s.knowsType t = true := by
  unfold statedReturnType
  cases ht : n.type with
  | none =>
    refine ⟨none, rfl, fun t hstated => ?_⟩
    cases hstated
  | some t =>
    obtain ⟨u, m, hnode, hm⟩ := hn.exists_typeNode h ht
    refine ⟨m.returnType, bind_of_ok hnode, fun v hv => ?_⟩
    exact h.knowsType_of_mem_outline hm (TypeNode.returnType_mem_outline hv)
      (List.mem_singleton_self v)

theorem still_checkAccessor (h : s.WellFormed) (fuel : Nat)
    {component method : ElementNode} (hc : component.Sound s) (hm : method.Sound s) :
    Still s (checkAccessor fuel component method) := by
  have hreturns : Still s (returnsComponentType fuel component method) := by
    obtain ⟨stated, hstated, hknown⟩ := exists_statedReturnType h hm
    unfold Still returnsComponentType
    rw [bind_of_ok hstated]
    cases hexpected : component.type with
    | none => rfl
    | some expected =>
      cases stated with
      | none => rfl
      | some actual =>
        exact (Equality.still_assuming h fuel).1 [] (hc.knowsType hexpected) (hknown actual rfl)
  have howner : Still s (sameOwner component method) := by
    unfold sameOwner
    split
    · next record owner hrecord howner =>
      exact ((still_viewElement (hc.knowsElement hrecord)).map Prod.fst).bind fun _ _ =>
        ((still_viewElement (hm.knowsElement howner)).map Prod.fst).bind fun _ _ => still_pure _
    · exact still_pure true
  have hrefuse : ∀ (c : Bool) (f : Fault), Still s (onlyIf c (throw f) : Build Unit) := by
    intro c f
    cases c <;> rfl
  unfold checkAccessor
  split
  · rfl
  · exact hreturns.bind fun _ _ => (hrefuse _ _).bind fun _ _ => howner.bind fun _ _ => hrefuse _ _

namespace Store.WellFormed

variable {s : Store} {component accessor p c parent child : ElementId}

/-- A question that leaves the store as it is, and then something else. -/
theorem bind_of_still (h : s.WellFormed) {α β : Type} {x : Build α} {f : α → Build β}
    (hx : Still s x) (hf : ∀ {a}, x s = (.ok a, s) → (f a s).2.WellFormed) :
    ((x >>= f) s).2.WellFormed := by
  refine bind (hx.symm ▸ h) fun {a s'} hs _ => ?_
  unfold Still at hx
  rw [hs] at hx
  cases hx
  exact hf hs

theorem setAccessor (h : s.WellFormed) (fuel : Nat)
    (hc : s.knowsElement component = true) (ha : s.knowsElement accessor = true) :
    (setAccessor fuel component accessor s).2.WellFormed := by
  refine h.bind_of_still (still_viewElement hc) fun {x} hx => ?_
  obtain ⟨e, n⟩ := x
  have he := peekElement_of_viewElement hx
  have hn := h.sound_of_peekElement he
  cases hdetail : n.detail with
  | recordComponent old =>
    simp only [hdetail]
    refine h.bind_of_still ((still_viewElement ha).map Prod.snd) fun {method} hmethod => ?_
    obtain ⟨x, s', hview, hread⟩ := bind_eq_ok hmethod
    cases hread
    have hm := h.sound_of_peekElement (peekElement_of_viewElement hview)
    refine h.bind_of_still (still_checkAccessor h fuel hn hm) fun _ => ?_
    refine h.bind_of_still rfl fun {new} hset => ?_
    have hset' : setOnce "accessor" old accessor = .ok new := congrArg Prod.fst hset
    have hchange := Change.setAccessor (Slot.slot_of_peek he) hdetail hset'
    refine h.setElement (extends_of_change hchange) rfl rfl fun m hm => ?_
    cases hm
    -- The accessor is no type, so the parts are those that the component had.
    obtain ⟨name, type, modifiers, enclosing, enclosed, annotations, detail⟩ := n
    cases hdetail
    exact ⟨hn.parts, hn.enclosing⟩
  | _ =>
    simp only [hdetail]
    exact h

/-! ### Other operations -/

theorem editType (h : s.WellFormed) {edit : TypeEdit} (ht : s.knowsType t = true)
    (hknown : edit.isKnown s = true) : (editType t edit s).2.WellFormed := by
  refine h.bind_of_still (still_viewType ht) fun {x} hx => ?_
  have hslot := Slot.slot_of_peek (peekType_of_viewType hx)
  exact bind (h.editTypeNode hslot hknown) fun _ h' => h'

theorem editElement (h : s.WellFormed) {edit : ElementEdit}
    (he : s.knowsElement e = true) (hknown : edit.isKnown s = true) :
    (editElement e edit s).2.WellFormed := by
  refine h.bind_of_still rfl fun {s'} hget => h.bind_of_still rfl fun hadmissible => ?_
  cases hget
  refine h.bind_of_still (still_viewElement he) fun {x} hx => h.bind_of_still rfl fun {n'} hn' => ?_
  have hslot := Slot.slot_of_peek (peekElement_of_viewElement hx)
  have hedit : edit.applyTo x.2 = .ok n' := congrArg Prod.fst hn'
  refine h.setElement (extends_of_change (.editElement hslot hedit)) rfl rfl fun m hm => ?_
  cases hm
  exact (h.elements hslot).applyTo (congrArg Prod.fst hadmissible) hknown hedit

theorem newNamedElement (h : s.WellFormed) (k : ElementKind) (name : String) :
    (newNamedElement k name s).2.WellFormed := by
  refine bind (h.newElement k) fun {e s'} hs h' => bind ?_ fun _ hnamed => hnamed
  cases hs
  have hmade : HasElement (JavaTypes.newElement k s).2 ⟨s.elements.size⟩
      { detail := ElementDetail.blank k } := Array.getElem?_push_size
  exact h'.editElement (knowsElement_iff.2 ⟨_, _, Slot.peek_node hmade _⟩) rfl

/-- An element becomes a member of another: both ends of the link are written, and no type is given to
either. -/
theorem withMember (h : s.WellFormed) {m n n' : ElementNode}
    (hp : s.HasElement p m) (hc : s.HasElement c n) (hset : n.enclosedBy p m.kind = .ok n') :
    (s.withMember (Membership.of n.kind) p c m n').WellFormed := by
  obtain ⟨-, enclosing', rfl, hset'⟩ := ElementNode.of_enclosedBy hset
  have hn := h.elements hc
  have hchild : ElementNode.Sound s { n with enclosing := enclosing' } := by
    refine ⟨hn.parts, fun e he => ?_⟩
    obtain ⟨rfl, -⟩ := eq_some_of_setOnce hset'
    cases he
    exact ⟨p, m, Slot.peek_node hp _⟩
  -- An element can be made a member of itself; its node is then the one just written.
  have hparent : ElementNode.Sound s (if p = c then { n with enclosing := enclosing' } else m) := by
    split
    · exact hchild
    · exact h.elements hp
  refine h.of_extends (extends_of_change (.attach hp hc hset)) h.types (fun {e x} hx => ?_) fun _ => rfl
  rcases Slot.node_of_set hx with hx | ⟨-, hx⟩
  · rcases Slot.node_of_set hx with hx | ⟨-, hx⟩
    · exact h.elements hx
    · cases hx
      exact hchild
  · cases hx
    exact hparent.addMember _ c

theorem attach (h : s.WellFormed) (role : Membership)
    (hp : s.knowsElement parent = true) (hc : s.knowsElement child = true) :
    (attach role parent child s).2.WellFormed := by
  refine h.bind_of_still (still_viewElement hp) fun {x} hx => ?_
  refine h.bind_of_still (still_viewElement hc) fun {y} hy => ?_
  obtain ⟨p, m⟩ := x
  obtain ⟨c, n⟩ := y
  have hm := Slot.slot_of_peek (peekElement_of_viewElement hx)
  have hn := Slot.slot_of_peek (peekElement_of_viewElement hy)
  dsimp only
  split
  · exact h
  · next hrole =>
    obtain rfl := not_not.1 hrole
    refine h.bind_of_still rfl fun {n'} hset => ?_
    have hset' : n.enclosedBy p m.kind = .ok n' := congrArg Prod.fst hset
    rw [attach_of_enclosedBy hm hn hset']
    exact h.withMember hm hn hset'

/-- A type is linked to the element that it is the type of. -/
theorem linkDefiningElement (h : s.WellFormed)
    (ht : s.knowsType t = true) (he : s.knowsElement e = true) :
    (linkDefiningElement t e s).2.WellFormed := by
  refine h.bind_of_still (still_viewType ht) fun {x} hx => ?_
  obtain ⟨owner, shape, annotations⟩ := x
  have hslot := Slot.slot_of_peek (peekType_of_viewType hx)
  cases shape with
  | declared d => exact h.editType ht he
  | typeVar v => exact h.editType ht he
  | error element =>
    -- An error type has no annotations, so with the link it is as it could have been made.
    refine h.bind_of_still rfl fun {element'} hset => ?_
    have hset' : setOnce "element" element e = .ok element' := congrArg Prod.fst hset
    obtain ⟨rfl, -⟩ := eq_some_of_setOnce hset'
    obtain ⟨hannotations, -⟩ := (h.types hslot).error rfl
    cases hannotations
    have hext : TypeNode.Extends { shape := .error element } { shape := .error (some e) } :=
      ⟨.error (staysSet_of_setOnce hset'), List.prefix_refl _⟩
    refine h.setType (extends_setTypeNode hslot hext) rfl rfl
      (h.length_le_of_node hslot (.inr rfl)) fun n hn => ?_
    cases hn
    refine TypeNode.sound_error owner fun d hd => ?_
    cases hd
    exact he
  | _ => exact h

/-- What the tests have found when an element with a completed handle can be given a type with a
completed handle. -/
theorem of_checkElementType {e d : ElementId} {m : ElementNode}
    (he : s.peekElement e = some (d, m)) (ht : s.knowsType t = true) :
    Still s (checkElementType e t) ∧ ∀ {x}, checkElementType e t s = (.ok x, s) →
      x = (d, { m with type := some t }) ∧ setOnce "type" m.type t = .ok (some t) ∧
        TypePart.Sound s none ⟨t, m.kind.admitsType, false⟩ := by
  have hlink : ∀ c, Still s (onlyIf c (checkDefiningElement t d)) := by
    intro c
    cases c with
    | true => exact (still_viewType ht).bind fun _ _ => .bind rfl fun _ _ => rfl
    | false => rfl
  refine ⟨?_, fun {x} hx => ?_⟩
  · refine (still_viewElement (knowsElement_iff.2 ⟨d, m, he⟩)).bind fun found hfound => ?_
    cases hfound.symm.trans (viewElement_of_peekElement he)
    exact .bind rfl fun _ _ => .bind rfl fun _ _ => (hlink _).bind fun _ _ => .bind rfl fun _ _ => rfl
  · unfold checkElementType at hx
    rw [bind_of_ok (viewElement_of_peekElement he)] at hx
    obtain ⟨s₁, s₂, hget, hx⟩ := bind_eq_ok hx
    cases hget
    obtain ⟨⟨⟩, s₃, hadmit, hx⟩ := bind_eq_ok hx
    obtain ⟨⟨⟩, s₄, -, hx⟩ := bind_eq_ok hx
    obtain ⟨type', s₅, hset, hx⟩ := bind_eq_ok hx
    have hset' : setOnce "type" m.type t = .ok type' := congrArg Prod.fst hset
    obtain ⟨rfl, -⟩ := eq_some_of_setOnce hset'
    cases hx
    obtain ⟨u, n, hu⟩ := knowsType_iff.1 ht
    refine ⟨rfl, hset', u, n, hu, accepts_of_admitType (congrArg Prod.fst hadmit) hu, fun hapart => ?_⟩
    cases hapart

theorem setElementType (h : s.WellFormed)
    (he : s.knowsElement e = true) (ht : s.knowsType t = true) :
    (setElementType e t s).2.WellFormed := by
  obtain ⟨d, m, hd⟩ := knowsElement_iff.1 he
  obtain ⟨hstill, hfound⟩ := of_checkElementType hd ht
  refine h.bind_of_still hstill fun {x} hx => ?_
  obtain ⟨rfl, hset, hpart⟩ := hfound hx
  have hslot := Slot.slot_of_peek hd
  have hm := h.elements hslot
  have hext : s.Extends (s.setElementNode d { m with type := some t }) :=
    extends_setElementNode hslot
      { ElementNode.Extends.refl m with type := staysSet_of_setOnce hset }
  have hwritten : (s.setElementNode d { m with type := some t }).WellFormed := by
    refine h.setElement hext rfl rfl fun n hn => ?_
    cases hn
    refine ⟨fun p hp => ?_, hm.enclosing⟩
    rcases ElementNode.mem_typeParts.1 hp with ⟨v, hv, rfl⟩ | ⟨v, hv, rfl⟩
    · cases hv
      exact hpart
    · exact hm.parts _ (ElementNode.mem_typeParts.2 (.inr ⟨v, hv, rfl⟩))
  show (onlyIf m.kind.linksBack (JavaTypes.linkDefiningElement t d) _).2.WellFormed
  unfold onlyIf
  split
  · exact hwritten.linkDefiningElement (knowsType_extend hext ht)
      (knowsElement_extend hext (knowsElement_iff.2 ⟨d, m, Slot.peek_node hslot _⟩))
  · exact hwritten

end Store.WellFormed

/-! ### Careful runs -/

/-- The handles that an operation is given are completed in the store, and so are, where the operation
completes a handle, those of the types that are made on the way. -/
def Operation.isCareful (s : Store) : Operation → Bool
  | newErrorType element => element.all s.knowsElement
  | makeShape shape => shape.isKnown s
  | editType t edit => s.knowsType t && edit.isKnown s
  | editElement e edit => s.knowsElement e && edit.isKnown s
  | attach _ parent child => s.knowsElement parent && s.knowsElement child
  | setElementType e t => s.knowsElement e && s.knowsType t
  | setAccessor _ component accessor => s.knowsElement component && s.knowsElement accessor
  | viewType t => (s.typeMakings t).all fun m => m.shape.isKnown m.store
  | viewElement e => (s.elementMakings e).all fun m => m.shape.isKnown m.store
  | newType _ | newElement _ | newNamedElement _ _ | deferType _ | deferElement _ | rename _ _ => true

/-- Each operation of a run is careful in the store in which it is called. -/
def Store.isCareful (s : Store) : List Operation → Bool
  | [] => true
  | op :: ops => op.isCareful s && (op.apply s).isCareful ops

/-- A careful operation keeps a store well-formed, whether it succeeds or fails. -/
theorem Operation.wellFormed_apply {op : Operation} (h : s.WellFormed)
    (hcareful : op.isCareful s = true) : (op.apply s).WellFormed := by
  cases op with
  | newType b =>
    refine h.pushType fun n hn => ?_
    cases hn
    have hblank : b.shape.blank = b.shape := by cases b <;> rfl
    exact hblank ▸ TypeNode.sound_blank s _ b.shape
  | newErrorType element =>
    refine h.pushType fun n hn => ?_
    cases hn
    refine TypeNode.sound_error _ fun e he => ?_
    cases he
    exact hcareful
  | makeShape shape => exact h.makeShape hcareful
  | editType t edit =>
    obtain ⟨ht, hknown⟩ := Bool.and_eq_true_iff.1 hcareful
    exact h.editType ht hknown
  | newElement k => exact h.newElement k
  | newNamedElement k name => exact h.newNamedElement k name
  | editElement e edit =>
    obtain ⟨he, hknown⟩ := Bool.and_eq_true_iff.1 hcareful
    exact h.editElement he hknown
  | attach role parent child =>
    obtain ⟨hp, hc⟩ := Bool.and_eq_true_iff.1 hcareful
    exact h.attach role hp hc
  | setElementType e t =>
    obtain ⟨he, ht⟩ := Bool.and_eq_true_iff.1 hcareful
    exact h.setElementType he ht
  | setAccessor fuel component accessor =>
    obtain ⟨hc, ha⟩ := Bool.and_eq_true_iff.1 hcareful
    exact h.setAccessor fuel hc ha
  | deferType supplier =>
    refine h.pushType fun n hn => ?_
    cases hn
  | deferElement supplier =>
    refine h.pushElement fun n hn => ?_
    cases hn
  | viewType t => exact h.viewType (List.all_eq_true.1 hcareful)
  | viewElement e => exact h.viewElement (List.all_eq_true.1 hcareful)
  | rename registry labels => exact h.names registry labels

theorem Store.wellFormed_foldl {ops : List Operation} (h : s.WellFormed)
    (hcareful : s.isCareful ops = true) : (ops.foldl Operation.apply s).WellFormed := by
  induction ops generalizing s with
  | nil => exact h
  | cons op ops ih =>
    obtain ⟨hop, hops⟩ := Bool.and_eq_true_iff.1 hcareful
    exact ih (Operation.wellFormed_apply h hop) hops

theorem Store.bare_sharedShapes : ∀ shape ∈ Store.sharedShapes,
    TypeNode.arguments { shape := shape } = [] ∧ TypeNode.bounds { shape := shape } = [] := by
  decide

/-- After a careful run every node is sound. The shared types have stayed without annotations,
arguments and bounds. -/
theorem Store.wellFormed_of_isCareful {ops : List Operation}
    (hcareful : Store.empty.isCareful ops = true) :
    (Store.after ops).WellFormed ∧
    ∀ i < Store.sharedShapes.length, ∃ n, (Store.after ops).types[i]? = some (.node n) ∧
      n.annotations = [] ∧ n.arguments = [] ∧ n.bounds = [] := by
  have h : (Store.after ops).WellFormed := Store.wellFormed_foldl Store.wellFormed_empty hcareful
  refine ⟨h, fun i hi => ?_⟩
  have hshape : Store.sharedShapes[i]? = some Store.sharedShapes[i] := List.getElem?_eq_getElem hi
  exact ⟨_, h.shared hshape, rfl, Store.bare_sharedShapes _ (List.getElem_mem hi)⟩

/-- A class and its type, a deferred handle whose supplier makes the array type over it, and a wildcard
bounded by the handle once it is completed. A second bound is refused. -/
def Operation.boundedByArray : List Operation :=
  [.newElement (.type .plain), .makeShape (.declared { element := some ⟨0⟩ }), .setElementType ⟨0⟩ ⟨14⟩,
    .deferType (.newArray ⟨14⟩ .ofExcept), .viewType ⟨15⟩, .makeShape (.wildcard { upper := some ⟨15⟩ }),
    .editType ⟨17⟩ (.superBound ⟨14⟩)]

theorem Store.wellFormed_of_isCareful_boundedByArray :
    Store.empty.isCareful Operation.boundedByArray = true ∧
    (Store.after Operation.boundedByArray).WellFormed ∧
    (Store.after Operation.boundedByArray).types[17]? =
      some (.node { shape := .wildcard { upper := some ⟨15⟩ } }) ∧
    (Store.after Operation.boundedByArray).peekTypeKind ⟨15⟩ = some .array := by
  have hcareful : Store.empty.isCareful Operation.boundedByArray = true := by decide
  exact ⟨hcareful, (Store.wellFormed_of_isCareful hcareful).1, rfl, rfl⟩

end JavaTypes
