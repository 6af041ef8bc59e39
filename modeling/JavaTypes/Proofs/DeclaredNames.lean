import JavaTypes.Declaration
import JavaTypes.Proofs.MemberLinks
import JavaTypes.Proofs.UntouchedNodes
import Mathlib.Data.List.Find

/-!
# The names of declared types

A type element is registered when it is declared, under the qualified name and in the module that it then
has. Declarations go on to extend the same packages and types, and may bring in the same name again. As
no declaration moves or renames what is there, whether it succeeds or fails, the registry stays what the
names of the declared types make of it.

* `Store.Builds base t`: what was there in `base` is in its place in `t`, and the same is registered;
* `Declaration.run`: the declarations that a client can make, and `Declaration.concludes`: how they end;
* `Store.IsCalled`: the names that an element has, over all modules or inside one;
* `Store.Lists s es`: the registry of `s` answers with the first of the types `es` that has a name;
* `DeclarationStep`: a call, or any change of types, after which `es` are the types declared so far;
* `typeElementIn_declared`: what is found by name in the course of a run.
-/

namespace JavaTypes

open Action

/-! ### Elements in their places -/

namespace ElementNode

variable {n n' n'' : ElementNode}

theorem SamePlace.trans (h : n.SamePlace n') (h' : n'.SamePlace n'') : n.SamePlace n'' :=
  ⟨h'.kind.trans h.kind, h'.name.trans h.name, h'.enclosing.trans h.enclosing⟩

theorem samePlace_addMember (n : ElementNode) (role : Membership) (c : ElementId) :
    n.SamePlace (n.addMember role c) := by
  refine ⟨kind_addMember n role c, ?_, enclosing_addMember n role c⟩
  unfold addMember
  split <;> rfl

/-- A module is not a member of anything. -/
def Outermost (n : ElementNode) : Prop :=
  n.kind = .module → n.enclosing = none

theorem Outermost.of_samePlace (h : n.Outermost) (hplace : n.SamePlace n') : n'.Outermost := fun hkind =>
  hplace.enclosing.trans (h (hplace.kind.symm.trans hkind))

end ElementNode

/-- No element is deferred, and modules are outermost. -/
structure Store.Concrete (s : Store) : Prop where
  node : ∀ {i : Nat} {slot}, s.elements[i]? = some slot → ∃ n, slot = .node n ∧ n.Outermost

/-- What `base` has is in its place, and the same is registered. -/
structure Store.Builds (base t : Store) : Prop where
  places : base.Places t
  concrete : t.Concrete
  registry : t.registry = base.registry

namespace Store

variable {base s t u : Store} {e p : ElementId} {n : ElementNode} {r : Option String} {q : String}

theorem places_refl (s : Store) : s.Places s :=
  ⟨fun h => ⟨_, h, rfl, rfl, rfl⟩, le_rfl⟩

theorem Places.trans (h : s.Places t) (h' : t.Places u) : s.Places u where
  peek hpeek := by
    obtain ⟨n', hpeek', hplace⟩ := h.peek hpeek
    obtain ⟨n'', hpeek'', hplace'⟩ := h'.peek hpeek'
    exact ⟨n'', hpeek'', hplace.trans hplace'⟩
  size_le := h.size_le.trans h'.size_le

theorem Concrete.peekElement (h : s.Concrete) :
    s.peekElement e = some (p, n) ↔ p = e ∧ s.HasElement e n := by
  constructor
  · intro hpeek
    cases hslot : s.elements[e.index]? with
    | none => simp [Store.peekElement, Slot.peek, hslot] at hpeek
    | some slot =>
      obtain ⟨m, rfl, -⟩ := h.node hslot
      cases (Slot.peek_node hslot _).symm.trans hpeek
      exact ⟨rfl, hslot⟩
  · rintro ⟨rfl, he⟩
    exact Slot.peek_node he _

theorem Concrete.outermost (h : s.Concrete) (he : s.HasElement e n) : n.Outermost := by
  obtain ⟨_, ⟨⟩, houter⟩ := h.node he
  exact houter

theorem Concrete.viewElement (h : s.Concrete) (e : ElementId) :
    (∃ n, s.HasElement e n ∧ JavaTypes.viewElement e s = (.ok (e, n), s)) ∨
      ∃ f, JavaTypes.viewElement e s = (.error f, s) := by
  cases hslot : s.elements[e.index]? with
  | none => exact .inr ⟨_, Shelf.follow_of_stop _ (by rw [Shelf.stop?, Shelf.elements, hslot]) _⟩
  | some slot =>
    obtain ⟨n, rfl, -⟩ := h.node hslot
    exact .inl ⟨n, hslot, viewElement_node hslot⟩

namespace Builds

theorem refl (h : base.Concrete) : base.Builds base :=
  ⟨base.places_refl, h, rfl⟩

/-- Whatever happens to types. -/
theorem of_elements (h : base.Builds s) (helements : t.elements = s.elements)
    (hregistry : t.registry = s.registry) : base.Builds t where
  places := by
    refine ⟨fun hpeek => ?_, helements ▸ h.places.size_le⟩
    unfold Store.peekElement
    rw [helements]
    exact h.places.peek hpeek
  concrete := ⟨by rw [helements]; exact h.concrete.node⟩
  registry := hregistry.trans h.registry

theorem push (h : base.Builds s) (hn : n.Outermost) :
    base.Builds { s with elements := s.elements.push (.node n) } := by
  have hconcrete : Concrete { s with elements := s.elements.push (.node n) } := ⟨fun hi => by
    rw [Array.getElem?_push] at hi
    split at hi
    · cases hi
      exact ⟨n, rfl, hn⟩
    · exact h.concrete.node hi⟩
  refine ⟨⟨fun hpeek => ?_, h.places.size_le.trans (by simp)⟩, hconcrete, h.registry⟩
  obtain ⟨m, hm, hplace⟩ := h.places.peek hpeek
  obtain ⟨rfl, hm⟩ := h.concrete.peekElement.1 hm
  exact ⟨m, hconcrete.peekElement.2 ⟨rfl, Slot.get_push hm _⟩, hplace⟩

/-- An element gets another node, in the same place if it is not new. -/
theorem setNode (h : base.Builds s) (hn : n.Outermost)
    (hold : ∀ {m}, base.HasElement e m → m.SamePlace n) : base.Builds (s.setElementNode e n) := by
  have hconcrete : (s.setElementNode e n).Concrete := ⟨fun hi => by
    rw [setElementNode, Array.getElem?_setIfInBounds] at hi
    split at hi
    · split at hi
      · cases hi
        exact ⟨n, rfl, hn⟩
      · cases hi
    · exact h.concrete.node hi⟩
  refine ⟨⟨fun {e' p m} hpeek => ?_, ?_⟩, hconcrete, h.registry⟩
  · obtain ⟨m', hm', hplace⟩ := h.places.peek hpeek
    obtain ⟨rfl, hm'⟩ := h.concrete.peekElement.1 hm'
    by_cases hpe : e = p
    · subst hpe
      exact ⟨n, hconcrete.peekElement.2 ⟨rfl, Slot.get_set hm' _⟩, hold (Slot.slot_of_peek hpeek)⟩
    · refine ⟨m', hconcrete.peekElement.2 ⟨rfl, ?_⟩, hplace⟩
      rw [HasElement, setElementNode,
        Array.getElem?_setIfInBounds_ne fun hi => hpe (congrArg ElementId.mk hi)]
      exact hm'
  · rw [setElementNode, Array.size_setIfInBounds]
    exact h.places.size_le

theorem setNew (h : base.Builds s) (hn : n.Outermost) (he : base.elements.size ≤ e.index) :
    base.Builds (s.setElementNode e n) :=
  h.setNode hn fun hold => absurd (Array.getElem?_eq_some_iff.1 hold).1 (Nat.not_lt.2 he)

/-- An element that was there gets another node. -/
theorem refill {m : ElementNode} (h : base.Builds s) (he : s.HasElement e m) (hplace : m.SamePlace n) :
    base.Builds (s.setElementNode e n) := by
  refine h.setNode ((h.concrete.outermost he).of_samePlace hplace) fun hold => ?_
  obtain ⟨m', hm', hplace'⟩ := h.places.peek (Slot.peek_node hold _)
  cases he.symm.trans (Slot.slot_of_peek hm')
  exact hplace'.trans hplace

end Builds

/-- New elements are filled in. Questions complete types, which may make elements. -/
theorem fillable_builds (base : Store) : Fillable base.Builds (fun _ => True)
    (base.elements.size ≤ ·.index) ElementNode.Outermost := by
  have hrespected : Respected (fun _ _ => True) fun s t => base.Builds s → base.Builds t :=
    { refl := fun _ => id
      trans := fun h h' hs => h' (h hs)
      makeShape := fun _ hs => makeShape_induction (hs.of_elements rfl rfl)
        fun _ ht _ _ => ht.of_elements rfl rfl
      makeElement := fun _ _ hs => hs.push fun _ => rfl
      types := fun _ h _ hs => (h (hs.of_elements rfl rfl)).of_elements rfl rfl
      elements := fun hk _ _ hs => by
        obtain ⟨n, hn, -⟩ := hs.concrete.node hk
        cases hn }
  have hviewType (t : TypeId) (s : Store) := respects_viewType (t := t) (s := s) hrespected
    fun _ _ => trivial
  refine
    { leads := fun hleads hs => ?_
      viewType := fun {t} _ s hs => ⟨hviewType t s hs, fun _ _ => trivial⟩
      viewElement := fun {e} he s hs => ?_
      setTypeNode := fun _ _ hs => hs.of_elements rfl rfl
      setElementNode := fun he hn hs => hs.setNew hn he
      makeType := fun n s hs => ⟨hs.of_elements rfl rfl, fun _ _ => trivial⟩
      newElement := fun k s hs => ⟨hs.push fun _ => rfl, by rintro e ⟨⟩; exact hs.places.size_le⟩
      congr := fun hkind henclosing hn hmodule => henclosing.trans (hn (hkind.symm.trans hmodule)) }
  · induction hleads with
    | refl => exact hs
    | tail _ hstep ih =>
      rcases hstep with ⟨t, rfl⟩ | ⟨e, rfl⟩
      · exact hviewType t _ ih
      · exact respects_viewElement hrespected (fun _ _ => trivial) ih
  · rcases hs.concrete.viewElement e with ⟨n, hn, hview⟩ | ⟨f, hview⟩
    · exact maintained_of_ok hview hs ⟨he, hs.concrete.outermost hn⟩
    · exact maintained_of_error hview hs

end Store

/-! ### Declarations -/

section Declarations

variable {base s t : Store} {parent child e : ElementId} {α : Type}

theorem maintains_attach (role : Membership) (parent : ElementId)
    (hchild : base.elements.size ≤ child.index) :
    Maintains base.Builds (attach role parent child) fun _ => True := by
  refine fun s hs => ⟨?_, fun _ _ => trivial⟩
  unfold attach
  rcases hs.concrete.viewElement parent with ⟨m, hm, hview⟩ | ⟨f, hview⟩
  · rw [bind_of_ok hview]
    rcases hs.concrete.viewElement child with ⟨n, hn, hview⟩ | ⟨f, hview⟩
    · dsimp only
      rw [bind_of_ok hview]
      dsimp only
      split
      · exact hs
      · next hrole =>
        obtain rfl := not_not.1 hrole
        cases hset : n.enclosedBy parent m.kind with
        | error f => exact hs
        | ok n' =>
          have hdone := attach_of_enclosedBy hm hn hset
          obtain ⟨hcan, enclosing', rfl, -⟩ := ElementNode.of_enclosedBy hset
          have houter : ElementNode.Outermost { n with enclosing := enclosing' } := fun hkind => by
            rw [show n.kind = .module from hkind] at hcan
            cases hcan
          refine (congrArg (fun y => base.Builds y.2) hdone).mpr ?_
          exact (hs.setNew houter hchild).refill (Store.slot_setElementNode hm hn _)
            (ElementNode.samePlace_addMember _ _ child)
    · dsimp only
      rw [bind_of_error hview]
      exact hs
  · rw [bind_of_error hview]
    exact hs

variable (base)

theorem maintains_declareTypeParameter (parent : ElementId) (name : String) :
    Maintains base.Builds (declareTypeParameter parent name) fun _ => True := by
  have hI := Store.fillable_builds base
  refine (hI.newNamedElement _ _).bind fun e he => (hI.makeType _).bind fun v _ => ?_
  refine (hI.setElementType he trivial).bind fun _ _ => (maintains_attach _ _ he).bind fun _ _ => ?_
  refine (hI.finds fun _ => Build.finds_of_settles).bind fun n _ => ?_
  split
  · exact (hI.editType trivial _).bind fun _ _ => maintains_pure trivial
  · exact maintains_pure trivial

theorem maintains_declareTypeParameters (parent : ElementId) :
    ∀ names, Maintains base.Builds (declareTypeParameters parent names) fun _ => True
  | [] => maintains_pure trivial
  | name :: names => (maintains_declareTypeParameter base parent name).bind fun _ _ =>
      (maintains_declareTypeParameters parent names).bind fun _ _ => maintains_pure trivial

theorem maintains_declareParameters (parent : ElementId) (executable : TypeId) :
    ∀ ps, Maintains base.Builds (declareParameters parent executable ps) fun _ => True
  | [] => maintains_pure trivial
  | (_, _) :: ps => by
      have hI := Store.fillable_builds base
      exact (hI.newNamedElement _ _).bind fun e he => (hI.setElementType he trivial).bind fun _ _ =>
        (maintains_attach _ _ he).bind fun _ _ => (hI.editType trivial _).bind fun _ _ =>
          maintains_declareParameters parent executable ps

theorem maintains_declareMethod (parent : ElementId) (name : String) (result : TypeId)
    (ps : List (String × TypeId)) :
    Maintains base.Builds (declareMethod parent name result ps) fun _ => True := by
  have hI := Store.fillable_builds base
  refine (hI.newNamedElement _ _).bind fun e he => (hI.editElement he _).bind fun _ _ => ?_
  refine (maintains_attach _ _ he).bind fun _ _ => (hI.makeType _).bind fun x _ => ?_
  refine (maintains_declareParameters base _ x ps).bind fun _ _ => ?_
  exact (hI.editType trivial _).bind fun _ _ => (hI.setElementType he trivial).bind fun _ _ =>
    maintains_pure trivial

variable {base}

/-- Nothing is completed to read an element. -/
theorem Store.Concrete.reads (h : s.Concrete) (e : ElementId)
    (f : Store → ElementNode → Except Fault α) :
    let x : Build α := do let n ← elementNode e; let s ← get; Action.ofExcept (f s n)
    (∃ a, Known x s a) ∨ ∃ fault, x s = (.error fault, s) := by
  intro x
  rcases h.viewElement e with ⟨n, hn, -⟩ | ⟨fault, hview⟩
  · have hx : x s = (f s n, s) := bind_of_ok (elementNode_of_slot hn)
    cases hf : f s n with
    | ok a => exact .inl ⟨a, hx.trans (by rw [hf])⟩
    | error fault => exact .inr ⟨fault, hx.trans (by rw [hf])⟩
  · have hread : elementNode e s = (.error fault, s) := bind_of_error hview
    exact .inr ⟨fault, bind_of_error hread⟩

theorem register_cases (h : s.Concrete) (e : ElementId) :
    (∃ fault, register e s = (.error fault, s)) ∨
      ∃ q module?, Known (qualifiedName e) s q ∧ Known (moduleOf e) s module? ∧
        register e s = (.ok (), { s with registry := s.registry.register module? q e }) := by
  rcases h.reads e Store.qualifiedNameOf with ⟨q, hq⟩ | ⟨fault, hq⟩
  · rcases h.reads e fun s n => s.moduleWithin (s.elements.size + 1) n with ⟨m, hm⟩ | ⟨fault, hm⟩
    · exact .inr ⟨q, m, hq, hm, (bind_of_ok hq).trans (bind_of_ok hm)⟩
    · exact .inl ⟨fault, (bind_of_ok hq).trans (bind_of_error hm)⟩
  · exact .inl ⟨fault, bind_of_error hq⟩

end Declarations

/-! ### Names that stay -/

namespace Store

variable {base s t : Store} {e : ElementId} {n : ElementNode} {r : Option String} {q : String}

theorem Places.moduleWithin (h : s.Places t) : ∀ {fuel fuel' : Nat} (_ : fuel ≤ fuel')
    {n n' : ElementNode}, n.SamePlace n' → s.moduleWithin fuel n = .ok r →
      t.moduleWithin fuel' n' = .ok r
  | 0, _, _, _, _, _, hr => by cases hr
  | fuel + 1, 0, hf, _, _, _, _ => by cases hf
  | fuel + 1, fuel' + 1, hf, n, n', hplace, hr => by
      unfold Store.moduleWithin at hr ⊢
      rw [hplace.enclosing]
      cases henclosing : n.enclosing with
      | none => rwa [henclosing] at hr
      | some p =>
        simp only [henclosing] at hr ⊢
        cases hpeek : s.peekElement p with
        | none =>
          rw [hpeek] at hr
          cases hr
        | some found =>
          obtain ⟨k', hpeek', hk⟩ := h.peek hpeek
          simp only [hpeek, hpeek', ElementNode.simpleName, hk.kind, hk.name] at hr ⊢
          by_cases hmodule : found.2.kind = .module
          · rwa [if_pos hmodule] at hr ⊢
          · rw [if_neg hmodule] at hr ⊢
            exact h.moduleWithin (Nat.le_of_succ_le_succ hf) hk hr

theorem Places.known (h : s.Places t) (hq : Known (qualifiedName e) s q) :
    Known (qualifiedName e) t q := by
  obtain ⟨p, n, hpeek, hq⟩ := known_qualifiedName.1 hq
  obtain ⟨n', hpeek, hplace⟩ := h.peek hpeek
  exact known_qualifiedName.2 ⟨p, n', hpeek, h.qualifiedNameOf hplace hq⟩

theorem Places.known_moduleOf (h : s.Places t) (hr : Known (moduleOf e) s r) :
    Known (moduleOf e) t r := by
  obtain ⟨p, n, hpeek, hr⟩ := known_ofNode.1 hr
  obtain ⟨n', hpeek, hplace⟩ := h.peek hpeek
  exact known_ofNode.2 ⟨p, n', hpeek, h.moduleWithin (Nat.succ_le_succ h.size_le) hplace hr⟩

end Store

/-! ### How declarations end -/

/-- A declaration that a client makes. -/
inductive Declaration
  | module (name : String)
  | package (module? : Option ElementId) (name : String)
  | type (kind : ElementKind) (enclosing : ElementId) (name : String) (typeParameters : List String)
  | interface (enclosing : ElementId) (name : String) (typeParameters : List String)
  | typeParameter (generic : ElementId) (name : String)
  | method (owner : ElementId) (name : String) (result : TypeId) (parameters : List (String × TypeId))
  | field (owner : ElementId) (name : String) (type : TypeId)
  | recordComponent (fuel : Nat) (record : ElementId) (name : String) (type : TypeId)

/-- Make the declaration. The answer is the element of a type that is declared. -/
def Declaration.run : Declaration → Build (Option ElementId)
  | module name => do
      let _ ← declareModule name
      return none
  | package m name => do
      let _ ← declarePackage m name
      return none
  | type k e name ps => do
      let c ← declareType k e name ps
      return some c
  | interface e name ps => do
      let c ← declareInterface e name ps
      return some c
  | typeParameter e name => do
      let _ ← declareTypeParameter e name
      return none
  | method e name result ps => do
      let _ ← declareMethod e name result ps
      return none
  | field e name t => do
      let _ ← declareField e name t
      return none
  | recordComponent fuel e name t => do
      let _ ← declareRecordComponent fuel e name t
      return none

namespace Store

/-- A type element is registered under its name and in its module, as they are in the end. -/
def Registers (base : Store) (e : ElementId) (t : Store) : Prop :=
  ∃ q module?, Known (qualifiedName e) t q ∧ Known (moduleOf e) t module? ∧ base.Places t ∧
    t.Concrete ∧ t.registry = base.registry.register module? q e

/-- How the declaration of a type ends. -/
def ConcludesType (base : Store) : Except Fault ElementId × Store → Prop
  | (.ok e, t) => base.Registers e t
  | (.error _, t) => base.Builds t

/-- How a declaration ends: the type element that it answers with is registered, or nothing is. -/
def Concludes (base : Store) : Except Fault (Option ElementId) × Store → Prop
  | (.ok (some e), t) => base.Registers e t
  | (_, t) => base.Builds t

end Store

section Concludes

variable {base s : Store} {e : ElementId}

theorem concludesType_declareType (k : ElementKind) (name : String) (ps : List String)
    (hbase : base.Concrete) : base.ConcludesType (declareType k e name ps base) := by
  have hI := Store.fillable_builds base
  have herror : ∀ {f : Fault} {s}, base.Builds s → base.ConcludesType (.error f, s) := id
  unfold declareType
  split
  · exact .refl hbase
  refine (hI.newNamedElement _ _).ends herror (fun c hc => ?_) base (.refl hbase)
  refine (hI.editElement hc _).ends herror fun _ _ => ?_
  refine (maintains_attach _ _ hc).ends herror fun _ _ => ?_
  refine (hI.finds fun _ => Build.finds_of_settles).ends herror fun outer _ => ?_
  refine (hI.editElement hc _).ends herror fun _ _ => ?_
  refine (maintains_declareTypeParameters base _ ps).ends herror fun vars _ => ?_
  have hrest (outer : Option TypeId) : ∀ s, base.Builds s → base.ConcludesType ((do
      let t ← declaredType outer c vars
      setElementType c t
      register c
      return c) s) := by
    refine (hI.makeShape _).ends herror fun t _ => (hI.setElementType hc trivial).ends herror ?_
    intro _ _ s hs
    rcases register_cases hs.concrete c with ⟨f, hregister⟩ | ⟨q, m, hq, hm, hregister⟩
    · rw [bind_of_error hregister]
      exact hs
    · rw [bind_of_ok hregister]
      have hplaces : s.Places { s with registry := s.registry.register m q c } := ⟨s.places_refl.peek, le_rfl⟩
      exact ⟨q, m, hplaces.known hq, hplaces.known_moduleOf hm, hs.places.trans hplaces,
        ⟨hs.concrete.node⟩, by rw [hs.registry]⟩
  split
  · exact (hI.finds fun _ => Build.finds_of_settles).ends herror fun outer _ => hrest outer
  · exact hrest none

/-- An interface is registered before it is marked. -/
theorem concludesType_declareInterface (name : String) (ps : List String) (hbase : base.Concrete) :
    base.ConcludesType (declareInterface e name ps base) := by
  have hconcludes := concludesType_declareType (e := e) (.type .interface) name ps hbase
  unfold declareInterface
  cases htype : declareType (.type .interface) e name ps base with
  | mk r s =>
    rw [htype] at hconcludes
    cases r with
    | error f =>
      rw [bind_of_error htype]
      exact hconcludes
    | ok c =>
      obtain ⟨q, module?, hname, hmodule, hplaces, hconcrete, hregistry⟩ := hconcludes
      obtain ⟨p, n, hpeek, -⟩ := known_qualifiedName.1 hname
      obtain ⟨rfl, hn⟩ := hconcrete.peekElement.1 hpeek
      rw [bind_of_ok htype]
      have hedit : editElement p (.modifier .abstract) s = (.ok (), _) :=
        bind_of_ok (viewElement_node hn)
      rw [bind_of_ok hedit]
      have hmarked := (Store.Builds.refl hconcrete).refill hn (n := if n.modifiers.contains .abstract
        then n else { n with modifiers := n.modifiers ++ [.abstract] }) (by
          split <;> exact ⟨rfl, rfl, rfl⟩)
      exact ⟨q, module?, hmarked.places.known hname, hmarked.places.known_moduleOf hmodule,
        hplaces.trans hmarked.places, hmarked.concrete, hregistry⟩

theorem concludes_some {x : Build ElementId} (h : base.ConcludesType (x base)) :
    base.Concludes ((do let c ← x; return some c) base) := by
  rw [bind_apply]
  cases hx : x base with
  | mk r t =>
    rw [hx] at h
    cases r <;> exact h

theorem concludes_none {α : Type} {x : Build α} {P : α → Prop} (h : Maintains base.Builds x P)
    (hbase : base.Concrete) : base.Concludes ((do let _ ← x; return none) base) :=
  h.ends id (fun _ _ _ hs => hs) base (.refl hbase)

theorem Declaration.concludes (d : Declaration) (hbase : base.Concrete) : base.Concludes (d.run base) := by
  have hI := Store.fillable_builds base
  cases d with
  | module name =>
    exact concludes_none ((hI.newNamedElement _ _).bind fun e he => (hI.setElementType he trivial).bind
      fun _ _ => maintains_pure (P := fun _ => True) trivial) hbase
  | package m name =>
    refine concludes_none (P := fun _ => True) ((hI.newNamedElement _ _).bind fun e he =>
      (hI.setElementType he trivial).bind fun _ _ => ?_) hbase
    cases m with
    | none => exact maintains_pure trivial
    | some m => exact (maintains_attach _ _ he).bind fun _ _ => maintains_pure trivial
  | type k e name ps => exact concludes_some (concludesType_declareType k name ps hbase)
  | interface e name ps => exact concludes_some (concludesType_declareInterface name ps hbase)
  | typeParameter e name => exact concludes_none (maintains_declareTypeParameter base e name) hbase
  | method e name result ps => exact concludes_none (maintains_declareMethod base e name result ps) hbase
  | field e name t =>
    refine concludes_none (P := fun _ => True) ((hI.newNamedElement _ _).bind fun c hc =>
      (hI.editElement hc _).bind fun _ _ => ?_) hbase
    exact (hI.setElementType hc trivial).bind fun _ _ => (maintains_attach _ _ hc).bind fun _ _ =>
      maintains_pure trivial
  | recordComponent fuel e name t =>
    refine concludes_none (P := fun _ => True) ((hI.newNamedElement _ _).bind fun c hc =>
      (hI.setElementType hc trivial).bind fun _ _ => ?_) hbase
    exact (maintains_attach _ _ hc).bind fun _ _ =>
      (maintains_declareMethod base e name t []).bind fun method _ =>
        (hI.setAccessor fuel hc method).bind fun _ _ => maintains_pure trivial

end Concludes

/-! ### The registry -/

namespace Registry

theorem lookup_insertNew {κ : Type} [BEq κ] [LawfulBEq κ] [DecidableEq κ] (key key' : κ) (e : ElementId)
    (entries : List (κ × ElementId)) : (insertNew key' e entries).lookup key =
      (entries.lookup key).or (if key = key' then some e else none) := by
  unfold insertNew
  by_cases hkey : key = key'
  · subst hkey
    cases hlook : entries.lookup key <;> simp [hlook, List.lookup_append]
  · have hne : (key == key') = false := beq_false_of_ne hkey
    cases entries.lookup key' <;> simp [hkey, hne, List.lookup_append, List.lookup_cons]

/-- What was found before is found again. Otherwise the new element is, if it has the name. -/
theorem find?_register (r : Registry) (module? module?' : Option String) (q q' : String) (e : ElementId) :
    (r.register module?' q' e).find? module? q = (r.find? module? q).or
      (if q = q' ∧ ∀ m, module? = some m → module?' = some m then some e else none) := by
  cases module? with
  | none => simp [find?, register, lookup_insertNew]
  | some m =>
    cases module?' with
    | none => simp [find?, register]
    | some m' => simp [find?, register, lookup_insertNew, and_comm, eq_comm]

end Registry

/-! ### Modules and names -/

namespace Store

variable {s t : Store} {e : ElementId} {n : ElementNode} {r : Option String} {q : String}

/-- The first element is a member of the second. -/
def MemberOf (s : Store) (e p : ElementId) : Prop :=
  ∃ n, s.HasElement e n ∧ n.enclosing = some p

/-- From container to container a module with the name is reached. -/
def InModule (s : Store) (m : String) (e : ElementId) : Prop :=
  ∃ p n, Relation.TransGen s.MemberOf e p ∧ s.HasElement p n ∧ n.kind = .module ∧ n.simpleName = m

/-- The name of an element, over all modules or inside one. -/
def IsCalled (s : Store) (module? : Option String) (q : String) (e : ElementId) : Prop :=
  Known (qualifiedName e) s q ∧ ∀ m, module? = some m → s.InModule m e

theorem inModule_iff (he : s.HasElement e n) {m : String} : s.InModule m e ↔
    ∃ p, n.enclosing = some p ∧
      ((∃ k, s.HasElement p k ∧ k.kind = .module ∧ k.simpleName = m) ∨ s.InModule m p) := by
  constructor
  · rintro ⟨x, k, hchain, hx⟩
    obtain ⟨p, ⟨n', he', hp⟩, hrest⟩ := Relation.TransGen.head'_iff.1 hchain
    cases he.symm.trans he'
    rcases Relation.reflTransGen_iff_eq_or_transGen.1 hrest with rfl | hrest
    · exact ⟨x, hp, .inl ⟨k, hx⟩⟩
    · exact ⟨p, hp, .inr ⟨x, k, hrest, hx⟩⟩
  · rintro ⟨p, hp, ⟨k, hk⟩ | ⟨x, k, hchain, hx⟩⟩
    · exact ⟨p, k, .single ⟨n, he, hp⟩, hk⟩
    · exact ⟨x, k, .head ⟨n, he, hp⟩ hchain, hx⟩

/-- The module that the containers lead to is the innermost one, as modules have no container. -/
theorem Concrete.inModule_iff (hs : s.Concrete) (m : String) :
    ∀ {fuel : Nat} {e : ElementId} {n : ElementNode}, s.HasElement e n →
      s.moduleWithin fuel n = .ok r → (s.InModule m e ↔ r = some m)
  | 0, _, _, _, hr => by cases hr
  | fuel + 1, e, n, he, hr => by
      rw [Store.inModule_iff he]
      unfold moduleWithin at hr
      cases henclosing : n.enclosing with
      | none =>
        rw [henclosing] at hr
        cases hr
        simp
      | some p =>
        simp only [henclosing] at hr
        cases hpeek : s.peekElement p with
        | none =>
          rw [hpeek] at hr
          cases hr
        | some found =>
          obtain ⟨p', k⟩ := found
          obtain ⟨rfl, hk⟩ := hs.peekElement.1 hpeek
          have hnode {x} : s.HasElement p' x ↔ x = k := by rw [HasElement, hk]; simp [eq_comm]
          simp only [hpeek] at hr
          split at hr
          · next hmodule =>
            cases hr
            obtain ⟨_, ⟨⟩, houter⟩ := hs.node hk
            simp [hnode, hmodule, Store.inModule_iff hk, houter hmodule]
          · next hmodule => simp [hnode, hmodule, hs.inModule_iff m hk hr]

/-- What a type is called is decided when it is registered. -/
theorem isCalled_iff (hs : s.Concrete) (hq : Known (qualifiedName e) s q) (hr : Known (moduleOf e) s r)
    {module? : Option String} {q' : String} :
    s.IsCalled module? q' e ↔ q' = q ∧ ∀ m, module? = some m → r = some m := by
  obtain ⟨p, n, hpeek, hmodule⟩ := known_ofNode.1 hr
  obtain ⟨rfl, he⟩ := hs.peekElement.1 hpeek
  refine and_congr ⟨fun h => h.unique hq, fun h => h ▸ hq⟩ ?_
  exact forall_congr' fun m => imp_congr_right fun _ => hs.inModule_iff m he hmodule

/-! ### Runs -/

section Lists

variable {es : List ElementId}

open Classical in
/-- The registry answers with the first of the types that is called so. -/
structure Lists (s : Store) (es : List ElementId) : Prop where
  concrete : s.Concrete
  known : ∀ e ∈ es, ∃ q r, Known (qualifiedName e) s q ∧ Known (moduleOf e) s r
  find : ∀ module? q, s.registry.find? module? q = es.find? fun e => s.IsCalled module? q e

open Classical in
/-- The types are called what they were called. -/
theorem Lists.later (h : s.Lists es) (hplaces : s.Places t) (ht : t.Concrete) :
    (∀ e ∈ es, ∃ q r, Known (qualifiedName e) t q ∧ Known (moduleOf e) t r) ∧
      ∀ module? q, s.registry.find? module? q = es.find? fun e => t.IsCalled module? q e := by
  refine ⟨fun e he => ?_, fun module? q => (h.find module? q).trans (List.find?_congr fun e he => ?_)⟩
  all_goals obtain ⟨q, r, hq, hr⟩ := h.known e he
  · exact ⟨q, r, hplaces.known hq, hplaces.known_moduleOf hr⟩
  · simp only [isCalled_iff h.concrete hq hr,
      isCalled_iff ht (hplaces.known hq) (hplaces.known_moduleOf hr)]

theorem Lists.builds (h : s.Lists es) (ht : s.Builds t) : t.Lists es := by
  obtain ⟨hknown, hfind⟩ := h.later ht.places ht.concrete
  exact ⟨ht.concrete, hknown, fun module? q => by rw [ht.registry, hfind]⟩

/-- A type is declared. -/
theorem Lists.registers (h : s.Lists es) (ht : s.Registers e t) : t.Lists (es ++ [e]) := by
  obtain ⟨q, r, hq, hr, hplaces, hconcrete, hregistry⟩ := ht
  obtain ⟨hknown, hfind⟩ := h.later hplaces hconcrete
  refine ⟨hconcrete, List.forall_mem_append.2 ⟨hknown, List.forall_mem_singleton.2 ⟨q, r, hq, hr⟩⟩,
    fun module? q' => ?_⟩
  rw [hregistry, Registry.find?_register, hfind, List.find?_append, List.find?_singleton]
  simp only [isCalled_iff hconcrete hq hr, decide_eq_true_eq]

end Lists

end Store

/-- The store after a declaration, and the types declared so far. -/
def Declaration.step (d : Declaration) (x : Store × List ElementId) : Store × List ElementId :=
  match d.run x.1 with
  | (.ok (some e), t) => (t, x.2 ++ [e])
  | (_, t) => (t, x.2)

/-- A declaration is made, or types change in whatever way. -/
inductive DeclarationStep : Store × List ElementId → Store × List ElementId → Prop
  | declare (d : Declaration) (x : Store × List ElementId) : DeclarationStep x (d.step x)
  | types {s t : Store} (es : List ElementId) (helements : t.elements = s.elements)
      (hregistry : t.registry = s.registry) : DeclarationStep (s, es) (t, es)

/-- Any number of declarations and changes of types. -/
abbrev DeclarationRun : Store × List ElementId → Store × List ElementId → Prop :=
  Relation.ReflTransGen DeclarationStep

theorem declarationRun_foldl (ds : List Declaration) (x : Store × List ElementId) :
    DeclarationRun x (ds.foldl (fun x d => d.step x) x) := by
  induction ds generalizing x with
  | nil => exact .refl
  | cons d ds ih => exact .head (.declare d x) (ih _)

section Runs

variable {x y : Store × List ElementId}

theorem DeclarationStep.lists (h : DeclarationStep x y) (hx : x.1.Lists x.2) :
    y.1.Lists y.2 ∧ x.1.Places y.1 ∧ x.2 <+: y.2 := by
  have hplain {t} (h : x.1.Builds t) : t.Lists x.2 ∧ x.1.Places t ∧ x.2 <+: x.2 :=
    ⟨hx.builds h, h.places, List.prefix_rfl⟩
  cases h with
  | declare d =>
    have hconcludes := d.concludes hx.concrete
    unfold Declaration.step
    cases hrun : d.run x.1 with
    | mk r t =>
      rw [hrun] at hconcludes
      rcases r with _ | _ | e
      · exact hplain hconcludes
      · exact hplain hconcludes
      · have hregisters : x.1.Registers e t := hconcludes
        obtain ⟨-, -, -, -, hplaces, -⟩ := id hregisters
        exact ⟨hx.registers hregisters, hplaces, List.prefix_append _ [e]⟩
  | types es helements hregistry =>
    exact hplain ((Store.Builds.refl hx.concrete).of_elements helements hregistry)

theorem DeclarationRun.lists (h : DeclarationRun x y) (hx : x.1.Lists x.2) :
    y.1.Lists y.2 ∧ x.1.Places y.1 ∧ x.2 <+: y.2 := by
  induction h with
  | refl => exact ⟨hx, Store.places_refl _, List.prefix_rfl⟩
  | tail _ hstep ih =>
    obtain ⟨hlists, hplaces, hprefix⟩ := hstep.lists ih.1
    exact ⟨hlists, ih.2.1.trans hplaces, ih.2.2.trans hprefix⟩

theorem Store.lists_empty : Store.empty.Lists [] where
  concrete := ⟨nofun⟩
  known := nofun
  find module? q := by cases module? <;> rfl

theorem typeElementIn_apply (module? : Option String) (q : String) (S : Session) :
    typeElementIn module? q S =
      (.ok (if q ∈ S.hooks.hidden then none else S.store.registry.find? module? q), S) := by
  show (if S.hooks.hidden.contains q = true then _ else _ : Query (Option ElementId)) S = _
  simp only [List.contains_iff_mem]
  split <;> rfl

open Classical in
/-- In the course of a run, the element that is found by a qualified name is the first of the types declared
so far that is called so; inside a module, the first of those whose containers lead to a module with
that name. Every declared type has a qualified name. Names stay, and so does what is found. -/
theorem typeElementIn_declared (hx : DeclarationRun (Store.empty, []) x) (hy : DeclarationRun x y) :
    (∀ (S : Session) module? q, S.store = x.1 → q ∉ S.hooks.hidden →
      typeElementIn module? q S = (.ok (x.2.find? fun e => x.1.IsCalled module? q e), S)) ∧
    (∀ e ∈ x.2, ∃ q, qualifiedName e x.1 = (.ok q, x.1)) ∧
    (∀ e q, qualifiedName e x.1 = (.ok q, x.1) → qualifiedName e y.1 = (.ok q, y.1)) ∧
    ∀ (S T : Session) module? q e, S.store = x.1 → T.store = y.1 → q ∉ T.hooks.hidden →
      typeElementIn module? q S = (.ok (some e), S) → typeElementIn module? q T = (.ok (some e), T) := by
  have hlists : x.1.Lists x.2 := (hx.lists Store.lists_empty).1
  obtain ⟨hlater, hplaces, hprefix⟩ := hy.lists hlists
  refine ⟨fun S module? q hS hq => ?_, fun e he => ?_, fun e q => hplaces.known, ?_⟩
  · rw [typeElementIn_apply, if_neg hq, hS, hlists.find]
  · obtain ⟨q, -, hq, -⟩ := hlists.known e he
    exact ⟨q, hq⟩
  · intro S T module? q e hS hT hq hfound
    rw [typeElementIn_apply, hS] at hfound
    have hfound : x.1.registry.find? module? q = some e := by
      split at hfound
      · cases hfound
      · exact Except.ok.inj (Prod.mk.inj hfound).1
    rw [(hlists.later hplaces hlater.concrete).2] at hfound
    rw [typeElementIn_apply, if_neg hq, hT, hlater.find, hprefix.find?_eq_some hfound]

/-- The type `B` of the package `a.A`, where `A` is also a class of the package `a` in the module `m`. -/
def packageMember : Store × List ElementId :=
  List.foldl (fun x (d : Declaration) => d.step x) (Store.empty, []) [.module "m",
    .package (some ⟨0⟩) "a", .type (.type .plain) ⟨1⟩ "A" [], .package none "a.A",
    .type (.type .plain) ⟨3⟩ "B" []]

/-- The same, and then a member `B` of the class `A`. -/
def classMember : Store × List ElementId :=
  (Declaration.type (.type .plain) ⟨2⟩ "B" []).step packageMember

theorem typeElementIn_declared_classMember :
    DeclarationRun (Store.empty, []) packageMember ∧ DeclarationRun packageMember classMember ∧
    typeElementIn none "a.A.B" { store := packageMember.1 } =
      (.ok (some ⟨4⟩), { store := packageMember.1 }) ∧
    typeElementIn none "a.A.B" { store := classMember.1 } =
      (.ok (some ⟨4⟩), { store := classMember.1 }) ∧
    typeElementIn (some "m") "a.A.B" { store := classMember.1 } =
      (.ok (some ⟨5⟩), { store := classMember.1 }) := by
  have hfound {x : Store × List ElementId} {m : Option String} {e : ElementId}
      (h : x.1.registry.find? m "a.A.B" = some e) :
      typeElementIn m "a.A.B" { store := x.1 } = (.ok (some e), { store := x.1 }) := by
    rw [typeElementIn_apply, if_neg nofun, h]
  -- The fixtures are only evaluated where names are looked up.
  have hstays {x y : Store × List ElementId} {e : ElementId} (hx : DeclarationRun (Store.empty, []) x)
      (hy : DeclarationRun x y)
      (h : typeElementIn none "a.A.B" { store := x.1 } = (.ok (some e), { store := x.1 })) :
      typeElementIn none "a.A.B" { store := y.1 } = (.ok (some e), { store := y.1 }) :=
    (typeElementIn_declared hx hy).2.2.2 _ _ none _ e rfl rfl nofun h
  have hx : DeclarationRun (Store.empty, []) packageMember := declarationRun_foldl _ _
  have hy : DeclarationRun packageMember classMember := .single (.declare _ _)
  have hfirst := hfound (x := packageMember) (e := ⟨4⟩) (m := none) (by decide +kernel)
  exact ⟨hx, hy, hfirst, hstays hx hy hfirst, hfound (by decide +kernel)⟩

end Runs

end JavaTypes
