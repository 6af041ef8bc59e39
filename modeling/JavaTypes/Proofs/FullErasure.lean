import JavaTypes.Proofs.ErasedSupertypes

/-!
# What is left after erasure

Erasure leaves nothing behind that says anything about type variables, and erasing again changes nothing.

* `Session.ErasesTo T t r`: erasure, rule by rule. A session knows what a type is erased to if and only if
  the rules say so (`erasesTo_iff`);
* `Session.FullyErased T e`: no argument, type variable, intersection or wildcard occurs in `e`;
* `Session.ErasesThrough T part t x`: erasing `t` goes on with its part `x`. `Session.Erasable T t` is
  what is asked of the types that are met on the way from `t`: they are of the kinds that their places
  admit, a declared type has an element, and a type that is marked as erased has no arguments;
* `erasure_fullyErased`: what a type is erased to is fully erased, and is its own erasure.
-/

namespace JavaTypes

open Action

/-- Whether erasure leaves the types of a shape as they are. -/
def TypeShape.outlastsErasure : TypeShape → Bool
  | primitive _ | noType _ | null | error _ | union _ | array none => true
  | _ => false

namespace Session

variable {S T V : Session} {d : ElementId} {b c c' e o r t u v w w' x y : TypeId} {m n : TypeNode}
  {bs : List TypeId} {fuel : Nat}

/-! ### The rules of erasure -/

/-- The rules of erasure. The signature of an executable type and the bound of a wildcard are erased by
the last one. -/
inductive ErasesTo (T : Session) : TypeId → TypeId → Prop
  | stays {t u : TypeId} {n : TypeNode} (ht : T.store.peekType t = some (u, n))
      (hn : n.shape.outlastsErasure = true) : ErasesTo T t u
  | marked {t u : TypeId} {n : TypeNode} (ht : T.store.peekType t = some (u, n))
      (hn : n.kind = .declared) (h : n.erased = true ∨ n.element = none) : ErasesTo T t u
  | inner {t u w w' r : TypeId} {m n : TypeNode} {d : ElementId} {plain : Bool}
      (ht : T.store.peekType t = some (u, n)) (hn : n.kind = .declared) (hfree : n.erased = false)
      (hd : n.element = some d) (hw : T.store.peekType n.enclosingOrNone = some (w, m))
      (hm : m.kind = .declared) (hw' : ErasesTo T w w') (hplain : Known (plainTest n d) T plain)
      (hr : Known (if plain = true ∧ w' = w then pure u else rawIn w' d) T r) : ErasesTo T t r
  | outer {t u w r : TypeId} {m n : TypeNode} {d : ElementId} {plain : Bool}
      (ht : T.store.peekType t = some (u, n)) (hn : n.kind = .declared) (hfree : n.erased = false)
      (hd : n.element = some d) (hw : T.store.peekType n.enclosingOrNone = some (w, m))
      (hm : m.kind ≠ .declared) (hplain : Known (plainTest n d) T plain)
      (hr : Known (if plain = true then pure u else rawIn w d) T r) : ErasesTo T t r
  | array {t u c v c' r : TypeId} {m n : TypeNode} (ht : T.store.peekType t = some (u, n))
      (hn : n.shape = .array (some c)) (hc : T.store.peekType c = some (v, m))
      (hc' : ErasesTo T c c')
      (hr : Known (if c' = v then pure u else deriveArray c') T r) : ErasesTo T t r
  | typeVar {t u b r : TypeId} {n : TypeNode} {x : TypeVariable}
      (ht : T.store.peekType t = some (u, n)) (hn : n.shape = .typeVar x)
      (hb : Known (upperBound u) T b) (hr : ErasesTo T b r) : ErasesTo T t r
  | first {t u b r : TypeId} {n : TypeNode} {bs : List TypeId}
      (ht : T.store.peekType t = some (u, n)) (hn : n.shape = .intersection (b :: bs))
      (hr : ErasesTo T b r) : ErasesTo T t r
  | unbounded {t u r : TypeId} {n : TypeNode} (ht : T.store.peekType t = some (u, n))
      (hn : n.shape = .intersection []) (hr : Known objectType T r) : ErasesTo T t r
  | other {t u r : TypeId} {n : TypeNode} (ht : T.store.peekType t = some (u, n))
      (hn : n.kind = .executable ∨ n.kind = .wildcard) (hr : T.Erases t r) : ErasesTo T t r

theorem erasesTo_of_known_eraseDeclared (hc : ∀ {w w'}, Known (erase fuel w) T w' → T.ErasesTo w w')
    (ht : T.Shows t u n) (hn : n.kind = .declared)
    (h : Known (eraseDeclared (erase fuel) u n) T r) : T.ErasesTo t r := by
  by_cases hstays : n.erased = true ∨ n.element = none
  · obtain rfl := (erases_erased_iff ht hn hstays).1 ((erases_declared_iff ht hn).2 ⟨fuel, h⟩)
    exact .marked ht hn hstays
  · obtain ⟨herased, helement⟩ := not_or.1 hstays
    obtain ⟨d, hd⟩ := Option.ne_none_iff_exists'.1 helement
    have hfree := Bool.eq_false_iff.2 herased
    obtain ⟨w, m, w', plain, hw, hw', hplain, h⟩ := cases_of_known_eraseDeclared hfree hd h
    split at hw'
    · next hm => exact .inner ht hn hfree hd hw hm (hc hw') hplain h
    · next hm =>
      obtain rfl := known_pure.1 hw'
      simp only [and_true] at h
      exact .outer ht hn hfree hd hw hm hplain h

theorem erasesTo_of_known_erase : ∀ {fuel : Nat} {t r : TypeId}, Known (erase fuel t) T r →
    T.ErasesTo t r
  | 0, _, _, h => by cases h
  | fuel + 1, t, r, h => by
      obtain ⟨_, u, n, ⟨⟩, ht, hnode⟩ := node_of_known_erase h
      unfold eraseNode at hnode
      cases hn : n.shape with
      | declared x =>
        rw [hn] at hnode
        exact erasesTo_of_known_eraseDeclared erasesTo_of_known_erase ht (congrArg TypeShape.kind hn)
          hnode
      | array component =>
        rw [hn] at hnode
        cases component with
        | none =>
          obtain rfl := known_pure.1 hnode
          exact .stays ht (by rw [hn]; rfl)
        | some c =>
          obtain ⟨c', hc', hnode⟩ := known_bind.1 hnode
          obtain ⟨v, hv, hnode⟩ := known_bind.1 hnode
          obtain ⟨m, hc⟩ := known_resolveType.1 (known_onStore.1 hv)
          exact .array ht hn hc (erasesTo_of_known_erase hc') hnode
      | typeVar x =>
        rw [hn] at hnode
        obtain ⟨b, hb, hnode⟩ := known_bind.1 hnode
        exact .typeVar ht hn hb (erasesTo_of_known_erase hnode)
      | intersection bounds =>
        rw [hn] at hnode
        cases bounds with
        | nil => exact .unbounded ht hn hnode
        | cons b bs => exact .first ht hn (erasesTo_of_known_erase hnode)
      | wildcard x => exact .other ht (.inr (congrArg TypeShape.kind hn)) ⟨_, h⟩
      | executable x => exact .other ht (.inl (congrArg TypeShape.kind hn)) ⟨_, h⟩
      | primitive _ | noType _ | null | error _ | union _ =>
        rw [hn] at hnode
        obtain rfl := known_pure.1 hnode
        exact .stays ht (by rw [hn]; rfl)

theorem ErasesTo.erases (h : T.ErasesTo t r) : T.Erases t r := by
  induction h with
  | @stays t u n ht hn =>
    refine ⟨1, (known_onStore.2 (known_viewType.2 ht)).bind ?_⟩
    dsimp only
    cases hshape : n.shape with
    | primitive _ | noType _ | null | error _ | union _ => rfl
    | array component =>
      rw [hshape] at hn
      cases component with
      | none => rfl
      | some c => cases hn
    | declared _ | executable _ | intersection _ | typeVar _ | wildcard _ =>
      rw [hshape] at hn
      cases hn
  | marked ht hn h => exact (erases_erased_iff ht hn h).2 rfl
  | inner ht hn hfree hd hw hm _ hplain hr ih =>
    exact (erases_element_iff ht hn hfree hd).2
      ⟨_, _, _, ⟨_, hw, by rw [if_pos hm]; exact ih⟩, hplain, hr⟩
  | outer ht hn hfree hd hw hm hplain hr =>
    refine (erases_element_iff ht hn hfree hd).2 ⟨_, _, _, ⟨_, hw, by rw [if_neg hm]⟩, hplain, ?_⟩
    simpa only [and_true] using hr
  | array ht hn hc _ hr ih =>
    obtain ⟨fuel, hc'⟩ := ih
    refine ⟨fuel + 1, (known_onStore.2 (known_viewType.2 ht)).bind ?_⟩
    dsimp only
    rw [hn]
    exact hc'.bind ((known_onStore.2 (known_resolveType.2 ⟨_, hc⟩)).bind hr)
  | typeVar ht hn hb _ ih =>
    obtain ⟨fuel, hr⟩ := ih
    refine ⟨fuel + 1, (known_onStore.2 (known_viewType.2 ht)).bind ?_⟩
    dsimp only
    rw [hn]
    exact hb.bind hr
  | first ht hn _ ih =>
    obtain ⟨fuel, hr⟩ := ih
    refine ⟨fuel + 1, (known_onStore.2 (known_viewType.2 ht)).bind ?_⟩
    dsimp only
    rw [hn]
    exact hr
  | unbounded ht hn hr =>
    refine ⟨1, (known_onStore.2 (known_viewType.2 ht)).bind ?_⟩
    dsimp only
    rw [hn]
    exact hr
  | other _ _ hr => exact hr

theorem erasesTo_iff : T.ErasesTo t r ↔ T.Erases t r :=
  ⟨ErasesTo.erases, fun ⟨_, h⟩ => erasesTo_of_known_erase h⟩

/-! ### Fully erased types -/

/-- A type is written inside another: as an argument, as the type around it, or as the component. -/
def Mentions (T : Session) (t x : TypeId) : Prop :=
  ∃ u n, T.store.peekType t = some (u, n) ∧
    (x ∈ n.arguments ∨ n.enclosing = some x ∨ n.component = some x)

/-- No argument, type variable, intersection or wildcard occurs in a type. -/
def FullyErased (T : Session) (e : TypeId) : Prop :=
  ∀ x v m, Relation.ReflTransGen T.Mentions e x → T.store.peekType x = some (v, m) →
    m.arguments = [] ∧ m.kind ≠ .typeVar ∧ m.kind ≠ .intersection ∧ m.kind ≠ .wildcard

theorem fullyErased_of_parts (ht : T.Shows t u n) (hnil : n.arguments = [])
    (hkind : n.kind ≠ .typeVar ∧ n.kind ≠ .intersection ∧ n.kind ≠ .wildcard)
    (henclosing : ∀ w, n.enclosing = some w → T.FullyErased w)
    (hcomponent : ∀ c, n.component = some c → T.FullyErased c) : T.FullyErased t := by
  intro x v m hx hv
  rcases hx.cases_head with rfl | ⟨y, ⟨u', n', ht', hy⟩, hx⟩
  · cases ht.symm.trans hv
    exact ⟨hnil, hkind⟩
  · cases ht.symm.trans ht'
    rcases hy with hy | hy | hy
    · rw [hnil] at hy
      cases hy
    · exact henclosing y hy x v m hx hv
    · exact hcomponent y hy x v m hx hv

/-- Handles of one node are fully erased together. -/
theorem FullyErased.of_peekType_eq (h : T.FullyErased x) (heq : T.store.peekType x = T.store.peekType y) :
    T.FullyErased y := by
  intro z v m hz hv
  rcases hz.cases_head with rfl | ⟨w, ⟨u, n, hy, hw⟩, hz⟩
  · exact h x v m .refl (heq.trans hv)
  · exact h z v m (.head ⟨u, n, heq.trans hy, hw⟩ hz) hv

theorem fullyErased_of_outlasts (ht : T.Shows t u n)
    (hn : n.shape.outlastsErasure = true) : T.FullyErased t := by
  obtain ⟨shape, as⟩ := n
  cases shape with
  | primitive _ | noType _ | null | error _ | union _ =>
    exact fullyErased_of_parts ht rfl (by simp [TypeNode.kind, TypeShape.kind]) (by rintro w ⟨⟩)
      (by rintro c ⟨⟩)
  | array component =>
    cases component with
    | none =>
      exact fullyErased_of_parts ht rfl (by simp [TypeNode.kind, TypeShape.kind]) (by rintro w ⟨⟩)
        (by rintro c ⟨⟩)
    | some c => cases hn
  | declared _ | executable _ | intersection _ | typeVar _ | wildcard _ => cases hn

/-- The chain of types around a type holds all that is written in it, if none of them has arguments. -/
theorem Bare.fullyErased (h : T.Bare t)
    (hkind : T.EachAround (fun _ m => m.kind.isDeclaredOrNone = true) t) : T.FullyErased t := by
  intro x v m hx hv
  have haround : ∃ y, Relation.ReflTransGen T.EnclosedBy t y ∧ T.Shows y v m := by
    induction hx generalizing v m with
    | refl => exact ⟨t, .refl, hv⟩
    | @tail x z _ hstep ih =>
      obtain ⟨u, n, hu, hz⟩ := hstep
      obtain ⟨y, hy, hyn⟩ := ih u n hu
      refine ⟨v, hy.tail ⟨u, n, m, hyn, ?_⟩, Store.peekType_self hv⟩
      rw [h y u n hy hyn] at hz
      rcases hz with hz | hz | hz
      · cases hz
      · rw [TypeNode.enclosingOrNone, hz]
        exact hv
      · obtain ⟨shape, as⟩ := n
        have hk := hkind y u _ hy hyn
        cases shape with
        | array c => cases hk
        | _ => cases hz
  obtain ⟨y, hy, hyn⟩ := haround
  refine ⟨h y v m hy hyn, ?_⟩
  rcases TypeKind.isDeclaredOrNone_iff.1 (hkind y v m hy hyn) with hk | hk | hk
  all_goals rw [hk]; decide

/-- A type in which nothing is left to erase. -/
structure Erased (T : Session) (e : TypeId) : Prop where
  full : T.FullyErased e
  self : ∃ v m, T.store.peekType e = some (v, m) ∧ m.kind.hasErasure = true ∧ T.Erases e v

/-! ### The types that erasure goes through -/

/-- The parts of a type that erasure goes on with. -/
inductive ErasedPart
  | enclosing
  | component
  | bound

/-- The kinds of types that can stand in the place of a part. -/
def ErasedPart.admits : ErasedPart → TypeKind → Bool
  | enclosing => TypeKind.isDeclaredOrNone
  | component => TypeKind.isComponent
  | bound => TypeKind.isNonNullReference

/-- Erasing a type goes on with one of its parts. -/
inductive ErasesThrough (T : Session) : ErasedPart → TypeId → TypeId → Prop
  | enclosing {t w : TypeId} (h : T.EnclosedBy t w) : ErasesThrough T .enclosing t w
  | component {t u c : TypeId} {n : TypeNode} (ht : T.store.peekType t = some (u, n))
      (hn : n.shape = .array (some c)) : ErasesThrough T .component t c
  | upper {t u b : TypeId} {n : TypeNode} {x : TypeVariable} (ht : T.store.peekType t = some (u, n))
      (hn : n.shape = .typeVar x) (hb : Known (upperBound u) T b) : ErasesThrough T .bound t b
  | first {t u b : TypeId} {n : TypeNode} {bs : List TypeId} (ht : T.store.peekType t = some (u, n))
      (hn : n.shape = .intersection (b :: bs)) : ErasesThrough T .bound t b

/-- Erasing a type goes on with another, through any number of parts. -/
def Meets (T : Session) : TypeId → TypeId → Prop :=
  Relation.ReflTransGen fun t x => ∃ part, T.ErasesThrough part t x

/-- The types that are met when a type is erased are of the kinds that their places admit, and a declared
one has an element. -/
structure MeetsPlaces (T : Session) (t : TypeId) : Prop where
  kinds : ∀ {x part y v m}, T.Meets t x → T.ErasesThrough part x y →
    T.store.peekType y = some (v, m) → part.admits m.kind = true
  elements : ∀ {x v m}, T.Meets t x → T.store.peekType x = some (v, m) → m.kind = .declared →
    m.element ≠ none

/-- What is asked of the types that are met when a type is erased. If one of them is an intersection of
no types, which is erased to the type that `Object` declares, then nothing is left to erase in that. -/
structure Erasable (T : Session) (t : TypeId) : Prop extends T.MeetsPlaces t where
  bare : ∀ {x v m}, T.Meets t x → T.store.peekType x = some (v, m) → m.erased = true → T.Bare x
  object : ∀ {x v m o}, T.Meets t x → T.store.peekType x = some (v, m) → m.shape = .intersection [] →
    Known objectType T o → T.Erased o

theorem Erasable.part {part : ErasedPart} (H : T.Erasable t) (h : T.ErasesThrough part t x) :
    T.Erasable x where
  kinds hy := H.kinds (.head ⟨part, h⟩ hy)
  elements hy := H.elements (.head ⟨part, h⟩ hy)
  bare hy := H.bare (.head ⟨part, h⟩ hy)
  object hy := H.object (.head ⟨part, h⟩ hy)

/-- The types around a declared type are of the kinds that can stand there. -/
theorem Erasable.eachAround (H : T.Erasable t) (ht : T.Shows t u n)
    (hn : n.kind = .declared) : T.EachAround (fun _ m => m.kind.isDeclaredOrNone = true) t := by
  intro w v m hw hv
  rcases hw.cases_tail with rfl | ⟨x, hx, hw⟩
  · cases ht.symm.trans hv
    rw [hn]
    rfl
  · have hmeets : T.Meets t x :=
      Relation.ReflTransGen.mono (fun _ _ h => ⟨.enclosing, .enclosing h⟩) t x hx
    exact H.kinds hmeets (.enclosing hw) hv

/-! ### What a type is erased to -/

theorem ErasedPart.hasErasure_or {part : ErasedPart} {k : TypeKind} (h : part.admits k = true) :
    k.hasErasure = true ∨ k = .intersection := by
  cases k with
  | intersection => exact .inr rfl
  | executable | wildcard | union => cases part <;> cases h
  | _ => exact .inl rfl

theorem erased_of_declared {plain : Bool} (hT : T.DerivesShapes) (h : T.Erases t r)
    (ht : T.Shows t u n) (hn : n.kind = .declared)
    (hw : T.Shows n.enclosingOrNone w m) (hw' : T.FullyErased w')
    (hplain : Known (plainTest n d) T plain)
    (hr : Known (if plain = true ∧ w' = w then pure u else rawIn w' d) T r) : T.Erased r := by
  split at hr
  · next hsame =>
    obtain ⟨rfl, rfl⟩ := hsame
    obtain rfl := known_pure.1 hr
    have hempty := (known_both_true.1 hplain).1
    obtain ⟨x, hx⟩ := TypeNode.shape_of_declared hn
    refine ⟨fullyErased_of_parts ht.self
      (List.isEmpty_iff.1 (known_pure.1 hempty).symm) (by rw [hn]; decide) (fun v hv => ?_)
      (fun c hc => ?_), r, n, ht.self, by rw [hn]; rfl, (erases_node_iff ht).2 h⟩
    · rw [TypeNode.enclosingOrNone, hv] at hw
      exact hw'.of_peekType_eq (hw.self.trans hw.symm)
    · rw [TypeNode.component, hx] at hc
      cases hc
  · obtain ⟨outer, e, x, houter, -, hr⟩ := known_rawIn.1 hr
    have hnode := hT _ r (lookup_of_derive hr) (by rintro ⟨⟩)
    refine ⟨fullyErased_of_parts hnode rfl (by simp [TypeNode.kind, TypeShape.kind]) (fun v hv => ?_)
      (by rintro c ⟨⟩), r, _, hnode, rfl,
      (erases_erased_iff hnode rfl (.inl rfl)).2 rfl⟩
    obtain ⟨_, _, _, rfl⟩ := known_unlessNone.1 houter
    split at hv
    · cases hv
    · cases hv
      exact hw'

theorem ErasesTo.erased (hT : T.DerivesShapes) (h : T.ErasesTo t r) (H : T.Erasable t)
    (hkind : ∀ u n, T.Shows t u n →
      n.kind.hasErasure = true ∨ n.kind = .intersection) : T.Erased r := by
  induction h with
  | @stays t u n ht hn =>
    have hu := Store.peekType_self ht
    have hnot : n.kind ≠ .intersection := by
      obtain ⟨shape, as⟩ := n
      rintro hk
      cases shape with
      | intersection bounds => cases hn
      | _ => cases hk
    exact ⟨fullyErased_of_outlasts hu hn, u, n, hu, (hkind u n ht).resolve_right hnot,
      (ErasesTo.stays hu hn).erases⟩
  | @marked t u n ht hn hstays =>
    have hu := Store.peekType_self ht
    have herased := hstays.resolve_right (H.elements .refl ht hn)
    have hfull := (H.bare .refl ht herased).fullyErased (H.eachAround ht hn)
    exact ⟨hfull.of_peekType_eq (ht.trans hu.symm), u, n, hu, by rw [hn]; rfl,
      (erases_erased_iff hu hn hstays).2 rfl⟩
  | inner ht hn hfree hd hw hm hw' hplain hr ih =>
    have hpart := ErasesThrough.enclosing ⟨_, _, _, ht, hw⟩
    have hw'' := ih (H.part hpart) fun v m' hv => by
      cases (Store.peekType_self hw).symm.trans hv
      exact .inl (by rw [hm]; rfl)
    exact erased_of_declared hT (ErasesTo.inner ht hn hfree hd hw hm hw' hplain hr).erases ht hn hw
      hw''.full hplain hr
  | @outer t u w r m n d plain ht hn hfree hd hw hm hplain hr =>
    have hself := Store.peekType_self hw
    have hadmits := H.kinds .refl (.enclosing ⟨_, _, _, ht, hw⟩) hself
    have hfull : T.FullyErased w := by
      refine fullyErased_of_outlasts hself ?_
      rcases TypeKind.isDeclaredOrNone_iff.1 hadmits with hk | hk | hk
      · exact absurd hk hm
      · obtain ⟨e, he⟩ := TypeNode.shape_of_error hk
        rw [he]
        rfl
      · rw [TypeNode.shape_of_noType hk]
        rfl
    exact erased_of_declared hT (ErasesTo.outer ht hn hfree hd hw hm hplain hr).erases ht hn hw hfull
      hplain (by simpa only [and_true] using hr)
  | @array t u c v c' r m n ht hn hc hc' hr ih =>
    have hpart := ErasesThrough.component ht hn
    obtain ⟨hfull, v', m', hv', -, herases⟩ := ih (H.part hpart) fun v m hv =>
      ErasedPart.hasErasure_or (H.kinds .refl hpart hv)
    have hself := (ErasesTo.array ht hn hc hc' hr).erases
    split at hr
    · next hsame =>
      subst hsame
      obtain rfl := known_pure.1 hr
      refine ⟨fullyErased_of_parts (Store.peekType_self ht) ?_ ?_ ?_ fun x hx => ?_, r, n,
        Store.peekType_self ht, by rw [TypeNode.kind, hn]; rfl, (erases_node_iff ht).2 hself⟩
      · rw [TypeNode.arguments, hn]
      · simp [TypeNode.kind, TypeShape.kind, hn]
      · intro w hw
        rw [TypeNode.enclosing, hn] at hw
        cases hw
      · rw [TypeNode.component, hn] at hx
        cases hx
        exact hfull.of_peekType_eq ((Store.peekType_self hc).trans hc.symm)
    · have hnode := hT _ r (lookup_of_derive hr) (by rintro ⟨⟩)
      refine ⟨fullyErased_of_parts hnode rfl (by simp [TypeNode.kind, TypeShape.kind])
        (by rintro w ⟨⟩) ?_, r, _, hnode, rfl,
        (ErasesTo.array hnode rfl hv' (erasesTo_iff.2 herases) ?_).erases⟩
      · rintro x ⟨⟩
        exact hfull
      · rw [if_pos rfl]
        rfl
  | typeVar ht hn hb _ ih =>
    have hpart := ErasesThrough.upper ht hn hb
    exact ih (H.part hpart) fun v m hv => ErasedPart.hasErasure_or (H.kinds .refl hpart hv)
  | first ht hn _ ih =>
    have hpart := ErasesThrough.first ht hn
    exact ih (H.part hpart) fun v m hv => ErasedPart.hasErasure_or (H.kinds .refl hpart hv)
  | unbounded ht hn hr => exact H.object .refl ht hn hr
  | other ht hn _ =>
    rcases hkind _ _ ht with hk | hk
    all_goals
      rcases hn with hn | hn
      all_goals rw [hn] at hk; cases hk

/-! ### Sessions in which a type can be erased -/

/-- The parts of a node that erasure goes on with, apart from the type around it. -/
def erasedParts (n : TypeNode) : List (ErasedPart × TypeId) :=
  match n.shape with
  | .array (some c) => [(.component, c)]
  | .typeVar x => x.upper.toList.map fun b => (.bound, b)
  | .intersection (b :: _) => [(.bound, b)]
  | _ => []

theorem ErasesThrough.mem_erasedParts {part : ErasedPart} (hpart : T.ErasesThrough part x y)
    (hx : T.Shows x v m) (hupper : m.kind = .typeVar → m.upperBound ≠ none) :
    part = .enclosing ∧ T.EnclosedBy x y ∨ (part, y) ∈ erasedParts m := by
  cases hpart with
  | enclosing h => exact .inl ⟨rfl, h⟩
  | component hu hshape | first hu hshape =>
    cases hx.symm.trans hu
    simp [erasedParts, hshape]
  | upper hu hshape hb =>
    cases hx.symm.trans hu
    rcases (known_upperBound hx.self).1 hb with hb | ⟨hnone, -⟩
    · rw [TypeNode.upperBound, hshape] at hb
      simp [erasedParts, hshape, hb]
    · exact absurd hnone (hupper (congrArg TypeShape.kind hshape))

/-- None of the types of a list is marked as erased or bounded by default, and a declared one has an
element. The list has the parts of its types, which are of the kinds that their places admit. -/
def listsErasable (S : Session) (ws : List TypeId) : Bool :=
  ws.all fun w => (S.store.peekType w).any fun x =>
    !x.2.erased && (x.2.element.isSome || x.2.kind != .declared) &&
      (x.2.upperBound.isSome || x.2.kind != .typeVar) && x.2.shape != .intersection [] &&
        ((S.store.peekType x.2.enclosingOrNone).any fun y =>
          decide (y.1 ∈ ws) && y.2.kind.isDeclaredOrNone) &&
          (erasedParts x.2).all fun p => decide (p.2 ∈ ws) &&
            (S.store.peekType p.2).any fun y => p.1.admits y.2.kind

section Lists

variable {ws : List TypeId} (h : S.listsErasable ws = true) (hle : S ≤ T)

include h hle

theorem node_of_listsErasable (hx : x ∈ ws) : ∃ v m, T.Shows x v m ∧ m.erased = false ∧
    (m.kind = .declared → m.element ≠ none) ∧ (m.kind = .typeVar → m.upperBound ≠ none) ∧
      m.shape ≠ .intersection [] ∧ (∃ w n, T.Shows m.enclosingOrNone w n ∧
        w ∈ ws ∧ n.kind.isDeclaredOrNone = true) ∧ ∀ part y, (part, y) ∈ erasedParts m → y ∈ ws ∧
            ∃ w n, T.Shows y w n ∧ part.admits n.kind = true := by
  have hx := List.all_eq_true.1 h x hx
  obtain ⟨⟨v, m⟩, hv, hx⟩ := (Option.any_eq_true _ _).1 hx
  simp only [Bool.and_eq_true, Bool.or_eq_true, Bool.not_eq_true', Option.any_eq_true,
    List.all_eq_true, decide_eq_true_eq, bne_iff_ne] at hx
  obtain ⟨⟨⟨⟨⟨hfree, helement⟩, hupper⟩, hsome⟩, ⟨⟨w, n⟩, hw, hmem, hn⟩⟩, hparts⟩ := hx
  refine ⟨v, m, peekType_mono hle.store hv, hfree, fun hk hnone => ?_, fun hk hnone => ?_, hsome,
    ⟨w, n, peekType_mono hle.store hw, hmem, hn⟩, fun part y hy => ?_⟩
  · simp [hk, hnone] at helement
  · simp [hk, hnone] at hupper
  · obtain ⟨hmem, ⟨w, n⟩, hw, hn⟩ := hparts (part, y) hy
    exact ⟨hmem, w, n, peekType_mono hle.store hw, hn⟩

/-- The parts of a type of the list are in the list. -/
theorem mem_of_erasesThrough {part : ErasedPart} (hx : x ∈ ws) (hpart : T.ErasesThrough part x y) :
    y ∈ ws ∧ ∃ w n, T.Shows y w n ∧ part.admits n.kind = true := by
  obtain ⟨v, m, hv, -, -, hupper, -, ⟨w, n, hw, hmem, hn⟩, hparts⟩ := node_of_listsErasable h hle hx
  rcases hpart.mem_erasedParts hv hupper with ⟨rfl, u', n', m', hu, hy⟩ | hpart
  · cases hv.symm.trans hu
    cases hw.symm.trans hy
    exact ⟨hmem, _, _, hw.self, hn⟩
  · exact hparts _ _ hpart

theorem mem_of_meets (ht : t ∈ ws) (hx : T.Meets t x) : x ∈ ws := by
  induction hx with
  | refl => exact ht
  | tail _ hpart ih => exact (mem_of_erasesThrough h hle ih hpart.choose_spec).1

theorem erasable_of_listsErasable (ht : t ∈ ws) : T.Erasable t := by
  refine ⟨⟨fun hx hpart hy => ?_, fun hx hv => ?_⟩, fun hx hv herased => ?_, fun hx hv hshape => ?_⟩
  · obtain ⟨-, w, n, hw, hn⟩ := mem_of_erasesThrough h hle (mem_of_meets h hle ht hx) hpart
    cases hw.symm.trans hy
    exact hn
  all_goals
    obtain ⟨v, m, hv', hfree, helement, -, hsome, -⟩ :=
      node_of_listsErasable h hle (mem_of_meets h hle ht hx)
    cases hv'.symm.trans hv
  · exact helement
  · exact absurd herased (by rw [hfree]; decide)
  · exact absurd hshape hsome

end Lists

/-- A class `Outer<A>` has an inner class `Inner<B>`. There is an array, at 25, of a type variable that is
bounded by `Outer<Cloneable>.Inner<Cloneable> & Cloneable`. -/
def boundedArrays : Session :=
  ofNodes
    [.ofClass 3 [18], .variableOf 5, .ofInner 4 17 [20], .variableOf 6, .ofClass 3 [15],
     .ofInner 4 21 [15], { shape := .intersection [⟨22⟩, ⟨15⟩] },
     { shape := .typeVar { upper := some ⟨23⟩ } }, .arrayOf 24]
    [{ name := some "Outer", type := some ⟨17⟩, enclosed := [⟨4⟩],
       detail := .type .plain { typeParameters := [⟨5⟩] } },
     { name := some "Inner", type := some ⟨19⟩, enclosing := some ⟨3⟩,
       detail := .type .plain { typeParameters := [⟨6⟩] } }, .parameter "A" 18 3, .parameter "B" 20 4]

/-! ### Erasing a type -/

/-- What a type is erased to is fully erased. From then on it is its own erasure, and finding that out
changes nothing. -/
theorem erasure_fullyErased {f : Nat} (hV : V.DerivesShapes) (H : V.Erasable t)
    (hhook : ∀ z, V.hooks.erasure z = none) (h : V.Answered (erasure f t) e) :
    V.FullyErased e ∧ ∃ r n enough, V.store.peekType e = some (r, n) ∧
      ∀ fuel, enough ≤ fuel → erasure fuel e V = (.ok r, V) := by
  obtain ⟨herases, u, n, ht, hn⟩ := cases_of_known_erasure (hhook t) (h.known)
  have herased := (erasesTo_iff.2 herases).erased hV H fun v m hv => by
    cases ht.symm.trans hv
    exact Or.inl hn
  obtain ⟨hfull, r, m, hr, hm, hself⟩ := herased
  obtain ⟨enough, henough⟩ := hself.known_erasure (hhook e) hr hm
  exact ⟨hfull, r, m, enough, hr, henough⟩

/-- The array is erased to an array of the raw type `Outer.Inner`. -/
theorem erasure_fullyErased_boundedArrays : ∃ V : Session, V.Answered (erasure 10 ⟨25⟩) ⟨28⟩ ∧
    V.Mentions ⟨28⟩ ⟨27⟩ ∧ V.Mentions ⟨27⟩ ⟨26⟩ ∧ V.FullyErased ⟨28⟩ ∧
      ∃ r n enough, V.store.peekType ⟨28⟩ = some (r, n) ∧
        ∀ fuel, enough ≤ fuel → erasure fuel ⟨28⟩ V = (.ok r, V) := by
  have hanswer : (erasure 10 ⟨25⟩ boundedArrays).1 = .ok ⟨28⟩ := by decide +kernel
  have hlists : boundedArrays.listsErasable [⟨25⟩, ⟨24⟩, ⟨23⟩, ⟨22⟩, ⟨21⟩, TypeId.none] = true := by
    decide +kernel
  have hhooks : boundedArrays.hooks = {} := rfl
  have hderived : boundedArrays.DerivesShapes := by rintro shape k ⟨⟩
  have harray : ((erasure 10 ⟨25⟩ boundedArrays).2.store.peekType ⟨28⟩).map (fun x => x.2.component) =
      some (some ⟨27⟩) := by decide +kernel
  have hinner : ((erasure 10 ⟨25⟩ boundedArrays).2.store.peekType ⟨27⟩).map (fun x => x.2.enclosing) =
      some (some ⟨26⟩) := by decide +kernel
  -- what follows holds of any session, and must not evaluate this one
  generalize boundedArrays = S at *
  have herasure : erasure 10 ⟨25⟩ S = (.ok ⟨28⟩, (erasure 10 ⟨25⟩ S).2) := Prod.ext hanswer rfl
  generalize (erasure 10 ⟨25⟩ S).2 = V at *
  have hV : Later S V := (ensures_of_settles _ .rfl _ _ herasure).1
  have hV' : V.Answered (erasure 10 ⟨25⟩) ⟨28⟩ := ⟨S, V, herasure, Later.refl V⟩
  obtain ⟨⟨u, n⟩, hu, hn⟩ := Option.map_eq_some_iff.1 harray
  obtain ⟨⟨v, m⟩, hv, hm⟩ := Option.map_eq_some_iff.1 hinner
  exact ⟨V, hV', ⟨u, n, hu, Or.inr (Or.inr hn)⟩, ⟨v, m, hv, Or.inr (Or.inl hm)⟩,
    erasure_fullyErased (hderived.later hV) (erasable_of_listsErasable hlists hV.le (by simp))
      (by rw [hV.le.hooks, hhooks]; exact fun _ => rfl) hV'⟩

/-- `Object` has a type parameter, and declares the type `Object<T>`, at 15. A type variable, at 19, is
bounded by an intersection of no types. -/
def genericObject : Session where
  store := .after
    [.newNamedElement (.type .plain) "Object", .newNamedElement (.type .interface) "Cloneable",
      .newNamedElement (.type .interface) "Serializable", .newNamedElement .typeParameter "T",
      .attach .typeParameter ⟨0⟩ ⟨3⟩, .newType .typeVar, .setElementType ⟨3⟩ ⟨14⟩,
      .makeShape (.declared { element := some ⟨0⟩, arguments := [⟨14⟩] }), .setElementType ⟨0⟩ ⟨15⟩,
      .newType .declared, .newType .declared, .setElementType ⟨1⟩ ⟨16⟩, .setElementType ⟨2⟩ ⟨17⟩,
      .newType .intersection, .newType .typeVar, .editType ⟨19⟩ (.upperBound ⟨18⟩),
      .rename { byName := [("java.lang.Object", ⟨0⟩), ("java.lang.Cloneable", ⟨1⟩),
        ("java.io.Serializable", ⟨2⟩)] } {}]

/-- Every declared type has an element and no type is marked as erased. But the variable is erased to
`Object<T>`, and that is erased to another type. -/
theorem erasure_keepsArguments_genericObject :
    (∀ i ∈ List.range genericObject.store.types.size, (genericObject.store.peekType ⟨i⟩).all
      (fun x => !x.2.erased && (x.2.element.isSome || x.2.kind != .declared)) = true) ∧
      (erasure 10 ⟨19⟩ genericObject).1 = .ok ⟨15⟩ ∧
        (genericObject.store.peekType ⟨15⟩).map (fun x => x.2.arguments) = some [⟨14⟩] ∧
          (erasure 10 ⟨15⟩ (erasure 10 ⟨19⟩ genericObject).2).1 = .ok ⟨20⟩ := by
  decide +kernel

end Session

end JavaTypes
