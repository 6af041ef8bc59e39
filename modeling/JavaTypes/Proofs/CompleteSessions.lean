import JavaTypes.Proofs.Ranks

/-!
# Sessions without pending slots

If no slot of a store is left to complete, questions make types and nothing else. Whether elements are a
table of classes can then be read off the store as it is.

* `Store.Complete`: no slot is left to complete, though some may have failed;
* `Session.Later.elements_eq`: the elements stay as they are;
* `Session.listsTable`: a check that classes are a table, which is right
  (`Session.classTable_of_listsTable`);
* `Session.boxes`: an example with a generic class.
-/

namespace JavaTypes

open Action

namespace Store

/-- No slot is left to complete. -/
def Complete (s : Store) : Prop :=
  s.types.toList.all Slot.isFinal = true ∧ s.elements.toList.all Slot.isFinal = true

variable {s : Store}

theorem follow_of_final {ν κ : Type} {shelf : Shelf ν κ} {run : Supplier κ → Build κ}
    (h : (shelf.slots s).toList.all Slot.isFinal = true) (n : Nat) (k : κ) :
    (shelf.follow run n k s).2 = s := by
  induction n generalizing k with
  | zero => rfl
  | succ n ih =>
    have hfinal : ∀ {slot}, (shelf.slots s)[shelf.index k]? = some slot → slot.isFinal = true :=
      fun hk => List.all_eq_true.1 h _ (Array.mem_toList_iff.2 (Array.mem_of_getElem? hk))
    unfold Shelf.follow
    split
    · rfl
    · rfl
    · exact ih _
    · rfl
    · next hk => cases hfinal hk
    · next hk => cases hfinal hk

theorem Complete.viewType (h : s.Complete) (k : TypeId) : (JavaTypes.viewType k s).2 = s :=
  follow_of_final h.1 _ k

theorem Complete.viewElement (h : s.Complete) (k : ElementId) :
    (JavaTypes.viewElement k s).2 = s :=
  follow_of_final h.2 _ k

/-- Readings change nothing where nothing is left to complete. -/
theorem Complete.eq_of_leads {t : Store} (h : s.Complete) (ht : Leads s t) : t = s := by
  induction ht with
  | refl => rfl
  | tail _ hstep ih =>
    subst ih
    rcases hstep with ⟨k, rfl⟩ | ⟨k, rfl⟩
    · exact h.viewType k
    · exact h.viewElement k

theorem Complete.setTypeNode (h : s.Complete) (k : TypeId) (n : TypeNode) :
    (s.setTypeNode k n).Complete := by
  refine ⟨List.all_eq_true.2 fun slot hslot => ?_, h.2⟩
  rcases Array.mem_or_eq_of_mem_setIfInBounds (Array.mem_toList_iff.1 hslot) with hslot | rfl
  · exact List.all_eq_true.1 h.1 slot (Array.mem_toList_iff.2 hslot)
  · rfl

theorem Complete.makeShape (h : s.Complete) (shape : TypeShape) :
    (makeShape shape s).2.Complete ∧ (makeShape shape s).2.elements = s.elements := by
  refine makeShape_induction (I := fun t => t.Complete ∧ t.elements = s.elements) ⟨⟨?_, h.2⟩, rfl⟩
    fun _ ht _ _ => ⟨ht.1.setTypeNode _ _, ht.2⟩
  simp only [makeType, Array.toList_push, List.all_append, h.1]
  rfl

end Store

namespace Session

variable {S T : Session} {C : ElementId → Prop}

theorem complete_derive (h : S.store.Complete) (shape : TypeShape) :
    (derive shape S).2.store.Complete ∧ (derive shape S).2.store.elements = S.store.elements := by
  cases hlook : S.memo.derived.lookup shape with
  | some k =>
    rw [derive_of_lookup hlook]
    exact ⟨h, rfl⟩
  | none =>
    have hmade := h.makeShape shape
    rw [derive_of_lookup_none hlook]
    cases hr : makeShape shape S.store with
    | mk r store =>
      rw [hr] at hmade
      cases r <;> exact hmade

/-- If no slot is left to complete, questions make types and nothing else. -/
theorem Later.elements_eq (hT : Later S T) (h : S.store.Complete) :
    T.store.Complete ∧ T.store.elements = S.store.elements := by
  induction hT with
  | refl => exact ⟨h, rfl⟩
  | tail _ hstep ih =>
    obtain ⟨hcomplete, helements⟩ := ih
    rcases hstep with (⟨store, ⟨k, rfl⟩ | ⟨k, rfl⟩, rfl⟩ | ⟨shape, rfl⟩) | ⟨ranks, closures, rfl⟩
    · rw [hcomplete.viewType]
      exact ⟨hcomplete, helements⟩
    · rw [hcomplete.viewElement]
      exact ⟨hcomplete, helements⟩
    · obtain ⟨hcomplete', helements'⟩ := complete_derive hcomplete shape
      exact ⟨hcomplete', helements'.trans helements⟩
    · exact ⟨hcomplete, helements⟩

end Session

/-! ### Checking a table -/

/-- The class that declares a type, where the store knows it. -/
def Store.classOf (s : Store) (t : TypeId) : Option ElementId := do
  let (_, n) ← s.peekType t
  if n.kind = .declared then
    let (e, _) ← s.peekElement (← n.element)
    return e
  else
    none

/-- The qualified name of an element, where the store knows it. -/
def Store.nameOf (s : Store) (e : ElementId) : Option String := do
  let (_, n) ← s.peekElement e
  (s.qualifiedNameOf n).toOption

namespace Session

/-- A type is declared by one of the classes, and by one that comes before `e`. -/
def listsBelow (S : Session) (classes : List ElementId) (e : ElementId) (t : TypeId) : Bool :=
  (S.store.classOf t).any fun b => decide (b ∈ classes ∧ b.index < e.index)

/-- An element is a type element with a type of its own, and what it names are types of classes that
come before it. -/
def listsClass (S : Session) (known : WellKnown) (classes : List ElementId) (e : ElementId) : Bool :=
  (S.store.peekElement e).any fun x => decide (x.1 = e) && x.2.kind.isType &&
      x.2.type.any (fun t => decide (S.store.classOf t = some e)) &&
      (x.2.kind.isInterface || (decide (e = known.object) && x.2.superclass.isNone) ||
        S.listsBelow classes e (x.2.superclass.getD known.objectType)) &&
      x.2.interfaces.all (S.listsBelow classes e)

/-- An element is found to differ from all others. -/
def listsApart (S : Session) (e : ElementId) : Bool :=
  (List.range S.store.elements.size).all fun i =>
    decide ((S.config.equality.elements 30 e ⟨i⟩ S.store).1 = .ok false ∨ e = ⟨i⟩)

/-- The names of all elements. -/
def elementNames (S : Session) : List (Option String) :=
  (List.range S.store.elements.size).map fun i => S.store.nameOf ⟨i⟩

/-- The classes have such declarations, and all elements have different names. -/
def listsTable (S : Session) (known : WellKnown) (classes : List ElementId) : Bool :=
  classes.all (S.listsClass known classes) && decide (known.object ∈ classes) &&
    (S.store.peekElement known.object).all (fun x => x.2.interfaces.isEmpty) &&
    decide (S.elementNames.Nodup ∧ none ∉ S.elementNames)

variable {S : Session} {known : WellKnown} {classes : List ElementId} {e : ElementId} {t : TypeId}

theorem isClass_of_classOf (h : S.store.classOf t = some e) : S.IsClass t e := by
  obtain ⟨⟨u, n⟩, hn, h⟩ := Option.bind_eq_some_iff.1 h
  dsimp only at h
  split at h
  · next hk =>
    obtain ⟨d, hd, h⟩ := Option.bind_eq_some_iff.1 h
    obtain ⟨⟨e', m⟩, hm, h⟩ := Option.bind_eq_some_iff.1 h
    cases h
    exact ⟨u, n, d, m, hn, hk, hd, hm⟩
  · cases h

theorem known_qualifiedName_iff_nameOf {name : String} :
    Known (onStore (qualifiedName e)) S name ↔ S.store.nameOf e = some name := by
  rw [known_onStore, known_qualifiedName, Store.nameOf]
  cases S.store.peekElement e with
  | none => simp
  | some x =>
    cases hname : S.store.qualifiedNameOf x.2 <;> simp [hname, Except.toOption, Prod.ext_iff]

theorem exists_isClass_of_listsBelow (h : S.listsBelow classes e t = true) :
    ∃ b, S.IsClass t b ∧ b ∈ classes ∧ b.index < e.index := by
  unfold listsBelow at h
  cases hb : S.store.classOf t with
  | none =>
    rw [hb] at h
    cases h
  | some b =>
    rw [hb] at h
    exact ⟨b, isClass_of_classOf hb, of_decide_eq_true h⟩

/-- What the check of a class says. -/
theorem exists_node_of_listsClass (h : S.listsClass known classes e = true) :
    ∃ n, S.store.peekElement e = some (e, n) ∧ (∃ k, n.kind = .type k) ∧
      (∃ t, n.type = some t ∧ S.IsClass t e) ∧
      (n.kind.isInterface = true ∨ (e = known.object ∧ n.superclass = none) ∨
        S.listsBelow classes e (n.superclass.getD known.objectType) = true) ∧
      ∀ t ∈ n.interfaces, S.listsBelow classes e t = true := by
  unfold listsClass at h
  cases hn : S.store.peekElement e with
  | none =>
    rw [hn] at h
    cases h
  | some x =>
    obtain ⟨e', n⟩ := x
    rw [hn] at h
    simp only [Option.any_some, Bool.and_eq_true, Bool.or_eq_true, decide_eq_true_eq,
      List.all_eq_true, Option.isNone_iff_eq_none] at h
    obtain ⟨⟨⟨⟨rfl, hkind⟩, hown⟩, hsuper⟩, hinterfaces⟩ := h
    refine ⟨n, rfl, ?_, ?_, or_assoc.1 hsuper, hinterfaces⟩
    · cases hk : n.kind with
      | type k => exact ⟨k, rfl⟩
      | _ =>
        rw [hk] at hkind
        cases hkind
    · cases ht : n.type with
      | none =>
        rw [ht] at hown
        cases hown
      | some t =>
        rw [ht] at hown
        exact ⟨t, rfl, isClass_of_classOf (of_decide_eq_true hown)⟩

section Check

variable (hknown : Known wellKnown S known) (hobject : known.object ∈ classes)
  (he : S.listsClass known classes e = true)

include hknown he

theorem above_of_listsClass :
    S.Surveyed e ∧ ∀ b, S.Extends e b → b ∈ classes ∧ b.index < e.index := by
  obtain ⟨n, hn, -, -, hsuper, hinterfaces⟩ := exists_node_of_listsClass he
  have hroot : Known objectElement S known.object := hknown.bind rfl
  have hnamed : ∃ r, Known (superclassNamed e) S r ∧ ∀ t ∈ r, S.listsBelow classes e t = true := by
    cases hi : n.kind.isInterface with
    | true => exact ⟨none, known_superclassNamed_interface hn hi, nofun⟩
    | false =>
      by_cases heq : e = known.object
      · exact ⟨none, known_superclassNamed_object hn hi (heq ▸ hroot), nofun⟩
      rw [hi] at hsuper
      have hbelow := (hsuper.resolve_left nofun).resolve_left fun h => heq h.1
      refine ⟨some (n.superclass.getD known.objectType), ?_, fun t ht => ?_⟩
      · cases hs : n.superclass with
        | none => exact known_superclassNamed_none hn hi hroot heq hs (hknown.bind rfl)
        | some t =>
          rw [hs] at hbelow
          obtain ⟨b, ⟨u, m, _, _, ht, hk, -⟩, -⟩ := exists_isClass_of_listsBelow hbelow
          refine known_superclassNamed_some hn hi hroot heq hs (known_unlessNone.2 ⟨u, m, ht, ?_⟩)
          rw [if_neg (by rw [hk]; decide)]
          rfl
      · cases ht
        exact hbelow
  obtain ⟨r, hr, hbelow⟩ := hnamed
  have hall : ∀ t ∈ r.toList ++ n.interfaces, ∃ b, S.IsClass t b ∧ b ∈ classes ∧ b.index < e.index := by
    intro t ht
    refine exists_isClass_of_listsBelow ((List.mem_append.1 ht).elim (fun ht => ?_) (hinterfaces t))
    exact hbelow t (Option.mem_toList.1 ht)
  have hsupertypes : Known (supertypesNamed e) S (r.toList ++ n.interfaces) :=
    known_supertypesNamed.2 ⟨r, n.interfaces, hr, known_onStore_declaredInterfaces hn, rfl⟩
  refine ⟨⟨_, hsupertypes, fun t ht => ?_⟩, ?_⟩
  · obtain ⟨b, hb, -⟩ := hall t ht
    exact ⟨b, hb⟩
  · rintro b ⟨named, t, hnamed, ht, hb⟩
    obtain rfl := hsupertypes.unique hnamed
    obtain ⟨b', hb', hrest⟩ := hall t ht
    rwa [hb.unique hb']

include hobject

theorem tableClass_of_listsClass :
    ∃ n, S.store.peekElement e = some (e, n) ∧ S.TableClass (· ∈ classes) e n := by
  obtain ⟨n, hn, hkind, ⟨own, hown, hclass⟩, hsuper, hinterfaces⟩ := exists_node_of_listsClass he
  have hdeclared : ∀ t, S.listsBelow classes e t = true → S.DeclaredIn (· ∈ classes) t := by
    intro t ht
    obtain ⟨b, hb, hmem, -⟩ := exists_isClass_of_listsBelow ht
    exact hb.declaredIn hmem
  refine ⟨n, hn, hkind, ⟨own, hown, hclass.declaredIn rfl⟩, fun hi t ht => ?_, fun _ _ T hT o ho => ?_,
    fun t ht => hdeclared t (hinterfaces t ht)⟩
  · rw [hi, ht] at hsuper
    exact .inr (hdeclared t ((hsuper.resolve_left nofun).resolve_left fun h => nomatch h.2))
  · obtain ⟨known', hknown', rfl⟩ := ho
    rwa [← (hknown.mono hT.le).unique hknown']

end Check

/-- Where every class comes after those above it, none is above itself. -/
theorem not_above_self_of_listsClass {T : Session} (hknown : Known wellKnown S known)
    (hclasses : ∀ e ∈ classes, S.listsClass known classes e = true) (hT : Later S T)
    (he : e ∈ classes) : ¬ Relation.TransGen T.Extends e e := by
  refine not_above_self (fun a b ha hab => ?_) he
  obtain ⟨hsurveyed, habove⟩ := above_of_listsClass hknown (hclasses a ha)
  exact habove b ((hsurveyed.extends_iff hT.le).1 hab)

/-- An element that was found to differ from all others equals none of them. -/
theorem eq_of_listsApart {T : Session} (hS : S.store.Complete) (hT : Later S T)
    (h : S.listsApart e = true) {b d d' : ElementId} {m n : ElementNode}
    (hd : T.store.peekElement d = some (e, m)) (hd' : T.store.peekElement d' = some (b, n))
    (hequal : T.ElementsEqual d d') : e = b := by
  have hb := Store.index_lt_of_peekElement (Store.peekElement_self hd')
  rw [(hT.elements_eq hS).2] at hb
  refine (of_decide_eq_true (List.all_eq_true.1 h b.index (List.mem_range.2 hb))).resolve_left
    fun hfalse => ?_
  have hsettles : Settles (S.config.equality.elements 30 e b) (S.config.equality.elements 30 e b) :=
    inferInstance
  have hknown : Known (S.config.equality.elements 30 e b) T.store false :=
    hsettles.stays (Prod.ext hfalse (hS.eq_of_leads (hsettles.leads S.store))) hT.le.store
  have heb : T.ElementsEqual e b :=
    ((Equality.EqualElements.of_node hd).symm.trans hequal).trans (Equality.EqualElements.of_node hd')
  unfold ElementsEqual at heb
  rw [hT.le.config] at heb
  exact Bool.false_ne_true ((Equality.known_elements_iff hknown).2 heb)

theorem exists_nameOf (h : none ∉ S.elementNames) (he : e.index < S.store.elements.size) :
    ∃ name, S.store.nameOf e = some name :=
  Option.ne_none_iff_exists'.1 fun hnone => h (List.mem_map.2 ⟨e.index, List.mem_range.2 he, hnone⟩)

/-- It can be checked that classes are ranked. -/
theorem rankedClasses_of_listsTable (hderived : S.memo.derived = [])
    (habsent : ∃ n, S.Shows TypeId.none TypeId.none n ∧ n.kind = .noType .none)
    (hknown : Known wellKnown S known) (h : S.listsTable known classes = true) :
    S.RankedClasses (· ∈ classes) := by
  simp only [listsTable, Bool.and_eq_true, decide_eq_true_eq, List.all_eq_true] at h
  obtain ⟨⟨⟨hclasses, hmem⟩, hobject⟩, -, hnames⟩ := h
  refine ⟨?_, habsent, fun he => tableClass_of_listsClass hknown hmem (hclasses _ he), ?_,
    fun hT _ => not_above_self_of_listsClass hknown hclasses hT, ?_⟩
  · intro shape k hlook
    rw [hderived] at hlook
    cases hlook
  · rintro T hT o n ⟨known', hknown', rfl⟩ hn
    obtain rfl := (hknown.mono hT.le).unique hknown'
    obtain ⟨m, hm, -⟩ := node_of_known_wellKnown hknown
    cases (peekElement_mono hT.le.store hm).symm.trans hn
    rw [hm] at hobject
    exact List.isEmpty_iff.1 hobject
  · intro a ha
    obtain ⟨n, hn, -⟩ := exists_node_of_listsClass (hclasses a ha)
    obtain ⟨name, hname⟩ := exists_nameOf hnames (Store.index_lt_of_peekElement hn)
    exact ⟨name, known_qualifiedName_iff_nameOf.2 hname⟩

/-- Where nothing is left to complete, it can be checked that no other element will have the name of one of
the classes. -/
theorem namesApart_of_listsTable (hS : S.store.Complete) (h : S.listsTable known classes = true) :
    S.NamesApart (· ∈ classes) := by
  simp only [listsTable, Bool.and_eq_true, decide_eq_true_eq, List.all_eq_true] at h
  obtain ⟨⟨⟨hclasses, -⟩, -⟩, hnodup, hnames⟩ := h
  intro T hT a b n name ha hn _ hx hy
  obtain ⟨m, hm, -⟩ := exists_node_of_listsClass (hclasses a ha)
  have hlt := Store.index_lt_of_peekElement hm
  have hlt' := Store.index_lt_of_peekElement hn
  rw [(hT.elements_eq hS).2] at hlt'
  obtain ⟨x, hx'⟩ := exists_nameOf hnames hlt
  obtain ⟨y, hy'⟩ := exists_nameOf hnames hlt'
  obtain rfl := ((known_qualifiedName_iff_nameOf.2 hx').mono hT.le).unique hx
  obtain rfl := ((known_qualifiedName_iff_nameOf.2 hy').mono hT.le).unique hy
  have hindex := List.inj_on_of_nodup_map hnodup (List.mem_range.2 hlt) (List.mem_range.2 hlt')
    (hx'.trans hy'.symm)
  cases a
  cases b
  cases hindex
  rfl

theorem classTable_of_listsTable (hS : S.store.Complete) (hderived : S.memo.derived = [])
    (habsent : ∃ n, S.Shows TypeId.none TypeId.none n ∧ n.kind = .noType .none)
    (hknown : Known wellKnown S known) (h : S.listsTable known classes = true) :
    S.ClassTable (· ∈ classes) :=
  (rankedClasses_of_listsTable hderived habsent hknown h).classTable (namesApart_of_listsTable hS h)

/-! ### Examples -/

/-- A generic class `Box` implements a generic interface `Source`, and has a superclass `Base` that
implements `Source<Object>`. There are two types `Box<Cloneable>`, at 24 and 25. -/
def boxes : Session :=
  ofNodes
    [.ofClass 3 [18], .variableOf 6, .ofClass 4 [], .ofClass 5 [21], .variableOf 7, .ofClass 3 [14],
     .ofClass 3 [21], .ofClass 5 [15], .ofClass 5 [15]]
    [.ofType "Source" 17 .interface { typeParameters := [⟨6⟩] },
     .ofType "Base" 19 .plain { interfaces := [⟨22⟩] },
     .ofType "Box" 20 .plain
       { superclass := some ⟨19⟩, interfaces := [⟨23⟩], typeParameters := [⟨7⟩] },
     .parameter "E" 18 3, .parameter "F" 21 5]

/-- The classes of `boxes`. -/
def boxClasses : List ElementId :=
  [⟨0⟩, ⟨1⟩, ⟨2⟩, ⟨3⟩, ⟨4⟩, ⟨5⟩]

theorem known_wellKnown_boxes : Known wellKnown boxes languageClasses := rfl

theorem listsTable_boxes : boxes.listsTable languageClasses boxClasses = true := by decide +kernel

theorem classTable_boxes : boxes.ClassTable (· ∈ boxClasses) :=
  classTable_of_listsTable ⟨rfl, rfl⟩ rfl ⟨_, rfl, rfl⟩ known_wellKnown_boxes listsTable_boxes

end Session

end JavaTypes
