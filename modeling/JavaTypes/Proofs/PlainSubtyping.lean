import JavaTypes.Proofs.ClassSearch
import JavaTypes.Proofs.CompleteSessions
import JavaTypes.Proofs.GroundTypes
import JavaTypes.Proofs.SameTypeSymmetry

/-!
# Subtyping without generics

The types without generics are those of primitives, of null, of plain classes, and of arrays of these.
On them the relations of the language are decided by what the types denote.

* `Session.Plain S C depth t`: the type `t` has no generics, and its arrays are at most `depth` deep;
* `yields_sameType`: two such types are the same if they denote the same ground type;
* `yields_subtype`: one is a subtype of the other if it denotes a ground type below that of the other.

So subtyping is a partial order on these types.
-/

namespace JavaTypes

namespace Session

open Action

/-! ### Types without generics -/

/-- A type that has no parts, or is declared by a class in `C` and has no generic parts. -/
def PlainAtom (S : Session) (C : ElementId → Prop) (n : TypeNode) : Prop :=
  (∃ p, n.shape = .primitive p) ∨ n.shape = .null ∨ S.PlainDeclared C n

/-- A type without generics whose arrays are at most `depth` deep. -/
def PlainNode (C : ElementId → Prop) : Nat → Session → TypeNode → Prop
  | 0, S, n => S.PlainAtom C n
  | depth + 1, S, n => S.PlainAtom C n ∨ ∃ c, n.shape = .array (some c) ∧
      Yields S (onStore (viewType c)) fun T x => PlainNode C depth T x.2

/-- A type that turns out to have no generics. -/
def Plain (S : Session) (C : ElementId → Prop) (depth : Nat) (t : TypeId) : Prop :=
  Yields S (onStore (viewType t)) fun T x => PlainNode C depth T x.2

variable {S T : Session} {C : ElementId → Prop} {depth : Nat} {t s u : TypeId} {m n : TypeNode}

theorem PlainAtom.later (h : S.PlainAtom C n) (hT : Later S T) : T.PlainAtom C n :=
  h.imp_right fun h => h.imp_right fun h => h.later hT

theorem PlainNode.later (h : PlainNode C depth S n) (hT : Later S T) : PlainNode C depth T n := by
  cases depth with
  | zero => exact .later h hT
  | succ depth =>
    refine h.imp (fun h => h.later hT) ?_
    rintro ⟨c, hn, hc⟩
    exact ⟨c, hn, hc.later hT⟩

theorem plain_of_peek (ht : S.Shows t u n) (hn : PlainNode C depth S n) : S.Plain C depth t :=
  (yields_viewType_of_peek ht).imp fun _ _ hT hx => hx ▸ hn.later hT

theorem PlainNode.cases (h : PlainNode C depth S n) :
    S.PlainAtom C n ∨ ∃ k c, depth = k + 1 ∧ n.shape = .array (some c) ∧ S.Plain C k c := by
  cases depth with
  | zero => exact .inl h
  | succ depth =>
    refine h.imp_right ?_
    rintro ⟨c, hn, hc⟩
    exact ⟨depth, c, rfl, hn, hc⟩

/-- The kinds of types without generics. -/
theorem PlainNode.kind (h : PlainNode C depth S n) :
    (∃ p, n.kind = .primitive p) ∨ n.kind = .null ∨ n.kind = .declared ∨ n.kind = .array := by
  rcases h.cases with (⟨p, hp⟩ | hnull | hdeclared) | ⟨-, c, -, harray, -⟩
  · exact .inl ⟨p, by rw [TypeNode.kind, hp]; rfl⟩
  · exact .inr (.inl (by rw [TypeNode.kind, hnull]; rfl))
  · exact .inr (.inr (.inl hdeclared.1))
  · exact .inr (.inr (.inr (by rw [TypeNode.kind, harray]; rfl)))

theorem PlainNode.kind_ne (h : PlainNode C depth S n) : n.kind ≠ .wildcard ∧ n.kind ≠ .typeVar := by
  rcases h.kind with ⟨q, hq⟩ | hk | hk | hk <;> simp [*]

theorem PlainNode.plainDeclared (h : PlainNode C depth S n) (hk : n.kind = .declared) :
    S.PlainDeclared C n := by
  rcases h.cases with (⟨p, hp⟩ | hnull | hdeclared) | ⟨-, c, -, harray, -⟩
  · rw [TypeNode.kind, hp] at hk
    cases hk
  · rw [TypeNode.kind, hnull] at hk
    cases hk
  · exact hdeclared
  · rw [TypeNode.kind, harray] at hk
    cases hk

theorem PlainNode.exists_component (h : PlainNode C depth S n) (hk : n.kind = .array) :
    ∃ k c, depth = k + 1 ∧ n.shape = .array (some c) ∧ S.Plain C k c := by
  refine h.cases.resolve_left ?_
  rintro (⟨p, hp⟩ | hnull | hdeclared)
  · rw [TypeNode.kind, hp] at hk
    cases hk
  · rw [TypeNode.kind, hnull] at hk
    cases hk
  · cases hk.symm.trans hdeclared.1

/-! ### Same types -/

section SameType

variable {enough : Nat} (H : S.PlainClasses C enough) {p : Premises}

/-- A pair of types is the same if they denote the same. -/
def SameDenoted (T : Session) (t s : TypeId) (b : Bool) : Prop :=
  ∀ g h, T.Denotes t g → T.Denotes s h → (b = true ↔ g = h)

include H in
theorem yields_sameElement {fuel : Nat} {a b : ElementId} (ha : C a) (hb : C b)
    (hfuel : enough ≤ fuel) :
    Yields S (sameElement fuel a b) fun _ r => r = true ↔ a = b := by
  obtain ⟨k, hk, -⟩ := H.classes ha
  obtain ⟨l, hl, -⟩ := H.classes hb
  refine (Yields.resolveElement
    ((yields_viewElement_of_peek hk).imp fun _ _ _ hx => by rw [hx])).bind fun T x hT hx => ?_
  refine (Yields.resolveElement ((yields_viewElement_of_peek (peekElement_mono hT.le.store hl)).imp
      fun _ _ _ hy => by rw [hy])).bind fun U y hU hy => ?_
  obtain rfl := hx T .rfl
  obtain rfl := hy U .rfl
  split
  · next heq => exact yields_pure fun _ _ => iff_of_true rfl heq
  · next hne =>
    have hequality : Known equality U U.config.equality := rfl
    refine (yields_of_known hequality).bind_eq fun V hV => ?_
    refine (((H.later (hT.trans hU)).distinct ha hb hne fuel hfuel).later hV).imp
      fun _ r _ hr => iff_of_false (by rw [hr]; exact Bool.false_ne_true) hne

/-- Two types are compared by their parts, unless they have the same node. -/
theorem yields_sameTypeStep {j : Judgements} (hconfig : S.config.includeAnnotations = false)
    {P Q : Session → TypeNode → Prop} {R : Session → Bool → Prop}
    (ht : Yields S (onStore (viewType t)) fun T x => P T x.2)
    (hs : Yields S (onStore (viewType s)) fun T x => Q T x.2)
    (hsame : ∀ T u n, Later S T → T.Shows t u n → T.Shows s u n → R T true)
    (hparts : ∀ T u m v n, Later S T → T.Shows t u m →
      T.Shows s v n → P T m → Q T n → Yields T (j.sameParts p u m v n) R) :
    Yields S (j.sameTypeStep p t s) R := by
  refine ht.peekType.bind fun T x hT hx => ?_
  refine (hs.later hT).peekType.bind fun U y hU hy => ?_
  obtain ⟨u, m⟩ := x
  obtain ⟨v, n⟩ := y
  obtain ⟨htU, hm⟩ := hx U hU
  obtain ⟨hsU, hn⟩ := hy U .rfl
  have hSU := hT.trans hU
  dsimp only
  split
  · next huv =>
    subst huv
    have hself := (Store.peekType_self htU).symm.trans (Store.peekType_self hsU)
    cases hself
    exact yields_pure fun V hV => hsame V u m (hSU.trans hV) (peekType_mono hV.le.store htU)
      (peekType_mono hV.le.store hsU)
  · refine (yields_of_known (known_config.2 rfl)).bind_eq fun V hV => ?_
    have hflag : ¬ U.config.includeAnnotations = true := by
      rw [hSU.le.config, hconfig]
      exact Bool.false_ne_true
    rw [if_neg hflag]
    exact hparts V u m v n (hSU.trans hV) (peekType_mono hV.le.store htU)
      (peekType_mono hV.le.store hsU) (hx V (hU.trans hV)).2 (hy V hV).2

/-- The absent types around plain types are the same. -/
theorem yields_sameType_absent (hconfig : S.config.includeAnnotations = false) {level : Nat}
    (hlevel : 1 ≤ level) (ht : Yields S (onStore (viewType t)) fun _ x => x.2.kind = .noType .none)
    (hs : Yields S (onStore (viewType s)) fun _ x => x.2.kind = .noType .none) :
    Yields S ((judgements level).sameType p t s) fun _ b => b = true := by
  obtain ⟨level, rfl⟩ : ∃ k, level = k + 1 := ⟨level - 1, by omega⟩
  refine yields_sameTypeStep hconfig (P := fun _ n => n.kind = .noType .none)
    (Q := fun _ n => n.kind = .noType .none) ht hs (fun _ _ _ _ _ _ => rfl) ?_
  rintro T u ⟨shape, as⟩ v ⟨shape', bs⟩ - - - hm hn
  cases shape with
  | noType a =>
    cases hm
    cases shape' with
    | noType b =>
      cases hn
      exact yields_pure fun _ _ => rfl
    | _ => cases hn
  | _ => cases hm

include H in
theorem yields_sameDeclared (hconfig : S.config.includeAnnotations = false) {level : Nat}
    (hlevel : enough + 1 ≤ level) {u v : TypeId} (ht : S.Shows t u m)
    (hs : S.Shows s v n) (hm : S.PlainDeclared C m) (hn : S.PlainDeclared C n) :
    Yields S ((judgements level).sameDeclared p m n) fun T b => T.SameDenoted t s b := by
  obtain ⟨level, rfl⟩ : ∃ k, level = k + 1 := ⟨level - 1, by omega⟩
  have hfuel : enough ≤ (judgements (level + 1)).fuel := Nat.le_of_succ_le_succ hlevel
  -- First the owners: their comparison decides, as the rest is absent on both sides.
  have howner : Yields S ((judgements (level + 1)).sameOwner m n) fun T b => T.SameDenoted t s b := by
    refine (yields_isClass ht hm).bind fun T r hT hr => ?_
    refine (yields_isClass (hs.mono hT.le) (hn.later hT)).bind fun U q hU hq => ?_
    obtain ⟨a, rfl, ha, hclass⟩ := hr U hU
    obtain ⟨b, rfl, hb, hclass'⟩ := hq U .rfl
    refine (yields_sameElement (H.later (hT.trans hU)) ha hb hfuel).imp fun V r hV hr g h hg hh => ?_
    rw [hg.unique (h := .ofClass a) (hclass.mono hV.le),
      hh.unique (h := .ofClass b) (hclass'.mono hV.le), hr, Ground.ofClass.injEq]
  refine howner.both (fun T hT hsame => ?_) fun T hT hsame => hsame
  have hconfigT : T.config.includeAnnotations = false := by rw [hT.le.config, hconfig]
  refine (yields_sameType_absent hconfigT (by omega) (hm.2.2.1.later hT) (hn.2.2.1.later hT)).both
    (fun U hU _ => ?_) fun U _ hfalse => Bool.noConfusion hfalse
  rw [hm.2.1, hn.2.1]
  exact yields_pure fun V hV => hsame V (hU.trans hV)

/-- Types without generics are the same if they denote the same ground type. -/
theorem yields_sameType : ∀ {depth level : Nat} {S : Session} (_ : S.PlainClasses C enough)
    {t s : TypeId}, S.config.includeAnnotations = false → depth + enough + 2 ≤ level →
      S.Plain C depth t → S.Plain C depth s →
        Yields S ((judgements level).sameType p t s) fun T b => T.SameDenoted t s b
  | depth, 0, S, H, t, s, _, hlevel, _, _ => by omega
  | depth, level + 1, S, H, t, s, hconfig, hlevel, ht, hs => by
      refine yields_sameTypeStep hconfig ht hs ?_ ?_
      · intro T u n _ htT hsT g h hg hh
        exact iff_of_true rfl ((hg.congr htT hsT).unique hh)
      intro T u m v n hT htT hsT hm hn
      have hconfigT : T.config.includeAnnotations = false := by rw [hT.le.config, hconfig]
      have hkinds : ∀ {V g h}, Later T V → V.Denotes t g → V.Denotes s h →
          g.kind = m.kind ∧ h.kind = n.kind := fun hV hg hh =>
        ⟨(hg.kind_eq (htT.mono hV.le)).symm, (hh.kind_eq (hsT.mono hV.le)).symm⟩
      by_cases hkind : m.kind = n.kind
      · rcases hm.cases with (⟨q, hq⟩ | hnull | hdeclared) | ⟨k, c, rfl, harray, hc⟩
        · have hm' : m.kind = .primitive q := by rw [TypeNode.kind, hq]; rfl
          have hn' : n.shape = .primitive q := n.shape_of_primitive (hkind.symm.trans hm')
          rw [Judgements.sameParts, hq, hn']
          refine yields_pure fun V hV g h hg hh => iff_of_true (decide_eq_true rfl) ?_
          obtain ⟨hgm, hhn⟩ := hkinds hV hg hh
          rw [Ground.eq_primitive_of_kind (hgm.trans hm'),
            Ground.eq_primitive_of_kind (hhn.trans (hkind.symm.trans hm'))]
        · have hm' : m.kind = .null := by rw [TypeNode.kind, hnull]; rfl
          rw [Judgements.sameParts, hnull, n.shape_of_null (hkind.symm.trans hm')]
          refine yields_pure fun V hV g h hg hh => iff_of_true rfl ?_
          obtain ⟨hgm, hhn⟩ := hkinds hV hg hh
          rw [Ground.eq_null_of_kind (hgm.trans hm'),
            Ground.eq_null_of_kind (hhn.trans (hkind.symm.trans hm'))]
        · have hdeclared' := hn.plainDeclared (hkind.symm.trans hdeclared.1)
          obtain ⟨d, hd⟩ := m.shape_of_declared hdeclared.1
          obtain ⟨e, he⟩ := n.shape_of_declared hdeclared'.1
          rw [Judgements.sameParts, hd, he]
          exact yields_sameDeclared (H.later hT) hconfigT (by omega) htT hsT hdeclared hdeclared'
        · have hm' : m.kind = .array := by rw [TypeNode.kind, harray]; rfl
          obtain ⟨k', d, hk, harray', hd⟩ := hn.exists_component (hkind.symm.trans hm')
          cases hk
          rw [Judgements.sameParts, harray, harray']
          refine (yields_sameType (H.later hT) hconfigT (by omega) hc hd).imp
            fun V b hV hb g h hg hh => ?_
          obtain ⟨g', rfl, hg'⟩ := hg.exists_component (htT.mono hV.le) harray
          obtain ⟨h', rfl, hh'⟩ := hh.exists_component (hsT.mono hV.le) harray'
          rw [hb g' h' hg' hh', Ground.array.injEq]
      · rw [Judgements.sameParts_of_kind_ne hm.kind_ne.2 hkind]
        refine yields_pure fun V hV g h hg hh => iff_of_false Bool.false_ne_true ?_
        rintro rfl
        obtain ⟨hgm, hgn⟩ := hkinds hV hg hh
        exact hkind (hgm.symm.trans hgn)

end SameType

/-! ### Bounds and capture -/

section Capture

variable {enough fuel level : Nat} (H : S.PlainClasses C enough) {p : Premises}

/-- A type without generics stands for itself where bounds are looked through. -/
theorem yields_wildLowerBound (hf : 1 ≤ fuel) (hs : S.Shows s u n)
    (hn : PlainNode C depth S n) : Yields S (onStore (wildLowerBound fuel s)) fun _ k => k = s := by
  obtain ⟨fuel, rfl⟩ : ∃ k, fuel = k + 1 := ⟨fuel - 1, by omega⟩
  rw [wildLowerBound, onStore_bind]
  refine (yields_typeNode_of_peek hs).bind_eq fun T hT => ?_
  rw [if_pos hn.kind_ne.1]
  exact yields_pure fun _ _ => rfl

theorem yields_captureLowerBound (hf : 1 ≤ fuel) (hs : S.Shows s u n) (hn : PlainNode C depth S n) :
    Yields S (onStore (captureLowerBound fuel s)) fun _ k => k = s := by
  obtain ⟨fuel, rfl⟩ : ∃ k, fuel = k + 1 := ⟨fuel - 1, by omega⟩
  rw [captureLowerBound, onStore_bind]
  refine (yields_typeNode_of_peek hs).bind_eq fun T hT => ?_
  rw [if_neg (by rw [isCapture_eq_false hn.kind_ne.2]; exact Bool.false_ne_true)]
  exact yields_pure fun _ _ => rfl

include H in
/-- A type without generics is its own capture. -/
theorem yields_captureStep {j : Judgements} (hf : 2 ≤ j.fuel)
    (ht : S.Shows t u n) (hn : PlainNode C depth S n) :
    Yields S (j.captureStep p t) fun _ k => k = u := by
  refine (yields_viewType_of_peek ht).bind_eq fun T hT => ?_
  dsimp only
  by_cases hk : n.kind = .declared
  swap
  · rw [if_pos hk]
    exact yields_pure fun _ _ => rfl
  have hplain := hn.plainDeclared hk
  rw [if_neg (not_not.2 hk)]
  refine (yields_elementOf (hplain.later hT)).bind fun U r hU hr => ?_
  obtain ⟨e, rfl, he⟩ := hr U .rfl
  have hSU := hT.trans hU
  refine (hplain.2.2.1.later hSU).bind fun V x hV hx => ?_
  obtain ⟨enclosing, outer⟩ := x
  have houter : outer.kind = .noType .none := hx V .rfl
  rw [if_neg (by rw [houter]; decide), hplain.2.1]
  have hSV := hSU.trans hV
  refine Yields.bind (yields_pure fun _ _ => rfl) fun W k hW hk => ?_
  obtain rfl := hk W .rfl
  have hflags : Yields W (onStore (wildcardFlags [])) fun _ flags => flags = [] :=
    yields_pure fun _ _ => rfl
  refine hflags.bind_eq fun W' hW' => ?_
  refine (yields_typeParameters (H.later (hSV.trans (hW.trans hW'))) he).bind_eq fun X hX => ?_
  have hvars : Yields X (onStore (formals [])) fun _ vars => vars = [] := yields_pure fun _ _ => rfl
  refine hvars.bind fun Y vars hY hvars => ?_
  have hSY := hSV.trans (hW.trans (hW'.trans (hX.trans hY)))
  refine (yields_isRaw (H.later hSY) (Store.peekType_self (ht.mono hSY.le))
    (hplain.later hSY) hf).bind_eq fun Z hZ => ?_
  rw [if_pos rfl]
  exact yields_pure fun _ _ => rfl

include H in
theorem yields_capture (hlevel : 4 ≤ level) (ht : S.Shows t u n) (hn : PlainNode C depth S n) :
    Yields S ((judgements level).capture p t) fun _ k => k = u := by
  obtain ⟨level, rfl⟩ : ∃ k, level = k + 2 := ⟨level - 2, by omega⟩
  have hfuel : 2 ≤ (judgements (level + 1)).fuel := Nat.le_of_succ_le_succ (Nat.le_of_succ_le_succ hlevel)
  exact yields_captureStep H hfuel ht hn

include H in
/-- It does not matter whether a type without generics is captured first. -/
theorem yields_captured (hlevel : 4 ≤ level) {capturing : Bool} {α : Type}
    {f : TypeId → Query α} {R : Session → α → Prop} (ht : S.Shows t t n)
    (hn : PlainNode C depth S n) (hf : ∀ T, Later S T → Yields T (f t) R) :
    Yields S (if capturing then (judgements level).capture p t >>= f else pure t >>= f) R := by
  cases capturing with
  | true =>
    refine (yields_capture H hlevel ht hn).bind fun T k hT hk => ?_
    rw [hk T .rfl]
    exact hf T hT
  | false => exact hf S .rfl

end Capture

/-! ### Subtypes -/

section Subtype

variable {enough bound : Nat} (H : S.PlainClasses C enough) {p : Premises} {j : Judgements}
  {v : TypeId}

/-- A type is a subtype of another if it denotes a ground type below. -/
def BelowDenoted (T : Session) (t s : TypeId) (b : Bool) : Prop :=
  ∀ g h, T.Denotes t g → T.Denotes s h → (b = true ↔ g.Below T h)

theorem BelowDenoted.congr {b : Bool} (hb : T.BelowDenoted u v b)
    (ht : T.Shows t u m) (hs : T.Shows s v n) :
    T.BelowDenoted t s b :=
  fun g h hg hh => hb g h (hg.of_node ht) (hh.of_node hs)

/-- The types around plain types do not matter. -/
theorem yields_enclosingBelow (hn : S.PlainDeclared C n) :
    Yields S (j.enclosingBelow p m n) fun _ b => b = true := by
  have hkind : Yields S (do return (← typeKind n.enclosingOrNone) = .declared : Query Bool)
      fun _ b => b = false :=
    (Yields.typeKind (Q := fun _ k => k = .noType .none) hn.2.2.1).map fun _ k _ hk => by
      rw [hk]
      rfl
  refine .bind (P := fun _ b => b = false)
    (hkind.both (fun T _ htrue => Bool.noConfusion (htrue T .rfl)) fun _ _ h => h)
    fun T b hT hb => ?_
  rw [if_neg (by rw [hb T .rfl]; exact Bool.false_ne_true)]
  exact yields_pure fun _ _ => rfl

include H in
theorem yields_belowDeclared (hbound : ∀ a, C a → a.index < bound)
    (hf : bound + 5 ≤ j.fuel) (ht : S.Shows t u m)
    (hs : S.Shows s v n) (hm : S.PlainDeclared C m) (hn : S.PlainDeclared C n) :
    Yields S (j.belowDeclared p t s n) fun T b => T.BelowDenoted t s b := by
  refine (yields_isClass hs hn).bind fun T r hT hr => ?_
  obtain ⟨e, rfl, he, hclass⟩ := hr T .rfl
  have htype : T.PlainType C t := plainType_of_peek (ht.mono hT.le) (hm.later hT)
  have hsearch : Responds T (superAt j.fuel t e) :=
    PlainClasses.responds_asSuperFrom hbound (H.later hT) ⟨.nil, nofun⟩ hf htype
  refine hsearch.yields (fun U r hU hr =>
    (H.later (hT.trans hU)).ladder.finds_of_known_asSuperFrom (.later htype hU) hr) |>.bind
      fun U r hU hfinds => ?_
  -- The answer is that of the search, as nothing else can be different.
  have hanswer : ∀ V, Later U V → V.BelowDenoted t s r.isSome := by
    intro V hV g h hg hh
    obtain ⟨a, ha, hfinds⟩ := hfinds V hV
    rw [hg.unique (h := .ofClass a) ha,
      hh.unique (h := .ofClass e) (hclass.mono (hU.trans hV).le), Ground.below_ofClass_iff,
      hfinds.some_iff]
    simp
  cases r with
  | none => exact yields_pure hanswer
  | some above =>
    have hview : Yields U (onStore (viewType above)) fun _ x => x.2.kind = .declared := by
      obtain ⟨a, -, ⟨-, habove⟩ | ⟨-, habove⟩⟩ := hfinds U .rfl
      · exact (habove.declaredIn rfl).yields_kind
      · obtain ⟨o, -, hobject, -⟩ := (H.later (hT.trans hU)).declaredBy_object habove
        exact DeclaredIn.yields_kind hobject
    refine (Yields.typeNode (Q := fun _ k => k.kind = .declared) hview).bind fun V k hV hk => ?_
    rw [if_neg (not_not.2 (hk V .rfl)), hn.2.1]
    have harguments : Yields V (Action.either (return ([] : List TypeId).isEmpty)
        (j.containsArguments p s above)) fun _ b => b = true :=
      .either (yields_pure fun _ _ => rfl) (fun _ _ _ => rfl)
        fun W _ hfalse => Bool.noConfusion (hfalse W .rfl)
    have hSV := hT.trans (hU.trans hV)
    refine harguments.both (fun W hW _ => ?_) fun _ _ hfalse => Bool.noConfusion hfalse
    exact (yields_enclosingBelow (hn.later (hSV.trans hW))).imp fun X b hX hb => by
      rw [hb]
      exact hanswer X (hV.trans (hW.trans hX))

section Array

variable {c : TypeId} (ht : S.Shows t u m) (hm : m.shape = .array (some c)) (hs : S.Shows s v n)

include ht hm hs

/-- An array is below the classes above arrays. -/
theorem yields_arrayBelow_declared (H : S.PlainClasses C enough) (hn : S.PlainDeclared C n) :
    Yields S (j.arrayBelow p (some c) n) fun T b => T.BelowDenoted t s b := by
  obtain ⟨d, hd⟩ := n.shape_of_declared hn.1
  rw [Judgements.arrayBelow, hd]
  refine (H.wellKnown.and_known).bind fun T known hT hknown => ?_
  refine (yields_isClass (hs.mono hT.le) (hn.later hT)).bind fun U r hU hr => ?_
  obtain ⟨e, rfl, -, hclass⟩ := hr U .rfl
  refine yields_pure fun V hV g h hg hh => ?_
  have htV := ht.mono (hT.trans (hU.trans hV)).le
  obtain ⟨g', rfl, -⟩ := hg.exists_component htV hm
  rw [hh.unique (h := .ofClass e) (hclass.mono hV.le), Ground.below_array_ofClass_iff]
  obtain ⟨hknownV, -⟩ := hknown V (hU.trans hV)
  constructor
  · exact fun he => ⟨known, hknownV, he⟩
  · rintro ⟨known', hknown', he⟩
    rwa [hknownV.unique hknown']

/-- Arrays of references are compared by their components. Those of primitive types must be the same. -/
theorem yields_arrayBelow_array {d : TypeId} (hn : n.shape = .array (some d)) (hc : S.Plain C depth c)
    (hsame : ∀ T, Later S T → Yields T (j.sameType p c d) fun U b => U.SameDenoted c d b)
    (hsub : ∀ T, Later S T → Yields T (j.subtype p false c d) fun U b => U.BelowDenoted c d b) :
    Yields S (j.arrayBelow p (some c) n) fun T b => T.BelowDenoted t s b := by
  rw [Judgements.arrayBelow, hn]
  have hkind : Yields S (onStore (typeKind c)) fun T k => ∀ g, T.Denotes c g → g.kind = k :=
    .typeKind ((Yields.peekType hc).imp fun T x _ hx g hg => (hg.kind_eq hx.1).symm)
  refine hkind.bind fun T k hT hk => ?_
  have hbelow : ∀ {V b}, Later T V → (∀ g h, V.Denotes c g → V.Denotes d h →
        (b = true ↔ if k.isPrimitive then g = h else g.Below V h)) → V.BelowDenoted t s b := by
    intro V b hV hb g h hg hh
    have hSV := hT.trans hV
    obtain ⟨g', rfl, hg'⟩ := hg.exists_component (ht.mono hSV.le) hm
    obtain ⟨h', rfl, hh'⟩ := hh.exists_component (hs.mono hSV.le) hn
    rw [hb g' h' hg' hh', Ground.below_array_iff, hk V hV g' hg']
  split
  · next hprimitive =>
    refine (hsame T hT).imp fun V b hV hb => hbelow hV fun g h hg hh => ?_
    rw [if_pos hprimitive]
    exact hb g h hg hh
  · next hreference =>
    refine (hsub T hT).imp fun V b hV hb => hbelow hV fun g h hg hh => ?_
    rw [if_neg hreference]
    exact hb g h hg hh

/-- Nothing else is above an array. -/
theorem yields_arrayBelow_atom (hn : (∃ q, n.shape = .primitive q) ∨ n.shape = .null) :
    Yields S (j.arrayBelow p (some c) n) fun T b => T.BelowDenoted t s b := by
  have hfalse : j.arrayBelow p (some c) n = pure false := by
    rcases hn with ⟨q, hq⟩ | hnull
    · rw [Judgements.arrayBelow, hq]
    · rw [Judgements.arrayBelow, hnull]
  rw [hfalse]
  refine yields_pure fun V hV g h hg hh => iff_of_false Bool.false_ne_true ?_
  obtain ⟨g', rfl, -⟩ := hg.exists_component (ht.mono hV.le) hm
  have hkind := hh.kind_eq (hs.mono hV.le)
  rw [TypeNode.kind] at hkind
  intro hbelow
  rcases hn with ⟨q, hq⟩ | hnull
  · rw [hq] at hkind
    cases hbelow <;> cases hkind
  · rw [hnull] at hkind
    cases hbelow <;> cases hkind

end Array

include H in
/-- The comparison by kinds, from the comparisons of the parts. -/
theorem yields_belowByKind (hbound : ∀ a, C a → a.index < bound)
    (hf : bound + 5 ≤ j.fuel) {capturing : Bool} (ht : S.Shows t t m)
    (hs : S.Shows s v n) (hm : PlainNode C depth S m) (hn : PlainNode C depth S n)
    (hsame : ∀ k, depth = k + 1 → ∀ T c d, Later S T → T.Plain C k c → T.Plain C k d →
      Yields T (j.sameType p c d) fun U b => U.SameDenoted c d b)
    (hsub : ∀ k, depth = k + 1 → ∀ T c d, Later S T → T.Plain C k c → T.Plain C k d →
      Yields T (j.subtype p false c d) fun U b => U.BelowDenoted c d b) :
    Yields S (j.belowByKind p capturing t s n) fun T b => T.BelowDenoted t s b := by
  refine (yields_typeNode_of_peek ht).bind fun T m' hT hm' => ?_
  obtain rfl := hm' T .rfl
  have htT := ht.mono hT.le
  have hsT := hs.mono hT.le
  have hnT := hn.later hT
  have hkinds : ∀ {V g h}, Later T V → V.Denotes t g → V.Denotes s h →
      g.kind = m'.kind ∧ h.kind = n.kind := fun hV hg hh =>
    ⟨(hg.kind_eq (htT.mono hV.le)).symm, (hh.kind_eq (hsT.mono hV.le)).symm⟩
  rcases hm.cases with (⟨q, hq⟩ | hnull | hdeclared) | ⟨k, c, rfl, harray, hc⟩
  · rw [hq]
    have hg' : ∀ {V g h}, Later T V → V.Denotes t g → V.Denotes s h → g = .primitive q := by
      intro V g h hV hg hh
      obtain ⟨hg', -⟩ := hkinds hV hg hh
      rw [TypeNode.kind, hq] at hg'
      exact Ground.eq_primitive_of_kind hg'
    cases hshape : n.shape with
    | primitive r =>
      refine yields_pure fun V hV g h hg hh => ?_
      obtain ⟨-, hh'⟩ := hkinds hV hg hh
      rw [TypeNode.kind, hshape] at hh'
      rw [hg' hV hg hh, Ground.eq_primitive_of_kind hh', Ground.below_primitive_iff]
      simp
    | _ =>
      refine yields_pure fun V hV g h hg hh => iff_of_false Bool.false_ne_true ?_
      obtain ⟨-, hh'⟩ := hkinds hV hg hh
      rw [hg' hV hg hh, Ground.below_primitive_iff]
      rintro ⟨r, rfl, -⟩
      cases hshape.symm.trans (n.shape_of_primitive hh'.symm)
  · rw [hnull]
    refine yields_pure fun V hV g h hg hh => ?_
    obtain ⟨hg', hh'⟩ := hkinds hV hg hh
    rw [TypeNode.kind, hnull] at hg'
    rw [Ground.eq_null_of_kind hg', Ground.below_null_iff, hh']
  · obtain ⟨d, hd⟩ := m'.shape_of_declared hdeclared.1
    rw [hd]
    dsimp only
    split
    · next hk =>
      exact yields_belowDeclared (H.later hT) hbound hf htT hsT (hdeclared.later hT)
        (hnT.plainDeclared hk)
    · next hk =>
      refine yields_pure fun V hV g h hg hh => iff_of_false Bool.false_ne_true ?_
      obtain ⟨hg', hh'⟩ := hkinds hV hg hh
      obtain ⟨a, rfl, -⟩ := hg.exists_class (htT.mono hV.le) hdeclared.1
      intro hbelow
      obtain ⟨b, rfl, -⟩ := Ground.below_ofClass_iff.1 hbelow
      exact hk hh'.symm
  · rw [harray]
    rcases hnT.cases with (hatom | hatom | hdeclared) | ⟨k', d, hk, harray', hd⟩
    · exact yields_arrayBelow_atom htT harray hsT (.inl hatom)
    · exact yields_arrayBelow_atom htT harray hsT (.inr hatom)
    · exact yields_arrayBelow_declared htT harray hsT (H.later hT) hdeclared
    · cases hk
      exact yields_arrayBelow_array htT harray hsT harray' (.later hc hT)
        (fun U hU => hsame k rfl U c d (hT.trans hU) (.later hc (hT.trans hU)) (.later hd hU))
        fun U hU => hsub k rfl U c d (hT.trans hU) (.later hc (hT.trans hU)) (.later hd hU)

/-- A type without generics is a subtype of another if it denotes a ground type below. -/
theorem yields_subtype (hbound : ∀ a, C a → a.index < bound) :
    ∀ {depth level : Nat} {S : Session} (_ : S.PlainClasses C enough) {capturing : Bool}
      {t s : TypeId}, S.config.includeAnnotations = false → depth + bound + enough + 8 ≤ level →
        S.Plain C depth t → S.Plain C depth s →
          Yields S ((judgements level).subtype p capturing t s) fun T b => T.BelowDenoted t s b
  | depth, 0, S, H, capturing, t, s, _, hlevel, _, _ => by omega
  | depth, level + 1, S, H, capturing, t, s, hconfig, hlevel, ht, hs => by
      obtain ⟨level, rfl⟩ : ∃ k, level = k + 1 := ⟨level - 1, by omega⟩
      have hfuel : bound + 5 ≤ (judgements (level + 1)).fuel := show bound + 5 ≤ level by omega
      refine (Yields.resolveType (Q := fun T u => ∃ m, T.Shows t u m ∧
        PlainNode C depth T m) ((Yields.peekType ht).imp fun _ x _ hx => ⟨x.2, hx⟩)).bind
          fun T u hT hu => ?_
      refine (Yields.peekType (Yields.later hs hT)).bind fun U x hU hx => ?_
      obtain ⟨m, htU, hm⟩ := hu U hU
      obtain ⟨hsU, hn⟩ := hx U .rfl
      have hSU := hT.trans hU
      have hconfigU : ∀ V, Later U V → V.config.includeAnnotations = false := fun V hV => by
        rw [(hSU.trans hV).le.config, hconfig]
      have huU := htU.self
      have hvU := Store.peekType_self hsU
      refine (yields_sameType (H.later hSU) (hconfigU U .rfl) (by omega)
        (plain_of_peek huU hm) (plain_of_peek hvU hn)).bind fun V b hV hsame => ?_
      cases b with
      | true =>
        refine yields_pure fun W hW g h hg hh => iff_of_true rfl ?_
        have hUW := hV.trans hW
        have hgh : g = h := (hsame W hW g h (hg.of_node (htU.mono hUW.le))
          (hh.of_node (peekType_mono hUW.le.store hsU))).1 rfl
        rw [hgh]
        exact Ground.Below.refl W h
      | false =>
        have hnV := hn.later hV
        have hvV := peekType_mono hV.le.store hvU
        rw [if_neg Bool.false_ne_true]
        split
        case h_1 hshape | h_2 hshape =>
          exact absurd hn.kind (by simp [TypeNode.kind, hshape, TypeShape.kind])
        have hf : 1 ≤ (judgements (level + 1)).fuel := by omega
        refine (yields_wildLowerBound hf hvV hnV).bind_eq fun W hW => ?_
        refine (yields_captureLowerBound hf (peekType_mono hW.le.store hvV) (hnV.later hW)).bind_eq
          fun X hX => ?_
        refine Yields.bind (Yields.both (P := fun _ b => b = false)
          (yields_pure fun _ _ => decide_eq_false (not_not.2 rfl))
          (fun Y _ htrue => Bool.noConfusion (htrue Y .rfl)) fun _ _ h => h) fun Y b hY hb => ?_
        obtain rfl := hb Y .rfl
        have hUY := hV.trans (hW.trans (hX.trans hY))
        have hHY := H.later (hSU.trans hUY)
        refine yields_captured hHY (by omega) (huU.mono hUY.le) (hm.later hUY) fun Z hZ => ?_
        have hUZ := hUY.trans hZ
        refine (yields_belowByKind (hHY.later hZ) hbound hfuel (huU.mono hUZ.le)
          (peekType_mono hUZ.le.store hvU) (hm.later hUZ) (hn.later hUZ) ?_ ?_).imp
            fun A b hA hb => hb.congr (htU.mono (hUZ.trans hA).le)
              (peekType_mono (hUZ.trans hA).le.store hsU)
        · rintro k rfl A c d hA hc hd
          exact yields_sameType (hHY.later (hZ.trans hA)) (hconfigU A (hUZ.trans hA)) (by omega) hc hd
        · rintro k rfl A c d hA hc hd
          exact yields_subtype hbound (hHY.later (hZ.trans hA)) (hconfigU A (hUZ.trans hA)) (by omega)
            hc hd

end Subtype

/-! ### The order -/

/-- A type that has no parts, or is declared by a class in `C`, denotes something in the end. -/
theorem PlainAtom.exists_denotes (hn : S.PlainAtom C n) (ht : S.Shows t u n) :
    ∃ T g, Later S T ∧ T.Denotes t g ∧ g.Within C := by
  rcases hn with ⟨p, hp⟩ | hnull | hdeclared
  · exact ⟨S, .primitive p, .refl S, ⟨u, n, ht, hp⟩, trivial⟩
  · exact ⟨S, .null, .refl S, ⟨u, n, ht, hnull⟩, trivial⟩
  · obtain ⟨r, T, -, hT, hr⟩ := yields_isClass ht hdeclared S .rfl
    obtain ⟨e, -, he, hclass⟩ := hr T .rfl
    exact ⟨T, .ofClass e, hT, hclass, he⟩

/-- A type without generics denotes something in the end. -/
theorem Plain.exists_denotes (ht : S.Plain C depth t) :
    ∃ T g, Later S T ∧ T.Denotes t g ∧ g.Within C := by
  induction depth generalizing S t with
  | zero =>
    obtain ⟨⟨u, n⟩, T, -, hT, hx⟩ := Yields.peekType ht S .rfl
    obtain ⟨htT, hn⟩ := hx T .rfl
    obtain ⟨U, g, hU, hg⟩ := PlainAtom.exists_denotes hn htT
    exact ⟨U, g, hT.trans hU, hg⟩
  | succ depth ih =>
    obtain ⟨⟨u, n⟩, T, -, hT, hx⟩ := Yields.peekType ht S .rfl
    obtain ⟨htT, hn | ⟨c, hc, hcomponent⟩⟩ := hx T .rfl
    · obtain ⟨U, g, hU, hg⟩ := hn.exists_denotes htT
      exact ⟨U, g, hT.trans hU, hg⟩
    · obtain ⟨U, g, hU, hg, hwithin⟩ := ih hcomponent
      exact ⟨U, .array g, hT.trans hU, ⟨u, n, c, peekType_mono hU.le.store htT, hc, hg⟩, hwithin⟩

/-- Fuel enough for every class once, and for every level of arrays. -/
def plainFuel (S : Session) (depth enough : Nat) : Nat :=
  depth + S.store.elements.size + enough + 8

section Order

variable {enough : Nat} (H : S.PlainClasses C enough)
  (hconfig : S.config.includeAnnotations = false)

theorem yields_answeredBy {α : Type} {hook : Hooks → Option α} (hhook : hook S.hooks = none)
    {x : Query α} {Q : Session → α → Prop} (hx : Yields S x Q) : Yields S (answeredBy hook x) Q := by
  intro T hT
  rw [answeredBy_apply, hT.le.hooks, hhook]
  exact hx T hT

include H hconfig

theorem yields_isSubtype (hhook : S.hooks.isSubtype t s = none) {fuel : Nat}
    (hfuel : S.plainFuel depth enough ≤ fuel) (ht : S.Plain C depth t)
    (hs : S.Plain C depth s) :
    Yields S (isSubtype fuel t s) fun T b => T.BelowDenoted t s b := by
  have hbound : ∀ a, C a → a.index < S.store.elements.size := by
    intro a ha
    obtain ⟨m, hm, -⟩ := H.classes ha
    exact Store.index_lt_of_peekElement hm
  refine yields_answeredBy hhook ?_
  refine (yields_of_known (known_config.2 rfl)).bind fun T c hT hc => ?_
  have hconfigT : T.config.includeAnnotations = false := by rw [hT.le.config, hconfig]
  exact yields_subtype hbound (H.later hT) hconfigT hfuel (.later ht hT) (.later hs hT)

theorem yields_isSameType (hhook : S.hooks.sameType t s = none) {fuel : Nat}
    (hfuel : S.plainFuel depth enough ≤ fuel) (ht : S.Plain C depth t) (hs : S.Plain C depth s) :
    Yields S (isSameType fuel t s) fun T b => T.SameDenoted t s b := by
  unfold plainFuel at hfuel
  exact yields_answeredBy hhook (yields_sameType H hconfig (by omega) ht hs)

/-- Subtyping is a partial order on the types without generics, where no host answers: every such type
is a subtype of itself; of two questions with the answer yes, one after the other, follows the same
answer to the third; and if no class is above itself, two types that are subtypes of each other are the
same. In between more may be asked. -/
theorem isSubtype_partialOrder (hsubtype : ∀ a b, S.hooks.isSubtype a b = none)
    (hsameType : ∀ a b, S.hooks.sameType a b = none) (ht : S.Plain C depth t)
    (hs : S.Plain C depth s) (hu : S.Plain C depth u) {f g h : Nat}
    (hf : S.plainFuel depth enough ≤ f) (hg : S.plainFuel depth enough ≤ g)
    (hh : S.plainFuel depth enough ≤ h) :
    (∃ S', isSubtype f t t S = (.ok true, S')) ∧
    (∀ {S₁ S₂ S₃ S₄}, isSubtype f t s S = (.ok true, S₁) → Later S₁ S₂ →
      isSubtype g s u S₂ = (.ok true, S₃) → Later S₃ S₄ →
        ∃ S₅, isSubtype h t u S₄ = (.ok true, S₅)) ∧
    ((∀ T, Later S T → ∀ a, C a → ¬ Relation.TransGen T.Extends a a) →
      ∀ {S₁ S₂ S₃ S₄}, isSubtype f t s S = (.ok true, S₁) → Later S₁ S₂ →
        isSubtype g s t S₂ = (.ok true, S₃) → Later S₃ S₄ →
          ∃ S₅, isSameType h t s S₄ = (.ok true, S₅)) := by
  have hts := yields_isSubtype H hconfig (hsubtype t s) hf ht hs
  refine ⟨?_, ?_, ?_⟩
  · obtain ⟨b, U, hb, hU, hbelow⟩ :=
      yields_isSubtype H hconfig (hsubtype t t) hf ht ht S .rfl
    obtain ⟨W, k, hW, hk, -⟩ := Plain.exists_denotes (Yields.later ht hU)
    obtain rfl := (hbelow W hW k k hk hk).2 (Ground.Below.refl W k)
    exact ⟨U, hb⟩
  · intro S₁ S₂ S₃ S₄ h₁ hS₂ h₂ hS₄
    obtain ⟨hS₁, hbelow₁⟩ := hts.of_eq_ok .rfl h₁
    obtain ⟨hS₃, hbelow₂⟩ :=
      (yields_isSubtype H hconfig (hsubtype s u) hg hs hu).of_eq_ok (hS₁.trans hS₂) h₂
    obtain ⟨b, U, hb, hU, hbelow₃⟩ := yields_isSubtype H hconfig (hsubtype t u) hh ht hu S₄
      (hS₁.trans (hS₂.trans (hS₃.trans hS₄)))
    -- In some later session it is known what all three types denote.
    have hSU := hS₁.trans (hS₂.trans (hS₃.trans (hS₄.trans hU)))
    obtain ⟨V, i, hV, hi, -⟩ := Plain.exists_denotes (Yields.later ht hSU)
    obtain ⟨V', j, hV', hj, -⟩ := Plain.exists_denotes (Yields.later hs (hSU.trans hV))
    obtain ⟨W, k, hW, hk, -⟩ := Plain.exists_denotes (Yields.later hu (hSU.trans (hV.trans hV')))
    have hi := hi.mono (hV'.trans hW).le
    have hj := hj.mono hW.le
    have hUW := hV.trans (hV'.trans hW)
    have hij := (hbelow₁ W (hS₂.trans (hS₃.trans (hS₄.trans (hU.trans hUW)))) i j hi hj).1 rfl
    have hjk := (hbelow₂ W (hS₄.trans (hU.trans hUW)) j k hj hk).1 rfl
    obtain rfl := (hbelow₃ W hUW i k hi hk).2 (hij.trans (H.later (hSU.trans hUW)) hjk)
    exact ⟨U, hb⟩
  · intro hacyclic S₁ S₂ S₃ S₄ h₁ hS₂ h₂ hS₄
    obtain ⟨hS₁, hbelow₁⟩ := hts.of_eq_ok .rfl h₁
    obtain ⟨hS₃, hbelow₂⟩ :=
      (yields_isSubtype H hconfig (hsubtype s t) hg hs ht).of_eq_ok (hS₁.trans hS₂) h₂
    obtain ⟨b, U, hb, hU, hsame⟩ := yields_isSameType H hconfig (hsameType t s) hh ht hs S₄
      (hS₁.trans (hS₂.trans (hS₃.trans hS₄)))
    have hSU := hS₁.trans (hS₂.trans (hS₃.trans (hS₄.trans hU)))
    obtain ⟨V, i, hV, hi, hwithin⟩ := Plain.exists_denotes (Yields.later ht hSU)
    obtain ⟨W, j, hW, hj, -⟩ := Plain.exists_denotes (Yields.later hs (hSU.trans hV))
    have hi := hi.mono hW.le
    have hUW := hV.trans hW
    have hij := (hbelow₁ W (hS₂.trans (hS₃.trans (hS₄.trans (hU.trans hUW)))) i j hi hj).1 rfl
    have hji := (hbelow₂ W (hS₄.trans (hU.trans hUW)) j i hj hi).1 rfl
    have hSW := hSU.trans hUW
    obtain rfl := (hsame W hUW i j hi hj).2
      (hij.antisymm (H.later hSW) (hacyclic W hSW) hwithin hji)
    exact ⟨U, hb⟩

end Order

/-- A session with a class `A` that is cloneable, two types of it, and the arrays of these two at 19
and 20. -/
def cloneableArrays : Session :=
  ofNodes
    [.ofClass 3 [], .ofClass 3 [], .arrayOf 17, .arrayOf 18]
    [.ofType "A" 17 .plain { interfaces := [⟨15⟩] }]

/-- The classes of `cloneableArrays`. -/
def cloneableClasses : List ElementId :=
  [⟨0⟩, ⟨1⟩, ⟨2⟩, ⟨3⟩]

theorem plainDeclared_cloneableArrays {e : ElementId} {k : ElementNode}
    (he : cloneableArrays.store.peekElement e = some (e, k)) (hmem : C e) :
    cloneableArrays.PlainDeclared C { shape := .declared { element := some e } } :=
  ⟨rfl, rfl, (yields_viewType_of_peek rfl).imp fun _ _ _ hx => by rw [hx]; rfl,
    e, rfl, (yields_viewElement_of_peek he).imp fun _ _ _ hx => by rw [hx]; exact hmem⟩

theorem known_wellKnown_cloneableArrays :
    Known wellKnown cloneableArrays languageClasses := rfl

theorem plainClasses_cloneableArrays :
    cloneableArrays.PlainClasses (· ∈ cloneableClasses) 3 where
  absent := ⟨_, rfl, rfl⟩
  classes := by
    have himplicit : Yields cloneableArrays wellKnown fun _ known =>
        known.object ∈ cloneableClasses :=
      (yields_of_known known_wellKnown_cloneableArrays).imp
        fun _ _ _ hk => by rw [hk]; decide
    intro e he
    rcases List.mem_cons.1 he with rfl | he
    · exact ⟨_, rfl, rfl, nofun, fun _ _ => himplicit, nofun⟩
    rcases List.mem_cons.1 he with rfl | he
    · exact ⟨_, rfl, rfl, nofun, nofun, nofun⟩
    rcases List.mem_cons.1 he with rfl | he
    · exact ⟨_, rfl, rfl, nofun, nofun, nofun⟩
    obtain rfl := List.mem_singleton.1 he
    refine ⟨_, rfl, rfl, nofun, fun _ _ => himplicit, fun t ht => ?_⟩
    obtain rfl := List.mem_singleton.1 ht
    exact plainType_of_peek rfl (plainDeclared_cloneableArrays rfl (by decide))
  wellKnown := by
    refine (yields_of_known known_wellKnown_cloneableArrays).imp
      fun T known hT hk => ?_
    subst hk
    have hobject : ∀ D : ElementId → Prop, D ⟨0⟩ → T.PlainType D ⟨14⟩ := fun D hD =>
      Yields.later (plainType_of_peek rfl (plainDeclared_cloneableArrays rfl hD)) hT
    have hnone : ∀ e k, cloneableArrays.store.peekElement e = some (e, k) → k.interfaces = [] →
        k.superclass = none → T.NamesNone e := fun e k he hi hs =>
      NamesNone.later ⟨k, he, hi, by rw [hs]; nofun⟩ hT
    exact ⟨⟨Yields.imp (hobject (· = ⟨0⟩) rfl) fun _ _ _ hx => ⟨hx.1, hx.2.2.2⟩, hobject _⟩,
      hnone ⟨0⟩ _ rfl rfl rfl, hnone ⟨1⟩ _ rfl rfl rfl, hnone ⟨2⟩ _ rfl rfl rfl⟩
  distinct := by
    intro a b ha hb hne fuel hfuel
    have hknown : Known (onStore (cloneableArrays.config.equality.elements 3 a b)) cloneableArrays
        false := by
      simp only [cloneableClasses, List.mem_cons, List.not_mem_nil, or_false] at ha hb
      rcases ha with rfl | rfl | rfl | rfl <;> rcases hb with rfl | rfl | rfl | rfl <;>
        first | exact absurd rfl hne | rfl
    have : Fact (3 ≤ fuel) := ⟨hfuel⟩
    exact yields_of_known hknown

theorem plain_cloneableArrays {t c : TypeId}
    (ht : cloneableArrays.store.peekType t = some (t, { shape := .array (some c) }))
    (hc : cloneableArrays.store.peekType c = some (c, { shape := .declared { element := some ⟨3⟩ } })) :
    cloneableArrays.Plain (· ∈ cloneableClasses) 1 t := by
  have hcomponent : cloneableArrays.Plain (· ∈ cloneableClasses) 0 c :=
    plain_of_peek hc (.inr (.inr (plainDeclared_cloneableArrays rfl (by decide))))
  exact plain_of_peek ht (.inr ⟨c, rfl, hcomponent⟩)

/-- The arrays are cloneable, whichever of the two types they have, and these are the same. -/
theorem isSubtype_partialOrder_cloneableArrays :
    isSubtype 20 ⟨19⟩ ⟨20⟩ cloneableArrays = (.ok true, cloneableArrays) ∧
      isSubtype 20 ⟨20⟩ ⟨15⟩ cloneableArrays = (.ok true, cloneableArrays) ∧
      (∃ S, isSubtype 20 ⟨19⟩ ⟨15⟩ cloneableArrays = (.ok true, S)) ∧
      ∃ S, isSameType 20 ⟨19⟩ ⟨20⟩ cloneableArrays = (.ok true, S) := by
  have hu : cloneableArrays.Plain (· ∈ cloneableClasses) 1 ⟨15⟩ :=
    plain_of_peek rfl (Or.inl (Or.inr (Or.inr (plainDeclared_cloneableArrays rfl (by decide)))))
  have hlaws := isSubtype_partialOrder (f := 20) (g := 20) (h := 20) plainClasses_cloneableArrays rfl
    (fun _ _ => rfl) (fun _ _ => rfl) (plain_cloneableArrays (t := ⟨19⟩) rfl rfl)
    (plain_cloneableArrays (t := ⟨20⟩) rfl rfl) hu (by decide) (by decide) (by decide)
  have hts : isSubtype 20 ⟨19⟩ ⟨20⟩ cloneableArrays = (.ok true, cloneableArrays) := rfl
  have hsu : isSubtype 20 ⟨20⟩ ⟨15⟩ cloneableArrays = (.ok true, cloneableArrays) := rfl
  have hst : isSubtype 20 ⟨20⟩ ⟨19⟩ cloneableArrays = (.ok true, cloneableArrays) := rfl
  have hclasses : ∀ e ∈ cloneableClasses,
      cloneableArrays.listsClass languageClasses cloneableClasses e = true := by decide +kernel
  exact ⟨hts, hsu, hlaws.2.1 hts .rfl hsu .rfl,
    hlaws.2.2 (fun T hT a => not_above_self_of_listsClass known_wellKnown_cloneableArrays hclasses hT)
      hts .rfl hst .rfl⟩

end Session

end JavaTypes
