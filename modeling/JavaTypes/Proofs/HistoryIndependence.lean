import JavaTypes.Proofs.SortedClosures

/-!
# Closures do not depend on what was asked before

Two sessions with the same settings can ask about one store, each with its own questions. What they
remember is different, and so are the types that they derive. The closures that they find for a type
of a table of classes list the same classes in the same places.

* `Action.Forgetful x`: the settings and what the session remembers make no difference to `x`;
* `IsClosure.withMemo`: whether a list is a closure does not depend on what is remembered;
* `Session.closure_historyIndependent`: two sessions list the same classes.

That equality tells the classes of a table apart is needed here (`Session.twins`).
-/

namespace JavaTypes

open Action

namespace Action

variable {α β : Type} {x : Query α} {f : α → Query β} {T : Session} {a : α}

/-- The question does not look at the settings and at what the session remembers, and leaves them as
they are. -/
class Forgetful (x : Query α) : Prop where
  run : ∀ T c m, x { T with config := c, memo := m } =
    ((x T).1, { (x T).2 with config := c, memo := m })

instance forgetful_pure (a : α) : Forgetful (pure a : Query α) where
  run _ _ _ := rfl

instance forgetful_throw (e : Fault) : Forgetful (throw e : Query α) where
  run _ _ _ := rfl

instance forgetful_onStore (x : Build α) : Forgetful (onStore x) where
  run _ _ _ := rfl

theorem forgetful_bind [hx : Forgetful x] (hf : ∀ a, Forgetful (f a)) : Forgetful (x >>= f) := by
  refine ⟨fun T c m => ?_⟩
  rw [bind_apply, bind_apply, hx.run T c m]
  cases hr : x T with
  | mk r U =>
    cases r with
    | ok a => exact (hf a).run U c m
    | error e => rfl

/-- A question that reads the session, but nothing of the settings and of what it remembers. -/
theorem forgetful_get_bind {f : Session → Query β}
    (h : ∀ T c m, f { T with config := c, memo := m } = f T) (hf : ∀ T, Forgetful (f T)) :
    Forgetful (get >>= f) := by
  refine ⟨fun T c m => ?_⟩
  show f { T with config := c, memo := m } { T with config := c, memo := m } = _
  rw [h, (hf T).run T c m]
  rfl

theorem Known.withSettings [hx : Forgetful x] (h : Known x T a) (c : Config) (m : Memo) :
    Known x { T with config := c, memo := m } a := by
  have hm := hx.run T c m
  rw [show x T = (.ok a, T) from h] at hm
  exact hm

end Action

instance forgetful_requireTypeElement (name : String) : Forgetful (requireTypeElement name) := by
  have : Forgetful (typeElement name) := forgetful_get_bind (fun _ _ _ => rfl) fun T => by
    split <;> infer_instance
  refine forgetful_bind fun found => ?_
  cases found with
  | none => infer_instance
  | some e =>
    refine forgetful_bind (x := onStore (viewElement e)) fun x => ?_
    dsimp only
    cases x.2.type <;> infer_instance

instance forgetful_wellKnown : Forgetful wellKnown :=
  forgetful_bind fun _ => forgetful_bind fun _ => forgetful_bind fun _ => inferInstance

instance forgetful_superclassNamed (e : ElementId) : Forgetful (superclassNamed e) := by
  have : Forgetful objectElement := forgetful_bind fun _ => inferInstance
  have : Forgetful objectType := forgetful_bind fun _ => inferInstance
  refine forgetful_bind (x := onStore (elementKind e)) fun _ => ?_
  split
  · infer_instance
  refine forgetful_bind fun _ => ?_
  split
  · infer_instance
  refine forgetful_bind (x := onStore (declaredSuperclass e)) fun named => ?_
  cases named with
  | some named => exact forgetful_onStore _
  | none => exact forgetful_bind fun _ => inferInstance

instance forgetful_supertypesNamed (e : ElementId) : Forgetful (supertypesNamed e) :=
  forgetful_bind fun _ => forgetful_bind (x := onStore (declaredInterfaces e)) fun _ => inferInstance

namespace Session

variable {S T U V : Session} {C : ElementId → Prop} {enough fuel : Nat} {A : Inquiry C enough}
  {a b e : ElementId} {t : TypeId} {r r' : List TypeId} {n : Nat}

/-! ### Settings and what is remembered make no difference -/

section WithSettings

variable (c : Config) (m : Memo)

theorem IsObject.withSettings (h : T.IsObject e) : IsObject { T with config := c, memo := m } e := by
  obtain ⟨known, hknown, rfl⟩ := h
  exact ⟨known, hknown.withSettings c m, rfl⟩

theorem Surveyed.withSettings (h : T.Surveyed e) : Surveyed { T with config := c, memo := m } e := by
  obtain ⟨named, hnamed, hclasses⟩ := h
  exact ⟨named, hnamed.withSettings c m, hclasses⟩

theorem Extends.withSettings (h : T.Extends a b) :
    Extends { T with config := c, memo := m } a b := by
  obtain ⟨named, t, hnamed, ht, hb⟩ := h
  exact ⟨named, t, hnamed.withSettings c m, ht, hb⟩

theorem extends_withSettings : Extends { T with config := c, memo := m } = T.Extends := by
  funext a b
  exact propext ⟨fun h => h.withSettings T.config T.memo, fun h => h.withSettings c m⟩

theorem RankIs.withSettings (h : T.RankIs e n) : RankIs { T with config := c, memo := m } e n := by
  induction h with
  | object he => exact .object (he.withSettings c m)
  | above rank ho hne hsurveyed _ hle hmax ih =>
    rw [← extends_withSettings c m] at ih hle hmax
    exact .above rank (ho.withSettings c m) hne (hsurveyed.withSettings c m) ih hle hmax

end WithSettings

theorem Before.withMemo (m : Memo) (h : T.Before a b) : Before { T with memo := m } a b := by
  obtain ⟨i, j, x, y, hi, hj, hx, hy, horder⟩ := h
  exact ⟨i, j, x, y, hi.withSettings T.config m, hj.withSettings T.config m,
    hx.withSettings T.config m, hy.withSettings T.config m, horder⟩

/-- Whether a list is a closure does not depend on what the session remembers. -/
theorem IsClosure.withMemo (m : Memo) (h : T.IsClosure a r) : IsClosure { T with memo := m } a r := by
  obtain ⟨classes, hclasses, hsorted, hmem, hsurveyed⟩ := h
  have hreaches : Reaches { T with memo := m } = T.Reaches := by
    unfold Reaches
    rw [extends_withSettings T.config m]
  exact ⟨classes, hclasses, hsorted.imp fun hab => hab.withMemo m, fun b => by rw [hmem, hreaches],
    fun b hb => (hsurveyed b hb).withSettings T.config m⟩

/-! ### Two sessions with one store -/

/-- The first session can be left and the second asked next: it has the same settings, and its store
has grown from that of the first. -/
structure Passes (U V : Session) : Prop where
  store : U.store ≤ V.store
  config : V.config = U.config
  hooks : V.hooks = U.hooks

theorem Passes.isClass (h : Passes U V) (ha : U.IsClass t a) : V.IsClass t a := by
  obtain ⟨u, n, d, m, ht, hk, hd, hm⟩ := ha
  exact ⟨u, n, d, m, peekType_mono h.store ht, hk, hd, peekElement_mono h.store hm⟩

theorem Passes.isClosure (h : Passes U V) (hr : U.IsClosure a r) : V.IsClosure a r := by
  have hle : U ≤ { U with store := V.store } := grows_store h.store
  have hV : { { U with store := V.store } with memo := V.memo } = V := by
    rw [← h.config, ← h.hooks]
  exact hV ▸ (hr.mono hle).withMemo V.memo

/-- Two closures of a class list the same classes. -/
theorem IsClosure.exists_classes (h : T.IsClosure a r) (h' : T.IsClosure a r') :
    ∃ classes, List.Forall₂ T.IsClass r classes ∧ List.Forall₂ T.IsClass r' classes := by
  obtain ⟨classes, hclasses, hsorted, hmem, -⟩ := h
  obtain ⟨classes', hclasses', hsorted', hmem', -⟩ := h'
  have hperm : classes.Perm classes' := (List.perm_ext_iff_of_nodup (hsorted.imp Before.ne)
    (hsorted'.imp Before.ne)).2 fun b => (hmem b).trans (hmem' b).symm
  have heq : classes = classes' := hperm.eq_of_pairwise
    (fun b c _ _ hbc hcb => absurd hcb hbc.asymm) hsorted hsorted'
  exact ⟨classes, hclasses, heq ▸ hclasses'⟩

/-- Whatever was asked in two sessions with the same settings and one store, the closures that they
find for a type list the same classes, position by position. -/
theorem closure_historyIndependent (A : Inquiry C enough) (H : U.ClassTable C) (hU : Queried C U)
    (hA : A.sessions U) (ht : A.Covers C U t)
    (hfuel : 2 * U.store.elements.size + enough + 1 < fuel) :
    A.Answers U (closure fuel t) fun U' r => ∀ V fuel', Passes U' V → V.ClassTable C → Queried C V →
      A.sessions V → 2 * V.store.elements.size + enough + 1 < fuel' →
        A.Answers V (closure fuel' t) fun V' r' => ∃ classes,
          List.Forall₂ U'.IsClass r classes ∧ List.Forall₂ V'.IsClass r' classes := by
  have hkeeps : Keeps U A C True (closure fuel t) fun U' r => U'.ClosureFound C fuel t r :=
    keeps_closure H H.ranked.index_lt fun _ => ⟨ht, hfuel⟩
  refine (hkeeps.answers hU.remembers hA).imp fun U' r hU' V fuel' hpass H' hV hA' hfuel' => ?_
  obtain ⟨hlater, hfound⟩ := hU'
  obtain ⟨a, hta, hclosure, -⟩ := hfound.seenAt (ht.2.later hlater)
  have htV : V.DeclaredIn C t := (hpass.isClass hta).declaredIn ((ht.2.later hlater).mem hta)
  have hkeeps' : Keeps V A C True (closure fuel' t) fun V' r' => V'.ClosureFound C fuel' t r' :=
    keeps_closure H' H'.ranked.index_lt fun _ => ⟨⟨ht.1, htV⟩, hfuel'⟩
  refine (hkeeps'.answers hV.remembers hA').imp fun V' r' hV' => ?_
  obtain ⟨hlater', hfound'⟩ := hV'
  obtain ⟨a', hta', hclosure', -⟩ := hfound'.seenAt (htV.later hlater')
  obtain rfl := ((hpass.isClass hta).mono hlater'.le).unique hta'
  obtain ⟨classes, hr, hr'⟩ := ((hpass.isClosure hclosure).mono hlater'.le).exists_classes hclosure'
  obtain ⟨classes', hr'', -⟩ := hclosure
  have hunique : Relator.RightUnique V'.IsClass := fun _ _ _ => IsClass.unique
  have heq : classes' = classes := List.right_unique_forall₂' hunique
    (hr''.imp fun _ _ h => (hpass.isClass h).mono hlater'.le) hr
  exact ⟨classes, heq ▸ hr'', hr'⟩

/-- A session that asked about an equal type before and a new one with the same store find the closure
of `Box<Cloneable>`. The lists are different, and the classes are the same. -/
theorem closure_historyIndependent_boxes :
    (closure 30 ⟨25⟩ (closure 30 ⟨24⟩ boxes).2).1 = .ok [⟨24⟩, ⟨19⟩, ⟨22⟩, ⟨14⟩] ∧
      (closure 30 ⟨25⟩ { (closure 30 ⟨25⟩ (closure 30 ⟨24⟩ boxes).2).2 with memo := {} }).1 =
        .ok [⟨25⟩, ⟨19⟩, ⟨22⟩, ⟨14⟩] ∧
      ∃ classes, List.Forall₂ (closure 30 ⟨25⟩ (closure 30 ⟨24⟩ boxes).2).2.IsClass
          [⟨24⟩, ⟨19⟩, ⟨22⟩, ⟨14⟩] classes ∧
        List.Forall₂ (closure 30 ⟨25⟩
          { (closure 30 ⟨25⟩ (closure 30 ⟨24⟩ boxes).2).2 with memo := {} }).2.IsClass
            [⟨25⟩, ⟨19⟩, ⟨22⟩, ⟨14⟩] classes := by
  have hfuel' : 2 * (closure 30 ⟨25⟩ (closure 30 ⟨24⟩ boxes).2).2.store.elements.size + 5 + 1 < 30 := by
    decide +kernel
  have hnew : (closure 30 ⟨25⟩ { (closure 30 ⟨25⟩ (closure 30 ⟨24⟩ boxes).2).2 with memo := {} }).1 =
      .ok [⟨25⟩, ⟨19⟩, ⟨22⟩, ⟨14⟩] := by decide +kernel
  have htable : listsTable { (closure 30 ⟨25⟩ (closure 30 ⟨24⟩ boxes).2).2 with memo := {} }
      languageClasses boxClasses = true := by decide +kernel
  obtain ⟨T, hboxes, hlater, H, hqueried, hcovers, hfuel, hfound⟩ := exists_queried_boxes
  rw [← hboxes] at hfuel' hnew htable ⊢
  have hT := hlater.trans ((Recalls.closure 30 ⟨25⟩).later H hqueried.remembers).1
  have hanswers := closure_historyIndependent (Inquiry.all (· ∈ boxClasses) 5) H hqueried trivial
    hcovers hfuel
  have hsame := hanswers.of_ok hfound
  generalize (closure 30 ⟨25⟩ T).2 = U at *
  have hknown : Known wellKnown { U with memo := {} } languageClasses :=
    (known_wellKnown_boxes.mono hT.le).withSettings U.config {}
  have habsent : ∃ n, U.store.peekType TypeId.none = some (TypeId.none, n) ∧ n.kind = .noType .none :=
    ⟨_, peekType_mono hT.le.store rfl, rfl⟩
  have H' := classTable_of_listsTable (S := { U with memo := {} })
    (hT.elements_eq ⟨rfl, rfl⟩).1 rfl habsent hknown htable
  have hpasses : Passes U { U with memo := {} } := ⟨le_rfl, rfl, rfl⟩
  exact ⟨hfound, hnew, (hsame _ 30 hpasses H' (.start rfl rfl) trivial hfuel').of_ok hnew⟩

/-! ### Classes that are not told apart -/

/-- Two modules have a package of the same name, with a class `X` in each. The `X` of the second module
implements an interface. -/
def twins : Session :=
  ofNodes
    [.ofClass 7 [], .ofClass 8 [], .ofClass 9 []]
    [{ name := some "m", detail := .module }, { name := some "n", detail := .module },
     { name := some "p", enclosing := some ⟨3⟩, detail := .package },
     { name := some "p", enclosing := some ⟨4⟩, detail := .package },
     { name := some "I", type := some ⟨17⟩, enclosing := some ⟨6⟩, detail := .type .interface {} },
     { name := some "X", type := some ⟨18⟩, enclosing := some ⟨5⟩, detail := .type .plain {} },
     { name := some "X", type := some ⟨19⟩, enclosing := some ⟨6⟩,
       detail := .type .plain { interfaces := [⟨17⟩] } }]

/-- The classes of `twins`. -/
def twinClasses : List ElementId :=
  [⟨0⟩, ⟨1⟩, ⟨2⟩, ⟨7⟩, ⟨8⟩, ⟨9⟩]

/-- No class of `twins` is above itself. But the two classes `X` equal each other, and the closure of the
second depends on whether that of the first was found before. -/
theorem closure_historyDependent :
    (∀ T, Later twins T → ∀ e ∈ twinClasses, ¬ Relation.TransGen T.Extends e e) ∧
      (closure 30 ⟨19⟩ twins).1 = .ok [⟨19⟩, ⟨17⟩, ⟨14⟩] ∧
        (closure 30 ⟨19⟩ (closure 30 ⟨18⟩ twins).2).1 = .ok [⟨18⟩, ⟨14⟩] := by
  have hknown : Known wellKnown twins languageClasses := rfl
  have hclasses : ∀ e ∈ twinClasses, twins.listsClass languageClasses twinClasses e = true := by
    decide +kernel
  exact ⟨fun T hT e => not_above_self_of_listsClass hknown hclasses hT, by decide +kernel,
    by decide +kernel⟩

end Session

end JavaTypes
