import JavaTypes.Proofs.SubtypeSteps

/-!
# Types that are the same are loosely the same

Asked loosely, a wildcard argument matches as soon as it contains the other argument or is contained in
it. The comparison of types, containment and subtyping use one another, and the arguments are compared
deep inside. No step takes the failure of a test as a reason to hold, so a test that holds strictly does
not fail loosely.

* `Action.Supports x y`: where `x` is known to hold, `y` does not fail;
* `Premises.loosen`: the premises with arguments compared loosely;
* `Judgements.Loosens`: the judgements support themselves with loosened premises, one instance for each
  step;
* `isSameTypeLoose_of_sameType`: the result, whichever of the two is asked first.
-/

namespace JavaTypes

namespace Action

section Supports

variable {σ α : Type} {x y x' y' : Action σ Bool}

/-- Where `x` is known to hold, `y` holds if its answer is known. -/
structure Supports (x y : Action σ Bool) : Prop where
  certain : ∀ {s}, Known x s true → Certain y s

-- As for `Settles`, instance search takes tests apart.
attribute [class] Supports

instance supports_self : Supports x x where
  certain hx _ hb := hb.unique hx

instance supports_ite {c : Prop} [Decidable c] [hx : Supports x x'] [hy : Supports y y'] :
    Supports (if c then x else y) (if c then x' else y') := by
  split
  · exact hx
  · exact hy

variable [Evolving σ] {f g : α → Action σ Bool}

/-- The same reading before two tests. -/
instance supports_bind {x : Action σ α} [Settles x x]
    [∀ a, Settles (f a) (f a)] [h : ∀ a, Supports (f a) (g a)] : Supports (x >>= f) (x >>= g) where
  certain hx := by
    obtain ⟨a, ha, hf⟩ := known_bind.1 hx
    exact .of_known ha ((h a).certain hf)

theorem supports_bind_of {x : Action σ α} [Settles x x]
    (hf : ∀ a, Settles (f a) (f a)) (h : ∀ a, Supports (f a) (g a)) :
    Supports (x >>= f) (x >>= g) :=
  supports_bind

section Pairs

variable [Settles x x] [Settles y y] [Settles x' x'] [Settles y' y'] [hx : Supports x x']
  [hy : Supports y y']

instance supports_both : Supports (both x y) (both x' y') where
  certain h := by
    obtain ⟨hx₁, hy₁⟩ := known_both_true.1 h
    exact (hx.certain hx₁).both (hy.certain hy₁)

instance supports_either : Supports (either x y) (either x' y') where
  certain h := by
    rcases known_either.1 h with ⟨hx₁, -⟩ | ⟨-, hy₁⟩
    · exact (hx.certain hx₁).either_left
    · exact (hy.certain hy₁).either_right

end Pairs

section Lists

variable {r r' : α → α → Action σ Bool} [∀ a b, Settles (r a b) (r a b)]
  [∀ a b, Settles (r' a b) (r' a b)] [h : ∀ a b, Supports (r a b) (r' a b)]

instance supports_sameLists (as bs : List α) : Supports (sameLists r as bs) (sameLists r' as bs) where
  certain hr := certain_sameLists ((known_sameLists_true.1 hr).imp fun a b => (h a b).certain)

omit [Evolving σ] [∀ a b, Settles (r a b) (r a b)] [∀ a b, Settles (r' a b) (r' a b)] in
instance supports_sameOptions (a b : Option α) :
    Supports (sameOptions r a b) (sameOptions r' a b) where
  certain hr := by
    refine certain_sameOptions ?_
    cases known_sameOptions_true.1 hr with
    | some hr => exact .some ((h _ _).certain hr)
    | none => exact .none

end Lists

end Supports

end Action

open Action

/-- The same premises, with arguments compared loosely. -/
def Premises.loosen (p : Premises) : Premises :=
  { p with loose := true }

namespace Judgements

/-- What the judgements find, they do not deny loosely. -/
structure Loosens (j : Judgements) : Prop where
  sameType : ∀ p t s, Supports (j.sameType p t s) (j.sameType p.loosen t s)
  containsType : ∀ p t s, Supports (j.containsType p t s) (j.containsType p.loosen t s)
  subtype : ∀ p t s, Supports (j.subtype p false t s) (j.subtype p.loosen false t s)

attribute [class] Loosens

variable {j : Judgements} [hj : j.Settle j] [h : j.Loosens] (p : Premises)

omit hj in
instance supports_sameType (t s : TypeId) : Supports (j.sameType p t s) (j.sameType p.loosen t s) :=
  h.sameType p t s

omit hj in
instance supports_containsType (t s : TypeId) :
    Supports (j.containsType p t s) (j.containsType p.loosen t s) :=
  h.containsType p t s

omit hj in
instance supports_subtype (t s : TypeId) :
    Supports (j.subtype p false t s) (j.subtype p.loosen false t s) :=
  h.subtype p t s

/-! ### Containment -/

instance supports_sameWildcard (t : TypeId) (m : TypeNode) (s : TypeId) (n : TypeNode) :
    Supports (j.sameWildcard p t m s n) (j.sameWildcard p.loosen t m s n) :=
  supports_ite

instance supports_isCaptureOf (t : TypeId) (m n : TypeNode) :
    Supports (j.isCaptureOf p t m n) (j.isCaptureOf p.loosen t m n) := by
  unfold isCaptureOf
  cases n.capturedFrom <;> infer_instance

instance supports_admitsBelow (t s : TypeId) :
    Supports (j.admitsBelow p t s) (j.admitsBelow p.loosen t s) :=
  supports_either

instance supports_admitsAbove (t s : TypeId) :
    Supports (j.admitsAbove p t s) (j.admitsAbove p.loosen t s) :=
  supports_either

instance supports_containsStep (t s : TypeId) :
    Supports (j.containsStep p t s) (j.containsStep p.loosen t s) :=
  supports_bind

/-- The pairs that are taken for granted are the same. -/
instance supports_containsArguments (t s : TypeId) :
    Supports (j.containsArguments p t s) (j.containsArguments p.loosen t s) := by
  have hlists (x y : TypeId) (ts ss : List TypeId) :
      Supports (j.containsList (p.assume x y) ts ss) (j.containsList (p.loosen.assume x y) ts ss) :=
    supports_sameLists (h := supports_containsType (p.assume x y)) ts ss
  exact supports_bind (h := fun _ => supports_bind (h := fun _ => supports_ite))

/-- The one place where loose premises count: arguments that contain each other match both ways. -/
instance supports_equivalentArguments (t s : TypeId) :
    Supports (j.equivalentArguments p t s) (j.equivalentArguments p.loosen t s) := by
  obtain ⟨loose, assumed⟩ := p
  cases loose with
  | true => exact supports_self
  | false =>
    refine ⟨fun {S} hx => ?_⟩
    rcases known_either.1 hx with ⟨hsame, -⟩ | ⟨-, hx⟩
    · exact .either_left ((supports_sameType _ t s).certain hsame)
    obtain ⟨c, hc, hx⟩ := known_bind.1 hx
    obtain ⟨eitherWay, hway, hx⟩ := known_bind.1 hx
    obtain rfl : eitherWay = false := hway.unique rfl
    obtain ⟨hcontains, hconverse⟩ := known_both_true.1 hx
    obtain rfl := known_pure.1 hcontains
    refine .either_right (.bind fun c' hc' => ?_)
    obtain rfl := (supports_containsType _ t s).certain hc c' hc'
    refine .bind fun way _ => ?_
    split
    · exact .either_left certain_true
    · exact .both certain_true ((supports_containsType _ s t).certain hconverse)

/-! ### Same types -/

instance supports_isAmong (t : TypeId) : ∀ ss, Supports (j.isAmong p t ss) (j.isAmong p.loosen t ss)
  | [] => supports_self
  | _ :: ss =>
      have := supports_isAmong t ss
      supports_either

instance supports_areAmong : ∀ ts ss, Supports (j.areAmong p ts ss) (j.areAmong p.loosen ts ss)
  | [], _ => supports_self
  | _ :: ts, ss =>
      have := supports_areAmong ts ss
      supports_both

instance supports_sameDeclared (m n : TypeNode) :
    Supports (j.sameDeclared p m n) (j.sameDeclared p.loosen m n) :=
  supports_both

instance supports_sameExecutable (m : TypeNode) (s : TypeId) (n : TypeNode) :
    Supports (j.sameExecutable p m s n) (j.sameExecutable p.loosen m s n) :=
  supports_ite

instance supports_sameParts (t : TypeId) (m : TypeNode) (s : TypeId) (n : TypeNode) :
    Supports (j.sameParts p t m s n) (j.sameParts p.loosen t m s n) := by
  unfold sameParts
  cases m.shape <;> cases n.shape <;> infer_instance

instance supports_sameNodes (x y : TypeId × TypeNode) :
    Supports (j.sameNodes p x y) (j.sameNodes p.loosen x y) := by
  have (as bs : List AnnotationUse) : Supports (Equality.sameAnnotations (j.sameType p) as bs)
      (Equality.sameAnnotations (j.sameType p.loosen) as bs) :=
    supports_sameLists as bs
  exact supports_ite

instance supports_sameTypeStep (t s : TypeId) :
    Supports (j.sameTypeStep p t s) (j.sameTypeStep p.loosen t s) := by
  rw [sameTypeStep_eq, sameTypeStep_eq]
  infer_instance

/-! ### Subtypes -/

instance supports_belowAll (t : TypeId) :
    ∀ ss, Supports (j.belowAll p false t ss) (j.belowAll p.loosen false t ss)
  | [] => supports_self
  | _ :: ss =>
      have := supports_belowAll t ss
      supports_both

instance supports_allBelow (s : TypeId) :
    ∀ ts, Supports (j.allBelow p false s ts) (j.allBelow p.loosen false s ts)
  | [] => supports_self
  | _ :: ts =>
      have := supports_allBelow s ts
      supports_both

instance supports_enclosingBelow (m n : TypeNode) :
    Supports (j.enclosingBelow p m n) (j.enclosingBelow p.loosen m n) :=
  supports_bind

instance supports_belowFound (s : TypeId) (n : TypeNode) :
    ∀ r, Supports (j.belowFound p s n r) (j.belowFound p.loosen s n r)
  | none => supports_self
  | some _ => supports_bind

instance supports_belowElement (t s : TypeId) (n : TypeNode) :
    ∀ e, Supports (j.belowElement p t s n e) (j.belowElement p.loosen t s n e)
  | none => supports_self
  | some _ => supports_bind

instance supports_belowDeclared (t s : TypeId) (n : TypeNode) :
    Supports (j.belowDeclared p t s n) (j.belowDeclared p.loosen t s n) := by
  rw [belowDeclared_eq, belowDeclared_eq]
  infer_instance

instance supports_arrayBelow (component : Option TypeId) (n : TypeNode) :
    Supports (j.arrayBelow p component n) (j.arrayBelow p.loosen component n) := by
  unfold arrayBelow
  cases n.shape with
  | array component' => cases component <;> cases component' <;> infer_instance
  | _ => exact supports_self

instance supports_belowByKind (t s : TypeId) (n : TypeNode) :
    Supports (j.belowByKind p false t s n) (j.belowByKind p.loosen false t s n) := by
  refine supports_bind_of (fun m => ?_) fun m => ?_
  · cases m.shape with
    | primitive a => cases n.shape <;> infer_instance
    | _ => infer_instance
  · cases m.shape <;> infer_instance

instance supports_belowOther (t s : TypeId) (n : TypeNode) :
    Supports (j.belowOther p t s n) (j.belowOther p.loosen t s n) :=
  supports_bind

instance supports_belowNode (t s : TypeId) (n : TypeNode) :
    Supports (j.belowNode p t s n) (j.belowNode p.loosen t s n) := by
  unfold belowNode
  cases n.shape <;> infer_instance

instance supports_subtypeStep (t s : TypeId) :
    Supports (j.subtypeStep p false t s) (j.subtypeStep p.loosen false t s) := by
  rw [subtypeStep_eq, subtypeStep_eq]
  exact supports_bind (h := fun t => supports_bind (h := fun x =>
    supports_either (x := j.sameType p t x.1) (y := j.belowNode p t x.1 x.2)))

end Judgements

instance loosens_judgements : ∀ n, (judgements n).Loosens
  | 0 => ⟨fun _ _ _ => supports_self, fun _ _ _ => supports_self, fun _ _ _ => supports_self⟩
  | n + 1 =>
      have := loosens_judgements n
      ⟨Judgements.supports_sameTypeStep, Judgements.supports_containsStep,
        Judgements.supports_subtypeStep⟩

/-- Types that are found to be the same are not found to differ loosely, and types that differ loosely
are not found to be the same. More may be asked in between, and either question may be given more fuel. -/
theorem isSameTypeLoose_of_sameType {f g : Nat} {t s : TypeId} {S S' T : Session} (hlater : S' ≤ T) :
    (sameType f t s S = (.ok true, S') → (isSameTypeLoose g t s T).1 ≠ .ok false) ∧
    (isSameTypeLoose g t s S = (.ok false, S') → (sameType f t s T).1 ≠ .ok true) := by
  have hsupports {U : Session} (hx : Known (sameType f t s) U true) :
      ¬ Known (isSameTypeLoose g t s) U false := fun hy =>
    have hloose : Supports (sameType (max f g) t s) (isSameTypeLoose (max f g) t s) :=
      Judgements.supports_sameType {} t s
    Bool.false_ne_true (hloose.certain (hx.grow le_rfl) false (hy.grow le_rfl))
  refine ⟨fun hx hy => ?_, fun hy hx => ?_⟩
  · cases hT : isSameTypeLoose g t s T with
    | mk r U =>
      obtain rfl : r = .ok false := (congrArg Prod.fst hT).symm.trans hy
      exact hsupports (known_of_ok hx (le_trans hlater (le_of_ok hT))) (known_of_ok hT le_rfl)
  · cases hT : sameType f t s T with
    | mk r U =>
      obtain rfl : r = .ok true := (congrArg Prod.fst hT).symm.trans hx
      exact hsupports (known_of_ok hT le_rfl) (known_of_ok hy (le_trans hlater (le_of_ok hT)))

/-- The arguments `?` and `? extends Object` contain each other. -/
theorem isSameTypeLoose_of_sameType_wildcardLists :
    sameType 12 ⟨19⟩ ⟨20⟩ wildcardLists = (.ok true, wildcardLists) ∧
      (isSameTypeLoose 15 ⟨19⟩ ⟨20⟩ wildcardLists).1 ≠ .ok false := by
  have h : sameType 12 ⟨19⟩ ⟨20⟩ wildcardLists = (.ok true, wildcardLists) := rfl
  exact ⟨h, (isSameTypeLoose_of_sameType le_rfl).1 h⟩

end JavaTypes
