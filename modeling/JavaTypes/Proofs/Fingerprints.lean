import JavaTypes.Proofs.Completions
import JavaTypes.Proofs.StructuralEquality

/-!
# Equal types have equal fingerprints

A comparison completes the handles that it needs and stops early where two handles denote the same
node, so what a fingerprint reads need not be completed by the time two types are found equal. The
fingerprints of both are computed by the same readings all the same.

* `Action.AgreesFrom s x y`: from the state `s` on, the two actions do the same;
* `Equality.agrees_typeFingerprintTo`: the fingerprints of equal types agree, by induction on the depth:
  each part that is read has an equal part on the other side;
* `persists_typeFingerprintTo`: a fingerprint that is computed again is the same, or fails in the same
  way. So it does not matter which of the two types is asked first;
* `Equality.types_elements_fingerprints`: what follows for the comparisons.
-/

namespace JavaTypes

open Action

/-! ### Fingerprints settle -/

instance settles_elementFingerprint (e : ElementId) :
    Settles (elementFingerprint e) (elementFingerprint e) :=
  settles_bind

instance settles_elementFingerprint? (e : Option ElementId) :
    Settles (elementFingerprint? e) (elementFingerprint? e) := by
  unfold elementFingerprint?
  cases e <;> infer_instance

instance settles_concat {f : TypeId → Build Fingerprint} [∀ t, Settles (f t) (f t)] :
    ∀ ts, Settles (Fingerprint.concat f ts) (Fingerprint.concat f ts)
  | [] => settles_pure []
  | _ :: ts =>
      have := settles_concat (f := f) ts
      settles_bind

/-- The parts of the fingerprint of a type that follow its kind. -/
def fingerprintParts (f : TypeId → Build Fingerprint) (n : TypeNode) : Build Fingerprint :=
  match n.shape with
  | .array c => Fingerprint.concat f c.toList
  | .declared d => do
      let element ← elementFingerprint? d.element
      let arguments ← Fingerprint.concat f d.arguments
      return element ++ .number d.arguments.length :: arguments
  | .error e => do return (← elementFingerprint? e) ++ [.number 0]
  | .typeVar v => elementFingerprint? v.element
  | .wildcard w => Fingerprint.concat f (w.upper.toList ++ w.lower.toList)
  | .intersection bs | .union bs => Fingerprint.concat f bs
  | _ => return []

theorem typeFingerprintTo_succ (depth : Nat) (t : TypeId) : typeFingerprintTo (depth + 1) t = do
      let n ← typeNode t
      return .number n.kind.code :: (← fingerprintParts (typeFingerprintTo depth) n) := rfl

instance settles_fingerprintParts {f : TypeId → Build Fingerprint} [∀ t, Settles (f t) (f t)]
    (n : TypeNode) : Settles (fingerprintParts f n) (fingerprintParts f n) := by
  unfold fingerprintParts
  split <;> infer_instance

instance settles_typeFingerprintTo (depth : Nat) (t : TypeId) :
    Settles (typeFingerprintTo depth t) (typeFingerprintTo depth t) := by
  induction depth generalizing t with
  | zero => exact settles_bind
  | succ depth ih =>
    rw [typeFingerprintTo_succ]
    infer_instance

instance settles_typeFingerprint (t : TypeId) : Settles (typeFingerprint t) (typeFingerprint t) :=
  settles_typeFingerprintTo 4 t

theorem exists_peekType_of_fingerprint {s : Store} {t : TypeId} {key : Fingerprint}
    (h : Known (typeFingerprint t) s key) : ∃ u n, s.peekType t = some (u, n) := by
  rw [typeFingerprint, typeFingerprintTo_succ] at h
  obtain ⟨n, hn, -⟩ := known_bind.1 h
  obtain ⟨u, hu⟩ := known_typeNode.1 hn
  exact ⟨u, n, hu⟩

/-! ### Readings that persist -/

theorem persists_typeNode (t : TypeId) : Persists (typeNode t) :=
  (persists_viewType t).map _

theorem persists_elementFingerprint (e : ElementId) : Persists (elementFingerprint e) :=
  .map ((persists_viewElement e).map _) _

theorem persists_elementFingerprint? (e : Option ElementId) : Persists (elementFingerprint? e) := by
  cases e with
  | some e => exact persists_elementFingerprint e
  | none => exact persists_pure []

theorem persists_concat {f : TypeId → Build Fingerprint} [hf : ∀ t, Settles (f t) (f t)]
    (hp : ∀ t, Persists (f t)) : ∀ ts, Persists (Fingerprint.concat f ts)
  | [] => persists_pure []
  | t :: ts => (hp t).bind fun _ => (persists_concat hp ts).map _

theorem persists_fingerprintParts {f : TypeId → Build Fingerprint} [hf : ∀ t, Settles (f t) (f t)]
    (hp : ∀ t, Persists (f t)) (n : TypeNode) : Persists (fingerprintParts f n) := by
  unfold fingerprintParts
  split
  · exact persists_concat hp _
  · exact (persists_elementFingerprint? _).bind fun _ => (persists_concat hp _).map _
  · exact (persists_elementFingerprint? _).map _
  · exact persists_elementFingerprint? _
  · exact persists_concat hp _
  · exact persists_concat hp _
  · exact persists_concat hp _
  · exact persists_pure []

/-- A fingerprint that is computed again is the same, and so is a failure. -/
theorem persists_typeFingerprintTo (depth : Nat) (t : TypeId) :
    Persists (typeFingerprintTo depth t) := by
  induction depth generalizing t with
  | zero => exact .map ((persists_typeNode t).map _) _
  | succ depth ih =>
    rw [typeFingerprintTo_succ]
    exact (persists_typeNode t).bind fun n => (persists_fingerprintParts ih n).map _

/-! ### Readings that agree -/

namespace Action

variable {σ α β : Type} [Preorder σ] {s : σ} {x y : Action σ α} {f g : α → Action σ β}

/-- From a state on, the two actions have the same outcome and lead to the same state. -/
def AgreesFrom (s : σ) (x y : Action σ α) : Prop :=
  ∀ t, s ≤ t → y t = x t

theorem AgreesFrom.refl (s : σ) (x : Action σ α) : AgreesFrom s x x :=
  fun _ _ => rfl

theorem AgreesFrom.bind (h : AgreesFrom s x y)
    (hx : ∀ t, t ≤ (x t).2) (hf : ∀ a, AgreesFrom s (f a) (g a)) :
    AgreesFrom s (x >>= f) (y >>= g) := by
  intro t ht
  have hle := hx t
  rw [bind_apply, bind_apply, h t ht]
  cases hr : x t with
  | mk r t' =>
    rw [hr] at hle
    cases r with
    | ok a => exact hf a t' (le_trans ht hle)
    | error e => rfl

theorem AgreesFrom.map (h : AgreesFrom s x y) (hx : ∀ t, t ≤ (x t).2)
    (f : α → β) : AgreesFrom s (x >>= fun a => pure (f a)) (y >>= fun a => pure (f a)) :=
  h.bind hx fun a => .refl s (pure (f a))

/-- Two actions that start with readings whose answers are known. -/
theorem AgreesFrom.of_known {a b : α}
    (hx : ∀ t, s ≤ t → Known x t a) (hy : ∀ t, s ≤ t → Known y t b)
    (h : AgreesFrom s (f a) (g b)) : AgreesFrom s (x >>= f) (y >>= g) := by
  intro t ht
  rw [bind_of_ok (hx t ht), bind_of_ok (hy t ht)]
  exact h t ht

end Action

namespace Equality

section Fingerprints

variable {q : Equality} {s : Store}

/-- Equal elements have the same kind and name. -/
theorem agrees_elementFingerprint {a b : ElementId} (h : EqualElements q s [] a b) :
    AgreesFrom s (elementFingerprint a) (elementFingerprint b) := by
  rcases h.alike with rfl | ⟨a', m, b', n, ha, hb, halike⟩
  · exact .refl s _
  · refine .of_known (fun t ht => known_elementNode.2 ⟨a', peekElement_mono ht ha⟩)
      (fun t ht => known_elementNode.2 ⟨b', peekElement_mono ht hb⟩) ?_
    rcases halike with rfl | halike
    · rw [Store.peekElement_node ha hb]
      exact .refl s _
    · rw [halike.kind, halike.simpleName]
      exact .refl s _

theorem agrees_elementFingerprint? {a b : Option ElementId}
    (h : Option.Rel (EqualElements q s []) a b) :
    AgreesFrom s (elementFingerprint? a) (elementFingerprint? b) := by
  cases h with
  | some h => exact agrees_elementFingerprint h
  | none => exact .refl s _

variable {f : TypeId → Build Fingerprint} [hf : ∀ t, Settles (f t) (f t)]
  (hequal : ∀ {a b}, EqualTypes q s [] a b → AgreesFrom s (f a) (f b))

include hf hequal

theorem agrees_concat {as bs : List TypeId} (h : List.Forall₂ (EqualTypes q s []) as bs) :
    AgreesFrom s (Fingerprint.concat f as) (Fingerprint.concat f bs) := by
  induction h with
  | nil => exact .refl s _
  | cons hab _ ih =>
    exact (hequal hab).bind (hf _).le fun _ => ih.map (settles_concat _).le _

/-- What a fingerprint reads of a type is among the parts that are compared. -/
theorem agrees_fingerprintParts {m n : TypeNode}
    (h : TypeNodesAlike q (EqualTypes q s []) (EqualElements q s []) m n) :
    AgreesFrom s (fingerprintParts f m) (fingerprintParts f n) := by
  have hkind : m.shape.kind = n.shape.kind := h.kind_eq
  have helements := h.outlines.elements
  have htypes := h.outlines.types
  obtain ⟨shape, annotations⟩ := m
  obtain ⟨shape', annotations'⟩ := n
  have hconcat : ∀ {as bs : List TypeId}, List.Forall₂ (EqualTypes q s []) as bs →
      AgreesFrom s (Fingerprint.concat f as) (Fingerprint.concat f bs) := agrees_concat hequal
  cases shape with
  | array c =>
    cases shape' <;> cases hkind
    obtain ⟨hc, -⟩ := List.forall₂_cons.1 htypes
    exact hconcat hc
  | declared d =>
    cases shape' <;> cases hkind
    obtain ⟨helement, -⟩ := List.forall₂_cons.1 helements
    obtain ⟨-, htypes⟩ := List.forall₂_cons.1 htypes
    obtain ⟨harguments, -⟩ := List.forall₂_cons.1 htypes
    refine (agrees_elementFingerprint? helement).bind (settles_elementFingerprint? _).le fun e => ?_
    rw [harguments.length_eq]
    exact (hconcat harguments).map (settles_concat _).le _
  | error e =>
    cases shape' <;> cases hkind
    obtain ⟨helement, -⟩ := List.forall₂_cons.1 helements
    exact (agrees_elementFingerprint? helement).map (settles_elementFingerprint? _).le _
  | typeVar v =>
    cases shape' <;> cases hkind
    obtain ⟨helement, -⟩ := List.forall₂_cons.1 helements
    exact agrees_elementFingerprint? helement
  | wildcard w =>
    cases shape' <;> cases hkind
    obtain ⟨hupper, htypes⟩ := List.forall₂_cons.1 htypes
    obtain ⟨hlower, -⟩ := List.forall₂_cons.1 htypes
    exact hconcat (List.rel_append hupper hlower)
  | intersection bs =>
    cases shape' <;> cases hkind
    obtain ⟨hbounds, -⟩ := List.forall₂_cons.1 htypes
    exact hconcat hbounds
  | union bs =>
    cases shape' <;> cases hkind
    obtain ⟨hbounds, -⟩ := List.forall₂_cons.1 htypes
    exact hconcat hbounds
  | _ =>
    cases shape' <;> cases hkind
    exact .refl s _

omit hf hequal

/-- The fingerprints of equal types agree at every depth. -/
theorem agrees_typeFingerprintTo (depth : Nat) {a b : TypeId} (h : EqualTypes q s [] a b) :
    AgreesFrom s (typeFingerprintTo depth a) (typeFingerprintTo depth b) := by
  induction depth generalizing a b with
  | zero =>
    rcases matching_greatest.types h with rfl | ⟨a', m, b', n, ha, hb, halike⟩
    · exact .refl s _
    have hkind : m.kind = n.kind := by
      rcases halike with rfl | halike
      · rw [Store.peekType_node ha hb]
      · exact halike.kind_eq
    refine .of_known (fun t ht => known_typeKind.2 ⟨a', m, peekType_mono ht ha, rfl⟩)
      (fun t ht => known_typeKind.2 ⟨b', n, peekType_mono ht hb, rfl⟩) ?_
    rw [hkind]
    exact .refl s _
  | succ depth ih =>
    rcases matching_greatest.types h with rfl | ⟨a', m, b', n, ha, hb, halike⟩
    · exact .refl s _
    refine .of_known (fun t ht => known_typeNode.2 ⟨a', peekType_mono ht ha⟩)
      (fun t ht => known_typeNode.2 ⟨b', peekType_mono ht hb⟩) ?_
    rcases halike with rfl | halike
    · rw [Store.peekType_node ha hb]
      exact .refl s _
    · rw [halike.kind_eq]
      exact (agrees_fingerprintParts ih halike).map (settles_fingerprintParts m).le _

end Fingerprints

/-! ### Fingerprints respect the comparisons -/

/-- What a fingerprint owes to a test: once the test has found two handles equal, their fingerprints
have the same outcome, a list of marks or a fault, and complete the same handles, in every later store;
and so they do if the second is computed after the first. -/
structure Respects {ι : Type} (fingerprint : ι → Build Fingerprint)
    (test : Nat → ι → ι → Build Bool) : Prop where
  same : ∀ {fuel : Nat} {a b : ι} {s s' t : Store}, test fuel a b s = (.ok true, s') → s' ≤ t →
    fingerprint b t = fingerprint a t
  next : ∀ {fuel : Nat} {a b : ι} {s s' t : Store}, test fuel a b s = (.ok true, s') → s' ≤ t →
    fingerprint b (fingerprint a t).2 = fingerprint a t

theorem respects_of_agrees {ι : Type} {fingerprint : ι → Build Fingerprint}
    {test : Nat → ι → ι → Build Bool} [settles : ∀ a, Settles (fingerprint a) (fingerprint a)]
    (persists : ∀ a, Persists (fingerprint a))
    (agrees : ∀ {fuel a b s s'}, test fuel a b s = (.ok true, s') →
      AgreesFrom s' (fingerprint a) (fingerprint b)) : Respects fingerprint test where
  same h ht := agrees h _ ht
  next {fuel a b s s' t} h ht := by
    rw [agrees h _ (le_trans ht ((settles a).le t))]
    exact persists a t

/-- Structural equality of types and of elements is respected by their fingerprints, at every depth
and whether annotations count or not. -/
theorem types_elements_fingerprints (q : Equality) :
    (∀ depth, Respects (typeFingerprintTo depth) q.types) ∧
      Respects elementFingerprint q.elements := by
  constructor
  · intro depth
    refine respects_of_agrees (persists_typeFingerprintTo depth) ?_
    intro fuel a b s s' h
    have hknown := known_of_ok h le_rfl
    exact agrees_typeFingerprintTo depth ((known_types_iff hknown).1 rfl)
  · refine respects_of_agrees persists_elementFingerprint ?_
    intro fuel a b s s' h
    have hknown := known_of_ok h le_rfl
    exact agrees_elementFingerprint ((known_elements_iff hknown).1 rfl)

/-- A type `Box<Gone>` whose argument cannot be completed, and a deferred handle that stands for it. -/
def lateBox : Store :=
  { Store.empty with
    types := Store.empty.types
      |>.push (.node { shape := .declared { element := some ⟨0⟩, arguments := [⟨15⟩] } })
      |>.push (.pending (.fail (.missingElement "p.Gone")))
      |>.push (.pending (.give ⟨14⟩))
    elements := #[.node { name := some "Box", detail := .type .plain {} }] }

/-- The handle and the type are equal. The argument is completed when the first fingerprint is
computed, and both fingerprints fail for its sake. -/
theorem types_elements_fingerprints_lateBox :
    let s := (Equality.types ⟨true⟩ 1 ⟨14⟩ ⟨16⟩ lateBox).2
    Equality.types ⟨true⟩ 1 ⟨14⟩ ⟨16⟩ lateBox = (.ok true, s) ∧
      (typeFingerprint ⟨14⟩ s).1 = .error (.missingElement "p.Gone") ∧
      typeFingerprint ⟨16⟩ (typeFingerprint ⟨14⟩ s).2 = typeFingerprint ⟨14⟩ s := by
  intro s
  have h : Equality.types ⟨true⟩ 1 ⟨14⟩ ⟨16⟩ lateBox = (.ok true, s) := rfl
  exact ⟨h, rfl, ((types_elements_fingerprints ⟨true⟩).1 4).next h le_rfl⟩

end Equality

end JavaTypes
