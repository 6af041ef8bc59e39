import JavaTypes.Constant
import Mathlib.Tactic.Tauto

/-!
# The comparison of annotation values

`Constant.same` and `AnnotationValue.same` are no equivalence relations, since "not a number" differs
from itself. They are symmetric and transitive.
-/

namespace JavaTypes

theorem sameBinary32_iff {a b : UInt32} :
    sameBinary32 a b = true ↔ a &&& 0x7fffffff ≤ 0x7f800000 ∧ b &&& 0x7fffffff ≤ 0x7f800000 ∧
      (a = b ∨ (a &&& 0x7fffffff = 0 ∧ b &&& 0x7fffffff = 0)) := by
  simp [sameBinary32, and_assoc]

theorem sameBinary64_iff {a b : UInt64} : sameBinary64 a b = true ↔
      a &&& 0x7fffffffffffffff ≤ 0x7ff0000000000000 ∧
      b &&& 0x7fffffffffffffff ≤ 0x7ff0000000000000 ∧
      (a = b ∨ (a &&& 0x7fffffffffffffff = 0 ∧ b &&& 0x7fffffffffffffff = 0)) := by
  simp [sameBinary64, and_assoc]

namespace Constant

theorem same_symm {a b : Constant} (h : a.same b = true) : b.same a = true := by
  cases a <;> cases b <;> simp only [same, beq_iff_eq, Bool.false_eq_true] at h ⊢
  case float a b =>
    rw [sameBinary32_iff] at h ⊢
    tauto
  case double a b =>
    rw [sameBinary64_iff] at h ⊢
    tauto
  all_goals exact h.symm

theorem same_trans {a b c : Constant} (h₁ : a.same b = true) (h₂ : b.same c = true) :
    a.same c = true := by
  cases a <;> cases b <;> simp only [same, beq_iff_eq, Bool.false_eq_true] at h₁
  case float a b =>
    cases c <;> simp only [same, Bool.false_eq_true] at h₂ ⊢
    rw [sameBinary32_iff] at h₁ h₂ ⊢
    obtain ⟨ha, -, rfl | ⟨ha0, hb0⟩⟩ := h₁
    · exact h₂
    · obtain ⟨-, hc, rfl | ⟨-, hc0⟩⟩ := h₂
      · exact ⟨ha, hc, .inr ⟨ha0, hb0⟩⟩
      · exact ⟨ha, hc, .inr ⟨ha0, hc0⟩⟩
  case double a b =>
    cases c <;> simp only [same, Bool.false_eq_true] at h₂ ⊢
    rw [sameBinary64_iff] at h₁ h₂ ⊢
    obtain ⟨ha, -, rfl | ⟨ha0, hb0⟩⟩ := h₁
    · exact h₂
    · obtain ⟨-, hc, rfl | ⟨-, hc0⟩⟩ := h₂
      · exact ⟨ha, hc, .inr ⟨ha0, hb0⟩⟩
      · exact ⟨ha, hc, .inr ⟨ha0, hc0⟩⟩
  all_goals
    subst h₁
    exact h₂

end Constant

namespace AnnotationValue

mutual

theorem same_symm : ∀ {a b : AnnotationValue}, a.same b = true → b.same a = true
  | .constant x, b, h => by
      cases b <;> simp only [same, Bool.false_eq_true] at h ⊢
      exact Constant.same_symm h
  | .type t, b, h => by
      cases b <;> simp only [same, beq_iff_eq, Bool.false_eq_true] at h ⊢
      exact h.symm
  | .enumConstant e, b, h => by
      cases b <;> simp only [same, beq_iff_eq, Bool.false_eq_true] at h ⊢
      exact h.symm
  | .nested t as, b, h => by
      cases b <;> simp only [same, Bool.and_eq_true, beq_iff_eq, Bool.false_eq_true] at h ⊢
      exact ⟨h.1.symm, sameMembers_symm h.2⟩
  | .list as, b, h => by
      cases b <;> simp only [same, Bool.false_eq_true] at h ⊢
      exact sameItems_symm h

theorem sameItems_symm : ∀ {as bs : List AnnotationValue}, sameItems as bs = true →
    sameItems bs as = true
  | [], bs, h => by cases bs <;> simp only [sameItems, Bool.false_eq_true] at h ⊢
  | a :: as, bs, h => by
      cases bs <;> simp only [sameItems, Bool.and_eq_true, Bool.false_eq_true] at h ⊢
      exact ⟨same_symm h.1, sameItems_symm h.2⟩

theorem sameMembers_symm : ∀ {as bs : List (String × AnnotationValue)},
    sameMembers as bs = true → sameMembers bs as = true
  | [], bs, h => by cases bs <;> simp only [sameMembers, Bool.false_eq_true] at h ⊢
  | (m, a) :: as, bs, h => by
      cases bs <;> simp only [sameMembers, Bool.and_eq_true, beq_iff_eq, Bool.false_eq_true] at h ⊢
      exact ⟨⟨h.1.1.symm, same_symm h.1.2⟩, sameMembers_symm h.2⟩

end

mutual

theorem same_trans : ∀ {a b c : AnnotationValue}, a.same b = true → b.same c = true →
    a.same c = true
  | .constant x, b, c, h₁, h₂ => by
      cases b <;> simp only [same, Bool.false_eq_true] at h₁
      cases c <;> simp only [same, Bool.false_eq_true] at h₂ ⊢
      exact Constant.same_trans h₁ h₂
  | .type t, b, c, h₁, h₂ => by
      cases b <;> simp only [same, beq_iff_eq, Bool.false_eq_true] at h₁
      cases c <;> simp only [same, beq_iff_eq, Bool.false_eq_true] at h₂ ⊢
      exact h₁.trans h₂
  | .enumConstant e, b, c, h₁, h₂ => by
      cases b <;> simp only [same, beq_iff_eq, Bool.false_eq_true] at h₁
      cases c <;> simp only [same, beq_iff_eq, Bool.false_eq_true] at h₂ ⊢
      exact h₁.trans h₂
  | .nested t as, b, c, h₁, h₂ => by
      cases b <;> simp only [same, Bool.and_eq_true, beq_iff_eq, Bool.false_eq_true] at h₁
      cases c <;> simp only [same, Bool.and_eq_true, beq_iff_eq, Bool.false_eq_true] at h₂ ⊢
      exact ⟨h₁.1.trans h₂.1, sameMembers_trans h₁.2 h₂.2⟩
  | .list as, b, c, h₁, h₂ => by
      cases b <;> simp only [same, Bool.false_eq_true] at h₁
      cases c <;> simp only [same, Bool.false_eq_true] at h₂ ⊢
      exact sameItems_trans h₁ h₂

theorem sameItems_trans : ∀ {as bs cs : List AnnotationValue}, sameItems as bs = true →
    sameItems bs cs = true → sameItems as cs = true
  | [], bs, cs, h₁, h₂ => by
      cases bs <;> simp only [sameItems, Bool.false_eq_true] at h₁
      exact h₂
  | a :: as, bs, cs, h₁, h₂ => by
      cases bs <;> simp only [sameItems, Bool.and_eq_true, Bool.false_eq_true] at h₁
      cases cs <;> simp only [sameItems, Bool.and_eq_true, Bool.false_eq_true] at h₂ ⊢
      exact ⟨same_trans h₁.1 h₂.1, sameItems_trans h₁.2 h₂.2⟩

theorem sameMembers_trans : ∀ {as bs cs : List (String × AnnotationValue)},
    sameMembers as bs = true → sameMembers bs cs = true → sameMembers as cs = true
  | [], bs, cs, h₁, h₂ => by
      cases bs <;> simp only [sameMembers, Bool.false_eq_true] at h₁
      exact h₂
  | (m, a) :: as, bs, cs, h₁, h₂ => by
      cases bs <;> simp only [sameMembers, Bool.and_eq_true, beq_iff_eq, Bool.false_eq_true] at h₁
      cases cs <;> simp only [sameMembers, Bool.and_eq_true, beq_iff_eq, Bool.false_eq_true] at h₂ ⊢
      exact ⟨⟨h₁.1.1.trans h₂.1.1, same_trans h₁.1.2 h₂.1.2⟩, sameMembers_trans h₁.2 h₂.2⟩

end

end AnnotationValue

end JavaTypes
