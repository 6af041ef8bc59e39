import JavaTypes.Proofs.SessionGrowth
import JavaTypes.Relation.Levels

/-!
# Readings of types and judgements settle

Bounds, substitution, erasure, direct supertypes and the search for a supertype: each of these
questions, once it is answered, has the same answer in every later session and with any larger
amount of fuel. One instance for each definition, by the recursion of the definition. So have the
judgements, at every higher level (`settle_judgements`), apart from capture, which makes new variables
each time.
-/

namespace JavaTypes

open Action

/-- A question with fuel that begins with the view of a type is answered by what follows the view. -/
theorem exists_node_of_known {α : Type} {T : Session} {t : TypeId} {a : α} {k : Nat} {x : Nat → Query α}
    {y : Nat → TypeId × TypeNode → Query α} [∀ k z, Settles (y k z) (y k z)]
    (hzero : x 0 = throw .exhausted) (hsucc : ∀ k, x (k + 1) = (do y k (← viewType t)))
    (h : Known (x k) T a) : ∃ j u n, k = j + 1 ∧ T.Shows t u n ∧ Known (y j (u, n)) T a := by
  cases k with
  | zero =>
    rw [hzero] at h
    cases h
  | succ k =>
    rw [hsucc] at h
    obtain ⟨⟨u, n⟩, hu, h⟩ := known_bind.1 h
    exact ⟨k, u, n, rfl, shows_of_known hu, h⟩

/-! ### Elements, arguments and bounds -/

variable {fuel fuel' : Nat} [Fact (fuel ≤ fuel')]

instance settles_nodeElementOf (n : TypeNode) : Settles n.elementOf n.elementOf := by
  unfold TypeNode.elementOf
  cases n.element <;> infer_instance

/-- The element of a type is the completed one, if the type names an element. -/
theorem known_elementOf {T : Session} {n : TypeNode} {r : Option ElementId} :
    Known (onStore n.elementOf) T r ↔
      Option.Rel (fun d e => ∃ x, T.store.peekElement d = some (e, x)) n.element r := by
  unfold TypeNode.elementOf
  rw [known_onStore]
  cases n.element with
  | none => cases r <;> simp [known_pure]
  | some d =>
    rw [known_map]
    cases r <;> simp [known_resolveElement]

theorem known_elementOf_some {T : Session} {n : TypeNode} {e : ElementId} :
    Known (onStore n.elementOf) T (some e) ↔
      ∃ d x, n.element = some d ∧ T.store.peekElement d = some (e, x) := by
  rw [known_elementOf]
  cases n.element <;> simp

theorem known_elementOf_none {T : Session} {n : TypeNode} :
    Known (onStore n.elementOf) T none ↔ n.element = none := by
  rw [known_elementOf]
  cases n.element <;> simp

instance settles_sameElement (a b : ElementId) :
    Settles (sameElement fuel a b) (sameElement fuel' a b) := by
  unfold sameElement
  infer_instance

instance settles_isObject (t : TypeId) : Settles (isObject t) (isObject t) := by
  refine settles_bind_of fun n => ?_
  split
  · infer_instance
  · refine settles_bind_of fun e => ?_
    cases e <;> infer_instance

instance settles_isInterface (t : TypeId) : Settles (isInterface t) (isInterface t) := by
  refine settles_bind_of fun n => ?_
  split
  · refine settles_bind_of fun e => ?_
    cases e <;> infer_instance
  · infer_instance

instance settles_declaredTypeOf (e : ElementId) :
    Settles (declaredTypeOf e) (declaredTypeOf e) := by
  refine settles_bind_of fun t => ?_
  cases t <;> infer_instance

instance settles_allTypeArguments (t : TypeId) :
    Settles (allTypeArguments fuel t) (allTypeArguments fuel' t) :=
  settles_of_succ (fun _ => rfl) (fun _ => settles_bind) t

instance settles_isParameterized (t : TypeId) :
    Settles (isParameterized fuel t) (isParameterized fuel' t) :=
  settles_bind

instance settles_omitsArguments (n : TypeNode) : Settles n.omitsArguments n.omitsArguments := by
  unfold TypeNode.omitsArguments
  split
  · refine settles_bind_of fun e => ?_
    cases e <;> infer_instance
  · infer_instance

instance settles_isRaw (t : TypeId) : Settles (isRaw fuel t) (isRaw fuel' t) :=
  settles_of_succ (fun _ => rfl) (fun _ => settles_bind) t

instance settles_upperBound (v : TypeId) : Settles (upperBound v) (upperBound v) := by
  refine settles_bind_of fun bound => ?_
  cases bound <;> infer_instance

instance settles_lowerBound (v : TypeId) : Settles (lowerBound v) (lowerBound v) :=
  settles_bind

instance settles_wildUpperBound (t : TypeId) :
    Settles (wildUpperBound fuel t) (wildUpperBound fuel' t) := by
  refine settles_of_succ (fun _ => rfl) (fun t => settles_bind_of fun n => ?_) t
  split
  · infer_instance
  · cases n.extendsBound <;> infer_instance

instance settles_wildLowerBound (t : TypeId) :
    Settles (wildLowerBound fuel t) (wildLowerBound fuel' t) := by
  refine settles_of_succ (fun _ => rfl) (fun t => settles_bind_of fun n => ?_) t
  split
  · infer_instance
  · cases n.superBound <;> infer_instance

instance settles_captureUpperBound (t : TypeId) :
    Settles (captureUpperBound fuel t) (captureUpperBound fuel' t) :=
  settles_of_succ (fun _ => rfl) (fun _ => settles_bind) t

instance settles_captureLowerBound (t : TypeId) :
    Settles (captureLowerBound fuel t) (captureLowerBound fuel' t) :=
  settles_of_succ (fun _ => rfl) (fun _ => settles_bind) t

instance settles_isExtendsBound (t : TypeId) : Settles (isExtendsBound t) (isExtendsBound t) :=
  settles_bind

instance settles_isSuperBound (t : TypeId) : Settles (isSuperBound t) (isSuperBound t) :=
  settles_bind

instance settles_unlessNone (t : TypeId) : Settles (unlessNone t) (unlessNone t) :=
  settles_bind

/-- The comparison of the elements of two type variables. -/
def sameVariableElements (fuel : Nat) : Option ElementId → Option ElementId → Query Bool
  | some d, some e => sameElement fuel d e
  | _, _ => return false

/-- The comparison of two nodes as type variables. -/
def sameVariables (fuel : Nat) (x y : TypeId × TypeNode) : Query Bool := do
  if x.1 = y.1 then
    return true
  else if x.2.kind ≠ .typeVar ∨ y.2.kind ≠ .typeVar ∨ x.2.isCapture ∨ y.2.isCapture then
    return false
  else
    let d ← x.2.elementOf
    let e ← y.2.elementOf
    sameVariableElements fuel d e

theorem sameTypeVariable_eq (fuel : Nat) (a b : TypeId) :
    sameTypeVariable fuel a b = (do sameVariables fuel (← viewType a) (← viewType b)) := by
  rfl

instance settles_sameVariableElements : ∀ d e : Option ElementId,
    Settles (sameVariableElements fuel d e) (sameVariableElements fuel' d e)
  | some d, some e => settles_sameElement d e
  | some _, none => settles_pure false
  | none, some _ => settles_pure false
  | none, none => settles_pure false

instance settles_sameVariables (x y : TypeId × TypeNode) :
    Settles (sameVariables fuel x y) (sameVariables fuel' x y) :=
  settles_ite

instance settles_sameTypeVariable (a b : TypeId) :
    Settles (sameTypeVariable fuel a b) (sameTypeVariable fuel' a b) := by
  rw [sameTypeVariable_eq, sameTypeVariable_eq]
  infer_instance

/-! ### Substitution -/

instance settles_replacement (t : TypeId) :
    ∀ vs rs, Settles (replacement fuel t vs rs) (replacement fuel' t vs rs)
  | _ :: vs, _ :: rs =>
      have := settles_replacement t vs rs
      settles_bind
  | [], [] => settles_pure t
  | [], _ :: _ => settles_pure t
  | _ :: _, [] => settles_pure t

section Changes

variable {change change' : TypeId → Query TypeId} [hc : ∀ t, Settles (change t) (change' t)]

instance settles_changeEach : ∀ ts, Settles (changeEach change ts) (changeEach change' ts)
  | [] => settles_pure ([], false)
  | _ :: ts =>
      have := settles_changeEach ts
      settles_bind

instance settles_changeList (ts : List TypeId) :
    Settles (changeList change ts) (changeList change' ts) :=
  settles_bind

instance settles_changeOption : ∀ t, Settles (changeOption change t) (changeOption change' t)
  | some _ => settles_bind
  | none => settles_pure none

instance settles_mapTypes : ∀ ts, Settles (mapTypes change ts) (mapTypes change' ts)
  | [] => settles_pure []
  | _ :: ts =>
      have := settles_mapTypes ts
      settles_bind

instance settles_substituteDeclared (t : TypeId) (n : TypeNode) :
    Settles (substituteDeclared change t n) (substituteDeclared change' t n) := by
  unfold substituteDeclared
  cases n.element <;> infer_instance

instance settles_substituteBounds (t : TypeId) (shape : List TypeId → TypeShape)
    (bounds : List TypeId) :
    Settles (substituteBounds change t shape bounds) (substituteBounds change' t shape bounds) := by
  refine settles_bind_of fun bounds' => ?_
  cases bounds' <;> infer_instance

instance settles_substituteExecutable (t : TypeId) (n : TypeNode) :
    Settles (substituteExecutable change t n) (substituteExecutable change' t n) :=
  settles_bind

instance settles_eraseDeclared (t : TypeId) (n : TypeNode) :
    Settles (eraseDeclared change t n) (eraseDeclared change' t n) := by
  unfold eraseDeclared
  cases n.element <;> infer_instance

instance settles_eraseExecutable (n : TypeNode) :
    Settles (eraseExecutable change n) (eraseExecutable change' n) :=
  settles_bind

instance settles_substituteComponent (t component : TypeId) :
    Settles (substituteComponent fuel change t component)
      (substituteComponent fuel' change' t component) :=
  settles_bind

instance settles_unchanged : ∀ before after,
    Settles (unchanged before after) (unchanged before after)
  | some _, some _ => settles_bind
  | some _, none => settles_pure true
  | none, some _ => settles_pure true
  | none, none => settles_pure true

instance settles_lowerBoundAfter :
    ∀ bound, Settles (lowerBoundAfter fuel bound) (lowerBoundAfter fuel' bound)
  | none => settles_pure none
  | some _ => settles_bind

instance settles_substituteWildcard (t : TypeId) (w : WildcardType) :
    Settles (substituteWildcard fuel change t w) (substituteWildcard fuel' change' t w) :=
  settles_bind

end Changes

/-- Substitution in a type whose parts are known. -/
def substituteNode (σ : Substitution) (fuel : Nat) (x : TypeId × TypeNode) : Query TypeId :=
  if σ.isActive then
    match x.2.shape with
    | .typeVar _ => replacement fuel x.1 σ.vars σ.vals
    | .declared _ => substituteDeclared (substitute σ fuel) x.1 x.2
    | .array (some component) => substituteComponent fuel (substitute σ fuel) x.1 component
    | .wildcard w => substituteWildcard fuel (substitute σ fuel) x.1 w
    | .intersection bounds => substituteBounds (substitute σ fuel) x.1 .intersection bounds
    | .union bounds => substituteBounds (substitute σ fuel) x.1 .union bounds
    | .executable _ => substituteExecutable (substitute σ fuel) x.1 x.2
    | _ => return x.1
  else
    return x.1

theorem substitute_succ (σ : Substitution) (fuel : Nat) (t : TypeId) :
    substitute σ (fuel + 1) t = (do substituteNode σ fuel (← viewType t)) := by
  rfl

instance settles_substituteNode {σ : Substitution}
    [∀ t, Settles (substitute σ fuel t) (substitute σ fuel' t)] (x : TypeId × TypeNode) :
    Settles (substituteNode σ fuel x) (substituteNode σ fuel' x) := by
  unfold substituteNode
  cases x.2.shape with
  | array component => cases component <;> infer_instance
  | _ => infer_instance

instance settles_substitute (σ : Substitution) (t : TypeId) :
    Settles (substitute σ fuel t) (substitute σ fuel' t) := by
  refine settles_of_succ (fun _ => rfl) (fun t => ?_) t
  rw [substitute_succ, substitute_succ]
  infer_instance

/-! ### Erasure -/

/-- What follows the view of a type in its erasure. -/
def eraseNode (fuel : Nat) (x : TypeId × TypeNode) : Query TypeId := do
  match x.2.shape with
  | .declared _ => eraseDeclared (erase fuel) x.1 x.2
  | .array (some component) => do
      let component' ← erase fuel component
      if component' = (← resolveType component) then return x.1 else deriveArray component'
  | .typeVar _ => erase fuel (← upperBound x.1)
  | .intersection (first :: _) => erase fuel first
  | .intersection [] => objectType
  | .wildcard _ => erase fuel (← wildUpperBound fuel x.1)
  | .executable _ => eraseExecutable (erase fuel) x.2
  | _ => return x.1

theorem erase_succ (fuel : Nat) (t : TypeId) :
    erase (fuel + 1) t = (do eraseNode fuel (← viewType t)) := by
  rfl

instance settles_eraseNode [hc : ∀ t, Settles (erase fuel t) (erase fuel' t)]
    (x : TypeId × TypeNode) : Settles (eraseNode fuel x) (eraseNode fuel' x) := by
  unfold eraseNode
  cases x.2.shape with
  | array component => cases component <;> infer_instance
  | intersection bounds => cases bounds <;> infer_instance
  | _ => infer_instance

instance settles_erase (t : TypeId) : Settles (erase fuel t) (erase fuel' t) := by
  refine settles_of_succ (fun _ => rfl) (fun t => ?_) t
  rw [erase_succ, erase_succ]
  infer_instance

instance settles_erasure (t : TypeId) : Settles (erasure fuel t) (erasure fuel' t) := by
  refine settles_bind_of fun hooks => ?_
  cases hooks.erasure t <;> infer_instance

/-! ### Direct supertypes -/

instance settles_seenFrom (t : TypeId) (e : ElementId) (named : TypeId) :
    Settles (seenFrom fuel t e named) (seenFrom fuel' t e named) :=
  settles_bind

instance settles_superclassOf (t : TypeId) (n : TypeNode) :
    Settles (superclassOf fuel t n) (superclassOf fuel' t n) := by
  refine settles_bind_of fun e => ?_
  cases e with
  | none => exact settles_pure _
  | some e =>
    refine settles_bind_of fun _ => ?_
    split
    · infer_instance
    · refine settles_bind_of fun superclass => ?_
      cases superclass <;> infer_instance

instance settles_firstClass : ∀ ts, Settles (firstClass ts) (firstClass ts)
  | [] => settles_objectType
  | _ :: ts =>
      have := settles_firstClass ts
      settles_bind

instance settles_isTopComponent (t : TypeId) : Settles (isTopComponent t) (isTopComponent t) :=
  settles_either

instance settles_supertype (t : TypeId) : Settles (supertype fuel t) (supertype fuel' t) := by
  refine settles_of_succ (fun _ => rfl) (fun t => settles_bind_of fun x => ?_) t
  obtain ⟨t, n⟩ := x
  dsimp only
  cases n.shape with
  | typeVar v =>
    refine settles_bind_of fun bound => settles_bind_of fun k => ?_
    cases k <;> infer_instance
  | array component => cases component <;> infer_instance
  | _ => infer_instance

instance settles_onlyInterfaces : ∀ ts, Settles (onlyInterfaces ts) (onlyInterfaces ts)
  | [] => settles_pure []
  | _ :: ts =>
      have := settles_onlyInterfaces ts
      settles_bind

instance settles_interfaces (t : TypeId) : Settles (interfaces fuel t) (interfaces fuel' t) := by
  refine settles_of_succ (fun _ => rfl) (fun t => settles_bind_of fun x => ?_) t
  obtain ⟨t, n⟩ := x
  dsimp only
  cases n.shape with
  | declared d =>
    refine settles_bind_of fun e => ?_
    cases e <;> infer_instance
  | _ => infer_instance

/-! ### All direct supertypes -/

instance settles_arraysOver (object : TypeId) :
    ∀ ts, Settles (arraysOver object ts) (arraysOver object ts)
  | [] => settles_bind
  | _ :: _ => settles_mapTypes _

instance settles_supertypesOfNode {above above' : TypeId → Query (List TypeId)}
    [∀ t, Settles (above t) (above' t)] (x : TypeId × TypeNode) :
    Settles (supertypesOfNode fuel above x) (supertypesOfNode fuel' above' x) := by
  unfold supertypesOfNode
  cases x.2.shape with
  | typeVar v =>
    refine settles_bind_of fun bound => settles_bind_of fun m => ?_
    cases m.shape <;> infer_instance
  | array component => cases component <;> infer_instance
  | _ => infer_instance

instance settles_supertypesOf (t : TypeId) :
    Settles (supertypesOf fuel t) (supertypesOf fuel' t) :=
  settles_of_succ (fun _ => rfl) (fun _ => settles_bind) t

instance settles_directSupertypes (t : TypeId) :
    Settles (directSupertypes fuel t) (directSupertypes fuel' t) := by
  refine settles_bind_of fun hooks => ?_
  cases hooks.directSupertypes t <;> infer_instance

/-! ### The supertype that an element declares -/

section Search

variable {search search' : TypeId → Query (Option TypeId)} [∀ t, Settles (search t) (search' t)]

instance settles_firstFound : ∀ ts, Settles (firstFound search ts) (firstFound search' ts)
  | [] => settles_pure none
  | t :: ts => by
      have := settles_firstFound ts
      refine settles_bind_of fun found => ?_
      cases found <;> infer_instance

instance settles_implicitObject (e : ElementId) : Settles (implicitObject e) (implicitObject e) :=
  settles_bind

instance settles_searchAbove (t : TypeId) :
    Settles (searchAbove fuel search t) (searchAbove fuel' search' t) := by
  refine settles_bind_of fun above => settles_bind_of fun _ => ?_
  have hrest : ∀ found, Settles (match found with
      | some found => return some found
      | none => do firstFound search (← interfaces fuel t)) (match found with
      | some found => return some found
      | none => do firstFound search' (← interfaces fuel' t)) := by
    intro found
    cases found <;> infer_instance
  infer_instance

end Search

theorem WellKnown.isSome_aboveArrays {known : WellKnown} {e : ElementId} :
    (known.aboveArrays e).isSome = true ↔
      e = known.object ∨ e = known.cloneable ∨ e = known.serializable := by
  unfold WellKnown.aboveArrays
  split_ifs <;> simp_all

section Search

variable {e : ElementId} {search search' : List ElementId → TypeId → Query (Option TypeId)}
  [∀ seen t, Settles (search seen t) (search' seen t)]

instance settles_asSuperDeclared (seen : List ElementId) (t : TypeId) : ∀ own,
    Settles (asSuperDeclared e fuel search seen t own) (asSuperDeclared e fuel' search' seen t own)
  | none => settles_pure none
  | some own => by
      have hrest : ∀ found, Settles (match found with
          | some found => return some found
          | none => implicitObject e) (match found with
          | some found => return some found
          | none => implicitObject e) := by
        intro found
        cases found <;> infer_instance
      unfold asSuperDeclared
      infer_instance

instance settles_asSuperNode (seen : List ElementId) (x : TypeId × TypeNode) :
    Settles (asSuperNode e fuel search seen x) (asSuperNode e fuel' search' seen x) := by
  unfold asSuperNode
  cases x.2.shape with
  | typeVar v =>
    refine settles_bind_of fun own => ?_
    cases own <;> infer_instance
  | intersection bounds =>
    refine settles_bind_of fun found => ?_
    cases found <;> infer_instance
  | _ => infer_instance

end Search

instance settles_asSuperFrom (e : ElementId) : ∀ {fuel fuel' : Nat} [Fact (fuel ≤ fuel')]
    (seen : List ElementId) (t : TypeId),
      Settles (asSuperFrom e fuel seen t) (asSuperFrom e fuel' seen t)
  | 0, _, _, _, _ => settles_throw _ _
  | fuel + 1, 0, h, _, _ => absurd h.out (Nat.not_succ_le_zero fuel)
  | fuel + 1, fuel' + 1, h, seen, t => by
      have : Fact (fuel ≤ fuel') := ⟨Nat.le_of_succ_le_succ h.out⟩
      have := @settles_asSuperFrom e fuel fuel' this
      exact settles_bind

instance settles_superAt (t : TypeId) (e : ElementId) :
    Settles (superAt fuel t e) (superAt fuel' t e) :=
  settles_asSuperFrom e [] t

instance settles_asSuper (t : TypeId) (e : ElementId) :
    Settles (asSuper fuel t e) (asSuper fuel' t e) :=
  settles_bind

instance settles_superAround (e : ElementId) (t : TypeId) :
    Settles (superAround e fuel t) (superAround e fuel' t) := by
  refine settles_of_succ (fun _ => rfl) (fun t => settles_bind_of fun found => ?_) t
  cases found <;> infer_instance

instance settles_outerSuperAt (t : TypeId) (e : ElementId) :
    Settles (outerSuperAt fuel t e) (outerSuperAt fuel' t e) := by
  refine settles_bind_of fun x => ?_
  dsimp only
  split <;> infer_instance

instance settles_asOuterSuper (t : TypeId) (e : ElementId) :
    Settles (asOuterSuper fuel t e) (asOuterSuper fuel' t e) :=
  settles_bind

/-! ## The judgements settle -/

/-- What the first judgements answer without capture, the second answer ever after. -/
structure Judgements.Settle (j j' : Judgements) : Prop where
  sameType : ∀ p t s, Settles (j.sameType p t s) (j'.sameType p t s)
  containsType : ∀ p t s, Settles (j.containsType p t s) (j'.containsType p t s)
  subtype : ∀ p t s, Settles (j.subtype p false t s) (j'.subtype p false t s)
  fuel : j.fuel ≤ j'.fuel

attribute [class] Judgements.Settle

namespace Judgements

/-- The comparison of two nodes. -/
def sameNodes (j : Judgements) (p : Premises) (x y : TypeId × TypeNode) : Query Bool := do
  if x.1 = y.1 then
    return true
  else
    let annotated := (← config).includeAnnotations
    Action.both (if annotated then
        Equality.sameAnnotations (j.sameType p) x.2.annotations y.2.annotations
      else
        return true)
      (j.sameParts p x.1 x.2 y.1 y.2)

theorem sameTypeStep_eq (j : Judgements) (p : Premises) (t s : TypeId) :
    j.sameTypeStep p t s = (do j.sameNodes p (← viewType t) (← viewType s)) := rfl

section Steps

variable {j j' : Judgements} [h : j.Settle j'] (p : Premises)

instance settles_sameType (t s : TypeId) : Settles (j.sameType p t s) (j'.sameType p t s) :=
  h.sameType p t s

instance settles_containsType (t s : TypeId) :
    Settles (j.containsType p t s) (j'.containsType p t s) :=
  h.containsType p t s

instance settles_subtype (t s : TypeId) :
    Settles (j.subtype p false t s) (j'.subtype p false t s) :=
  h.subtype p t s

instance fact_fuel_le : Fact (j.fuel ≤ j'.fuel) := ⟨h.fuel⟩

/-! ### Containment -/

instance settles_sameWildcard (t : TypeId) (m : TypeNode) (s : TypeId) (n : TypeNode) :
    Settles (j.sameWildcard p t m s n) (j'.sameWildcard p t m s n) :=
  settles_ite

instance settles_isCaptureOf (t : TypeId) (m n : TypeNode) :
    Settles (j.isCaptureOf p t m n) (j'.isCaptureOf p t m n) := by
  unfold isCaptureOf
  cases n.capturedFrom <;> infer_instance

instance settles_admitsBelow (t s : TypeId) :
    Settles (j.admitsBelow p t s) (j'.admitsBelow p t s) :=
  settles_either

instance settles_admitsAbove (t s : TypeId) :
    Settles (j.admitsAbove p t s) (j'.admitsAbove p t s) :=
  settles_either

instance settles_containsStep (t s : TypeId) :
    Settles (j.containsStep p t s) (j'.containsStep p t s) :=
  settles_bind

instance settles_containsList (ts ss : List TypeId) :
    Settles (j.containsList p ts ss) (j'.containsList p ts ss) :=
  settles_sameLists ts ss

instance settles_containsArguments (t s : TypeId) :
    Settles (j.containsArguments p t s) (j'.containsArguments p t s) :=
  settles_bind

instance settles_equivalentArguments (t s : TypeId) :
    Settles (j.equivalentArguments p t s) (j'.equivalentArguments p t s) :=
  settles_either

/-! ### Same types -/

instance settles_isAmong (t : TypeId) : ∀ ss, Settles (j.isAmong p t ss) (j'.isAmong p t ss)
  | [] => settles_pure false
  | _ :: ss =>
      have := settles_isAmong t ss
      settles_either

instance settles_areAmong : ∀ ts ss, Settles (j.areAmong p ts ss) (j'.areAmong p ts ss)
  | [], _ => settles_pure true
  | _ :: ts, ss =>
      have := settles_areAmong ts ss
      settles_both

instance settles_sameOwner (m n : TypeNode) : Settles (j.sameOwner m n) (j'.sameOwner m n) :=
  settles_bind

instance settles_sameDeclared (m n : TypeNode) :
    Settles (j.sameDeclared p m n) (j'.sameDeclared p m n) :=
  settles_both

instance settles_sameExecutable (m : TypeNode) (s : TypeId) (n : TypeNode) :
    Settles (j.sameExecutable p m s n) (j'.sameExecutable p m s n) :=
  settles_ite

instance settles_sameParts (t : TypeId) (m : TypeNode) (s : TypeId) (n : TypeNode) :
    Settles (j.sameParts p t m s n) (j'.sameParts p t m s n) := by
  unfold sameParts
  cases m.shape <;> cases n.shape <;> infer_instance

instance settles_sameNodes (x y : TypeId × TypeNode) :
    Settles (j.sameNodes p x y) (j'.sameNodes p x y) :=
  settles_ite

instance settles_sameTypeStep (t s : TypeId) :
    Settles (j.sameTypeStep p t s) (j'.sameTypeStep p t s) := by
  rw [sameTypeStep_eq, sameTypeStep_eq]
  infer_instance

/-! ### Subtypes -/

instance settles_belowAll (t : TypeId) :
    ∀ ss, Settles (j.belowAll p false t ss) (j'.belowAll p false t ss)
  | [] => settles_pure true
  | _ :: ss =>
      have := settles_belowAll t ss
      settles_both

instance settles_allBelow (s : TypeId) :
    ∀ ts, Settles (j.allBelow p false s ts) (j'.allBelow p false s ts)
  | [] => settles_pure true
  | _ :: ts =>
      have := settles_allBelow s ts
      settles_both

instance settles_enclosingBelow (m n : TypeNode) :
    Settles (j.enclosingBelow p m n) (j'.enclosingBelow p m n) :=
  settles_bind

instance settles_belowDeclared (t s : TypeId) (n : TypeNode) :
    Settles (j.belowDeclared p t s n) (j'.belowDeclared p t s n) := by
  refine settles_bind_of fun e => ?_
  cases e with
  | none => exact settles_pure false
  | some e =>
    refine settles_bind_of fun above => ?_
    cases above <;> infer_instance

instance settles_arrayBelow (component : Option TypeId) (n : TypeNode) :
    Settles (j.arrayBelow p component n) (j'.arrayBelow p component n) := by
  unfold arrayBelow
  cases n.shape with
  | array component' => cases component <;> cases component' <;> infer_instance
  | declared d =>
    refine settles_bind_of fun known => settles_bind_of fun e => ?_
    cases e <;> infer_instance
  | _ => infer_instance

instance settles_belowByKind (t s : TypeId) (n : TypeNode) :
    Settles (j.belowByKind p false t s n) (j'.belowByKind p false t s n) := by
  refine settles_bind_of fun m => ?_
  cases m.shape with
  | primitive a => cases n.shape <;> infer_instance
  | _ => infer_instance

instance settles_subtypeStep (t s : TypeId) :
    Settles (j.subtypeStep p false t s) (j'.subtypeStep p false t s) := by
  refine settles_bind_of fun t => settles_bind_of fun x => settles_bind_of fun _ => ?_
  obtain ⟨s, n⟩ := x
  split
  · infer_instance
  · simp only [Bool.false_eq_true, if_false]
    cases n.shape <;> infer_instance

end Steps

end Judgements

/-- What is judged at a level is judged the same ever after, at that level and above. -/
instance settle_judgements : ∀ {n m : Nat} [Fact (n ≤ m)], (judgements n).Settle (judgements m)
  | 0, _, _ =>
      { sameType := fun _ _ _ => settles_throw _ _
        containsType := fun _ _ _ => settles_throw _ _
        subtype := fun _ _ _ => settles_throw _ _
        fuel := Nat.zero_le _ }
  | n + 1, 0, h => absurd h.out (Nat.not_succ_le_zero n)
  | n + 1, m + 1, h =>
      have hle := Nat.le_of_succ_le_succ h.out
      have : Fact (n ≤ m) := ⟨hle⟩
      have : (judgements n).Settle (judgements m) := settle_judgements
      { sameType := Judgements.settles_sameTypeStep
        containsType := Judgements.settles_containsStep
        subtype := Judgements.settles_subtypeStep
        fuel := hle }

theorem answeredBy_apply {α : Type} (hook : Hooks → Option α) (x : Query α) (S : Session) :
    answeredBy hook x S = match hook S.hooks with
      | some answer => (.ok answer, S)
      | none => x S := by
  have hhooks : hooks S = (.ok S.hooks, S) := rfl
  rw [answeredBy, bind_of_ok hhooks]
  cases hook S.hooks <;> rfl

instance settles_answeredBy {α : Type} (hook : Hooks → Option α) {x y : Query α}
    [Settles x y] : Settles (answeredBy hook x) (answeredBy hook y) := by
  refine settles_bind_of fun hooks => ?_
  cases hook hooks <;> infer_instance

variable {fuel fuel' : Nat} [Fact (fuel ≤ fuel')]

instance settles_sameType (t s : TypeId) : Settles (sameType fuel t s) (sameType fuel' t s) :=
  Judgements.settles_sameType {} t s

instance settles_isSameType (t s : TypeId) : Settles (isSameType fuel t s) (isSameType fuel' t s) :=
  settles_answeredBy _

instance settles_isSameTypeLoose (t s : TypeId) :
    Settles (isSameTypeLoose fuel t s) (isSameTypeLoose fuel' t s) :=
  Judgements.settles_sameType { loose := true } t s

instance settles_contains (t s : TypeId) : Settles (contains fuel t s) (contains fuel' t s) :=
  settles_answeredBy _

instance settles_isSubtypeNoCapture (t s : TypeId) :
    Settles (isSubtypeNoCapture fuel t s) (isSubtypeNoCapture fuel' t s) :=
  Judgements.settles_subtype {} t s

end JavaTypes
