import JavaTypes.Proofs.RepeatedClosures
import JavaTypes.Proofs.HistoryIndependence

/-!
# Questions that are asked again

A question that captures nothing makes its types under keys that the session remembers, and remembers
ranks and closures. Once it was answered it is answered again without a change to the session: no type
or element is made, and nothing further is remembered. The second answer is the first one, with one
exception. If a type above equals the type whose closure is asked for, the second answer is the closure
of that type.

* `PlainQuestion`, `PlainQuestion.ask`: the questions that capture nothing;
* `PlainQuestion.Unmatched`: a closure is not asked of a type that equals one above it;
* `PlainQuestion.ask_again`: what was answered is answered again;
* `PlainQuestion.ask_again_linkedTwins`: a class that extends another one that it equals.
-/

namespace JavaTypes

open Action

/-- The questions that capture nothing, with the type of their answers. -/
inductive PlainQuestion : Type → Type 1
  | erasure (t : TypeId) : PlainQuestion TypeId
  | supertype (t : TypeId) : PlainQuestion TypeId
  | interfaces (t : TypeId) : PlainQuestion (List TypeId)
  | directSupertypes (t : TypeId) : PlainQuestion (List TypeId)
  | asSuper (t : TypeId) (e : ElementId) : PlainQuestion (Option TypeId)
  | asOuterSuper (t : TypeId) (e : ElementId) : PlainQuestion (Option TypeId)
  | substitute (σ : Substitution) (t : TypeId) : PlainQuestion TypeId
  | glb (t s : TypeId) : PlainQuestion TypeId
  | isSameType (t s : TypeId) : PlainQuestion Bool
  | isSameTypeLoose (t s : TypeId) : PlainQuestion Bool
  | contains (t s : TypeId) : PlainQuestion Bool
  | containsAll (ts ss : List TypeId) : PlainQuestion Bool
  | isSubtypeNoCapture (t s : TypeId) : PlainQuestion Bool
  | unboxedType (t : TypeId) : PlainQuestion (Option TypeId)
  | rank (t : TypeId) : PlainQuestion Nat
  | precedes (t s : TypeId) : PlainQuestion Bool
  | closure (t : TypeId) : PlainQuestion (List TypeId)
  | closureInsert (t : TypeId) (ts : List TypeId) : PlainQuestion (List TypeId)
  | closureUnion (as bs : List TypeId) : PlainQuestion (List TypeId)

namespace PlainQuestion

/-- Ask a question with some fuel. -/
def ask (fuel : Nat) : {α : Type} → PlainQuestion α → Query α
  | _, erasure t => JavaTypes.erasure fuel t
  | _, supertype t => JavaTypes.supertype fuel t
  | _, interfaces t => JavaTypes.interfaces fuel t
  | _, directSupertypes t => JavaTypes.directSupertypes fuel t
  | _, asSuper t e => JavaTypes.asSuper fuel t e
  | _, asOuterSuper t e => JavaTypes.asOuterSuper fuel t e
  | _, substitute σ t => JavaTypes.substitute σ fuel t
  | _, glb t s => JavaTypes.glb fuel t s
  | _, isSameType t s => JavaTypes.isSameType fuel t s
  | _, isSameTypeLoose t s => JavaTypes.isSameTypeLoose fuel t s
  | _, contains t s => JavaTypes.contains fuel t s
  | _, containsAll ts ss => JavaTypes.containsAll fuel ts ss
  | _, isSubtypeNoCapture t s => JavaTypes.isSubtypeNoCapture fuel t s
  | _, unboxedType t => JavaTypes.unboxedType fuel t
  | _, rank t => JavaTypes.rank fuel t
  | _, precedes t s => JavaTypes.precedes fuel t s
  | _, closure t => JavaTypes.closure fuel t
  | _, closureInsert t ts => JavaTypes.closureInsert fuel t ts
  | _, closureUnion as bs => JavaTypes.closureUnion fuel as bs

/-- No type above equals the type whose closure is asked for. -/
def Unmatched (S : Session) : {α : Type} → PlainQuestion α → Prop
  | _, closure t => ∀ k, Relation.TransGen S.Ascends t k → ¬ S.TypesEqual k t
  | _, _ => True

/-- An answer that lasts is given again. -/
theorem exists_answer_of_lasts {α : Type} {x y : Query α} {S S' : Session} {r : α} {p : Prop}
    [hx : Lasts x y] (hr : x S = (.ok r, S')) : ∃ r', y S' = (.ok r', S') ∧ (p → r' = r) :=
  ⟨r, hx.stays hr (.refl S'), fun _ => rfl⟩

/-- A question that was answered is answered again, with at least as much fuel, and the session stays as
it is. The answer is the same, except that a closure may be replaced by that of an equal type above. -/
theorem ask_again {α : Type} (q : PlainQuestion α) {S S' : Session} {fuel fuel' : Nat} {r : α}
    (h : fuel ≤ fuel') (hr : q.ask fuel S = (.ok r, S')) :
    ∃ r', q.ask fuel' S' = (.ok r', S') ∧ (q.Unmatched S' → r' = r) := by
  have := Fact.mk h
  cases q with
  | closure t =>
    obtain ⟨r', hr', hcases⟩ := closure_again h hr
    refine ⟨r', hr', fun hnot => hcases.resolve_right ?_⟩
    rintro ⟨k, hk, hequal⟩
    exact hnot k hk hequal
  | _ =>
    dsimp only [ask, JavaTypes.glb, JavaTypes.containsAll] at hr ⊢
    exact exists_answer_of_lasts hr

/-- The closure of `Box<Cloneable>` is found, and then found again. -/
theorem ask_again_boxes :
    ((closure ⟨24⟩).ask 30 Session.boxes).1 = .ok [⟨24⟩, ⟨19⟩, ⟨22⟩, ⟨14⟩] ∧
      (closure ⟨24⟩).ask 30 ((closure ⟨24⟩).ask 30 Session.boxes).2 =
        (.ok [⟨24⟩, ⟨19⟩, ⟨22⟩, ⟨14⟩], ((closure ⟨24⟩).ask 30 Session.boxes).2) := by
  have hfound : ((closure ⟨24⟩).ask 30 Session.boxes).1 = .ok [⟨24⟩, ⟨19⟩, ⟨22⟩, ⟨14⟩] := by
    decide +kernel
  have hdeclared : Session.boxes.DeclaredIn (· ∈ Session.boxClasses) ⟨24⟩ :=
    (Session.isClass_of_classOf rfl).declaredIn (by decide)
  -- what follows is about any session after the question, and must not evaluate this one
  generalize hr : (closure ⟨24⟩).ask 30 Session.boxes = answer at hfound ⊢
  obtain ⟨first, S'⟩ := answer
  obtain rfl : first = .ok [⟨24⟩, ⟨19⟩, ⟨22⟩, ⟨14⟩] := hfound
  have hunmatched : (closure ⟨24⟩).Unmatched S' := fun k hk =>
    Session.classTable_boxes.not_equal_above_of_closure (.start rfl rfl) hdeclared hr hk
  obtain ⟨r', hr', hsame⟩ := ask_again (closure ⟨24⟩) (le_refl 30) hr
  obtain rfl := hsame hunmatched
  exact ⟨rfl, hr'⟩

/-! ### A class that extends one that it equals -/

/-- The second class `X` of `twins` extends the first one. -/
def linkedTwins : Session :=
  { Session.twins with
    store := Session.twins.store.setElementNode ⟨9⟩
      ({ name := some "X", type := some ⟨19⟩, enclosing := some ⟨6⟩,
         detail := .type .plain { superclass := some ⟨18⟩, interfaces := [⟨17⟩] } }) }

/-- No class of `linkedTwins` is above itself. But the closure of the first class `X` is remembered before
that of the second, and given in its place from then on. -/
theorem ask_again_linkedTwins :
    (∀ T, Session.Later linkedTwins T → ∀ e ∈ Session.twinClasses, ¬ Relation.TransGen T.Extends e e) ∧
      ((closure ⟨19⟩).ask 30 linkedTwins).1 = .ok [⟨17⟩, ⟨18⟩, ⟨14⟩] ∧
        ((closure ⟨19⟩).ask 30 ((closure ⟨19⟩).ask 30 linkedTwins).2).1 = .ok [⟨18⟩, ⟨14⟩] := by
  have hknown : Known wellKnown linkedTwins Session.languageClasses := rfl
  have hclasses : ∀ e ∈ Session.twinClasses,
      linkedTwins.listsClass Session.languageClasses Session.twinClasses e = true := by
    decide +kernel
  exact ⟨fun T hT e => Session.not_above_self_of_listsClass hknown hclasses hT, by decide +kernel,
    by decide +kernel⟩

end PlainQuestion

end JavaTypes
