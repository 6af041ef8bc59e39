import JavaTypes.Proofs.SearchAgreement
import JavaTypes.Proofs.TypesAbove

/-!
# Sessions in which no question fails

The results about ranks, closures and the search for supertypes let a question fail where one of the
smaller questions does that it is answered with. In a session that knows a finite list of types in full,
none of them fails.

* `Session.Charted`: all that the types in the list can be asked is known, and they are closed under
  going up. `Inquiry.charted` is the inquiry that stays among them;
* `Session.Charted.isOk`: there are ranks, closures, unions and supertypes then, in every later session;
* `Session.knowsThat_of_lists`: where nothing is left to complete, it can be checked what is known.
-/

namespace JavaTypes

open Action

/-- The answer to a question is known, and has a property. -/
def Session.KnowsThat {α : Type} (S : Session) (x : Query α) (P : α → Prop) : Prop :=
  ∃ a, Known x S a ∧ P a

/-- All that can be asked about the types in a finite list is known already, and what is above them
is in the list. Closures are remembered for these types only. -/
structure Session.Charted (S : Session) (C : ElementId → Prop) (enough : Nat) (ts : List TypeId) :
    Prop where
  wellKnown : S.KnowsThat wellKnown fun _ => True
  own : ∀ e, C e → S.KnowsThat (onStore (elementType e)) fun r => ∀ t ∈ r, t ∈ ts
  elements : ∀ a, C a → ∀ b, C b →
    S.KnowsThat (onStore (S.config.equality.elements enough a b)) fun _ => True
  completed : ∀ t ∈ ts, S.KnowsThat (onStore (viewType t)) fun x => x.1 ∈ ts
  superclass : ∀ t ∈ ts, S.KnowsThat (supertype enough t) fun k => k ∈ ts
  interfaces : ∀ t ∈ ts, S.KnowsThat (interfaces enough t) fun ks => ∀ k ∈ ks, k ∈ ts
  fingerprint : ∀ t ∈ ts, S.KnowsThat (onStore (typeFingerprint t)) fun _ => True
  types : ∀ t ∈ ts, ∀ s ∈ ts, S.KnowsThat (onStore (S.config.equality.types enough t s)) fun _ => True
  closures : ∀ key, ∀ entry ∈ S.memo.closuresAt key, entry.type ∈ ts

namespace Inquiry

open Session

variable {S T : Session} {C : ElementId → Prop} {enough : Nat} {ts : List TypeId}

/-- The types of the list, and all later sessions that remember closures for these types only. -/
def charted (h : S.Charted C enough ts) : Inquiry C enough where
  sessions T := Later S T ∧ ∀ key, ∀ entry ∈ T.memo.closuresAt key, entry.type ∈ ts
  types t := t ∈ ts
  read {T} hT _ x hx := by
    have hleads := leads_run (onStore x) T
    exact ⟨hT.1.trans (.of_leads hleads), fun key => closuresAt_of_leads hleads key ▸ hT.2 key⟩
  ask {T} hT α x hx := by
    have hleads : Leads T (x T).2 := by cases hx <;> exact leads_run _ _
    exact ⟨hT.1.trans (.of_leads hleads), fun key => closuresAt_of_leads hleads key ▸ hT.2 key⟩
  setRank hT e r := ⟨hT.1.trans (later_remember _ _ _), hT.2⟩
  openClosures {T} hT key := by
    obtain ⟨closures, heq⟩ := exists_openClosures_eq T.memo key
    refine ⟨hT.1.trans ?_, fun key' => closuresAt_openClosures T.memo key key' ▸ hT.2 key'⟩
    rw [heq]
    exact later_remember T T.memo.ranks closures
  addClosure hT key entry hentry := by
    refine ⟨hT.1.trans (later_remember _ _ _), fun key' entry' h' => ?_⟩
    rcases mem_closuresAt_addClosure h' with h' | rfl
    · exact hT.2 key' entry' h'
    · exact hentry
  completed hT t u n ht hu := by
    obtain ⟨x, hx, hmem⟩ := h.completed t ht
    cases (hx.mono hT.1.le).unique (Shows.known hu)
    exact hmem
  own hT e t he ht := by
    obtain ⟨r, hr, hmem⟩ := h.own e he
    exact hmem t ((hr.mono hT.1.le).unique ht)
  superclass hT t k fuel ht hk := by
    obtain ⟨k', hk', hmem⟩ := h.superclass t ht
    exact known_supertype_unique (hk'.mono hT.1.le) hk ▸ hmem
  interfaces hT t ks fuel ht hks := by
    obtain ⟨ks', hks', hmem⟩ := h.interfaces t ht
    exact known_interfaces_unique (hks'.mono hT.1.le) hks ▸ hmem

theorem not_fails_charted (h : S.Charted C enough ts) (f : Fault) : ¬ (charted h).Fails f := by
  rintro ⟨T, α, x, U, ⟨hT, hclosures⟩, hx, hfault⟩
  have hknown : ∃ a, Known x T a := by
    cases hx with
    | wellKnown => exact h.wellKnown.imp fun _ hk => hk.1.mono hT.le
    | supertype ht hf =>
      have := Fact.mk hf
      exact (h.superclass _ ht.1).imp fun _ hk => hk.1.grow hT.le
    | interfaces ht hf =>
      have := Fact.mk hf
      exact (h.interfaces _ ht.1).imp fun _ hk => hk.1.grow hT.le
    | fingerprint ht => exact (h.fingerprint _ ht.1).imp fun _ hk => hk.1.mono hT.le
    | types hR hentry ht _ hf =>
      have := Fact.mk hf
      rw [hT.le.config]
      exact (h.types _ (hR.2 _ _ hentry) _ ht.1).imp fun _ hk => hk.1.grow hT.le
    | elements ha hb hf =>
      have := Fact.mk hf
      rw [hT.le.config]
      exact (h.elements _ ha _ hb).imp fun _ hk => hk.1.grow hT.le
  obtain ⟨a, ha⟩ := hknown
  cases ha.symm.trans hfault

end Inquiry

namespace Session

variable {S T : Session} {C : ElementId → Prop} {enough fuel : Nat} {ts xs ys : List TypeId}
  {s t : TypeId} {b : ElementId}

/-- A question that is kept has an answer. -/
theorem Charted.isOk_of_keeps (h : S.Charted C enough ts) (hT : (Inquiry.charted h).sessions T)
    (hqueried : Queried C T) {α : Type} {x : Query α} {Q : Session → α → Prop}
    (hx : Keeps T (Inquiry.charted h) C True x Q) : (x T).1.isOk = true := by
  have houtcome := hx T .rfl hqueried.remembers fun _ => hT
  cases hr : (x T).1 with
  | ok a => rfl
  | error f => exact absurd (houtcome.fault trivial hr) (Inquiry.not_fails_charted h f)

/-- In a session that is charted, and in all later ones that remember closures for the charted types only,
there are ranks, closures and supertypes. -/
theorem Charted.isOk (h : S.Charted C enough ts) (H : S.ClassTable C)
    (hT : (Inquiry.charted h).sessions T) (hqueried : Queried C T)
    (hfuel : 2 * S.store.elements.size + enough + 1 < fuel) :
    (T.DeclaredIn C t → (rank fuel t T).1.isOk = true) ∧
    (T.DeclaredIn C t → T.DeclaredIn C s → (precedes fuel t s T).1.isOk = true) ∧
    ((∀ x ∈ xs, T.DeclaredIn C x) → (∀ y ∈ ys, T.DeclaredIn C y) →
      (closureUnion fuel xs ys T).1.isOk = true) ∧
    (t ∈ ts → T.DeclaredIn C t → (closure fuel t T).1.isOk = true) ∧
    (t ∈ ts → T.DeclaredIn C t → Known (onStore (resolveElement b)) T b →
      (asSuper fuel t b T).1.isOk = true) := by
  have htable : TableFuel C enough fuel := ⟨S.store.elements.size, H.ranked.index_lt, by omega⟩
  have hok : ∀ {α : Type} {x : Query α} {Q}, Keeps T (Inquiry.charted h) C True x Q →
      (x T).1.isOk = true := h.isOk_of_keeps hT hqueried
  have H' := H.later hT.1
  exact ⟨fun ht => hok (keeps_rank H'.ranked fun _ => ⟨ht, htable⟩),
    fun ht hs => hok (keeps_precedes H'.ranked fun _ => ⟨ht, hs, htable⟩),
    fun hxs hys => hok (keeps_closureUnion H' fun _ => ⟨hxs, hys, htable⟩),
    fun ht hC => hok (keeps_closure H' H.ranked.index_lt fun _ => ⟨⟨ht, hC⟩, hfuel⟩),
    fun ht hC hb => hok (keeps_asSuper H' ⟨ht, hC⟩ hb htable)⟩

/-! ### Checking sessions without pending slots -/

/-- Where nothing is left to complete, a session that has no new type has not changed. -/
theorem eq_of_leads_of_size (hS : S.store.Complete) (hT : Leads S T)
    (hsize : T.store.types.size = S.store.types.size) : T = S := by
  induction hT with
  | refl => rfl
  | @tail U V hlead hstep ih =>
    have hSU := (Leads.le hlead).store.size_types
    have hUV := (Evolving.le_of_step hstep).store.size_types
    obtain rfl := ih (by omega)
    rcases hstep with ⟨store, hstore, rfl⟩ | ⟨shape, rfl⟩
    · rw [hS.eq_of_leads (.single hstore)]
    · cases hlook : U.memo.derived.lookup shape with
      | some k => rw [derive_of_lookup hlook]
      | none =>
        have hmade : (makeShape shape U.store).2.types.size = U.store.types.size + 1 :=
          makeShape_induction (I := fun t => t.types.size = U.store.types.size + 1)
            (Array.size_push _) fun _ ht _ _ => (Store.size_types_setTypeNode _ _ _).trans ht
        rw [derive_of_lookup_none hlook] at hsize
        cases hr : makeShape shape U.store with
        | mk r store =>
          rw [hr] at hmade hsize
          cases r <;> exact absurd (hmade.symm.trans hsize) (Nat.succ_ne_self _)

/-- A question has an answer with a property, and finding it makes no types. -/
def listsKnown {α : Type} (S : Session) (x : Query α) (P : α → Prop) [DecidablePred P] : Bool :=
  (x S).1.toOption.any (fun a => decide (P a)) &&
    decide ((x S).2.store.types.size = S.store.types.size)

theorem knowsThat_of_lists {α : Type} {x : Query α} {P : α → Prop} [DecidablePred P] [Settles x x]
    (hS : S.store.Complete) (h : S.listsKnown x P = true) : S.KnowsThat x P := by
  rw [listsKnown, Bool.and_eq_true, decide_eq_true_eq] at h
  cases hr : (x S).1 with
  | ok a =>
    rw [hr] at h
    exact ⟨a, Prod.ext hr (eq_of_leads_of_size hS (leads_run x S) h.2), of_decide_eq_true h.1⟩
  | error f =>
    rw [hr] at h
    cases h.1

/-- In `boxes`, nothing can fail once the interfaces of `Box<Cloneable>` were asked for. -/
theorem charted_boxes : (interfaces 5 ⟨24⟩ boxes).2.Charted (· ∈ boxClasses) 5
    [TypeId.none, ⟨14⟩, ⟨15⟩, ⟨16⟩, ⟨17⟩, ⟨19⟩, ⟨20⟩, ⟨22⟩, ⟨23⟩, ⟨24⟩, ⟨25⟩, ⟨26⟩] := by
  have hS : (interfaces 5 ⟨24⟩ boxes).2.store.Complete := ⟨by decide +kernel, by decide +kernel⟩
  exact
    { wellKnown := knowsThat_of_lists hS (by decide +kernel)
      own := fun e he => knowsThat_of_lists hS (by revert e; decide +kernel)
      elements := fun a ha b hb => knowsThat_of_lists hS (by revert a b; decide +kernel)
      completed := fun t ht => knowsThat_of_lists hS (by revert t; decide +kernel)
      superclass := fun t ht => knowsThat_of_lists hS (by revert t; decide +kernel)
      interfaces := fun t ht => knowsThat_of_lists hS (by revert t; decide +kernel)
      fingerprint := fun t ht => knowsThat_of_lists hS (by revert t; decide +kernel)
      types := fun t ht s hs => knowsThat_of_lists hS (by revert t s; decide +kernel)
      closures := fun key entry hentry => by
        rw [closuresAt_of_leads (leads_run (interfaces 5 ⟨24⟩) boxes)] at hentry
        cases hentry }

end Session

end JavaTypes
