import JavaTypes.Proofs.Ranks
import JavaTypes.Relation.Closure

/-!
# What a session remembers

A session remembers ranks and closures. What it remembers of a table of classes is right, and the
questions about ranks and closures keep it so.

* `Session.IsClosure T a entries`: the list has one type for each class that is reached from `a`, in
  the order of closures. `Session.IsClosureOf` says which types these are;
* `Session.Remembers T C D`: all ranks that `T` remembers for classes in `C` are right, and so are all
  closures for classes in `D`;
* `Inquiry`: sessions and types that are not left while questions are answered. `Inquiry.Answers` says
  that a question has an answer, or fails as a question about a single type or pair of classes does;
* `Action.Keeps`: a triple for questions that change what is remembered. The answer has a property
  from then on, and a question that fails has one of the smaller questions to blame.
-/

namespace JavaTypes

open Action

namespace Session

variable {S T : Session} {C D : ElementId → Prop} {a b e : ElementId} {entries : List TypeId}
  {m : Memo} {key key' : Fingerprint} {entry entry' : ClosureEntry}

/-! ### Closures -/

/-- A list of types has one type for each class that is reached from `a`, in order, and all that is
above these classes is known. -/
def IsClosure (T : Session) (a : ElementId) (entries : List TypeId) : Prop :=
  ∃ classes, List.Forall₂ T.IsClass entries classes ∧ classes.Pairwise T.Before ∧
    (∀ b, b ∈ classes ↔ T.Reaches a b) ∧ ∀ b ∈ classes, T.Surveyed b

theorem IsClosure.mono (h : S.IsClosure a entries) (hle : S ≤ T) : T.IsClosure a entries := by
  obtain ⟨classes, hclasses, hsorted, hmem, hsurveyed⟩ := h
  refine ⟨classes, hclasses.imp fun _ _ hc => hc.mono hle, hsorted.imp fun hab => hab.mono hle,
    fun b => ?_, fun b hb => (hsurveyed b hb).mono hle⟩
  rw [hmem, reaches_iff_of_surveyed hle fun c hc => hsurveyed c ((hmem c).2 hc)]

/-- The list is the closure of the type `t` of the class `a`: it starts with `t`, and each entry is
the type of its class at the end of the first path. -/
structure IsClosureOf (T : Session) (a : ElementId) (t : TypeId) (entries : List TypeId) : Prop where
  isClosure : T.IsClosure a entries
  head : entries.head? = some t
  origin : ∀ x ∈ entries, ∀ b, T.IsClass x b → T.SeenAt b t x

theorem IsClosureOf.mono {t : TypeId} (h : S.IsClosureOf a t entries)
    (hle : S ≤ T) : T.IsClosureOf a t entries where
  isClosure := h.isClosure.mono hle
  head := h.head
  origin x hx b hb := by
    obtain ⟨classes, hclasses, -⟩ := h.isClosure
    obtain ⟨b', -, hb'⟩ := exists_of_forall₂_left hclasses hx
    obtain rfl := (hb'.mono hle).unique hb
    exact (h.origin x hx b' hb').mono hle

/-! ### Right answers in memory -/

/-- The ranks that are remembered for the classes in `C` are right, and so are the closures that are
remembered for the classes in `D`. -/
structure Remembers (T : Session) (C D : ElementId → Prop) : Prop where
  ranks : ∀ {e r}, T.memo.ranks.lookup e = some r → C e → T.RankIs e r
  closures : ∀ {key entry}, entry ∈ T.memo.closuresAt key → ∀ {V}, T ≤ V →
    ∀ {a}, V.IsClass entry.type a → D a → V.IsClosureOf a entry.type entry.closure

/-- Deriving a type changes nothing that is remembered of ranks and closures. -/
theorem memo_derive (shape : TypeShape) (S : Session) :
    (derive shape S).2.memo.ranks = S.memo.ranks ∧
      (derive shape S).2.memo.closures = S.memo.closures := by
  cases hlook : S.memo.derived.lookup shape with
  | some k =>
    rw [derive_of_lookup hlook]
    exact ⟨rfl, rfl⟩
  | none =>
    rw [derive_of_lookup_none hlook]
    cases hmade : makeShape shape S.store with
    | mk r store => cases r <;> exact ⟨rfl, rfl⟩

theorem memo_of_leads (h : Leads S T) :
    T.memo.ranks = S.memo.ranks ∧ T.memo.closures = S.memo.closures := by
  induction h with
  | refl => exact ⟨rfl, rfl⟩
  | tail _ hstep ih =>
    rcases hstep with ⟨store, -, rfl⟩ | ⟨shape, rfl⟩
    · exact ih
    · obtain ⟨hranks, hclosures⟩ := memo_derive shape _
      exact ⟨hranks.trans ih.1, hclosures.trans ih.2⟩

theorem Remembers.of_memo (h : S.Remembers C D) (hle : S ≤ T) (hranks : T.memo.ranks = S.memo.ranks)
    (hclosures : ∀ key, T.memo.closuresAt key = S.memo.closuresAt key) : T.Remembers C D where
  ranks := by
    rw [hranks]
    exact fun hlook he => (h.ranks hlook he).mono hle
  closures {key entry} := by
    rw [hclosures]
    exact fun hentry V hV => h.closures hentry (le_trans hle hV)

theorem closuresAt_congr (h : T.memo.closures = S.memo.closures) (key : Fingerprint) :
    T.memo.closuresAt key = S.memo.closuresAt key := by
  rw [Memo.closuresAt, h]
  rfl

theorem closuresAt_of_leads (h : Leads S T) (key : Fingerprint) :
    T.memo.closuresAt key = S.memo.closuresAt key :=
  closuresAt_congr (memo_of_leads h).2 key

theorem Remembers.leads (h : S.Remembers C D) (hT : Leads S T) : T.Remembers C D :=
  h.of_memo hT.le (memo_of_leads hT).1 (closuresAt_of_leads hT)

/-! ### Remembering more -/

theorem exists_openClosures_eq (m : Memo) (key : Fingerprint) :
    ∃ closures, m.openClosures key = { m with closures := closures } := by
  unfold Memo.openClosures
  split
  · exact ⟨m.closures, rfl⟩
  · exact ⟨m.closures ++ [(key, [])], rfl⟩

theorem closuresAt_openClosures (m : Memo) (key key' : Fingerprint) :
    (m.openClosures key).closuresAt key' = m.closuresAt key' := by
  unfold Memo.openClosures
  split
  · rfl
  · next hnone =>
    unfold Memo.closuresAt
    rw [List.lookup_append]
    cases hlook : m.closures.lookup key' with
    | some entries => rfl
    | none =>
      by_cases heq : key' = key
      · rw [heq, Option.none_or, List.lookup_cons_self]
        rfl
      · rw [Option.none_or, List.lookup_cons, beq_false_of_ne heq]
        rfl

/-- There is room for closures once it was made. -/
theorem exists_lookup_openClosures (m : Memo) (key : Fingerprint) :
    ∃ entries, (m.openClosures key).closures.lookup key = some entries := by
  unfold Memo.openClosures
  split
  · next entries hlook => exact ⟨entries, hlook⟩
  · next hnone =>
    refine ⟨[], ?_⟩
    rw [List.lookup_append, hnone, Option.none_or, List.lookup_cons_self]

theorem lookup_addClosure (m : Memo) (key key' : Fingerprint) (entry : ClosureEntry) :
    (m.addClosure key entry).closures.lookup key' = (m.closures.lookup key').map fun entries =>
        if key' = key then entries ++ [entry] else entries := by
  unfold Memo.addClosure
  dsimp only
  induction m.closures with
  | nil => rfl
  | cons head rest ih =>
    obtain ⟨k, entries⟩ := head
    rw [List.map_cons]
    by_cases hk : key' = k
    · subst hk
      rw [List.lookup_cons_self]
      split <;> exact List.lookup_cons_self
    · have hne := beq_false_of_ne hk
      have hrest : ((k, entries) :: rest).lookup key' = rest.lookup key' := by
        rw [List.lookup_cons, hne]
      rw [hrest, ← ih]
      split <;> rw [List.lookup_cons, hne]

theorem closuresAt_addClosure {entries : List ClosureEntry}
    (hm : m.closures.lookup key = some entries) (entry : ClosureEntry) :
    (m.addClosure key entry).closuresAt key = m.closuresAt key ++ [entry] := by
  unfold Memo.closuresAt
  rw [lookup_addClosure, hm, Option.map_some, if_pos rfl, Option.getD_some, Option.getD_some]

theorem mem_closuresAt_addClosure (h : entry' ∈ (m.addClosure key entry).closuresAt key') :
    entry' ∈ m.closuresAt key' ∨ entry' = entry := by
  unfold Memo.closuresAt at h ⊢
  rw [lookup_addClosure] at h
  cases hlook : m.closures.lookup key' with
  | none =>
    rw [hlook] at h
    cases h
  | some entries =>
    rw [hlook] at h
    split at h
    · exact (List.mem_append.1 h).imp_right List.mem_singleton.1
    · exact .inl h

theorem Remembers.setRank {n : Nat} (h : T.Remembers C D) (hrank : C e → T.RankIs e n) :
    Remembers { T with memo := T.memo.setRank e n } C D := by
  have hle := (later_remember T ((e, n) :: T.memo.ranks) T.memo.closures).le
  refine ⟨fun {e' r} hlook he' => ?_, fun hentry V hV => h.closures hentry (le_trans hle hV)⟩
  by_cases heq : e' = e
  · subst heq
    cases Option.some.inj (List.lookup_cons_self.symm.trans hlook)
    exact (hrank he').mono hle
  · have hlook : ((e, n) :: T.memo.ranks).lookup e' = some r := hlook
    rw [List.lookup_cons, beq_false_of_ne heq] at hlook
    exact (h.ranks hlook he').mono hle

theorem Remembers.openClosures (h : T.Remembers C D) (key : Fingerprint) :
    Remembers { T with memo := T.memo.openClosures key } C D := by
  obtain ⟨closures, heq⟩ := exists_openClosures_eq T.memo key
  refine h.of_memo ?_ ?_ fun key' => closuresAt_openClosures T.memo key key'
  · rw [heq]
    exact (later_remember T T.memo.ranks closures).le
  · rw [heq]

theorem Remembers.addClosure (h : T.Remembers C D) (key : Fingerprint)
    (hentry : ∀ V, T ≤ V → ∀ a, V.IsClass entry.type a → D a →
      V.IsClosureOf a entry.type entry.closure) :
    Remembers { T with memo := T.memo.addClosure key entry } C D := by
  have hle := (later_remember T T.memo.ranks (T.memo.addClosure key entry).closures).le
  refine ⟨fun hlook he => (h.ranks hlook he).mono hle, fun hmem V hV a ha hC => ?_⟩
  rcases mem_closuresAt_addClosure hmem with hmem | rfl
  · exact h.closures hmem (le_trans hle hV) ha hC
  · exact hentry V (le_trans hle hV) a ha hC

end Session

/-! ### Questions that can fail -/

/-- The sessions that come about while a question is answered, and the types that come up. -/
structure Scope where
  sessions : Session → Prop
  types : TypeId → Prop

/-- The type comes up, and is declared by a class. -/
def Scope.Covers (A : Scope) (C : ElementId → Prop) (T : Session) (t : TypeId) : Prop :=
  A.types t ∧ T.DeclaredIn C t

theorem Scope.Covers.later {A : Scope} {C : ElementId → Prop} {S T : Session} {t : TypeId}
    (h : A.Covers C S t) (hT : Session.Later S T) : A.Covers C T t :=
  ⟨h.1, h.2.later hT⟩

/-- The questions about single types and classes that the closures of a table of classes are found
with, asked with at least some fuel. A type is compared with those that have the same fingerprint and
a closure that is remembered. -/
inductive Scope.Subquestion (A : Scope) (C : ElementId → Prop) (enough : Nat) (T : Session) :
    (α : Type) → Query α → Prop
  | wellKnown : Subquestion A C enough T WellKnown wellKnown
  | supertype {t : TypeId} {fuel : Nat} (ht : A.Covers C T t) (hf : enough ≤ fuel) :
      Subquestion A C enough T TypeId (supertype fuel t)
  | interfaces {t : TypeId} {fuel : Nat} (ht : A.Covers C T t) (hf : enough ≤ fuel) :
      Subquestion A C enough T (List TypeId) (interfaces fuel t)
  | fingerprint {t : TypeId} (ht : A.Covers C T t) :
      Subquestion A C enough T Fingerprint (onStore (typeFingerprint t))
  | types {R : Session} {key : Fingerprint} {entry : ClosureEntry} {t : TypeId} {fuel : Nat}
      (hR : A.sessions R) (hentry : entry ∈ R.memo.closuresAt key) (ht : A.Covers C T t)
      (hkey : Known (onStore (typeFingerprint t)) T key) (hf : enough ≤ fuel) :
      Subquestion A C enough T Bool (onStore (T.config.equality.types fuel entry.type t))
  | elements {a b : ElementId} {fuel : Nat} (ha : C a) (hb : C b) (hf : enough ≤ fuel) :
      Subquestion A C enough T Bool (onStore (T.config.equality.elements fuel a b))

/-- Sessions and types that no question about them leaves: sessions are closed under reading, under
the smaller questions and under remembering, and types under completion and under going up. -/
structure Inquiry (C : ElementId → Prop) (enough : Nat) extends Scope where
  read : ∀ {T}, sessions T → ∀ {α} {x : Build α}, Action.Settles x x → sessions (onStore x T).2
  ask : ∀ {T}, sessions T → ∀ {α x}, toScope.Subquestion C enough T α x → sessions (x T).2
  setRank : ∀ {T}, sessions T → ∀ e r, sessions { T with memo := T.memo.setRank e r }
  openClosures : ∀ {T}, sessions T → ∀ key, sessions { T with memo := T.memo.openClosures key }
  addClosure : ∀ {T}, sessions T → ∀ key entry, types entry.type →
    sessions { T with memo := T.memo.addClosure key entry }
  completed : ∀ {T}, sessions T → ∀ {t u n}, types t → T.store.peekType t = some (u, n) → types u
  own : ∀ {T}, sessions T → ∀ {e t}, C e → Known (onStore (elementType e)) T (some t) → types t
  superclass : ∀ {T}, sessions T → ∀ {t k fuel}, types t → Known (supertype fuel t) T k → types k
  interfaces : ∀ {T}, sessions T → ∀ {t ks fuel}, types t → Known (JavaTypes.interfaces fuel t) T ks →
    ∀ k ∈ ks, types k

namespace Inquiry

variable {C : ElementId → Prop} {enough : Nat}

/-- All sessions and all types. -/
def all (C : ElementId → Prop) (enough : Nat) : Inquiry C enough where
  sessions _ := True
  types _ := True
  read _ _ _ _ := trivial
  ask _ _ _ _ := trivial
  setRank _ _ _ := trivial
  openClosures _ _ := trivial
  addClosure _ _ _ _ := trivial
  completed _ _ _ _ _ _ := trivial
  own _ _ _ _ _ := trivial
  superclass _ _ _ _ _ _ := trivial
  interfaces _ _ _ _ _ _ _ _ := trivial

/-- A smaller question fails. -/
def Fails (A : Inquiry C enough) (f : Fault) : Prop :=
  ∃ T α x U, A.sessions T ∧ A.Subquestion C enough T α x ∧ x T = (.error f, U)

/-- Asked in `T`, the question has an answer with a property, or it fails as a smaller question
does. -/
def Answers (A : Inquiry C enough) (T : Session) {α : Type} (x : Query α)
    (Q : Session → α → Prop) : Prop :=
  match x T with
  | (.ok a, U) => Q U a
  | (.error f, _) => A.Fails f

variable {A : Inquiry C enough} {T : Session} {α : Type} {x : Query α} {P Q : Session → α → Prop}

theorem Answers.imp (h : A.Answers T x P) (hPQ : ∀ U a, P U a → Q U a) : A.Answers T x Q := by
  unfold Answers at h ⊢
  cases hr : x T with
  | mk r U =>
    rw [hr] at h
    cases r with
    | ok a => exact hPQ U a h
    | error f => exact h

theorem Answers.of_ok (h : A.Answers T x Q) {a : α} (hx : (x T).1 = .ok a) : Q (x T).2 a := by
  unfold Answers at h
  cases hr : x T with
  | mk r U =>
    rw [hr] at h hx
    cases hx
    exact h

end Inquiry

namespace Action

open Session

variable {α β : Type} {S T : Session} {C D : ElementId → Prop} {enough : Nat} {A : Inquiry C enough}
  {p : Prop} {x : Query α} {f : α → Query β} {P Q : Session → α → Prop} {R : Session → β → Prop}

/-- What became of a question that was asked in `T`. The session remembers right answers, and the
answer has a property from then on. In case `p` holds, the inquiry goes on in the session, and a fault
is that of a smaller question. -/
structure Outcome (T : Session) (A : Inquiry C enough) (D : ElementId → Prop) (p : Prop)
    (Q : Session → α → Prop) (r : Except Fault α × Session) : Prop where
  later : Later T r.2
  remembers : r.2.Remembers C D
  answer : ∀ {a}, r.1 = .ok a → ∀ {V}, Later r.2 V → Q V a
  inside : p → A.sessions r.2
  fault : p → ∀ {f}, r.1 = .error f → A.Fails f

/-- Asked in any session after `S` that remembers right answers, `x` comes to such an outcome. -/
def Keeps (S : Session) (A : Inquiry C enough) (D : ElementId → Prop) (p : Prop) (x : Query α)
    (Q : Session → α → Prop) : Prop :=
  ∀ T, Later S T → T.Remembers C D → (p → A.sessions T) → Outcome T A D p Q (x T)

theorem Keeps.imp (h : Keeps S A D p x P) (hPQ : ∀ T a, Later S T → P T a → Q T a) :
    Keeps S A D p x Q := by
  intro T hT hmemo hA
  have hx := h T hT hmemo hA
  exact ⟨hx.later, hx.remembers,
    fun ha V hV => hPQ V _ (hT.trans (hx.later.trans hV)) (hx.answer ha hV), hx.inside, hx.fault⟩

theorem keeps_pure {a : α} (h : ∀ T, Later S T → Q T a) : Keeps S A D p (pure a) Q := by
  intro T hT hmemo hA
  refine ⟨.rfl, hmemo, fun ha V hV => ?_, hA, fun _ => nofun⟩
  cases ha
  exact h V (hT.trans hV)

theorem keeps_throw {e : Fault} (hp : ¬ p) : Keeps S A D p (throw e : Query α) Q :=
  fun _ _ hmemo hA => ⟨.rfl, hmemo, nofun, hA, fun h => absurd h hp⟩

theorem Keeps.bind (hx : Keeps S A D p x P)
    (hf : ∀ T a, Later S T → (∀ V, Later T V → P V a) → Keeps T A D p (f a) R) :
    Keeps S A D p (x >>= f) R := by
  intro T hT hmemo hA
  have hxT := hx T hT hmemo hA
  rw [bind_apply]
  cases hr : x T with
  | mk r U =>
    rw [hr] at hxT
    cases r with
    | ok a =>
      have hfU := hf U a (hT.trans hxT.later) (fun V hV => hxT.answer rfl hV) U .rfl
        hxT.remembers hxT.inside
      exact ⟨hxT.later.trans hfU.later, hfU.remembers, hfU.answer, hfU.inside, hfU.fault⟩
    | error e =>
      refine ⟨hxT.later, hxT.remembers, nofun, hxT.inside, fun hp g hfault => ?_⟩
      cases hfault
      exact hxT.fault hp rfl

theorem Keeps.map (hx : Keeps S A D p x P) {g : α → β}
    (h : ∀ T a, Later S T → P T a → R T (g a)) : Keeps S A D p (x >>= fun a => pure (g a)) R :=
  hx.bind fun _ a hT hP => keeps_pure fun V hV => h V a (hT.trans hV) (hP V hV)

/-- The answer of a question that settles is known in some session of the inquiry. -/
theorem Keeps.inside (h : Keeps S A D p x P) [hs : Settles x x] :
    Keeps S A D p x fun T a => P T a ∧ (p → ∃ U, A.sessions U ∧ Known x U a) := by
  intro T hT hmemo hA
  have hx := h T hT hmemo hA
  exact ⟨hx.later, hx.remembers, fun ha V hV => ⟨hx.answer ha hV,
    fun hp => ⟨_, hx.inside hp, known_of_ok (Prod.ext ha rfl) le_rfl⟩⟩, hx.inside, hx.fault⟩

/-- The answer of a question that settles is known from then on. -/
theorem Keeps.known (h : Keeps S A D p x P) [hs : Settles x x] :
    Keeps S A D p x fun T a => P T a ∧ Known x T a := by
  intro T hT hmemo hA
  have hx := h T hT hmemo hA
  exact ⟨hx.later, hx.remembers,
    fun ha V hV => ⟨hx.answer ha hV, known_of_ok (Prod.ext ha rfl) hV.le⟩, hx.inside, hx.fault⟩

/-- The outcome of a question whose faults count. -/
theorem Keeps.answers (h : Keeps T A D True x Q) (hmemo : T.Remembers C D) (hA : A.sessions T) :
    A.Answers T x fun U a => Later T U ∧ Q U a := by
  have hx := h T .rfl hmemo fun _ => hA
  unfold Inquiry.Answers
  cases hr : x T with
  | mk r U =>
    rw [hr] at hx
    cases r with
    | ok a => exact ⟨hx.later, hx.answer rfl .rfl⟩
    | error f => exact hx.fault trivial rfl

/-- Reading the session gives the session itself. -/
theorem keeps_get_bind {f : Session → Query β}
    (h : ∀ T, Later S T → T.Remembers C D → (p → A.sessions T) → Keeps T A D p (f T) R) :
    Keeps S A D p (get >>= f) R :=
  fun T hT hmemo hA => h T hT hmemo hA T .rfl hmemo hA

/-- Changing what is remembered of ranks and closures. -/
theorem keeps_modifyMemo (change : Memo → Memo)
    (hchange : ∀ m, ∃ ranks closures, change m = { m with ranks := ranks, closures := closures })
    (h : ∀ T, Later S T → T.Remembers C D → Session.Remembers { T with memo := change T.memo } C D)
    (hA : p → ∀ T, A.sessions T → A.sessions { T with memo := change T.memo }) :
    Keeps S A D p (modifyMemo change) fun _ _ => True := by
  intro T hT hmemo hAT
  refine ⟨?_, h T hT hmemo, fun _ _ _ => trivial, fun hp => hA hp T (hAT hp), fun _ => nofun⟩
  obtain ⟨ranks, closures, heq⟩ := hchange T.memo
  show Later T { T with memo := change T.memo }
  rw [heq]
  exact later_remember T ranks closures

/-- A question that settles changes nothing that is remembered. -/
theorem keeps_of_settles [hs : Settles x x]
    (hA : p → ∀ T, Later S T → A.sessions T → A.sessions (x T).2)
    (hfault : p → ∀ T, Later S T → A.sessions T → ∀ f U, x T = (.error f, U) → A.Fails f) :
    Keeps S A D p x fun T a => Known x T a := by
  intro T hT hmemo hAT
  have hleads := hs.leads T
  refine ⟨.of_leads hleads, hmemo.leads hleads, fun ha V hV => ?_,
    fun hp => hA hp T hT (hAT hp), fun hp f hf => ?_⟩
  · exact known_of_ok (Prod.ext ha rfl) hV.le
  · exact hfault hp T hT (hAT hp) f _ (Prod.ext hf rfl)

/-- A question of the kind that can be blamed. -/
theorem keeps_subquestion [hs : Settles x x]
    (h : p → ∀ T, Later S T → A.Subquestion C enough T α x) :
    Keeps S A D p x fun T a => Known x T a :=
  keeps_of_settles (fun hp T hT hA => A.ask hA (h hp T hT))
    fun hp T hT hA _ U hx => ⟨T, α, x, U, hA, h hp T hT, hx⟩

/-- A question to the store that is always answered where faults count. -/
theorem keeps_of_yields {x : Build α} [hs : Settles x x] (h : p → Yields S (onStore x) P) :
    Keeps S A D p (onStore x) fun T a => Known (onStore x) T a ∧ (p → P T a) := by
  refine (keeps_of_settles (fun _ _ _ hA => A.read hA hs)
    fun hp T hT _ f U hx => ?_).imp fun T a hT ha => ⟨ha, fun hp => (h hp).of_known hT ha⟩
  obtain ⟨a, V, hx', -⟩ := h hp T hT
  cases hx.symm.trans hx'

end Action

end JavaTypes
