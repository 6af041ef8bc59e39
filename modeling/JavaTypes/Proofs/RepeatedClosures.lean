import JavaTypes.Proofs.LastingRanks

/-!
# Closures that are asked for again

A session that has found a closure remembers it under the fingerprint of the type, after the closures of
the types above it that it found on the way. If one of these types equals the type itself, the session
keeps the closure of that type only, and gives it from then on.

* `Session.Ascends T t k`: a step from `t` to its superclass or to one of its interfaces;
* `Session.Gathers P S T`: the session `T` remembers the closures of `S`, and then closures of types with
  the property `P`;
* `gathers_closureOf`: finding a closure adds closures of the type and of types above it only;
* `closure_again`: a closure that was found is found again without a change, and it is the same one if
  no type above equals the type;
* `ClassTable.not_equal_above`: in a table of classes no type above equals the type.
-/

namespace JavaTypes

open Action

/-! ### The types above a type -/

namespace Session

variable {S T U : Session} {k t u v : TypeId} {n : TypeNode}

/-- A step from a type to its superclass or to one of its interfaces, that the session knows of. -/
inductive Ascends (T : Session) (t : TypeId) : TypeId → Prop
  | superclass {u k : TypeId} {n : TypeNode} {fuel : Nat} (ht : T.store.peekType t = some (u, n))
      (hk : Known (supertype fuel u) T k) : Ascends T t k
  | interface {u k : TypeId} {n : TypeNode} {fuel : Nat} {ks : List TypeId}
      (ht : T.store.peekType t = some (u, n)) (hks : Known (interfaces fuel u) T ks) (hk : k ∈ ks) :
      Ascends T t k

/-- A node is that of a type above another. -/
def Ancestor (T : Session) (t v : TypeId) : Prop :=
  ∃ w n, Relation.TransGen T.Ascends t w ∧ T.store.peekType w = some (v, n)

/-- A node is that of a type or of one above it. -/
def Within (T : Session) (t v : TypeId) : Prop :=
  (∃ n, T.store.peekType t = some (v, n)) ∨ T.Ancestor t v

theorem Ascends.ancestor (h : T.Ascends t k) (hv : T.Within k v) : T.Ancestor t v := by
  rcases hv with ⟨n, hk⟩ | ⟨w, n, hw, hv⟩
  · exact ⟨k, n, .single h, hk⟩
  · exact ⟨w, n, .head h hw, hv⟩

/-! ### Sessions that remember closures -/

/-- The second session remembers the closures of the first, and after them only closures of types with
a property. -/
structure Gathers (P : TypeId → Prop) (S T : Session) : Prop where
  le : S ≤ T
  closures : ∀ key, ∃ more, T.memo.closuresAt key = S.memo.closuresAt key ++ more ∧
    ∀ entry ∈ more, P entry.type

variable {P Q : TypeId → Prop}

theorem Gathers.of_closures (hle : S ≤ T)
    (hclosures : ∀ key, T.memo.closuresAt key = S.memo.closuresAt key) : Gathers P S T where
  le := hle
  closures key := ⟨[], by rw [hclosures, List.append_nil], nofun⟩

theorem Gathers.imp (h : Gathers P S T) (hPQ : ∀ v, P v → Q v) : Gathers Q S T where
  le := h.le
  closures key := by
    obtain ⟨more, heq, hmore⟩ := h.closures key
    exact ⟨more, heq, fun entry hentry => hPQ entry.type (hmore entry hentry)⟩

theorem Gathers.trans (h₁ : Gathers P S T) (h₂ : Gathers P T U) : Gathers P S U where
  le := le_trans h₁.le h₂.le
  closures key := by
    obtain ⟨more₁, heq₁, hmore₁⟩ := h₁.closures key
    obtain ⟨more₂, heq₂, hmore₂⟩ := h₂.closures key
    refine ⟨more₁ ++ more₂, by rw [heq₂, heq₁, List.append_assoc], fun entry hentry => ?_⟩
    exact (List.mem_append.1 hentry).elim (hmore₁ entry) (hmore₂ entry)

theorem Gathers.of_ranks (h : Ranks [] S T) : Gathers P S T :=
  .of_closures h.le fun key => by rw [Memo.closuresAt, h.closures, Memo.closuresAt]

theorem gathers_openClosures (key : Fingerprint) :
    Gathers P T { T with memo := T.memo.openClosures key } := by
  obtain ⟨closures, heq⟩ := exists_openClosures_eq T.memo key
  refine .of_closures ?_ fun key' => closuresAt_openClosures T.memo key key'
  rw [heq]
  exact (later_remember T T.memo.ranks closures).le

theorem le_addClosure (T : Session) (key : Fingerprint) (entry : ClosureEntry) :
    T ≤ { T with memo := T.memo.addClosure key entry } :=
  (later_remember T T.memo.ranks (T.memo.addClosure key entry).closures).le

theorem gathers_addClosure (key : Fingerprint) {entry : ClosureEntry} (hentry : P entry.type) :
    Gathers P T { T with memo := T.memo.addClosure key entry } where
  le := le_addClosure T key entry
  closures key' := by
    unfold Memo.closuresAt
    rw [lookup_addClosure]
    cases hlook : T.memo.closures.lookup key' with
    | none => exact ⟨[], rfl, nofun⟩
    | some entries =>
      split
      · refine ⟨[entry], rfl, fun entry' hmem => ?_⟩
        obtain rfl := List.mem_singleton.1 hmem
        exact hentry
      · exact ⟨[], (List.append_nil entries).symm, nofun⟩

end Session

/-! ### Questions about closures -/

namespace Query

variable {α β : Type} {S T : Session} {P Q : Session → TypeId → Prop} {x : Query α} {f : α → Query β}

/-- From `S` on, the question adds only closures of types that have a property once it is answered. -/
def Gathers (S : Session) (P : Session → TypeId → Prop) (x : Query α) : Prop :=
  ∀ T T' a, S ≤ T → x T = (.ok a, T') → ∀ U, T' ≤ U → Session.Gathers (P U) T T'

theorem gathers_of_ranks [h : Query.Ranks [] x] : Gathers S P x := by
  intro T T' a _ hx U _
  exact .of_ranks (h.of_eq hx)

theorem gathers_pure (a : α) : Gathers S P (pure a) :=
  gathers_of_ranks

theorem Gathers.imp (h : Gathers S P x) (hPQ : ∀ U, S ≤ U → ∀ v, P U v → Q U v) :
    Gathers S Q x := by
  intro T T' a hle hx U hU
  have hT := h T T' a hle hx U hU
  exact hT.imp (hPQ U (le_trans hle (le_trans hT.le hU)))

theorem Gathers.bind (hx : Gathers S P x) (hf : ∀ a T, S ≤ T → Gathers T P (f a)) :
    Gathers S P (x >>= f) := by
  intro T T' b hle h U hU
  obtain ⟨a, T₁, h₁, h₂⟩ := bind_eq_ok h
  have hle₁ := le_trans hle (hx T T₁ a hle h₁ T₁ le_rfl).le
  have hrest := hf a T₁ hle₁ T₁ T' b le_rfl h₂ U hU
  exact (hx T T₁ a hle h₁ U (le_trans hrest.le hU)).trans hrest

theorem gathers_bind_of_ranks [Query.Ranks [] x] (hf : ∀ a T, S ≤ T → Gathers T P (f a)) :
    Gathers S P (x >>= f) :=
  gathers_of_ranks.bind hf

/-- The answer of a question that settles is known in what follows. -/
theorem gathers_bind_of_settles [hx : Settles x x]
    (hf : ∀ a T, S ≤ T → Known x T a → Gathers T P (f a)) : Gathers S P (x >>= f) := by
  intro T T' b hle h U hU
  obtain ⟨a, T₁, h₁, h₂⟩ := bind_eq_ok h
  have hT₁ : Session.Gathers (P U) T T₁ := .of_ranks (.of_leads [] (hx.leads_of_eq h₁))
  exact hT₁.trans (hf a T₁ (le_trans hle hT₁.le) (known_of_ok h₁ le_rfl) T₁ T' b le_rfl h₂ U hU)

end Query

open Query

section Closures

variable {S : Session} {P : Session → TypeId → Prop} {closureOf : TypeId → Query (List TypeId)}
  {fuel : Nat} {t u : TypeId} {n : TypeNode}

theorem ranks_rememberedClosure (fuel : Nat) (key : Fingerprint) (t : TypeId) :
    Query.Ranks [] (rememberedClosure fuel key t) :=
  moves_rememberedClosure fuel key t

theorem gathers_rememberClosure (key : Fingerprint) (closure : List TypeId)
    (ht : ∀ U, S ≤ U → P U t) : Gathers S P (rememberClosure fuel key t closure) := by
  have hopen : Gathers S P (modifyMemo fun m => m.openClosures key) := by
    intro T T' a _ h U _
    cases h
    exact Session.gathers_openClosures key
  refine hopen.bind fun _ T hT => gathers_bind_of_ranks fun found T' hT' => ?_
  cases found with
  | some _ => exact gathers_pure ()
  | none =>
    intro V V' a hV h U hU
    cases h
    have hle := le_trans (Session.le_addClosure V key ⟨t, closure⟩) hU
    exact Session.gathers_addClosure key (ht U (le_trans hT (le_trans hT' (le_trans hV hle))))

theorem gathers_unionEach {ks : List TypeId} (hrec : ∀ k ∈ ks, ∀ T, S ≤ T → Gathers T P (closureOf k))
    (closure : List TypeId) : Gathers S P (unionEach fuel closureOf closure ks) := by
  induction ks generalizing closure S with
  | nil => exact gathers_pure closure
  | cons k ks ih =>
    refine (hrec k List.mem_cons_self S le_rfl).bind fun other T hT =>
      gathers_bind_of_ranks fun merged T' hT' => ?_
    exact ih (fun j hj V hV => hrec j (List.mem_cons_of_mem k hj) V (le_trans hT (le_trans hT' hV)))
      merged

theorem gathers_classClosure
    (hrec : ∀ k T, S ≤ T → Known (supertype fuel t) T k → Gathers T P (closureOf k)) :
    Gathers S P (classClosure fuel closureOf t n) := by
  refine gathers_bind_of_settles fun above T hT habove => ?_
  have hknown : ∀ V, T ≤ V → Gathers V P (closureOf above) := fun V hV =>
    hrec above V (le_trans hT hV) (habove.mono hV)
  split
  · exact hknown T le_rfl
  refine gathers_bind_of_ranks fun kind V hV => ?_
  split
  case h_1 | h_2 => exact (hknown V hV).bind fun closure W _ => gathers_of_ranks
  case h_3 => exact (hknown V hV).bind fun closure W _ => gathers_pure (t :: closure)
  case h_4 => exact gathers_pure [t]

section Above

variable (ht : S.Shows t u n) (hrec : ∀ k T, Gathers T (fun U => U.Within k) (closureOf k))

include ht hrec

theorem gathers_superclasses :
    Gathers S (fun U => U.Ancestor t) (classClosure fuel closureOf u n) := by
  refine gathers_classClosure fun k T hT hk => (hrec k T).imp fun U hU v hv => ?_
  have hknown := hk.mono hU
  exact (Session.Ascends.superclass (peekType_mono (le_trans hT hU).store ht) hknown).ancestor hv

theorem gathers_interfaces {ks : List TypeId} (hks : Known (interfaces fuel u) S ks)
    (closure : List TypeId) :
    Gathers S (fun U => U.Ancestor t) (unionEach fuel closureOf closure ks) := by
  refine gathers_unionEach (fun k hk T hT => (hrec k T).imp fun U hU v hv => ?_) closure
  have hle := le_trans hT hU
  have hknown := hks.mono hle
  exact (Session.Ascends.interface (ht.mono hle) hknown hk).ancestor hv

end Above

/-- Finding a closure adds closures of the type and of types above it only. -/
theorem gathers_closureOf (fuel : Nat) (t : TypeId) (S : Session) :
    Gathers S (fun U => U.Within t) (JavaTypes.closureOf fuel t) := by
  induction fuel generalizing t S with
  | zero => exact gathers_of_ranks (x := throw .exhausted)
  | succ fuel ih =>
    refine gathers_bind_of_settles fun x S₁ _ hx => ?_
    obtain ⟨u, n⟩ := x
    have ht : ∀ T, S₁ ≤ T → T.Shows t u n := fun T hT => peekType_mono hT.store (shows_of_known hx)
    refine gathers_bind_of_ranks fun key S₂ hS₂ => gathers_bind_of_ranks fun found S₃ hS₃ => ?_
    have hS₃ := le_trans hS₂ hS₃
    cases found with
    | some closure => exact gathers_pure closure
    | none =>
      refine ((gathers_superclasses (ht S₃ hS₃) ih).imp fun _ _ _ => .inr).bind
        fun classes S₄ hS₄ => ?_
      have hS₄ := le_trans hS₃ hS₄
      refine gathers_bind_of_settles fun ks S₅ hS₅ hks => ?_
      have hS₅ := le_trans hS₄ hS₅
      refine ((gathers_interfaces (ht S₅ hS₅) ih hks classes).imp fun _ _ _ => .inr).bind
        fun closure S₆ hS₆ => ?_
      refine (gathers_rememberClosure key closure fun U hU => .inl ⟨n, ?_⟩).bind
        fun _ _ _ => gathers_pure closure
      exact ht U (le_trans hS₅ (le_trans hS₆ hU))

end Closures

/-! ### Searching what is remembered -/

section Search

variable {q : Equality} {s : Store} {fuel fuel' : Nat} {t u : TypeId} {n : TypeNode}
  {entries more : List ClosureEntry} {closure : List TypeId} {r : Option (List TypeId)}

theorem known_findClosure_cons {entry : ClosureEntry} :
    Known (findClosure fuel q t (entry :: entries)) s r ↔ ∃ found,
      Known (q.types fuel entry.type t) s found ∧
        Known (if found then pure (some entry.closure) else findClosure fuel q t entries) s r :=
  known_bind

/-- A closure that is found is that of an equal type. -/
theorem exists_equal_of_known_findClosure (h : Known (findClosure fuel q t entries) s (some closure)) :
    ∃ entry ∈ entries, entry.closure = closure ∧ Equality.EqualTypes q s [] entry.type t := by
  induction entries with
  | nil => cases h
  | cons entry entries ih =>
    obtain ⟨found, hfound, h⟩ := known_findClosure_cons.1 h
    cases found with
    | true =>
      cases known_pure.1 h
      exact ⟨entry, List.mem_cons_self, rfl, (Equality.known_types_iff hfound).1 rfl⟩
    | false =>
      obtain ⟨entry', hmem, hclosure, hequal⟩ := ih h
      exact ⟨entry', List.mem_cons_of_mem entry hmem, hclosure, hequal⟩

theorem not_equal_of_known_findClosure (h : Known (findClosure fuel q t entries) s none) :
    ∀ entry ∈ entries, ¬ Equality.EqualTypes q s [] entry.type t := by
  induction entries with
  | nil => exact nofun
  | cons entry entries ih =>
    obtain ⟨found, hfound, h⟩ := known_findClosure_cons.1 h
    cases found with
    | true => cases h
    | false =>
      rintro entry' hmem hequal
      rcases List.mem_cons.1 hmem with rfl | hmem
      · cases (Equality.known_types_iff hfound).2 hequal
      · exact ih h entry' hmem hequal

/-- The search goes on behind the entries where nothing is found. -/
theorem known_findClosure_append (h : Known (findClosure fuel q t entries) s none)
    (hmore : Known (findClosure fuel q t more) s r) :
    Known (findClosure fuel q t (entries ++ more)) s r := by
  induction entries with
  | nil => exact hmore
  | cons entry entries ih =>
    obtain ⟨found, hfound, h⟩ := known_findClosure_cons.1 h
    cases found with
    | true => cases h
    | false => exact known_findClosure_cons.2 ⟨false, hfound, ih h⟩

theorem known_findClosure_self (hu : s.peekType u = some (u, n)) (closure : List TypeId) :
    Known (findClosure (fuel + 1) q u [⟨u, closure⟩]) s (some closure) := by
  refine known_findClosure_cons.2 ⟨true, ?_, rfl⟩
  refine Equality.known_typesAssuming_succ.2 ⟨u, n, u, n, hu, hu, ?_⟩
  rw [if_pos rfl]
  rfl

variable {S S' : Session} {key : Fingerprint}

theorem known_rememberedClosure : Known (rememberedClosure fuel key t) S r ↔
    Known (findClosure fuel S.config.equality t (S.memo.closuresAt key)) S.store r :=
  known_onStore

/-- A search that has answered gives the same answer again. -/
theorem known_of_rememberedClosure (h : fuel ≤ fuel')
    (hr : rememberedClosure fuel key t S = (.ok r, S')) :
    Known (rememberedClosure fuel' key t) S' r := by
  have hranks := (ranks_rememberedClosure fuel key t).of_eq hr
  have hfound : Known (onStore (findClosure fuel' S.config.equality t (S.memo.closuresAt key))) S' r :=
    have := Fact.mk h
    (settles_onStore).stays hr le_rfl
  rw [known_rememberedClosure, hranks.le.config, Memo.closuresAt, hranks.closures]
  exact known_onStore.1 hfound

/-- Once a closure was to be remembered there is one for the type: this one, or that of an equal type. -/
theorem known_of_rememberClosure (h : fuel ≤ fuel' + 1) (hu : S'.Shows u u n)
    (hr : rememberClosure fuel key u closure S = (.ok (), S')) :
    ∃ found, Known (rememberedClosure (fuel' + 1) key u) S' (some found) ∧
      (found = closure ∨ ∃ entry ∈ S.memo.closuresAt key, S'.TypesEqual entry.type u) := by
  obtain ⟨_, T, hopen, hr⟩ := bind_eq_ok hr
  cases hopen
  obtain ⟨found, T, hsearch, hr⟩ := bind_eq_ok hr
  have hknown := known_of_rememberedClosure h hsearch
  have hclosures : T.memo.closures = (S.memo.openClosures key).closures :=
    ((ranks_rememberedClosure fuel key u).of_eq hsearch).closures
  cases found with
  | some found =>
    cases hr
    obtain ⟨entry, hmem, -, hequal⟩ :=
      exists_equal_of_known_findClosure (known_rememberedClosure.1 hknown)
    rw [Memo.closuresAt, hclosures] at hmem
    exact ⟨found, hknown, .inr
      ⟨entry, Session.closuresAt_openClosures S.memo key key ▸ hmem, hequal⟩⟩
  | none =>
    -- the closure is added behind the entries that were searched, and it is the first to be found
    cases hr
    obtain ⟨entries, hlook⟩ := Session.exists_lookup_openClosures S.memo key
    rw [← hclosures] at hlook
    refine ⟨closure, known_rememberedClosure.2 ?_, .inl rfl⟩
    rw [Session.closuresAt_addClosure hlook]
    exact known_findClosure_append (known_rememberedClosure.1 hknown) (known_findClosure_self hu closure)

end Search

/-! ### Closures are found again -/

section Again

variable {S S' : Session} {fuel fuel' : Nat} {t u : TypeId} {n : TypeNode} {key : Fingerprint}
  {r : List TypeId}

theorem known_closureOf (ht : Known (onStore (viewType t)) S (u, n))
    (hkey : Known (onStore (typeFingerprint u)) S key)
    (hr : Known (rememberedClosure fuel key u) S (some r)) : Known (closureOf (fuel + 1) t) S r :=
  ht.bind (hkey.bind (hr.bind rfl))

section New

variable (ht : S.Shows t u n) {S₁ S₂ S₃ U : Session} {classes ks : List TypeId}
  (hclasses : classClosure fuel (closureOf fuel) u n S = (.ok classes, S₁))
  (hks : interfaces fuel u S₁ = (.ok ks, S₂))
  (hr : unionEach fuel (closureOf fuel) classes ks S₂ = (.ok r, S₃))

include ht hclasses hks hr

/-- What is added while a new closure is put together belongs to the types above. -/
theorem gathers_of_newClosure (hU : S₃ ≤ U) : Session.Gathers (U.Ancestor t) S S₃ := by
  have hall : Gathers S (fun U => U.Ancestor t) (classClosure fuel (closureOf fuel) u n >>=
      fun classes => interfaces fuel u >>= unionEach fuel (closureOf fuel) classes) := by
    refine (gathers_superclasses ht (gathers_closureOf fuel)).bind fun classes T hT => ?_
    refine gathers_bind_of_settles fun ks V hV hks => ?_
    have htV := peekType_mono (le_trans hT hV).store ht
    exact gathers_interfaces htV (gathers_closureOf fuel) hks classes
  refine hall S S₃ r le_rfl ?_ U hU
  rw [bind_of_ok hclasses, bind_of_ok hks, hr]

/-- The closure of a type that none was remembered for is remembered, unless a type above equals the
type: no entry from before equals it, and the further ones are of types above. -/
theorem known_of_newClosure (h : fuel ≤ fuel') (hnone : Known (rememberedClosure fuel key u) S none)
    (hremember : rememberClosure fuel key u r S₃ = (.ok (), S')) :
    S ≤ S' ∧ ∃ r', Known (rememberedClosure fuel' key u) S' (some r') ∧
      (r' = r ∨ ∃ k, Relation.TransGen S'.Ascends t k ∧ S'.TypesEqual k t) := by
  -- without fuel no superclass is found
  obtain _ | fuel' := fuel'
  · obtain rfl := Nat.le_zero.1 h
    cases hclasses
  have hkept : Gathers S₃ (fun _ _ => True) (rememberClosure fuel key u r) :=
    gathers_rememberClosure key r fun _ _ => trivial
  have hle₃ := (hkept S₃ S' () le_rfl hremember S' le_rfl).le
  have hgathers := gathers_of_newClosure ht hclasses hks hr hle₃
  have hle := le_trans hgathers.le hle₃
  have ht' := ht.mono hle
  obtain ⟨r', hr', hcases⟩ := known_of_rememberClosure h ht'.self hremember
  refine ⟨hle, r', hr', hcases.imp_right ?_⟩
  rintro ⟨entry, hentry, hequal⟩
  obtain ⟨more, heq, hmore⟩ := hgathers.closures key
  rw [heq] at hentry
  -- the entries from before were searched at the start, so an equal one is that of a type above
  rcases List.mem_append.1 hentry with hold | hnew
  · have hsearch := (known_rememberedClosure.1 hnone).mono hle.store
    rw [← hle.config] at hsearch
    exact absurd hequal (not_equal_of_known_findClosure hsearch entry hold)
  · obtain ⟨k, m, hk, hpeek⟩ := hmore entry hnew
    refine ⟨k, hk, ?_⟩
    exact ((Equality.EqualTypes.of_node hpeek).trans hequal).trans (Equality.EqualTypes.of_node ht').symm

end New

/-- A closure that was found is found again. It is the same one, unless a type above equals the type. -/
theorem closureOf_again (h : fuel ≤ fuel') (hr : closureOf fuel t S = (.ok r, S')) :
    ∃ r', Known (closureOf fuel' t) S' r' ∧
      (r' = r ∨ ∃ k, Relation.TransGen S'.Ascends t k ∧ S'.TypesEqual k t) := by
  cases fuel with
  | zero => cases hr
  | succ fuel =>
  cases fuel' with
  | zero => cases h
  | succ fuel' =>
  have h := Nat.le_of_succ_le_succ h
  obtain ⟨x, S₁, hview, hr⟩ := bind_eq_ok hr
  obtain ⟨u, n⟩ := x
  obtain ⟨key, S₂, hkey, hr⟩ := bind_eq_ok hr
  obtain ⟨found, S₃, hsearch, hr⟩ := bind_eq_ok hr
  have hranks := (ranks_rememberedClosure fuel key u).of_eq hsearch
  have hview : ∀ T, S₁ ≤ T → Known (onStore (viewType t)) T (u, n) := fun T hT =>
    known_of_ok hview hT
  have hle₁ : S₁ ≤ S₂ := le_of_ok hkey
  have hkey : ∀ T, S₂ ≤ T → Known (onStore (typeFingerprint u)) T key := fun T hT =>
    known_of_ok hkey hT
  cases found with
  | some closure =>
    cases hr
    exact ⟨r, known_closureOf (hview S' (le_trans hle₁ hranks.le)) (hkey S' hranks.le)
      (known_of_rememberedClosure h hsearch), .inl rfl⟩
  | none =>
    obtain ⟨classes, S₄, hclasses, hr⟩ := bind_eq_ok hr
    obtain ⟨ks, S₅, hks, hr⟩ := bind_eq_ok hr
    obtain ⟨closure, S₆, hunion, hr⟩ := bind_eq_ok hr
    obtain ⟨_, S₇, hremember, hr⟩ := bind_eq_ok hr
    cases hr
    have ht : S₃.Shows t u n := shows_of_known (hview S₃ (le_trans hle₁ hranks.le))
    obtain ⟨hle, r', hr', hcases⟩ := known_of_newClosure ht hclasses hks hunion h
      (known_of_rememberedClosure le_rfl hsearch) hremember
    have hle₂ := le_trans hranks.le hle
    exact ⟨r', known_closureOf (hview S' (le_trans hle₁ hle₂)) (hkey S' hle₂) hr', hcases⟩

/-- A closure that was found is found again. It is the same one, unless a type above equals the type. -/
theorem closure_again (h : fuel ≤ fuel') (hr : closure fuel t S = (.ok r, S')) :
    ∃ r', Known (closure fuel' t) S' r' ∧
      (r' = r ∨ ∃ k, Relation.TransGen S'.Ascends t k ∧ S'.TypesEqual k t) := by
  obtain ⟨kind, S₁, hkind, hr⟩ := bind_eq_ok hr
  split at hr
  · next hclosure =>
    obtain ⟨r', hr', hcases⟩ := closureOf_again h hr
    have hle := (gathers_closureOf fuel t S₁ S₁ S' r le_rfl hr S' le_rfl).le
    have hkind : Known (onStore (typeKind t)) S' kind := known_of_ok hkind hle
    refine ⟨r', hkind.bind ?_, hcases⟩
    rw [if_pos hclosure]
    exact hr'
  · cases hr

end Again

/-! ### Closures of classes -/

namespace Session

variable {S S' T : Session} {C : ElementId → Prop} {a : ElementId} {k t : TypeId} {n : TypeNode}
  {fuel fuel' : Nat} {r : List TypeId}

/-- Nothing but the absent type is above the absent type. -/
theorem Ascends.eq_none (h : T.Ascends t k) (ht : T.Shows t t n)
    (hn : n.kind = .noType .none) : k = TypeId.none := by
  have hview := ht.known
  cases h with
  | @superclass _ _ _ fuel ht' hk =>
    cases ht.symm.trans ht'
    cases fuel with
    | zero => cases hk
    | succ fuel =>
      have hk := hview.of_bind hk
      dsimp only at hk
      rw [TypeNode.shape_of_noType hn] at hk
      exact known_pure.1 hk
  | @interface _ _ _ fuel ks ht' hks hk =>
    cases ht.symm.trans ht'
    cases fuel with
    | zero => cases hks
    | succ fuel =>
      have hks := hview.of_bind hks
      dsimp only at hks
      rw [TypeNode.shape_of_noType hn] at hks
      rw [known_pure.1 hks] at hk
      cases hk

/-- A step up from a type of a class leads to a type of a class that the class names. -/
theorem Ascends.exists_extends (H : T.RankedClasses C) (hC : C a) (ha : T.IsClass t a)
    (h : T.Ascends t k) (hall : T.Surveyed a) :
    k = TypeId.none ∨ ∃ b, T.IsClass k b ∧ T.Extends a b := by
  obtain ⟨named, hnamed, hclasses⟩ := hall
  have hextends : ∀ s ∈ named, T.SameClass k s → ∃ b, T.IsClass k b ∧ T.Extends a b := by
    intro s hs hsame
    obtain ⟨b, hb⟩ := hclasses s hs
    exact ⟨b, hsame.isClass_iff.2 hb, named, s, hnamed, hs, hb⟩
  obtain ⟨superclass, interfaces, hsuperclass, hinterfaces, rfl⟩ := known_supertypesNamed.1 hnamed
  cases h with
  | superclass ht hk =>
    have ha := ha.of_node ht
    have hseen := H.ladder.superclassSeen hC ha (ha.declaredIn hC) hk
    refine hseen.imp (fun h => h.1) ?_
    rintro ⟨s, hs, hsame, -⟩
    obtain rfl := hsuperclass.unique hs
    exact hextends s (List.mem_append_left _ (Option.mem_toList.2 rfl)) hsame
  | interface ht hks hk =>
    have ha := ha.of_node ht
    obtain ⟨named', hnamed', hsame⟩ := H.ladder.forall₂_of_known_interfaces hC ha (ha.declaredIn hC) hks
    obtain rfl := hinterfaces.unique hnamed'
    obtain ⟨s, hs, hks, -⟩ := exists_of_forall₂_left hsame hk
    exact .inr (hextends s (List.mem_append_right _ hs) hks)

section Table

variable (H : T.ClassTable C) (hC : C a) (ha : T.IsClass t a)
  (hall : ∀ b, T.Reaches a b → T.Surveyed b)

include H hC ha hall

/-- Steps up from a type of a class follow the classes up. -/
theorem ClassTable.exists_above (hk : Relation.TransGen T.Ascends t k) :
    k = TypeId.none ∨ ∃ b, T.IsClass k b ∧ Relation.TransGen T.Extends a b := by
  induction hk with
  | single hk =>
    refine (hk.exists_extends H.ranked hC ha (hall a .refl)).imp_right ?_
    rintro ⟨b, hb, hab⟩
    exact ⟨b, hb, .single hab⟩
  | tail _ hk ih =>
    rcases ih with rfl | ⟨b, hb, hab⟩
    · obtain ⟨n, hn, hkind⟩ := H.absent
      exact .inl (hk.eq_none hn hkind)
    · have hreaches : T.Reaches a b := hab.to_reflTransGen
      have hC := H.ranked.mem_of_reaches hC hreaches
      refine (hk.exists_extends H.ranked hC hb (hall b hreaches)).imp_right ?_
      rintro ⟨c, hc, hbc⟩
      exact ⟨c, hc, hab.tail hbc⟩

/-- In a table of classes no type above a type equals it. -/
theorem ClassTable.not_equal_above (hk : Relation.TransGen T.Ascends t k) : ¬ T.TypesEqual k t := by
  intro hequal
  have hka := H.isClass_of_equalTypes hC ha (.symm hequal)
  rcases H.exists_above hC ha hall hk with rfl | ⟨b, hb, hab⟩
  · obtain ⟨n, hn, hkind⟩ := H.absent
    cases (hka.kind_eq hn).symm.trans hkind
  · obtain rfl := hb.unique hka
    exact H.acyclic .rfl hC hab

end Table

/-- Once the closure of a type of a table of classes was found, no type above equals the type. -/
theorem ClassTable.not_equal_above_of_closure (H : S.ClassTable C) (hS : Queried C S)
    (ht : S.DeclaredIn C t) (hr : closure fuel t S = (.ok r, S'))
    (hk : Relation.TransGen S'.Ascends t k) : ¬ S'.TypesEqual k t := by
  have hkeeps : Keeps S (Inquiry.all C 0) C False (closure fuel t) fun V r => V.ClosureFound C fuel t r :=
    keeps_closure H H.ranked.index_lt nofun
  have houtcome := hkeeps S .rfl hS.remembers nofun
  rw [hr] at houtcome
  have hdeclared := ht.later houtcome.later
  obtain ⟨a, ha, _, hclosure, -⟩ := houtcome.answer rfl .rfl hdeclared
  obtain ⟨classes, -, -, hmem, hsurveyed⟩ := hclosure.isClosure
  exact (H.later houtcome.later).not_equal_above (hdeclared.mem ha) ha
    (fun b hb => hsurveyed b ((hmem b).2 hb)) hk

end Session

end JavaTypes
