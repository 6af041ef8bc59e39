import JavaTypes.Proofs.Fingerprints
import JavaTypes.Proofs.Merging

/-!
# Closures are found

The closure of a type is put together from the closures of its direct supertypes, each of which may
have been found before. In a table of classes it has one entry for each class that is reached, in the
order of closures.

* `keeps_rememberedClosure`, `keeps_rememberClosure`: what is remembered for equal types;
* `Session.Collects`: the classes that have been merged so far;
* `keeps_closureOf`: the closure of a type of a class.
-/

namespace JavaTypes

open Action

/-- The fingerprint of a declared or missing type tells its element. -/
theorem exists_peek_of_fingerprint {s : Store} {t u : TypeId} {n : TypeNode} {d : ElementId}
    {key : Fingerprint} (h : Known (typeFingerprint t) s key) (ht : s.peekType t = some (u, n))
    (hk : n.kind.isDeclaredLike = true) (hd : n.element = some d) :
    ∃ found, s.peekElement d = some found := by
  rw [typeFingerprint, typeFingerprintTo_succ] at h
  have h := (known_typeNode.2 ⟨u, ht⟩).of_bind h
  obtain ⟨parts, h, -⟩ := known_map.1 h
  have helement : ∃ parts, Known (elementFingerprint d) s parts := by
    rcases TypeKind.isDeclaredLike_iff.1 hk with hk | hk
    · obtain ⟨x, hx⟩ := TypeNode.shape_of_declared hk
      rw [TypeNode.element, hx] at hd
      unfold fingerprintParts at h
      rw [hx] at h
      obtain ⟨element, helement, -⟩ := known_bind.1 h
      have hd : x.element = some d := hd
      rw [hd] at helement
      exact ⟨element, helement⟩
    · obtain ⟨x, hx⟩ := TypeNode.shape_of_error hk
      rw [TypeNode.element, hx] at hd
      unfold fingerprintParts at h
      rw [hx] at h
      obtain ⟨element, helement, -⟩ := known_map.1 h
      have hd : x = some d := hd
      rw [hd] at helement
      exact ⟨element, helement⟩
  obtain ⟨parts, helement⟩ := helement
  obtain ⟨m, hm, -⟩ := known_map.1 helement
  obtain ⟨e, he⟩ := known_elementNode.1 hm
  exact ⟨(e, m), he⟩

namespace Session

variable {S T V : Session} {C : ElementId → Prop} {enough fuel : Nat} {A : Inquiry C enough}
  {p : Prop} {a b c : ElementId} {k t u : TypeId} {n : TypeNode} {ks r xs ys : List TypeId}

theorem known_typeFingerprint_mono {key : Fingerprint}
    (h : Known (onStore (typeFingerprint t)) S key) (hle : S ≤ T) :
    Known (onStore (typeFingerprint t)) T key :=
  h.mono hle

section Fingerprint

variable {key : Fingerprint} (hkey : Known (onStore (typeFingerprint t)) T key)

include hkey

theorem exists_isClass_of_fingerprint {d : ElementId} (ht : T.Shows t u n)
    (hk : n.kind = .declared) (hd : n.element = some d) : ∃ e, T.IsClass t e := by
  obtain ⟨⟨e, m⟩, hm⟩ := exists_peek_of_fingerprint (known_onStore.1 hkey) ht (by rw [hk]; rfl) hd
  exact ⟨e, u, n, d, m, ht, hk, hd, hm⟩

/-- The class of a type is known once its fingerprint is. -/
theorem IsClass.of_fingerprint (hle : T ≤ V) (h : V.IsClass t a) : T.IsClass t a := by
  obtain ⟨u, n, ht⟩ := exists_peekType_of_fingerprint (known_onStore.1 hkey)
  have hclass := h
  obtain ⟨u', n', d, m, ht', hk, hd, hm⟩ := hclass
  cases (peekType_mono hle.store ht).symm.trans ht'
  obtain ⟨e, he⟩ := exists_isClass_of_fingerprint hkey ht hk hd
  rwa [h.unique (he.mono hle)]

theorem DeclaredIn.exists_isClass (h : T.DeclaredIn C t) : ∃ a, C a ∧ T.IsClass t a := by
  obtain ⟨u, n, ht⟩ := exists_peekType_of_fingerprint (known_onStore.1 hkey)
  obtain ⟨-, d, hd, -⟩ := Yields.of_known h (.refl T) (known_onStore.2 (known_viewType.2 ht))
  obtain ⟨e, he⟩ := exists_isClass_of_fingerprint hkey ht (h.kind_eq ht) hd
  exact ⟨e, h.mem he, he⟩

end Fingerprint

/-! ### Closures that were found before -/

/-- A closure that is remembered for an equal type. -/
def RememberedFor (T : Session) (C : ElementId → Prop) (fuel : Nat) (t : TypeId)
    (closure : List TypeId) : Prop :=
  ∃ k, Known (onStore (T.config.equality.types fuel k t)) T true ∧
    ∀ a, C a → T.IsClass k a → T.IsClosureOf a k closure

section Remembered

variable {key : Fingerprint} (hkey : Known (onStore (typeFingerprint t)) S key)
  (hp : p → A.Covers C S t ∧ enough ≤ fuel)

include hkey hp

theorem keeps_findClosure {R : Session} (hR : Later R S) (hmemo : R.Remembers C C)
    {entries : List ClosureEntry} (hentries : ∀ entry ∈ entries, entry ∈ R.memo.closuresAt key)
    (hAR : p → A.sessions R) :
    Keeps S A C p (onStore (findClosure fuel R.config.equality t entries)) fun V r =>
      ∀ closure, r = some closure → V.RememberedFor C fuel t closure := by
  induction entries generalizing S with
  | nil => exact keeps_pure fun _ _ => nofun
  | cons entry entries ih =>
    have hentry := hentries entry List.mem_cons_self
    rw [findClosure, onStore_bind]
    refine (keeps_subquestion fun h T hT => ?_).bind fun T found hT hfound => ?_
    · have hquestion : A.Subquestion C enough T Bool
          (onStore (T.config.equality.types fuel entry.type t)) :=
        .types (hAR h) hentry ((hp h).1.later hT) (known_typeFingerprint_mono hkey hT.le) (hp h).2
      rw [(hR.trans hT).le.config] at hquestion
      exact hquestion
    cases found with
    | true =>
      refine keeps_pure fun V hV closure hclosure => ?_
      cases hclosure
      have hRV := hR.trans (hT.trans hV)
      refine ⟨entry.type, ?_, fun a ha hclass => hmemo.closures hentry hRV.le hclass ha⟩
      rw [hRV.le.config]
      exact hfound V hV
    | false =>
      exact ih (known_typeFingerprint_mono hkey hT.le) (fun h => ⟨(hp h).1.later hT, (hp h).2⟩)
        (hR.trans hT) fun entry' h => hentries entry' (List.mem_cons_of_mem entry h)

theorem keeps_rememberedClosure : Keeps S A C p (rememberedClosure fuel key t) fun V r =>
      ∀ closure, r = some closure → V.RememberedFor C fuel t closure :=
  keeps_get_bind fun _ hT hmemo hA => keeps_findClosure (known_typeFingerprint_mono hkey hT.le)
    (fun h => ⟨(hp h).1.later hT, (hp h).2⟩) .rfl hmemo (fun _ h => h) hA

theorem keeps_rememberClosure {closure : List TypeId}
    (hclosure : ∀ V, Later S V → ∀ a, V.IsClass t a → C a → V.IsClosureOf a t closure) :
    Keeps S A C p (rememberClosure fuel key t closure) fun _ _ => True := by
  refine (keeps_modifyMemo (fun m => m.openClosures key) (fun m => ?_)
    (fun T _ hmemo => hmemo.openClosures key) fun _ _ hA => A.openClosures hA key).bind
      fun T _ hT _ => ?_
  · obtain ⟨closures, heq⟩ := exists_openClosures_eq m key
    exact ⟨m.ranks, closures, heq⟩
  refine (keeps_rememberedClosure (known_typeFingerprint_mono hkey hT.le)
    fun h => ⟨(hp h).1.later hT, (hp h).2⟩).bind fun U r hU _ => ?_
  cases r with
  | some _ => exact keeps_pure fun _ _ => trivial
  | none =>
    refine keeps_modifyMemo _ (fun m => ⟨m.ranks, _, rfl⟩) (fun V hV hmemo => ?_)
      fun h _ hA => A.addClosure hA key _ (hp h).1.1
    have hSV := hT.trans (hU.trans hV)
    refine hmemo.addClosure key fun W hW a ha hC => ?_
    have haV := IsClass.of_fingerprint (known_typeFingerprint_mono hkey hSV.le) hW ha
    exact (hclosure V hSV a haV hC).mono hW

end Remembered

/-! ### Collecting classes -/

theorem IsClosure.sortedTypes (h : T.IsClosure a xs) (H : T.ClassTable C) (ha : C a) :
    ∃ as, T.SortedTypes C xs as ∧ (∀ b, b ∈ as ↔ T.Reaches a b) ∧ ∀ b ∈ as, T.Surveyed b := by
  obtain ⟨as, hclass, hsorted, hmem, hsurveyed⟩ := h
  exact ⟨as, ⟨hclass, hsorted, fun b hb => H.ranked.mem_of_reaches ha ((hmem b).1 hb)⟩, hmem, hsurveyed⟩

/-- What is above a class does not come before it. -/
theorem ClassTable.not_before_of_above (H : T.ClassTable C)
    (hab : Relation.TransGen T.Extends a b) : ¬ T.Before b a := by
  rintro ⟨m, n, x, y, hm, hn, -, -, horder⟩
  obtain ⟨l, hl, hb⟩ := hn.exists_lt H.ranked hab
  obtain rfl := hm.unique hb
  omega

/-- A list has the type `t` of the class `a`, and one type for each class that is reached from the
given types above `a`, the one that is seen among these types. -/
def Collects (T : Session) (C : ElementId → Prop) (a : ElementId) (t : TypeId) (ks r : List TypeId) :
    Prop :=
  ∃ cs, T.SortedTypes C r cs ∧
    (∀ b, b ∈ cs ↔ b = a ∨ ∃ k ∈ ks, ∃ c, T.IsClass k c ∧ T.Reaches c b) ∧
      (∀ k ∈ ks, ∃ c, T.IsClass k c ∧ ∀ b, T.Reaches c b → T.Surveyed b) ∧
        ∀ x ∈ r, ∀ b, T.IsClass x b → b = a ∧ x = t ∨ b ≠ a ∧ T.SeenAmong b ks x

theorem collects_nil (ha : C a) (ht : T.IsClass t a) : T.Collects C a t [] [t] := by
  refine ⟨[a], sortedTypes_nil.cons ht ha nofun, by simp, nofun, fun x hx b hb => .inl ?_⟩
  obtain rfl := List.mem_singleton.1 hx
  exact ⟨hb.unique ht, rfl⟩

section Merge

variable (H : T.ClassTable C) (ha : C a) (hk : T.SeenAbove a k) (hc : T.IsClass k c)
  (hys : T.IsClosure c ys) (hseen : ∀ x ∈ ys, ∀ b, T.IsClass x b → T.SeenAt b k x)

include H ha hk hc hys hseen

/-- The type itself is put into the closure of its superclass. -/
theorem collects_insert (ht : T.IsClass t a) (hr : T.MergesTo C ys [t] r) : T.Collects C a t [k] r := by
  obtain ⟨bs, hbs, hmem, hsurveyed⟩ := hys.sortedTypes H (H.ranked.mem_of_extends ha (hk.extends hc))
  obtain ⟨cs, hcs, hmem', horigin⟩ := hr bs [a] hbs (sortedTypes_nil.cons ht ha nofun)
  refine ⟨cs, hcs, fun b => ?_, fun k' hk' => ?_, fun x hx b hb => ?_⟩
  · rw [hmem', hmem, List.mem_singleton, or_comm]
    refine or_congr_right ⟨fun hcb => ⟨k, List.mem_singleton_self k, c, hc, hcb⟩, ?_⟩
    rintro ⟨k', hk', c', hc', hcb⟩
    rw [List.mem_singleton.1 hk'] at hc'
    exact hc.unique hc' ▸ hcb
  · rw [List.mem_singleton.1 hk']
    exact ⟨c, hc, fun b hcb => hsurveyed b ((hmem b).2 hcb)⟩
  · rcases horigin x hx with hx | ⟨hx, -⟩
    · refine .inr ⟨?_, [], k, [], rfl, nofun, hseen x hx b hb⟩
      rintro rfl
      have hab := Relation.TransGen.head' (hk.extends hc) ((hmem b).1 (hbs.mem_of_isClass hx hb))
      exact H.acyclic .rfl ha hab
    · obtain rfl := List.mem_singleton.1 hx
      exact .inl ⟨hb.unique ht, rfl⟩

/-- The closure of one more type above the class is merged. -/
theorem Collects.merge (h : T.Collects C a t ks xs) (hr : T.MergesTo C xs ys r) :
    T.Collects C a t (ks ++ [k]) r := by
  obtain ⟨as, has, hmem, hclasses, horigin⟩ := h
  obtain ⟨bs, hbs, hmem', hsurveyed⟩ := hys.sortedTypes H (H.ranked.mem_of_extends ha (hk.extends hc))
  obtain ⟨cs, hcs, hmem'', horigin'⟩ := hr as bs has hbs
  refine ⟨cs, hcs, fun b => ?_, fun k' hk' => ?_, fun x hx b hb => ?_⟩
  · rw [hmem'', hmem, hmem', or_assoc]
    refine or_congr_right ⟨?_, ?_⟩
    · rintro (⟨k', hk', hreached⟩ | hcb)
      · exact ⟨k', List.mem_append_left _ hk', hreached⟩
      · exact ⟨k, List.mem_append_right _ (List.mem_singleton_self k), c, hc, hcb⟩
    · rintro ⟨k', hk', c', hc', hcb⟩
      rcases List.mem_append.1 hk' with hk' | hk'
      · exact .inl ⟨k', hk', c', hc', hcb⟩
      · rw [List.mem_singleton.1 hk'] at hc'
        exact .inr (hc.unique hc' ▸ hcb)
  · rcases List.mem_append.1 hk' with hk' | hk'
    · exact hclasses k' hk'
    · rw [List.mem_singleton.1 hk']
      exact ⟨c, hc, fun b hcb => hsurveyed b ((hmem' b).2 hcb)⟩
  · rcases horigin' x hx with hx | ⟨hx, hnew⟩
    · exact (horigin x hx b hb).imp_right fun ⟨hne, hamong⟩ => ⟨hne, hamong.append [k]⟩
    · -- a class that is new is reached from none of the types before
      have hnew := hnew b hb
      refine .inr ⟨fun heq => hnew ((hmem b).2 (.inl heq)), (hseen x hx b hb).concat ?_⟩
      intro i hi
      obtain ⟨c', hc', hsurveyed'⟩ := hclasses i hi
      exact ⟨c', hc', hsurveyed', fun hcb => hnew ((hmem b).2 (.inr ⟨i, hi, c', hc', hcb⟩))⟩

end Merge

section Collected

variable {named : List TypeId} (hnamed : Known (supertypesNamed a) T named)
  (hsame : List.Forall₂ T.SameClass ks named)

include hnamed hsame

/-- All classes above are collected. -/
theorem Collects.isClosure (h : T.Collects C a t ks r) : T.IsClosure a r := by
  obtain ⟨cs, hcs, hmem, hclasses, -⟩ := h
  refine ⟨cs, hcs.isClass, hcs.sorted, fun b => ?_, fun b hb => ?_⟩
  · rw [hmem]
    constructor
    · rintro (rfl | ⟨k, hk, c, hc, hcb⟩)
      · exact .refl
      · exact hcb.head ((seenAbove_of_mem hnamed hsame hk).extends hc)
    · intro hab
      rcases Relation.ReflTransGen.cases_head hab with rfl | ⟨c, hac, hcb⟩
      · exact .inl rfl
      · obtain ⟨named', s, hnamed', hs, hc⟩ := hac
        obtain rfl := hnamed.unique hnamed'
        obtain ⟨k, hk, hks⟩ := exists_of_forall₂_right hsame hs
        exact .inr ⟨k, hk, c, hks.isClass_iff.2 hc, hcb⟩
  · rcases (hmem b).1 hb with rfl | ⟨k, hk, c, hc, hcb⟩
    · refine ⟨named, hnamed, fun s hs => ?_⟩
      obtain ⟨k, hk, hks⟩ := exists_of_forall₂_right hsame hs
      obtain ⟨c, hc, -⟩ := hclasses k hk
      exact ⟨c, hks.isClass_iff.1 hc⟩
    · obtain ⟨c', hc', hsurveyed⟩ := hclasses k hk
      exact hsurveyed b (hc.unique hc' ▸ hcb)

/-- The class itself comes first, since all others are above it. -/
theorem Collects.head (h : T.Collects C a t ks r) (H : T.ClassTable C) : r.head? = some t := by
  obtain ⟨cs, hcs, hmem, -, horigin⟩ := h
  cases r with
  | nil =>
    cases hcs.isClass
    exact absurd ((hmem a).2 (.inl rfl)) List.not_mem_nil
  | cons x r =>
    obtain ⟨b, cs', rfl, hxb, -, hbefore, -⟩ := hcs.exists_cons
    refine congrArg some ?_
    rcases horigin x List.mem_cons_self b hxb with ⟨-, rfl⟩ | ⟨hne, -⟩
    · rfl
    · have hba := hbefore a ((List.mem_cons.1 ((hmem a).2 (.inl rfl))).resolve_left hne.symm)
      obtain ⟨k, hk, c, hc, hcb⟩ := ((hmem b).1 List.mem_cons_self).resolve_left hne
      have hab := Relation.TransGen.head' ((seenAbove_of_mem hnamed hsame hk).extends hc) hcb
      exact absurd hba (H.not_before_of_above hab)

theorem Collects.isClosureOf (h : T.Collects C a t ks r) (H : T.ClassTable C) (ht : T.IsClass t a)
    (habove : T.DirectlyAbove t ks) : T.IsClosureOf a t r := by
  refine ⟨h.isClosure hnamed hsame, h.head hnamed hsame H, fun x hx b hb => ?_⟩
  obtain ⟨cs, -, -, -, horigin⟩ := h
  have hrefl : T.TypesEqual t t := .refl t
  rcases horigin x hx b hb with ⟨rfl, rfl⟩ | ⟨hne, before, j, after, rfl, havoid, hj⟩
  · exact .here hrefl hb
  · exact .up hrefl ht hne.symm habove havoid hj

end Collected

/-! ### Fuel for a path upwards -/

/-- The fuel is enough for every path up from the class of a type, with `need` left at its end. -/
def ClosureFuel (S : Session) (C : ElementId → Prop) (need fuel : Nat) (t : TypeId) : Prop :=
  ∃ path, S.Clear C path t ∧ S.PathFuel C need fuel path t

section Fuel

variable {need : Nat}

theorem ClosureFuel.declaredIn (h : S.ClosureFuel C need fuel t) : S.DeclaredIn C t := by
  obtain ⟨path, -, hpath⟩ := h
  exact hpath.1

theorem ClosureFuel.lt (h : S.ClosureFuel C need fuel t) : need < fuel := by
  obtain ⟨path, -, hpath⟩ := h
  exact hpath.lt

/-- One step up takes one unit of fuel. -/
theorem ClosureFuel.above (h : S.ClosureFuel C need (fuel + 1) t) (hT : Later S T)
    (H : T.ClassTable C) (ha : C a) (ht : T.IsClass t a) (hk : T.SeenAbove a k) :
    T.ClosureFuel C need fuel k := by
  obtain ⟨path, hclear, hpath⟩ := h
  have hbelow : ∀ q ∈ path, C q → C a ∧ Relation.TransGen T.Extends q a := fun q hq hC =>
    ⟨ha, (hclear q hq hC).2 T hT a ht⟩
  have hmem : a ∉ path := fun hmem => H.acyclic .rfl ha (hbelow a hmem ha).2
  exact ⟨a :: path, clear_cons H.ranked hbelow fun _ => hk, hpath.cons ha hmem (hk.declaredIn H.ranked ha)⟩

end Fuel

/-! ### The closure of a type -/

theorem isClass_node_iff (ht : T.Shows t u n) : T.IsClass u a ↔ T.IsClass t a := by
  refine ⟨?_, fun h => h.of_node ht⟩
  rintro ⟨u', n', d, m, hu, hrest⟩
  cases ht.self.symm.trans hu
  exact ⟨u, n, d, m, ht, hrest⟩

/-- A comparison with the node of a type is a comparison with the type. -/
theorem known_types_of_node {q : Equality} {r : Bool} (ht : T.Shows t u n)
    (h : Known (onStore (q.types fuel k u)) T r) : Known (onStore (q.types fuel k t)) T r := by
  cases fuel with
  | zero => cases h
  | succ fuel =>
    obtain ⟨k', m, u', n', hk, hu, h⟩ := Equality.known_typesAssuming_succ.1 (known_onStore.1 h)
    cases ht.self.symm.trans hu
    exact known_onStore.2 (Equality.known_typesAssuming_succ.2 ⟨k', m, u, n, hk, ht, h⟩)

/-- The list is the closure of the class of a type, and its first entry equals the type. -/
def ClosureFound (T : Session) (C : ElementId → Prop) (fuel : Nat) (t : TypeId)
    (r : List TypeId) : Prop :=
  T.DeclaredIn C t → ∃ a, T.IsClass t a ∧ ∃ k, T.IsClosureOf a k r ∧
    Known (onStore (T.config.equality.types fuel k t)) T true

theorem ClosureFound.declaredIn (h : T.ClosureFound C fuel t r) (H : T.ClassTable C)
    (ht : T.DeclaredIn C t) : ∀ x ∈ r, T.DeclaredIn C x := by
  obtain ⟨a, ha, k, hclosure, -⟩ := h ht
  obtain ⟨as, has, -⟩ := hclosure.isClosure.sortedTypes H (ht.mem ha)
  exact fun x hx => has.declaredIn hx

/-- The entries are seen from the type that was asked about, though the closure may be that of an
equal type. -/
theorem ClosureFound.seenAt (h : T.ClosureFound C fuel t r) (ht : T.DeclaredIn C t) :
    ∃ a, T.IsClass t a ∧ T.IsClosure a r ∧ ∀ x ∈ r, ∀ b, T.IsClass x b → T.SeenAt b t x := by
  obtain ⟨a, ha, k, hclosure, hequal⟩ := h ht
  have hkt : T.TypesEqual k t := (Equality.known_types_iff (known_onStore.1 hequal)).1 rfl
  exact ⟨a, ha, hclosure.isClosure, fun x hx b hb =>
    (hclosure.origin x hx b hb).of_equal (.symm hkt)⟩

section Node

variable {key : Fingerprint} (ht : T.Shows t u n) (hkey : Known (onStore (typeFingerprint u)) T key)

include ht hkey

theorem closureFound_of_node (hr : ∀ a, C a → T.IsClass u a → T.IsClosureOf a u r) :
    T.ClosureFound C (fuel + 1) t r := by
  intro hdeclared
  have hu := (sameClass_of_node ht (hdeclared.kind_eq ht)).declaredIn hdeclared
  obtain ⟨a, ha, hua⟩ := DeclaredIn.exists_isClass hkey hu
  refine ⟨a, (isClass_node_iff ht).1 hua, u, hr a ha hua, known_onStore.2 ?_⟩
  refine Equality.known_typesAssuming_succ.2 ⟨u, n, u, n, ht.self, ht, ?_⟩
  rw [if_pos rfl]
  rfl

/-- What is remembered for an equal type is the closure of the type. -/
theorem RememberedFor.closureFound (h : T.RememberedFor C fuel u r) (H : T.ClassTable C) :
    T.ClosureFound C (fuel + 1) t r := by
  intro hdeclared
  obtain ⟨k, hequal, hclosure⟩ := h
  have hu := (sameClass_of_node ht (hdeclared.kind_eq ht)).declaredIn hdeclared
  obtain ⟨a, ha, hua⟩ := DeclaredIn.exists_isClass hkey hu
  have hku := (Equality.known_types_iff (known_onStore.1 hequal)).1 rfl
  refine ⟨a, (isClass_node_iff ht).1 hua, k,
    hclosure a ha (H.isClass_of_equalTypes ha hua hku.symm), ?_⟩
  exact (known_types_of_node ht hequal).grow le_rfl

end Node

/-- The type comes up, its class is known, and the fuel is enough for the order of the table. -/
def Prepared (S : Session) (A : Inquiry C enough) (fuel : Nat) (t : TypeId) : Prop :=
  A.Covers C S t ∧ (∃ a, C a ∧ S.IsClass t a) ∧ TableFuel C enough fuel

theorem Prepared.later (h : S.Prepared A fuel t) (hT : Later S T) : T.Prepared A fuel t := by
  obtain ⟨hcovers, ⟨a, ha, ht⟩, hf⟩ := h
  exact ⟨hcovers.later hT, ⟨a, ha, ht.mono hT.le⟩, hf⟩

/-- The types are the superclass of the instance `t` of the class `a`, as far as there is one. -/
def SuperclassList (T : Session) (fuel : Nat) (a : ElementId) (t : TypeId) (ks : List TypeId) : Prop :=
  ∃ above r named, Known (supertype fuel t) T above ∧ Known (onStore (unlessNone above)) T r ∧
    ks = r.toList ∧ Known (superclassNamed a) T named ∧ List.Forall₂ T.SameClass ks named.toList

theorem SuperclassList.directlyAbove (h : T.SuperclassList fuel a t ks) {is : List TypeId}
    (his : Known (interfaces fuel t) T is) : T.DirectlyAbove t (ks ++ is) := by
  obtain ⟨above, r, -, habove, hr, rfl, -⟩ := h
  exact ⟨fuel, above, r, is, habove, hr, his, rfl⟩

theorem SuperclassList.exists_named (h : T.SuperclassList fuel a t ks) {is : List TypeId}
    (his : ∃ named, Known (onStore (declaredInterfaces a)) T named ∧
      List.Forall₂ T.SameClass is named) :
    ∃ named, Known (supertypesNamed a) T named ∧ List.Forall₂ T.SameClass (ks ++ is) named := by
  obtain ⟨-, -, named, -, -, -, hknown, hsame⟩ := h
  obtain ⟨named', hknown', hsame'⟩ := his
  exact ⟨_, known_supertypesNamed.2 ⟨named, named', hknown, hknown', rfl⟩,
    List.rel_append hsame hsame'⟩

section Steps

variable {closureOf : TypeId → Query (List TypeId)} {f : Nat} (H : S.ClassTable C)
  (hp : p → S.Prepared A fuel t)
  (hrec : ∀ T k, Later S T → (∀ a, C a → T.IsClass t a → T.SeenAbove a k) → (p → A.types k) →
    Keeps T A C p (closureOf k) fun V r => V.ClosureFound C f k r)

include H hp hrec

/-- The closure of the superclass, with the type itself. -/
theorem keeps_insertAbove (hA : p → A.types k)
    (hk : ∀ T, Later S T → ∀ a, C a → T.IsClass t a → T.SeenAbove a k) :
    Keeps S A C p (closureOf k >>= closureInsert fuel t) fun V r =>
      ∀ a, C a → V.IsClass t a → V.Collects C a t [k] r := by
  refine (hrec S k .rfl (hk S .rfl) hA).bind fun T xs hT hxs => ?_
  have hdeclared : ∀ V, Later S V → ∀ a, C a → V.IsClass t a → V.DeclaredIn C k :=
    fun V hV a ha ht => (hk V hV a ha ht).declaredIn (H.later hV).ranked ha
  refine (keeps_closureInsert (H.later hT) fun h => ⟨(hp h).1.2.later hT, ?_, (hp h).2.2⟩).imp
    fun V r hV hr a ha ht => ?_
  · obtain ⟨-, ⟨a, ha, ht⟩, -⟩ := hp h
    exact (hxs T .rfl).declaredIn (H.later hT) (hdeclared T hT a ha (ht.mono hT.le))
  · have hSV := hT.trans hV
    obtain ⟨c, hc, hclosure, hseen⟩ := (hxs V hV).seenAt (hdeclared V hSV a ha ht)
    exact collects_insert (H.later hSV) ha (hk V hSV a ha ht) hc hclosure hseen ht hr

/-- The classes along the superclasses. -/
theorem keeps_classClosure (ht : S.Shows t t n) :
    Keeps S A C p (classClosure fuel closureOf t n) fun V r => ∀ a, C a → V.IsClass t a →
      ∃ ks, V.SuperclassList fuel a t ks ∧ V.Collects C a t ks r := by
  refine (keeps_supertype H.ranked fun h => ⟨(hp h).1, (hp h).2.2.le⟩).bind fun T above hT habove => ?_
  have hseen : ∀ V, Later T V → ∀ a, C a → V.IsClass t a → V.SuperclassSeen (V.DeclaredIn C) a above :=
    fun V hV a ha hta => (habove V hV).2.1 a ha (hta.declaredIn rfl)
  have hA : p → A.types above := (habove T .rfl).2.2
  split
  · next hk =>
    have hnot : ∀ V, Later T V → ∀ a, ¬ V.IsClass t a := by
      rintro V hV a ⟨u', n', d, m, ht', hk', -⟩
      cases (ht.mono (hT.trans hV).le).symm.trans ht'
      cases hk.symm.trans hk'
    exact (hrec T above hT (fun a _ hta => absurd hta (hnot T .rfl a)) hA).imp
      fun V r hV _ a _ hta => absurd hta (hnot V hV a)
  have hview : p → Yields T (onStore (typeKind above)) fun _ _ => True := by
    intro h
    obtain ⟨-, ⟨a, ha, hta⟩, -⟩ := (hp h).later hT
    exact .typeKind ((hseen T .rfl a ha hta).responds_view (H.later hT).ranked.ladder)
  refine (keeps_of_yields hview).bind fun U kind hU hkind => ?_
  have hSU := hT.trans hU
  have hcases : ∀ V, Later U V → ∀ a, C a → V.IsClass t a → _ := fun V hV a ha hta =>
    (hseen V (hU.trans hV) a ha hta).cases_kind (H.later (hSU.trans hV)).ranked.ladder (hkind V hV).1
  have hunless : ∀ V, Later U V → Known (onStore (unlessNone above)) V
      (if kind = .noType .none then none else some above) := fun V hV =>
    known_onStore.2 ((known_onStore.1 (hkind V hV).1).bind rfl)
  have hinsert : kind ≠ .noType .none →
      Keeps U A C p (closureOf above >>= closureInsert fuel t) fun V r => ∀ a, C a → V.IsClass t a →
        ∃ ks, V.SuperclassList fuel a t ks ∧ V.Collects C a t ks r := by
    intro hk
    refine (keeps_insertAbove (H.later hSU) (fun h => (hp h).later hSU)
      (fun W k hW => hrec W k (hSU.trans hW)) hA fun V hV a ha hta => ?_).imp fun V r hV hr a ha hta => ?_
    · obtain ⟨-, s, hs, hsame, -⟩ := (hcases V hV a ha hta).resolve_left fun h => hk h.1
      exact seenAbove_of_superclass (H.later (hSU.trans hV)).ranked ha hs hsame
    · obtain ⟨-, s, hs, hsame, -⟩ := (hcases V hV a ha hta).resolve_left fun h => hk h.1
      have hunless := hunless V hV
      rw [if_neg hk] at hunless
      exact ⟨[above], ⟨above, some above, some s, (habove V (hU.trans hV)).1, hunless, rfl, hs,
        .cons hsame List.Forall₂.nil⟩, hr a ha hta⟩
  split
  · exact hinsert nofun
  · exact hinsert nofun
  · -- Nothing that is above a class is a type variable.
    have hnot : ∀ V, Later U V → ∀ a, C a → ¬ V.IsClass t a := by
      intro V hV a ha hta
      rcases hcases V hV a ha hta with ⟨hk, -⟩ | ⟨hk, -⟩ <;> cases hk
    exact (hrec U above hSU (fun a ha hta => absurd hta (hnot U .rfl a ha)) hA).map
      fun V r hV _ a ha hta => absurd hta (hnot V hV a ha)
  · next hdeclared _ _ =>
    refine keeps_pure fun V hV a ha hta => ?_
    obtain ⟨hk, hnone⟩ := (hcases V hV a ha hta).resolve_right fun h => hdeclared h.1
    have hunless := hunless V hV
    rw [if_pos hk] at hunless
    exact ⟨[], ⟨above, none, none, (habove V (hU.trans hV)).1, hunless, rfl, hnone,
      .nil⟩, collects_nil ha hta⟩

/-- The classes above several types are merged one type after the other. -/
theorem keeps_unionEach {ks' : List TypeId} {Q : Session → ElementId → List TypeId → Prop}
    (hks : ∀ T, Later S T → ∀ a, C a → T.IsClass t a → ∀ k ∈ ks', T.SeenAbove a k)
    (hA : p → ∀ k ∈ ks', A.types k)
    (hxs : ∀ V, Later S V → ∀ a, C a → V.IsClass t a → ∃ ks, Q V a ks ∧ V.Collects C a t ks xs) :
    Keeps S A C p (unionEach fuel closureOf xs ks') fun V r => ∀ a, C a → V.IsClass t a →
      ∃ ks, Q V a ks ∧ V.Collects C a t (ks ++ ks') r := by
  induction ks' generalizing S xs Q with
  | nil =>
    refine keeps_pure fun V hV a ha hta => ?_
    obtain ⟨ks, hQ, hcollects⟩ := hxs V hV a ha hta
    exact ⟨ks, hQ, by rwa [List.append_nil]⟩
  | cons k ks' ih =>
    have hk : ∀ V, Later S V → ∀ a, C a → V.IsClass t a → V.SeenAbove a k :=
      fun V hV a ha hta => hks V hV a ha hta k List.mem_cons_self
    refine (hrec S k .rfl (hk S .rfl) fun h => hA h k List.mem_cons_self).bind fun T ys hT hys => ?_
    have hdeclared : ∀ V, Later T V → ∀ a, C a → V.IsClass t a → V.DeclaredIn C k :=
      fun V hV a ha hta => (hk V (hT.trans hV) a ha hta).declaredIn (H.later (hT.trans hV)).ranked ha
    refine (keeps_closureUnion (H.later hT) fun h => ?_).bind fun U zs hU hzs => ?_
    · obtain ⟨-, ⟨a, ha, hta⟩, hf⟩ := (hp h).later hT
      obtain ⟨ks, -, as, has, -⟩ := hxs T hT a ha hta
      exact ⟨fun x hx => has.declaredIn hx, (hys T .rfl).declaredIn (H.later hT)
        (hdeclared T .rfl a ha hta), hf⟩
    have hSU := hT.trans hU
    have hmerged : ∀ V, Later U V → ∀ a, C a → V.IsClass t a →
        ∃ ks', (∃ ks, Q V a ks ∧ ks' = ks ++ [k]) ∧ V.Collects C a t ks' zs := by
      intro V hV a ha hta
      have hSV := hSU.trans hV
      obtain ⟨ks, hQ, hcollects⟩ := hxs V hSV a ha hta
      obtain ⟨c, hc, hclosure, hseen⟩ :=
        (hys V (hU.trans hV)).seenAt (hdeclared V (hU.trans hV) a ha hta)
      exact ⟨_, ⟨ks, hQ, rfl⟩, .merge (H.later hSV) ha (hk V hSV a ha hta) hc hclosure hseen
        hcollects (hzs V hV)⟩
    refine (ih (H.later hSU) (fun h => (hp h).later hSU) (fun W k hW => hrec W k (hSU.trans hW))
      (fun V hV a ha hta k hk => hks V (hSU.trans hV) a ha hta k (List.mem_cons_of_mem _ hk))
      (fun h k hk => hA h k (List.mem_cons_of_mem _ hk)) hmerged).imp fun V r _ hr a ha hta => ?_
    obtain ⟨_, ⟨ks, hQ, rfl⟩, hcollects⟩ := hr a ha hta
    exact ⟨ks, hQ, by rwa [List.append_assoc] at hcollects⟩

/-- The closure of a type that none is remembered for. -/
theorem keeps_newClosure {key : Fingerprint} (ht : S.Shows t t n)
    (hkey : Known (onStore (typeFingerprint t)) S key) :
    Keeps S A C p (do
      let classes ← classClosure fuel closureOf t n
      let closure ← unionEach fuel closureOf classes (← interfaces fuel t)
      rememberClosure fuel key t closure
      return closure : Query (List TypeId)) fun V r => ∀ a, C a → V.IsClass t a →
        V.IsClosureOf a t r := by
  refine (keeps_classClosure H hp hrec ht).bind fun T classes hT hclasses => ?_
  refine (keeps_interfaces (H.later hT).ranked fun h => ⟨(hp h).1.later hT, (hp h).2.2.le⟩).bind
    fun U is hU his => ?_
  have hnamed : ∀ V, Later U V → ∀ a, C a → V.IsClass t a → ∃ named,
      Known (onStore (declaredInterfaces a)) V named ∧ List.Forall₂ V.SameClass is named :=
    fun V hV a ha hta => (his V hV).2.1 a ha (hta.declaredIn rfl)
  have hSU := hT.trans hU
  refine (keeps_unionEach (H.later hSU) (fun h => (hp h).later hSU)
    (fun W k hW => hrec W k (hSU.trans hW)) (fun V hV a ha hta k hk => ?_)
    (his U .rfl).2.2 (fun V hV => hclasses V (hU.trans hV))).bind fun W closure hW hclosure => ?_
  · obtain ⟨ks, hks, -⟩ := hclasses V (hU.trans hV) a ha hta
    obtain ⟨named, hknown, hsame⟩ := hks.exists_named (hnamed V hV a ha hta)
    exact seenAbove_of_mem hknown hsame (List.mem_append_right ks hk)
  have hfound : ∀ V, Later W V → ∀ a, V.IsClass t a → C a → V.IsClosureOf a t closure := by
    intro V hV a hta ha
    obtain ⟨ks, hks, hcollects⟩ := hclosure V hV a ha hta
    obtain ⟨named, hknown, hsame⟩ := hks.exists_named (hnamed V (hW.trans hV) a ha hta)
    exact hcollects.isClosureOf hknown hsame (H.later (hSU.trans (hW.trans hV))) hta
      (hks.directlyAbove (his V (hW.trans hV)).1)
  have hSW := hSU.trans hW
  refine (keeps_rememberClosure (known_typeFingerprint_mono hkey hSW.le)
    (fun h => ⟨(hp h).1.later hSW, (hp h).2.2.le⟩) hfound).bind fun X _ hX _ => ?_
  exact keeps_pure fun V hV a ha hta => hfound V (hX.trans hV) a hta ha

end Steps

/-- The closure of a type of a class has one entry for each class that is reached, in order. -/
theorem keeps_closureOf {bound : Nat} (hbound : ∀ a, C a → a.index < bound) :
    ∀ {fuel : Nat} {S : Session} {t : TypeId}, S.ClassTable C →
      (p → A.types t ∧ S.ClosureFuel C (bound + enough + 1) fuel t) →
        Keeps S A C p (closureOf fuel t) fun V r => V.ClosureFound C fuel t r
  | 0, _, _, _, hp => keeps_throw fun h => absurd (hp h).2.lt (Nat.not_lt_zero _)
  | fuel + 1, S, t, H, hp => by
      refine ((keeps_of_yields fun h => (hp h).2.declaredIn.yields_kind).inside).bind fun T x hT hx => ?_
      obtain ⟨u, n⟩ := x
      have hpeek : ∀ V, Later T V → V.Shows t u n := fun V hV => shows_of_known (hx V hV).1.1
      have hcovers : p → A.Covers C T u := by
        intro h
        have hdeclared := (hp h).2.declaredIn.later hT
        obtain ⟨U, hU, hknown⟩ := (hx T .rfl).2 h
        exact ⟨A.completed hU (hp h).1 (shows_of_known hknown),
          (sameClass_of_node (hpeek T .rfl) (hdeclared.kind_eq
            (hpeek T .rfl))).declaredIn hdeclared⟩
      refine (keeps_subquestion fun h V hV =>
        .fingerprint ((hcovers h).later hV)).bind fun U key hU hkey => ?_
      have hfuel : p → TableFuel C enough fuel := fun h =>
        ⟨bound, hbound, Nat.lt_of_succ_lt_succ (hp h).2.lt⟩
      refine (keeps_rememberedClosure (hkey U .rfl) fun h =>
        ⟨(hcovers h).later hU, (hfuel h).le⟩).bind fun W r hW hr => ?_
      have hTW := hU.trans hW
      have hSW := hT.trans hTW
      cases r with
      | some closure =>
        exact keeps_pure fun V hV => RememberedFor.closureFound (hpeek V (hTW.trans hV))
          (hkey V (hW.trans hV)) (hr V hV closure rfl) (H.later (hSW.trans hV))
      | none =>
        have hprepared : p → W.Prepared A fuel u := fun h =>
          ⟨(hcovers h).later hTW,
            DeclaredIn.exists_isClass (hkey W hW) ((hcovers h).later hTW).2, hfuel h⟩
        refine (keeps_newClosure (f := fuel) (H.later hSW) hprepared (fun X k hX hk hA => ?_)
          (Store.peekType_self (hpeek W hTW)) (hkey W hW)).imp fun V r hV hr =>
            closureFound_of_node (hpeek V (hTW.trans hV)) (hkey V (hW.trans hV)) hr
        refine keeps_closureOf hbound (H.later (hSW.trans hX)) fun h => ⟨hA h, ?_⟩
        obtain ⟨-, ⟨a, ha, hua⟩, -⟩ := (hprepared h).later hX
        exact (hp h).2.above (hSW.trans hX) (H.later (hSW.trans hX)) ha
          ((isClass_node_iff (hpeek X (hTW.trans hX))).1 hua) (hk a ha hua)

end Session

end JavaTypes
