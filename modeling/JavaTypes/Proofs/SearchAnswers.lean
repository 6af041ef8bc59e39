import JavaTypes.Proofs.ClassTable

/-!
# What a search has seen

The search for the supertype that an element declares goes depth first and leaves a branch that comes back
to a class. This module says what an answer of the search tells.

* `cases_of_known_searchAbove`, `cases_of_known_asSuperFrom`: one step of a search that answered;
* `NotFound`: what is known of a class from which a search with a list of visited classes has found
  nothing. Nothing is lost by not visiting a class again, since a shortest path never does;
* `Session.Finds`, `Ladder.finds_of_known_asSuperFrom`: a search that answered is right, if going up stays
  among types of known classes.
-/

namespace JavaTypes

open Action

namespace Session

variable {T : Session} {C : ElementId → Prop} {P : TypeId → Prop} {a b e : ElementId} {k t u x : TypeId}
  {n : TypeNode} {fuel : Nat} {seen : List ElementId} {ks : List TypeId} {r : Option TypeId}

/-! ### One step -/

/-- The rest of a search after the superclass: the interfaces, if nothing was found. -/
def searchBeside (fuel : Nat) (search : TypeId → Query (Option TypeId)) (t : TypeId) :
    Option TypeId → Query (Option TypeId)
  | some found => pure (some found)
  | none => do firstFound search (← interfaces fuel t)

section Known

variable {search : TypeId → Query (Option TypeId)} [hs : ∀ t, Settles (search t) (search t)]

instance settles_searchBeside (fuel : Nat) (t : TypeId) :
    ∀ found, Settles (searchBeside fuel search t found) (searchBeside fuel search t found)
  | some _ => settles_pure _
  | none => settles_bind

include hs

/-- A search above a type asks its superclass, and its interfaces if nothing was found there. -/
theorem cases_of_known_searchAbove (h : Known (searchAbove fuel search t) T r) :
    ∃ above q, Known (supertype fuel t) T above ∧ Known (onStore (unlessNone above)) T q ∧
      ((∃ x, q = some above ∧ Known (search above) T (some x) ∧ r = some x) ∨
        (q = some above → Known (search above) T none) ∧
          ∃ is, Known (interfaces fuel t) T is ∧ Known (firstFound search is) T r) := by
  have heq : searchAbove fuel search t = (do
      let above ← supertype fuel t
      let kind ← typeKind above
      if kind = .noType .none then pure none >>= searchBeside fuel search t
      else search above >>= searchBeside fuel search t) := rfl
  rw [heq] at h
  obtain ⟨above, habove, h⟩ := known_bind.1 h
  obtain ⟨kind, hkind, h⟩ := known_bind.1 h
  obtain ⟨found, hfound, h⟩ := (known_ite_bind inferInstance).1 h
  refine ⟨above, _, habove, known_onStore.2 ((known_onStore.1 hkind).bind rfl), ?_⟩
  split at hfound
  · next hnone =>
    cases known_pure.1 hfound
    rw [if_pos hnone]
    exact .inr ⟨by rintro ⟨⟩, known_bind.1 h⟩
  · next hsome =>
    rw [if_neg hsome]
    cases found with
    | some x => exact .inl ⟨x, rfl, hfound, known_pure.1 h⟩
    | none => exact .inr ⟨fun _ => hfound, known_bind.1 h⟩

theorem cases_of_known_firstFound (h : Known (firstFound search (k :: ks)) T r) :
    (∃ x, Known (search k) T (some x) ∧ r = some x) ∨
      Known (search k) T none ∧ Known (firstFound search ks) T r := by
  obtain ⟨found, hfound, h⟩ := (known_bind_of fun found => by cases found <;> infer_instance).1 h
  cases found with
  | some x => exact .inl ⟨x, hfound, known_pure.1 h⟩
  | none => exact .inr ⟨hfound, h⟩

theorem exists_of_known_firstFound : ∀ {ks : List TypeId}, Known (firstFound search ks) T (some x) →
    ∃ k ∈ ks, Known (search k) T (some x)
  | [], h => by cases known_pure.1 h
  | k :: ks, h => by
      rcases cases_of_known_firstFound h with ⟨y, hy, heq⟩ | ⟨-, h⟩
      · cases heq
        exact ⟨k, List.mem_cons_self, hy⟩
      · obtain ⟨k', hk', hx⟩ := exists_of_known_firstFound h
        exact ⟨k', List.mem_cons_of_mem k hk', hx⟩

theorem known_none_of_firstFound : ∀ {ks : List TypeId}, Known (firstFound search ks) T none →
    ∀ k ∈ ks, Known (search k) T none
  | [], _, k, hk => by cases hk
  | k :: ks, h, j, hj => by
      rcases cases_of_known_firstFound h with ⟨x, -, hx⟩ | ⟨hk, h⟩
      · cases hx
      · rcases List.mem_cons.1 hj with rfl | hj
        · exact hk
        · exact known_none_of_firstFound h j hj

/-- A search above a type finds something from one of the types directly above, or nothing from any of
them. -/
theorem found_or_none_of_known_searchAbove (h : Known (searchAbove fuel search t) T r) :
    ∃ above q, Known (supertype fuel t) T above ∧ Known (onStore (unlessNone above)) T q ∧
      ((∃ x ∈ q.toList, ∃ k, r = some k ∧ Known (search x) T (some k)) ∨
        ∃ is, Known (interfaces fuel t) T is ∧
          ((∃ x ∈ is, ∃ k, r = some k ∧ Known (search x) T (some k)) ∨
            r = none ∧ ∀ x ∈ q.toList ++ is, Known (search x) T none)) := by
  obtain ⟨above, q, habove, hq, hcases⟩ := cases_of_known_searchAbove h
  refine ⟨above, q, habove, hq, ?_⟩
  rcases hcases with ⟨k, rfl, hk, rfl⟩ | ⟨hnone, is, his, hfirst⟩
  · exact .inl ⟨above, List.mem_singleton.2 rfl, k, rfl, hk⟩
  refine .inr ⟨is, his, ?_⟩
  cases r with
  | some k =>
    obtain ⟨x, hx, hk⟩ := exists_of_known_firstFound hfirst
    exact .inl ⟨x, hx, k, rfl, hk⟩
  | none =>
    refine .inr ⟨rfl, fun x hx => ?_⟩
    rcases List.mem_append.1 hx with hx | hx
    · obtain ⟨w, y, -, rfl⟩ := known_unlessNone.1 hq
      split at hx
      · cases hx
      · next hne =>
        obtain rfl := List.mem_singleton.1 hx
        exact hnone (if_neg hne)
    · exact known_none_of_firstFound hfirst x hx

end Known

theorem known_implicitObject (h : Known (implicitObject b) T r) :
    (∃ x, r = some x ∧ T.IsObject b ∧ Known objectType T x) ∨ r = none ∧ ¬ T.IsObject b := by
  obtain ⟨o, ho, h⟩ := known_bind.1 h
  obtain ⟨known, hknown, rfl⟩ := known_map.1 ho
  split at h
  · next heq =>
    obtain ⟨x, hx, rfl⟩ := known_map.1 h
    exact .inl ⟨x, rfl, ⟨known, hknown, heq⟩, hx⟩
  · next hne =>
    exact .inr ⟨known_pure.1 h, fun hb => hne (hb.unique ⟨known, hknown, rfl⟩)⟩

theorem node_of_known_asSuperFrom (h : Known (asSuperFrom b fuel seen t) T r) :
    ∃ k u n, fuel = k + 1 ∧ T.Shows t u n ∧ Known (asSuperNode b k (asSuperFrom b k) seen (u, n)) T r :=
  exists_node_of_known (x := (asSuperFrom b · seen t)) rfl (fun _ => rfl) h

/-- A search may begin at any handle of a type. -/
theorem known_asSuperFrom_of_node (ht : T.Shows t u n) (h : Known (asSuperFrom b fuel seen u) T r) :
    Known (asSuperFrom b fuel seen t) T r := by
  cases fuel with
  | zero => cases h
  | succ fuel =>
    exact ht.known.bind (ht.self.known.of_bind h)

theorem asSuperNode_of_declared (hn : n.kind = .declared) : asSuperNode e fuel search seen (u, n) =
    onStore n.elementOf >>= asSuperDeclared e fuel search seen u := by
  obtain ⟨d, hd⟩ := TypeNode.shape_of_declared hn
  unfold asSuperNode
  rw [hd]
  rfl

/-- A search from a type of a class finds the type itself, or something above it, or `Object`. -/
theorem cases_of_known_asSuperDeclared
    (h : Known (asSuperDeclared b fuel (asSuperFrom b fuel) seen u (some a)) T r) :
    a = b ∧ r = some u ∨ a ≠ b ∧ ∃ found, Known (if a ∈ seen then pure none else
      searchAbove fuel (asSuperFrom b fuel (a :: seen)) u) T found ∧
        (found.isSome = true ∧ r = found ∨ found = none ∧ Known (implicitObject b) T r) := by
  unfold asSuperDeclared at h
  dsimp only at h
  split at h
  · next heq => exact .inl ⟨heq, known_pure.1 h⟩
  next hne =>
  refine .inr ⟨hne, ?_⟩
  obtain ⟨found, hfound, h⟩ := (known_ite_bind fun r => by cases r <;> infer_instance).1 h
  refine ⟨found, hfound, ?_⟩
  cases found with
  | some x => exact .inl ⟨rfl, known_pure.1 h⟩
  | none => exact .inr ⟨rfl, h⟩

theorem cases_of_known_asSuperFrom (hdeclared : T.DeclaredIn C t)
    (h : Known (asSuperFrom b (fuel + 1) seen t) T r) :
    ∃ u n a, T.Shows t u n ∧ T.IsClass t a ∧ C a ∧ (a = b ∧ r = some u ∨
      a ≠ b ∧ ∃ found, Known (if a ∈ seen then pure none else
        searchAbove fuel (asSuperFrom b fuel (a :: seen)) u) T found ∧
          (found.isSome = true ∧ r = found ∨ found = none ∧ Known (implicitObject b) T r)) := by
  obtain ⟨_, u, n, ⟨⟩, hu, h⟩ := node_of_known_asSuperFrom h
  rw [asSuperNode_of_declared (hdeclared.kind_eq hu)] at h
  obtain ⟨own, hown, h⟩ := known_bind.1 h
  obtain ⟨a, rfl, hC, ha⟩ := hdeclared.isClass_of_elementOf hu hown
  exact ⟨u, n, a, hu, ha, hC, cases_of_known_asSuperDeclared h⟩

/-! ### Paths -/

/-- A class is reached in a number of steps. -/
def ReachesIn (T : Session) (e : ElementId) : Nat → ElementId → Prop
  | 0, a => a = e
  | n + 1, a => ∃ b, T.Extends a b ∧ T.ReachesIn e n b

theorem Reaches.exists_reachesIn (h : T.Reaches a e) : ∃ n, T.ReachesIn e n a := by
  induction h using Relation.ReflTransGen.head_induction_on with
  | refl => exact ⟨0, rfl⟩
  | head hab _ ih =>
    obtain ⟨n, hn⟩ := ih
    exact ⟨n + 1, _, hab, hn⟩

/-- What a search that leaves out the classes in `seen` can say of a class from which it has not found
`e`: a shortest path, if there is one, is no shorter than one from a class in `seen`. -/
def NotFound (T : Session) (e : ElementId) (seen : List ElementId) (a : ElementId) : Prop :=
  ∀ n, T.ReachesIn e n a → (∀ m < n, ¬ T.ReachesIn e m a) → ∃ b ∈ seen, ∃ m ≤ n, T.ReachesIn e m b

theorem NotFound.not_reaches (h : T.NotFound e [] a) : ¬ T.Reaches a e := by
  classical
  intro hreach
  have hex := hreach.exists_reachesIn
  obtain ⟨b, hb, -⟩ := h (.find hex) (Nat.find_spec hex) fun m hm => Nat.find_min hex hm
  cases hb

theorem notFound_of_mem (h : a ∈ seen) : T.NotFound e seen a :=
  fun n hn _ => ⟨a, h, n, le_rfl, hn⟩

/-- A class is left when none of the classes above it leads on. -/
theorem notFound_of_extends (hne : a ≠ e)
    (h : ∀ b, T.Extends a b → T.NotFound e (a :: seen) b) : T.NotFound e seen a := by
  intro n hn hmin
  cases n with
  | zero => exact absurd hn hne
  | succ n =>
    obtain ⟨b, hab, hb⟩ := hn
    have hbmin : ∀ m < n, ¬ T.ReachesIn e m b :=
      fun m hm hm' => hmin (m + 1) (Nat.succ_lt_succ hm) ⟨b, hab, hm'⟩
    obtain ⟨c, hc, m, hm, hcm⟩ := h b hab n hb hbmin
    rcases List.mem_cons.1 hc with rfl | hc
    · exact absurd hcm (hmin m (Nat.lt_succ_of_le hm))
    · exact ⟨c, hc, m, Nat.le_succ_of_le hm, hcm⟩

/-- The classes on the way to a type: different classes of the hierarchy. -/
def Trail (C : ElementId → Prop) (seen : List ElementId) : Prop :=
  seen.Nodup ∧ ∀ a ∈ seen, C a

theorem Trail.cons (h : Trail C seen) (ha : C a) (hmem : a ∉ seen) : Trail C (a :: seen) :=
  ⟨List.nodup_cons.2 ⟨hmem, h.1⟩, List.forall_mem_cons.2 ⟨ha, h.2⟩⟩

theorem Trail.length_le {bound : Nat} (h : Trail C seen) (hbound : ∀ a, C a → a.index < bound) :
    seen.length ≤ bound :=
  length_le_of_nodup h.1 fun a ha => hbound a (h.2 a ha)

/-! ### What a search that answered says -/

/-- What the search for `e` says of the class `a`: that `e` was found above it or is `Object`, or that
`e` is not `Object` and is not found without the classes in `seen`. -/
def Finds (T : Session) (e : ElementId) (seen : List ElementId) (a : ElementId) :
    Option TypeId → Prop
  | some k => T.Reaches a e ∧ T.IsClass k e ∨ T.IsObject e ∧ Known objectType T k
  | none => ¬ T.IsObject e ∧ T.NotFound e seen a

theorem Finds.some_iff (h : T.Finds e [] a r) : r.isSome = true ↔ T.Reaches a e ∨ T.IsObject e := by
  cases r with
  | some k => exact iff_of_true rfl (h.imp (fun h => h.1) fun h => h.1)
  | none => exact iff_of_false Bool.false_ne_true (not_or.2 ⟨h.2.not_reaches, h.1⟩)

theorem finds_of_known_implicitObject (h : Known (implicitObject e) T r) (hnot : T.NotFound e seen a) :
    T.Finds e seen a r := by
  rcases known_implicitObject h with ⟨x, rfl, hobject⟩ | ⟨rfl, hobject⟩
  · exact .inr hobject
  · exact ⟨hobject, hnot⟩

section Ladder

variable (L : T.Ladder C P)

include L

/-- A search above an instance of `a` says of `a` what it says of the classes that `a` names. -/
theorem Ladder.finds_of_known_searchAbove {search : TypeId → Query (Option TypeId)}
    [hs : ∀ t, Settles (search t) (search t)]
    (hsearch : ∀ x r, P x → Known (search x) T r → ∃ b, T.IsClass x b ∧ T.Finds e (a :: seen) b r)
    (hC : C a) (ha : T.IsClass t a) (ht : P t) (h : Known (searchAbove fuel search t) T r) :
    (∀ k, r = some k → T.Finds e seen a r) ∧
      (r = none → ∀ b, T.Extends a b → T.NotFound e (a :: seen) b) := by
  obtain ⟨above, q, habove, hq, hcases⟩ := found_or_none_of_known_searchAbove h
  obtain ⟨superclass, hsuper, hsame⟩ := (L.superclassSeen hC ha ht habove).forall₂ L hq
  obtain ⟨m, hm⟩ := ha.exists_node
  have hnamed : Known (supertypesNamed a) T (superclass.toList ++ m.interfaces) :=
    known_supertypesNamed.2 ⟨superclass, _, hsuper, known_onStore_declaredInterfaces hm, rfl⟩
  have hfound : ∀ x k s, s ∈ superclass.toList ++ m.interfaces → T.SameClass x s ∧ P x →
      Known (search x) T (some k) → T.Finds e seen a (some k) := by
    intro x k s hmem hx hk
    obtain ⟨b, hb, hfinds⟩ := hsearch x _ hx.2 hk
    refine hfinds.imp_left fun h => ⟨h.1.head ?_, h.2⟩
    exact ⟨_, s, hnamed, hmem, hx.1.isClass_iff.1 hb⟩
  rcases hcases with ⟨x, hx, k, rfl, hk⟩ | ⟨is, his, hcases⟩
  · obtain ⟨s, hmem, hxs⟩ := exists_of_forall₂_left hsame hx
    exact ⟨fun _ _ => hfound x k s (List.mem_append_left _ hmem) hxs hk, nofun⟩
  obtain ⟨named, hinterfaces, hsames⟩ := L.forall₂_of_known_interfaces hC ha ht his
  obtain rfl := hinterfaces.unique (known_onStore_declaredInterfaces hm)
  rcases hcases with ⟨x, hx, k, rfl, hk⟩ | ⟨rfl, hnone⟩
  · obtain ⟨s, hmem, hxs⟩ := exists_of_forall₂_left hsames hx
    exact ⟨fun _ _ => hfound x k s (List.mem_append_right _ hmem) hxs hk, nofun⟩
  · refine ⟨nofun, fun _ b hb => ?_⟩
    obtain ⟨named, s, hnamed', hmem, hsb⟩ := hb
    obtain rfl := hnamed'.unique hnamed
    obtain ⟨x, hx, hxs, hP⟩ := exists_of_forall₂_right (List.rel_append hsame hsames) hmem
    obtain ⟨b', hb', -, hnot⟩ := hsearch x none hP (hnone x hx)
    rwa [(hxs.isClass_iff.2 hsb).unique hb']

/-- A search that answered is right. -/
theorem Ladder.finds_of_known_asSuperFrom : ∀ {fuel : Nat} {seen : List ElementId} {t : TypeId}
    {r : Option TypeId}, P t → Known (asSuperFrom e fuel seen t) T r →
      ∃ a, T.IsClass t a ∧ T.Finds e seen a r
  | 0, _, _, _, _, h => by cases h
  | fuel + 1, seen, t, r, ht, h => by
      obtain ⟨u, n, a, hu, ha, hC, hcases⟩ := cases_of_known_asSuperFrom (L.declaredIn ht) h
      have hau := ha.of_node hu
      refine ⟨a, ha, ?_⟩
      rcases hcases with ⟨rfl, rfl⟩ | ⟨hne, found, hfound, hcases⟩
      · exact .inl ⟨.refl, hau⟩
      split at hfound
      · next hmem =>
        cases known_pure.1 hfound
        rcases hcases with ⟨hsome, -⟩ | ⟨-, himplicit⟩
        · cases hsome
        · exact finds_of_known_implicitObject himplicit (notFound_of_mem hmem)
      · have habove := L.finds_of_known_searchAbove
          (fun _ _ hx hr => Ladder.finds_of_known_asSuperFrom hx hr) hC hau (L.node ht hu) hfound
        rcases hcases with ⟨hsome, rfl⟩ | ⟨rfl, himplicit⟩
        · obtain ⟨k, rfl⟩ := Option.isSome_iff_exists.1 hsome
          exact habove.1 k rfl
        · exact finds_of_known_implicitObject himplicit (notFound_of_extends hne (habove.2 rfl))

end Ladder

end Session

end JavaTypes
