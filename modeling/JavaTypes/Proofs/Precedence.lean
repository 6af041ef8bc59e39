import JavaTypes.Proofs.Remembering

/-!
# Ranks are found and compared

The computation of ranks remembers the rank of each class that it meets, and gives up on classes whose
rank it is computing already. In a table of classes it never gives up, so what it finds and remembers
is the rank.

* `Session.SeenAbove T a k`: the type `k` is seen, from an instance of `a`, as a supertype;
* `keeps_rankAbove`, `keeps_rankFrom`: the rank of a type of a class is that of the class;
* `keeps_precedes`: the order of types is that of their classes;
* `keeps_sameEntry`: two types share an entry if and only if they have the same class.
-/

namespace JavaTypes

open Action

namespace Session

variable {S T V : Session} {C D : ElementId → Prop} {enough fuel : Nat} {A : Inquiry C enough}
  {p : Prop} {a b e o : ElementId} {k t u : TypeId}

/-! ### Types above a class -/

variable {d : ElementId} {named : List TypeId} {s : TypeId} {x : ElementNode}

/-- A type is of a class that the declaration of `a` names. -/
def SeenAbove (T : Session) (a : ElementId) (k : TypeId) : Prop :=
  ∃ named s, Known (supertypesNamed a) T named ∧ s ∈ named ∧ T.SameClass k s

theorem SeenAbove.mono (h : S.SeenAbove a k) (hle : S ≤ T) : T.SeenAbove a k := by
  obtain ⟨named, s, hnamed, hs, hsame⟩ := h
  exact ⟨named, s, hnamed.mono hle, hs, hsame.mono hle⟩

theorem SeenAbove.declaredIn (h : S.SeenAbove a k) (H : S.RankedClasses C) (ha : C a) :
    S.DeclaredIn C k := by
  obtain ⟨named, s, hnamed, hs, hsame⟩ := h
  exact hsame.declaredIn (H.declaredIn ha hnamed hs)

theorem SeenAbove.extends (h : S.SeenAbove a k) (hb : S.IsClass k b) : S.Extends a b := by
  obtain ⟨named, s, hnamed, hs, hsame⟩ := h
  exact ⟨named, s, hnamed, hs, hsame.isClass_iff.1 hb⟩

theorem seenAbove_of_mem {ks : List TypeId} (hnamed : Known (supertypesNamed a) T named)
    (hsame : List.Forall₂ T.SameClass ks named) (hk : k ∈ ks) : T.SeenAbove a k := by
  obtain ⟨s, hs, hks⟩ := exists_of_forall₂_left hsame hk
  exact ⟨named, s, hnamed, hs, hks⟩

/-! ### The questions that ranks and closures are found with -/

theorem keeps_supertype (H : S.RankedClasses C) (hp : p → A.Covers C S t ∧ enough ≤ fuel) :
    Keeps S A D p (supertype fuel t) fun V k => Known (supertype fuel t) V k ∧
      (∀ a, C a → V.DeclaredBy a t → V.SuperclassSeen (V.DeclaredIn C) a k) ∧ (p → A.types k) := by
  refine (Keeps.inside (keeps_subquestion fun h _ hT =>
    .supertype ((hp h).1.later hT) (hp h).2)).imp
      fun V k hV hk => ⟨hk.1, fun a ha ht => ?_, fun h => ?_⟩
  · obtain ⟨u, n, hn, -, hclass⟩ := node_of_known_supertype hk.1
    have hta := ht.isClass hn hclass
    exact (H.later hV).ladder.superclassSeen ha hta (hta.declaredIn ha) hk.1
  · obtain ⟨U, hU, hknown⟩ := hk.2 h
    exact A.superclass hU (hp h).1.1 hknown

theorem keeps_interfaces (H : S.RankedClasses C) (hp : p → A.Covers C S t ∧ enough ≤ fuel) :
    Keeps S A D p (interfaces fuel t) fun V ks => Known (interfaces fuel t) V ks ∧
      (∀ a, C a → V.DeclaredBy a t → ∃ named, Known (onStore (declaredInterfaces a)) V named ∧
        List.Forall₂ V.SameClass ks named) ∧ (p → ∀ k ∈ ks, A.types k) := by
  refine (Keeps.inside (keeps_subquestion fun h _ hT =>
    .interfaces ((hp h).1.later hT) (hp h).2)).imp
      fun V ks hV hks => ⟨hks.1, fun a ha ht => ?_, fun h => ?_⟩
  · obtain ⟨u, n, hn, -, hclass⟩ := node_of_known_interfaces hks.1
    have hta := ht.isClass hn hclass
    obtain ⟨named, hnamed, hsame⟩ :=
      (H.later hV).ladder.forall₂_of_known_interfaces ha hta (hta.declaredIn ha) hks.1
    exact ⟨named, hnamed, hsame.imp fun _ _ h => h.1⟩
  · obtain ⟨U, hU, hknown⟩ := hks.2 h
    exact A.interfaces hU (hp h).1.1 hknown

theorem keeps_objectElement : Keeps S A D p objectElement fun V o => V.IsObject o :=
  (keeps_subquestion fun _ _ _ => .wellKnown).map fun _ known _ hknown => ⟨known, hknown, rfl⟩

theorem yields_unlessNone {Q : Session → TypeId × TypeNode → Prop}
    (h : Yields S (onStore (viewType k)) Q) :
    Yields S (onStore (unlessNone k)) fun _ _ => True := by
  rw [unlessNone, onStore_bind]
  exact (Yields.typeKind (Q := fun _ _ => True) (h.imp fun _ _ _ _ => trivial)).map
    fun _ _ _ _ => trivial

/-! ### What is seen above a class -/

section Above

variable (H : T.RankedClasses C) (ha : C a)

include H ha

theorem exists_known_declaredInterfaces :
    ∃ interfaces, Known (onStore (declaredInterfaces a)) T interfaces := by
  obtain ⟨m, hm, -⟩ := H.classes ha
  exact ⟨m.interfaces, known_onStore_declaredInterfaces hm⟩

theorem seenAbove_of_superclass (hs : Known (superclassNamed a) T (some s))
    (hk : T.SameClass k s) : T.SeenAbove a k := by
  obtain ⟨interfaces, hinterfaces⟩ := exists_known_declaredInterfaces H ha
  exact ⟨_, s, known_supertypesNamed.2 ⟨some s, interfaces, hs, hinterfaces, rfl⟩,
    List.mem_cons_self, hk⟩

end Above

/-! ### The greatest rank -/

/-- The rank of the class of a type. -/
def TypeRankIs (T : Session) (t : TypeId) (n : Nat) : Prop :=
  ∃ a, T.IsClass t a ∧ T.RankIs a n

/-- The greatest of a number and of the ranks of types. -/
def IsHighest (T : Session) (start n : Nat) (ks : List TypeId) : Prop :=
  start ≤ n ∧ (∀ k ∈ ks, ∃ m ≤ n, T.TypeRankIs k m) ∧ (n = start ∨ ∃ k ∈ ks, T.TypeRankIs k n)

variable {ks ks' : List TypeId} {l m n : Nat} {rank : TypeId → Query Nat} {pending : List ElementId}

theorem IsHighest.cons (hk : T.TypeRankIs k l) (h : T.IsHighest (max m l) n ks) :
    T.IsHighest m n (k :: ks) := by
  obtain ⟨hstart, hbound, hmax⟩ := h
  refine ⟨by omega, fun k' hk' => ?_, ?_⟩
  · rcases List.mem_cons.1 hk' with rfl | hk'
    · exact ⟨l, by omega, hk⟩
    · exact hbound k' hk'
  · rcases hmax with rfl | ⟨k', hk', hrank⟩
    · rcases Nat.le_total m l with hle | hle
      · rw [Nat.max_eq_right hle]
        exact .inr ⟨k, List.mem_cons_self, hk⟩
      · exact .inl (Nat.max_eq_left hle)
    · exact .inr ⟨k', List.mem_cons_of_mem k hk', hrank⟩

theorem IsHighest.append (h : T.IsHighest l m ks) (h' : T.IsHighest m n ks') :
    T.IsHighest l n (ks ++ ks') := by
  obtain ⟨hstart, hbound, hmax⟩ := h
  obtain ⟨hstart', hbound', hmax'⟩ := h'
  refine ⟨hstart.trans hstart', fun k hk => ?_, ?_⟩
  · rcases List.mem_append.1 hk with hk | hk
    · obtain ⟨i, hi, hrank⟩ := hbound k hk
      exact ⟨i, hi.trans hstart', hrank⟩
    · exact hbound' k hk
  · rcases hmax' with rfl | ⟨k, hk, hrank⟩
    · refine hmax.imp_right ?_
      rintro ⟨k, hk, hrank⟩
      exact ⟨k, List.mem_append_left ks' hk, hrank⟩
    · exact .inr ⟨k, List.mem_append_right ks hk, hrank⟩

/-- The rank of a class, from the ranks of the types that are seen above it. -/
theorem rankIs_of_isHighest (ho : T.IsObject o) (hne : a ≠ o)
    (hnamed : Known (supertypesNamed a) T named) (hsame : List.Forall₂ T.SameClass ks named)
    (h : T.IsHighest 0 n ks) : T.RankIs a (n + 1) := by
  obtain ⟨-, hbound, hmax⟩ := h
  have hsurveyed : T.Surveyed a := by
    refine ⟨named, hnamed, fun s hs => ?_⟩
    obtain ⟨k, hk, hks⟩ := exists_of_forall₂_right hsame hs
    obtain ⟨m, -, b, hb, -⟩ := hbound k hk
    exact ⟨b, hks.isClass_iff.1 hb⟩
  have hranks : ∀ b, T.Extends a b → ∃ m, m ≤ n ∧ T.RankIs b m := by
    rintro b ⟨named', s, hnamed', hs, hb⟩
    obtain rfl := hnamed.unique hnamed'
    obtain ⟨k, hk, hks⟩ := exists_of_forall₂_right hsame hs
    obtain ⟨m, hm, b', hb', hrank⟩ := hbound k hk
    obtain rfl := (hks.isClass_iff.1 hb').unique hb
    exact ⟨m, hm, hrank⟩
  choose! rank hrank using hranks
  refine .above rank ho hne hsurveyed (fun b hb => (hrank b hb).2)
    (fun b hb => (hrank b hb).1) (hmax.imp_right ?_)
  rintro ⟨k, hk, b, hb, hn⟩
  obtain ⟨s, hs, hks⟩ := exists_of_forall₂_left hsame hk
  have hab : T.Extends a b := ⟨named, s, hnamed, hs, hks.isClass_iff.1 hb⟩
  exact ⟨b, hab, (hrank b hab).2.unique hn⟩

theorem keeps_highestRank (hrank : ∀ T, ∀ k ∈ ks, Later S T → Keeps T A D p (rank k) fun V r =>
      V.DeclaredIn C k → V.TypeRankIs k r) : Keeps S A D p (highestRank rank m ks) fun V n =>
      (∀ k ∈ ks, V.DeclaredIn C k) → V.IsHighest m n ks := by
  induction ks generalizing S m with
  | nil => exact keeps_pure fun _ _ _ => ⟨le_rfl, nofun, .inl rfl⟩
  | cons k ks ih =>
    refine (hrank S k List.mem_cons_self .rfl).bind fun T l hT hl => ?_
    refine (ih fun U k' hk' hU => hrank U k' (List.mem_cons_of_mem k hk') (hT.trans hU)).imp
      fun V n hV hn hdeclared => ?_
    exact (hn fun k' hk' => hdeclared k' (List.mem_cons_of_mem k hk')).cons
      (hl V hV (hdeclared k List.mem_cons_self))

theorem keeps_rankAbove (H : S.RankedClasses C)
    (hp : p → A.types t ∧ ∃ a, C a ∧ S.DeclaredBy a t ∧ enough ≤ fuel)
    (hrank : ∀ T k, Later S T → (∀ a, C a → S.DeclaredBy a t → T.SeenAbove a k) →
      Keeps T A D p (rank k) fun V r => V.DeclaredIn C k → V.TypeRankIs k r) :
    Keeps S A D p (rankAbove fuel rank t) fun V r =>
      ∀ a, C a → S.DeclaredBy a t → (∃ o, V.IsObject o ∧ a ≠ o) → V.RankIs a r := by
  have hp' : p → A.Covers C S t ∧ enough ≤ fuel := by
    intro h
    obtain ⟨hA, a, ha, ht, hf⟩ := hp h
    exact ⟨⟨hA, .imp ht fun _ he => he ▸ ha⟩, hf⟩
  refine (keeps_supertype H hp').bind fun T k hT hk => ?_
  have hsuper : ∀ V, Later T V → ∀ a, C a → S.DeclaredBy a t → V.SuperclassSeen (V.DeclaredIn C) a k :=
    fun V hV a ha ht => (hk V hV).2.1 a ha (.later ht (hT.trans hV))
  have hview : p → Yields T (onStore (unlessNone k)) fun _ _ => True := by
    intro h
    obtain ⟨-, a, ha, ht, -⟩ := hp h
    exact yields_unlessNone ((hsuper T .rfl a ha ht).responds_view (H.later hT).ladder)
  refine (keeps_of_yields hview).bind fun U r hU hr => ?_
  have hTU := hT.trans hU
  have hnamed : ∀ V, Later U V → ∀ a, C a → S.DeclaredBy a t → ∃ named,
      Known (superclassNamed a) V named ∧ List.Forall₂ V.SameClass r.toList named.toList := by
    intro V hV a ha ht
    obtain ⟨named, hnamed, hsame⟩ :=
      (hsuper V (hU.trans hV) a ha ht).forall₂ (H.later (hTU.trans hV)).ladder (hr V hV).1
    exact ⟨named, hnamed, hsame.imp fun _ _ h => h.1⟩
  refine (keeps_highestRank fun W k' hk' hW => hrank W k' (hTU.trans hW) fun a ha ht => ?_).bind
    fun W highest hW hhigh => ?_
  · obtain ⟨named, hknown, hsame⟩ := hnamed W hW a ha ht
    obtain ⟨s, hs, hks⟩ := exists_of_forall₂_left hsame hk'
    obtain rfl := Option.mem_toList.1 hs
    exact seenAbove_of_superclass (H.later (hTU.trans hW)) ha hknown hks
  have hSW := hTU.trans hW
  refine (keeps_interfaces (H.later hSW) fun h => ⟨(hp' h).1.later hSW, (hp' h).2⟩).bind
    fun X is hX his => ?_
  have hall : ∀ V, Later X V → ∀ a, C a → S.DeclaredBy a t → ∃ named,
      Known (supertypesNamed a) V named ∧ List.Forall₂ V.SameClass (r.toList ++ is) named := by
    intro V hV a ha ht
    obtain ⟨named, hknown, hsame⟩ := hnamed V (hW.trans (hX.trans hV)) a ha ht
    obtain ⟨named', hknown', hsame'⟩ := (his V hV).2.1 a ha (.later ht (hSW.trans (hX.trans hV)))
    exact ⟨_, known_supertypesNamed.2 ⟨named, named', hknown, hknown', rfl⟩,
      List.rel_append hsame hsame'⟩
  refine (keeps_highestRank fun Y k' hk' hY => hrank Y k' (hSW.trans (hX.trans hY))
    fun a ha ht => ?_).map fun V n hV hn a ha ht hobject => ?_
  · obtain ⟨named, hknown, hsame⟩ := hall Y hY a ha ht
    exact seenAbove_of_mem hknown hsame (List.mem_append_right _ hk')
  obtain ⟨o, ho, hne⟩ := hobject
  obtain ⟨named, hknown, hsame⟩ := hall V hV a ha ht
  have hdeclared : ∀ k' ∈ r.toList ++ is, V.DeclaredIn C k' := fun k' hk' =>
    (seenAbove_of_mem hknown hsame hk').declaredIn (H.later (hSW.trans (hX.trans hV))) ha
  have hhighest := hhigh V (hX.trans hV) fun k' hk' => hdeclared k' (List.mem_append_left is hk')
  exact rankIs_of_isHighest ho hne hknown hsame
    (hhighest.append (hn fun k' hk' => hdeclared k' (List.mem_append_right _ hk')))

/-! ### Ranks -/

/-- The rank of an element, given how the ranks of types are found. -/
def rankOfElement (fuel : Nat) (rank : List ElementId → TypeId → Query Nat)
    (pending : List ElementId) (e : ElementId) : Query Nat := do
  if e = (← objectElement) then
    return 0
  else
    match (← get).memo.ranks.lookup e with
    | some rank => return rank
    | none =>
        if e ∈ pending then
          return 0
        else
          let rank ← match ← elementType e with
            | some own => rankAbove fuel (rank (e :: pending)) own
            | none => pure 1
          modifyMemo fun m => m.setRank e rank
          return rank

/-- A class whose rank is being computed is strictly below the classes that are met on the way, so it
is not met again. -/
theorem keeps_rankOfElement (H : S.RankedClasses C) {rank : List ElementId → TypeId → Query Nat}
    (hclear : ∀ q ∈ pending, C q → C e ∧ Relation.TransGen S.Extends q e)
    (hp : p → C e ∧ enough ≤ fuel)
    (hrank : ∀ T k, Later S T → e ∉ pending → (C e → T.SeenAbove e k) →
      Keeps T A D p (rank (e :: pending) k) fun V r => V.DeclaredIn C k → V.TypeRankIs k r) :
    Keeps S A D p (rankOfElement fuel rank pending e) fun V r => C e → V.RankIs e r := by
  refine keeps_objectElement.bind fun T o hT ho => ?_
  split
  · next heq => exact keeps_pure fun V hV _ => .object (heq ▸ ho V hV)
  next hne =>
  refine keeps_get_bind fun U hU hmemo _ => ?_
  cases hlook : U.memo.ranks.lookup e with
  | some r => exact keeps_pure fun V hV he => (hmemo.ranks hlook he).mono hV.le
  | none =>
    dsimp only
    split
    · next hmem =>
      refine keeps_pure fun V hV he => absurd (hclear e hmem he).2 ?_
      exact H.acyclic .rfl he
    next hmem =>
    have hSU := hT.trans hU
    have hnode : ∀ V, Later S V → C e → ∃ own, Known (onStore (elementType e)) V (some own) ∧
        V.DeclaredBy e own := by
      intro V hV he
      obtain ⟨m, hm, hclass⟩ := (H.later hV).classes he
      obtain ⟨own, hown, hdeclared⟩ := hclass.own
      exact ⟨own, hown ▸ known_onStore_elementType hm, hdeclared⟩
    have hyields : p → Yields U (onStore (elementType e)) fun _ _ => True := by
      intro h
      obtain ⟨own, hknown, -⟩ := hnode U hSU (hp h).1
      exact (yields_of_known hknown).imp fun _ _ _ _ => trivial
    have hset : ∀ X r, Later U X → (∀ V, Later X V → C e → V.RankIs e r) → Keeps X A D p
        (do modifyMemo fun m => m.setRank e r; return r : Query Nat) fun V r => C e → V.RankIs e r := by
      intro X r _ hr
      refine (keeps_modifyMemo _ (fun m => ⟨(e, r) :: m.ranks, m.closures, rfl⟩)
        (fun V hV hmemo => hmemo.setRank (hr V hV)) fun _ _ hA => A.setRank hA e r).bind
          fun V _ hV _ => ?_
      exact keeps_pure fun W hW => hr W (hV.trans hW)
    refine (keeps_of_yields hyields).inside.bind fun W r hW hr => ?_
    have hSW := hSU.trans hW
    have htype : C e → ∃ own, r = some own ∧ W.DeclaredBy e own := by
      intro he
      obtain ⟨own, hknown, hdeclared⟩ := hnode W hSW he
      exact ⟨own, (hr W .rfl).1.1.unique hknown, hdeclared⟩
    cases r with
    | none =>
      refine .bind (keeps_pure fun V hV he => ?_) fun X r hX => hset X r (hW.trans hX)
      obtain ⟨own, hown, -⟩ := htype he
      cases hown
    | some own =>
      have hown : C e → W.DeclaredBy e own := by
        intro he
        obtain ⟨own', hown', hdeclared⟩ := htype he
        cases hown'
        exact hdeclared
      refine .bind ?_ fun X r hX => hset X r (hW.trans hX)
      have hA : p → A.types own := by
        intro h
        obtain ⟨X, hX, hknown⟩ := (hr W .rfl).2 h
        exact A.own hX (hp h).1 hknown
      refine (keeps_rankAbove (H.later hSW)
        (fun h => ⟨hA h, e, (hp h).1, hown (hp h).1, (hp h).2⟩)
        fun X k hX hseen => hrank X k (hSW.trans hX) hmem fun he => hseen e he (hown he)).imp
          fun V r hV hr he => ?_
      exact hr e he (hown he) ⟨o, ho V (hU.trans (hW.trans hV)), hne⟩

/-- The classes of the table among `pending` are strictly below the class of a type. -/
def Clear (S : Session) (C : ElementId → Prop) (pending : List ElementId) (t : TypeId) : Prop :=
  ∀ q ∈ pending, C q → S.DeclaredIn C t ∧
    ∀ V, Later S V → ∀ a, V.IsClass t a → Relation.TransGen V.Extends q a

theorem Clear.later (h : S.Clear C pending t) (hT : Later S T) : T.Clear C pending t := by
  intro q hq hC
  obtain ⟨hdeclared, hbelow⟩ := h q hq hC
  exact ⟨hdeclared.later hT, fun V hV => hbelow V (hT.trans hV)⟩

theorem clear_nil : S.Clear C [] t :=
  fun _ hq => absurd hq List.not_mem_nil

theorem clear_cons (H : T.RankedClasses C)
    (hclear : ∀ q ∈ pending, C q → C e ∧ Relation.TransGen T.Extends q e)
    (hk : C e → T.SeenAbove e k) : T.Clear C (e :: pending) k := by
  have hextends : C e → ∀ V, Later T V → ∀ a, V.IsClass k a → V.Extends e a :=
    fun he V hV a ha => ((hk he).mono hV.le).extends ha
  intro q hq hC
  rcases List.mem_cons.1 hq with rfl | hq
  · exact ⟨(hk hC).declaredIn H hC, fun V hV a ha => .single (hextends hC V hV a ha)⟩
  · obtain ⟨he, hbelow⟩ := hclear q hq hC
    refine ⟨(hk he).declaredIn H he, fun V hV a ha => ?_⟩
    exact .tail (.mono (fun _ _ h => .mono h hV.le) _ _ hbelow) (hextends he V hV a ha)

/-- The type is declared in the table, and `fuel` is enough for every class of it that is not among
`pending`. -/
def PathFuel (S : Session) (C : ElementId → Prop) (enough fuel : Nat) (pending : List ElementId)
    (t : TypeId) : Prop :=
  S.DeclaredIn C t ∧ pending.Nodup ∧ (∀ q ∈ pending, C q) ∧
    ∃ bound, (∀ a, C a → a.index < bound) ∧ bound + enough < fuel + pending.length

variable {pending : List ElementId}

/-- The fuel is not used up before all classes are met. -/
theorem PathFuel.lt (h : S.PathFuel C enough fuel pending t) : enough < fuel := by
  obtain ⟨-, hnodup, hC, bound, hbound, hfuel⟩ := h
  have := length_le_of_nodup hnodup fun q hq => hbound q (hC q hq)
  omega

theorem PathFuel.cons (h : S.PathFuel C enough (fuel + 1) pending t) (he : C e) (hmem : e ∉ pending)
    (hk : T.DeclaredIn C k) : T.PathFuel C enough fuel (e :: pending) k := by
  obtain ⟨-, hnodup, hC, bound, hbound, hfuel⟩ := h
  refine ⟨hk, List.nodup_cons.2 ⟨hmem, hnodup⟩, List.forall_mem_cons.2 ⟨he, hC⟩, bound, hbound, ?_⟩
  rw [List.length_cons]
  omega

section RankFrom

variable (H : S.RankedClasses C) (hclear : S.Clear C pending t)
  (hp : p → S.PathFuel C enough (fuel + 1) pending t)
  (hrec : ∀ T pending' k, Later S T → T.Clear C pending' k →
    (p → T.PathFuel C enough fuel pending' k) → Keeps T A D p (rankFrom fuel pending' k)
      fun V r => V.DeclaredIn C k → V.TypeRankIs k r)
  {n : TypeNode} (ht : S.Shows t u n)

include H hclear hp hrec ht

theorem keeps_rankFromElement : Keeps S A D p (do match ← n.elementOf with
      | none => return 0
      | some e => rankOfElement fuel (rankFrom fuel) pending e : Query Nat)
        fun V r => V.DeclaredIn C t → V.TypeRankIs t r := by
  refine (keeps_of_yields fun h => (hp h).1.yields_elementOf ht).bind fun T r hT hr => ?_
  have hclass : ∀ V, Later T V → V.DeclaredIn C t → ∃ a, r = some a ∧ C a ∧ V.IsClass t a :=
    fun V hV h => h.isClass_of_elementOf (ht.mono (hT.trans hV).le) (hr V hV).1
  cases r with
  | none =>
    refine keeps_pure fun V hV h => ?_
    obtain ⟨a, ha, -⟩ := hclass V hV h
    cases ha
  | some e =>
    have hclass : ∀ V, Later T V → V.DeclaredIn C t → C e ∧ V.IsClass t e := by
      intro V hV h
      obtain ⟨a, ha, hC⟩ := hclass V hV h
      cases ha
      exact hC
    have hbelow : ∀ U, Later T U → ∀ q ∈ pending, C q → C e ∧ Relation.TransGen U.Extends q e := by
      intro U hU q hq hC
      obtain ⟨hdeclared, hq⟩ := hclear q hq hC
      obtain ⟨he, hclassU⟩ := hclass U hU (hdeclared.later (hT.trans hU))
      exact ⟨he, hq U (hT.trans hU) e hclassU⟩
    have he : p → C e := fun h => (hclass T .rfl ((hp h).1.later hT)).1
    refine (keeps_rankOfElement (H.later hT) (hbelow T .rfl)
      (fun h => ⟨he h, Nat.le_of_lt_succ (hp h).lt⟩) fun U k hU hmem hseen => ?_).imp
        fun V r hV hr hdeclared => ?_
    · have hHU := H.later (hT.trans hU)
      exact hrec U (e :: pending) k (hT.trans hU) (clear_cons hHU (hbelow U hU) hseen) fun h =>
        (hp h).cons (he h) hmem ((hseen (he h)).declaredIn hHU (he h))
    · obtain ⟨he, hclassV⟩ := hclass V hV hdeclared
      exact ⟨e, hclassV, hr he⟩

theorem keeps_rankFromBound (hk : n.kind ≠ .declared) :
    Keeps S A D p (rankAbove fuel (rankFrom fuel pending) u)
      fun V r => V.DeclaredIn C t → V.TypeRankIs t r := by
  have hnot : ∀ V, Later S V → ¬ V.DeclaredIn C t := fun V hV h => hk (h.kind_eq (ht.mono hV.le))
  have hp : ¬ p := fun h => hnot S .rfl (hp h).1
  refine (keeps_rankAbove H (fun h => absurd h hp) fun T k hT _ => ?_).imp
    fun V r hV _ hdeclared => absurd hdeclared (hnot V hV)
  exact hrec T pending k hT (fun q hq hC => absurd (hclear q hq hC).1 (hnot S .rfl))
    fun h => absurd h hp

end RankFrom

/-- The rank of a type of a class is the rank of the class. -/
theorem keeps_rankFrom : ∀ {fuel : Nat} {S : Session} {pending : List ElementId} {t : TypeId},
    S.RankedClasses C → S.Clear C pending t → (p → S.PathFuel C enough fuel pending t) →
      Keeps S A D p (rankFrom fuel pending t) fun V r => V.DeclaredIn C t → V.TypeRankIs t r
  | 0, _, _, _, _, _, hp => keeps_throw fun h => absurd (hp h).lt (Nat.not_lt_zero _)
  | fuel + 1, S, pending, t, H, hclear, hp => by
      refine (keeps_of_yields fun h => (hp h).1.yields_kind).bind fun T x hT hx => ?_
      obtain ⟨u, n⟩ := x
      have hpeek : ∀ V, Later T V → V.Shows t u n := fun V hV => shows_of_known (hx V hV).1
      have hpT : p → T.PathFuel C enough (fuel + 1) pending t := fun h =>
        ⟨(hp h).1.later hT, (hp h).2⟩
      have hrec : ∀ U pending' k, Later T U → U.Clear C pending' k →
          (p → U.PathFuel C enough fuel pending' k) → Keeps U A D p (rankFrom fuel pending' k)
            fun V r => V.DeclaredIn C k → V.TypeRankIs k r := fun U pending' k hU =>
        keeps_rankFrom (H.later (hT.trans hU))
      have helement := keeps_rankFromElement (H.later hT) (hclear.later hT) hpT hrec (hpeek T .rfl)
      have hbound := keeps_rankFromBound (H.later hT) (hclear.later hT) hpT hrec (hpeek T .rfl)
      dsimp only
      split
      · exact helement
      · exact helement
      · next hshape => exact hbound (by rw [TypeNode.kind, hshape]; nofun)
      · next hshape => exact hbound (by rw [TypeNode.kind, hshape]; nofun)
      · next hdeclared _ _ _ =>
        refine keeps_pure fun V hV h => ?_
        obtain ⟨d, hd⟩ := TypeNode.shape_of_declared (h.kind_eq (hpeek V hV))
        exact absurd hd (hdeclared d)

/-! ### The order of types -/

/-- The fuel is enough for every class of the table once. -/
def TableFuel (C : ElementId → Prop) (enough fuel : Nat) : Prop :=
  ∃ bound, (∀ a, C a → a.index < bound) ∧ bound + enough < fuel

theorem TableFuel.le (h : TableFuel C enough fuel) : enough ≤ fuel := by
  obtain ⟨bound, -, hf⟩ := h
  omega

theorem keeps_config : Keeps S A D p JavaTypes.config fun V c => c = V.config :=
  (keeps_of_settles (fun _ _ _ hA => hA) fun _ _ _ _ _ _ h => by cases h).imp
    fun _ _ _ h => known_config.1 h

instance settles_nodeQualifiedName (n : TypeNode) : Settles n.qualifiedName n.qualifiedName := by
  refine settles_bind_of fun r => ?_
  cases r <;> infer_instance

section Node

variable {n : TypeNode} (ht : S.Shows t u n)

include ht

theorem keeps_rankOfNode (H : S.RankedClasses C) (hp : p → S.DeclaredIn C t ∧ TableFuel C enough fuel) :
    Keeps S A D p (rankFrom fuel [] u) fun V r => V.DeclaredIn C t → V.TypeRankIs t r := by
  have hfuel : p → S.PathFuel C enough fuel [] u := by
    intro h
    obtain ⟨hdeclared, bound, hbound, hf⟩ := hp h
    exact ⟨(sameClass_of_node ht (hdeclared.kind_eq ht)).declaredIn hdeclared, List.nodup_nil, nofun,
      bound, hbound, hf⟩
  refine (keeps_rankFrom H clear_nil hfuel).imp fun V r hV hr hdeclared => ?_
  have ht := ht.mono hV.le
  have hsame := sameClass_of_node ht (hdeclared.kind_eq ht)
  obtain ⟨a, ha, hrank⟩ := hr (hsame.declaredIn hdeclared)
  exact ⟨a, hsame.isClass_iff.1 ha, hrank⟩

theorem keeps_nameOfNode (H : S.RankedClasses C) (hp : p → S.DeclaredIn C t) :
    Keeps S A D p (onStore n.qualifiedName) fun V x => ∀ a, V.IsClass t a →
      Known (onStore (qualifiedName a)) V x := by
  have hyields : p → Yields S (onStore n.qualifiedName) fun _ _ => True := by
    intro h
    rw [TypeNode.qualifiedName, onStore_bind]
    refine ((hp h).yields_elementOf ht).bind fun T r hT hr => ?_
    obtain ⟨a, rfl, ha, -⟩ := hr T .rfl
    obtain ⟨name, hname⟩ := (H.later hT).named ha
    exact (yields_of_known hname).imp fun _ _ _ _ => trivial
  refine (keeps_of_yields hyields).imp fun V x hV hx a hclass => ?_
  have helement := hclass.known_elementOf (ht.mono hV.le)
  exact known_onStore.2 ((known_onStore.1 helement).of_bind (known_onStore.1 hx.1))

end Node

/-- What an answer to the question says whether a type comes before another. -/
def ComparesTo (T : Session) (C : ElementId → Prop) (t s : TypeId) (r : Bool) : Prop :=
  T.DeclaredIn C t → T.DeclaredIn C s → ∃ a b, T.IsClass t a ∧ T.IsClass s b ∧
    (∃ m n, T.RankIs a m ∧ T.RankIs b n) ∧ (r = true ↔ T.Before a b)

section Compares

variable {s : TypeId} {r : Bool} (ha : C a) (hb : C b) (hta : T.IsClass t a) (hsb : T.IsClass s b)

include ha hb hta hsb

theorem ComparesTo.ranks_iff (h : T.ComparesTo C t s r) :
    (∃ m n, T.RankIs a m ∧ T.RankIs b n) ∧ (r = true ↔ T.Before a b) := by
  obtain ⟨a', b', hta', hsb', h⟩ := h (hta.declaredIn ha) (hsb.declaredIn hb)
  obtain rfl := hta.unique hta'
  obtain rfl := hsb.unique hsb'
  exact h

/-- A class that does not come before another one comes after it. -/
theorem ComparesTo.before (h : T.ComparesTo C t s false) (H : T.ClassTable C) (hne : a ≠ b) :
    T.Before b a := by
  obtain ⟨⟨m, n, hm, hn⟩, hiff⟩ := h.ranks_iff ha hb hta hsb
  exact (H.before_total ha hb hm hn hne).resolve_left fun hab => Bool.false_ne_true (hiff.2 hab)

end Compares

section Precedes

variable {s v : TypeId} {m n : TypeNode} (H : S.RankedClasses C)
  (hp : p → S.DeclaredIn C t ∧ S.DeclaredIn C s ∧ TableFuel C enough fuel)
  (ht : S.Shows t u m) (hs : S.Shows s v n)

include ht hs in
theorem comparesTo_of_kind (hk : ¬ (m.kind = .declared ∧ n.kind = .declared)) (r : Bool)
    (hT : Later S T) : T.ComparesTo C t s r := by
  intro htC hsC
  exact absurd ⟨htC.kind_eq (ht.mono hT.le), hsC.kind_eq (hs.mono hT.le)⟩ hk

include H hp ht hs in
/-- Declared types are compared by the ranks and the names of their classes. -/
theorem keeps_precedesDeclared :
    Keeps S A D p (do
      let rankT ← rankFrom fuel [] u
      let rankS ← rankFrom fuel [] v
      if rankT = rankS then
        let nameT ← m.qualifiedName
        let nameS ← n.qualifiedName
        return (← JavaTypes.config).closureOrder.before nameT nameS
      else
        return rankT > rankS : Query Bool) fun V r => V.ComparesTo C t s r := by
  refine (keeps_rankOfNode ht H fun h => ⟨(hp h).1, (hp h).2.2⟩).bind fun T i hT hi => ?_
  refine (keeps_rankOfNode (hs.mono hT.le) (H.later hT) fun h =>
    ⟨(hp h).2.1.later hT, (hp h).2.2⟩).bind fun U j hU hj => ?_
  have hSU := hT.trans hU
  split
  · next heq =>
    subst heq
    refine (keeps_nameOfNode (ht.mono hSU.le) (H.later hSU)
      fun h => (hp h).1.later hSU).bind fun W x hW hx => ?_
    have hSW := hSU.trans hW
    refine (keeps_nameOfNode (hs.mono hSW.le) (H.later hSW)
      fun h => (hp h).2.1.later hSW).bind fun X y hX hy => ?_
    refine keeps_config.map fun V c hV hc htC hsC => ?_
    have hWV := hX.trans hV
    have hUV := hW.trans hWV
    obtain ⟨a, hta, hi⟩ := hi V (hU.trans hUV) htC
    obtain ⟨b, hsb, hj⟩ := hj V hUV hsC
    refine ⟨a, b, hta, hsb, ⟨i, i, hi, hj⟩, ?_⟩
    rw [before_iff hi hj (hx V hWV a hta) (hy V hV b hsb), hc]
    simp
  · next hne =>
    refine keeps_pure fun V hV htC hsC => ?_
    obtain ⟨a, hta, hi⟩ := hi V (hU.trans hV) htC
    obtain ⟨b, hsb, hj⟩ := hj V hV hsC
    refine ⟨a, b, hta, hsb, ⟨i, j, hi, hj⟩, ?_⟩
    obtain ⟨x, hx⟩ := (H.later (hSU.trans hV)).named (htC.mem hta)
    obtain ⟨y, hy⟩ := (H.later (hSU.trans hV)).named (hsC.mem hsb)
    rw [before_iff hi hj hx hy]
    simp [hne]

end Precedes

/-- Types are compared as their classes are. -/
theorem keeps_precedes (H : S.RankedClasses C)
    (hp : p → S.DeclaredIn C t ∧ S.DeclaredIn C s ∧ TableFuel C enough fuel) :
    Keeps S A D p (precedes fuel t s) fun V r => V.ComparesTo C t s r := by
  refine (keeps_of_yields fun h => (hp h).1.yields_kind).bind fun T x hT hx => ?_
  refine (keeps_of_yields fun h => ((hp h).2.1.later hT).yields_kind).bind fun U y hU hy => ?_
  obtain ⟨u, m⟩ := x
  obtain ⟨v, n⟩ := y
  have hm : U.Shows t u m := shows_of_known (hx U hU).1
  have hn : U.Shows s v n := shows_of_known (hy U .rfl).1
  have hSU := hT.trans hU
  have hp' : ¬ (m.kind = .declared ∧ n.kind = .declared) → ¬ p := fun hk h =>
    hk ⟨((hp h).1.later hSU).kind_eq hm, ((hp h).2.1.later hSU).kind_eq hn⟩
  dsimp only
  split
  · next hk hk' =>
    have hnot : ¬ (m.kind = .declared ∧ n.kind = .declared) := by simp [hk]
    exact (keeps_of_settles
      (fun h => absurd h (hp' hnot)) fun h => absurd h (hp' hnot)).imp
        fun V r hV _ => comparesTo_of_kind hm hn hnot r hV
  · next hk _ =>
    have hnot : ¬ (m.kind = .declared ∧ n.kind = .declared) := by simp [hk]
    exact keeps_pure fun V hV => comparesTo_of_kind hm hn hnot true hV
  · next hk _ =>
    have hnot : ¬ (m.kind = .declared ∧ n.kind = .declared) := by simp [hk]
    exact keeps_pure fun V hV => comparesTo_of_kind hm hn hnot false hV
  · split
    · exact keeps_precedesDeclared (H.later hSU)
        (fun h => ⟨(hp h).1.later hSU, (hp h).2.1.later hSU, (hp h).2.2⟩) hm hn
    · next hlike =>
      refine keeps_pure fun V hV => comparesTo_of_kind hm hn (fun hk => hlike ?_) false hV
      rw [hk.1, hk.2]
      rfl

/-! ### Entries of the same class -/

theorem keeps_resolveElement (hd : S.store.peekElement d = some (d, x)) :
    Keeps S A D p (onStore (resolveElement d)) fun _ r => r = d := by
  have hknown := known_onStore.2 (known_resolveElement.2 ⟨x, hd⟩)
  refine (keeps_of_yields fun _ => yields_of_known hknown).imp fun V r hV hr => ?_
  exact hr.1.unique (hknown.mono hV.le)

/-- Classes of a table that are compared as elements are equal if and only if they are the same. -/
theorem keeps_sameElement (H : S.ClassTable C) {y : ElementNode}
    (hd : S.store.peekElement d = some (d, x)) (he : S.store.peekElement e = some (e, y))
    (hp : p → C d ∧ C e ∧ enough ≤ fuel) :
    Keeps S A D p (sameElement fuel d e) fun _ r => C d → (r = true ↔ d = e) := by
  refine (keeps_resolveElement hd).bind fun T d' hT hd' => ?_
  obtain rfl := hd' T .rfl
  refine (keeps_resolveElement (peekElement_mono hT.le.store he)).bind fun U e' hU he' => ?_
  obtain rfl := he' U .rfl
  split
  · next heq => exact keeps_pure fun _ _ _ => by simp [heq]
  next hne =>
  refine .bind (keeps_config.map fun V c _ hc => by rw [hc]) fun W q hW hq => ?_
  obtain rfl := hq W .rfl
  have hconfig : ∀ V, Later W V → V.config = W.config := fun V hV => hV.le.config
  have hSW := hT.trans (hU.trans hW)
  refine (keeps_subquestion fun h V hV => ?_).imp fun V r hV hr hC => ?_
  · have hquestion : A.Subquestion C enough V Bool
        (onStore (V.config.equality.elements fuel d' e')) :=
      .elements (hp h).1 (hp h).2.1 (hp h).2.2
    rw [hconfig V hV] at hquestion
    exact hquestion
  · have hSV := hSW.trans hV
    have hequal := Equality.known_elements_iff (known_onStore.1 hr)
    rw [← hconfig V hV] at hequal
    refine ⟨fun htrue => ?_, fun heq => absurd heq hne⟩
    exact H.separate hSV hC (peekElement_mono hSV.le.store hd) (peekElement_mono hSV.le.store he)
      (hequal.1 htrue)

theorem exists_peek_of_elementOf {n : TypeNode}
    (h : Known (onStore n.elementOf) S (some d)) : ∃ x, S.store.peekElement d = some (d, x) := by
  obtain ⟨_, x, -, hx⟩ := known_elementOf_some.1 h
  exact ⟨x, Store.peekElement_self hx⟩

/-- Two types share an entry if and only if they are of the same class. -/
theorem keeps_sameEntry (H : S.ClassTable C)
    (hp : p → S.DeclaredIn C t ∧ S.DeclaredIn C s ∧ enough ≤ fuel) :
    Keeps S A D p (sameEntry fuel t s) fun V r => ∀ a b, C a → C b → V.IsClass t a →
      V.IsClass s b → (r = true ↔ a = b) := by
  refine (keeps_of_yields fun h => (hp h).1.yields_kind).bind fun T x hT hx => ?_
  refine (keeps_of_yields fun h => ((hp h).2.1.later hT).yields_kind).bind fun U y hU hy => ?_
  obtain ⟨u, m⟩ := x
  obtain ⟨v, n⟩ := y
  have hm : ∀ V, Later U V → V.Shows t u m := fun V hV => shows_of_known (hx V (hU.trans hV)).1
  have hn : ∀ V, Later U V → V.Shows s v n := fun V hV => shows_of_known (hy V hV).1
  have hSU := hT.trans hU
  dsimp only
  split
  · next heq =>
    subst heq
    refine keeps_pure fun V hV a b _ _ hta hsb => ?_
    simp [(hta.of_node (hm V hV)).unique (hsb.of_node (hn V hV))]
  refine (keeps_of_yields fun h =>
    ((hp h).1.later hSU).yields_elementOf (hm U .rfl)).bind fun W d hW hd => ?_
  refine (keeps_of_yields fun h =>
    ((hp h).2.1.later (hSU.trans hW)).yields_elementOf (hn W hW)).bind fun X e hX he => ?_
  have hUX := hW.trans hX
  have hd' : ∀ V, Later X V → ∀ a, V.IsClass t a → d = some a := fun V hV a ha =>
    (hd V (hX.trans hV)).1.unique (ha.known_elementOf (hm V (hUX.trans hV)))
  have he' : ∀ V, Later X V → ∀ b, V.IsClass s b → e = some b := fun V hV b hb =>
    (he V hV).1.unique (hb.known_elementOf (hn V (hUX.trans hV)))
  cases d with
  | none =>
    refine keeps_pure fun V hV a _ _ _ hta _ => ?_
    cases hd' V hV a hta
  | some d =>
    cases e with
    | none =>
      refine keeps_pure fun V hV _ b _ _ _ hsb => ?_
      cases he' V hV b hsb
    | some e =>
      obtain ⟨x, hx⟩ := exists_peek_of_elementOf (hd X hX).1
      obtain ⟨y, hy⟩ := exists_peek_of_elementOf (he X .rfl).1
      have hSX := hSU.trans hUX
      have hC : p → C d ∧ C e := by
        intro h
        obtain ⟨a, ha, hCa, -⟩ := ((hp h).1.later hSX).isClass_of_elementOf (hm X hUX) (hd X hX).1
        obtain ⟨b, hb, hCb, -⟩ :=
          ((hp h).2.1.later hSX).isClass_of_elementOf (hn X hUX) (he X .rfl).1
        cases ha
        cases hb
        exact ⟨hCa, hCb⟩
      refine (keeps_sameElement (H.later hSX) hx hy
        fun h => ⟨(hC h).1, (hC h).2, (hp h).2.2⟩).imp fun V r hV hr a b ha _ hta hsb => ?_
      cases hd' V hV a hta
      cases he' V hV b hsb
      exact hr ha

end Session

end JavaTypes
