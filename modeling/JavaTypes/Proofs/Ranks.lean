import JavaTypes.Proofs.ClassTable
import JavaTypes.Relation.Rank

/-!
# Ranks of classes, and the first path to a class

The rank of a class is its greatest distance from `Object`, said here without regard to how it is
found and remembered.

* `Session.Surveyed T e`: the session knows all classes directly above `e`;
* `Session.RankIs T e n`: the rank of `e` is `n`. A class has one rank (`RankIs.unique`), and what is
  above a class has a smaller one (`RankIs.exists_lt`);
* `Session.Before T a b`: the order of classes, by falling rank and then by name. It is a strict
  order, and total on a table of classes (`ClassTable.before_total`).

A class can be reached from a type on several ways, and with different arguments. The first way goes up
through the superclass first, and then through the interfaces in their order (`Session.DirectlyAbove`).

* `Session.SeenAt T b t c`: up to equality, `c` is the type of the class `b` at its end.
-/

namespace JavaTypes

open Action

namespace Session

variable {S T : Session} {C : ElementId → Prop} {a b c e : ElementId} {m n : Nat}

/-! ### What is directly above a class -/

/-- Everything that a class names is known to be of some class. -/
def Surveyed (T : Session) (e : ElementId) : Prop :=
  ∃ named, Known (supertypesNamed e) T named ∧ ∀ t ∈ named, ∃ b, T.IsClass t b

theorem Surveyed.mono (h : S.Surveyed e) (hle : S ≤ T) : T.Surveyed e := by
  obtain ⟨named, hnamed, hclasses⟩ := h
  refine ⟨named, hnamed.mono hle, fun t ht => ?_⟩
  obtain ⟨b, hb⟩ := hclasses t ht
  exact ⟨b, hb.mono hle⟩

/-- Nothing new turns up above a class of which all is known. -/
theorem Surveyed.extends_iff (h : S.Surveyed e) (hle : S ≤ T) : T.Extends e b ↔ S.Extends e b := by
  refine ⟨fun hb => ?_, fun hb => hb.mono hle⟩
  obtain ⟨named, hnamed, hclasses⟩ := h
  obtain ⟨named', t, hnamed', ht, hb⟩ := hb
  obtain rfl := (hnamed.mono hle).unique hnamed'
  obtain ⟨b', hb'⟩ := hclasses t ht
  obtain rfl := (hb'.mono hle).unique hb
  exact ⟨named, t, hnamed, ht, hb'⟩

/-- Nothing new is reached if all is known that is above what was reached. -/
theorem reaches_iff_of_surveyed (hle : S ≤ T) (hsurveyed : ∀ c, S.Reaches a c → S.Surveyed c) :
    T.Reaches a b ↔ S.Reaches a b := by
  refine ⟨fun h => ?_, fun h => h.mono hle⟩
  induction h with
  | refl => exact .refl
  | tail _ hbc ih => exact ih.tail (((hsurveyed _ ih).extends_iff hle).1 hbc)

/-! ### Ranks -/

/-- The rank of a class: zero for `Object`, and for any other class one more than the greatest of the
ranks directly above it. -/
inductive RankIs (T : Session) : ElementId → Nat → Prop
  | object {e : ElementId} (h : T.IsObject e) : RankIs T e 0
  | above {e o : ElementId} {n : Nat} (rank : ElementId → Nat) (ho : T.IsObject o) (hne : e ≠ o)
      (hsurveyed : T.Surveyed e) (hrank : ∀ b, T.Extends e b → RankIs T b (rank b))
      (hle : ∀ b, T.Extends e b → rank b ≤ n) (hmax : n = 0 ∨ ∃ b, T.Extends e b ∧ rank b = n) :
      RankIs T e (n + 1)

theorem RankIs.unique (hm : T.RankIs e m) (hn : T.RankIs e n) : m = n := by
  induction hm generalizing n with
  | object he =>
    cases hn with
    | object => rfl
    | above rank ho hne => exact absurd (he.unique ho) hne
  | above rank ho hne hsurveyed hrank hle hmax ih =>
    cases hn with
    | object he => exact absurd (he.unique ho) hne
    | above rank' _ _ _ hrank' hle' hmax' =>
      have heq : ∀ b, T.Extends _ b → rank b = rank' b := fun b hb => ih b hb (hrank' b hb)
      congr 1
      refine Nat.le_antisymm ?_ ?_
      · rcases hmax with rfl | ⟨b, hb, rfl⟩
        · exact Nat.zero_le _
        · exact heq b hb ▸ hle' b hb
      · rcases hmax' with rfl | ⟨b, hb, rfl⟩
        · exact Nat.zero_le _
        · exact heq b hb ▸ hle b hb

theorem RankIs.mono (h : S.RankIs e n) (hle : S ≤ T) : T.RankIs e n := by
  induction h with
  | object he => exact .object (he.mono hle)
  | above rank ho hne hsurveyed _ hbound hmax ih =>
    have hiff : ∀ b, T.Extends _ b ↔ S.Extends _ b := fun b => hsurveyed.extends_iff hle
    refine .above rank (ho.mono hle) hne (hsurveyed.mono hle)
      (fun b hb => ih b ((hiff b).1 hb)) (fun b hb => hbound b ((hiff b).1 hb)) ?_
    refine hmax.imp_right ?_
    rintro ⟨b, hb, hn⟩
    exact ⟨b, hb.mono hle, hn⟩

theorem RankIs.exists_lt_of_extends (H : T.RankedClasses C) (ha : T.RankIs a m)
    (hab : T.Extends a b) : ∃ n < m, T.RankIs b n := by
  cases ha with
  | object ha => exact absurd hab (H.not_extends_object ha)
  | above rank _ _ _ hrank hle => exact ⟨rank b, Nat.lt_succ_of_le (hle b hab), hrank b hab⟩

/-- What is above a class has a smaller rank. -/
theorem RankIs.exists_lt (H : T.RankedClasses C) (ha : T.RankIs a m)
    (hab : Relation.TransGen T.Extends a b) : ∃ n < m, T.RankIs b n := by
  induction hab with
  | single hab => exact ha.exists_lt_of_extends H hab
  | tail _ hbc ih =>
    obtain ⟨k, hk, hb⟩ := ih
    obtain ⟨n, hn, hc⟩ := hb.exists_lt_of_extends H hbc
    exact ⟨n, hn.trans hk, hc⟩

end Session

/-! ### The order of closures -/

namespace ClosureOrder

variable {order : ClosureOrder} {x y z : String}

theorem before_irrefl : ¬ order.before x x = true := by
  cases order <;> simp [before, String.lt_irrefl]

theorem before_trans (hxy : order.before x y = true) (hyz : order.before y z = true) :
    order.before x z = true := by
  cases order with
  | nameAscending =>
    simp only [before, decide_eq_true_eq] at hxy hyz ⊢
    exact String.lt_trans hxy hyz
  | nameDescending =>
    simp only [before, decide_eq_true_eq] at hxy hyz ⊢
    exact String.lt_trans hyz hxy

theorem before_total (hne : x ≠ y) : order.before x y = true ∨ order.before y x = true := by
  have hlt : x < y ∨ y < x := by
    by_contra hnot
    obtain ⟨hxy, hyx⟩ := not_or.1 hnot
    exact hne (String.le_antisymm (String.not_lt.1 hyx) (String.not_lt.1 hxy))
  cases order with
  | nameAscending => simpa only [before, decide_eq_true_eq] using hlt
  | nameDescending => simpa only [before, decide_eq_true_eq] using hlt.symm

end ClosureOrder

namespace Session

variable {S T : Session} {C : ElementId → Prop} {a b c : ElementId} {m n : Nat}

/-- A class comes before another in closures: it has a greater rank, or the same rank and the name
that comes first in the order of the settings. -/
def Before (T : Session) (a b : ElementId) : Prop :=
  ∃ m n x y, T.RankIs a m ∧ T.RankIs b n ∧ Known (onStore (qualifiedName a)) T x ∧
    Known (onStore (qualifiedName b)) T y ∧
      (n < m ∨ m = n ∧ T.config.closureOrder.before x y = true)

theorem Before.mono (h : S.Before a b) (hle : S ≤ T) : T.Before a b := by
  obtain ⟨m, n, x, y, ha, hb, hx, hy, horder⟩ := h
  refine ⟨m, n, x, y, ha.mono hle, hb.mono hle, hx.mono hle, hy.mono hle, ?_⟩
  rw [hle.config]
  exact horder

theorem before_irrefl : ¬ T.Before a a := by
  rintro ⟨m, n, x, y, hm, hn, hx, hy, hlt | ⟨-, hbefore⟩⟩
  · exact absurd (hm.unique hn) (Nat.ne_of_gt hlt)
  · obtain rfl := hx.unique hy
    exact ClosureOrder.before_irrefl hbefore

theorem Before.ne (h : T.Before a b) : a ≠ b :=
  fun heq => before_irrefl (heq ▸ h)

theorem Before.trans (hab : T.Before a b) (hbc : T.Before b c) : T.Before a c := by
  obtain ⟨l, m, x, y, hl, hm, hx, hy, hxy⟩ := hab
  obtain ⟨m', n, y', z, hm', hn, hy', hz, hyz⟩ := hbc
  obtain rfl := hm.unique hm'
  obtain rfl := hy.unique hy'
  refine ⟨l, n, x, z, hl, hn, hx, hz, ?_⟩
  rcases hxy with hlt | ⟨rfl, hxy⟩
  · refine .inl ?_
    rcases hyz with hlt' | ⟨rfl, -⟩
    · exact hlt'.trans hlt
    · exact hlt
  · exact hyz.imp_right fun hyz => ⟨hyz.1, ClosureOrder.before_trans hxy hyz.2⟩

theorem Before.asymm (hab : T.Before a b) : ¬ T.Before b a :=
  fun hba => before_irrefl (hab.trans hba)

theorem before_iff (hm : T.RankIs a m) (hn : T.RankIs b n) {x y : String}
    (hx : Known (onStore (qualifiedName a)) T x) (hy : Known (onStore (qualifiedName b)) T y) :
    T.Before a b ↔ n < m ∨ m = n ∧ T.config.closureOrder.before x y = true := by
  constructor
  · rintro ⟨m', n', x', y', hm', hn', hx', hy', horder⟩
    rwa [hm.unique hm', hn.unique hn', hx.unique hx', hy.unique hy']
  · exact fun horder => ⟨m, n, x, y, hm, hn, hx, hy, horder⟩

/-- Of two classes of a table, one comes before the other. -/
theorem ClassTable.before_total (H : T.ClassTable C) (ha : C a) (hb : C b) (hm : T.RankIs a m)
    (hn : T.RankIs b n) (hne : a ≠ b) : T.Before a b ∨ T.Before b a := by
  obtain ⟨x, hx⟩ := H.named ha
  obtain ⟨y, hy⟩ := H.named hb
  rw [before_iff hm hn hx hy, before_iff hn hm hy hx]
  rcases Nat.lt_trichotomy m n with hlt | rfl | hlt
  · exact .inr (.inl hlt)
  · have hxy : x ≠ y := fun heq => hne (H.names ha hb hx (heq ▸ hy))
    exact (ClosureOrder.before_total hxy).imp (fun h => .inr ⟨rfl, h⟩) fun h => .inr ⟨rfl, h⟩
  · exact .inl (.inl hlt)

end Session

/-! ## The first path to a class -/

namespace Session

variable {S T : Session} {a b : ElementId} {c k t t' : TypeId} {ks : List TypeId}

/-- The types directly above a type: its superclass, if there is one, and then its interfaces. -/
def DirectlyAbove (T : Session) (t : TypeId) (ks : List TypeId) : Prop :=
  ∃ fuel above r is, Known (supertype fuel t) T above ∧ Known (onStore (unlessNone above)) T r ∧
    Known (interfaces fuel t) T is ∧ ks = r.toList ++ is

/-- All is known that is above the type, and the class `b` is not there. -/
def Avoids (T : Session) (b : ElementId) (t : TypeId) : Prop :=
  ∃ a, T.IsClass t a ∧ (∀ c, T.Reaches a c → T.Surveyed c) ∧ ¬ T.Reaches a b

theorem DirectlyAbove.mono (h : S.DirectlyAbove t ks) (hle : S ≤ T) : T.DirectlyAbove t ks := by
  obtain ⟨fuel, above, r, is, habove, hr, his, rfl⟩ := h
  exact ⟨fuel, above, r, is, habove.mono hle, hr.mono hle, his.mono hle, rfl⟩

theorem Avoids.mono (h : S.Avoids b t) (hle : S ≤ T) : T.Avoids b t := by
  obtain ⟨a, ha, hsurveyed, hnot⟩ := h
  have hiff : ∀ c, T.Reaches a c ↔ S.Reaches a c := fun c => reaches_iff_of_surveyed hle hsurveyed
  exact ⟨a, ha.mono hle, fun c hc => (hsurveyed c ((hiff c).1 hc)).mono hle, fun hb =>
    hnot ((hiff b).1 hb)⟩

/-- The type `c` is of the class `b`, at the end of a path that goes up from `t`. At each step the path
goes to the first type that the class is reached from. Types count up to equality. -/
inductive SeenAt (T : Session) (b : ElementId) : TypeId → TypeId → Prop
  | here {t c : TypeId} (h : T.TypesEqual t c) (hc : T.IsClass c b) : SeenAt T b t c
  | up {t k j c : TypeId} {a : ElementId} {before after : List TypeId} (h : T.TypesEqual t k)
      (hk : T.IsClass k a) (hne : a ≠ b) (habove : T.DirectlyAbove k (before ++ j :: after))
      (havoid : ∀ i ∈ before, T.Avoids b i) (hj : SeenAt T b j c) : SeenAt T b t c

theorem SeenAt.mono (h : S.SeenAt b t c) (hle : S ≤ T) : T.SeenAt b t c := by
  induction h with
  | here h hc => exact .here (h.mono hle) (hc.mono hle)
  | up h hk hne habove havoid _ ih =>
    exact .up (h.mono hle) (hk.mono hle) hne (habove.mono hle)
      (fun i hi => (havoid i hi).mono hle) ih

/-- The first path from several types: it starts at the first of them that the class is reached from. -/
def SeenAmong (T : Session) (b : ElementId) (ks : List TypeId) (c : TypeId) : Prop :=
  ∃ before j after, ks = before ++ j :: after ∧ (∀ i ∈ before, T.Avoids b i) ∧ T.SeenAt b j c

theorem SeenAmong.append (h : T.SeenAmong b ks c) (ks' : List TypeId) :
    T.SeenAmong b (ks ++ ks') c := by
  obtain ⟨before, j, after, rfl, havoid, hj⟩ := h
  exact ⟨before, j, after ++ ks', by simp, havoid, hj⟩

theorem SeenAt.concat (h : T.SeenAt b k c) (havoid : ∀ i ∈ ks, T.Avoids b i) :
    T.SeenAmong b (ks ++ [k]) c :=
  ⟨ks, k, [], rfl, havoid, h⟩

/-- The paths from equal types end in the same types. -/
theorem SeenAt.of_equal (h : T.SeenAt b t c) (hequal : T.TypesEqual t' t) : T.SeenAt b t' c := by
  cases h with
  | here h hc => exact .here (.trans hequal h) hc
  | up h hk hne habove havoid hj =>
    exact .up (.trans hequal h) hk hne habove havoid hj

end Session

end JavaTypes
