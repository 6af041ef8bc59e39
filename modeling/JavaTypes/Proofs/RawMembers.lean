import JavaTypes.Proofs.CapturedTypes
import JavaTypes.Proofs.ErasedSupertypes

/-!
# Members seen through raw types

A member is erased if the type through which it is seen, the supertype that its class declares, gives no
argument at all. A raw type may still have some: it may omit those of a class and give those of the class
around it. A member that is seen through such a type has its declared type, with the variables of its
class in it (`memberType_throughRaw`).

* `Session.Fits T t k`: at every level the type `t` has an argument for every parameter of the generic
  type `k`, or none. If it is raw, it has fewer arguments (`Fits.length_lt`);
* `Narrows.length_eq`: capture keeps the number of arguments, so that a type which gives too few of them
  for a substitution still does after its capture.
-/

namespace JavaTypes

open Action

namespace Session

variable {S T : Session} {t t' u v k r own generic base : TypeId} {n m : TypeNode} {e owner : ElementId}
  {es : List ElementId} {as bs : List TypeId} {fuel fuel' : Nat} {member : ElementId}

/-! ### How many arguments there are -/

theorem HasArguments.unique (h : T.HasArguments t as) (h' : T.HasArguments t bs) : as = bs := by
  obtain ⟨fuel, h⟩ := h
  obtain ⟨fuel', h'⟩ := h'
  exact (h.grow le_rfl (y := allTypeArguments (max fuel fuel') t)).unique (h'.grow le_rfl)

theorem hasArguments_congr (ht : T.Shows t u n) : T.HasArguments t as ↔ T.HasArguments u as := by
  refine exists_congr fun fuel => ?_
  cases fuel with
  | zero => exact .rfl
  | succ fuel =>
    exact ⟨fun h => (known_typeNode.2 ⟨u, ht.self⟩).bind ((known_typeNode.2 ⟨u, ht⟩).of_bind h),
      fun h => (known_typeNode.2 ⟨u, ht⟩).bind ((known_typeNode.2 ⟨u, ht.self⟩).of_bind h)⟩

/-- What is left of a type after its capture has as many arguments. -/
theorem Narrows.length_eq (habsent : T.Shows TypeId.none TypeId.none { shape := .noType .none })
    (h : T.Narrows t t') : ∀ {as bs : List TypeId}, T.HasArguments t as → T.HasArguments t' bs →
      as.length = bs.length := by
  induction h with
  | stays ht =>
    intro as bs ha hb
    rw [ha.unique ((hasArguments_congr ht).2 hb)]
  | @inside _ _ _ _ outer' _ _ _ _ _ h hinstance harguments _ _ ih =>
    intro as bs ha hb
    obtain ⟨n', ht', hkind', -, hargs', -, henclosing⟩ := hinstance.enclosing
    obtain ⟨as, houter, rfl⟩ := ha.around h.node h.kind
    obtain ⟨bs, houter', rfl⟩ := hb.around ht' hkind'
    have houter' : T.HasArguments outer' bs := by
      rcases henclosing with heq | ⟨heq, v, y, hv, hy⟩
      · rwa [heq] at houter'
      · rw [heq] at houter'
        rw [houter'.unique (hasArguments_of_kind habsent rfl)]
        exact hasArguments_of_kind hv (by rw [hy]; rfl)
    rw [List.length_append, List.length_append, ih ((hasArguments_congr h.around).1 houter) houter',
      harguments.length_eq, hargs']

/-- At every level `t` has an argument for every parameter of its element, as the generic type `k` has,
or it has none. -/
inductive Fits (T : Session) : TypeId → TypeId → Prop
  | outermost {t u k v : TypeId} {n m : TypeNode} (ht : T.Shows t u n)
      (hn : n.kind.isDeclaredLike = false) (hk : T.Shows k v m)
      (hm : m.kind.isDeclaredLike = false) : T.Fits t k
  | inside {t u k v : TypeId} {n m : TypeNode} {e : ElementId} {es : List ElementId}
      (ht : T.Shows t u n) (hn : n.kind = .declared) (he : Known n.elementOf T.store (some e))
      (hes : Known (typeParameters e) T.store es) (hk : T.Shows k v m) (hm : m.kind = .declared)
      (hfull : m.arguments.length = es.length)
      (hgiven : n.arguments = [] ∨ n.arguments.length = es.length)
      (houter : T.Fits n.enclosingOrNone m.enclosingOrNone) : T.Fits t k

theorem Fits.length_le (h : T.Fits t k) : ∀ {as bs : List TypeId}, T.HasArguments t as →
    T.HasArguments k bs → as.length ≤ bs.length := by
  induction h with
  | outermost ht hn hk hm =>
    intro as bs ha hb
    rw [ha.unique (hasArguments_of_kind ht hn)]
    exact Nat.zero_le _
  | inside ht hn he hes hk hm hfull hgiven _ ih =>
    intro as bs ha hb
    obtain ⟨as, has, rfl⟩ := ha.around ht hn
    obtain ⟨bs, hbs, rfl⟩ := hb.around hk hm
    rw [List.length_append, List.length_append, hfull]
    exact Nat.add_le_add (ih has hbs) (hgiven.elim (fun h => by simp [h]) fun h => h.le)

/-- A raw type has fewer arguments than there are parameters. -/
theorem Fits.length_lt (h : T.Fits t k) : ∀ {fuel : Nat} {as bs : List TypeId}, T.HasArguments t as →
    T.HasArguments k bs → Known (isRaw fuel t) T.store true → as.length < bs.length := by
  induction h with
  | outermost ht hn hk hm =>
    intro fuel as bs ha hb hraw
    cases fuel with
    | zero => cases hraw
    | succ fuel =>
      rw [known_isRaw_of_kind ht (fun h => by rw [h] at hn; cases hn)] at hraw
      cases hraw
  | inside ht hn he hes hk hm hfull hgiven houter ih =>
    intro fuel as bs ha hb hraw
    obtain ⟨as, has, rfl⟩ := ha.around ht hn
    obtain ⟨bs, hbs, rfl⟩ := hb.around hk hm
    cases fuel with
    | zero => cases hraw
    | succ fuel =>
      rw [known_isRaw_succ ht, if_pos hn, known_either] at hraw
      rw [List.length_append, List.length_append, hfull]
      rcases hraw with ⟨homits, -⟩ | ⟨-, hraw⟩
      · -- The arguments are omitted at this level.
        unfold TypeNode.omitsArguments at homits
        split at homits
        · next hempty =>
          have hsome := known_pure.1 (hes.of_bind (f := fun es => pure !es.isEmpty) (he.of_bind homits))
          rw [List.isEmpty_iff.1 hempty]
          exact Nat.add_lt_add_of_le_of_lt (houter.length_le has hbs)
            (List.length_pos_iff.2 (by simpa using hsome))
        · cases known_pure.1 homits
      · exact Nat.add_lt_add_of_lt_of_le (ih has hbs hraw)
          (hgiven.elim (fun h => by simp [h]) fun h => h.le)

/-! ### Members -/

/-- The member of an element with the generic type is seen from the completed type `u` through the
declared type `base`. -/
structure SeenThrough (T : Session) (u : TypeId) (member : ElementId) (generic base : TypeId) :
    Prop where
  declaring : ∃ fuel e owner x, Known (enclosingElement member) T.store (some e) ∧
    T.store.peekElement e = some (owner, x) ∧ x.kind.isType = true ∧
      Known (declaredTypeOf owner) T.store generic ∧ Known (outerSuperAt fuel u owner) T (some base)
  declared : Known (typeKind base) T.store .declared

/-- What a question asks first is known when it is answered, if all that can lead there comes before. -/
theorem known_of_run {α β : Type} {x : Query α} {f : α → Query β} {b : β} [Settles x x]
    (hle : ∀ W, S ≤ W → (x >>= f) W = (.ok b, T) → W ≤ T) (h : (x >>= f) S = (.ok b, T)) :
    ∃ a V, Known x T a ∧ f a V = (.ok b, T) ∧ (∀ W, V ≤ W → f a W = (.ok b, T) → W ≤ T) ∧ S ≤ V := by
  obtain ⟨a, V, ha, h⟩ := bind_eq_ok h
  have hSV : S ≤ V := le_of_ok ha
  have hlast : ∀ W, V ≤ W → f a W = (.ok b, T) → W ≤ T := fun W hW hrun =>
    hle W (hSV.trans hW) ((bind_of_ok (known_of_ok ha hW)).trans hrun)
  exact ⟨a, V, known_of_ok ha (hlast V le_rfl h), h, hlast, hSV⟩

/-- Too few arguments replace nothing. -/
theorem shows_of_substitute {vars vals : List TypeId} (hlt : vals.length < vars.length)
    (hrun : substitute { vars, vals } fuel own S = (.ok r, T)) : ∃ n, T.Shows own r n := by
  have hinactive : ({ vars, vals } : Substitution).isActive = false := by
    simp [Substitution.isActive, hlt.ne']
  cases fuel with
  | zero => cases hrun
  | succ fuel =>
    rw [substitute, hinactive] at hrun
    obtain ⟨⟨v, m⟩, V, hv, hrun⟩ := bind_eq_ok hrun
    cases hrun
    exact ⟨m, shows_of_known (known_of_ok hv le_rfl)⟩

section Raw

variable (habsent : S.Shows TypeId.none TypeId.none { shape := .noType .none })
  (hfits : T.Fits base generic) (hraw : Known (isRaw fuel' base) T.store true)
  (hgiven : T.HasArguments base as)

include habsent hfits hraw hgiven

theorem memberInDeclared_throughRaw (h : T.SeenThrough u member generic base)
    (hrun : memberInDeclared fuel member own u S = (.ok r, T)) :
    if as = [] then T.Erases own r else ∃ n, T.Shows own r n := by
  obtain ⟨ef, e, owner, y, he, howner, hy, hgeneric, hbase⟩ := h.declaring
  have hle : ∀ W, S ≤ W → memberInDeclared fuel member own u W = (.ok r, T) → W ≤ T :=
    fun _ _ h => Query.Moves.le_of_eq h
  obtain ⟨e', S₁, he', hrun, hle, hS₁⟩ := known_of_run hle hrun
  cases (known_onStore.1 he').unique he
  obtain ⟨found, S₂, hfound, hrun, hle, hS₂⟩ := known_of_run hle hrun
  cases (known_viewElement.1 (known_onStore.1 hfound)).symm.trans howner
  simp only [hy] at hrun hle
  obtain ⟨g, S₃, hg, hrun, hle, hS₃⟩ := known_of_run hle hrun
  cases (known_onStore.1 hg).unique hgeneric
  obtain ⟨vars, S₄, hvars, hrun, hle, hS₄⟩ := known_of_run hle hrun
  have hlt := hfits.length_lt hgiven ⟨fuel, known_onStore.1 hvars⟩ hraw
  simp only [List.isEmpty_eq_false_iff.2 (List.ne_nil_of_length_pos (Nat.zero_lt_of_lt hlt))] at hrun hle
  obtain ⟨found, S₅, hfound, hrun, hle, hS₅⟩ := known_of_run hle hrun
  have hbase : Known (outerSuperAt (max fuel ef) u owner) T (some base) := hbase.grow le_rfl
  cases (hfound.grow le_rfl).unique hbase
  obtain ⟨kind, S₆, hkind, hrun, hle, hS₆⟩ := known_of_run (x := onStore (typeKind base)) hle hrun
  cases (known_onStore.1 hkind).unique h.declared
  have hT := hle S₆ le_rfl hrun
  rw [if_pos rfl] at hrun
  obtain ⟨base', S₇, hcapture, hrun⟩ := bind_eq_ok hrun
  obtain ⟨vals, S₈, hvals, hrun⟩ := bind_eq_ok hrun
  obtain ⟨hS₈, hvals⟩ := completes_of_onStore (x := allTypeArguments fuel base') hvals
  have hlast : S₈ ≤ T := by
    split at hrun <;> exact le_of_ok hrun
  have habsent := habsent.mono (hS₁.trans (hS₂.trans (hS₃.trans (hS₄.trans (hS₅.trans hS₆)))))
  have hnarrows := (narrows_of_capture habsent hcapture).1.mono (hS₈.le.trans hlast)
  have hlength : as.length = vals.length :=
    hnarrows.length_eq (habsent.mono hT) hgiven ⟨fuel, known_onStore.1 (hvals T hlast)⟩
  have hempty : as = [] ↔ vals.isEmpty = true := by
    rw [List.isEmpty_iff, ← List.length_eq_zero_iff, hlength, List.length_eq_zero_iff]
  split at hrun
  · next hvals =>
    rw [if_pos (hempty.2 hvals)]
    exact ⟨fuel, known_of_ok hrun le_rfl⟩
  · next hvals =>
    rw [if_neg fun h => hvals (hempty.1 h)]
    exact shows_of_substitute (hlength ▸ hlt) hrun

/-- A member seen through a raw type is erased if the type has no arguments. If it has some, the member
has its declared type. -/
theorem memberType_throughRaw (ht : T.Shows t u n) (hn : n.kind = .declared) {x : ElementNode}
    (hx : Known (elementNode member) T.store x) (hstatic : x.hasModifier .static = false)
    (h : T.SeenThrough u member generic base) (hrun : memberType fuel t member S = (.ok r, T)) :
    if as = [] then T.Erases (x.type.getD TypeId.none) r
    else ∃ n, T.Shows (x.type.getD TypeId.none) r n := by
  have hle : ∀ W, S ≤ W → memberType fuel t member W = (.ok r, T) → W ≤ T :=
    fun _ _ h => Query.Moves.le_of_eq h
  obtain ⟨x', S₁, hx', hrun, hle, hS₁⟩ := known_of_run hle hrun
  cases (known_onStore.1 hx').unique hx
  simp only [hstatic] at hrun hle
  cases fuel with
  | zero => cases hrun
  | succ fuel =>
    obtain ⟨⟨u', n'⟩, S₂, hu, hrun, hle, hS₂⟩ := known_of_run hle hrun
    cases (shows_of_known hu).symm.trans ht
    obtain ⟨shape, annotations⟩ := n
    cases shape with
    | declared d =>
      exact memberInDeclared_throughRaw (habsent.mono (hS₁.trans hS₂)) hfits hraw hgiven h hrun
    | _ => cases hn

end Raw

/-- The classes of `innerBoxes` with one more type, `Outer<E>.Inner` at 26, that is raw in its inner part
only. -/
def partlyRaw : Session :=
  (deriveDeclared ⟨4⟩ (some ⟨23⟩) [] false innerBoxes).2

theorem fits_partlyRaw : partlyRaw.Fits ⟨26⟩ ⟨19⟩ :=
  .inside (e := ⟨4⟩) rfl rfl rfl rfl rfl rfl rfl (.inl rfl)
    (.inside (e := ⟨3⟩) rfl rfl rfl rfl rfl rfl rfl (.inr rfl) (.outermost rfl rfl rfl rfl))

/-- The variable `B`, a member of `Inner<B>`, stays as it is. -/
theorem memberType_throughRaw_partlyRaw : memberType 6 ⟨26⟩ ⟨7⟩ partlyRaw = (.ok ⟨20⟩, partlyRaw) ∧
    Known (isRaw 6 ⟨26⟩) partlyRaw.store true ∧ ∃ n, partlyRaw.Shows ⟨20⟩ ⟨20⟩ n := by
  have hrun : memberType 6 ⟨26⟩ ⟨7⟩ partlyRaw = (.ok ⟨20⟩, partlyRaw) := rfl
  have hraw : Known (isRaw 6 ⟨26⟩) partlyRaw.store true := rfl
  have hthrough : partlyRaw.SeenThrough ⟨26⟩ ⟨7⟩ ⟨19⟩ ⟨26⟩ :=
    ⟨⟨6, ⟨4⟩, ⟨4⟩, _, rfl, rfl, rfl, rfl, rfl⟩, rfl⟩
  have hmember : Known (elementNode ⟨7⟩) partlyRaw.store
      { name := some "B", type := some ⟨20⟩, enclosing := some ⟨4⟩, detail := .typeParameter } := rfl
  exact ⟨hrun, hraw, memberType_throughRaw rfl fits_partlyRaw
    hraw ⟨6, rfl⟩ rfl rfl hmember rfl hthrough hrun⟩

/-- Seen through a type that is raw in one part only, the variable is not erased to `Object`. -/
theorem memberType_ne_erasure_partlyRaw : Known (isRaw 6 ⟨26⟩) partlyRaw.store true ∧
    memberType 6 ⟨26⟩ ⟨7⟩ partlyRaw = (.ok ⟨20⟩, partlyRaw) ∧
      erasure 6 ⟨20⟩ partlyRaw = (.ok ⟨14⟩, partlyRaw) :=
  ⟨rfl, rfl, rfl⟩

end Session

end JavaTypes
