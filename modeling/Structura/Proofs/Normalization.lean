import Structura.Proofs.DisjointCases
import Structura.Proofs.LatticeCases

namespace Structura.Ty

theorem Apart.symm {t u : Ty} (h : Apart t u) : Apart u t := And.symm h

theorem exists_apart {ts : List Ty} (two : 2 ≤ ts.length) (apart : ts.Pairwise Apart) {t : Ty}
    (ht : t ∈ ts) : ∃ u ∈ ts, Apart t u := by
  obtain ⟨a, b, rest, rfl⟩ : ∃ a b rest, ts = a :: b :: rest := by
    rcases ts with _ | ⟨a, _ | ⟨b, rest⟩⟩ <;> simp_all
  rw [List.pairwise_cons] at apart
  rcases List.mem_cons.mp ht with rfl | ht
  · exact ⟨b, by simp, apart.1 b (by simp)⟩
  · exact ⟨a, by simp, (apart.1 t ht).symm⟩

theorem Apart.ne_never {t u : Ty} (h : Apart t u) : t ≠ .never := by
  rintro rfl
  simp [Apart] at h

theorem Apart.ne_unknown {t u : Ty} (h : Apart t u) : t ≠ .unknown := by
  rintro rfl
  simp [Apart] at h

theorem isAlternative_of_apart {t u : Ty} (h : Apart t u) (ht : t.isUnion = false) :
    t.isAlternative = true := by
  have hn := h.ne_never
  have hu := h.ne_unknown
  cases t <;> simp_all [isUnion, isAlternative]

namespace Canonical

theorem of_mem_branches {t b : Ty} (h : Canonical t) (hb : b ∈ t.branches) :
    Canonical b ∧ b.isUnion = false := by
  cases h with
  | union two members alternatives apart =>
      refine ⟨members b hb, ?_⟩
      have := alternatives b hb
      cases b <;> simp_all [isAlternative, isUnion]
  | never | unknown | prim | literal | object | function | inter =>
      obtain rfl : b = _ := by simpa [branches] using hb
      exact ⟨by constructor <;> assumption, rfl⟩

theorem of_mem_factors {t f : Ty} (h : Canonical t) (hf : f ∈ t.factors) :
    Canonical f ∧ f.isInter = false ∧ (t.isUnion = false → f.isUnion = false) := by
  cases h with
  | inter two members alike apart compatible =>
      have hb := (Canonical.inter two members alike apart compatible).basic hf
      refine ⟨members f hf, ?_⟩
      cases f <;> simp_all [isBasic, isInter, isUnion]
  | never | unknown | prim | literal | object | function | union =>
      obtain rfl : f = _ := by simpa [factors] using hf
      exact ⟨by constructor <;> assumption, rfl, id⟩

theorem branches_ne_nil {t : Ty} (h : Canonical t) : t.branches ≠ [] := by
  cases t with
  | union members =>
      obtain ⟨b, hb⟩ := h.exists_branch
      exact List.ne_nil_of_mem hb
  | _ => exact List.cons_ne_nil _ _

theorem factors_ne_nil {t : Ty} (h : Canonical t) : t.factors ≠ [] := by
  cases t with
  | inter members =>
      obtain ⟨f, hf⟩ := h.exists_factor
      exact List.ne_nil_of_mem hf
  | _ => exact List.cons_ne_nil _ _

end Canonical

theorem canonical_factors {ts : List Ty} (hts : ∀ t ∈ ts, Canonical t) : ∀ f ∈ ts.flatMap factors, Canonical f :=
  List.forall_mem_flatMap.mpr fun t ht _ hf => ((hts t ht).of_mem_factors hf).1

theorem exists_mostGeneral {ts : List Ty} (hts : ∀ t ∈ ts, Canonical t) {t : Ty} (ht : t ∈ ts) :
    ∃ u ∈ mostGeneral ts, isSubtype t u = true := by
  have htrans : ∀ x ∈ ts, ∀ y ∈ ts, ∀ z ∈ ts,
      isSubtype y x = true → isSubtype z y = true → isSubtype z x = true :=
    fun x hx y hy z hz hyx hzy => isSubtype_trans (hts z hz) (hts y hy) (hts x hx) hzy hyx
  obtain ⟨u, hu, rfl | htu⟩ := exists_uncovered htrans ht
  · exact ⟨u, hu, isSubtype_refl (hts u ht)⟩
  · exact ⟨u, hu, htu⟩

theorem exists_mostSpecific {ts : List Ty} (hts : ∀ t ∈ ts, Canonical t) {t : Ty} (ht : t ∈ ts) :
    ∃ u ∈ mostSpecific ts, isSubtype u t = true := by
  have htrans : ∀ x ∈ ts, ∀ y ∈ ts, ∀ z ∈ ts,
      isSubtype x y = true → isSubtype y z = true → isSubtype x z = true :=
    fun x hx y hy z hz => isSubtype_trans (hts x hx) (hts y hy) (hts z hz)
  obtain ⟨u, hu, rfl | hut⟩ := exists_uncovered htrans ht
  · exact ⟨u, hu, isSubtype_refl (hts u ht)⟩
  · exact ⟨u, hu, hut⟩

def Upward (holds : Ty → Prop) : Prop :=
  ∀ ⦃t u : Ty⦄, Canonical t → Canonical u → isSubtype t u = true → holds t → holds u

theorem Upward.holds_join {holds : Ty → Prop} (hup : Upward holds) (hnever : ¬holds .never)
    (hunion : ∀ us, holds (.union us) ↔ ∃ u ∈ us, holds u) {ts : List Ty}
    (hts : ∀ t ∈ ts, Canonical t) : holds (join ts) ↔ ∃ t ∈ ts, holds t := by
  have hbranches : ∀ b ∈ ts.flatMap branches, Canonical b :=
    List.forall_mem_flatMap.mpr fun t ht b hb => ((hts t ht).of_mem_branches hb).1
  calc holds (join ts)
      ↔ ∃ b ∈ mostGeneral (ts.flatMap branches), holds b := by
        rcases join_cases ts with ⟨hms, hj⟩ | ⟨t, hms, hj⟩ | ⟨-, hj⟩
        · simp [hms, hj, hnever]
        · simp [hms, hj]
        · rw [hj, hunion]
    _ ↔ ∃ b ∈ ts.flatMap branches, holds b := by
        refine ⟨fun ⟨b, hb, h⟩ => ⟨b, mostGeneral_subset hb, h⟩, fun ⟨b, hb, h⟩ => ?_⟩
        obtain ⟨u, hu, hbu⟩ := exists_mostGeneral hbranches hb
        exact ⟨u, hu, hup (hbranches b hb) (hbranches u (mostGeneral_subset hu)) hbu h⟩
    _ ↔ ∃ t ∈ ts, ∃ b ∈ t.branches, holds b := by
        simp only [List.mem_flatMap]
        exact ⟨fun ⟨b, ⟨t, ht, hb⟩, h⟩ => ⟨t, ht, b, hb, h⟩,
          fun ⟨t, ht, b, hb, h⟩ => ⟨b, ⟨t, ht, hb⟩, h⟩⟩
    _ ↔ ∃ t ∈ ts, holds t :=
        exists_congr fun t => and_congr_right fun _ => (iff_exists_branch holds hunion t).symm

theorem Upward.holds_meetConcrete {holds : Ty → Prop} (hup : Upward holds) (hunknown : holds .unknown)
    (hinter : ∀ us, holds (.inter us) ↔ ∀ u ∈ us, holds u) {ts : List Ty}
    (hts : ∀ t ∈ ts, Canonical t) (hclash : somePair disjoint (ts.flatMap factors) = false) :
    holds (meetConcrete ts) ↔ ∀ t ∈ ts, holds t := by
  have hfactors := canonical_factors hts
  calc holds (meetConcrete ts)
      ↔ ∀ f ∈ mostSpecific (ts.flatMap factors), holds f := by
        rcases meetConcrete_cases ts with ⟨hp, -⟩ | ⟨-, ⟨hms, hm⟩ | ⟨t, hms, hm⟩ | ⟨-, hm⟩⟩
        · rw [hclash] at hp
          contradiction
        · simp [hms, hm, hunknown]
        · simp [hms, hm]
        · rw [hm, hinter]
    _ ↔ ∀ f ∈ ts.flatMap factors, holds f := by
        refine ⟨fun h f hf => ?_, fun h f hf => h f (mostSpecific_sublist.subset hf)⟩
        obtain ⟨g, hg, hgf⟩ := exists_mostSpecific hfactors hf
        exact hup (hfactors g (mostSpecific_sublist.subset hg)) (hfactors f hf) hgf (h g hg)
    _ ↔ ∀ t ∈ ts, holds t := by
        rw [List.forall_mem_flatMap]
        exact forall₂_congr fun t _ => (iff_forall_factor holds hinter t).symm

theorem canonical_join {ts : List Ty} (h : ∀ t ∈ ts, Canonical t) : Canonical (join ts) := by
  have hmem : ∀ b ∈ mostGeneral (ts.flatMap branches), Canonical b ∧ b.isUnion = false := by
    intro b hb
    obtain ⟨t, ht, hb⟩ := List.mem_flatMap.mp (mostGeneral_subset hb)
    exact (h t ht).of_mem_branches hb
  rcases join_cases ts with ⟨-, hj⟩ | ⟨t, hms, hj⟩ | ⟨two, hj⟩
  · exact hj ▸ .never
  · exact hj ▸ (hmem t (by simp [hms])).1
  · have hapart : (mostGeneral (ts.flatMap branches)).Pairwise Apart :=
      uncovered_pairwise.imp And.symm
    rw [hj]
    refine .union two (fun t ht => (hmem t ht).1) (fun t ht => ?_) hapart
    obtain ⟨u, -, hu⟩ := exists_apart two hapart ht
    exact isAlternative_of_apart hu (hmem t ht).2

/-- Two basic types of which neither is redundant can only have a common value when both are objects
or both are functions. -/
theorem alike_of_apart {t u : Ty} (ht : t.isBasic = true) (hu : u.isBasic = true) (h : Apart t u)
    (hd : disjoint t u = false) :
    (t.isObject = true ∧ u.isObject = true) ∨ (t.isFunction = true ∧ u.isFunction = true) := by
  have hclash : ¬BasicClash t u := fun hc => by simp [(disjoint_basic ht hu).mpr hc] at hd
  have hbelow : ¬BasicBelow t u := fun hb => by simp [Apart, (isSubtype_basic ht hu).mpr hb] at h
  have habove : ¬BasicBelow u t := fun hb => by simp [Apart, (isSubtype_basic hu ht).mpr hb] at h
  cases t <;> cases u <;> simp only [isBasic, Bool.false_eq_true] at ht hu
  case object.object => exact Or.inl ⟨rfl, rfl⟩
  case function.function => exact Or.inr ⟨rfl, rfl⟩
  case prim.prim p q => exact absurd (.prims fun he => hbelow (he ▸ .prim p)) hclash
  case prim.literal p w => exact absurd (.primLiteral fun he => habove (he ▸ .base w)) hclash
  case literal.prim v q => exact absurd (.literalPrim fun he => hbelow (he ▸ .base v)) hclash
  case literal.literal v w =>
    exact absurd (.literals (Bool.eq_false_iff.mpr fun hs => hbelow (.literal hs))) hclash
  all_goals exact absurd (.kinds (by simp [isObject, isFunction])) hclash

theorem alike_of_pairwise {ts : List Ty} (two : 2 ≤ ts.length)
    (basic : ∀ t ∈ ts, t.isBasic = true) (apart : ts.Pairwise Apart)
    (compatible : ts.Pairwise fun t u => disjoint t u = false) :
    (∀ t ∈ ts, t.isObject = true) ∨ ∀ t ∈ ts, t.isFunction = true := by
  obtain ⟨a, b, rest, rfl⟩ : ∃ a b rest, ts = a :: b :: rest := by
    rcases ts with _ | ⟨a, _ | ⟨b, rest⟩⟩ <;> simp_all
  rw [List.pairwise_cons] at apart compatible
  have halike (t : Ty) (ht : t ∈ b :: rest) :=
    alike_of_apart (basic a (by simp)) (basic t (List.mem_cons_of_mem a ht)) (apart.1 t ht)
      (compatible.1 t ht)
  rcases halike b (by simp) with ⟨ha, -⟩ | ⟨ha, -⟩
  · refine Or.inl (List.forall_mem_cons.mpr ⟨ha, fun t ht => ?_⟩)
    rcases halike t ht with ⟨-, h⟩ | ⟨h, -⟩
    · exact h
    · cases a <;> simp [isObject, isFunction] at ha h
  · refine Or.inr (List.forall_mem_cons.mpr ⟨ha, fun t ht => ?_⟩)
    rcases halike t ht with ⟨h, -⟩ | ⟨-, h⟩
    · cases a <;> simp [isObject, isFunction] at ha h
    · exact h

theorem canonical_meetConcrete {ts : List Ty} (h : ∀ t ∈ ts, Canonical t ∧ t.isUnion = false) :
    Canonical (meetConcrete ts) := by
  have hmem : ∀ f ∈ ts.flatMap factors,
      Canonical f ∧ f.isInter = false ∧ f.isUnion = false := by
    intro f hf
    obtain ⟨t, ht, hf⟩ := List.mem_flatMap.mp hf
    obtain ⟨hc, hi, hu⟩ := (h t ht).1.of_mem_factors hf
    exact ⟨hc, hi, hu (h t ht).2⟩
  rcases meetConcrete_cases ts with ⟨-, hm⟩ | ⟨hpair, ⟨-, hm⟩ | ⟨t, hms, hm⟩ | ⟨two, hm⟩⟩
  · exact hm ▸ .never
  · exact hm ▸ .unknown
  · exact hm ▸ (hmem t (mostSpecific_sublist.subset (by simp [hms]))).1
  · have hsub : (mostSpecific (ts.flatMap factors)).Sublist (ts.flatMap factors) :=
      mostSpecific_sublist
    have hapart : (mostSpecific (ts.flatMap factors)).Pairwise Apart := uncovered_pairwise
    have hdisj := (somePair_eq_false.mp hpair).sublist hsub
    have hbasic : ∀ t ∈ mostSpecific (ts.flatMap factors), t.isBasic = true := by
      intro t ht
      obtain ⟨-, hi, hu⟩ := hmem t (hsub.subset ht)
      obtain ⟨u, -, hapt⟩ := exists_apart two hapart ht
      rcases alternative_shape (isAlternative_of_apart hapt hu) with ⟨us, rfl⟩ | hb
      · simp [isInter] at hi
      · exact hb
    rw [hm]
    refine .inter two (fun t ht => (hmem t (hsub.subset ht)).1)
      (alike_of_pairwise two hbasic hapart hdisj) hapart ?_
    exact hdisj.imp_of_mem fun ht hu hd =>
      compatible_of_disjoint_eq_false (hmem _ (hsub.subset ht)).1 (hmem _ (hsub.subset hu)).1 hd

/-- The types that are met in one choice of alternatives. -/
theorem canonical_of_mem_choice {ts c : List Ty} (h : ∀ t ∈ ts, Canonical t)
    (hc : c ∈ choices ((ts.flatMap factors).map branches)) :
    ∀ b ∈ c, Canonical b ∧ b.isUnion = false := by
  intro b hb
  obtain ⟨l, hl, hbl⟩ := exists_of_mem_choices hc hb
  obtain ⟨f, hf, rfl⟩ := List.mem_map.mp hl
  obtain ⟨t, ht, hft⟩ := List.mem_flatMap.mp hf
  exact ((h t ht).of_mem_factors hft).1.of_mem_branches hbl

theorem canonical_meet {ts : List Ty} (h : ∀ t ∈ ts, Canonical t) : Canonical (meet ts) := by
  rcases meet_cases ts with ⟨-, hm⟩ | ⟨-, hm⟩
  · exact hm ▸ .unknown
  · rw [hm]
    exact canonical_join (List.forall_mem_map.mpr fun c hc =>
      canonical_meetConcrete (canonical_of_mem_choice h hc))

/-- The types that the constructors can build. Object types have distinct names; unions and
intersections only come from `join` and `meet`. -/
inductive Reachable : Ty → Prop
  | never : Reachable .never
  | unknown : Reachable .unknown
  | prim (p : Primitive) : Reachable (.prim p)
  | literal (v : Literal) : Reachable (.literal v)
  | object {ps : List (String × Ty)} (names : (ps.map Prod.fst).Nodup)
      (types : ∀ p ∈ ps, Reachable p.2) : Reachable (.object ps)
  | function {ps : List Ty} {r : Ty} (params : ∀ p ∈ ps, Reachable p) (result : Reachable r) :
      Reachable (.function ps r)
  | join {ts : List Ty} (types : ∀ t ∈ ts, Reachable t) : Reachable (join ts)
  | meet {ts : List Ty} (types : ∀ t ∈ ts, Reachable t) : Reachable (meet ts)

theorem join_eq_union {ts : List Ty} (h : Canonical (.union ts)) : join ts = .union ts := by
  cases h with
  | union two members alternatives apart =>
      have hflat : ts.flatMap branches = ts := flatMap_branches fun t ht => by
        have := alternatives t ht
        cases t <;> simp_all [isAlternative, isUnion]
      have hgen : mostGeneral (ts.flatMap branches) = ts := by
        rw [hflat]
        exact uncovered_eq_self (apart.imp And.symm)
      rcases join_cases ts with ⟨hms, -⟩ | ⟨t, hms, -⟩ | ⟨-, hj⟩
      · simp [hgen.symm.trans hms] at two
      · simp [hgen.symm.trans hms] at two
      · rw [hj, hgen]

theorem join_singleton {t : Ty} (h : t.isUnion = false) : join [t] = t := by
  have hgen : mostGeneral ([t].flatMap branches) = [t] := by
    rw [List.flatMap_cons, branches_of_not_isUnion h]
    exact uncovered_eq_self (List.pairwise_singleton _ _)
  rcases join_cases [t] with ⟨hms, -⟩ | ⟨u, hms, hj⟩ | ⟨two, -⟩
  · cases hgen.symm.trans hms
  · rw [hj, ← List.singleton_inj, ← hms, hgen]
  · rw [hgen] at two
    contradiction

theorem join_eq_self {t : Ty} (h : Canonical t) : join [t] = t := by
  cases t with
  | union members =>
      have hnotUnion : ∀ b ∈ members, b.isUnion = false := fun _ hb => (h.of_mem_branches hb).2
      have hflat : [union members].flatMap branches = members.flatMap branches := by
        rw [flatMap_branches hnotUnion]
        simp [branches]
      calc join [.union members]
          = join members := by rw [join, join, hflat]
        _ = .union members := join_eq_union h
  | _ => exact join_singleton rfl

theorem Canonical.not_isInter_isUnion {ts : List Ty} (h : Canonical (.inter ts)) :
    ∀ t ∈ ts, t.isInter = false ∧ t.isUnion = false := by
  intro t ht
  have hbasic := h.basic ht
  cases t with
  | union | inter => cases hbasic
  | _ => exact ⟨rfl, rfl⟩

theorem meet_eq_inter {ts : List Ty} (h : Canonical (.inter ts)) : meet ts = .inter ts := by
  have hbasic := h.not_isInter_isUnion
  have hflat : ts.flatMap factors = ts := flatMap_factors fun t ht => (hbasic t ht).1
  cases h with
  | inter two members alike apart compatible =>
      have hspec : mostSpecific (ts.flatMap factors) = ts := by
        rw [hflat]
        exact uncovered_eq_self apart
      have hone : choices ((ts.flatMap factors).map branches) = [ts] := by
        rw [hflat, List.map_congr_left fun t ht => branches_of_not_isUnion (hbasic t ht).2]
        exact choices_singletons ts
      have hmc : meetConcrete ts = .inter ts := by
        rcases meetConcrete_cases ts with ⟨hp, -⟩ | ⟨-, ⟨hms, -⟩ | ⟨t, hms, -⟩ | ⟨-, hm⟩⟩
        · rw [hflat, somePair_eq_false.mpr (compatible.imp And.left)] at hp
          contradiction
        · simp [hspec.symm.trans hms] at two
        · simp [hspec.symm.trans hms] at two
        · rw [hm, hspec]
      rcases meet_cases ts with ⟨hnil, -⟩ | ⟨-, hm⟩
      · simp [hflat.symm.trans hnil] at two
      · rw [hm, hone, List.map_singleton, hmc, join_singleton rfl]

/-- The canonical form is what the constructors reach, neither more nor less. -/
theorem reachable_iff_canonical {t : Ty} : Reachable t ↔ Canonical t := by
  constructor
  · intro h
    induction h with
    | never => exact .never
    | unknown => exact .unknown
    | prim p => exact .prim p
    | literal v => exact .literal v
    | object names _ ih => exact .object names ih
    | function _ _ ihp ihr => exact .function ihp ihr
    | join _ ih => exact canonical_join ih
    | meet _ ih => exact canonical_meet ih
  · intro h
    induction h with
    | never => exact .never
    | unknown => exact .unknown
    | prim p => exact .prim p
    | literal v => exact .literal v
    | object names _ ih => exact .object names ih
    | function _ _ ihp ihr => exact .function ihp ihr
    | union two members alternatives apart ih =>
        exact join_eq_union (.union two members alternatives apart) ▸ .join ih
    | inter two members alike apart compatible ih =>
        exact meet_eq_inter (.inter two members alike apart compatible) ▸ .meet ih

theorem canonical_of_reachable {ts : List Ty} (hts : ∀ t ∈ ts, Reachable t) :
    ∀ t ∈ ts, Canonical t :=
  fun t ht => reachable_iff_canonical.mp (hts t ht)

end Structura.Ty
