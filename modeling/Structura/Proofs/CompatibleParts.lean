import Mathlib.Data.List.Perm.Basic
import Structura.Proofs.DisjointSubtypes
import Structura.Proofs.LeastUpperBound

/-!
What is below an intersection. A concrete type is below it if the operands have parts above the
concrete type, one part of each, and no two of the parts clash. It is not enough to be below every
operand: a type with a property of type `never` is below operands that clash in this property.
-/

namespace Structura.Ty

variable {c t : Ty} {ts us : List Ty}

theorem compatible_unknown (ht : t ≠ .never) : Compatible .unknown t :=
  ⟨disjoint_unknown_left ht, disjoint_unknown_right ht⟩

namespace Concrete

theorem of_mem_factors {f : Ty} (ht : Concrete t) (hf : f ∈ t.factors) : Concrete f := by
  obtain ⟨hcanonical, -, hunion⟩ := ht.canonical.of_mem_factors hf
  refine ⟨hcanonical, ?_, hunion ht.not_union⟩
  rintro rfl
  cases t with
  | inter members => cases ht.canonical.basic hf
  | _ => exact ht.ne_never (List.mem_singleton.mp hf).symm

theorem disjoint_iff_factors (hc : Concrete c) (ht : Concrete t) :
    disjoint t c = true ↔ ∃ f ∈ t.factors, disjoint f c = true := by
  cases t with
  | inter members =>
      by_cases hu : c = .unknown
      · subst hu
        refine iff_of_false (by simp [disjoint_unknown_right]) ?_
        rintro ⟨f, hf, hd⟩
        rw [disjoint_unknown_right (ht.of_mem_factors hf).ne_never] at hd
        contradiction
      · apply disjoint_inter_left
        rcases c.shape with rfl | rfl | ⟨us, rfl⟩ | halt
        · exact absurd rfl hc.ne_never
        · contradiction
        · cases hc.not_union
        · exact halt
  | _ => simp [factors]

theorem compatible_iff_factors (hc : Concrete c) (ht : Concrete t) :
    Compatible t c ↔ ∀ f ∈ t.factors, Compatible f c := by
  constructor
  · intro h f hf
    refine compatible_of_disjoint_eq_false (ht.of_mem_factors hf).canonical hc.canonical
      (Bool.eq_false_iff.mpr fun hd => ?_)
    have := (hc.disjoint_iff_factors ht).mpr ⟨f, hf, hd⟩
    simp [h.1] at this
  · intro h
    refine compatible_of_disjoint_eq_false ht.canonical hc.canonical
      (Bool.eq_false_iff.mpr fun hd => ?_)
    obtain ⟨f, hf, hfc⟩ := (hc.disjoint_iff_factors ht).mp hd
    simp [(h f hf).1] at hfc

theorem factors_compatible (ht : Concrete t) : t.factors.Pairwise Compatible := by
  cases t with
  | inter members =>
      cases ht.canonical with
      | inter _ _ _ _ compatible => exact compatible
  | _ => exact List.pairwise_singleton _ _

end Concrete

theorem concrete_of_mem_flatMap_factors (hts : ∀ t ∈ ts, Concrete t) :
    ∀ f ∈ ts.flatMap factors, Concrete f :=
  List.forall_mem_flatMap.mpr fun t ht _ hf => (hts t ht).of_mem_factors hf

theorem pairwise_compatible_iff (hts : ∀ t ∈ ts, Concrete t) :
    somePair disjoint (ts.flatMap factors) = false ↔ ts.Pairwise Compatible := by
  have hfactors := concrete_of_mem_flatMap_factors hts
  have hcompatible : somePair disjoint (ts.flatMap factors) = false ↔
      (ts.flatMap factors).Pairwise Compatible := by
    rw [somePair_eq_false]
    refine ⟨fun h => h.imp_of_mem fun hf hg hd => ?_, fun h => h.imp And.left⟩
    exact compatible_of_disjoint_eq_false (hfactors _ hf).canonical (hfactors _ hg).canonical hd
  rw [hcompatible, List.pairwise_flatMap]
  -- The factors of one operand are compatible anyway; those of two operands are split one side at a
  -- time.
  constructor
  · rintro ⟨-, h⟩
    refine h.imp_of_mem fun {t u} ht hu htu => ?_
    refine ((hts u hu).compatible_iff_factors (hts t ht)).mpr fun f hf => ?_
    refine (((hts t ht).of_mem_factors hf).compatible_iff_factors (hts u hu)).mpr ?_ |>.symm
    exact fun g hg => (htu f hf g hg).symm
  · intro h
    refine ⟨fun t ht => (hts t ht).factors_compatible, h.imp_of_mem fun {t u} ht hu htu => ?_⟩
    intro f hf g hg
    have hfu := ((hts u hu).compatible_iff_factors (hts t ht)).mp htu f hf
    exact ((((hts t ht).of_mem_factors hf).compatible_iff_factors (hts u hu)).mp hfu.symm g hg).symm

section Concretes

variable (hts : ∀ t ∈ ts, Concrete t) (hcompatible : ts.Pairwise Compatible)
include hts hcompatible

theorem meetConcrete_of_compatible :
    (mostSpecific (ts.flatMap factors) = [] ∧ meetConcrete ts = .unknown) ∨
    (∃ t, mostSpecific (ts.flatMap factors) = [t] ∧ meetConcrete ts = t) ∨
    meetConcrete ts = .inter (mostSpecific (ts.flatMap factors)) := by
  rcases meetConcrete_cases ts with ⟨hclash, -⟩ | ⟨-, h | h | ⟨-, h⟩⟩
  · rw [(pairwise_compatible_iff hts).mpr hcompatible] at hclash
    contradiction
  · exact Or.inl h
  · exact Or.inr (Or.inl h)
  · exact Or.inr (Or.inr h)

theorem mem_factors_meetConcrete {f : Ty} (hf : f ∈ (meetConcrete ts).factors) :
    f = .unknown ∨ f ∈ ts.flatMap factors := by
  rcases meetConcrete_of_compatible hts hcompatible with ⟨-, h⟩ | ⟨t, hms, h⟩ | h
  · rw [h] at hf
    exact Or.inl (List.mem_singleton.mp hf)
  · have ht : t ∈ ts.flatMap factors := mostSpecific_sublist.subset (by simp [hms])
    obtain ⟨u, hu, htu⟩ := List.mem_flatMap.mp ht
    rw [h, factors_of_not_isInter ((hts u hu).canonical.of_mem_factors htu).2.1] at hf
    exact Or.inr (List.mem_singleton.mp hf ▸ ht)
  · rw [h] at hf
    exact Or.inr (mostSpecific_sublist.subset hf)

theorem concrete_meetConcrete : Concrete (meetConcrete ts) := by
  have hcanonical : Canonical (meetConcrete ts) :=
    canonical_meetConcrete fun t ht => ⟨(hts t ht).canonical, (hts t ht).not_union⟩
  rcases meetConcrete_of_compatible hts hcompatible with ⟨-, h⟩ | ⟨t, hms, h⟩ | h
  · exact h ▸ ⟨.unknown, by simp, rfl⟩
  · have ht : t ∈ ts.flatMap factors := mostSpecific_sublist.subset (by simp [hms])
    exact h ▸ concrete_of_mem_flatMap_factors hts t ht
  · rw [h] at hcanonical ⊢
    exact ⟨hcanonical, by simp, rfl⟩

theorem isSubtype_meetConcrete (hc : Canonical c) :
    isSubtype c (meetConcrete ts) = true ↔ ∀ t ∈ ts, isSubtype c t = true :=
  (upward_isSubtype hc).holds_meetConcrete (isSubtype_unknown_right c)
    (fun _ => isSubtype_inter_right) (fun t ht => (hts t ht).canonical)
    ((pairwise_compatible_iff hts).mpr hcompatible)

/-- Nothing clashes with the intersection that does not clash with one of its operands. -/
theorem compatible_meetConcrete (hc : Concrete c) (h : ∀ t ∈ ts, Compatible t c) :
    Compatible (meetConcrete ts) c := by
  refine (hc.compatible_iff_factors (concrete_meetConcrete hts hcompatible)).mpr fun f hf => ?_
  rcases mem_factors_meetConcrete hts hcompatible hf with rfl | hf
  · exact compatible_unknown hc.ne_never
  · obtain ⟨t, ht, hft⟩ := List.mem_flatMap.mp hf
    exact (hc.compatible_iff_factors (hts t ht)).mp (h t ht) f hft

end Concretes

theorem meetConcrete_eq_never (hts : ∀ t ∈ ts, Canonical t ∧ t.isUnion = false)
    (hnever : .never ∈ ts) : meetConcrete ts = .never := by
  have hfactors := canonical_factors fun t ht => (hts t ht).1
  have hmem : Ty.never ∈ ts.flatMap factors :=
    List.mem_flatMap.mpr ⟨.never, hnever, List.mem_singleton_self _⟩
  obtain ⟨f, hf, hle⟩ := exists_mostSpecific hfactors hmem
  obtain rfl := eq_never_of_isSubtype (hfactors f (mostSpecific_sublist.subset hf)) hle
  rcases meetConcrete_cases ts with ⟨-, h⟩ | ⟨-, ⟨hms, -⟩ | ⟨t, hms, h⟩ | ⟨-, h⟩⟩
  · exact h
  · simp [hms] at hf
  · rw [hms, List.mem_singleton] at hf
    rw [h, hf]
  · have hcanonical := canonical_meetConcrete hts
    rw [h] at hcanonical
    cases hcanonical.basic hf

theorem compatible_of_isSubtype_meetConcrete (hc : Concrete c)
    (hts : ∀ t ∈ ts, Canonical t ∧ t.isUnion = false)
    (h : isSubtype c (meetConcrete ts) = true) :
    (∀ t ∈ ts, Concrete t) ∧ ts.Pairwise Compatible := by
  have hne : meetConcrete ts ≠ .never := by
    intro hnever
    rw [hnever, hc.not_isSubtype_never] at h
    contradiction
  have hconcrete : ∀ t ∈ ts, Concrete t := by
    intro t ht
    refine ⟨(hts t ht).1, ?_, (hts t ht).2⟩
    rintro rfl
    exact hne (meetConcrete_eq_never hts ht)
  refine ⟨hconcrete, (pairwise_compatible_iff hconcrete).mp ?_⟩
  rcases meetConcrete_cases ts with ⟨-, hnever⟩ | ⟨hclash, -⟩
  · contradiction
  · exact hclash

structure Parts (ds ts : List Ty) : Prop where
  concrete : ∀ d ∈ ds, Concrete d
  below : List.Forall₂ (fun d t => isSubtype d t = true) ds ts
  compatible : ds.Pairwise Compatible

def BelowParts (c : Ty) (ts : List Ty) : Prop :=
  ∃ ds, Parts ds ts ∧ ∀ d ∈ ds, isSubtype c d = true

theorem pairwise_compatible_of_le {ds es : List Ty} (hds : ∀ d ∈ ds, Concrete d)
    (hes : ∀ e ∈ es, Concrete e) (hle : List.Forall₂ (fun d e => isSubtype d e = true) ds es)
    (hcompatible : ds.Pairwise Compatible) : es.Pairwise Compatible := by
  induction hle with
  | nil => exact .nil
  | cons hde hle ih =>
      rw [List.forall_mem_cons] at hds hes
      rw [List.pairwise_cons] at hcompatible ⊢
      refine ⟨fun e' he' => ?_, ih hds.2 hes.2 hcompatible.2⟩
      obtain ⟨d', hd', hle'⟩ := exists_of_forall₂ hle he'
      exact Compatible.mono hds.1.canonical hes.1.canonical (hds.2 d' hd').canonical
        (hes.2 e' he').canonical hde hle' (hcompatible.1 d' hd')

theorem exists_branches_above {ds : List Ty} (hts : ∀ t ∈ ts, Canonical t)
    (hds : ∀ d ∈ ds, Concrete d) (hle : List.Forall₂ (fun d t => isSubtype d t = true) ds ts) :
    ∃ bs, (∀ b ∈ bs, Concrete b) ∧ List.Forall₂ (fun b t => b ∈ t.branches) bs ts ∧
      List.Forall₂ (fun d b => isSubtype d b = true) ds bs := by
  induction hle with
  | nil => exact ⟨[], List.forall_mem_nil _, .nil, .nil⟩
  | @cons d t ds ts hdt _ ih =>
      rw [List.forall_mem_cons] at hts hds
      obtain ⟨bs, hbs, hbranches, habove⟩ := ih hts.2 hds.2
      obtain ⟨b, hb, hdb⟩ := hds.1.exists_branch.mp hdt
      have hn : t ≠ .never := by
        rintro rfl
        rw [hds.1.not_isSubtype_never] at hdt
        contradiction
      exact ⟨b :: bs, List.forall_mem_cons.mpr ⟨.of_mem_branches hts.1 hn hb, hbs⟩,
        .cons hb hbranches, .cons hdb habove⟩

/-- The alternatives that the intersection combines serve as parts as well as any. -/
theorem belowParts_iff_choice (hc : Concrete c) (hts : ∀ t ∈ ts, Canonical t) :
    BelowParts c ts ↔ ∃ bs ∈ choices (ts.map branches), isSubtype c (meetConcrete bs) = true := by
  constructor
  · rintro ⟨ds, hds, hcds⟩
    obtain ⟨bs, hbs, hbranches, habove⟩ := exists_branches_above hts hds.concrete hds.below
    refine ⟨bs, mem_choices.mpr (List.forall₂_map_right_iff.mpr hbranches), ?_⟩
    have hcompatible := pairwise_compatible_of_le hds.concrete hbs habove hds.compatible
    refine (isSubtype_meetConcrete hbs hcompatible hc.canonical).mpr fun b hb => ?_
    obtain ⟨d, hd, hdb⟩ := exists_of_forall₂ habove hb
    exact isSubtype_trans hc.canonical (hds.concrete d hd).canonical (hbs b hb).canonical
      (hcds d hd) hdb
  · rintro ⟨bs, hbs, hcb⟩
    have hbranches : List.Forall₂ (fun b t => b ∈ t.branches) bs ts :=
      List.forall₂_map_right_iff.mp (mem_choices.mp hbs)
    have hcanonical : ∀ b ∈ bs, Canonical b ∧ b.isUnion = false := by
      intro b hb
      obtain ⟨l, hl, hbl⟩ := exists_of_mem_choices hbs hb
      obtain ⟨t, ht, rfl⟩ := List.mem_map.mp hl
      exact (hts t ht).of_mem_branches hbl
    obtain ⟨hconcrete, hcompatible⟩ := compatible_of_isSubtype_meetConcrete hc hcanonical hcb
    refine ⟨bs, ⟨hconcrete, ?_, hcompatible⟩,
      (isSubtype_meetConcrete hconcrete hcompatible hc.canonical).mp hcb⟩
    have hboth := (List.forall₂_and_left bs ts).mpr ⟨hconcrete, hbranches⟩
    exact hboth.imp fun b t ⟨hb, hbt⟩ => hb.below_of_mem_branches hbt

theorem BelowParts.perm (h : BelowParts c ts) (hperm : ts.Perm us) : BelowParts c us := by
  obtain ⟨ds, hds, hcds⟩ := h
  have hcomp : Relation.Comp (List.Forall₂ fun d t => isSubtype d t = true) List.Perm ds us :=
    ⟨ts, hds.below, hperm⟩
  rw [List.forall₂_comp_perm_eq_perm_comp_forall₂] at hcomp
  obtain ⟨es, hde, hes⟩ := hcomp
  refine ⟨es, ⟨fun e he => hds.concrete e (hde.mem_iff.mpr he), hes, ?_⟩,
    fun e he => hcds e (hde.mem_iff.mpr he)⟩
  exact hde.pairwise hds.compatible Compatible.symm

theorem belowParts_perm (hperm : ts.Perm us) : BelowParts c ts ↔ BelowParts c us :=
  ⟨fun h => h.perm hperm, fun h => h.perm hperm.symm⟩

/-- An operand may be replaced by others that describe the same concrete types together. -/
theorem belowParts_replace {ys zs : List Ty} (hc : Concrete c)
    (ht : ∀ d, Concrete d → (isSubtype d t = true ↔ BelowParts d ys)) :
    BelowParts c (t :: zs) ↔ BelowParts c (ys ++ zs) := by
  constructor
  · rintro ⟨_, ⟨hconcrete, hbelow, hcompatible⟩, hcds⟩
    obtain ⟨d, es, hdt, hes, rfl⟩ := List.forall₂_cons_right_iff.mp hbelow
    rw [List.forall_mem_cons] at hconcrete hcds
    rw [List.pairwise_cons] at hcompatible
    obtain ⟨ps, hps, hdps⟩ := (ht d hconcrete.1).mp hdt
    refine ⟨ps ++ es, ⟨List.forall_mem_append.mpr ⟨hps.concrete, hconcrete.2⟩,
      List.rel_append hps.below hes, ?_⟩, List.forall_mem_append.mpr ⟨fun p hp => ?_, hcds.2⟩⟩
    · refine List.pairwise_append.mpr ⟨hps.compatible, hcompatible.2, fun p hp e he => ?_⟩
      have hcanonical := (hconcrete.2 e he).canonical
      exact Compatible.mono hconcrete.1.canonical (hps.concrete p hp).canonical hcanonical hcanonical
        (hdps p hp) (isSubtype_refl hcanonical) (hcompatible.1 e he)
    · exact isSubtype_trans hc.canonical hconcrete.1.canonical (hps.concrete p hp).canonical
        hcds.1 (hdps p hp)
  · rintro ⟨ds, ⟨hconcrete, hbelow, hcompatible⟩, hcds⟩
    obtain ⟨ps, es, hps, hes, rfl⟩ : ∃ ps es, List.Forall₂ (fun d t => isSubtype d t = true) ps ys ∧
        List.Forall₂ (fun d t => isSubtype d t = true) es zs ∧ ds = ps ++ es :=
      ⟨_, _, List.forall₂_take_append ds ys zs hbelow, List.forall₂_drop_append ds ys zs hbelow,
        (List.take_append_drop _ ds).symm⟩
    obtain ⟨hconps, hcones⟩ := List.forall_mem_append.mp hconcrete
    obtain ⟨hcps, hces⟩ := List.forall_mem_append.mp hcds
    obtain ⟨hcomps, hcomes, hcross⟩ := List.pairwise_append.mp hcompatible
    -- The parts of the others have an intersection, which is then the part of the operand.
    have hmeet := concrete_meetConcrete hconps hcomps
    refine ⟨meetConcrete ps :: es, ⟨List.forall_mem_cons.mpr ⟨hmeet, hcones⟩, .cons ?_ hes,
      List.pairwise_cons.mpr ⟨fun e he => ?_, hcomes⟩⟩, List.forall_mem_cons.mpr ⟨?_, hces⟩⟩
    · exact (ht _ hmeet).mpr ⟨ps, ⟨hconps, hps, hcomps⟩,
        (isSubtype_meetConcrete hconps hcomps hmeet.canonical).mp (isSubtype_refl hmeet.canonical)⟩
    · exact compatible_meetConcrete hconps hcomps (hcones e he) fun p hp => hcross p hp e he
    · exact (isSubtype_meetConcrete hconps hcomps hc.canonical).mpr hcps

theorem belowParts_flatMap {α : Type} {f : α → Ty} {g : α → List Ty} {as : List α}
    (hc : Concrete c)
    (h : ∀ a ∈ as, ∀ d, Concrete d → (isSubtype d (f a) = true ↔ BelowParts d (g a)))
    (zs : List Ty) : BelowParts c (as.map f ++ zs) ↔ BelowParts c (as.flatMap g ++ zs) := by
  induction as generalizing zs with
  | nil => rfl
  | cons a as ih =>
      rw [List.forall_mem_cons] at h
      calc BelowParts c (f a :: (as.map f ++ zs))
          ↔ BelowParts c (as.map f ++ f a :: zs) := belowParts_perm List.perm_middle.symm
        _ ↔ BelowParts c (as.flatMap g ++ f a :: zs) := ih h.2 (f a :: zs)
        _ ↔ BelowParts c (f a :: (as.flatMap g ++ zs)) := belowParts_perm List.perm_middle
        _ ↔ BelowParts c (g a ++ (as.flatMap g ++ zs)) := belowParts_replace hc h.1
        _ ↔ BelowParts c ((a :: as).flatMap g ++ zs) := by
            rw [List.flatMap_cons, List.append_assoc]

theorem BelowParts.isSubtype (hc : Concrete c) (hts : ∀ t ∈ ts, Canonical t) (h : BelowParts c ts) :
    ∀ t ∈ ts, isSubtype c t = true := by
  obtain ⟨ds, hds, hcds⟩ := h
  intro t ht
  obtain ⟨d, hd, hdt⟩ := exists_of_forall₂ hds.below ht
  exact isSubtype_trans hc.canonical (hds.concrete d hd).canonical (hts t ht) (hcds d hd) hdt

theorem belowParts_nil (c : Ty) : BelowParts c [] :=
  ⟨[], ⟨List.forall_mem_nil _, .nil, .nil⟩, List.forall_mem_nil _⟩

theorem belowParts_singleton (hc : Concrete c) (ht : Canonical t) :
    isSubtype c t = true ↔ BelowParts c [t] := by
  constructor
  · intro h
    refine ⟨[c], ⟨List.forall_mem_singleton.mpr hc, .cons h .nil, List.pairwise_singleton _ _⟩, ?_⟩
    exact List.forall_mem_singleton.mpr (isSubtype_refl hc.canonical)
  · intro h
    exact h.isSubtype hc (List.forall_mem_singleton.mpr ht) t (List.mem_singleton_self t)

theorem belowParts_factors (hc : Concrete c) (ht : Canonical t) :
    isSubtype c t = true ↔ BelowParts c t.factors := by
  cases t with
  | inter members =>
      have hinter : Concrete (.inter members) := ⟨ht, by simp, rfl⟩
      constructor
      · intro h
        refine ⟨members, ⟨fun m hm => hinter.of_mem_factors hm, ?_, hinter.factors_compatible⟩,
          isSubtype_inter_right.mp h⟩
        exact List.forall₂_same.mpr fun m hm => isSubtype_refl (ht.factor hm)
      · intro h
        exact isSubtype_inter_right.mpr (h.isSubtype hc fun m hm => ht.factor hm)
  | _ => exact belowParts_singleton hc ht

/-- What is concrete lies below an intersection if it lies below compatible parts of the operands. -/
theorem Concrete.isSubtype_meet (hc : Concrete c) (hts : ∀ t ∈ ts, Canonical t) :
    isSubtype c (meet ts) = true ↔ BelowParts c ts := by
  have hfactors := canonical_factors hts
  have hmeets : ∀ t ∈ (choices ((ts.flatMap factors).map branches)).map meetConcrete, Canonical t :=
    List.forall_mem_map.mpr fun bs hbs => canonical_meetConcrete (canonical_of_mem_choice hts hbs)
  calc isSubtype c (meet ts) = true
      ↔ BelowParts c (ts.flatMap factors) := by
        rcases meet_cases ts with ⟨hnil, hm⟩ | ⟨-, hm⟩
        · rw [hm, hnil]
          exact iff_of_true (isSubtype_unknown_right c) (belowParts_nil c)
        · rw [hm, hc.isSubtype_join hmeets, belowParts_iff_choice hc hfactors]
          simp only [List.mem_map, exists_exists_and_eq_and]
    _ ↔ BelowParts c ts := by
        have h : BelowParts c (ts.map id ++ []) ↔ BelowParts c (ts.flatMap factors ++ []) :=
          belowParts_flatMap hc (fun t ht d hd => belowParts_factors hd (hts t ht)) []
        simpa only [List.map_id, List.append_nil] using h.symm

end Structura.Ty
