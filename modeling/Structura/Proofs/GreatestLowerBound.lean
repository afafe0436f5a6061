import Structura.Proofs.RepeatedOperands

namespace Structura.Ty

variable {a a' b b' c : Ty} {ts : List Ty}

theorem disjoint_comm (ha : Canonical a) (hb : Canonical b) : disjoint a b = disjoint b a :=
  Bool.eq_iff_iff.mpr ⟨disjoint_symm ha hb, disjoint_symm hb ha⟩

theorem disjoint_antitone (ha : Canonical a) (ha' : Canonical a') (hb : Canonical b) (hb' : Canonical b')
    (haa : isSubtype a' a = true) (hbb : isSubtype b' b = true) (h : disjoint a b = true) :
    disjoint a' b' = true := by
  have hab' := disjoint_of_isSubtype ha' ha hb haa h
  exact disjoint_symm hb' ha' (disjoint_of_isSubtype hb' hb ha' hbb (disjoint_symm ha' hb hab'))

theorem exists_branch_not_disjoint (ha : Canonical a) (h : disjoint a b = false) :
    ∃ x ∈ a.branches, disjoint x b = false := by
  cases a with
  | union members =>
      by_cases hb : b = .unknown
      · obtain ⟨x, hx⟩ := ha.exists_branch
        have hconcrete : Concrete x := .of_mem_branches ha (by simp) hx
        exact ⟨x, hx, hb ▸ disjoint_unknown_right hconcrete.ne_never⟩
      · by_contra! hall
        have hclash : disjoint (.union members) b = true :=
          (disjoint_union_left hb).mpr fun x hx => Bool.ne_false_iff.mp (hall x hx)
        rw [hclash] at h
        contradiction
  | _ => exact ⟨_, List.mem_singleton_self _, h⟩

/-- Types with a common value have alternatives with one. -/
theorem exists_compatible_branches (ha : Canonical a) (hb : Canonical b) (h : disjoint a b = false) :
    ∃ x ∈ a.branches, ∃ y ∈ b.branches, Compatible x y := by
  obtain ⟨x, hx, hxb⟩ := exists_branch_not_disjoint ha h
  have hcx := (ha.of_mem_branches hx).1
  rw [disjoint_comm hcx hb] at hxb
  obtain ⟨y, hy, hyx⟩ := exists_branch_not_disjoint hb hxb
  exact ⟨x, hx, y, hy, (compatible_of_disjoint_eq_false (hb.of_mem_branches hy).1 hcx hyx).symm⟩

theorem Compatible.ne_never (h : Compatible a b) : a ≠ .never ∧ b ≠ .never := by
  constructor
  · rintro rfl
    simp [Compatible] at h
  · rintro rfl
    simp [Compatible] at h

/-- The alternatives that do not clash have an intersection, and this is below that of the types. -/
theorem meet_ne_never (ha : Canonical a) (hb : Canonical b) (h : disjoint a b = false) :
    meet [a, b] ≠ .never := by
  obtain ⟨hna, hnb⟩ := (compatible_of_disjoint_eq_false ha hb h).ne_never
  obtain ⟨x, hx, y, hy, hxy⟩ := exists_compatible_branches ha hb h
  have hconcrete : ∀ d ∈ [x, y], Concrete d := by
    simp [Concrete.of_mem_branches ha hna hx, Concrete.of_mem_branches hb hnb hy]
  have hpairwise : [x, y].Pairwise Compatible := List.pairwise_pair.mpr hxy
  have hmeet := concrete_meetConcrete hconcrete hpairwise
  have hbelow : BelowParts (meetConcrete [x, y]) [a, b] := by
    refine ⟨[x, y], ⟨hconcrete, .cons ?_ (.cons ?_ .nil), hpairwise⟩, ?_⟩
    · exact (hconcrete x (by simp)).below_of_mem_branches hx
    · exact (hconcrete y (by simp)).below_of_mem_branches hy
    · exact (isSubtype_meetConcrete hconcrete hpairwise hmeet.canonical).mp
        (isSubtype_refl hmeet.canonical)
  intro hnever
  have hle := (hmeet.isSubtype_meet (by simp [ha, hb])).mpr hbelow
  rw [hnever, hmeet.not_isSubtype_never] at hle
  contradiction

theorem meet_eq_never_iff (ha : Canonical a) (hb : Canonical b) :
    meet [a, b] = .never ↔ disjoint a b = true := by
  have hall : ∀ t ∈ [a, b], Canonical t := by simp [ha, hb]
  constructor
  · intro h
    by_contra hclash
    exact meet_ne_never ha hb (Bool.eq_false_of_not_eq_true hclash) h
  · intro h
    apply eq_never_of_isSubtype (canonical_meet hall)
    apply isSubtype_of_concrete (canonical_meet hall)
    -- The parts that a concrete type would be below clash, being below operands that do.
    intro c hc hle
    obtain ⟨_, ⟨hconcrete, hbelow, hcompatible⟩, -⟩ := (hc.isSubtype_meet hall).mp hle
    obtain ⟨d, _, hda, hrest, rfl⟩ := List.forall₂_cons_right_iff.mp hbelow
    obtain ⟨e, _, heb, hnil, rfl⟩ := List.forall₂_cons_right_iff.mp hrest
    obtain rfl := List.forall₂_nil_right_iff.mp hnil
    have hclash := disjoint_antitone ha (hconcrete d (by simp)).canonical hb
      (hconcrete e (by simp)).canonical hda heb h
    rw [(List.pairwise_pair.mp hcompatible).1] at hclash
    contradiction

/-- The test for a common value does not depend on the order of the types, it passes on to subtypes, and it says
exactly which intersections are empty. -/
theorem disjoint_decides_meet :
    (∀ a b : Ty, Reachable a → Reachable b → disjoint a b = disjoint b a) ∧
    (∀ a a' b b' : Ty, Reachable a → Reachable a' → Reachable b → Reachable b' →
      isSubtype a' a = true → isSubtype b' b = true → disjoint a b = true → disjoint a' b' = true) ∧
    ∀ a b : Ty, Reachable a → Reachable b → (meet [a, b] = .never ↔ disjoint a b = true) := by
  simp only [reachable_iff_canonical]
  exact ⟨fun a b => disjoint_comm, fun a a' b b' => disjoint_antitone, fun a b => meet_eq_never_iff⟩

theorem Reachable.oneProperty {name : String} {t : Ty} (ht : Reachable t) :
    Reachable (.object [(name, t)]) :=
  .object (List.nodup_singleton name) (List.forall_mem_singleton.mpr ht)

/-- The operands are a union and an intersection of objects that clash inside the shared property. -/
theorem disjoint_decides_meet_nested :
    meet [join [.object [("x", .object [("y", .string)])], .null],
      meet [.object [("x", .object [("y", .number)])], .object [("z", .null)]]] = .never ∧
    meet [join [.object [("x", .object [("y", .string)])], .null],
      meet [.object [("x", .object [("y", .literal (.string "a"))])], .object [("z", .null)]]] ≠
        .never ∧
    disjoint (.object [("x", .object [("y", .literal (.string "a"))])])
      (meet [.object [("x", .object [("y", .number)])], .object [("z", .null)]]) = true := by
  have hunion : Reachable (join [.object [("x", .object [("y", .string)])], .null]) :=
    .join (by simp [Reachable.oneProperty, Reachable.prim])
  have hinter {t : Ty} (ht : Reachable t) :
      Reachable (meet [.object [("x", .object [("y", t)])], .object [("z", .null)]]) :=
    .meet (by simp [Reachable.oneProperty, ht, Reachable.prim])
  have hnumber := hinter (.prim .number)
  have hclash : disjoint (join [.object [("x", .object [("y", .string)])], .null])
      (meet [.object [("x", .object [("y", .number)])], .object [("z", .null)]]) = true := by
    decide +kernel
  refine ⟨(disjoint_decides_meet.2.2 _ _ hunion hnumber).mpr hclash, fun h => ?_, ?_⟩
  · exact absurd ((disjoint_decides_meet.2.2 _ _ hunion (hinter (.literal _))).mp h)
      (by decide +kernel)
  · exact disjoint_decides_meet.2.1 _ _ _ _ hunion (Reachable.literal _).oneProperty.oneProperty
      hnumber hnumber (by decide +kernel) (by decide +kernel) hclash

theorem meet_isSubtype (hts : ∀ t ∈ ts, Canonical t) {t : Ty} (ht : t ∈ ts) :
    isSubtype (meet ts) t = true :=
  isSubtype_of_concrete (canonical_meet hts) fun _ hc hle =>
    ((hc.isSubtype_meet hts).mp hle).isSubtype hc hts t ht

/-- A lower bound that is compatible with itself serves as a part of every operand. -/
theorem Concrete.belowParts_of_below (hc : Concrete c) (hself : disjoint c c = false)
    (hbelow : ∀ t ∈ ts, isSubtype c t = true) : BelowParts c ts := by
  have hcopy : ∀ d ∈ ts.map fun _ => c, d = c := List.forall_mem_map.mpr fun _ _ => rfl
  refine ⟨ts.map fun _ => c, ⟨fun d hd => hcopy d hd ▸ hc, ?_, ?_⟩, fun d hd => ?_⟩
  · exact List.forall₂_map_left_iff.mpr (List.forall₂_same.mpr hbelow)
  · exact List.pairwise_map.mpr (List.pairwise_of_forall fun _ _ => ⟨hself, hself⟩)
  · rw [hcopy d hd]
    exact isSubtype_refl hc.canonical

theorem isSubtype_meet (hts : ∀ t ∈ ts, Canonical t) (hc : Canonical c) (hself : c.SelfCompatible)
    (hbelow : ∀ t ∈ ts, isSubtype c t = true) : isSubtype c (meet ts) = true := by
  have hne : c ≠ .never := by
    rintro rfl
    have := hself .never (List.mem_singleton_self _)
    simp at this
  refine isSubtype_iff_branches.mpr fun b hb => ?_
  have hbranch : Concrete b := .of_mem_branches hc hne hb
  refine (hbranch.isSubtype_meet hts).mpr (hbranch.belowParts_of_below (hself b hb) fun t ht => ?_)
  exact isSubtype_iff_branches.mp (hbelow t ht) b hb

/-- The intersection is below every operand. Of the types below all operands it is the greatest, as long as no
alternative clashes with itself. -/
theorem meet_greatest_lower_bound {ts : List Ty} (hts : ∀ t ∈ ts, Reachable t) :
    (∀ t ∈ ts, isSubtype (meet ts) t = true) ∧
    ∀ c : Ty, Reachable c → c.SelfCompatible → (∀ t ∈ ts, isSubtype c t = true) →
      isSubtype c (meet ts) = true := by
  have hcanonical := canonical_of_reachable hts
  refine ⟨fun t ht => meet_isSubtype hcanonical ht, fun c hc hself hbelow => ?_⟩
  exact isSubtype_meet hcanonical (reachable_iff_canonical.mp hc) hself hbelow

theorem meet_greatest_lower_bound_unions :
    isSubtype (meet [join [.object [("x", .string)], .null], join [.null, .object [("y", .number)]]])
      (join [.null, .object [("y", .number)]]) = true ∧
    isSubtype (join [.object [("x", .literal (.string "a")), ("y", .number)], .null])
      (meet [join [.object [("x", .string)], .null], join [.null, .object [("y", .number)]]]) =
        true := by
  have hboth : Reachable (.object [("x", .literal (.string "a")), ("y", .number)]) :=
    .object (by decide) (by simp [Reachable.literal, Reachable.prim])
  have hleft : Reachable (join [.object [("x", .string)], .null]) :=
    .join (by simp [Reachable.oneProperty, Reachable.prim])
  have hright : Reachable (join [.null, .object [("y", .number)]]) :=
    .join (by simp [Reachable.oneProperty, Reachable.prim])
  have h := meet_greatest_lower_bound
    (List.forall_mem_cons.mpr ⟨hleft, List.forall_mem_singleton.mpr hright⟩)
  refine ⟨h.1 _ (by simp), h.2 _ (.join (by simp [hboth, Reachable.prim])) (by decide +kernel) ?_⟩
  exact List.forall_mem_cons.mpr
    ⟨by decide +kernel, List.forall_mem_singleton.mpr (by decide +kernel)⟩

end Structura.Ty
