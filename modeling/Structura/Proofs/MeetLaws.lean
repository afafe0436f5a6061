import Structura.Proofs.CompatibleParts

namespace Structura.Ty

variable {ts us : List Ty}

theorem same_meet (hts : ∀ t ∈ ts, Canonical t) (hus : ∀ u ∈ us, Canonical u)
    (h : ∀ c, Concrete c → (BelowParts c ts ↔ BelowParts c us)) :
    same (meet ts) (meet us) = true :=
  same_of_concrete (canonical_meet hts) (canonical_meet hus) fun c hc => by
    rw [hc.isSubtype_meet hts, hc.isSubtype_meet hus]
    exact h c hc

theorem meet_perm (hts : ∀ t ∈ ts, Canonical t) (h : ts.Perm us) :
    same (meet ts) (meet us) = true := by
  refine same_meet hts (fun u hu => hts u (h.mem_iff.mpr hu)) fun c _ => ?_
  exact belowParts_perm h

theorem meet_meet_cons (hts : ∀ t ∈ ts, Canonical t) (hus : ∀ u ∈ us, Canonical u) :
    same (meet (meet ts :: us)) (meet (ts ++ us)) = true := by
  apply same_meet (List.forall_mem_cons.mpr ⟨canonical_meet hts, hus⟩)
    (List.forall_mem_append.mpr ⟨hts, hus⟩)
  intro c hc
  exact belowParts_replace hc fun d hd => hd.isSubtype_meet hts

theorem meet_unknown_cons (hts : ∀ t ∈ ts, Canonical t) :
    same (meet (.unknown :: ts)) (meet ts) = true := by
  have hempty (d : Ty) (_ : Concrete d) : isSubtype d .unknown = true ↔ BelowParts d [] :=
    iff_of_true (isSubtype_unknown_right d) (belowParts_nil d)
  apply same_meet (List.forall_mem_cons.mpr ⟨.unknown, hts⟩) hts
  intro c hc
  exact belowParts_replace hc hempty

theorem meet_never_cons (hts : ∀ t ∈ ts, Canonical t) : meet (.never :: ts) = .never := by
  have hall : ∀ t ∈ Ty.never :: ts, Canonical t := List.forall_mem_cons.mpr ⟨.never, hts⟩
  apply eq_never_of_isSubtype (canonical_meet hall)
  apply isSubtype_of_concrete (canonical_meet hall)
  intro c hc h
  exact ((hc.isSubtype_meet hall).mp h).isSubtype hc hall .never List.mem_cons_self

theorem Grouping.isSubtype_eval_meet {c : Ty} (hc : Concrete c) {g : Grouping}
    (hg : ∀ t ∈ g.operands, Canonical t) :
    isSubtype c (g.eval meet) = true ↔ BelowParts c g.operands := by
  induction g using induct generalizing c with
  | operand t => exact belowParts_singleton hc (hg t (List.mem_singleton_self t))
  | call parts ih =>
      rw [operands_call] at hg ⊢
      rw [List.forall_mem_flatMap] at hg
      rw [eval_call, hc.isSubtype_meet (List.forall_mem_map.mpr fun g hmem =>
        canonical_eval canonical_meet (hg g hmem))]
      have h := belowParts_flatMap hc (fun g hmem d hd => ih g hmem hd (hg g hmem)) []
      rwa [List.append_nil, List.append_nil] at h

theorem Grouping.same_meet {g h : Grouping} (hg : ∀ t ∈ g.operands, Canonical t)
    (hgh : g.operands.Perm h.operands) : same (g.eval meet) (h.eval meet) = true := by
  have hh : ∀ t ∈ h.operands, Canonical t := fun t ht => hg t (hgh.mem_iff.mpr ht)
  apply same_of_concrete (canonical_eval canonical_meet hg) (canonical_eval canonical_meet hh)
  intro c hc
  rw [isSubtype_eval_meet hc hg, isSubtype_eval_meet hc hh]
  exact belowParts_perm hgh

/-- Intersections of the same operands are equal, in whatever order and nesting these are given;
`unknown` adds nothing and `never` leaves nothing. -/
theorem meet_order_and_nesting :
    (∀ ts us : List Ty, (∀ t ∈ ts, Reachable t) → ts.Perm us → same (meet ts) (meet us) = true) ∧
    (∀ xs ys : List Ty, (∀ x ∈ xs, Reachable x) → (∀ y ∈ ys, Reachable y) →
      same (meet (meet xs :: ys)) (meet (xs ++ ys)) = true) ∧
    (∀ g h : Grouping, (∀ t ∈ g.operands, Reachable t) → g.operands.Perm h.operands →
      same (g.eval meet) (h.eval meet) = true) ∧
    ∀ ts : List Ty, (∀ t ∈ ts, Reachable t) →
      same (meet (.unknown :: ts)) (meet ts) = true ∧ meet (.never :: ts) = .never := by
  refine ⟨fun ts us hts h => ?_, fun xs ys hxs hys => ?_, fun g h hg hgh => ?_, fun ts hts => ?_⟩
  · exact meet_perm (canonical_of_reachable hts) h
  · exact meet_meet_cons (canonical_of_reachable hxs) (canonical_of_reachable hys)
  · exact Grouping.same_meet (canonical_of_reachable hg) hgh
  · have hts := canonical_of_reachable hts
    exact ⟨meet_unknown_cons hts, meet_never_cons hts⟩

theorem meet_order_and_nesting_objects :
    same (meet [meet [join [.object [("x", .string)], .null], .object [("y", .number)]],
        .object [("x", .literal (.string "a"))]])
      (meet [.object [("x", .literal (.string "a"))], .object [("y", .number)],
        join [.object [("x", .string)], .null]]) = true := by
  have hx : Reachable (.object [("x", .string)]) := .object (by decide) (by simp [Reachable.prim])
  have hy : Reachable (.object [("y", .number)]) := .object (by decide) (by simp [Reachable.prim])
  have ha : Reachable (.object [("x", .literal (.string "a"))]) :=
    .object (by decide) (by simp [Reachable.literal])
  have hunion : Reachable (join [.object [("x", .string)], .null]) :=
    .join (by simp [hx, Reachable.prim])
  refine meet_order_and_nesting.2.2.1
    (.call [.call [.operand (join [.object [("x", .string)], .null]),
      .operand (.object [("y", .number)])], .operand (.object [("x", .literal (.string "a"))])])
    (.call [.operand (.object [("x", .literal (.string "a"))]), .operand (.object [("y", .number)]),
      .operand (join [.object [("x", .string)], .null])]) ?_ ?_
  · simp [Grouping.operands, Grouping.operandsAll, hy, ha, hunion]
  · exact (List.reverse_perm [_, _, _]).symm

theorem belowParts_join_cons {c : Ty} (hts : ∀ t ∈ ts, Canonical t) :
    BelowParts c (join ts :: us) ↔ ∃ t ∈ ts, BelowParts c (t :: us) := by
  constructor
  · rintro ⟨_, ⟨hconcrete, hbelow, hcompatible⟩, hcds⟩
    obtain ⟨d, es, hd, hes, rfl⟩ := List.forall₂_cons_right_iff.mp hbelow
    obtain ⟨t, ht, hdt⟩ := ((hconcrete d List.mem_cons_self).isSubtype_join hts).mp hd
    exact ⟨t, ht, d :: es, ⟨hconcrete, .cons hdt hes, hcompatible⟩, hcds⟩
  · rintro ⟨t, ht, _, ⟨hconcrete, hbelow, hcompatible⟩, hcds⟩
    obtain ⟨d, es, hdt, hes, rfl⟩ := List.forall₂_cons_right_iff.mp hbelow
    have hd := ((hconcrete d List.mem_cons_self).isSubtype_join hts).mpr ⟨t, ht, hdt⟩
    exact ⟨d :: es, ⟨hconcrete, .cons hd hes, hcompatible⟩, hcds⟩

theorem meet_join_cons (hts : ∀ t ∈ ts, Canonical t) (hus : ∀ u ∈ us, Canonical u) :
    same (meet (join ts :: us)) (join (ts.map fun t => meet (t :: us))) = true := by
  have hmeets : ∀ t ∈ ts, ∀ u ∈ t :: us, Canonical u :=
    fun t ht => List.forall_mem_cons.mpr ⟨hts t ht, hus⟩
  have hmapped : ∀ m ∈ ts.map fun t => meet (t :: us), Canonical m :=
    List.forall_mem_map.mpr fun t ht => canonical_meet (hmeets t ht)
  have hall : ∀ t ∈ join ts :: us, Canonical t := List.forall_mem_cons.mpr ⟨canonical_join hts, hus⟩
  apply same_of_concrete (canonical_meet hall) (canonical_join hmapped)
  intro c hc
  rw [hc.isSubtype_meet hall, belowParts_join_cons hts, hc.isSubtype_join hmapped]
  simp only [List.mem_map, exists_exists_and_eq_and]
  exact exists_congr fun t => and_congr_right fun ht => (hc.isSubtype_meet (hmeets t ht)).symm

/-- The intersection with a union is the union of the intersections with its operands. -/
theorem meet_distributes_over_join {a b c : Ty} (ha : Reachable a) (hb : Reachable b)
    (hc : Reachable c) :
    same (meet [join [a, b], c]) (join [meet [a, c], meet [b, c]]) = true := by
  have hab : ∀ t ∈ [a, b], Canonical t := by
    simp [reachable_iff_canonical.mp ha, reachable_iff_canonical.mp hb]
  exact meet_join_cons hab (List.forall_mem_singleton.mpr (reachable_iff_canonical.mp hc))

theorem meet_distributes_over_join_objects :
    same (meet [join [.object [("x", .string)], .object [("x", .number)]],
        join [.null, .object [("x", .literal (.string "a")), ("y", .null)]]])
      (join [meet [.object [("x", .string)],
          join [.null, .object [("x", .literal (.string "a")), ("y", .null)]]],
        meet [.object [("x", .number)],
          join [.null, .object [("x", .literal (.string "a")), ("y", .null)]]]]) = true := by
  have hstring : Reachable (.object [("x", .string)]) :=
    .object (by decide) (by simp [Reachable.prim])
  have hnumber : Reachable (.object [("x", .number)]) :=
    .object (by decide) (by simp [Reachable.prim])
  have ha : Reachable (.object [("x", .literal (.string "a")), ("y", .null)]) :=
    .object (by decide) (by simp [Reachable.literal, Reachable.prim])
  exact meet_distributes_over_join hstring hnumber (.join (by simp [ha, Reachable.prim]))

end Structura.Ty
