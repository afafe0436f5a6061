import Structura.Proofs.MeetLaws
import Structura.Proofs.Values

namespace Structura.Ty

variable {a c : Ty} {ts : List Ty}

/-- No alternative of the type clashes with itself. -/
def SelfCompatible (t : Ty) : Prop := ∀ b ∈ t.branches, disjoint b b = false

instance (t : Ty) : Decidable t.SelfCompatible :=
  inferInstanceAs (Decidable (∀ b ∈ t.branches, disjoint b b = false))

theorem Canonical.branch_unique (ha : Canonical a) {b b' : Ty} (hb : b ∈ a.branches)
    (hb' : b' ∈ a.branches) (h : isSubtype b b' = true) : b = b' := by
  cases a with
  | union members =>
      have : Std.Symm Apart := ⟨fun _ _ => Apart.symm⟩
      by_contra hne
      simp [(ha.union_apart.forall hb hb' hne).1] at h
  | _ => exact (List.mem_singleton.mp hb).trans (List.mem_singleton.mp hb').symm

theorem BelowParts.of_cons (h : BelowParts c (a :: ts)) : BelowParts c ts := by
  obtain ⟨_, ⟨hconcrete, hbelow, hcompatible⟩, hcds⟩ := h
  obtain ⟨d, es, -, hes, rfl⟩ := List.forall₂_cons_right_iff.mp hbelow
  rw [List.forall_mem_cons] at hconcrete hcds
  exact ⟨es, ⟨hconcrete.2, hes, (List.pairwise_cons.mp hcompatible).2⟩, hcds.2⟩

/-- Both copies of the operand give the alternative that the one part was below. -/
theorem BelowParts.repeat_head (ha : Canonical a) (hself : a.SelfCompatible) (hc : Concrete c)
    (h : BelowParts c (a :: ts)) : BelowParts c (a :: a :: ts) := by
  obtain ⟨_, ⟨hconcrete, hbelow, hcompatible⟩, hcds⟩ := h
  obtain ⟨d, es, hda, hes, rfl⟩ := List.forall₂_cons_right_iff.mp hbelow
  rw [List.forall_mem_cons] at hconcrete hcds
  obtain ⟨hd, hconcrete⟩ := hconcrete
  obtain ⟨hcd, hces⟩ := hcds
  obtain ⟨hdes, hcompatible⟩ := List.pairwise_cons.mp hcompatible
  obtain ⟨b, hb, hdb⟩ := hd.exists_branch.mp hda
  have hne : a ≠ .never := by
    rintro rfl
    rw [hd.not_isSubtype_never] at hda
    contradiction
  have hbranch : Concrete b := .of_mem_branches ha hne hb
  have hba := hbranch.below_of_mem_branches hb
  have hcb := isSubtype_trans hc.canonical hd.canonical hbranch.canonical hcd hdb
  have hbes : ∀ e ∈ es, Compatible b e := fun e he =>
    have hcanonical := (hconcrete e he).canonical
    Compatible.mono hd.canonical hbranch.canonical hcanonical hcanonical hdb
      (isSubtype_refl hcanonical) (hdes e he)
  refine ⟨b :: b :: es, ⟨by simpa [hbranch] using hconcrete, .cons hba (.cons hba hes), ?_⟩,
    by simpa [hcb] using hces⟩
  have hbb : Compatible b b := ⟨hself b hb, hself b hb⟩
  exact .cons (List.forall_mem_cons.mpr ⟨hbb, hbes⟩) (.cons hbes hcompatible)

theorem SelfCompatible.belowParts_cons (hself : a.SelfCompatible) (ha : Canonical a)
    (hmem : a ∈ ts) (hc : Concrete c) : BelowParts c (a :: ts) ↔ BelowParts c ts := by
  refine ⟨BelowParts.of_cons, fun h => ?_⟩
  obtain ⟨front, back, rfl⟩ := List.append_of_mem hmem
  have hmiddle : (front ++ a :: back).Perm (a :: (front ++ back)) := List.perm_middle
  exact ((h.perm hmiddle).repeat_head ha hself hc).perm (hmiddle.symm.cons a)

theorem same_meet_cons (ha : Canonical a) (hts : ∀ t ∈ ts, Canonical t) (hmem : a ∈ ts)
    (h : a = .never ∨ a.SelfCompatible) : same (meet (a :: ts)) (meet ts) = true := by
  refine same_meet (List.forall_mem_cons.mpr ⟨ha, hts⟩) hts fun c hc => ?_
  rcases h with rfl | hself
  · refine ⟨BelowParts.of_cons, fun h => ?_⟩
    have hnever := h.isSubtype hc hts .never hmem
    rw [hc.not_isSubtype_never] at hnever
    contradiction
  · exact hself.belowParts_cons ha hmem hc

theorem same_meet_singleton (ha : Canonical a) : same (meet [a]) a = true := by
  have hall : ∀ t ∈ [a], Canonical t := List.forall_mem_singleton.mpr ha
  refine same_of_concrete (canonical_meet hall) ha fun c hc => ?_
  rw [hc.isSubtype_meet hall, ← belowParts_singleton hc ha]

/-- An alternative that survives the repetition is below two parts of the operand. Both are below the
same alternative, as no other one is comparable, so it is compatible with itself. -/
theorem selfCompatible_of_isSubtype_meet (ha : Canonical a) (hne : a ≠ .never)
    (h : isSubtype a (meet [a, a]) = true) : a.SelfCompatible := by
  intro b hb
  have hall : ∀ t ∈ [a, a], Canonical t := by simp [ha]
  have hbranch : Concrete b := .of_mem_branches ha hne hb
  have hbelow := (hbranch.isSubtype_meet hall).mp (isSubtype_iff_branches.mp h b hb)
  obtain ⟨_, ⟨hconcrete, hparts, hcompatible⟩, hbds⟩ := hbelow
  obtain ⟨d, _, hda, hrest, rfl⟩ := List.forall₂_cons_right_iff.mp hparts
  obtain ⟨e, _, hea, hnil, rfl⟩ := List.forall₂_cons_right_iff.mp hrest
  obtain rfl := List.forall₂_nil_right_iff.mp hnil
  have hback {d' : Ty} (hd' : Concrete d') (hbd' : isSubtype b d' = true)
      (hd'a : isSubtype d' a = true) : isSubtype d' b = true := by
    obtain ⟨b', hb', hd'b'⟩ := hd'.exists_branch.mp hd'a
    have hbb' := isSubtype_trans hbranch.canonical hd'.canonical (ha.of_mem_branches hb').1 hbd' hd'b'
    rwa [ha.branch_unique hb hb' hbb']
  simp only [List.forall_mem_cons, List.pairwise_cons] at hconcrete hcompatible hbds
  have hdb := hback hconcrete.1 hbds.1 hda
  have heb := hback hconcrete.2.1 hbds.2.1 hea
  exact (Compatible.mono hconcrete.1.canonical hbranch.canonical hconcrete.2.1.canonical
    hbranch.canonical hdb heb hcompatible.1.1).1

theorem same_meet_self_iff (ha : Canonical a) :
    same (meet [a, a]) a = true ↔ a = .never ∨ a.SelfCompatible := by
  have hmeet : Canonical (meet [a, a]) := canonical_meet (by simp [ha])
  constructor
  · intro h
    refine or_iff_not_imp_left.mpr fun hne => ?_
    exact selfCompatible_of_isSubtype_meet ha hne (isSubtype_of_same hmeet ha h).2
  · intro h
    have hone : Canonical (meet [a]) := canonical_meet (List.forall_mem_singleton.mpr ha)
    have htwice := (mutual_iff_same hmeet hone).mpr
      (same_meet_cons ha (List.forall_mem_singleton.mpr ha) (List.mem_singleton_self a) h)
    have honce := (mutual_iff_same hone ha).mpr (same_meet_singleton ha)
    exact same_of_mutual hmeet ha ⟨isSubtype_trans hmeet hone ha htwice.1 honce.1,
      isSubtype_trans ha hone hmeet honce.2 htwice.2⟩

theorem admits_meet_cons (ha : Canonical a) (hts : ∀ t ∈ ts, Canonical t) (hmem : a ∈ ts)
    (v : Value) : (meet (a :: ts)).admits v = (meet ts).admits v := by
  rw [Bool.eq_iff_iff, admits_meet (List.forall_mem_cons.mpr ⟨ha, hts⟩), admits_meet hts,
    List.forall_mem_cons]
  exact ⟨And.right, fun h => ⟨h a hmem, h⟩⟩

/-- An operand can be repeated in every intersection, or just in the one with itself, exactly if it is
`never` or none of its alternatives clashes with itself. The values are the same in any case. -/
theorem repeatable_iff_selfCompatible {a : Ty} (ha : Reachable a) :
    ((∀ ts : List Ty, (∀ t ∈ ts, Reachable t) → a ∈ ts → same (meet (a :: ts)) (meet ts) = true) ↔
      a = .never ∨ a.SelfCompatible) ∧
    (same (meet [a, a]) a = true ↔ a = .never ∨ a.SelfCompatible) ∧
    ∀ ts : List Ty, (∀ t ∈ ts, Reachable t) → a ∈ ts → ∀ v : Value,
      (meet (a :: ts)).admits v = (meet ts).admits v := by
  have hca := reachable_iff_canonical.mp ha
  refine ⟨⟨fun h => ?_, fun h ts hts hmem => ?_⟩, same_meet_self_iff hca,
    fun ts hts hmem v => admits_meet_cons hca (canonical_of_reachable hts) hmem v⟩
  · refine or_iff_not_imp_left.mpr fun hne => selfCompatible_of_isSubtype_meet hca hne ?_
    have hone : ∀ t ∈ [a], Canonical t := List.forall_mem_singleton.mpr hca
    have htwo : ∀ t ∈ [a, a], Canonical t := List.forall_mem_cons.mpr ⟨hca, hone⟩
    have hsame := h [a] (List.forall_mem_singleton.mpr ha) (List.mem_singleton_self a)
    exact isSubtype_trans hca (canonical_meet hone) (canonical_meet htwo)
      (isSubtype_of_same (canonical_meet hone) hca (same_meet_singleton hca)).2
      (isSubtype_of_same (canonical_meet htwo) (canonical_meet hone) hsame).2
  · exact same_meet_cons hca (canonical_of_reachable hts) hmem h

theorem repeatable_iff_selfCompatible_union :
    same (meet [join [.object [("x", .string)], .null], .object [("y", .number)],
        join [.object [("x", .string)], .null]])
      (meet [.object [("y", .number)], join [.object [("x", .string)], .null]]) = true := by
  have hx : Reachable (.object [("x", .string)]) := .object (by decide) (by simp [Reachable.prim])
  have hy : Reachable (.object [("y", .number)]) := .object (by decide) (by simp [Reachable.prim])
  have hunion : Reachable (join [.object [("x", .string)], .null]) :=
    .join (by simp [hx, Reachable.prim])
  exact (repeatable_iff_selfCompatible hunion).1.mpr (.inr (by decide +kernel)) _
    (by simp [hy, hunion]) (by simp)

/-- An object with a property of type `never` is lost when it is repeated. -/
theorem object_of_never_not_repeatable :
    ¬∀ (a : Ty) (ts : List Ty), Reachable a → (∀ t ∈ ts, Reachable t) → a ∈ ts →
      same (meet (a :: ts)) (meet ts) = true := by
  intro h
  have hobject : Reachable (.object [("x", .never)]) :=
    .object (by decide) (by simp [Reachable.never])
  have hsame := h (.object [("x", .never)]) [.object [("x", .never)]] hobject
    (List.forall_mem_singleton.mpr hobject) (List.mem_singleton_self _)
  exact absurd hsame (by decide +kernel)

end Structura.Ty
