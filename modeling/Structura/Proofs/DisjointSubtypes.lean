import Structura.Proofs.DisjointCases

namespace Structura.Ty

/-- A clash of basic types passes on to a subtype. Objects clash in a property that the subtype has as
well, with a type that is no larger. -/
theorem BasicClash.of_below {a b c : Ty}
    (ih : ∀ x y z : Ty, sizeOf x + sizeOf y + sizeOf z < sizeOf a + sizeOf b + sizeOf c →
      Canonical x → Canonical y → Canonical z →
        isSubtype x y = true → disjoint y z = true → disjoint x z = true)
    (ha : Canonical a) (hb : Canonical b) (hc : Canonical c)
    (hab : BasicBelow a b) (hbc : BasicClash b c) : BasicClash a c := by
  cases hab with
  | prim p => exact hbc
  | literal hvw =>
      cases hbc with
      | literals h =>
          refine .literals (Bool.eq_false_iff.mpr fun hs => ?_)
          simp [Literal.same_trans (Literal.same_symm hvw) hs] at h
      | literalPrim h => exact .literalPrim (Literal.base_eq_of_same hvw ▸ h)
      | kinds h => exact .kinds h
  | base v =>
      cases hbc with
      | primLiteral h =>
          exact .literals (Bool.eq_false_iff.mpr fun hs => h (Literal.base_eq_of_same hs).symm)
      | prims h => exact .literalPrim h
      | kinds h => exact .kinds h
  | object hpq =>
      cases hbc with
      | objects ht hu h =>
          obtain ⟨s, hs, hst⟩ := hpq _ _ ht
          have h₁ := sizeOf_lt_object hs
          have h₂ := sizeOf_lt_object ht
          have h₃ := sizeOf_lt_object hu
          exact .objects hs hu (ih _ _ _ (by omega) (ha.property hs) (hb.property ht)
            (hc.property hu) hst h)
      | kinds h => exact .kinds h
  | function _ _ _ =>
      cases hbc with
      | kinds h => exact .kinds h

theorem disjoint_of_isSubtype {a b c : Ty} (ha : Canonical a) (hb : Canonical b)
    (hc : Canonical c) (hab : isSubtype a b = true) (hbc : disjoint b c = true) :
    disjoint a c = true := by
  induction hn : sizeOf a + sizeOf b + sizeOf c using Nat.strongRecOn generalizing a b c with
  | _ n ih =>
      subst hn
      by_cases hna : a = .never
      · exact hna ▸ disjoint_never_left c
      by_cases hnc : c = .never
      · exact hnc ▸ disjoint_never_right a
      have hnb : b ≠ .never := by
        rintro rfl
        exact hna (eq_never_of_isSubtype ha hab)
      have huc : c ≠ .unknown := by
        rintro rfl
        simp [disjoint_unknown_right hnb] at hbc
      have hub : b ≠ .unknown := by
        rintro rfl
        simp [disjoint_unknown_left hnc] at hbc
      -- All alternatives of `a` and `c` have to clash, but each with only one alternative of `b`.
      rcases a.shape with rfl | rfl | ⟨ts, rfl⟩ | halta
      · contradiction
      · exact absurd (eq_unknown_of_isSubtype hb hab) hub
      · refine (disjoint_union_left huc).mpr fun t ht => ?_
        have := sizeOf_lt_union ht
        exact ih _ (by omega) (ha.branch ht) hb hc (isSubtype_union_left.mp hab t ht) hbc rfl
      rcases b.shape with rfl | rfl | ⟨us, rfl⟩ | haltb
      · contradiction
      · contradiction
      · obtain ⟨u, hu, hau⟩ := (isSubtype_union_right halta).mp hab
        have := sizeOf_lt_union hu
        exact ih _ (by omega) ha (hb.branch hu) hc hau ((disjoint_union_left huc).mp hbc u hu) rfl
      rcases c.shape with rfl | rfl | ⟨vs, rfl⟩ | haltc
      · contradiction
      · contradiction
      · refine (disjoint_union_right halta).mpr fun v hv => ?_
        have := sizeOf_lt_union hv
        exact ih _ (by omega) ha hb (hc.branch hv) hab ((disjoint_union_right haltb).mp hbc v hv) rfl
      -- Without unions one clash of requirements is enough, and one requirement of `a` inherits it.
      rcases alternative_shape haltb with ⟨us, rfl⟩ | hbasicb
      · obtain ⟨u, hu, huc⟩ := (disjoint_inter_left haltc).mp hbc
        have := sizeOf_lt_inter hu
        exact ih _ (by omega) ha (hb.factor hu) hc (isSubtype_inter_right.mp hab u hu) huc rfl
      rcases alternative_shape halta with ⟨ts, rfl⟩ | hbasica
      · obtain ⟨t, ht, htb⟩ := (isSubtype_inter_left hbasicb).mp hab
        have := sizeOf_lt_inter ht
        exact (disjoint_inter_left haltc).mpr
          ⟨t, ht, ih _ (by omega) (ha.factor ht) hb hc htb hbc rfl⟩
      rcases alternative_shape haltc with ⟨vs, rfl⟩ | hbasicc
      · obtain ⟨v, hv, hbv⟩ := (disjoint_inter_right hbasicb).mp hbc
        have := sizeOf_lt_inter hv
        exact (disjoint_inter_right hbasica).mpr
          ⟨v, hv, ih _ (by omega) ha hb (hc.factor hv) hab hbv rfl⟩
      · refine (disjoint_basic hbasica hbasicc).mpr ?_
        exact BasicClash.of_below (fun x y z hlt hx hy hz hxy hyz => ih _ hlt hx hy hz hxy hyz rfl)
          ha hb hc ((isSubtype_basic hbasica hbasicb).mp hab)
          ((disjoint_basic hbasicb hbasicc).mp hbc)

/-- Types above compatible ones are compatible. -/
theorem Compatible.mono {a a' b b' : Ty} (ha : Canonical a) (ha' : Canonical a') (hb : Canonical b)
    (hb' : Canonical b') (haa : isSubtype a a' = true) (hbb : isSubtype b b' = true)
    (h : Compatible a b) : Compatible a' b' := by
  refine compatible_of_disjoint_eq_false ha' hb' (Bool.eq_false_iff.mpr fun hd => ?_)
  have hab' := disjoint_of_isSubtype ha ha' hb' haa hd
  have hba := disjoint_of_isSubtype hb hb' ha hbb (disjoint_symm ha hb' hab')
  simp [h.2] at hba

end Structura.Ty
