import Structura.Proofs.Canonical

namespace Structura.Ty

@[simp] theorem disjoint_never_left (b : Ty) : disjoint .never b = true := by
  cases b <;> simp [disjoint]

@[simp] theorem disjoint_never_right (a : Ty) : disjoint a .never = true := by
  cases a <;> simp [disjoint]

theorem disjoint_unknown_left {b : Ty} (hb : b ≠ .never) : disjoint .unknown b = false := by
  cases b <;> simp_all [disjoint]

theorem disjoint_unknown_right {a : Ty} (ha : a ≠ .never) : disjoint a .unknown = false := by
  cases a <;> simp_all [disjoint]

theorem disjoint_union_left {ts : List Ty} {b : Ty} (hb : b ≠ .unknown) :
    disjoint (.union ts) b = true ↔ ∀ t ∈ ts, disjoint t b = true := by
  cases b <;> simp_all [disjoint]

theorem disjoint_union_right {a : Ty} {us : List Ty} (ha : a.isAlternative = true) :
    disjoint a (.union us) = true ↔ ∀ u ∈ us, disjoint a u = true := by
  cases a <;> simp_all [isAlternative, disjoint]

theorem disjoint_inter_left {ts : List Ty} {b : Ty} (hb : b.isAlternative = true) :
    disjoint (.inter ts) b = true ↔ ∃ t ∈ ts, disjoint t b = true := by
  cases b <;> simp_all [isAlternative, disjoint]

theorem disjoint_inter_right {a : Ty} {us : List Ty} (ha : a.isBasic = true) :
    disjoint a (.inter us) = true ↔ ∃ u ∈ us, disjoint a u = true := by
  cases a <;> simp_all [isBasic, disjoint]

theorem disjoint_object {ps qs : List (String × Ty)} :
    disjoint (.object ps) (.object qs) = true ↔
      ∃ n s t, (n, s) ∈ ps ∧ (n, t) ∈ qs ∧ disjoint s t = true := by
  rw [disjoint]
  simp

inductive BasicClash : Ty → Ty → Prop
  | literals {v w : Literal} (h : v.same w = false) : BasicClash (.literal v) (.literal w)
  | literalPrim {v : Literal} {q : Primitive} (h : v.base ≠ q) : BasicClash (.literal v) (.prim q)
  | primLiteral {p : Primitive} {w : Literal} (h : w.base ≠ p) : BasicClash (.prim p) (.literal w)
  | prims {p q : Primitive} (h : p ≠ q) : BasicClash (.prim p) (.prim q)
  | objects {ps qs : List (String × Ty)} {n : String} {s t : Ty} (hs : (n, s) ∈ ps)
      (ht : (n, t) ∈ qs) (h : disjoint s t = true) : BasicClash (.object ps) (.object qs)
  | kinds {a b : Ty} (h : a.isObject ≠ b.isObject ∨ a.isFunction ≠ b.isFunction) : BasicClash a b

theorem disjoint_basic {a b : Ty} (ha : a.isBasic = true) (hb : b.isBasic = true) :
    disjoint a b = true ↔ BasicClash a b := by
  constructor
  · intro h
    cases a <;> cases b <;> simp only [isBasic, Bool.false_eq_true] at ha hb
    case object.object ps qs =>
      obtain ⟨n, s, t, hs, ht, hst⟩ := disjoint_object.mp h
      exact .objects hs ht hst
    all_goals simp only [disjoint, Bool.false_eq_true, Bool.not_eq_true', bne_iff_ne] at h
    case prim.prim p q => exact .prims h
    case prim.literal p w => exact .primLiteral h
    case literal.prim v q => exact .literalPrim h
    case literal.literal v w => exact .literals h
    all_goals exact .kinds (by simp [isObject, isFunction])
  · intro h
    cases h with
    | literals h => simp [disjoint, h]
    | literalPrim h => simp [disjoint, h]
    | primLiteral h => simp [disjoint, h]
    | prims h => simp [disjoint, h]
    | objects hs ht h => exact disjoint_object.mpr ⟨_, _, _, hs, ht, h⟩
    | kinds h => cases a <;> cases b <;> simp_all [isBasic, isObject, isFunction, disjoint]

theorem BasicClash.symm {a b : Ty}
    (ih : ∀ x y : Ty, sizeOf x + sizeOf y < sizeOf a + sizeOf b → Canonical x → Canonical y →
      disjoint x y = true → disjoint y x = true)
    (ha : Canonical a) (hb : Canonical b) (h : BasicClash a b) : BasicClash b a := by
  cases h with
  | @literals v w h =>
      exact .literals (Bool.eq_false_iff.mpr fun hs => by simp [Literal.same_symm hs] at h)
  | literalPrim h => exact .primLiteral h
  | primLiteral h => exact .literalPrim h
  | prims h => exact .prims h.symm
  | objects hs ht h =>
      have h₁ := sizeOf_lt_object hs
      have h₂ := sizeOf_lt_object ht
      exact .objects ht hs (ih _ _ (by omega) (ha.property hs) (hb.property ht) h)
  | kinds h => exact .kinds (h.imp Ne.symm Ne.symm)

theorem disjoint_symm {a b : Ty} (ha : Canonical a) (hb : Canonical b)
    (h : disjoint a b = true) : disjoint b a = true := by
  induction hn : sizeOf a + sizeOf b using Nat.strongRecOn generalizing a b with
  | _ n ih =>
      subst hn
      by_cases hna : a = .never
      · exact hna ▸ disjoint_never_right b
      by_cases hnb : b = .never
      · exact hnb ▸ disjoint_never_left a
      rcases a.shape with rfl | rfl | ⟨ts, rfl⟩ | halta
      · contradiction
      · simp [disjoint_unknown_left hnb] at h
      · rcases b.shape with rfl | rfl | ⟨us, rfl⟩ | haltb
        · contradiction
        · simp [disjoint_unknown_right hna] at h
        · refine (disjoint_union_left (by simp)).mpr fun u hu => ?_
          refine (disjoint_union_right (hb.alternative hu)).mpr fun t ht => ?_
          have htu := (disjoint_union_right (ha.alternative ht)).mp
            ((disjoint_union_left (by simp)).mp h t ht) u hu
          have h₁ := sizeOf_lt_union ht
          have h₂ := sizeOf_lt_union hu
          exact ih _ (by omega) (ha.branch ht) (hb.branch hu) htu rfl
        · refine (disjoint_union_right haltb).mpr fun t ht => ?_
          have htb := (disjoint_union_left (by rintro rfl; simp [isAlternative] at haltb)).mp h t ht
          have := sizeOf_lt_union ht
          exact ih _ (by omega) (ha.branch ht) hb htb rfl
      rcases b.shape with rfl | rfl | ⟨us, rfl⟩ | haltb
      · contradiction
      · simp [disjoint_unknown_right hna] at h
      · refine (disjoint_union_left (by rintro rfl; simp [isAlternative] at halta)).mpr
          fun u hu => ?_
        have := sizeOf_lt_union hu
        exact ih _ (by omega) ha (hb.branch hu) ((disjoint_union_right halta).mp h u hu) rfl
      rcases alternative_shape halta with ⟨ts, rfl⟩ | hbasica
      · obtain ⟨t, ht, htb⟩ := (disjoint_inter_left haltb).mp h
        have h₁ := sizeOf_lt_inter ht
        rcases alternative_shape haltb with ⟨us, rfl⟩ | hbasicb
        · obtain ⟨u, hu, htu⟩ := (disjoint_inter_right (ha.basic ht)).mp htb
          have h₂ := sizeOf_lt_inter hu
          refine (disjoint_inter_left halta).mpr ⟨u, hu, ?_⟩
          refine (disjoint_inter_right (hb.basic hu)).mpr ⟨t, ht, ?_⟩
          exact ih _ (by omega) (ha.factor ht) (hb.factor hu) htu rfl
        · exact (disjoint_inter_right hbasicb).mpr
            ⟨t, ht, ih _ (by omega) (ha.factor ht) hb htb rfl⟩
      rcases alternative_shape haltb with ⟨us, rfl⟩ | hbasicb
      · obtain ⟨u, hu, hau⟩ := (disjoint_inter_right hbasica).mp h
        have := sizeOf_lt_inter hu
        exact (disjoint_inter_left halta).mpr
          ⟨u, hu, ih _ (by omega) ha (hb.factor hu) hau rfl⟩
      · refine (disjoint_basic hbasicb hbasica).mpr ?_
        exact BasicClash.symm (fun x y hlt hx hy hxy => ih _ hlt hx hy hxy rfl) ha hb
          ((disjoint_basic hbasica hbasicb).mp h)

theorem Compatible.symm {t u : Ty} (h : Compatible t u) : Compatible u t := And.symm h

theorem compatible_of_disjoint_eq_false {t u : Ty} (ht : Canonical t) (hu : Canonical u)
    (h : disjoint t u = false) : Compatible t u := by
  refine ⟨h, Bool.eq_false_iff.mpr fun hut => ?_⟩
  simp [disjoint_symm hu ht hut] at h

end Structura.Ty
