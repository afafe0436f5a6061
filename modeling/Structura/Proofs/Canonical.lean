import Mathlib.Data.List.Nodup
import Structura.Proofs.SubtypeCases
import Structura.Ty.Lattice

namespace Structura.Ty

def isObject : Ty → Bool
  | .object _ => true
  | _ => false

def Apart (t u : Ty) : Prop := isSubtype t u = false ∧ isSubtype u t = false

def Compatible (t u : Ty) : Prop := disjoint t u = false ∧ disjoint u t = false

/-- The form of a type in which no part can be left out, at any depth. -/
inductive Canonical : Ty → Prop
  | never : Canonical .never
  | unknown : Canonical .unknown
  | prim (p : Primitive) : Canonical (.prim p)
  | literal (v : Literal) : Canonical (.literal v)
  | object {ps : List (String × Ty)} (names : (ps.map Prod.fst).Nodup)
      (types : ∀ p ∈ ps, Canonical p.2) : Canonical (.object ps)
  | function {ps : List Ty} {r : Ty} (params : ∀ p ∈ ps, Canonical p) (result : Canonical r) :
      Canonical (.function ps r)
  | union {ts : List Ty} (two : 2 ≤ ts.length) (members : ∀ t ∈ ts, Canonical t)
      (alternatives : ∀ t ∈ ts, t.isAlternative = true) (apart : ts.Pairwise Apart) :
      Canonical (.union ts)
  | inter {ts : List Ty} (two : 2 ≤ ts.length) (members : ∀ t ∈ ts, Canonical t)
      (alike : (∀ t ∈ ts, t.isObject = true) ∨ ∀ t ∈ ts, t.isFunction = true)
      (apart : ts.Pairwise Apart) (compatible : ts.Pairwise Compatible) : Canonical (.inter ts)

namespace Canonical

theorem property {ps : List (String × Ty)} (h : Canonical (.object ps)) {n : String} {t : Ty}
    (ht : (n, t) ∈ ps) : Canonical t := by
  cases h with
  | object _ types => exact types (n, t) ht

theorem param {ps : List Ty} {r : Ty} (h : Canonical (.function ps r)) {p : Ty} (hp : p ∈ ps) :
    Canonical p := by
  cases h with
  | function params _ => exact params p hp

theorem result {ps : List Ty} {r : Ty} (h : Canonical (.function ps r)) : Canonical r := by
  cases h with
  | function _ result => exact result

theorem branch {ts : List Ty} (h : Canonical (.union ts)) {t : Ty} (ht : t ∈ ts) :
    Canonical t := by
  cases h with
  | union _ members _ _ => exact members t ht

theorem alternative {ts : List Ty} (h : Canonical (.union ts)) {t : Ty} (ht : t ∈ ts) :
    t.isAlternative = true := by
  cases h with
  | union _ _ alternatives _ => exact alternatives t ht

theorem factor {ts : List Ty} (h : Canonical (.inter ts)) {t : Ty} (ht : t ∈ ts) :
    Canonical t := by
  cases h with
  | inter _ members _ _ _ => exact members t ht

theorem exists_branch {ts : List Ty} (h : Canonical (.union ts)) : ∃ t, t ∈ ts := by
  cases h with
  | union two _ _ _ => exact List.exists_mem_of_length_pos (by omega)

theorem exists_factor {ts : List Ty} (h : Canonical (.inter ts)) : ∃ t, t ∈ ts := by
  cases h with
  | inter two _ _ _ _ => exact List.exists_mem_of_length_pos (by omega)

theorem basic {ts : List Ty} (h : Canonical (.inter ts)) {t : Ty} (ht : t ∈ ts) :
    t.isBasic = true := by
  cases h with
  | inter _ _ alike _ _ =>
      rcases alike with h | h <;> have := h t ht <;>
        cases t <;> simp_all [isObject, isFunction, isBasic]

theorem union_apart {ts : List Ty} (h : Canonical (.union ts)) : ts.Pairwise Apart := by
  cases h with
  | union _ _ _ apart => exact apart

theorem inter_apart {ts : List Ty} (h : Canonical (.inter ts)) : ts.Pairwise Apart := by
  cases h with
  | inter _ _ _ apart _ => exact apart

/-- Properties of one name are the same property. -/
theorem property_unique {ps : List (String × Ty)} (h : Canonical (.object ps)) {n : String}
    {s t : Ty} (hs : (n, s) ∈ ps) (ht : (n, t) ∈ ps) : s = t := by
  cases h with
  | object names _ =>
      exact congrArg Prod.snd (List.inj_on_of_nodup_map names hs ht rfl)

end Canonical

theorem isBasic_not_isSubtype_never {a : Ty} (h : a.isBasic = true) :
    isSubtype a .never = false := by
  cases a <;> simp_all [isBasic, isSubtype]

theorem isBasic_not_unknown_isSubtype {b : Ty} (h : b.isBasic = true) :
    isSubtype .unknown b = false := by
  cases b <;> simp_all [isBasic, isSubtype]

theorem not_isSubtype_never {a : Ty} (ha : Canonical a) (h : a.isAlternative = true) :
    isSubtype a .never = false := by
  rcases alternative_shape h with ⟨ts, rfl⟩ | hb
  · simp only [isSubtype, Bool.eq_false_iff, ne_eq, List.any_eq_true, not_exists, not_and]
    rintro ⟨t, ht⟩ _
    simp [isBasic_not_isSubtype_never (ha.basic ht)]
  · exact isBasic_not_isSubtype_never hb

theorem not_unknown_isSubtype {b : Ty} (hb : Canonical b) (h : b.isAlternative = true) :
    isSubtype .unknown b = false := by
  rcases alternative_shape h with ⟨ts, rfl⟩ | hbasic
  · obtain ⟨t, ht⟩ := hb.exists_factor
    refine Bool.eq_false_iff.mpr fun hs => ?_
    have := isSubtype_inter_right.mp hs t ht
    rw [isBasic_not_unknown_isSubtype (hb.basic ht)] at this
    contradiction
  · exact isBasic_not_unknown_isSubtype hbasic

/-- A union has a member, and no alternative is below `never`. -/
theorem eq_never_of_isSubtype {a : Ty} (ha : Canonical a) (h : isSubtype a .never = true) :
    a = .never := by
  rcases a.shape with rfl | rfl | ⟨ts, rfl⟩ | halt
  · rfl
  · simp [isSubtype] at h
  · obtain ⟨t, ht⟩ := ha.exists_branch
    have := isSubtype_union_left.mp h t ht
    rw [not_isSubtype_never (ha.branch ht) (ha.alternative ht)] at this
    contradiction
  · rw [not_isSubtype_never ha halt] at h
    contradiction

theorem eq_unknown_of_isSubtype {b : Ty} (hb : Canonical b) (h : isSubtype .unknown b = true) :
    b = .unknown := by
  rcases b.shape with rfl | rfl | ⟨us, rfl⟩ | halt
  · simp [isSubtype] at h
  · rfl
  · simp only [isSubtype, List.any_eq_true, List.mem_attach, true_and, Subtype.exists] at h
    obtain ⟨u, hu, hs⟩ := h
    rw [not_unknown_isSubtype (hb.branch hu) (hb.alternative hu)] at hs
    contradiction
  · rw [not_unknown_isSubtype hb halt] at h
    contradiction

theorem isSubtype_refl {a : Ty} (ha : Canonical a) : isSubtype a a = true := by
  induction ha with
  | never => exact isSubtype_never_left _
  | unknown => exact isSubtype_unknown_right _
  | prim p => exact (isSubtype_basic rfl rfl).mpr (.prim p)
  | literal v => exact (isSubtype_basic rfl rfl).mpr (.literal v.same_refl)
  | object names types ih => exact isSubtype_object.mpr fun n t ht => ⟨t, ht, ih (n, t) ht⟩
  | function params result ihp ihr =>
      refine isSubtype_function.mpr ⟨rfl, fun i p q hp hq => ?_, ihr⟩
      obtain rfl : p = q := Option.some.inj (hp.symm.trans hq)
      exact ihp p (List.mem_of_getElem? hp)
  | union two members alternatives apart ih =>
      refine isSubtype_union_left.mpr fun t ht => ?_
      exact (isSubtype_union_right (alternatives t ht)).mpr ⟨t, ht, ih t ht⟩
  | inter two members alike apart compatible ih =>
      refine isSubtype_inter_right.mpr fun t ht => ?_
      have hb := (Canonical.inter two members alike apart compatible).basic ht
      exact (isSubtype_inter_left hb).mpr ⟨t, ht, ih t ht⟩

/-- Transitivity where nothing is left to take apart, from transitivity for smaller types. In the
parameters of functions the outer types change places. -/
theorem BasicBelow.trans {a b c : Ty}
    (ih : ∀ x y z : Ty, sizeOf x + sizeOf y + sizeOf z < sizeOf a + sizeOf b + sizeOf c →
      Canonical x → Canonical y → Canonical z →
        isSubtype x y = true → isSubtype y z = true → isSubtype x z = true)
    (ha : Canonical a) (hb : Canonical b) (hc : Canonical c)
    (hab : BasicBelow a b) (hbc : BasicBelow b c) : BasicBelow a c := by
  cases hab with
  | prim p => exact hbc
  | literal hvw =>
      cases hbc with
      | literal hwx => exact .literal (Literal.same_trans hvw hwx)
      | base w => exact Literal.base_eq_of_same hvw ▸ .base _
  | base v =>
      cases hbc with
      | prim p => exact .base v
  | object hpq =>
      cases hbc with
      | object hqr =>
          refine .object fun n u hu => ?_
          obtain ⟨t, ht, htu⟩ := hqr n u hu
          obtain ⟨s, hs, hst⟩ := hpq n t ht
          have h₁ := sizeOf_lt_object hs
          have h₂ := sizeOf_lt_object ht
          have h₃ := sizeOf_lt_object hu
          exact ⟨s, hs, ih s t u (by omega) (ha.property hs) (hb.property ht) (hc.property hu)
            hst htu⟩
  | @function ps qs r s hl hp hr =>
      cases hbc with
      | @function _ us _ v hl' hp' hr' =>
          refine .function (hl.trans hl') (fun i p u hi hk => ?_) ?_
          · obtain ⟨q, hj⟩ : ∃ q, qs[i]? = some q := by
              obtain ⟨hlt, -⟩ := List.getElem?_eq_some_iff.mp hi
              exact ⟨_, List.getElem?_eq_getElem (hl ▸ hlt)⟩
            have hpm := List.mem_of_getElem? hi
            have hqm := List.mem_of_getElem? hj
            have hum := List.mem_of_getElem? hk
            have h₁ := sizeOf_lt_param (r := r) hpm
            have h₂ := sizeOf_lt_param (r := s) hqm
            have h₃ := sizeOf_lt_param (r := v) hum
            exact ih u q p (by omega) (hc.param hum) (hb.param hqm) (ha.param hpm)
              (hp' i q u hj hk) (hp i p q hi hj)
          · have h₁ := sizeOf_lt_result ps r
            have h₂ := sizeOf_lt_result qs s
            have h₃ := sizeOf_lt_result us v
            exact ih r s v (by omega) ha.result hb.result hc.result hr hr'

theorem isSubtype_trans {a b c : Ty} (ha : Canonical a) (hb : Canonical b) (hc : Canonical c)
    (hab : isSubtype a b = true) (hbc : isSubtype b c = true) : isSubtype a c = true := by
  induction hn : sizeOf a + sizeOf b + sizeOf c using Nat.strongRecOn generalizing a b c with
  | _ n ih =>
      subst hn
      -- The alternatives of `a` come first, then those of `b`, which only one of them has to meet.
      rcases a.shape with rfl | rfl | ⟨ts, rfl⟩ | halta
      · exact isSubtype_never_left c
      · obtain rfl := eq_unknown_of_isSubtype hb hab
        exact hbc
      · refine isSubtype_union_left.mpr fun t ht => ?_
        have := sizeOf_lt_union ht
        exact ih _ (by omega) (ha.branch ht) hb hc (isSubtype_union_left.mp hab t ht) hbc rfl
      rcases b.shape with rfl | rfl | ⟨us, rfl⟩ | haltb
      · obtain rfl := eq_never_of_isSubtype ha hab
        exact isSubtype_never_left c
      · obtain rfl := eq_unknown_of_isSubtype hc hbc
        exact hab
      · obtain ⟨u, hu, hau⟩ := (isSubtype_union_right halta).mp hab
        have := sizeOf_lt_union hu
        exact ih _ (by omega) ha (hb.branch hu) hc hau (isSubtype_union_left.mp hbc u hu) rfl
      rcases c.shape with rfl | rfl | ⟨vs, rfl⟩ | haltc
      · obtain rfl := eq_never_of_isSubtype hb hbc
        exact hab
      · exact isSubtype_unknown_right a
      · obtain ⟨v, hv, hbv⟩ := (isSubtype_union_right haltb).mp hbc
        have := sizeOf_lt_union hv
        exact (isSubtype_union_right halta).mpr
          ⟨v, hv, ih _ (by omega) ha hb (hc.branch hv) hab hbv rfl⟩
      -- No unions are left; now the requirements, from right to left.
      rcases alternative_shape haltc with ⟨vs, rfl⟩ | hbasicc
      · refine isSubtype_inter_right.mpr fun v hv => ?_
        have := sizeOf_lt_inter hv
        exact ih _ (by omega) ha hb (hc.factor hv) hab (isSubtype_inter_right.mp hbc v hv) rfl
      rcases alternative_shape haltb with ⟨us, rfl⟩ | hbasicb
      · obtain ⟨u, hu, huc⟩ := (isSubtype_inter_left hbasicc).mp hbc
        have := sizeOf_lt_inter hu
        exact ih _ (by omega) ha (hb.factor hu) hc (isSubtype_inter_right.mp hab u hu) huc rfl
      rcases alternative_shape halta with ⟨ts, rfl⟩ | hbasica
      · obtain ⟨t, ht, htb⟩ := (isSubtype_inter_left hbasicb).mp hab
        have := sizeOf_lt_inter ht
        exact (isSubtype_inter_left hbasicc).mpr
          ⟨t, ht, ih _ (by omega) (ha.factor ht) hb hc htb hbc rfl⟩
      · refine (isSubtype_basic hbasica hbasicc).mpr ?_
        exact BasicBelow.trans (fun x y z hlt hx hy hz hxy hyz => ih _ hlt hx hy hz hxy hyz rfl)
          ha hb hc ((isSubtype_basic hbasica hbasicb).mp hab)
          ((isSubtype_basic hbasicb hbasicc).mp hbc)

end Structura.Ty
