import Structura.Proofs.LiteralSame
import Structura.Ty.Subtype

namespace Structura.Ty

/-- Types that are not put together from alternatives or requirements, without the extremes. -/
def isBasic : Ty → Bool
  | .prim _ | .literal _ | .object _ | .function _ _ => true
  | _ => false

def isAlternative : Ty → Bool
  | .never | .unknown | .union _ => false
  | _ => true

theorem isAlternative_of_isBasic {a : Ty} (h : a.isBasic = true) : a.isAlternative = true := by
  cases a <;> simp_all [isBasic, isAlternative]

theorem shape (a : Ty) :
    a = .never ∨ a = .unknown ∨ (∃ ts, a = .union ts) ∨ a.isAlternative = true := by
  cases a <;> simp [isAlternative]

theorem alternative_shape {a : Ty} (h : a.isAlternative = true) :
    (∃ ts, a = .inter ts) ∨ a.isBasic = true := by
  cases a <;> simp_all [isAlternative, isBasic]

section Sizes

theorem sizeOf_lt_union {t : Ty} {ts : List Ty} (h : t ∈ ts) : sizeOf t < sizeOf (union ts) := by
  have := List.sizeOf_lt_of_mem h
  simp only [union.sizeOf_spec]
  omega

theorem sizeOf_lt_inter {t : Ty} {ts : List Ty} (h : t ∈ ts) : sizeOf t < sizeOf (inter ts) := by
  have := List.sizeOf_lt_of_mem h
  simp only [inter.sizeOf_spec]
  omega

theorem sizeOf_lt_object {n : String} {t : Ty} {ps : List (String × Ty)} (h : (n, t) ∈ ps) :
    sizeOf t < sizeOf (object ps) := by
  have := List.sizeOf_lt_of_mem h
  simp only [Prod.mk.sizeOf_spec, object.sizeOf_spec] at this ⊢
  omega

theorem sizeOf_lt_param {p r : Ty} {ps : List Ty} (h : p ∈ ps) :
    sizeOf p < sizeOf (function ps r) := by
  have := List.sizeOf_lt_of_mem h
  simp only [function.sizeOf_spec]
  omega

theorem sizeOf_lt_result (ps : List Ty) (r : Ty) : sizeOf r < sizeOf (function ps r) := by
  simp only [function.sizeOf_spec]
  omega

end Sizes

theorem all_attach_zip {α β : Type} (xs : List α) (ys : List β) (f : α → β → Bool) :
    ((xs.attach.zip ys.attach).all fun z => f z.1.1 z.2.1) = (xs.zip ys).all fun z => f z.1 z.2 := by
  have h : xs.zip ys = (xs.attach.zip ys.attach).map (Prod.map Subtype.val Subtype.val) := by
    rw [← List.zip_map, List.attach_map_subtype_val, List.attach_map_subtype_val]
  rw [h, List.all_map]
  rfl

theorem all_zip {α β : Type} (xs : List α) (ys : List β) (f : α → β → Bool) :
    ((xs.zip ys).all fun z => f z.1 z.2) = true ↔
      ∀ (i : Nat) x y, xs[i]? = some x → ys[i]? = some y → f x y = true := by
  rw [List.all_eq_true]
  constructor
  · intro h i x y hx hy
    exact h (x, y) (List.mem_of_getElem? (List.getElem?_zip_eq_some.mpr ⟨hx, hy⟩))
  · rintro h ⟨x, y⟩ hz
    obtain ⟨i, hi⟩ := List.mem_iff_getElem?.mp hz
    obtain ⟨hx, hy⟩ := List.getElem?_zip_eq_some.mp hi
    exact h i x y hx hy

@[simp] theorem isSubtype_never_left (b : Ty) : isSubtype .never b = true := by
  rw [isSubtype]

@[simp] theorem isSubtype_unknown_right (a : Ty) : isSubtype a .unknown = true := by
  cases a <;> simp [isSubtype]

theorem isSubtype_union_left {ts : List Ty} {b : Ty} :
    isSubtype (.union ts) b = true ↔ ∀ t ∈ ts, isSubtype t b = true := by
  by_cases hb : b = .unknown
  · subst b
    simp
  · rw [isSubtype.eq_3 b ts hb]
    simp

theorem isSubtype_union_right_iff {a : Ty} {us : List Ty} (hn : a ≠ .never)
    (hu : ∀ ts, a ≠ .union ts) :
    isSubtype a (.union us) = true ↔ ∃ u ∈ us, isSubtype a u = true := by
  rw [isSubtype.eq_4 a us hn hu]
  simp

theorem isSubtype_union_right {a : Ty} {us : List Ty} (ha : a.isAlternative = true) :
    isSubtype a (.union us) = true ↔ ∃ u ∈ us, isSubtype a u = true := by
  refine isSubtype_union_right_iff ?_ ?_ <;> cases a <;> simp_all [isAlternative]

/-- Nothing is asked of the left side: its own alternatives are taken apart first, and every one of
them is compared with all members. -/
theorem isSubtype_inter_right {us : List Ty} : ∀ {a : Ty},
    isSubtype a (.inter us) = true ↔ ∀ u ∈ us, isSubtype a u = true
  | .never => by simp
  | .union ts => by
      simp only [isSubtype_union_left]
      constructor
      · intro h u hu t ht
        have := sizeOf_lt_union ht
        exact isSubtype_inter_right.mp (h t ht) u hu
      · intro h t ht
        have := sizeOf_lt_union ht
        exact isSubtype_inter_right.mpr fun u hu => h u hu t ht
  | .unknown | .prim _ | .literal _ | .object _ | .function _ _ | .inter _ => by simp [isSubtype]
termination_by a => sizeOf a

theorem isSubtype_inter_left_iff {ts : List Ty} {b : Ty} (hn : b ≠ .unknown)
    (hu : ∀ us, b ≠ .union us) (hi : ∀ us, b ≠ .inter us) :
    isSubtype (.inter ts) b = true ↔ ∃ t ∈ ts, isSubtype t b = true := by
  rw [isSubtype.eq_6 b ts hn hu hi]
  simp

theorem isSubtype_inter_left {ts : List Ty} {b : Ty} (hb : b.isBasic = true) :
    isSubtype (.inter ts) b = true ↔ ∃ t ∈ ts, isSubtype t b = true := by
  refine isSubtype_inter_left_iff ?_ ?_ ?_ <;> cases b <;> simp_all [isBasic]

theorem isSubtype_object {ps qs : List (String × Ty)} :
    isSubtype (.object ps) (.object qs) = true ↔
      ∀ n t, (n, t) ∈ qs → ∃ s, (n, s) ∈ ps ∧ isSubtype s t = true := by
  rw [isSubtype]
  simp

theorem isSubtype_function {ps qs : List Ty} {r s : Ty} :
    isSubtype (.function ps r) (.function qs s) = true ↔
      ps.length = qs.length ∧
        (∀ (i : Nat) p q, ps[i]? = some p → qs[i]? = some q → isSubtype q p = true) ∧
          isSubtype r s = true := by
  rw [isSubtype, all_attach_zip qs ps isSubtype, Bool.and_eq_true, Bool.and_eq_true, beq_iff_eq,
    all_zip, and_assoc]
  constructor
  · rintro ⟨hl, hp, hr⟩
    exact ⟨hl, fun i p q hi hj => hp i q p hj hi, hr⟩
  · rintro ⟨hl, hp, hr⟩
    exact ⟨hl, fun i q p hj hi => hp i p q hi hj, hr⟩

inductive BasicBelow : Ty → Ty → Prop
  | prim (p : Primitive) : BasicBelow (.prim p) (.prim p)
  | literal {v w : Literal} (h : v.same w = true) : BasicBelow (.literal v) (.literal w)
  | base (v : Literal) : BasicBelow (.literal v) (.prim v.base)
  | object {ps qs : List (String × Ty)}
      (h : ∀ n t, (n, t) ∈ qs → ∃ s, (n, s) ∈ ps ∧ isSubtype s t = true) :
      BasicBelow (.object ps) (.object qs)
  | function {ps qs : List Ty} {r s : Ty} (hl : ps.length = qs.length)
      (hp : ∀ (i : Nat) p q, ps[i]? = some p → qs[i]? = some q → isSubtype q p = true)
      (hr : isSubtype r s = true) : BasicBelow (.function ps r) (.function qs s)

theorem isSubtype_basic {a b : Ty} (ha : a.isBasic = true) (hb : b.isBasic = true) :
    isSubtype a b = true ↔ BasicBelow a b := by
  constructor
  · intro h
    cases a <;> cases b <;> simp only [isBasic, Bool.false_eq_true] at ha hb
    case object.object ps qs => exact .object (isSubtype_object.mp h)
    case function.function ps r qs s =>
      obtain ⟨hl, hp, hr⟩ := isSubtype_function.mp h
      exact .function hl hp hr
    all_goals simp only [isSubtype, Bool.false_eq_true, beq_iff_eq] at h
    case prim.prim p q => exact h ▸ .prim p
    case literal.prim v q => exact h ▸ .base v
    case literal.literal v w => exact .literal h
  · intro h
    cases h with
    | prim p => simp [isSubtype]
    | literal h => simpa [isSubtype] using h
    | base v => simp [isSubtype]
    | object h => exact isSubtype_object.mpr h
    | function hl hp hr => exact isSubtype_function.mpr ⟨hl, hp, hr⟩

end Structura.Ty
