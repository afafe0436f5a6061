import Mathlib.Data.List.Perm.Subperm
import Structura.Proofs.Canonical
import Structura.Ty.Same

namespace Structura.Ty

def SameMembers (ts us : List Ty) : Prop :=
  ts.length = us.length ∧ (∀ t ∈ ts, ∃ u ∈ us, same t u = true) ∧
    ∀ u ∈ us, ∃ t ∈ ts, same t u = true

inductive SameShape : Ty → Ty → Prop
  | never : SameShape .never .never
  | unknown : SameShape .unknown .unknown
  | prim (p : Primitive) : SameShape (.prim p) (.prim p)
  | literal {v w : Literal} (h : v.same w = true) : SameShape (.literal v) (.literal w)
  | object {ps qs : List (String × Ty)} (hl : ps.length = qs.length)
      (h : ∀ n s, (n, s) ∈ ps → ∃ t, (n, t) ∈ qs ∧ same s t = true) :
      SameShape (.object ps) (.object qs)
  | function {ps qs : List Ty} {r s : Ty} (hl : ps.length = qs.length)
      (hp : ∀ (i : Nat) p q, ps[i]? = some p → qs[i]? = some q → same p q = true)
      (hr : same r s = true) : SameShape (.function ps r) (.function qs s)
  | union {ts us : List Ty} (h : SameMembers ts us) : SameShape (.union ts) (.union us)
  | inter {ts us : List Ty} (h : SameMembers ts us) : SameShape (.inter ts) (.inter us)

theorem same_object {ps qs : List (String × Ty)} :
    same (.object ps) (.object qs) = true ↔
      ps.length = qs.length ∧ ∀ n s, (n, s) ∈ ps → ∃ t, (n, t) ∈ qs ∧ same s t = true := by
  rw [same]
  simp

theorem same_function {ps qs : List Ty} {r s : Ty} :
    same (.function ps r) (.function qs s) = true ↔
      ps.length = qs.length ∧
        (∀ (i : Nat) p q, ps[i]? = some p → qs[i]? = some q → same p q = true) ∧
          same r s = true := by
  rw [same, all_attach_zip ps qs same, Bool.and_eq_true, Bool.and_eq_true, beq_iff_eq, all_zip,
    and_assoc]

theorem same_union {ts us : List Ty} :
    same (.union ts) (.union us) = true ↔ SameMembers ts us := by
  rw [same, SameMembers]
  simp [and_assoc]

theorem same_inter {ts us : List Ty} :
    same (.inter ts) (.inter us) = true ↔ SameMembers ts us := by
  rw [same, SameMembers]
  simp [and_assoc]

theorem same_iff {a b : Ty} : same a b = true ↔ SameShape a b := by
  constructor
  · intro h
    cases a <;> cases b
    case object.object ps qs =>
      obtain ⟨hl, h⟩ := same_object.mp h
      exact .object hl h
    case function.function ps r qs s =>
      obtain ⟨hl, hp, hr⟩ := same_function.mp h
      exact .function hl hp hr
    case union.union ts us => exact .union (same_union.mp h)
    case inter.inter ts us => exact .inter (same_inter.mp h)
    all_goals simp only [same, Bool.false_eq_true, beq_iff_eq] at h
    case never.never => exact .never
    case unknown.unknown => exact .unknown
    case prim.prim p q => exact h ▸ .prim p
    case literal.literal v w => exact .literal h
  · intro h
    cases h with
    | never => simp [same]
    | unknown => simp [same]
    | prim p => simp [same]
    | literal h => simpa [same] using h
    | object hl h => exact same_object.mpr ⟨hl, h⟩
    | function hl hp hr => exact same_function.mpr ⟨hl, hp, hr⟩
    | union h => exact same_union.mpr h
    | inter h => exact same_inter.mpr h

theorem names_subperm {ps qs : List (String × Ty)} (hps : Canonical (.object ps))
    (h : ∀ n s, (n, s) ∈ ps → ∃ t, (n, t) ∈ qs) :
    (ps.map Prod.fst).Subperm (qs.map Prod.fst) := by
  cases hps with
  | object names _ =>
      refine List.subperm_of_subset names fun n hn => ?_
      obtain ⟨⟨n, s⟩, hs, rfl⟩ := List.mem_map.mp hn
      obtain ⟨t, ht⟩ := h n s hs
      exact List.mem_map.mpr ⟨(n, t), ht, rfl⟩

/-- As many properties, and every name on the left also on the right: then no name is only on the
right. -/
theorem exists_property_of_length {ps qs : List (String × Ty)} (hps : Canonical (.object ps))
    (hl : ps.length = qs.length) (h : ∀ n s, (n, s) ∈ ps → ∃ t, (n, t) ∈ qs) {n : String} {t : Ty}
    (ht : (n, t) ∈ qs) : ∃ s, (n, s) ∈ ps := by
  have hperm := (names_subperm hps h).perm_of_length_le (by simp [hl])
  have hn : n ∈ ps.map Prod.fst := hperm.mem_iff.mpr (List.mem_map.mpr ⟨(n, t), ht, rfl⟩)
  obtain ⟨⟨m, s⟩, hs, rfl⟩ := List.mem_map.mp hn
  exact ⟨s, hs⟩

theorem isSubtype_of_same {a b : Ty} (ha : Canonical a) (hb : Canonical b) (h : same a b = true) :
    isSubtype a b = true ∧ isSubtype b a = true := by
  induction a, b using same.induct with
  | case1 | case2 => exact ⟨isSubtype_refl ha, isSubtype_refl ha⟩
  | case3 p q =>
      obtain rfl : p = q := by simpa [same] using h
      exact ⟨isSubtype_refl ha, isSubtype_refl ha⟩
  | case4 v w =>
      have hvw : v.same w = true := by simpa [same] using h
      exact ⟨(isSubtype_basic rfl rfl).mpr (.literal hvw),
        (isSubtype_basic rfl rfl).mpr (.literal (Literal.same_symm hvw))⟩
  | case5 ps qs ih =>
      obtain ⟨hl, hpq⟩ := same_object.mp h
      have hsame {n : String} {s t : Ty} (hs : (n, s) ∈ ps) (ht : (n, t) ∈ qs) :
          isSubtype s t = true ∧ isSubtype t s = true := by
        obtain ⟨u, hu, hsu⟩ := hpq n s hs
        obtain rfl := hb.property_unique hu ht
        exact ih n s hs n u ht (ha.property hs) (hb.property ht) hsu
      have hnames (n : String) (s : Ty) (hs : (n, s) ∈ ps) : ∃ t, (n, t) ∈ qs :=
        (hpq n s hs).imp fun _ => And.left
      constructor
      · refine isSubtype_object.mpr fun n t ht => ?_
        obtain ⟨s, hs⟩ := exists_property_of_length ha hl hnames ht
        exact ⟨s, hs, (hsame hs ht).1⟩
      · refine isSubtype_object.mpr fun n s hs => ?_
        obtain ⟨t, ht⟩ := hnames n s hs
        exact ⟨t, ht, (hsame hs ht).2⟩
  | case6 ps r qs s ihp ihr =>
      obtain ⟨hl, hp, hr⟩ := same_function.mp h
      have hsame (i : Nat) (p q : Ty) (hi : ps[i]? = some p) (hj : qs[i]? = some q) :
          isSubtype p q = true ∧ isSubtype q p = true := by
        have hpm := List.mem_of_getElem? hi
        have hqm := List.mem_of_getElem? hj
        exact ihp p hpm q hqm (ha.param hpm) (hb.param hqm) (hp i p q hi hj)
      obtain ⟨hrs, hsr⟩ := ihr ha.result hb.result hr
      exact ⟨isSubtype_function.mpr ⟨hl, fun i p q hi hj => (hsame i p q hi hj).2, hrs⟩,
        isSubtype_function.mpr ⟨hl.symm, fun i q p hj hi => (hsame i p q hi hj).1, hsr⟩⟩
  | case7 ts us ih _ =>
      obtain ⟨-, hts, hus⟩ := same_union.mp h
      constructor
      · refine isSubtype_union_left.mpr fun t ht => ?_
        obtain ⟨u, hu, htu⟩ := hts t ht
        exact (isSubtype_union_right (ha.alternative ht)).mpr
          ⟨u, hu, (ih t ht u hu (ha.branch ht) (hb.branch hu) htu).1⟩
      · refine isSubtype_union_left.mpr fun u hu => ?_
        obtain ⟨t, ht, htu⟩ := hus u hu
        exact (isSubtype_union_right (hb.alternative hu)).mpr
          ⟨t, ht, (ih t ht u hu (ha.branch ht) (hb.branch hu) htu).2⟩
  | case8 ts us ih _ =>
      obtain ⟨-, hts, hus⟩ := same_inter.mp h
      constructor
      · refine isSubtype_inter_right.mpr fun u hu => ?_
        obtain ⟨t, ht, htu⟩ := hus u hu
        exact (isSubtype_inter_left (hb.basic hu)).mpr
          ⟨t, ht, (ih t ht u hu (ha.factor ht) (hb.factor hu) htu).1⟩
      · refine isSubtype_inter_right.mpr fun t ht => ?_
        obtain ⟨u, hu, htu⟩ := hts t ht
        exact (isSubtype_inter_left (ha.basic ht)).mpr
          ⟨u, hu, (ih t ht u hu (ha.factor ht) (hb.factor hu) htu).2⟩
  | case9 => simp [same, *] at h

end Structura.Ty
