import Structura.Literal

namespace Structura

namespace Binary64

theorem numericEq_self (a : Binary64) (h : a.isNaN = false) : a.numericEq a = true := by
  cases a with
  | nan => simp [isNaN] at h
  | infinity s => simp [numericEq]
  | finite s size => simp [numericEq]

theorem numericEq_finite {s t : Bool} {a b : Magnitude} :
    (finite s a).numericEq (finite t b) = true ↔ a.units = b.units ∧ (s = t ∨ a.units = 0) := by
  simp [numericEq]

theorem numericEq_symm {a b : Binary64} (h : a.numericEq b = true) : b.numericEq a = true := by
  cases a <;> cases b <;> try simp only [numericEq, Bool.false_eq_true] at h
  case infinity.infinity s t =>
    obtain rfl : s = t := by simpa using h
    exact h
  case finite.finite s a t b =>
    obtain ⟨hu, hs⟩ := numericEq_finite.mp h
    exact numericEq_finite.mpr ⟨hu.symm, hs.imp Eq.symm (fun hz => hu ▸ hz)⟩

theorem numericEq_trans {a b c : Binary64} (hab : a.numericEq b = true)
    (hbc : b.numericEq c = true) : a.numericEq c = true := by
  cases a <;> cases b <;> try simp only [numericEq, Bool.false_eq_true] at hab
  case infinity.infinity s t =>
    obtain rfl : s = t := by simpa using hab
    exact hbc
  case finite.finite s a t b =>
    cases c with
    | nan => simp [numericEq] at hbc
    | infinity u => simp [numericEq] at hbc
    | finite u c =>
        obtain ⟨hu, hst⟩ := numericEq_finite.mp hab
        obtain ⟨hv, htu⟩ := numericEq_finite.mp hbc
        refine numericEq_finite.mpr ⟨hu.trans hv, ?_⟩
        rcases hst with rfl | hz
        · exact htu.imp_right hu.trans
        · exact Or.inr hz

theorem isNaN_eq_false_of_numericEq {a b : Binary64} (h : a.numericEq b = true) :
    a.isNaN = false := by
  cases a with
  | nan => simp [numericEq] at h
  | infinity s => rfl
  | finite s size => rfl

theorem numericEq_cases {a b : Binary64} (h : a.numericEq b = true) :
    (∃ s, a = infinity s ∧ b = infinity s) ∨ ∃ s t x y, a = finite s x ∧ b = finite t y := by
  cases a <;> cases b <;> try simp only [numericEq, Bool.false_eq_true] at h
  case infinity.infinity s t =>
    obtain rfl : s = t := by simpa using h
    exact Or.inl ⟨s, rfl, rfl⟩
  case finite.finite s x t y => exact Or.inr ⟨s, t, x, y, rfl, rfl⟩

theorem isZero_eq_of_numericEq {a b : Binary64} (h : a.numericEq b = true) :
    a.isZero = b.isZero := by
  rcases numericEq_cases h with ⟨s, rfl, rfl⟩ | ⟨s, t, x, y, rfl, rfl⟩
  · rfl
  · rw [isZero, isZero, (numericEq_finite.mp h).1]

theorem nan_numericEq (a : Binary64) : nan.numericEq a = false := by
  cases a <;> rfl

theorem numericEq_nan (a : Binary64) : a.numericEq nan = false := by
  cases a <;> rfl

theorem eq_nan_of_isNaN {a : Binary64} (h : a.isNaN = true) : a = .nan := by
  cases a with
  | nan => rfl
  | infinity s => cases h
  | finite s size => cases h

theorem nan_add (a : Binary64) : nan + a = nan := rfl

theorem add_nan (a : Binary64) : a + nan = nan := by
  cases a <;> rfl

/-- The sign of a zero does not count. -/
theorem signed_eq_of_numericEq {s t : Bool} {a b : Magnitude}
    (h : (finite s a).numericEq (finite t b) = true) : signed s a = signed t b := by
  obtain ⟨hu, rfl | hz⟩ := numericEq_finite.mp h
  · rw [signed, signed, hu]
  · simp [signed, hz, ← hu]

theorem isNaN_ofQuotient (negative : Bool) (num den : Nat) :
    (ofQuotient negative num den).isNaN = false := by
  unfold ofQuotient
  split <;> rfl

theorem numericEq_add_finite {s s' t t' : Bool} {a a' b b' : Magnitude}
    (ha : (finite s a).numericEq (finite s' a') = true)
    (hb : (finite t b).numericEq (finite t' b') = true) :
    (finite s a + finite t b).numericEq (finite s' a' + finite t' b') = true := by
  change (add (finite s a) (finite t b)).numericEq (add (finite s' a') (finite t' b')) = true
  rw [add, add, signed_eq_of_numericEq ha, signed_eq_of_numericEq hb]
  split
  · exact numericEq_finite.mpr ⟨rfl, Or.inr rfl⟩
  · exact numericEq_self _ (isNaN_ofQuotient _ _ _)

end Binary64

namespace Literal

@[simp] theorem same_refl (a : Literal) : a.same a = true := by
  cases a with
  | boolean b => simp [same, strictEq]
  | string s => simp [same, strictEq]
  | number n =>
      cases hn : n.isNaN with
      | true => simp [same, hn]
      | false => simp [same, n.numericEq_self hn]

theorem same_symm {a b : Literal} (h : a.same b = true) : b.same a = true := by
  cases a <;> cases b <;> simp_all [same, strictEq]
  rcases h with h | h
  · exact Or.inl (Binary64.numericEq_symm h)
  · exact Or.inr h.symm

theorem same_trans {a b c : Literal} (hab : a.same b = true) (hbc : b.same c = true) :
    a.same c = true := by
  cases a <;> cases b <;> simp only [same, strictEq, Bool.false_eq_true] at hab <;>
    cases c <;> simp_all [same, strictEq]
  -- A number on the way that is not a number at all has only its like on both sides.
  rcases hab with hab | hab <;> rcases hbc with hbc | hbc
  · exact Or.inl (Binary64.numericEq_trans hab hbc)
  · have h := Binary64.isNaN_eq_false_of_numericEq (Binary64.numericEq_symm hab)
    rw [hbc.1] at h
    contradiction
  · have h := Binary64.isNaN_eq_false_of_numericEq hbc
    rw [hab.2] at h
    contradiction
  · exact Or.inr ⟨hab.1, hbc.2⟩

theorem same_number {a b : Binary64} :
    (number a).same (number b) = true ↔ a.numericEq b = true ∨ (a = .nan ∧ b = .nan) := by
  constructor
  · intro h
    rcases (Bool.or_eq_true_iff).mp h with h | h
    · exact Or.inl h
    · obtain ⟨ha, hb⟩ := (Bool.and_eq_true_iff).mp h
      exact Or.inr ⟨Binary64.eq_nan_of_isNaN ha, Binary64.eq_nan_of_isNaN hb⟩
  · rintro (h | ⟨rfl, rfl⟩)
    · exact (Bool.or_eq_true_iff).mpr (Or.inl h)
    · rfl

/-- Sums of the same numbers are the same. -/
theorem same_add {a a' b b' : Binary64} (ha : (number a).same (number a') = true)
    (hb : (number b).same (number b') = true) :
    (number (a + b)).same (number (a' + b')) = true := by
  rcases same_number.mp ha with ha | ⟨rfl, rfl⟩
  · rcases same_number.mp hb with hb | ⟨rfl, rfl⟩
    · rcases Binary64.numericEq_cases ha with ⟨s, rfl, rfl⟩ | ⟨s, s', x, x', rfl, rfl⟩ <;>
        rcases Binary64.numericEq_cases hb with ⟨t, rfl, rfl⟩ | ⟨t, t', y, y', rfl, rfl⟩
      · exact same_refl _
      · exact same_refl (number (.infinity s))
      · exact same_refl (number (.infinity t))
      · exact same_number.mpr (Or.inl (Binary64.numericEq_add_finite ha hb))
    · rw [Binary64.add_nan, Binary64.add_nan]
      exact same_refl _
  · rw [Binary64.nan_add, Binary64.nan_add]
    exact same_refl _

theorem isTruthy_eq_of_same {a b : Literal} (h : a.same b = true) : a.isTruthy = b.isTruthy := by
  cases a <;> cases b <;> try simp only [same, strictEq, Bool.false_eq_true, beq_iff_eq] at h
  case boolean.boolean a b => rw [h]
  case string.string a b => rw [h]
  case number.number a b =>
    rcases same_number.mp h with h | ⟨rfl, rfl⟩
    · rw [isTruthy, isTruthy, Binary64.isZero_eq_of_numericEq h,
        Binary64.isNaN_eq_false_of_numericEq h,
        Binary64.isNaN_eq_false_of_numericEq (Binary64.numericEq_symm h)]
    · rfl

theorem base_eq_of_same {a b : Literal} (h : a.same b = true) : a.base = b.base := by
  cases a <;> cases b <;> simp_all [same, strictEq, base]

theorem numericEq_eq_of_same {a a' b b' : Binary64} (ha : (number a).same (number a') = true)
    (hb : (number b).same (number b') = true) : a.numericEq b = a'.numericEq b' := by
  rcases same_number.mp ha with ha | ⟨rfl, rfl⟩
  · rcases same_number.mp hb with hb | ⟨rfl, rfl⟩
    · have ha' := Binary64.numericEq_symm ha
      have hb' := Binary64.numericEq_symm hb
      exact Bool.eq_iff_iff.mpr
        ⟨fun h => Binary64.numericEq_trans ha' (Binary64.numericEq_trans h hb),
          fun h => Binary64.numericEq_trans ha (Binary64.numericEq_trans h hb')⟩
    · rw [Binary64.numericEq_nan, Binary64.numericEq_nan]
  · rw [Binary64.nan_numericEq, Binary64.nan_numericEq]

/-- A program that compares values cannot tell literals of one singleton type apart. -/
theorem strictEq_eq_of_same {a a' b b' : Literal} (ha : a.same a' = true) (hb : b.same b' = true) :
    a.strictEq b = a'.strictEq b' := by
  have hbase := base_eq_of_same ha
  have hbase' := base_eq_of_same hb
  cases a <;> cases a' <;> simp only [base, reduceCtorEq] at hbase
  all_goals cases b <;> cases b' <;> simp only [base, reduceCtorEq] at hbase'
  case number.number.number.number => exact numericEq_eq_of_same ha hb
  all_goals simp_all [same, strictEq]

end Literal

end Structura
