namespace Structura.Number

/-- Only the 53 leading bits carry information. -/
def Short (n : Nat) : Prop := Nat.pow 2 (n.log2 - 52) ∣ n

instance (n : Nat) : Decidable (Short n) := inferInstanceAs (Decidable (_ ∣ _))

/-- The natural number nearest to a quotient, the even one in a tie. -/
def roundDiv (num den : Nat) : Nat :=
  let q := num / den
  let r := num % den
  if 2 * r < den ∨ (2 * r = den ∧ q % 2 = 0) then q else q + 1

def roundShort (num den : Nat) : Nat :=
  let k := (num / den).log2 - 52
  roundDiv num (den * Nat.pow 2 k) * Nat.pow 2 k

theorem roundDiv_le (num den : Nat) : roundDiv num den ≤ num / den + 1 := by
  unfold roundDiv
  simp only
  split <;> omega

theorem div_lt_two_pow (num den : Nat) :
    num / (den * Nat.pow 2 ((num / den).log2 - 52)) < Nat.pow 2 53 := by
  rw [Nat.pow_eq, Nat.pow_eq]
  rw [← Nat.div_div_eq_div_mul, Nat.div_lt_iff_lt_mul (Nat.two_pow_pos _), ← Nat.pow_add]
  by_cases h : num / den = 0
  · simp [h]
  · exact (Nat.log2_lt h).1 (by omega)

theorem short_mul_two_pow {q k : Nat} (h : q ≤ Nat.pow 2 53) : Short (q * Nat.pow 2 k) := by
  rw [Nat.pow_eq] at h
  rw [Short, Nat.pow_eq, Nat.pow_eq]
  rcases Nat.lt_or_eq_of_le h with hlt | rfl
  · refine Nat.dvd_trans (Nat.pow_dvd_pow 2 ?_) (Nat.dvd_mul_left _ _)
    by_cases h0 : q * 2 ^ k = 0
    · simp [h0]
    · have hb : q * 2 ^ k < 2 ^ (53 + k) := by
        rw [Nat.pow_add]
        exact Nat.mul_lt_mul_of_pos_right hlt (Nat.two_pow_pos k)
      have := (Nat.log2_lt h0).2 hb
      omega
  · rw [← Nat.pow_add, Nat.log2_two_pow]
    exact Nat.pow_dvd_pow 2 (by omega)

theorem short_roundShort (num den : Nat) : Short (roundShort num den) := by
  apply short_mul_two_pow
  have h₁ := roundDiv_le num (den * Nat.pow 2 ((num / den).log2 - 52))
  have h₂ := div_lt_two_pow num den
  omega

end Structura.Number
