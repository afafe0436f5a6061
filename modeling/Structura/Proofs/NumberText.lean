import Structura.Number.Shortest
import Structura.Proofs.TokenValues

namespace Structura

namespace Number

variable {num den k : Nat}

theorem roundDiv_scale (hk : 0 < k) : roundDiv (num * k) (den * k) = roundDiv num den := by
  have hlt : 2 * (num % den * k) < den * k ↔ 2 * (num % den) < den := by
    rw [← Nat.mul_assoc, Nat.mul_lt_mul_right hk]
  have heq : 2 * (num % den * k) = den * k ↔ 2 * (num % den) = den := by
    rw [← Nat.mul_assoc, Nat.mul_left_inj (Nat.ne_of_gt hk)]
  unfold roundDiv
  simp only [Nat.mul_div_mul_right _ _ hk, Nat.mul_mod_mul_right, hlt, heq]

theorem roundShort_scale (hk : 0 < k) : roundShort (num * k) (den * k) = roundShort num den := by
  unfold roundShort
  simp only [Nat.mul_div_mul_right _ _ hk]
  rw [Nat.mul_right_comm, roundDiv_scale hk]

/-- Rounding looks at the value of a quotient only. -/
theorem roundShort_congr {num' den' : Nat} (hden : 0 < den) (hden' : 0 < den')
    (h : num * den' = num' * den) : roundShort num den = roundShort num' den' := by
  calc roundShort num den
      = roundShort (num * den') (den * den') := (roundShort_scale hden').symm
    _ = roundShort (num' * den) (den' * den) := by rw [h, Nat.mul_comm den]
    _ = roundShort num' den' := roundShort_scale hden

theorem pow_ten_pos (n : Nat) : 0 < Nat.pow 10 n := Nat.pow_pos (by decide)

theorem roundShort_short {n : Nat} (h : Short n) : roundShort n 1 = n := by
  obtain ⟨q, hq⟩ := h
  have hpos : 0 < Nat.pow 2 (n.log2 - 52) := Nat.two_pow_pos _
  unfold roundShort
  simp only [Nat.div_one, Nat.one_mul]
  generalize Nat.pow 2 (n.log2 - 52) = p at hq hpos
  subst hq
  have hround : roundDiv (p * q) p = q := by
    unfold roundDiv
    rw [Nat.mul_div_cancel_left q hpos, Nat.mul_mod_right]
    exact if_pos (.inl hpos)
  rw [hround, Nat.mul_comm]

end Number

namespace Binary64

variable {negative : Bool}

theorem ofQuotient_congr {num den num' den' : Nat} (hden : 0 < den) (hden' : 0 < den')
    (h : num * den' = num' * den) : ofQuotient negative num den = ofQuotient negative num' den' := by
  unfold ofQuotient Magnitude.round?
  simp only [Number.roundShort_congr hden hden' h]

theorem ofQuotient_units (m : Magnitude) : ofQuotient negative m.units 1 = .finite negative m := by
  unfold ofQuotient Magnitude.round?
  simp only [Number.roundShort_short m.short, dif_pos m.bounded]

/-- Both signs of the exponent at once. -/
theorem ofDecimal_eq (d : Decimal) :
    ofDecimal negative d = ofQuotient negative
      (d.coefficient * Nat.pow 10 d.exponent.toNat * Magnitude.one) (Nat.pow 10 (-d.exponent).toNat) := by
  unfold ofDecimal
  split
  · rw [Int.toNat_of_nonpos (by omega : -d.exponent ≤ 0)]
  · rw [Int.toNat_of_nonpos (by omega : d.exponent ≤ 0)]
    exact congrArg (ofQuotient negative · _) (congrArg (· * Magnitude.one) (Nat.mul_one _).symm)

/-- Zeros of the coefficient may be counted by the exponent. -/
theorem ofDecimal_shift (negative : Bool) (c k : Nat) (e : Int) :
    ofDecimal negative ⟨c * Nat.pow 10 k, e⟩ = ofDecimal negative ⟨c, e + k⟩ := by
  have hadd (a b : Nat) : Nat.pow 10 (a + b) = Nat.pow 10 a * Nat.pow 10 b := Nat.pow_add 10 a b
  have hplaces : k + e.toNat + (-(e + k)).toNat = (e + k).toNat + (-e).toNat := by omega
  rw [ofDecimal_eq, ofDecimal_eq]
  apply ofQuotient_congr (Number.pow_ten_pos _) (Number.pow_ten_pos _)
  simp only
  calc c * Nat.pow 10 k * Nat.pow 10 e.toNat * Magnitude.one * Nat.pow 10 (-(e + k)).toNat
      = c * Nat.pow 10 (k + e.toNat + (-(e + k)).toNat) * Magnitude.one := by
        rw [hadd, hadd]
        ac_rfl
    _ = c * Nat.pow 10 (e + k).toNat * Magnitude.one * Nat.pow 10 (-e).toNat := by
        rw [hplaces, hadd]
        ac_rfl

theorem ofDecimal_reduce (d : Decimal) : ofDecimal negative d.reduce = ofDecimal negative d := by
  fun_induction Decimal.reduce d with
  | case1 d h ih =>
      have hcoefficient : d.coefficient = d.coefficient / 10 * Nat.pow 10 1 := by
        rw [show Nat.pow 10 1 = 10 from rfl]
        omega
      have hshift := ofDecimal_shift negative (d.coefficient / 10) 1 d.exponent
      rw [← hcoefficient] at hshift
      exact ih.trans hshift.symm
  | case2 d h => rfl

/-- The text of digits alone. -/
theorem ofText?_whole {ds : List Char} (hne : ds ≠ []) (hds : ∀ d ∈ ds, d.isDigit = true) :
    ofText? (String.ofList ds) = some (ofDecimal false (.ofDigits ds [])) := by
  obtain ⟨d, cs, rfl⟩ := List.exists_cons_of_ne_nil hne
  rw [ofText?_digit String.toList_ofList (hds d List.mem_cons_self), String.toList_ofList,
    Number.decimal?_whole hne hds]
  rfl

/-- The text of digits on both sides of a point. -/
theorem ofText?_fraction {ds es : List Char} (hne : ds ≠ []) (hds : ∀ d ∈ ds, d.isDigit = true)
    (hes : ∀ e ∈ es, e.isDigit = true) :
    ofText? (String.ofList (ds ++ '.' :: es)) = some (ofDecimal false (.ofDigits ds es)) := by
  obtain ⟨d, cs, rfl⟩ := List.exists_cons_of_ne_nil hne
  rw [List.cons_append, ofText?_digit String.toList_ofList (hds d List.mem_cons_self),
    String.toList_ofList, ← List.cons_append, Number.decimal?_fraction hne hds hes]
  rfl

end Binary64

namespace Decimal

theorem natOfDigits_replicate_zero (n : Nat) (ds : List Char) :
    natOfDigits (List.replicate n '0' ++ ds) = natOfDigits ds := by
  change Nat.ofDigitChars 10 (List.replicate n '0' ++ ds) 0 = _
  rw [Nat.ofDigitChars_append, Nat.ofDigitChars_replicate_zero, Nat.mul_zero]
  rfl

theorem natOfDigits_toDigits (n : Nat) : natOfDigits (Nat.toDigits 10 n) = n :=
  Nat.ofDigitChars_toDigits (by decide) (by decide)

theorem isDigit_of_mem_toDigits {n : Nat} {c : Char} (h : c ∈ Nat.toDigits 10 n) : c.isDigit = true :=
  Nat.isDigit_of_mem_toDigits (by decide) (by decide) h

def Shown (d : Decimal) (text : String) : Prop :=
  Lexer.IsNumber text.toList ∧ Binary64.ofText? text = some (.ofDecimal false d)

theorem shown_whole (d : Decimal) (h : 0 ≤ d.exponent) :
    d.Shown (String.ofList (Nat.toDigits 10 d.coefficient ++ List.replicate d.exponent.toNat '0')) := by
  generalize hds : Nat.toDigits 10 d.coefficient ++ List.replicate d.exponent.toNat '0' = ds
  have hne : ds ≠ [] := by
    subst hds
    exact List.append_ne_nil_of_left_ne_nil Nat.toDigits_ne_nil _
  have hdigits : ∀ c ∈ ds, c.isDigit = true := by
    subst hds
    intro c hc
    rcases List.mem_append.mp hc with hc | hc
    · exact isDigit_of_mem_toDigits hc
    · rw [List.eq_of_mem_replicate hc]
      decide
  have hvalue : natOfDigits ds = d.coefficient * Nat.pow 10 d.exponent.toNat := by
    subst hds
    change Nat.ofDigitChars 10 (_ ++ _) 0 = _
    rw [Nat.ofDigitChars_append, Nat.ofDigitChars_replicate_zero,
      Nat.ofDigitChars_toDigits (by decide) (by decide), Nat.mul_comm]
    rfl
  refine ⟨?_, ?_⟩
  · rw [String.toList_ofList]
    exact .whole hne hdigits
  · have hexponent : (0 : Int) + d.exponent.toNat = d.exponent := by omega
    rw [Binary64.ofText?_whole hne hdigits, ofDigits, List.append_nil, hvalue]
    have hshift := Binary64.ofDecimal_shift false d.coefficient d.exponent.toNat 0
    rw [hexponent] at hshift
    exact congrArg some hshift

theorem shown_fraction (d : Decimal) {places : Nat} (h : d.exponent = -(places : Int)) (hpos : 0 < places)
    {padded : List Char}
    (hpadded : padded = List.replicate (places + 1 - (Nat.toDigits 10 d.coefficient).length) '0' ++
      Nat.toDigits 10 d.coefficient) :
    d.Shown (String.ofList (padded.take (padded.length - places) ++
      '.' :: padded.drop (padded.length - places))) := by
  have hlength : places + 1 ≤ padded.length := by
    rw [hpadded, List.length_append, List.length_replicate]
    omega
  have hdigits : ∀ c ∈ padded, c.isDigit = true := by
    intro c hc
    rw [hpadded] at hc
    rcases List.mem_append.mp hc with hc | hc
    · rw [List.eq_of_mem_replicate hc]
      decide
    · exact isDigit_of_mem_toDigits hc
  have hwhole : padded.take (padded.length - places) ≠ [] := by
    apply List.ne_nil_of_length_pos
    rw [List.length_take]
    omega
  have hfraction : (padded.drop (padded.length - places)).length = places := by
    rw [List.length_drop]
    omega
  have hfraction_ne : padded.drop (padded.length - places) ≠ [] := by
    apply List.ne_nil_of_length_pos
    rw [hfraction]
    exact hpos
  have htake : ∀ c ∈ padded.take (padded.length - places), c.isDigit = true :=
    fun c hc => hdigits c (List.mem_of_mem_take hc)
  have hdrop : ∀ c ∈ padded.drop (padded.length - places), c.isDigit = true :=
    fun c hc => hdigits c (List.mem_of_mem_drop hc)
  refine ⟨?_, ?_⟩
  · rw [String.toList_ofList]
    exact .fraction hwhole htake hfraction_ne hdrop
  · have hvalue : natOfDigits padded = d.coefficient := by
      rw [hpadded, natOfDigits_replicate_zero, natOfDigits_toDigits]
    rw [Binary64.ofText?_fraction hwhole htake hdrop, ofDigits, List.take_append_drop, hfraction, hvalue,
      ← h]

theorem shown_render (d : Decimal) : d.Shown d.render := by
  unfold render
  simp only
  split
  · rename_i h
    exact shown_whole d h
  · rename_i h
    exact shown_fraction d (by omega) (by omega) rfl

end Decimal

namespace Magnitude

variable {m : Magnitude}

theorem readsBack_iff {d : Decimal} :
    m.readsBack d = true ↔ Binary64.ofDecimal false d = .finite false m := by
  rw [readsBack, beq_iff_eq]

theorem readsBack_of_withDigits? {n : Nat} {d : Decimal} (h : m.withDigits? n = some d) :
    m.readsBack d = true := by
  unfold withDigits? at h
  simp only at h
  split at h
  · split at h
    · cases h
      assumption
    · cases h
      assumption
  · cases h
    assumption
  · cases h
    assumption
  · cases h

theorem readsBack_exact (m : Magnitude) : m.readsBack m.exact = true := by
  have hpow (n : Nat) : Nat.pow 5 n * Nat.pow 2 n = Nat.pow 10 n := (Nat.mul_pow 5 2 n).symm
  rw [readsBack_iff, Binary64.ofDecimal_eq, exact, one, ← Binary64.ofQuotient_units]
  generalize Number.unitPlaces = n
  apply Binary64.ofQuotient_congr (Number.pow_ten_pos _) Nat.one_pos
  simp only
  rw [Int.toNat_of_nonpos (by omega), Int.neg_neg, Int.toNat_natCast, Nat.mul_one,
    show Nat.pow 10 0 = 1 from rfl, Nat.mul_one, Nat.mul_assoc, hpow]

theorem readsBack_shortest (m : Magnitude) : m.readsBack m.shortest = true := by
  rw [readsBack_iff, shortest, Binary64.ofDecimal_reduce, ← readsBack_iff]
  cases h : (List.range 17).findSome? fun i => m.withDigits? (i + 1) with
  | none => exact m.readsBack_exact
  | some d =>
      obtain ⟨i, -, hi⟩ := List.exists_of_findSome?_eq_some h
      exact readsBack_of_withDigits? hi

/-- What is printed for a number is a number token with the same value. -/
theorem ofText?_render (m : Magnitude) :
    Lexer.IsNumber m.render.toList ∧ Binary64.ofText? m.render = some (.finite false m) := by
  unfold render
  split
  · rename_i hzero
    obtain ⟨_, _, _⟩ := m
    subst hzero
    have hvalue : Binary64.ofText? "0" = some (.finite false .zero) := by decide +kernel
    exact ⟨.whole (by decide) (List.all_eq_true.mp (by decide)), hvalue⟩
  · obtain ⟨hnumber, hvalue⟩ := m.shortest.shown_render
    rw [readsBack_iff.mp m.readsBack_shortest] at hvalue
    exact ⟨hnumber, hvalue⟩

end Magnitude

end Structura
