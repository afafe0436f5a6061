import Structura.Proofs.Grammar

namespace Structura

namespace Number

variable {ds es : List Char}

theorem splitSign_digit {d : Char} (hd : d.isDigit = true) : splitSign (d :: ds) = (false, d :: ds) := by
  unfold splitSign
  split
  · rename_i heq
    cases heq
    cases hd
  · rename_i heq
    cases heq
    cases hd
  · rfl

theorem decimal?_whole (hne : ds ≠ []) (hds : ∀ d ∈ ds, d.isDigit = true) :
    decimal? ds = some (.ofDigits ds []) := by
  simp [decimal?, List.takeWhile_eq_self_iff.mpr hds, List.dropWhile_eq_nil_iff.mpr hds, hne, exponent?,
    Decimal.ofDigits]
  omega

theorem decimal?_fraction (hne : ds ≠ []) (hds : ∀ d ∈ ds, d.isDigit = true)
    (hes : ∀ d ∈ es, d.isDigit = true) : decimal? (ds ++ '.' :: es) = some (.ofDigits ds es) := by
  simp [decimal?, List.takeWhile_append_of_pos hds, List.dropWhile_append_of_pos hds,
    List.takeWhile_eq_self_iff.mpr hes, List.dropWhile_eq_nil_iff.mpr hes, hne, exponent?,
    Decimal.ofDigits]
  omega

theorem toLower_digit {d : Char} (hd : d.isDigit = true) : d.toLower = d := by
  have hrange := Lexer.isDigit_iff.mp hd
  have hupper : ¬(d.val ≥ 'A'.val ∧ d.val ≤ 'Z'.val) := by
    simp only [ge_iff_le, UInt32.le_iff_toNat_le, Char.toNat_val, Char.reduceVal, UInt32.reduceToNat]
    omega
  exact dif_neg hupper

end Number

theorem Binary64.ofText?_digit {text : String} {d : Char} {cs : List Char}
    (htext : text.toList = d :: cs) (hd : d.isDigit = true) :
    ofText? text = (Number.decimal? text.toList).map (ofDecimal false) := by
  have hword (c : Char) (rest : List Char) (hc : c.isDigit = false) :
      String.ofList ((d :: cs).map Char.toLower) ≠ String.ofList (c :: rest) := by
    intro h
    rw [String.ofList_inj, List.map_cons, Number.toLower_digit hd] at h
    obtain ⟨rfl, -⟩ := List.cons.inj h
    rw [hd] at hc
    cases hc
  rw [ofText?, htext, Number.splitSign_digit hd]
  simp only
  rw [if_neg, if_neg]
  · exact hword 'n' ['a', 'n'] rfl
  · rintro (h | h)
    · exact hword 'i' ['n', 'f'] rfl h
    · exact hword 'i' ['n', 'f', 'i', 'n', 'i', 't', 'y'] rfl h

theorem Lexer.IsNumber.lineFeed_notMem {cs : List Char} (h : IsNumber cs) : '\n' ∉ cs := by
  have hdigits {ds : List Char} (hds : ∀ d ∈ ds, d.isDigit = true) : '\n' ∉ ds :=
    fun hmem => absurd (hds '\n' hmem) (by decide)
  intro hfeed
  cases h with
  | whole _ hds => exact hdigits hds hfeed
  | fraction _ hds _ hes =>
      rcases List.mem_append.mp hfeed with hmem | hmem
      · exact hdigits hds hmem
      · exact hdigits hes (List.mem_of_ne_of_mem (by decide) hmem)

namespace Token

variable {t : Token} {value : Literal}

/-- The text of a number is read as its digits say. -/
theorem ofText?_number (h : Lexer.IsNumber t.text.toList) :
    Binary64.ofText? t.text = some t.numberValue := by
  have hpoint (ds : List Char) (hds : ∀ d ∈ ds, d.isDigit = true) : ∀ d ∈ ds, (d != '.') = true := by
    intro d hd
    rw [bne_iff_ne]
    rintro rfl
    exact absurd (hds '.' hd) (by decide)
  have hofText : Binary64.ofText? t.text = (Number.decimal? t.text.toList).map (.ofDecimal false) := by
    cases hcs : t.text.toList with
    | nil =>
        rw [hcs] at h
        generalize hnil : ([] : List Char) = cs at h
        cases h with
        | whole hne _ => exact absurd hnil.symm hne
        | fraction hne _ _ _ => simp at hnil
    | cons d cs => exact hcs ▸ Binary64.ofText?_digit hcs (hcs ▸ h).isDigit
  rw [hofText, numberValue]
  generalize t.text.toList = cs at h
  cases h with
  | whole hne hds =>
      rw [Number.decimal?_whole hne hds, List.takeWhile_eq_self_iff.mpr (hpoint _ hds),
        List.dropWhile_eq_nil_iff.mpr (hpoint _ hds)]
      rfl
  | @fraction ds es hne hds _ hes =>
      rw [Number.decimal?_fraction hne hds hes, List.takeWhile_append_of_pos (hpoint _ hds),
        List.dropWhile_append_of_pos (hpoint _ hds)]
      simp

theorem stringValue_quoted {q : Char} {s : String}
    (h : t.text = String.ofList [q] ++ s ++ String.ofList [q]) : t.stringValue = s := by
  rw [stringValue, h]
  simp

theorem quoted_of_toList {q : Char} {body : List Char} (h : t.text.toList = q :: (body ++ [q])) :
    t.text = String.ofList [q] ++ t.stringValue ++ String.ofList [q] := by
  rw [stringValue, h, ← String.toList_inj, h]
  simp

theorem Denotes.literal? (h : t.Denotes value) : t.literal? = some value := by
  cases h with
  | trueWord ht => simp [Token.literal?, ht]
  | falseWord ht => simp [Token.literal?, ht]
  | number ht hnumber hvalue =>
      rw [ofText?_number hnumber] at hvalue
      simp [Token.literal?, ht, Option.some.inj hvalue]
  | doubleQuoted ht htext => simp [Token.literal?, ht, stringValue_quoted (q := '"') htext]
  | singleQuoted ht htext => simp [Token.literal?, ht, stringValue_quoted (q := '\x27') htext]

theorem Spelled.isNumber (h : t.Spelled) (ht : t.terminal = .number) : Lexer.IsNumber t.text.toList := by
  rw [Spelled, ht] at h
  generalize t.text.toList = cs at h
  cases h with
  | spelled hword => cases hword
  | number hnumber => exact hnumber

theorem Spelled.doubleQuoted (h : t.Spelled) (ht : t.terminal = .doubleQuoted) :
    ∃ body, t.text.toList = '"' :: (body ++ ['"']) := by
  rw [Spelled, ht] at h
  generalize t.text.toList = cs at h
  cases h with
  | spelled hword => cases hword
  | @doubleQuoted body _ => exact ⟨body, rfl⟩

theorem Spelled.singleQuoted (h : t.Spelled) (ht : t.terminal = .singleQuoted) :
    ∃ body, t.text.toList = '\x27' :: (body ++ ['\x27']) := by
  rw [Spelled, ht] at h
  generalize t.text.toList = cs at h
  cases h with
  | spelled hword => cases hword
  | @singleQuoted body _ => exact ⟨body, rfl⟩

/-- Only quoted text goes on over the end of a line. -/
theorem Spelled.quoted_of_lineFeed (h : t.Spelled) (hfeed : '\n' ∈ t.text.toList) :
    t.terminal = .doubleQuoted ∨ t.terminal = .singleQuoted := by
  rw [Spelled] at h
  generalize hkind : some t.terminal = kind at h
  generalize t.text.toList = cs at h hfeed
  cases h with
  | @spelled t word hword =>
      have hone : '\n' ∉ word.toList := by cases t <;> cases hword <;> decide
      exact absurd hfeed hone
  | doubleQuoted => exact .inl (Option.some.inj hkind)
  | singleQuoted => exact .inr (Option.some.inj hkind)
  | number hnumber => exact absurd hfeed hnumber.lineFeed_notMem
  | name hstart hparts =>
      rcases List.mem_cons.mp hfeed with rfl | hmem
      · exact absurd hstart (by decide)
      · exact absurd (hparts '\n' hmem) (by decide)
  | blank | comment => cases hkind

theorem Spelled.denotes (hspelled : t.Spelled) (h : t.literal? = some value) : t.Denotes value := by
  unfold Token.literal? at h
  split at h
  · rename_i ht
    cases h
    exact .trueWord ht
  · rename_i ht
    cases h
    exact .falseWord ht
  · rename_i ht
    cases h
    exact .number ht (hspelled.isNumber ht) (ofText?_number (hspelled.isNumber ht))
  · rename_i ht
    cases h
    obtain ⟨body, hbody⟩ := hspelled.doubleQuoted ht
    exact .doubleQuoted ht (quoted_of_toList hbody)
  · rename_i ht
    cases h
    obtain ⟨body, hbody⟩ := hspelled.singleQuoted ht
    exact .singleQuoted ht (quoted_of_toList hbody)
  · cases h

end Token

end Structura
