import Structura.Proofs.Lexing
import Structura.Diagnostic

namespace Structura

namespace Text

/-- The number of line breaks that take two characters. -/
def wideBreaks : List Char → Nat
  | [] => 0
  | '\r' :: '\n' :: rest => wideBreaks rest + 1
  | _ :: rest => wideBreaks rest

def endsInLine (cs : List Char) : Bool := cs.getLast?.any (· != '\n')

/-- The bytes of lines when every break takes one. -/
def extent : List String → Nat
  | [] => 0
  | line :: rest => line.utf8ByteSize + 1 + extent rest

theorem splitLines_eq_nil {cs : List Char} : splitLines cs = [] ↔ cs = [] := by
  constructor
  · intro h
    cases cs with
    | nil => rfl
    | cons c cs =>
        unfold splitLines at h
        split at h
        · contradiction
        · cases h
        · cases h
        · unfold consLine at h
          split at h <;> cases h
  · rintro rfl
    rfl

theorem extent_consLine (c : Char) (ls : List (List Char)) :
    extent ((consLine c ls).map String.ofList) =
      c.utf8Size + extent (ls.map String.ofList) + (if ls = [] then 1 else 0) := by
  cases ls with
  | nil => simp [consLine, extent]
  | cons line ls =>
      simp only [consLine, List.map_cons, extent, String.ofList_cons, String.utf8ByteSize_append,
        String.utf8ByteSize_singleton]
      rw [if_neg (List.cons_ne_nil line ls)]
      omega

theorem endsInLine_cons (c : Char) (cs : List Char) (h : cs ≠ []) : endsInLine (c :: cs) = endsInLine cs := by
  obtain ⟨d, ds, rfl⟩ := List.exists_cons_of_ne_nil h
  rw [endsInLine, List.getLast?_cons_cons, endsInLine]

theorem endsInLine_lineFeed (cs : List Char) : endsInLine ('\n' :: cs) = endsInLine cs := by
  cases cs with
  | nil => rfl
  | cons d ds => exact endsInLine_cons '\n' (d :: ds) (List.cons_ne_nil d ds)

theorem extent_splitLines (cs : List Char) :
    extent ((splitLines cs).map String.ofList) + wideBreaks cs =
      Lexer.bytes cs + (endsInLine cs).toNat := by
  induction cs using splitLines.induct with
  | case1 => rfl
  | case2 rest ih =>
      rw [endsInLine_cons _ _ (List.cons_ne_nil '\n' rest), endsInLine_lineFeed, Lexer.bytes_cons, Lexer.bytes_cons]
      change 0 + 1 + extent _ + (wideBreaks rest + 1) = 1 + (1 + _) + _
      omega
  | case3 rest ih =>
      rw [endsInLine_lineFeed, Lexer.bytes_cons, wideBreaks.eq_3 '\n' rest (fun _ h => absurd h (by decide))]
      change 0 + 1 + extent _ + wideBreaks rest = 1 + _ + _
      omega
  | case4 c rest hwide hfeed ih =>
      rw [splitLines.eq_4 c rest hwide hfeed, extent_consLine, Lexer.bytes_cons, wideBreaks.eq_3 c rest hwide]
      by_cases hrest : rest = []
      · subst hrest
        have hopen : endsInLine [c] = true := bne_iff_ne.mpr hfeed
        rw [hopen]
        rfl
      · rw [endsInLine_cons c rest hrest, if_neg (splitLines_eq_nil.not.mpr hrest)]
        omega

theorem extent_lines (code : String) :
    extent (lines code) + wideBreaks code.toList = code.utf8ByteSize + (endsInLine code.toList).toNat := by
  rw [lines, extent_splitLines, Lexer.bytes_eq_utf8ByteSize, String.ofList_toList]

theorem lt_extent_of_le_first {lines : List String} {o : Nat} (hpos : 0 < o)
    (h : o ≤ (lines.headD "").utf8ByteSize) : o < extent lines := by
  cases lines with
  | nil => exact absurd h (Nat.not_le_of_lt hpos)
  | cons text rest =>
      rw [List.headD_cons] at h
      rw [extent]
      omega

end Text

namespace Point

def Le (p q : Point) : Prop := p.line < q.line ∨ p.line = q.line ∧ p.column ≤ q.column

variable {n o o' : Nat} {lines : List String}

theorem find_of_extent_le (h : Text.extent lines ≤ o) : find n lines o = ⟨0, 0⟩ := by
  induction lines generalizing n o with
  | nil => rfl
  | cons text rest ih =>
      rw [Text.extent] at h
      rw [find, if_neg (by omega)]
      exact ih (by omega)

theorem le_line_find (h : o < Text.extent lines) : n ≤ (find n lines o).line := by
  induction lines generalizing n o with
  | nil => exact absurd h (Nat.not_lt_zero o)
  | cons text rest ih =>
      rw [Text.extent] at h
      rw [find]
      split
      · exact Nat.le_refl n
      · have := ih (n := n + 1) (o := o - (text.utf8ByteSize + 1)) (by omega)
        omega

/-- Later offsets are found at later points. -/
theorem find_le_find (hle : o ≤ o') (h : o' < Text.extent lines) :
    (find n lines o).Le (find n lines o') := by
  induction lines generalizing n o o' with
  | nil => exact absurd h (Nat.not_lt_zero o')
  | cons text rest ih =>
      rw [Text.extent] at h
      rw [find, find]
      by_cases ho : o < text.utf8ByteSize + 1
      · rw [if_pos ho]
        by_cases ho' : o' < text.utf8ByteSize + 1
        · rw [if_pos ho']
          exact .inr ⟨rfl, hle⟩
        · rw [if_neg ho']
          exact .inl (le_line_find (n := n + 1) (by omega))
      · rw [if_neg ho, if_neg (by omega)]
        exact ih (by omega) (by omega)

/-- Only the offsets of the first line are found on it. -/
theorem line_find_eq_iff (h : o < Text.extent lines) :
    (find n lines o).line = n ↔ o ≤ (lines.headD "").utf8ByteSize := by
  cases lines with
  | nil => exact absurd h (Nat.not_lt_zero o)
  | cons text rest =>
      rw [Text.extent] at h
      rw [find, List.headD_cons]
      split
      · exact ⟨fun _ => by omega, fun _ => rfl⟩
      · have hrest : o - (text.utf8ByteSize + 1) < Text.extent rest := by omega
        have := le_line_find (n := n + 1) hrest
        omega

theorem column_find (h : o ≤ (lines.headD "").utf8ByteSize) (hextent : o < Text.extent lines) :
    (find n lines o).column = o := by
  cases lines with
  | nil => exact absurd hextent (Nat.not_lt_zero o)
  | cons text rest =>
      rw [List.headD_cons] at h
      rw [find, if_pos (by omega)]

end Point

end Structura
