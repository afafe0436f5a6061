import Structura.Proofs.LinePlaces

namespace Structura

namespace Text

def bytes (text : String) : List UInt8 := text.toByteArray.data.toList

def lineFeed : UInt8 := 10

/-- The offsets up to the end of a text, except the one behind a line feed that ends it. -/
def Holds (code : String) (o : Nat) : Prop :=
  o ≤ code.utf8ByteSize ∧ ¬(o = code.utf8ByteSize ∧ code.toList.getLast? = some '\n')

/-- The last line feed before `o`, if there is one, is the byte before `s`. -/
structure StartsLineOf (bs : List UInt8) (o s : Nat) : Prop where
  le : s ≤ o
  fed : s = 0 ∨ bs[s - 1]? = some lineFeed
  unbroken : ∀ i, s ≤ i → i < o → bs[i]? ≠ some lineFeed

def lineStart (code : String) (line : Nat) : Nat := extent ((lines code).take line)

def terminated : List String → List UInt8
  | [] => []
  | line :: rest => bytes line ++ lineFeed :: terminated rest

theorem length_bytes (text : String) : (bytes text).length = text.utf8ByteSize := Array.length_toList

theorem bytes_ofList (cs : List Char) : bytes (String.ofList cs) = cs.flatMap String.utf8EncodeChar := by
  rw [bytes, String.toByteArray_ofList, List.utf8Encode, List.data_toByteArray]

theorem le_toNat_ofNat {n : Nat} (hlow : 128 ≤ n) (hhigh : n < 256) : 128 ≤ (UInt8.ofNat n).toNat := by
  rwa [UInt8.toNat_ofNat_of_lt' hhigh]

/-- The bytes of an encoding of several bytes are no ASCII characters. -/
theorem le_toNat_of_mem_utf8EncodeChar {c : Char} {b : UInt8} (hc : 127 < c.val.toNat)
    (h : b ∈ String.utf8EncodeChar c) : 128 ≤ b.toNat := by
  rw [String.utf8EncodeChar, if_neg (Nat.not_le_of_lt hc)] at h
  split at h
  case isTrue =>
    simp only [List.mem_cons, List.not_mem_nil, or_false] at h
    obtain rfl | rfl := h <;> exact le_toNat_ofNat (by omega) (by omega)
  case isFalse =>
    split at h
    case isTrue =>
      simp only [List.mem_cons, List.not_mem_nil, or_false] at h
      obtain rfl | rfl | rfl := h <;> exact le_toNat_ofNat (by omega) (by omega)
    case isFalse =>
      simp only [List.mem_cons, List.not_mem_nil, or_false] at h
      obtain rfl | rfl | rfl | rfl := h <;> exact le_toNat_ofNat (by omega) (by omega)

theorem lineFeed_mem_utf8EncodeChar {c : Char} (h : lineFeed ∈ String.utf8EncodeChar c) : c = '\n' := by
  by_cases hc : 127 < c.val.toNat
  · exact absurd (le_toNat_of_mem_utf8EncodeChar hc h) (by decide)
  · rw [String.utf8EncodeChar, if_pos (Nat.le_of_not_lt hc), List.mem_singleton] at h
    have hbyte := congrArg UInt8.toNat h
    rw [UInt8.toNat_ofNat_of_lt' (Nat.lt_of_le_of_lt (Nat.le_of_not_lt hc) (by decide))] at hbyte
    exact Char.ext (UInt32.toNat_inj.mp hbyte.symm)

theorem lineFeed_notMem_bytes {cs : List Char} (h : '\n' ∉ cs) : lineFeed ∉ bytes (String.ofList cs) := by
  rw [bytes_ofList]
  intro hmem
  obtain ⟨c, hc, hbyte⟩ := List.mem_flatMap.mp hmem
  exact h (lineFeed_mem_utf8EncodeChar hbyte ▸ hc)

theorem wideBreaks_eq_zero {cs : List Char} (h : ¬['\r', '\n'] <:+: cs) : wideBreaks cs = 0 := by
  induction cs using wideBreaks.induct with
  | case1 => rfl
  | case2 rest ih => exact absurd ⟨[], rest, rfl⟩ h
  | case3 c rest hwide ih =>
      rw [wideBreaks.eq_3 c rest hwide]
      exact ih (fun hrest => h (List.infix_cons hrest))

theorem notMem_of_mem_splitLines {cs line : List Char} (h : line ∈ splitLines cs) : '\n' ∉ line := by
  induction cs using splitLines.induct generalizing line with
  | case1 => cases h
  | case2 rest ih | case3 rest ih =>
      obtain rfl | h := List.mem_cons.mp h
      · exact List.not_mem_nil
      · exact ih h
  | case4 c rest hwide hfeed ih =>
      rw [splitLines.eq_4 c rest hwide hfeed] at h
      cases hrest : splitLines rest with
      | nil =>
          rw [hrest, consLine, List.mem_singleton] at h
          subst h
          exact fun hmem => hfeed (List.mem_singleton.mp hmem).symm
      | cons first others =>
          rw [hrest] at h ih
          obtain rfl | h := List.mem_cons.mp h
          · intro hmem
            obtain hc | hmem := List.mem_cons.mp hmem
            · exact hfeed hc.symm
            · exact ih List.mem_cons_self hmem
          · exact ih (List.mem_cons_of_mem first h)

theorem terminated_consLine (c : Char) (ls : List (List Char)) :
    terminated ((consLine c ls).map String.ofList) =
      String.utf8EncodeChar c ++ (terminated (ls.map String.ofList) ++ if ls = [] then [lineFeed] else []) := by
  cases ls with
  | nil =>
      rw [consLine, List.map_singleton, terminated, bytes_ofList, List.flatMap_singleton]
      rfl
  | cons line ls =>
      rw [consLine, List.map_cons, terminated, bytes_ofList, List.flatMap_cons, if_neg (List.cons_ne_nil line ls),
        List.append_nil, List.map_cons, terminated, bytes_ofList, List.append_assoc]

theorem terminated_splitLines {cs : List Char} (h : wideBreaks cs = 0) :
    terminated ((splitLines cs).map String.ofList) =
      cs.flatMap String.utf8EncodeChar ++ if endsInLine cs then [lineFeed] else [] := by
  induction cs using splitLines.induct with
  | case1 => rfl
  | case2 rest ih => exact absurd h (Nat.succ_ne_zero _)
  | case3 rest ih =>
      rw [wideBreaks.eq_3 '\n' rest (fun _ h => absurd h (by decide))] at h
      rw [endsInLine_lineFeed, List.flatMap_cons, List.append_assoc, ← ih h]
      rfl
  | case4 c rest hwide hfeed ih =>
      rw [wideBreaks.eq_3 c rest hwide] at h
      rw [splitLines.eq_4 c rest hwide hfeed, terminated_consLine, ih h, List.flatMap_cons]
      -- the last character of a text is on a line without a break, which gets one
      by_cases hrest : rest = []
      · subst hrest
        have hopen : endsInLine [c] = true := bne_iff_ne.mpr hfeed
        rw [hopen, if_pos rfl, if_pos (splitLines_eq_nil.mpr rfl), List.flatMap_nil, List.append_nil]
        rfl
      · rw [endsInLine_cons c rest hrest, if_neg (splitLines_eq_nil.not.mpr hrest), List.append_nil, List.append_assoc]

theorem terminated_lines {code : String} (h : ¬['\r', '\n'] <:+: code.toList) :
    terminated (lines code) = bytes code ++ if endsInLine code.toList then [lineFeed] else [] := by
  rw [lines, terminated_splitLines (wideBreaks_eq_zero h), ← bytes_ofList, String.ofList_toList]

theorem lineFeed_notMem_lines {code line : String} (h : line ∈ lines code) : lineFeed ∉ bytes line := by
  obtain ⟨cs, hcs, rfl⟩ := List.mem_map.mp h
  exact lineFeed_notMem_bytes (notMem_of_mem_splitLines hcs)

/-- The offsets that a text holds are those that its lines cover, and the start of the empty text. -/
theorem holds_iff {code : String} {o : Nat} (h : ¬['\r', '\n'] <:+: code.toList) :
    Holds code o ↔ o < extent (lines code) ∨ code = "" ∧ o = 0 := by
  have hextent := extent_lines code
  rw [wideBreaks_eq_zero h] at hextent
  by_cases hcode : code = ""
  · subst hcode
    constructor
    · intro ho
      exact .inr ⟨rfl, Nat.le_zero.mp ho.1⟩
    · rintro (ho | ⟨-, rfl⟩)
      · exact absurd ho (Nat.not_lt_zero o)
      · exact ⟨Nat.le_refl 0, fun hlast => absurd hlast.2 (by decide)⟩
  · have hlast := List.getLast?_eq_some_getLast (String.toList_eq_nil_iff.not.mpr hcode)
    generalize code.toList.getLast _ = c at hlast
    rw [endsInLine, hlast, Option.any_some] at hextent
    rw [Holds, hlast, Option.some_inj]
    by_cases hc : c = '\n'
    · rw [bne_eq_false_iff_eq.mpr hc, Bool.toNat_false] at hextent
      simp only [hc, hcode, and_true, false_and, or_false]
      omega
    · rw [bne_iff_ne.mpr hc, Bool.toNat_true] at hextent
      simp only [hc, hcode, and_false, not_false_eq_true, and_true, false_and, or_false]
      omega

namespace StartsLineOf

variable {bs behind : List UInt8} {o s : Nat}

theorem of_append (h : StartsLineOf (bs ++ behind) o s) (ho : o ≤ bs.length) : StartsLineOf bs o s where
  le := h.le
  fed := by
    obtain hs | hs := h.fed
    · exact .inl hs
    · by_cases hzero : s = 0
      · exact .inl hzero
      · have := h.le
        rw [List.getElem?_append_left (by omega)] at hs
        exact .inr hs
  unbroken := by
    intro i hsi hio
    have := h.unbroken i hsi hio
    rwa [List.getElem?_append_left (by omega)] at this

theorem getElem?_behind (front : List UInt8) (j : Nat) : (front ++ lineFeed :: bs)[front.length + 1 + j]? = bs[j]? := by
  rw [List.getElem?_append_right (by omega), show front.length + 1 + j - front.length = j + 1 by omega,
    List.getElem?_cons_succ]

theorem behind_lineFeed (front : List UInt8) (h : StartsLineOf bs o s) :
    StartsLineOf (front ++ lineFeed :: bs) (front.length + 1 + o) (front.length + 1 + s) where
  le := Nat.add_le_add_left h.le _
  fed := by
    right
    cases s with
    | zero =>
        rw [Nat.add_zero, Nat.add_sub_cancel, List.getElem?_append_right (Nat.le_refl _), Nat.sub_self]
        rfl
    | succ s =>
        rw [show front.length + 1 + (s + 1) - 1 = front.length + 1 + s by omega, getElem?_behind]
        exact h.fed.resolve_left (Nat.succ_ne_zero s)
  unbroken := by
    intro i hsi hio
    obtain ⟨j, rfl⟩ := Nat.exists_eq_add_of_le (Nat.le_trans (Nat.le_add_right _ s) hsi)
    rw [getElem?_behind]
    exact h.unbroken j (by omega) (by omega)

end StartsLineOf

end Text

namespace Point

open Text (lineFeed StartsLineOf)

variable {n o o' : Nat} {lines : List String}

theorem line_find (hplain : ∀ line ∈ lines, lineFeed ∉ Text.bytes line) (h : o < Text.extent lines) :
    (find n lines o).line = n + ((Text.terminated lines).take o).count lineFeed := by
  induction lines generalizing n o with
  | nil => exact absurd h (Nat.not_lt_zero o)
  | cons text rest ih =>
      obtain ⟨htext, hrest⟩ := List.forall_mem_cons.mp hplain
      rw [Text.extent] at h
      rw [find, Text.terminated]
      split
      case isTrue ho =>
        rw [List.take_append_of_le_length (by rw [Text.length_bytes]; omega),
          List.count_eq_zero.mpr (fun hmem => htext (List.mem_of_mem_take hmem)), Nat.add_zero]
      case isFalse ho =>
        obtain ⟨k, rfl⟩ := Nat.exists_eq_add_of_le (Nat.le_of_not_lt ho)
        rw [Nat.add_sub_cancel_left, ih hrest (by omega), ← Text.length_bytes, Nat.add_assoc _ 1 k,
          List.take_length_add_append, List.count_append, List.count_eq_zero.mpr htext, Nat.add_comm 1 k,
          List.take_succ_cons, List.count_cons_self]
        omega

/-- An offset is found back from its point. -/
theorem extent_take_find (h : o < Text.extent lines) :
    Text.extent (lines.take ((find n lines o).line - n)) + (find n lines o).column = o := by
  induction lines generalizing n o with
  | nil => exact absurd h (Nat.not_lt_zero o)
  | cons text rest ih =>
      rw [Text.extent] at h
      rw [find]
      split
      case isTrue ho =>
        rw [Nat.sub_self]
        exact Nat.zero_add o
      case isFalse ho =>
        obtain ⟨k, rfl⟩ := Nat.exists_eq_add_of_le (Nat.le_of_not_lt ho)
        rw [Nat.add_sub_cancel_left]
        have hk : k < Text.extent rest := by omega
        have hline := le_line_find (n := n + 1) hk
        have hfound := ih (n := n + 1) hk
        rw [show (find (n + 1) rest k).line - n = (find (n + 1) rest k).line - (n + 1) + 1 by omega,
          List.take_succ_cons, Text.extent]
        omega

theorem startsLineOf_find (hplain : ∀ line ∈ lines, lineFeed ∉ Text.bytes line) (h : o < Text.extent lines) :
    StartsLineOf (Text.terminated lines) o (o - (find n lines o).column) := by
  induction lines generalizing n o with
  | nil => exact absurd h (Nat.not_lt_zero o)
  | cons text rest ih =>
      obtain ⟨htext, hrest⟩ := List.forall_mem_cons.mp hplain
      rw [Text.extent] at h
      rw [find, Text.terminated]
      split
      case isTrue ho =>
        rw [Nat.sub_self]
        rw [← Text.length_bytes] at ho
        refine ⟨Nat.zero_le o, .inl rfl, ?_⟩
        intro i _ hio hfeed
        rw [List.getElem?_append_left (by omega)] at hfeed
        exact htext (List.mem_of_getElem? hfeed)
      case isFalse ho =>
        obtain ⟨k, rfl⟩ := Nat.exists_eq_add_of_le (Nat.le_of_not_lt ho)
        rw [Nat.add_sub_cancel_left]
        have hk : k < Text.extent rest := by omega
        -- the first line and its break come before both the offset and the start of its line
        have hcolumn : (find (n + 1) rest k).column ≤ k :=
          Nat.le.intro ((Nat.add_comm _ _).trans (extent_take_find hk))
        rw [Nat.add_sub_assoc hcolumn, ← Text.length_bytes]
        exact (ih hrest hk).behind_lineFeed (Text.bytes text)

variable {code : String} (hbreaks : ¬['\r', '\n'] <:+: code.toList)
include hbreaks

theorem line_ofOffset (ho : Text.Holds code o) :
    (ofOffset code o).line = ((Text.bytes code).take o).count lineFeed := by
  obtain hlt | ⟨rfl, rfl⟩ := (Text.holds_iff hbreaks).mp ho
  · rw [ofOffset, line_find (fun _ => Text.lineFeed_notMem_lines) hlt, Nat.zero_add, Text.terminated_lines hbreaks,
      List.take_append_of_le_length (Nat.le_trans ho.1 (Nat.le_of_eq (Text.length_bytes code).symm))]
  · rfl

theorem lineStart_add_column (ho : Text.Holds code o) :
    Text.lineStart code (ofOffset code o).line + (ofOffset code o).column = o := by
  obtain hlt | ⟨rfl, rfl⟩ := (Text.holds_iff hbreaks).mp ho
  · exact extent_take_find (n := 0) hlt
  · rfl

theorem startsLineOf_lineStart (ho : Text.Holds code o) :
    StartsLineOf (Text.bytes code) o (Text.lineStart code (ofOffset code o).line) := by
  have hstart := lineStart_add_column hbreaks ho
  obtain hlt | ⟨rfl, rfl⟩ := (Text.holds_iff hbreaks).mp ho
  · have hfound : StartsLineOf _ o (o - (ofOffset code o).column) :=
      startsLineOf_find (fun _ => Text.lineFeed_notMem_lines) hlt
    rw [Text.terminated_lines hbreaks] at hfound
    rw [show Text.lineStart code (ofOffset code o).line = o - (ofOffset code o).column by omega]
    exact hfound.of_append (Nat.le_trans ho.1 (Nat.le_of_eq (Text.length_bytes code).symm))
  · exact ⟨Nat.le_refl 0, .inl rfl, fun i _ hi => absurd hi (Nat.not_lt_zero i)⟩

theorem ofOffset_injective (ho : Text.Holds code o) (ho' : Text.Holds code o')
    (h : ofOffset code o = ofOffset code o') : o = o' := by
  rw [← lineStart_add_column hbreaks ho, h, lineStart_add_column hbreaks ho']

theorem ofOffset_le (ho' : Text.Holds code o') (h : o ≤ o') : (ofOffset code o).Le (ofOffset code o') := by
  obtain hlt | ⟨rfl, rfl⟩ := (Text.holds_iff hbreaks).mp ho'
  · exact find_le_find h hlt
  · exact .inr ⟨rfl, Nat.le_refl 0⟩

omit hbreaks

theorem Le.antisymm {p q : Point} (hpq : p.Le q) (hqp : q.Le p) : p = q := by
  cases p
  cases q
  unfold Le at hpq hqp
  simp only at hpq hqp
  rw [Point.mk.injEq]
  omega

/-- Without breaks of two characters, the points of the offsets that a text holds are exact: the line counts the line
feeds before the offset, the column is its distance from the start of the line, behind the last of these line feeds, and
both give the offset back. No two of these offsets share a point, and points are ordered as the offsets are. Every
other offset is placed at the origin. -/
theorem ofOffset_exact (code : String) (hbreaks : ¬['\r', '\n'] <:+: code.toList) :
    (∀ o, Text.Holds code o →
      (ofOffset code o).line = ((Text.bytes code).take o).count lineFeed ∧
      StartsLineOf (Text.bytes code) o (Text.lineStart code (ofOffset code o).line) ∧
      (ofOffset code o).column = o - Text.lineStart code (ofOffset code o).line ∧
      Text.lineStart code (ofOffset code o).line + (ofOffset code o).column = o) ∧
    (∀ o o', Text.Holds code o → Text.Holds code o' →
      (ofOffset code o = ofOffset code o' → o = o') ∧ ((ofOffset code o).Le (ofOffset code o') ↔ o ≤ o')) ∧
    ∀ o, ¬Text.Holds code o → ofOffset code o = ⟨0, 0⟩ := by
  refine ⟨?_, ?_, ?_⟩
  · intro o ho
    have hback := lineStart_add_column hbreaks ho
    exact ⟨line_ofOffset hbreaks ho, startsLineOf_lineStart hbreaks ho, by omega, hback⟩
  · intro o o' ho ho'
    refine ⟨ofOffset_injective hbreaks ho ho', ?_, ofOffset_le hbreaks ho'⟩
    intro hle
    by_contra hlt
    have hback := ofOffset_le hbreaks ho (Nat.le_of_not_le hlt)
    exact hlt (Nat.le_of_eq (ofOffset_injective hbreaks ho ho' (hle.antisymm hback)))
  · intro o ho
    rw [Text.holds_iff hbreaks, not_or] at ho
    exact find_of_extent_le (Nat.le_of_not_lt ho.1)

/-- The end of the third line, behind a character of two bytes, and the end of the text, behind its last line feed. -/
theorem ofOffset_exact_accented :
    ¬['\r', '\n'] <:+: "a\n\nbé\n".toList ∧ Text.Holds "a\n\nbé\n" 6 ∧ ¬Text.Holds "a\n\nbé\n" 7 ∧
      (ofOffset "a\n\nbé\n" 6).line = 2 ∧ StartsLineOf (Text.bytes "a\n\nbé\n") 6 3 ∧
      (ofOffset "a\n\nbé\n" 6).column = 3 ∧ ofOffset "a\n\nbé\n" 7 = ⟨0, 0⟩ := by
  have hbreaks : ¬['\r', '\n'] <:+: "a\n\nbé\n".toList := by decide +kernel
  have hheld : Text.Holds "a\n\nbé\n" 6 := ⟨by decide +kernel, by decide +kernel⟩
  have hend : ¬Text.Holds "a\n\nbé\n" 7 := fun h => h.2 ⟨by decide +kernel, by decide +kernel⟩
  have hstart : Text.lineStart "a\n\nbé\n" 2 = 3 := by decide +kernel
  obtain ⟨hexact, -, horigin⟩ := ofOffset_exact "a\n\nbé\n" hbreaks
  obtain ⟨hline, hstarts, hcolumn, -⟩ := hexact 6 hheld
  have htwo : (ofOffset "a\n\nbé\n" 6).line = 2 := hline.trans (by decide +kernel)
  rw [htwo, hstart] at hstarts hcolumn
  exact ⟨hbreaks, hheld, hend, htwo, hstarts, hcolumn, horigin 7 hend⟩

end Point

end Structura
