import Structura.Proofs.FaultPlaces
import Structura.Proofs.FirstFault
import Structura.Proofs.LinePlaces
import Structura.Proofs.PrintedText

/-!
Reports that can be drawn. Marks stand under a fault whose two ends are found on one line, and they cannot be
drawn when the end is found before the start. The places of faults end where a token ends, so this happens in
one way only: the breaks of two characters push the end of the place beyond the extent of the lines, where it
falls back to the origin, while the place starts further to the right on the first line.
-/

namespace Structura

open Grammar

namespace Text

theorem endsInLine_append (cs : List Char) {ds : List Char} (h : ds ≠ []) :
    endsInLine (cs ++ ds) = endsInLine ds := by
  rw [endsInLine, List.getLast?_append_of_ne_nil cs h, endsInLine]

theorem endsInLine_of_notMem {cs : List Char} (hne : cs ≠ []) (h : '\n' ∉ cs) : endsInLine cs = true := by
  rw [endsInLine, List.getLast?_eq_some_getLast hne, Option.any_some, bne_iff_ne]
  intro hlast
  exact h (hlast ▸ List.getLast_mem hne)

end Text

theorem Token.Spelled.ne_nil {t : Token} (h : t.Spelled) : t.text.toList ≠ [] := by
  obtain ⟨c, cs, hcs, -⟩ := Lexer.Pattern.exists_cons h
  exact hcs ▸ List.cons_ne_nil c cs

/-- No token ends with a line break. -/
theorem Token.Spelled.endsInLine {t : Token} (h : t.Spelled) : Text.endsInLine t.text.toList = true := by
  by_cases hfeed : '\n' ∈ t.text.toList
  · rcases h.quoted_of_lineFeed hfeed with ht | ht
    · obtain ⟨body, hbody⟩ := h.doubleQuoted ht
      rw [hbody, ← List.cons_append, Text.endsInLine_append _ (List.cons_ne_nil _ _)]
      rfl
    · obtain ⟨body, hbody⟩ := h.singleQuoted ht
      rw [hbody, ← List.cons_append, Text.endsInLine_append _ (List.cons_ne_nil _ _)]
      rfl
  · exact Text.endsInLine_of_notMem h.ne_nil hfeed

def Text.closedSize (code : String) : Nat := code.utf8ByteSize + (endsInLine code.toList).toNat

theorem Lexer.Lexes.stop_lt {code : String} {w : List Token} {t : Token} {o : Nat} {rest : List Char}
    (h : Lexes 0 code.toList w o rest) (ht : t ∈ w) : t.span.stop < Text.closedSize code := by
  have hspelled := h.spelled t ht
  obtain ⟨a, b, hcode, hstart, hstop⟩ := h.text_of_token ht
  have hbytes : code.utf8ByteSize = bytes a + bytes t.text.toList + bytes b := by
    rw [← String.ofList_toList (s := code), ← bytes_eq_utf8ByteSize, hcode, bytes_append, bytes_append,
      Nat.add_assoc]
  rw [Text.closedSize]
  by_cases hb : b = []
  · have hopen : Text.endsInLine code.toList = true := by
      rw [hcode, hb, List.append_nil, Text.endsInLine_append a hspelled.ne_nil, hspelled.endsInLine]
    rw [hopen, Bool.toNat_true]
    omega
  · have := bytes_pos hb
    omega

namespace Span

def InText (code : String) (s : Span) : Prop :=
  s.start ≤ s.stop ∧ (s.start = s.stop ∨ s.stop < Text.closedSize code)

/-- The place starts on the first line, not at its first byte, and no more bytes follow it than there are
breaks of two characters. -/
def Overruns (code : String) (s : Span) : Prop :=
  0 < s.start ∧ s.start ≤ ((Text.lines code).headD "").utf8ByteSize ∧
    Text.closedSize code ≤ s.stop + Text.wideBreaks code.toList

instance (code : String) (s : Span) : Decidable (s.Overruns code) :=
  inferInstanceAs (Decidable (_ ∧ _ ∧ _))

variable {code : String} {s : Span}

theorem closedSize_le_iff :
    Text.closedSize code ≤ s.stop + Text.wideBreaks code.toList ↔ Text.extent (Text.lines code) ≤ s.stop := by
  have := Text.extent_lines code
  rw [Text.closedSize]
  omega

def Turned (code : String) (s : Span) : Prop :=
  (s.locate code).start.line = (s.locate code).stop.line ∧
    (s.locate code).stop.column < (s.locate code).start.column

theorem turned_iff_overruns (h : s.start ≤ s.stop) : s.Turned code ↔ s.Overruns code := by
  rw [Overruns, closedSize_le_iff]
  unfold Turned locate Point.ofOffset
  generalize Text.lines code = lines
  by_cases hstop : Text.extent lines ≤ s.stop
  · rw [Point.find_of_extent_le hstop]
    constructor
    · rintro ⟨hline, hcolumn⟩
      by_cases hstart : Text.extent lines ≤ s.start
      · rw [Point.find_of_extent_le hstart] at hcolumn
        exact absurd hcolumn (Nat.lt_irrefl 0)
      · have hfirst := (Point.line_find_eq_iff (Nat.lt_of_not_le hstart)).mp hline
        rw [Point.column_find hfirst (Nat.lt_of_not_le hstart)] at hcolumn
        exact ⟨hcolumn, hfirst, hstop⟩
    · rintro ⟨hpos, hfirst, -⟩
      have hstart := Text.lt_extent_of_le_first hpos hfirst
      rw [Point.column_find hfirst hstart]
      exact ⟨(Point.line_find_eq_iff hstart).mpr hfirst, hpos⟩
  · constructor
    · rintro ⟨hline, hcolumn⟩
      rcases Point.find_le_find (n := 0) h (Nat.lt_of_not_le hstop) with hlt | ⟨-, hle⟩
      · exact absurd hline (Nat.ne_of_lt hlt)
      · exact absurd hcolumn (Nat.not_lt_of_le hle)
    · rintro ⟨-, -, hextent⟩
      exact absurd hextent hstop

theorem InText.not_overruns (h : s.InText code) (hwide : Text.wideBreaks code.toList = 0) :
    ¬s.Overruns code := by
  rintro ⟨hpos, hfirst, hstop⟩
  rcases h.2 with heq | hlt
  · have hextent := closedSize_le_iff.mp hstop
    have hstart := Text.lt_extent_of_le_first hpos hfirst
    omega
  · omega

end Span

def Program.faults (settings : Settings) (env : Env) (code : String) : List Diagnostic :=
  match check settings env code with
  | .ok verdicts => failures verdicts
  | .error d => [d]

theorem Diagnostic.report?_eq_none_iff {code file : String} {d : Diagnostic} {place : Span}
    (h : d.span = some place) : d.report? code file = none ↔ place.Turned code := by
  rw [report?, h]
  simp only [Option.map_eq_none_iff]
  unfold Span.Turned underline?
  split
  · rename_i hline
    split
    · rename_i hcolumn
      exact ⟨fun _ => ⟨hline, hcolumn⟩, fun _ => rfl⟩
    · rename_i hcolumn
      exact ⟨nofun, fun hturned => absurd hturned.2 hcolumn⟩
  · rename_i hline
    exact ⟨nofun, fun hturned => absurd hturned.1 hline⟩

theorem Grammar.FirstFault.inText {s : Start} {code : String} {d : Diagnostic} (h : FirstFault s code d) :
    ∃ place, d.span = some place ∧ place.InText code := by
  cases h with
  | @unexpectedToken before t o rest hlexes _ _ =>
      have ht : t ∈ before ++ [t] := List.mem_append_right before List.mem_cons_self
      exact ⟨t.span, rfl, (hlexes.ordered.1 t ht).2, .inr (hlexes.stop_lt ht)⟩
  | invalidToken => exact ⟨_, rfl, Nat.le_refl _, .inl rfl⟩
  | unexpectedEnd => exact ⟨_, rfl, Nat.le_refl _, .inl rfl⟩

/-- A node ends where its last token does. -/
theorem Grammar.Occupies.contains_inText {code : String} {root node : SourceNode} {w : List Token}
    (h : Occupies root w) (hordered : Token.Ordered w) (hw : ∀ t ∈ w, t.span.stop < Text.closedSize code)
    (hnode : root.Contains node) : node.span.InText code := by
  obtain ⟨u, w', v, rfl, hw'⟩ := h.of_contains hnode
  have hne := hw'.makes.ne_nil
  rw [hw'.makes.span_eq]
  refine ⟨hordered.right.left.start_le_stop hne, .inr ?_⟩
  rw [Span.stop_ofTokens hne]
  exact hw _ (List.mem_append_right u (List.mem_append_left v (List.getLast_mem hne)))

theorem Program.inText_of_mem_faults {settings : Settings} {env : Env} {code : String} {d : Diagnostic}
    (h : d ∈ faults settings env code) : ∃ place, d.span = some place ∧ place.InText code := by
  cases hparse : Statement.parseAll code with
  | error e =>
      rw [faults, check, hparse] at h
      cases List.mem_singleton.mp h
      exact (Parser.firstFault_of_parse (s := .program) hparse).inText
  | ok ss =>
      rw [faults, check, hparse] at h
      obtain ⟨v, hv, hd⟩ := List.mem_filterMap.mp h
      obtain ⟨s, hs, env', rfl⟩ := exists_env_of_mem_judgeAll hv
      obtain ⟨tokens, o, hlexes, hderives⟩ := Parser.derives_of_parse_eq_ok (s := .program) hparse
      obtain ⟨u, w, v, rfl, hw⟩ := (Start.laid hderives).exists_of_mem (List.mem_map_of_mem hs)
      have hordered := hlexes.tokens_ordered.right.left
      have hstops : ∀ t ∈ w, t.span.stop < Text.closedSize code := fun t ht =>
        hlexes.stop_lt (List.mem_append_right u (List.mem_append_left v ht))
      have hallows : (SourceNode.statement s).Allows .any
          fun d => ∃ place, d.span = some place ∧ place.InText code :=
        SourceNode.allows_places fun node hnode => hw.contains_inText hordered hstops hnode
      exact (Statement.uphold_judge settings env'.all_any hallows).2.error (Verdict.failure?_eq_some.mp hd)

/-- Every fault of a program has a report, unless its place overruns the text; without line breaks of two
characters none does. -/
theorem Program.report_undrawn_iff_overruns {settings : Settings} {env : Env} {code : String} {d : Diagnostic}
    (h : d ∈ faults settings env code) (file : String) :
    ∃ place, d.span = some place ∧ (d.report? code file = none ↔ place.Overruns code) ∧
      (Text.wideBreaks code.toList = 0 → ∃ text, d.report? code file = some text) := by
  obtain ⟨place, hplace, htext⟩ := inText_of_mem_faults h
  have hiff : d.report? code file = none ↔ place.Overruns code :=
    (Diagnostic.report?_eq_none_iff hplace).trans (Span.turned_iff_overruns htext.1)
  refine ⟨place, hplace, hiff, fun hwide => ?_⟩
  exact Option.ne_none_iff_exists'.mp (hiff.not.mpr (htext.not_overruns hwide))

/-- The faults of ` "⏎⏎" + true;`, where both breaks take two characters. -/
theorem Program.report_undrawn_iff_overruns_string :
    ∃ d ∈ faults {} .empty " \"\r\n\r\n\"+true;", d.span = some ⟨1, 12⟩ ∧
      Span.Overruns " \"\r\n\r\n\"+true;" ⟨1, 12⟩ ∧
      d.report? " \"\r\n\r\n\"+true;" "main.sb" = none := by
  have hfaults : faults {} .empty " \"\r\n\r\n\"+true;" = [.located .addOfNonNumber ⟨1, 12⟩] := by
    with_unfolding_all rfl
  have hoverruns : Span.Overruns " \"\r\n\r\n\"+true;" ⟨1, 12⟩ := by decide +kernel
  have hmem : Diagnostic.located .addOfNonNumber ⟨1, 12⟩ ∈ faults {} .empty " \"\r\n\r\n\"+true;" :=
    hfaults ▸ List.mem_cons_self
  obtain ⟨place, hplace, hiff, -⟩ := report_undrawn_iff_overruns hmem "main.sb"
  cases hplace
  exact ⟨_, hmem, rfl, hoverruns, hiff.mpr hoverruns⟩

/-- A quoted text over a break of two characters, where nothing may stand, has no report. -/
theorem Program.quoted_break_undrawn :
    ∃ d, check {} .empty "a\"\r\n\"" = .error d ∧ d.report? "a\"\r\n\"" "main.sb" = none := by
  refine ⟨.located (.unexpectedToken "\"\r\n\"") ⟨1, 5⟩, ?_, ?_⟩
  · with_unfolding_all rfl
  · with_unfolding_all rfl

end Structura
