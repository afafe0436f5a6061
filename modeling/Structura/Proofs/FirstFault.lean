import Structura.Proofs.Beginnings
import Structura.Proofs.ParserExact

namespace Structura

open Grammar

namespace Grammar

def Start.Sentence (s : Start) (w : List Token) : Prop :=
  (∀ t ∈ w, t.Spelled) ∧ ∃ tree, s.Derives w tree

def Start.Begins (s : Start) (w : List Token) : Prop := ∃ v, s.Sentence (w ++ v)

inductive FirstFault (s : Start) (code : String) : Diagnostic → Prop
  | unexpectedToken {before : List Token} {t : Token} {o : Nat} {rest : List Char} :
      Lexer.Lexes 0 code.toList (before ++ [t]) o rest → s.Begins before → ¬s.Begins (before ++ [t]) →
      FirstFault s code (.located (.unexpectedToken t.text) t.span)
  | invalidToken {tokens : List Token} {o : Nat} {rest : List Char} :
      Lexer.Lexes 0 code.toList tokens o rest → rest ≠ [] → Lexer.Stuck rest → s.Begins tokens →
      FirstFault s code (.located .invalidToken (.ofOffset o))
  | unexpectedEnd {tokens : List Token} {o : Nat} {expected : List Terminal} :
      Lexer.Lexes 0 code.toList tokens o [] → s.Begins tokens → ¬s.Sentence tokens →
      FirstFault s code (.located (.unexpectedEnd expected) (.ofOffset (Parser.endOffset tokens)))

end Grammar

namespace Parser

variable {s : Start} {c : Config} {t : Token} {w tokens : List Token}

/-- The token that stops the parser, and the parser before it. -/
theorem feed_eq_error (h : feed c tokens = .error t) :
    ∃ before after c', tokens = before ++ t :: after ∧ feed c before = .ok c' ∧ c'.step t = none := by
  induction tokens generalizing c with
  | nil => cases h
  | cons t' tokens ih =>
      rw [feed] at h
      cases hstep : c.step t' with
      | none =>
          rw [hstep] at h
          cases h
          exact ⟨[], tokens, c, rfl, rfl, hstep⟩
      | some d =>
          rw [hstep] at h
          obtain ⟨before, after, c', rfl, hfeed, hnone⟩ := ih h
          exact ⟨t' :: before, after, c', rfl, by rw [feed_cons hstep, hfeed], hnone⟩

theorem Reads.begins (h : Reads s c w) (hw : ∀ t ∈ w, t.Spelled) : s.Begins w := by
  have hspelled (v : List Token) (hv : ∀ t ∈ v, t.Spelled) : ∀ t ∈ w ++ v, t.Spelled := by
    intro t ht
    rcases List.mem_append.mp ht with ht | ht
    · exact hw t ht
    · exact hv t ht
  cases s with
  | expr | type =>
      obtain ⟨v, hv, hderivable⟩ := (h.pending nofun).begins
      exact ⟨v, hspelled v hv, hderivable⟩
  | program =>
      obtain ⟨u, w', rfl, hdone, -, hpending⟩ := h
      obtain ⟨v, hv, statements, hstatements⟩ := (hpending default).begins
      refine ⟨v, hspelled v hv, ?_⟩
      rw [List.append_assoc]
      exact ⟨_, hdone.append hstatements⟩

/-- Where the parser cannot go on, no sentence goes on. -/
theorem not_begins (hfeed : feed s.config w = .ok c) (hstep : c.step t = none) : ¬s.Begins (w ++ [t]) := by
  rintro ⟨v, -, tree, htree⟩
  obtain ⟨c', hfeed', -⟩ := Start.runs htree
  rw [List.append_assoc, feed_append hfeed, List.singleton_append, feed, hstep] at hfeed'
  cases hfeed'

theorem firstFault_of_feed_error {code : String} {o : Nat} {rest : List Char}
    (hlexes : Lexer.Lexes 0 code.toList tokens o rest) (hfeed : feed s.config tokens = .error t) :
    FirstFault s code (.located (.unexpectedToken t.text) t.span) := by
  obtain ⟨before, after, c, rfl, hbefore, hstep⟩ := feed_eq_error hfeed
  have hspelled : ∀ t ∈ before, t.Spelled := fun t' ht' => hlexes.spelled t' (List.mem_append_left _ ht')
  rw [List.append_cons] at hlexes
  obtain ⟨o₁, rest₁, hfirst, -⟩ := hlexes.split_append
  exact .unexpectedToken hfirst ((reads_of_feed hspelled hbefore).begins hspelled)
    (not_begins hbefore hstep)

theorem firstFault_of_parse {code : String} {d : Diagnostic} (h : s.parse code = .error d) :
    FirstFault s code d := by
  obtain ⟨tokens, o, rest, hlexes, hend⟩ := Lexer.exists_lexes 0 code.toList
  by_cases hrest : rest = []
  · subst hrest
    rw [parse_complete hlexes] at h
    split at h
    · rename_i hfeed
      cases h
      exact firstFault_of_feed_error hlexes hfeed
    · rename_i c hfeed
      split at h
      · cases h
      · rename_i hresult
        cases h
        refine .unexpectedEnd hlexes ((reads_of_feed hlexes.spelled hfeed).begins hlexes.spelled) ?_
        rintro ⟨-, tree, htree⟩
        obtain ⟨c', hfeed', hresult'⟩ := Start.runs htree
        rw [hfeed] at hfeed'
        cases hfeed'
        rw [hresult] at hresult'
        cases hresult'
  · have hstuck := hend.resolve_left hrest
    rw [parse_stuck hlexes hstuck hrest] at h
    split at h
    · rename_i hfeed
      cases h
      exact firstFault_of_feed_error hlexes hfeed
    · rename_i c hfeed
      cases h
      exact .invalidToken hlexes hrest hstuck ((reads_of_feed hlexes.spelled hfeed).begins hlexes.spelled)

end Parser

/-- A syntax error tells the first fault of the text, and every number among its tokens can be read. -/
theorem firstFault_of_parse_eq_error (s : Start) (code : String) (d : Diagnostic)
    (h : s.parse code = .error d) :
    FirstFault s code d ∧ ∀ tokens o rest, Lexer.Lexes 0 code.toList tokens o rest →
      ∀ t ∈ tokens, t.terminal = .number → ∃ n, Binary64.ofText? t.text = some n := by
  refine ⟨Parser.firstFault_of_parse h, fun tokens o rest hlexes t ht hnumber => ?_⟩
  exact ⟨_, Token.ofText?_number ((hlexes.spelled t ht).isNumber hnumber)⟩

theorem firstFault_of_three_texts :
    FirstFault .program "let x = 1.5 + ;" (.located (.unexpectedToken ";") ⟨14, 15⟩) ∧
    FirstFault .expr "(x: number) => x # 1" (.located .invalidToken (.ofOffset 17)) ∧
    ∃ expected, FirstFault .type "(number | " (.located (.unexpectedEnd expected) (.ofOffset 9)) :=
  ⟨(firstFault_of_parse_eq_error .program "let x = 1.5 + ;" _ (by with_unfolding_all rfl)).1,
    (firstFault_of_parse_eq_error .expr "(x: number) => x # 1" _ (by with_unfolding_all rfl)).1,
    _, (firstFault_of_parse_eq_error .type "(number | " _ (by with_unfolding_all rfl)).1⟩

end Structura
