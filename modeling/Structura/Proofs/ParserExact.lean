import Structura.Proofs.Lexing
import Structura.Proofs.ParserInvariant
import Structura.Proofs.ProgramRuns

namespace Structura

open Grammar

namespace Parser

variable {s : Start} {o : Nat} {stack rest : List Frame} {focus : Focus} {c c' : Config} {t : Token}
  {u v w : List Token}

theorem Pending.atEnd (h : Pending o s.goal stack focus w) :
    Pending o s.goal (Parser.close stack focus).1 (Parser.close stack focus).2 w := by
  cases focus with
  | expr q e => exact h.fold (by decide) (Rank.le_whole q)
  | typed complete type =>
      have hcompleted := h.foldType
      rw [Parser.close]
      generalize Parser.foldType stack type = x at hcompleted ⊢
      split
      · exact (Pending.ascribe hcompleted).fold (by decide) (Rank.le_whole _)
      · exact hcompleted
  | _ => exact h

theorem FocusReads.whole_type {complete : Bool} {p : Part TypeExpr}
    (h : FocusReads (.type .whole) (.typed complete p) w) : DerivesType .type w p.tree := by
  cases h with
  | typed hp => exact .union (.inter (.primary hp.tree))
  | completed hp => exact hp.tree

theorem eq_program_of_goal (h : s.goal = .statement) : s = .program := by
  cases s with
  | program => rfl
  | expr => cases h
  | type => cases h

/-- A semicolon that completes a statement completes a derivation of it. -/
theorem derives_of_statement? {st : Statement} (h : Pending o s.goal stack focus w)
    (ho : (Span.ofTokens (w ++ [t])).start = o) (ht : t.terminal = .semicolon)
    (hst : statement? stack focus t.span.stop = some st) :
    s = .program ∧ DerivesStatement (w ++ [t]) st := by
  have hclosed := h.atEnd
  unfold statement? at hst
  generalize Parser.close stack focus = x at hclosed hst
  split at hst
  · cases hst
    obtain ⟨u, v, v', goal, rfl, hrest, hgoal, hopens, hfocus⟩ := hclosed.pop
    cases hrest with
    | nil =>
        cases hopens with
        | @declared d n c hd hn hc =>
            refine ⟨eq_program_of_goal hgoal, ?_⟩
            have hspan : Span.ofTokens (d :: n :: c :: (v' ++ [t])) = ⟨d.span.start, t.span.stop⟩ :=
              Span.ofTokens_delimited (u := n :: c :: v')
            rw [← hspan]
            exact .declare hd hn hc hfocus.whole_type ht
  · cases hst
    obtain ⟨u, v, v', goal, rfl, hrest, hgoal, hopens, hfocus⟩ := hclosed.pop
    cases hrest with
    | nil =>
        cases hopens with
        | @value l n a hl hn ha =>
            refine ⟨eq_program_of_goal hgoal, ?_⟩
            have hspan : Span.ofTokens (l :: n :: a :: (v' ++ [t])) = ⟨l.span.start, t.span.stop⟩ :=
              Span.ofTokens_delimited (u := n :: a :: v')
            rw [← hspan]
            exact .bind hl hn ha hfocus.whole ht
        | @typedValue type l n c a u hl hn hc htype ha =>
            refine ⟨eq_program_of_goal hgoal, ?_⟩
            have hall : [] ++ (l :: n :: c :: (u ++ [a]) ++ v') ++ [t] =
                l :: n :: c :: (u ++ a :: (v' ++ [t])) := by simp
            have hspan : Span.ofTokens ([] ++ (l :: n :: c :: (u ++ [a]) ++ v') ++ [t]) =
                ⟨l.span.start, t.span.stop⟩ := Span.ofTokens_delimited (u := n :: c :: (u ++ [a] ++ v'))
            rw [← hspan, hall]
            exact .bindTyped hl hn hc htype ha hfocus.whole ht
  · cases hst
    obtain ⟨u, v, v', goal, rfl, hrest, hgoal, hopens, hfocus⟩ := hclosed.pop
    cases hrest with
    | nil =>
        cases hopens with
        | statement =>
            refine ⟨eq_program_of_goal hgoal, ?_⟩
            have hvalue := hfocus.whole
            have hspan : Span.ofTokens (v' ++ [t]) = ⟨o, t.span.stop⟩ := by
              rw [Span.ofTokens_append (hvalue.ne_nil rfl) (List.cons_ne_nil t []), ← ho,
                ← Span.start_ofTokens_append (v := [t]) (hvalue.ne_nil rfl)]
              rfl
            rw [← hspan]
            exact .eval hvalue ht
  · cases hst

/-- What the parser has read: complete statements, and the beginning of what has to be read. A statement
starts with its first token, whichever it will be. -/
def Reads (s : Start) (c : Config) (w : List Token) : Prop :=
  ∃ u v, w = u ++ v ∧ DerivesProgram u c.done.reverse ∧ (s = .program ∨ c.done = []) ∧
    ∀ t : Token, Pending (Span.ofTokens (v ++ [t])).start s.goal c.stack c.focus v

theorem reads_config (s : Start) : Reads s s.config [] := by
  refine ⟨[], [], rfl, ?_, ?_, fun t => ⟨[], [], rfl, ?_, ?_⟩⟩
  · cases s <;> exact .nil
  · cases s <;> exact .inr rfl
  · cases s <;> exact .nil
  · cases s with
    | expr => exact .operand
    | type => exact .type
    | program => exact .statement

theorem Reads.step (h : Reads s c w) (ht : t.Spelled) (hstep : c.step t = some c') :
    Reads s c' (w ++ [t]) := by
  obtain ⟨u, v, rfl, hdone, hprogram, hpending⟩ := h
  unfold Config.step at hstep
  split at hstep
  · rename_i st hst
    split at hst
    · rename_i hterminal
      cases hstep
      obtain ⟨hs, hstatement⟩ := derives_of_statement? (hpending t) rfl hterminal hst
      subst hs
      refine ⟨u ++ (v ++ [t]), [], by simp, ?_, .inl rfl, fun _ => ⟨[], [], rfl, .nil, .statement⟩⟩
      change DerivesProgram _ (st :: c.done).reverse
      rw [List.reverse_cons]
      exact hdone.append hstatement.program
    · cases hst
  · obtain ⟨⟨stack, focus⟩, hmove, rfl⟩ := Option.map_eq_some_iff.mp hstep
    refine ⟨u, v ++ [t], by simp, hdone, hprogram, fun t' => ?_⟩
    have hstart : (Span.ofTokens (v ++ [t] ++ [t'])).start = (Span.ofTokens (v ++ [t])).start :=
      Span.start_ofTokens_append (by simp)
    rw [hstart]
    exact move_pending (hpending t) ht rfl hmove

theorem Reads.feed (h : Reads s c w) (hv : ∀ t ∈ v, t.Spelled) (hfeed : Parser.feed c v = .ok c') :
    Reads s c' (w ++ v) := by
  induction v generalizing c w with
  | nil =>
      cases hfeed
      rwa [List.append_nil]
  | cons t v ih =>
      rw [Parser.feed] at hfeed
      split at hfeed
      · rename_i d hstep
        rw [List.append_cons]
        exact ih (h.step (hv t (List.mem_cons_self ..)) hstep) (fun t' ht' => hv t' (List.mem_cons_of_mem t ht'))
          hfeed
      · cases hfeed

theorem eq_nil_of_derivesProgram (h : DerivesProgram w []) : w = [] := by
  cases h
  rfl

/-- Where no statements are read, all that was read is pending. -/
theorem Reads.pending (h : Reads s c w) (hs : s ≠ .program) :
    Pending (Span.ofTokens (w ++ [default])).start s.goal c.stack c.focus w := by
  obtain ⟨u, v, rfl, hdone, hprogram, hpending⟩ := h
  rw [hprogram.resolve_left hs] at hdone
  cases eq_nil_of_derivesProgram hdone
  exact hpending default

/-- A tree that comes out at the end of a text is derived. -/
theorem Reads.derives {tree : s.Tree} (h : Reads s c w) (hresult : s.result? (s.finish c) = some tree) :
    s.Derives w tree := by
  cases s with
  | expr =>
      have hclosed : Pending _ Start.expr.goal c.atEnd.stack c.atEnd.focus w := (h.pending nofun).atEnd
      change Config.expr? c.atEnd = some tree at hresult
      unfold Config.expr? at hresult
      split at hresult
      · rename_i hstack hfocus
        cases hresult
        rw [hstack, hfocus] at hclosed
        obtain ⟨_, v, rfl, ⟨⟩, hfocus⟩ := hclosed
        exact hfocus.whole
      · cases hresult
  | type =>
      have hclosed : Pending _ Start.type.goal c.atEnd.stack c.atEnd.focus w := (h.pending nofun).atEnd
      change Config.type? c.atEnd = some tree at hresult
      unfold Config.type? at hresult
      split at hresult
      · rename_i hstack hfocus
        cases hresult
        rw [hstack, hfocus] at hclosed
        obtain ⟨_, v, rfl, ⟨⟩, hfocus⟩ := hclosed
        exact hfocus.whole_type
      · cases hresult
  | program =>
      obtain ⟨u, v, rfl, hdone, -, hpending⟩ := h
      change Config.program? c = some tree at hresult
      unfold Config.program? at hresult
      split at hresult
      · rename_i hfocus
        cases hresult
        have hread := hpending default
        rw [hfocus] at hread
        obtain ⟨v₁, v₂, rfl, hstack, hreads⟩ := hread
        generalize hgoal : awaited Start.program.goal c.stack = goal at hreads
        cases hreads with
        | statement =>
            rw [eq_nil_of_awaited hgoal] at hstack
            cases hstack with
            | nil =>
                rw [List.append_nil, List.append_nil]
                exact hdone
      · cases hresult

end Parser

namespace Lexer

/-- Tokens that are read from a text have texts of their classes. -/
theorem Lexes.spelled {o o' : Nat} {cs cs' : List Char} {tokens : List Token}
    (h : Lexes o cs tokens o' cs') : ∀ t ∈ tokens, t.Spelled := by
  induction h with
  | stop => simp
  | skip _ _ ih => exact ih
  | token hlongest _ ih =>
      intro t ht
      rcases List.mem_cons.mp ht with rfl | ht
      · change Pattern _ (String.ofList _).toList
        rw [String.toList_ofList]
        exact hlongest.pattern
      · exact ih t ht

/-- The tokens of a text that is read to its end. -/
theorem Lexes.ofText_eq {o : Nat} {code : String} {tokens : List Token}
    (h : Lexes 0 code.toList tokens o []) : Token.ofText code = ⟨tokens, none⟩ := by
  rw [Token.ofText, h.split_eq, split, List.append_nil]

/-- The tokens of a text that is read to a place where nothing starts. -/
theorem Lexes.ofText_stuck {o : Nat} {code : String} {tokens : List Token} {rest : List Char}
    (h : Lexes 0 code.toList tokens o rest) (hstuck : Stuck rest) (hne : rest ≠ []) :
    Token.ofText code = ⟨tokens, some o⟩ := by
  obtain ⟨c, cs, rfl⟩ := List.exists_cons_of_ne_nil hne
  rw [Token.ofText, h.split_eq, split_stuck hstuck, List.append_nil]

end Lexer

namespace Parser

variable {s : Start} {code : String} {tokens : List Token} {o : Nat} {tree : s.Tree}

/-- What becomes of a text that is read to its end. -/
theorem parse_complete (h : Lexer.Lexes 0 code.toList tokens o []) : s.parse code =
    match feed s.config tokens with
    | .error t => .error (.located (.unexpectedToken t.text) t.span)
    | .ok c =>
        match s.result? (s.finish c) with
        | some tree => .ok tree
        | none => .error (.located (.unexpectedEnd (s.finish c).expected) (.ofOffset (endOffset tokens))) := by
  rw [Start.parse_eq, parse, h.ofText_eq]
  cases feed s.config tokens with
  | error t => rfl
  | ok c =>
      dsimp only
      cases s.result? (s.finish c) <;> rfl

/-- What becomes of a text with a place where nothing starts. -/
theorem parse_stuck {rest : List Char} (h : Lexer.Lexes 0 code.toList tokens o rest)
    (hstuck : Lexer.Stuck rest) (hne : rest ≠ []) : s.parse code =
    match feed s.config tokens with
    | .error t => .error (.located (.unexpectedToken t.text) t.span)
    | .ok _ => .error (.located .invalidToken (.ofOffset o)) := by
  rw [Start.parse_eq, parse, h.ofText_stuck hstuck hne]
  cases feed s.config tokens <;> rfl

theorem parse_eq_ok_of_derives (hlexes : Lexer.Lexes 0 code.toList tokens o [])
    (h : s.Derives tokens tree) : s.parse code = .ok tree := by
  obtain ⟨c, hfeed, hresult⟩ := Start.runs h
  rw [parse_complete hlexes, hfeed]
  simp only [hresult]

/-- Tokens of their classes that are read from the start. -/
theorem reads_of_feed {c : Config} (hspelled : ∀ t ∈ tokens, t.Spelled)
    (hfeed : feed s.config tokens = .ok c) : Reads s c tokens :=
  (reads_config s).feed hspelled hfeed

theorem derives_of_parse_eq_ok (h : s.parse code = .ok tree) :
    ∃ tokens o, Lexer.Lexes 0 code.toList tokens o [] ∧ s.Derives tokens tree := by
  obtain ⟨tokens, o, rest, hlexes, hend⟩ := Lexer.exists_lexes 0 code.toList
  by_cases hrest : rest = []
  · subst hrest
    refine ⟨tokens, o, hlexes, ?_⟩
    rw [parse_complete hlexes] at h
    split at h
    · cases h
    · rename_i c hfeed
      split at h
      · rename_i hresult
        cases h
        exact (reads_of_feed hlexes.spelled hfeed).derives hresult
      · cases h
  · rw [parse_stuck hlexes (hend.resolve_left hrest) hrest] at h
    split at h <;> cases h

theorem derives_unique {tree' : s.Tree} (h : s.Derives tokens tree) (h' : s.Derives tokens tree') :
    tree = tree' := by
  obtain ⟨c, hfeed, hresult⟩ := Start.runs h
  obtain ⟨c', hfeed', hresult'⟩ := Start.runs h'
  rw [hfeed] at hfeed'
  cases hfeed'
  rw [hresult] at hresult'
  exact Option.some.inj hresult'

end Parser

/-- A text gives a tree exactly when it is read to its end as tokens from which the grammar derives the
tree, and tokens derive no two trees. -/
theorem parse_eq_ok_iff_derives (s : Start) :
    (∀ (code : String) (tree : s.Tree), s.parse code = .ok tree ↔
      ∃ tokens o, Lexer.Lexes 0 code.toList tokens o [] ∧ s.Derives tokens tree) ∧
    ∀ (tokens : List Token) (tree tree' : s.Tree),
      s.Derives tokens tree → s.Derives tokens tree' → tree = tree' := by
  refine ⟨fun code tree => ⟨Parser.derives_of_parse_eq_ok, ?_⟩, fun _ _ _ => Parser.derives_unique⟩
  rintro ⟨tokens, o, hlexes, hderives⟩
  exact Parser.parse_eq_ok_of_derives hlexes hderives

theorem parse_sum_derives_only : ∃ tokens o, Lexer.Lexes 0 "a + b // c".toList tokens o [] ∧
    Start.expr.Derives tokens (.binary ⟨0, 5⟩ .add (.ident ⟨0, 1⟩ "a") (.ident ⟨4, 5⟩ "b")) ∧
    ∀ tree, Start.expr.Derives tokens tree →
      tree = .binary ⟨0, 5⟩ .add (.ident ⟨0, 1⟩ "a") (.ident ⟨4, 5⟩ "b") := by
  obtain ⟨hparse, hunique⟩ := parse_eq_ok_iff_derives .expr
  obtain ⟨tokens, o, hlexes, hderives⟩ := (hparse "a + b // c" _).mp (by with_unfolding_all rfl)
  exact ⟨tokens, o, hlexes, hderives, fun tree htree => hunique tokens tree _ htree hderives⟩

end Structura
