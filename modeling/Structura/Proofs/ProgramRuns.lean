import Structura.Proofs.ExprRuns

namespace Structura

namespace Parser

open Grammar

variable {done : List Statement} {stack : List Frame} {c : Config} {t : Token} {u w : List Token}

/-- The semicolon after an expression looks only at what completes it. -/
theorem RankRead.step_semicolon {p : Part Expr} {s : Statement} (h : RankRead .whole c done stack p)
    (ht : t.terminal = .semicolon) (hs : statement? stack (.expr .whole p) t.span.stop = some s) :
    c.step t = some ⟨s :: done, [], .statement⟩ := by
  obtain ⟨stack', focus, rest, r, e, rfl, hshows, -, hfold⟩ := h
  have hclose : close stack' focus = close stack (.expr .whole p) := by
    rw [hshows.close_eq, hfold .whole (Rank.le_refl _)]
    rfl
  have hstatement : statement? stack' focus t.span.stop = some s := by
    rw [← hs]
    unfold statement?
    rw [hclose]
  rw [Config.step, if_pos ht, hstatement]

/-- Where no statement can end, a step is a move. -/
theorem step_eq_move {focus : Focus} (h : statement? stack focus t.span.stop = none) :
    Config.step ⟨done, stack, focus⟩ t =
      (move stack focus t).map fun (stack, focus) => ⟨done, stack, focus⟩ := by
  rw [Config.step, h, ite_self]

/-- A token that starts an expression starts a statement. -/
theorem step_statement (h : Config.step ⟨done, [.statement t.span.start], .operand⟩ t = some c) :
    Config.step ⟨done, [], .statement⟩ t = some c := by
  rw [step_eq_move rfl] at h ⊢
  rw [← h]
  change (statementStep [] t).map _ = (operandStep [.statement t.span.start] t).map _
  unfold statementStep
  split
  · rename_i hterminal
    simp [move, operandStep, Token.simpleExpr?, Token.literal?, hterminal] at h
  · rename_i hterminal
    simp [move, operandStep, Token.simpleExpr?, Token.literal?, hterminal] at h
  · rfl

theorem feed_statement {v : List Token} {c : Config} (hne : w ≠ [])
    (h : feed ⟨done, [.statement (Span.ofTokens w).start], .operand⟩ w = .ok c) :
    feed ⟨done, [], .statement⟩ (w ++ v) = feed c v := by
  apply feed_append
  obtain ⟨t, w, rfl⟩ := List.exists_cons_of_ne_nil hne
  rw [feed] at h
  split at h
  · rename_i c' hstep
    rw [feed_cons (step_statement hstep), h]
  · cases h

section

variable {type : TypeExpr} {e : Expr}

theorem statementRuns_declare {d n m s : Token} (hd : d.terminal = .declareWord)
    (hn : n.terminal = .identifier) (hm : m.terminal = .colon) (hu : TypeRuns .type u type)
    (hs : s.terminal = .semicolon) :
    feed ⟨done, [], .statement⟩ (d :: n :: m :: (u ++ [s])) =
      .ok ⟨.declare (.ofTokens (d :: n :: m :: (u ++ [s]))) n.name type :: done, [], .statement⟩ := by
  have hdeclare : Config.step ⟨done, [], .statement⟩ d = some ⟨done, [], .declareName d.span.start⟩ :=
    step_of_move (by simp [hd]) (by simp [move, statementStep, hd])
  have hname : Config.step ⟨done, [], .declareName d.span.start⟩ n =
      some ⟨done, [], .declareColon d.span.start n.name⟩ :=
    step_of_move (by simp [hn]) (by simp [move, hn])
  have hcolon : Config.step ⟨done, [], .declareColon d.span.start n.name⟩ m =
      some ⟨done, [.declared d.span.start n.name], .type⟩ :=
    step_of_move (by simp [hm]) (by simp [move, hm])
  obtain ⟨stack, p, hfeed, hfold⟩ := hu done [.declared d.span.start n.name] rfl
  have hsemicolon : Config.step ⟨done, stack, .typed false p⟩ s =
      some ⟨.declare ⟨d.span.start, s.span.stop⟩ n.name type :: done, [], .statement⟩ := by
    rw [step_typed_congr hfold (by simp [hs]) (by simp [hs])]
    simp [Config.step, statement?, close, foldType, hs]
  rw [feed_cons hdeclare, feed_cons hname, feed_cons hcolon, feed_append hfeed, feed_cons hsemicolon,
    ← Span.ofTokens_delimited (u := n :: m :: u)]
  rfl

/-- A value between its beginning and the semicolon. -/
theorem feed_value {start : Nat} {name : Name} {type : Option TypeExpr} {s : Token}
    (hu : RankRuns .whole u e) (hs : s.terminal = .semicolon) :
    feed ⟨done, [.value start name type], .operand⟩ (u ++ [s]) =
      .ok ⟨.bind ⟨start, s.span.stop⟩ name type e :: done, [], .statement⟩ := by
  obtain ⟨c, hfeed, hread⟩ := hu done [.value start name type] (Rank.le_refl _)
  have hsemicolon : c.step s = some ⟨.bind ⟨start, s.span.stop⟩ name type e :: done, [], .statement⟩ :=
    hread.step_semicolon hs rfl
  rw [feed_append hfeed, feed_cons hsemicolon]
  rfl

theorem feed_let {l n : Token} {v : List Token} (hl : l.terminal = .letWord)
    (hn : n.terminal = .identifier) :
    feed ⟨done, [], .statement⟩ (l :: n :: v) = feed ⟨done, [], .letEnd l.span.start n.name⟩ v := by
  have hlet : Config.step ⟨done, [], .statement⟩ l = some ⟨done, [], .letName l.span.start⟩ :=
    step_of_move (by simp [hl]) (by simp [move, statementStep, hl])
  have hname : Config.step ⟨done, [], .letName l.span.start⟩ n =
      some ⟨done, [], .letEnd l.span.start n.name⟩ :=
    step_of_move (by simp [hn]) (by simp [move, hn])
  rw [feed_cons hlet, feed_cons hname]

theorem statementRuns_bind {l n a s : Token} (hl : l.terminal = .letWord)
    (hn : n.terminal = .identifier) (ha : a.terminal = .assign) (hu : RankRuns .whole u e)
    (hs : s.terminal = .semicolon) :
    feed ⟨done, [], .statement⟩ (l :: n :: a :: (u ++ [s])) =
      .ok ⟨.bind (.ofTokens (l :: n :: a :: (u ++ [s]))) n.name none e :: done, [], .statement⟩ := by
  have hassign : Config.step ⟨done, [], .letEnd l.span.start n.name⟩ a =
      some ⟨done, [.value l.span.start n.name none], .operand⟩ :=
    step_of_move (by simp [ha]) (by simp [move, letEndStep, ha])
  rw [feed_let hl hn, feed_cons hassign, feed_value hu hs,
    ← Span.ofTokens_delimited (u := n :: a :: u)]
  rfl

theorem statementRuns_bindTyped {l n m a s : Token} {v : List Token} (hl : l.terminal = .letWord)
    (hn : n.terminal = .identifier) (hm : m.terminal = .colon) (hu : TypeRuns .type u type)
    (ha : a.terminal = .assign) (hv : RankRuns .whole v e) (hs : s.terminal = .semicolon) :
    feed ⟨done, [], .statement⟩ (l :: n :: m :: (u ++ a :: (v ++ [s]))) =
      .ok ⟨.bind (.ofTokens (l :: n :: m :: (u ++ a :: (v ++ [s])))) n.name (some type) e :: done, [],
        .statement⟩ := by
  have hcolon : Config.step ⟨done, [], .letEnd l.span.start n.name⟩ m =
      some ⟨done, [.annotated l.span.start n.name], .type⟩ :=
    step_of_move (by simp [hm]) (by simp [move, letEndStep, hm])
  obtain ⟨stack, p, hfeed, hfold⟩ := hu done [.annotated l.span.start n.name] rfl
  have hassign : Config.step ⟨done, stack, .typed false p⟩ a =
      some ⟨done, [.value l.span.start n.name (some type)], .operand⟩ := by
    rw [step_typed_congr hfold (by simp [ha]) (by simp [ha])]
    apply step_of_move (by simp [ha])
    simp [move, typedStep, foldType, closeTypeStep, ha]
  have hspan : Span.ofTokens (l :: n :: m :: (u ++ a :: (v ++ [s]))) = ⟨l.span.start, s.span.stop⟩ := by
    have hall : l :: n :: m :: (u ++ a :: (v ++ [s])) = l :: (n :: m :: (u ++ a :: v) ++ [s]) := by simp
    rw [hall, Span.ofTokens_delimited]
  rw [feed_let hl hn, feed_cons hcolon, feed_append hfeed, feed_cons hassign, feed_value hv hs, hspan]

theorem statementRuns_eval {s : Token} (hu : RankRuns .whole u e) (hne : u ≠ [])
    (hs : s.terminal = .semicolon) :
    feed ⟨done, [], .statement⟩ (u ++ [s]) = .ok ⟨.eval (.ofTokens (u ++ [s])) e :: done, [], .statement⟩ := by
  obtain ⟨c, hfeed, hread⟩ := hu done [.statement (Span.ofTokens u).start] (Rank.le_refl _)
  have hsemicolon : c.step s =
      some ⟨.eval ⟨(Span.ofTokens u).start, s.span.stop⟩ e :: done, [], .statement⟩ :=
    hread.step_semicolon hs rfl
  rw [feed_statement hne hfeed, feed_cons hsemicolon, Span.ofTokens_append hne (List.cons_ne_nil s [])]
  rfl

end

theorem statementRuns {s : Statement} (h : DerivesStatement w s) (done : List Statement) :
    feed ⟨done, [], .statement⟩ w = .ok ⟨s :: done, [], .statement⟩ := by
  cases h with
  | declare hd hn hm hu hs => exact statementRuns_declare hd hn hm (typeRuns hu) hs
  | bind hl hn ha hu hs => exact statementRuns_bind hl hn ha (exprRuns hu) hs
  | bindTyped hl hn hm hu ha hv hs =>
      exact statementRuns_bindTyped hl hn hm (typeRuns hu) ha (exprRuns hv) hs
  | eval hu hs => exact statementRuns_eval (exprRuns hu) (hu.ne_nil rfl) hs

theorem programRuns {ss : List Statement} (h : DerivesProgram w ss) (done : List Statement) :
    feed ⟨done, [], .statement⟩ w = .ok ⟨ss.reverse ++ done, [], .statement⟩ := by
  induction h generalizing done with
  | nil => rfl
  | cons hu _ ih =>
      rw [feed_append (statementRuns hu done), ih, List.reverse_cons, List.append_assoc]
      rfl

end Parser

namespace Grammar.Start

open Structura.Parser

variable {w : List Token}

def config : Start → Config
  | .expr => ⟨[], [], .operand⟩
  | .type => ⟨[], [], .type⟩
  | .program => ⟨[], [], .statement⟩

def finish : Start → Config → Config
  | .expr | .type => Config.atEnd
  | .program => id

def result? : (s : Start) → Config → Option s.Tree
  | .expr => Config.expr?
  | .type => Config.type?
  | .program => Config.program?

theorem parse_eq (s : Start) (code : String) :
    s.parse code = Parser.parse s.config s.finish s.result? code := by
  cases s <;> rfl

/-- The parser reads what the grammar derives to the tree of the derivation. -/
theorem runs {s : Start} {tree : s.Tree} (h : s.Derives w tree) :
    ∃ c, feed s.config w = .ok c ∧ s.result? (s.finish c) = some tree := by
  cases s with
  | expr =>
      obtain ⟨c, hfeed, stack, focus, rest, r, e, rfl, hshows, -, hfold⟩ :=
        exprRuns h [] [] (Rank.le_refl _)
      refine ⟨_, hfeed, ?_⟩
      have hclose : close stack focus = ([], .expr .whole ⟨.ofTokens w, tree⟩) := by
        rw [hshows.close_eq, hfold .whole (Rank.le_refl _)]
        rfl
      change Config.expr? (Config.atEnd ⟨[], stack, focus⟩) = some tree
      rw [Config.atEnd, hclose]
      rfl
  | type =>
      obtain ⟨stack, p, hfeed, hfold⟩ := typeRuns h [] [] rfl
      refine ⟨_, hfeed, ?_⟩
      have hclose : close stack (.typed false p) = ([], .typed true ⟨.ofTokens w, tree⟩) := by
        unfold close
        simp only [hfold, foldType]
      change Config.type? (Config.atEnd ⟨[], stack, .typed false p⟩) = some tree
      rw [Config.atEnd, hclose]
      rfl
  | program =>
      refine ⟨_, programRuns h [], ?_⟩
      change some (tree.reverse ++ []).reverse = some tree
      rw [List.append_nil, List.reverse_reverse]

end Grammar.Start

end Structura
