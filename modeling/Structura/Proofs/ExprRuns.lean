import Structura.Proofs.TypeRuns

namespace Structura

namespace Grammar

def ExprSymbol.mayBeEmpty : ExprSymbol → Bool
  | .arrowParams | .moreParams | .arguments | .properties => true
  | _ => false

theorem DerivesExpr.ne_nil {s : ExprSymbol} {w : List Token} {e : s.Tree} (h : DerivesExpr s w e)
    (hs : s.mayBeEmpty = false) : w ≠ [] := by
  induction h <;> simp_all [ExprSymbol.mayBeEmpty]

end Grammar

namespace Parser

open Grammar

def operandRank : List Frame → Rank
  | .unary _ _ :: _ => .unary
  | .binary .add _ :: _ => .unary
  | .binary _ _ :: _ => .relational
  | .logical .and _ :: _ => .equality
  | .logical .or _ :: _ => .conjunction
  | _ => .whole

theorem Rank.le_refl (r : Rank) : r ≤ r := Nat.le_refl r.level

theorem Rank.le_trans {q r s : Rank} (h : q ≤ r) (h' : r ≤ s) : q ≤ s := Nat.le_trans h h'

theorem Rank.le_whole (r : Rank) : r ≤ .whole := by cases r <;> decide

theorem Rank.eq_whole {r : Rank} (h : .whole ≤ r) : r = .whole := by
  revert h
  cases r <;> decide

theorem awaitsWhole_eq (stack : List Frame) :
    awaitsWhole stack = decide (operandRank stack = .whole) := by
  cases stack with
  | nil => rfl
  | cons f rest =>
      cases f with
      | binary op _ => cases op <;> rfl
      | logical op _ => cases op <;> rfl
      | _ => rfl

theorem awaitsWhole_of_le {stack : List Frame} (h : .whole ≤ operandRank stack) :
    awaitsWhole stack = true := by
  rw [awaitsWhole_eq, Rank.eq_whole h]
  rfl

section

variable {q r : Rank} {f : Frame} {stack : List Frame} {e e' : Part Expr}

theorem fold_complete (h : f.complete? e = some (r, e')) (hr : r ≤ q) :
    fold q (f :: stack) e = fold q stack e' := by
  rw [fold, h]
  simp only [hr, if_true]

theorem fold_stop (h : f.complete? e = some (r, e')) (hr : ¬r ≤ q) :
    fold q (f :: stack) e = (f :: stack, e) := by
  rw [fold, h]
  simp only [hr, if_false]

theorem fold_open (h : f.complete? e = none) : fold q (f :: stack) e = (f :: stack, e) := by
  rw [fold, h]

/-- An operator completes nothing that waits for a looser operand than the operator makes. -/
theorem fold_of_le_operandRank (hq : .additive ≤ q) (hwhole : q ≠ .whole)
    (h : q ≤ operandRank stack) : fold q stack e = (stack, e) := by
  cases stack with
  | nil => rfl
  | cons f rest =>
      cases f with
      | unary start op =>
          exact absurd (Rank.le_trans hq h) (by decide : ¬Rank.additive ≤ Rank.unary)
      | binary op left =>
          cases op with
          | add => exact absurd (Rank.le_trans hq h) (by decide : ¬Rank.additive ≤ Rank.unary)
          | equal | notEqual =>
              apply fold_stop rfl
              intro hr
              exact absurd (Rank.le_trans hr h) (by decide : ¬Rank.equality ≤ Rank.relational)
      | logical op left =>
          cases op with
          | and =>
              apply fold_stop rfl
              intro hr
              exact absurd (Rank.le_trans hr h) (by decide : ¬Rank.conjunction ≤ Rank.equality)
          | or =>
              apply fold_stop rfl
              intro hr
              exact absurd (Rank.le_trans hr h) (by decide : ¬Rank.disjunction ≤ Rank.conjunction)
      | body start params => exact fold_stop rfl fun hr => hwhole (Rank.eq_whole hr)
      | _ => exact fold_open rfl

/-- No operator is as tight as a chain. -/
theorem fold_chain : fold .chain stack e = (stack, e) := by
  cases stack with
  | nil => rfl
  | cons f rest =>
      cases f with
      | binary op left => cases op <;> exact fold_stop rfl (by decide)
      | logical op left => cases op <;> exact fold_stop rfl (by decide)
      | unary start op => exact fold_stop rfl (by decide)
      | body start params => exact fold_stop rfl (by decide)
      | _ => exact fold_open rfl

end

structure IsOperator (terminal : Terminal) (r s : Rank) (frame : Part Expr → Frame)
    (node : Span → Expr → Expr → Expr) : Prop where
  additive_le : .additive ≤ r
  ne_whole : r ≠ .whole
  tighter : s ≤ r
  plain : terminal ≠ .semicolon ∧ terminal ≠ .amp ∧ terminal ≠ .bar
  operandRank_eq : ∀ p stack, operandRank (frame p :: stack) = s
  complete?_eq : ∀ p e, (frame p).complete? e =
    some (r, e.extend p.span.start fun span e => node span p.tree e)
  exprStep_eq : ∀ (t : Token), t.terminal = terminal → ∀ rest q e,
    exprStep rest q e t = operatorStep r frame .operand rest q e

theorem isOperator_or :
    IsOperator .either .disjunction .conjunction (.logical .or) (.logical · .or · ·) :=
  ⟨by decide, nofun, by decide, by decide, fun _ _ => rfl, fun _ _ => rfl,
    fun t ht => by simp [exprStep, ht]⟩

theorem isOperator_and : IsOperator .both .conjunction .equality (.logical .and) (.logical · .and · ·) :=
  ⟨by decide, nofun, by decide, by decide, fun _ _ => rfl, fun _ _ => rfl,
    fun t ht => by simp [exprStep, ht]⟩

theorem isOperator_equal :
    IsOperator .equal .equality .relational (.binary .equal) (.binary · .equal · ·) :=
  ⟨by decide, nofun, by decide, by decide, fun _ _ => rfl, fun _ _ => rfl,
    fun t ht => by simp [exprStep, ht]⟩

theorem isOperator_notEqual :
    IsOperator .notEqual .equality .relational (.binary .notEqual) (.binary · .notEqual · ·) :=
  ⟨by decide, nofun, by decide, by decide, fun _ _ => rfl, fun _ _ => rfl,
    fun t ht => by simp [exprStep, ht]⟩

theorem isOperator_add : IsOperator .plus .additive .unary (.binary .add) (.binary · .add · ·) :=
  ⟨by decide, nofun, by decide, by decide, fun _ _ => rfl, fun _ _ => rfl,
    fun t ht => by simp [exprStep, ht]⟩

/-- What has been read ends with an expression of rank `r`, before which `rest` stands open. -/
inductive Shows : List Frame → Focus → List Frame → Rank → Part Expr → Prop
  | expr {stack : List Frame} {r : Rank} {e : Part Expr} : Shows stack (.expr r e) stack r e
  | ascription {stack rest : List Frame} {p type : Part TypeExpr} {subject : Part Expr} :
      foldType stack p = (.ascription subject :: rest, type) →
      Shows stack (.typed false p) rest .relational (ascribe subject type)

section

variable {done : List Statement} {stack stack' rest rest' : List Frame} {focus focus' : Focus} {r : Rank}
  {e e' : Part Expr} {t : Token}

theorem Shows.move_eq (h : Shows stack focus rest r e) (hamp : t.terminal ≠ .amp)
    (hbar : t.terminal ≠ .bar) : move stack focus t = exprStep rest r e t := by
  cases h with
  | expr => rfl
  | ascription hfold =>
      change typedStep stack false _ t = _
      rw [typedStep_eq hamp hbar, hfold]

theorem Shows.close_eq (h : Shows stack focus rest r e) :
    close stack focus = ((fold .whole rest e).1, .expr .whole (fold .whole rest e).2) := by
  cases h with
  | expr => rfl
  | ascription hfold =>
      unfold close
      simp only [hfold]

/-- The tokens that end an expression look only at what completes it. -/
theorem Shows.step_close (h : Shows stack focus rest r e)
    (hfold : fold .whole rest e = fold .whole rest' e')
    (ht : t.terminal = .closeParen ∨ t.terminal = .closeBracket ∨ t.terminal = .closeBrace ∨
      t.terminal = .comma)
    (hclose : closeExprStep rest' e' t = some (stack', focus')) :
    Config.step ⟨done, stack, focus⟩ t = some ⟨done, stack', focus'⟩ := by
  have heq : closeExprStep rest e t = closeExprStep rest' e' t := by
    unfold closeExprStep
    rw [hfold]
  have hexpr : exprStep rest r e t = closeExprStep rest e t := by
    rcases ht with ht | ht | ht | ht <;> simp [exprStep, ht]
  apply step_of_move
  · rcases ht with ht | ht | ht | ht <;> simp [ht]
  · rw [h.move_eq, hexpr, heq, hclose]
    · rcases ht with ht | ht | ht | ht <;> simp [ht]
    · rcases ht with ht | ht | ht | ht <;> simp [ht]

end

def RankRead (r : Rank) (c : Config) (done : List Statement) (stack : List Frame) (p : Part Expr) : Prop :=
  ∃ stack' focus rest r' e, c = ⟨done, stack', focus⟩ ∧ Shows stack' focus rest r' e ∧ r' ≤ r ∧
    ∀ q, r ≤ q → fold q rest e = fold q stack p

section

variable {r s : Rank} {c : Config} {done : List Statement} {stack stack' : List Frame} {focus' : Focus}
  {p : Part Expr} {t : Token}

theorem rankRead_expr (h : s ≤ r) : RankRead r ⟨done, stack, .expr s p⟩ done stack p :=
  ⟨stack, _, stack, s, p, rfl, .expr, h, fun _ _ => rfl⟩

theorem RankRead.mono (h : RankRead r c done stack p) (hs : r ≤ s) : RankRead s c done stack p := by
  obtain ⟨stack', focus, rest, r', e, hc, hshows, hr, hfold⟩ := h
  exact ⟨stack', focus, rest, r', e, hc, hshows, Rank.le_trans hr hs,
    fun q hq => hfold q (Rank.le_trans hs hq)⟩

theorem RankRead.step_close (h : RankRead .whole c done stack p)
    (ht : t.terminal = .closeParen ∨ t.terminal = .closeBracket ∨ t.terminal = .closeBrace ∨
      t.terminal = .comma)
    (hclose : closeExprStep stack p t = some (stack', focus')) :
    c.step t = some ⟨done, stack', focus'⟩ := by
  obtain ⟨_, _, _, _, _, rfl, hshows, -, hfold⟩ := h
  exact hshows.step_close (hfold .whole (Rank.le_refl _)) ht hclose

/-- An operator that takes what has been read as its left operand. -/
theorem RankRead.step_operator (frame : Part Expr → Frame) (next : Focus)
    (h : RankRead r c done stack p) (hstack : r ≤ operandRank stack) (hr : .additive ≤ r)
    (hwhole : r ≠ .whole) (hsemi : t.terminal ≠ .semicolon) (hamp : t.terminal ≠ .amp)
    (hbar : t.terminal ≠ .bar)
    (ht : ∀ rest s e, exprStep rest s e t = operatorStep r frame next rest s e) :
    c.step t = some ⟨done, frame p :: stack, next⟩ := by
  obtain ⟨_, _, rest, r', e, rfl, hshows, hr', hfold⟩ := h
  apply step_of_move hsemi
  rw [hshows.move_eq hamp hbar, ht, operatorStep, if_pos hr', hfold r (Rank.le_refl r),
    fold_of_le_operandRank hr hwhole hstack]

/-- A token that continues a chain. -/
theorem RankRead.step_chain (h : RankRead .chain c done stack p) (hsemi : t.terminal ≠ .semicolon)
    (hamp : t.terminal ≠ .amp) (hbar : t.terminal ≠ .bar)
    (ht : ∀ s, s ≤ .chain → exprStep stack s p t = some (stack', focus')) :
    c.step t = some ⟨done, stack', focus'⟩ := by
  obtain ⟨_, _, rest, r', e, rfl, hshows, hr', hfold⟩ := h
  have heq := hfold .chain (Rank.le_refl _)
  rw [fold_chain, fold_chain] at heq
  obtain ⟨rfl, rfl⟩ := Prod.mk.inj heq
  apply step_of_move hsemi
  rw [hshows.move_eq hamp hbar, ht r' hr']

end

def RankRuns (r : Rank) (w : List Token) (e : Expr) : Prop :=
  ∀ done stack, r ≤ operandRank stack → ∃ c, feed ⟨done, stack, .operand⟩ w = .ok c ∧
    RankRead r c done stack ⟨.ofTokens w, e⟩

structure PropertyRead (c : Config) (done : List Statement) (stack : List Frame) (start : Nat)
    (properties : List Property) : Prop where
  comma : ∀ t : Token, t.terminal = .comma → c.step t = some ⟨done, stack, .property start properties⟩
  close : ∀ t : Token, t.terminal = .closeBrace → c.step t =
    some ⟨done, stack, .expr .chain ⟨⟨start, t.span.stop⟩, .object ⟨start, t.span.stop⟩ properties.reverse⟩⟩

/-- What happens while the tokens of an expression or of a part of one are read. -/
def ExprRuns : (s : ExprSymbol) → List Token → s.Tree → Prop
  | .expr, w, e | .arrow, w, e => RankRuns .whole w e
  | .disjunction, w, e => RankRuns .disjunction w e
  | .conjunction, w, e => RankRuns .conjunction w e
  | .equality, w, e => RankRuns .equality w e
  | .relational, w, e => RankRuns .relational w e
  | .additive, w, e => RankRuns .additive w e
  | .unary, w, e => RankRuns .unary w e
  | .chain, w, e | .primary, w, e => RankRuns .chain w e
  | .arrowParams, w, ps =>
      ∀ done stack start, ∀ t : Token, t.terminal = .closeParen →
        feed ⟨done, .group start true :: stack, .operand⟩ (w ++ [t]) =
          .ok ⟨done, stack, .arrow ⟨.function, start, ps.reverse⟩⟩
  | .moreParams, w, ps =>
      ∀ c done stack params, ParamRead c done stack params → ∀ t : Token, t.terminal = .closeParen →
        feed c (w ++ [t]) =
          .ok ⟨done, stack, .arrow { params with before := ps.reverse ++ params.before }⟩
  | .arguments, w, es =>
      ∀ done stack callee before, ∀ t : Token, t.terminal = .closeParen →
        feed ⟨done, .argument callee before :: stack, .operand⟩ (w ++ [t]) =
          .ok ⟨done, stack, call callee (es.reverse ++ before) t⟩
  | .properties, w, ps =>
      ∀ done stack start before, ∀ t : Token, t.terminal = .closeBrace →
        feed ⟨done, stack, .property start before⟩ (w ++ [t]) =
          .ok ⟨done, stack, .expr .chain ⟨⟨start, t.span.stop⟩,
            .object ⟨start, t.span.stop⟩ (ps.reverse ++ before).reverse⟩⟩
  | .property, w, p =>
      ∀ done stack start before, ∃ c, feed ⟨done, stack, .property start before⟩ w = .ok c ∧
        PropertyRead c done stack start (p :: before)

section

variable {r s : Rank} {t : Token} {u v : List Token} {e left right : Expr}

theorem RankRuns.mono (h : RankRuns r u e) (hs : r ≤ s) : RankRuns s u e := by
  intro done stack hstack
  obtain ⟨c, hfeed, hread⟩ := h done stack (Rank.le_trans hs hstack)
  exact ⟨c, hfeed, hread.mono hs⟩

theorem rankRuns_operator {terminal : Terminal} {frame : Part Expr → Frame}
    {node : Span → Expr → Expr → Expr} (hop : IsOperator terminal r s frame node)
    (hu : RankRuns r u left) (ht : t.terminal = terminal) (hv : RankRuns s v right) (hune : u ≠ [])
    (hvne : v ≠ []) : RankRuns r (u ++ t :: v) (node (.ofTokens (u ++ t :: v)) left right) := by
  intro done stack hstack
  obtain ⟨hsemi, hamp, hbar⟩ := hop.plain
  obtain ⟨c₁, hfeed₁, hread₁⟩ := hu done stack hstack
  have hstep := hread₁.step_operator frame .operand hstack hop.additive_le hop.ne_whole (ht ▸ hsemi)
    (ht ▸ hamp) (ht ▸ hbar) (hop.exprStep_eq t ht)
  obtain ⟨c₂, hfeed₂, stack₂, focus₂, rest₂, r₂, e₂, hc₂, hshows₂, hr₂, hfold₂⟩ :=
    hv done (frame ⟨.ofTokens u, left⟩ :: stack) (by rw [hop.operandRank_eq]; exact Rank.le_refl s)
  refine ⟨c₂, ?_, stack₂, focus₂, rest₂, r₂, e₂, hc₂, hshows₂, Rank.le_trans hr₂ hop.tighter, ?_⟩
  · rw [feed_append hfeed₁, feed_cons hstep, hfeed₂]
  · intro q hq
    rw [hfold₂ q (Rank.le_trans hop.tighter hq), fold_complete (hop.complete?_eq _ _) hq,
      Span.ofTokens_append hune (List.cons_ne_nil t v), Span.stop_ofTokens_cons hvne]
    rfl

theorem rankRuns_ascription {type : TypeExpr} (hu : RankRuns .relational u left)
    (ht : t.terminal = .asWord) (hv : TypeRuns .type v type) (hune : u ≠ []) (hvne : v ≠ []) :
    RankRuns .relational (u ++ t :: v) (.ascription (.ofTokens (u ++ t :: v)) left type) := by
  intro done stack hstack
  obtain ⟨c₁, hfeed₁, hread₁⟩ := hu done stack hstack
  have hstep := hread₁.step_operator (t := t) .ascription .type hstack (by decide) nofun
    (by simp [ht]) (by simp [ht]) (by simp [ht]) (by simp [exprStep, ht])
  obtain ⟨stack₂, p, hfeed₂, hfold₂⟩ := hv done (.ascription ⟨.ofTokens u, left⟩ :: stack) rfl
  refine ⟨_, ?_, stack₂, _, stack, .relational, ascribe ⟨.ofTokens u, left⟩ ⟨.ofTokens v, type⟩, rfl,
    .ascription hfold₂, Rank.le_refl _, ?_⟩
  · rw [feed_append hfeed₁, feed_cons hstep, hfeed₂]
  · intro q hq
    rw [Span.ofTokens_append hune (List.cons_ne_nil t v), Span.stop_ofTokens_cons hvne]
    rfl

theorem rankRuns_unary {op : UnaryOp}
    (ht : ∀ stack, move stack .operand t = some (.unary t.span.start op :: stack, .operand))
    (hsemi : t.terminal ≠ .semicolon) (hv : RankRuns .unary v e) (hvne : v ≠ []) :
    RankRuns .unary (t :: v) (.unary (.ofTokens (t :: v)) op e) := by
  intro done stack _
  obtain ⟨c, hfeed, stack', focus, rest, r, p, hc, hshows, hr, hfold⟩ :=
    hv done (.unary t.span.start op :: stack) (Rank.le_refl _)
  refine ⟨c, ?_, stack', focus, rest, r, p, hc, hshows, hr, ?_⟩
  · rw [feed_cons (step_of_move hsemi (ht stack)), hfeed]
  · intro q hq
    rw [hfold q hq, fold_complete rfl hq, Span.ofTokens_cons hvne]
    rfl

theorem rankRuns_member {d n : Token} (hu : RankRuns .chain u e) (hne : u ≠ []) (hd : d.terminal = .dot)
    (hn : n.terminal = .identifier) :
    RankRuns .chain (u ++ [d, n]) (.member (.ofTokens (u ++ [d, n])) e n.name) := by
  intro done stack hstack
  obtain ⟨c, hfeed, hread⟩ := hu done stack hstack
  have hdot : c.step d = some ⟨done, stack, .memberName ⟨.ofTokens u, e⟩⟩ := by
    apply hread.step_chain (by simp [hd]) (by simp [hd]) (by simp [hd])
    intro s hs
    simp [exprStep, hd, hs]
  have hname : Config.step ⟨done, stack, .memberName ⟨.ofTokens u, e⟩⟩ n = some ⟨done, stack,
      .expr .chain (Part.close ⟨.ofTokens u, e⟩ n (.member · · n.name))⟩ :=
    step_of_move (by simp [hn]) (by simp [move, hn])
  refine ⟨_, ?_, rankRead_expr (Rank.le_refl _)⟩
  rw [feed_append hfeed, feed_cons hdot, feed_cons hname, Span.ofTokens_append hne (by simp)]
  rfl

theorem rankRuns_computed {l m : Token} {index : Expr} (hu : RankRuns .chain u e) (hne : u ≠ [])
    (hl : l.terminal = .openBracket) (hv : RankRuns .whole v index) (hm : m.terminal = .closeBracket) :
    RankRuns .chain (u ++ l :: (v ++ [m])) (.computed (.ofTokens (u ++ l :: (v ++ [m]))) e index) := by
  intro done stack hstack
  obtain ⟨c₁, hfeed₁, hread₁⟩ := hu done stack hstack
  have hopen : c₁.step l = some ⟨done, .index ⟨.ofTokens u, e⟩ :: stack, .operand⟩ := by
    apply hread₁.step_chain (by simp [hl]) (by simp [hl]) (by simp [hl])
    intro s hs
    simp [exprStep, hl, hs]
  obtain ⟨c₂, hfeed₂, hread₂⟩ := hv done (.index ⟨.ofTokens u, e⟩ :: stack) (Rank.le_refl _)
  have hclose : c₂.step m = some ⟨done, stack,
      .expr .chain (Part.close ⟨.ofTokens u, e⟩ m (.computed · · index))⟩ := by
    apply hread₂.step_close (by simp [hm])
    simp only [closeExprStep, hm, fold_open (q := .whole) (f := .index _) rfl]
  refine ⟨_, ?_, rankRead_expr (Rank.le_refl _)⟩
  rw [feed_append hfeed₁, feed_cons hopen, feed_append hfeed₂, feed_cons hclose,
    Span.ofTokens_append hne (by simp), Span.stop_ofTokens_cons (by simp),
    Span.stop_ofTokens_append (by simp)]
  rfl

theorem rankRuns_call {l m : Token} {args : List Expr} (hu : RankRuns .chain u e) (hne : u ≠ [])
    (hl : l.terminal = .openParen) (hv : ExprRuns .arguments v args) (hm : m.terminal = .closeParen) :
    RankRuns .chain (u ++ l :: (v ++ [m])) (.call (.ofTokens (u ++ l :: (v ++ [m]))) e args) := by
  intro done stack hstack
  obtain ⟨c, hfeed, hread⟩ := hu done stack hstack
  have hopen : c.step l = some ⟨done, .argument ⟨.ofTokens u, e⟩ [] :: stack, .operand⟩ := by
    apply hread.step_chain (by simp [hl]) (by simp [hl]) (by simp [hl])
    intro s hs
    simp [exprStep, hl, hs]
  refine ⟨_, ?_, rankRead_expr (Rank.le_refl _)⟩
  rw [feed_append hfeed, feed_cons hopen, hv done stack ⟨.ofTokens u, e⟩ [] m hm,
    Span.ofTokens_append hne (by simp), Span.stop_ofTokens_cons (by simp),
    Span.stop_ofTokens_append (by simp), call, List.append_nil, List.reverse_reverse]
  rfl

theorem rankRuns_simple (ht : t.simpleExpr? = some e) : RankRuns .chain [t] e := by
  intro done stack _
  have hsemi : t.terminal ≠ .semicolon := by
    intro h
    simp [Token.simpleExpr?, Token.literal?, h] at ht
  refine ⟨_, feed_cons (step_of_move hsemi ?_), rankRead_expr (Rank.le_refl _)⟩
  change operandStep stack t = some (stack, .expr .chain ⟨t.span, e⟩)
  unfold operandStep
  split
  case h_7 => rw [ht]; rfl
  all_goals
    rename_i h
    simp [Token.simpleExpr?, Token.literal?, h] at ht

theorem simpleExpr?_of_denotes {value : Literal} (h : t.Denotes value) :
    t.simpleExpr? = some (.literal t.span value) := by
  have hliteral := h.literal?
  unfold Token.simpleExpr?
  split
  · rename_i ht
    simp [Token.literal?, ht] at hliteral
  · rw [hliteral]
    rfl

theorem rankRuns_ident (ht : t.terminal = .identifier) : RankRuns .chain [t] (.ident t.span t.text) := by
  intro done stack _
  refine ⟨_, feed_cons (step_of_move (by simp [ht]) ?_), rankRead_expr (by decide : Rank.name ≤ .chain)⟩
  simp [move, operandStep, ht]
  rfl

theorem rankRuns_object {l m : Token} {properties : List Property} (hl : l.terminal = .openBrace)
    (hu : ExprRuns .properties u properties) (hm : m.terminal = .closeBrace) :
    RankRuns .chain (l :: (u ++ [m])) (.object (.ofTokens (l :: (u ++ [m]))) properties) := by
  intro done stack _
  have hopen : Config.step ⟨done, stack, .operand⟩ l = some ⟨done, stack, .property l.span.start []⟩ :=
    step_of_move (by simp [hl]) (by simp [move, operandStep, hl])
  refine ⟨_, ?_, rankRead_expr (Rank.le_refl _)⟩
  rw [feed_cons hopen, hu done stack l.span.start [] m hm, Span.ofTokens_delimited, List.append_nil,
    List.reverse_reverse]

theorem rankRuns_group {l m : Token} (hl : l.terminal = .openParen) (hu : RankRuns .whole u e)
    (hm : m.terminal = .closeParen) : RankRuns .chain (l :: (u ++ [m])) e := by
  intro done stack _
  have hopen : Config.step ⟨done, stack, .operand⟩ l =
      some ⟨done, .group l.span.start (awaitsWhole stack) :: stack, .operand⟩ :=
    step_of_move (by simp [hl]) (by simp [move, operandStep, hl])
  obtain ⟨c, hfeed, hread⟩ :=
    hu done (.group l.span.start (awaitsWhole stack) :: stack) (Rank.le_refl _)
  have hclose : c.step m = some ⟨done, stack, .expr .chain ⟨⟨l.span.start, m.span.stop⟩, e⟩⟩ := by
    apply hread.step_close (by simp [hm])
    simp only [closeExprStep, hm, fold_open (q := .whole) (f := .group _ _) rfl]
  refine ⟨_, ?_, rankRead_expr (Rank.le_refl _)⟩
  rw [feed_cons hopen, feed_append hfeed, feed_cons hclose, Span.ofTokens_delimited]
  rfl

/-- A body completes the function that waits for it. -/
theorem rankRuns_body {done : List Statement} {stack : List Frame} {start : Nat}
    {params : List Signature} {w : List Token} (hv : RankRuns .whole v e)
    (hfeed : feed ⟨done, stack, .operand⟩ w = feed ⟨done, .body start params :: stack, .operand⟩ v)
    (hspan : Span.ofTokens w = ⟨start, (Span.ofTokens v).stop⟩) :
    ∃ c, feed ⟨done, stack, .operand⟩ w = .ok c ∧
      RankRead .whole c done stack ⟨.ofTokens w, .function (.ofTokens w) params e⟩ := by
  obtain ⟨c, hfeed', stack', focus, rest, r, p, hc, hshows, hr, hfold⟩ :=
    hv done (.body start params :: stack) (Rank.le_refl _)
  refine ⟨c, hfeed.trans hfeed', stack', focus, rest, r, p, hc, hshows, hr, ?_⟩
  intro q hq
  rw [hfold q hq, fold_complete rfl hq, hspan]
  rfl

theorem rankRuns_function {l m a : Token} {params : List Signature} (hl : l.terminal = .openParen)
    (hu : ExprRuns .arrowParams u params) (hm : m.terminal = .closeParen) (ha : a.terminal = .arrow)
    (hv : RankRuns .whole v e) (hne : v ≠ []) :
    RankRuns .whole (l :: (u ++ m :: a :: v))
      (.function (.ofTokens (l :: (u ++ m :: a :: v))) params e) := by
  intro done stack hstack
  have hopen : Config.step ⟨done, stack, .operand⟩ l =
      some ⟨done, .group l.span.start true :: stack, .operand⟩ :=
    step_of_move (by simp [hl]) (by simp [move, operandStep, hl, awaitsWhole_of_le hstack])
  have harrow : Config.step ⟨done, stack, .arrow ⟨.function, l.span.start, params.reverse⟩⟩ a =
      some ⟨done, .body l.span.start params :: stack, .operand⟩ :=
    step_of_move (by simp [ha]) (by simp [move, arrowStep, ha])
  apply rankRuns_body hv
  · rw [feed_cons hopen, List.append_cons, feed_append (hu done stack l.span.start m hm),
      feed_cons harrow]
  · rw [Span.ofTokens_cons (by simp), Span.stop_ofTokens_append (by simp),
      Span.stop_ofTokens_cons (by simp), Span.stop_ofTokens_cons hne]

theorem rankRuns_bareFunction {n a : Token} (hn : n.terminal = .identifier) (ha : a.terminal = .arrow)
    (hv : RankRuns .whole v e) (hne : v ≠ []) :
    RankRuns .whole (n :: a :: v) (.function (.ofTokens (n :: a :: v)) [.bare n.name] e) := by
  intro done stack hstack
  have hname : Config.step ⟨done, stack, .operand⟩ n =
      some ⟨done, stack, .expr .name ⟨n.span, .ident n.span n.text⟩⟩ :=
    step_of_move (by simp [hn]) (by simp [move, operandStep, hn])
  have harrow : Config.step ⟨done, stack, .expr .name ⟨n.span, .ident n.span n.text⟩⟩ a =
      some ⟨done, .body n.span.start [.bare n.name] :: stack, .operand⟩ := by
    apply step_of_move (by simp [ha])
    simp [move, exprStep, ha, nameOf?, bodyStep, awaitsWhole_of_le hstack, Token.name]
  apply rankRuns_body hv
  · rw [feed_cons hname, feed_cons harrow]
  · rw [Span.ofTokens_cons (by simp), Span.stop_ofTokens_cons hne]

theorem exprRuns_params {n c : Token} {type : TypeExpr} {rest : List Signature}
    (hn : n.terminal = .identifier) (hc : c.terminal = .colon) (hu : TypeRuns .type u type)
    (hv : ExprRuns .moreParams v rest) :
    ExprRuns .arrowParams (n :: c :: (u ++ v)) (.typed n.name type :: rest) := by
  intro done stack start t ht
  have hname : Config.step ⟨done, .group start true :: stack, .operand⟩ n =
      some ⟨done, .group start true :: stack, .expr .name ⟨n.span, .ident n.span n.text⟩⟩ :=
    step_of_move (by simp [hn]) (by simp [move, operandStep, hn])
  have hcolon : Config.step
      ⟨done, .group start true :: stack, .expr .name ⟨n.span, .ident n.span n.text⟩⟩ c =
        some ⟨done, .paramType ⟨.function, start, []⟩ n.name :: stack, .type⟩ := by
    apply step_of_move (by simp [hc])
    simp [move, exprStep, hc, nameOf?, firstParamStep, Token.name]
  obtain ⟨stack', p, hfeed, hfold⟩ := hu done (.paramType ⟨.function, start, []⟩ n.name :: stack) rfl
  have hread : ParamRead ⟨done, stack', .typed false p⟩ done stack
      ⟨.function, start, [.typed n.name type]⟩ := by
    constructor
    · intro t ht
      rw [step_typed_congr hfold (by simp [ht]) (by simp [ht])]
      apply step_of_move (by simp [ht])
      simp [move, typedStep, foldType, closeTypeStep, ht, Params.add]
    · intro t ht
      rw [step_typed_congr hfold (by simp [ht]) (by simp [ht])]
      apply step_of_move (by simp [ht])
      simp [move, typedStep, foldType, closeTypeStep, ht, Params.add]
  rw [List.cons_append, List.cons_append, List.append_assoc, feed_cons hname, feed_cons hcolon,
    feed_append hfeed, hv _ done stack _ hread t ht, List.reverse_cons]

theorem exprRuns_moreParams {p : Signature} {ps : List Signature} (ht : t.terminal = .comma)
    (hu : TypeRuns .signature u p) (hv : ExprRuns .moreParams v ps) :
    ExprRuns .moreParams (t :: (u ++ v)) (p :: ps) := by
  intro c done stack params hread m hm
  obtain ⟨c', hfeed, hread'⟩ := hu.1 ⟨done, stack, .paramName params⟩ done stack params
    ⟨fun n hn => step_of_move (by simp [hn]) (by simp [move, paramNameStep, hn])⟩
  rw [List.cons_append, List.append_assoc, feed_cons (hread.comma t ht), feed_append hfeed,
    hv c' done stack _ hread' m hm, List.reverse_cons, List.append_assoc]
  rfl

theorem exprRuns_lastArgument (hu : RankRuns .whole u e) : ExprRuns .arguments u [e] := by
  intro done stack callee before m hm
  obtain ⟨c, hfeed, hread⟩ := hu done (.argument callee before :: stack) (Rank.le_refl _)
  have hclose : c.step m = some ⟨done, stack, call callee (e :: before) m⟩ := by
    apply hread.step_close (by simp [hm])
    simp only [closeExprStep, hm, fold_open (q := .whole) (f := .argument _ _) rfl]
  rw [feed_append hfeed, feed_cons hclose]
  rfl

theorem exprRuns_argument {es : List Expr} (hu : RankRuns .whole u e) (ht : t.terminal = .comma)
    (hv : ExprRuns .arguments v es) : ExprRuns .arguments (u ++ t :: v) (e :: es) := by
  intro done stack callee before m hm
  obtain ⟨c, hfeed, hread⟩ := hu done (.argument callee before :: stack) (Rank.le_refl _)
  have hcomma : c.step t = some ⟨done, .argument callee (e :: before) :: stack, .operand⟩ := by
    apply hread.step_close (by simp [ht])
    simp only [closeExprStep, ht, fold_open (q := .whole) (f := .argument _ _) rfl]
  rw [List.append_assoc, feed_append hfeed, List.cons_append, feed_cons hcomma,
    hv done stack callee (e :: before) m hm, List.reverse_cons, List.append_assoc]
  rfl

theorem exprRuns_lastProperty {p : Property} (hu : ExprRuns .property u p) :
    ExprRuns .properties u [p] := by
  intro done stack start before m hm
  obtain ⟨c, hfeed, hread⟩ := hu done stack start before
  rw [feed_append hfeed, feed_cons (hread.close m hm)]
  rfl

theorem exprRuns_property {p : Property} {ps : List Property} (hu : ExprRuns .property u p)
    (ht : t.terminal = .comma) (hv : ExprRuns .properties v ps) :
    ExprRuns .properties (u ++ t :: v) (p :: ps) := by
  intro done stack start before m hm
  obtain ⟨c, hfeed, hread⟩ := hu done stack start before
  rw [List.append_assoc, feed_append hfeed, List.cons_append, feed_cons (hread.comma t ht),
    hv done stack start (p :: before) m hm, List.reverse_cons, List.append_assoc]
  rfl

theorem exprRuns_field {n c : Token} (hn : n.terminal = .identifier) (hc : c.terminal = .colon)
    (hu : RankRuns .whole u e) : ExprRuns .property (n :: c :: u) (.field n.name e) := by
  intro done stack start before
  have hname : Config.step ⟨done, stack, .property start before⟩ n =
      some ⟨done, stack, .propertyColon start before n.name⟩ :=
    step_of_move (by simp [hn]) (by simp [move, propertyStep, hn])
  have hcolon : Config.step ⟨done, stack, .propertyColon start before n.name⟩ c =
      some ⟨done, .field start before n.name :: stack, .operand⟩ :=
    step_of_move (by simp [hc]) (by simp [move, hc])
  obtain ⟨d, hfeed, hread⟩ := hu done (.field start before n.name :: stack) (Rank.le_refl _)
  refine ⟨d, ?_, ?_, ?_⟩
  · rw [feed_cons hname, feed_cons hcolon, hfeed]
  · intro t ht
    apply hread.step_close (by simp [ht])
    simp only [closeExprStep, ht, fold_open (q := .whole) (f := .field _ _ _) rfl]
  · intro t ht
    apply hread.step_close (by simp [ht])
    simp only [closeExprStep, ht, fold_open (q := .whole) (f := .field _ _ _) rfl]

theorem exprRuns_spread (ht : t.terminal = .ellipsis) (hu : RankRuns .whole u e) :
    ExprRuns .property (t :: u) (.spread e) := by
  intro done stack start before
  have hopen : Config.step ⟨done, stack, .property start before⟩ t =
      some ⟨done, .spread start before :: stack, .operand⟩ :=
    step_of_move (by simp [ht]) (by simp [move, propertyStep, ht])
  obtain ⟨d, hfeed, hread⟩ := hu done (.spread start before :: stack) (Rank.le_refl _)
  refine ⟨d, ?_, ?_, ?_⟩
  · rw [feed_cons hopen, hfeed]
  · intro t ht
    apply hread.step_close (by simp [ht])
    simp only [closeExprStep, ht, fold_open (q := .whole) (f := .spread _ _) rfl]
  · intro t ht
    apply hread.step_close (by simp [ht])
    simp only [closeExprStep, ht, fold_open (q := .whole) (f := .spread _ _) rfl]

end

theorem exprRuns {s : ExprSymbol} {w : List Token} {e : s.Tree} (h : DerivesExpr s w e) :
    ExprRuns s w e := by
  induction h with
  | arrow _ ih => exact ih
  | disjunction _ ih => exact ih.mono (by decide)
  | conjunction _ ih => exact ih.mono (by decide)
  | equality _ ih => exact ih.mono (by decide)
  | relational _ ih => exact ih.mono (by decide)
  | additive _ ih => exact ih.mono (by decide)
  | unary _ ih => exact ih.mono (by decide)
  | chain _ ih => exact ih.mono (by decide)
  | primary _ ih => exact ih
  | function hl _ hr ha hv ihu ihv =>
      exact rankRuns_function hl ihu hr ha ihv (hv.ne_nil rfl)
  | bareFunction hn ha hv ih =>
      exact rankRuns_bareFunction hn ha ih (hv.ne_nil rfl)
  | noParams =>
      exact fun done stack start t ht => feed_cons
        (step_of_move (by simp [ht]) (by simp [move, operandStep, ht]))
  | params hn hc hu _ ihv => exact exprRuns_params hn hc (typeRuns hu) ihv
  | noMoreParams => exact fun c done stack params hread t ht => feed_cons (hread.close t ht)
  | moreParams ht hu _ ihv => exact exprRuns_moreParams ht (typeRuns hu) ihv
  | or hu ht hv ihu ihv =>
      exact rankRuns_operator isOperator_or ihu ht ihv (hu.ne_nil rfl) (hv.ne_nil rfl)
  | and hu ht hv ihu ihv =>
      exact rankRuns_operator isOperator_and ihu ht ihv (hu.ne_nil rfl) (hv.ne_nil rfl)
  | equal hu ht hv ihu ihv =>
      exact rankRuns_operator isOperator_equal ihu ht ihv (hu.ne_nil rfl) (hv.ne_nil rfl)
  | notEqual hu ht hv ihu ihv =>
      exact rankRuns_operator isOperator_notEqual ihu ht ihv (hu.ne_nil rfl) (hv.ne_nil rfl)
  | add hu ht hv ihu ihv =>
      exact rankRuns_operator isOperator_add ihu ht ihv (hu.ne_nil rfl) (hv.ne_nil rfl)
  | ascription hu ht hv ihu =>
      exact rankRuns_ascription ihu ht (typeRuns hv) (hu.ne_nil rfl)
        (hv.ne_nil rfl)
  | not ht hv ih =>
      exact rankRuns_unary (fun _ => by simp [move, operandStep, ht]) (by simp [ht]) ih
        (hv.ne_nil rfl)
  | typeof ht hv ih =>
      exact rankRuns_unary (fun _ => by simp [move, operandStep, ht]) (by simp [ht]) ih
        (hv.ne_nil rfl)
  | member hu hd hn ih => exact rankRuns_member ih (hu.ne_nil rfl) hd hn
  | computed hu hl _ hr ihu ihv =>
      exact rankRuns_computed ihu (hu.ne_nil rfl) hl ihv hr
  | call hu hl _ hr ihu ihv => exact rankRuns_call ihu (hu.ne_nil rfl) hl ihv hr
  | ident ht => exact rankRuns_ident ht
  | null ht => exact rankRuns_simple (by simp [Token.simpleExpr?, ht])
  | literal h => exact rankRuns_simple (simpleExpr?_of_denotes h)
  | object hl _ hr ih => exact rankRuns_object hl ih hr
  | group hl _ hr ih => exact rankRuns_group hl ih hr
  | noArguments =>
      exact fun done stack callee before t ht => feed_cons
        (step_of_move (by simp [ht]) (by simp [move, operandStep, ht]))
  | lastArgument _ ih => exact exprRuns_lastArgument ih
  | argument _ ht _ ihu ihv => exact exprRuns_argument ihu ht ihv
  | noProperties =>
      exact fun done stack start before t ht => feed_cons
        (step_of_move (by simp [ht]) (by simp [move, propertyStep, ht]))
  | lastProperty _ ih => exact exprRuns_lastProperty ih
  | property _ ht _ ihu ihv => exact exprRuns_property ihu ht ihv
  | field hn hc _ ih => exact exprRuns_field hn hc ih
  | spread ht _ ih => exact exprRuns_spread ht ih

end Parser

end Structura
