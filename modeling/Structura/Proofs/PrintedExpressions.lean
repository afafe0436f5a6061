import Structura.Proofs.ClosedArrows
import Structura.Proofs.PrintedAnnotations
import Structura.Proofs.ReboundOperators

namespace Structura

open Lexer Grammar Token SourceNode

theorem Parser.Rank.Derives.whole {r : Parser.Rank} {w : List Token} {e : Expr} (h : r.Derives w e) :
    DerivesExpr .expr w e :=
  h.mono (Parser.Rank.le_whole r)

namespace Expr

/-- Tokens of unary operators and of a chain behind them, which make the expression without places. -/
inductive Chained : List Token → Expr → Prop
  | chain {w : List Token} {c e : Expr} : DerivesExpr .chain w c → c.unplaced = e → e.isUnary = false →
      Chained w e
  | unary {t : Token} {w : List Token} {op : UnaryOp} {e : Expr} : t.terminal = op.terminal → Chained w e →
      Chained (t :: w) (.unary default op e)

namespace Chained

variable {w v : List Token} {e : Expr}

theorem derives (h : Chained w e) : ∃ e', DerivesExpr .unary w e' ∧ e'.unplaced = e := by
  induction h with
  | chain hc heq _ => exact ⟨_, .chain hc, heq⟩
  | @unary t _ op _ ht _ ih =>
      obtain ⟨e', he', rfl⟩ := ih
      cases op with
      | not => exact ⟨_, .not ht he', rfl⟩
      | typeof => exact ⟨_, .typeof ht he', rfl⟩

theorem derives_expr (h : Chained w e) : ∃ e', DerivesExpr .expr w e' ∧ e'.unplaced = e := by
  obtain ⟨e', he', heq⟩ := h.derives
  exact ⟨e', Parser.Rank.Derives.whole (r := .unary) he', heq⟩

/-- A part behind the tokens belongs to the chain. -/
theorem extend (h : Chained w e) {part : Expr → Expr} (hunary : ∀ e, (part e).isUnary = false)
    (hpart : ∀ {u : List Token} {c : Expr}, DerivesExpr .chain u c →
      ∃ c', DerivesExpr .chain (u ++ v) c' ∧ c'.unplaced = part c.unplaced) :
    Chained (w ++ v) (e.extend part) := by
  induction h with
  | chain hc heq hnot =>
      -- Behind the last operator, the part is where it was built.
      subst heq
      obtain ⟨c', hc', heq'⟩ := hpart hc
      rw [extend_of_not_isUnary hnot]
      exact .chain hc' heq' (hunary _)
  | unary ht _ ih => exact .unary ht ih

end Chained

structure ReadBy (e : Expr) (w : List Token) : Prop where
  closed : ArrowsClosed w
  chained : (SourceNode.expr e).Throughout IsAnnotated → Chained w e.rebound

structure Prints (e : Expr) : Prop where
  opens : ∀ rest, Stops .sign (e.render.toList ++ rest)
  reads : ReadAs e.render.toList e.ReadBy

theorem ReadBy.of_primary {e : Expr} {w : List Token} (hclosed : ArrowsClosed w) (hunary : e.rebound.isUnary = false)
    (h : (SourceNode.expr e).Throughout IsAnnotated → ∃ c, DerivesExpr .primary w c ∧ c.unplaced = e.rebound) :
    e.ReadBy w := by
  refine ⟨hclosed, fun hannotated => ?_⟩
  obtain ⟨c, hc, heq⟩ := h hannotated
  exact .chain (.primary hc) heq hunary

variable {span : Span}

theorem prints_ident {name : String} (h : IsName name) : (ident span name).Prints := by
  refine ⟨h.1.stops_sign (by decide), (ReadAs.token h.1 fun _ => h).imp ?_⟩
  rintro w ⟨t, ht, htext, rfl⟩
  refine .of_primary (.one ht (by decide)) rfl fun _ => ⟨_, .ident ht, ?_⟩
  rw [unplaced, rebound, htext]

theorem prints_null : (null span).Prints := by
  have hword : Terminal.nullWord.spelling? = some "null" := rfl
  refine ⟨(Pattern.spelled hword).stops_sign (by decide), (ReadAs.spelled hword).imp ?_⟩
  rintro w ⟨t, ht, rfl⟩
  exact .of_primary (.one ht (by decide)) rfl fun _ => ⟨_, .null ht, rfl⟩

theorem prints_literal {token : Token} {v : Literal} (h : token.Denotes v) (hplain : v.Plain) :
    (literal span v).Prints := by
  refine ⟨Literal.stops_sign_source h hplain, (Literal.readAs_source h hplain).imp ?_⟩
  rintro w ⟨t, ht, rfl⟩
  exact .of_primary ht.arrowsClosed rfl fun _ => ⟨_, .literal ht, rfl⟩

/-- The text of an expression that has parentheses around it. -/
theorem prints_grouped {e : Expr} {text : String} {good : List Token → Prop}
    (htext : e.render = "(" ++ text ++ ")") (hreads : ReadAs text.toList good)
    (hunary : e.rebound.isUnary = false) (hclosed : ∀ u, good u → ArrowsClosed u)
    (hgood : (SourceNode.expr e).Throughout IsAnnotated → ∀ u, good u →
      ∃ c, DerivesExpr .expr u c ∧ c.unplaced = e.rebound) : e.Prints := by
  refine ⟨fun rest => ?_, ?_⟩
  · have hcons : e.render.toList ++ rest = '(' :: (text.toList ++ ')' :: rest) := by simp [htext]
    rw [hcons]
    exact .other rfl
  · rw [htext]
    refine hreads.grouped.imp ?_
    rintro w ⟨l, u, r, rfl, hl, hu, hr⟩
    have hgroup : ArrowsClosed (l :: (u ++ [r])) :=
      .cons hl (by decide) ((hclosed u hu).append (.one hr (by decide)))
    refine .of_primary hgroup hunary fun hannotated => ?_
    obtain ⟨c, hc, heq⟩ := hgood hannotated u hu
    exact ⟨c, .group hl hc hr, heq⟩

theorem prints_ascription {subject : Expr} {type : TypeExpr} (h : subject.Prints) (htype : type.Prints) :
    (ascription span subject type).Prints := by
  have htext : (ascription span subject type).render = "(" ++ (subject.render ++ " as " ++ type.render) ++ ")" := by
    simp [render, ← String.toList_inj]
  have hreads := h.reads.glued glues_as htype
  refine prints_grouped htext hreads rfl ?_ ?_
  · rintro w ⟨u, s, v, rfl, hu, hs, t, ht, -⟩
    exact hu.closed.append (.cons hs (by decide) ht.arrowsClosed)
  · rintro hannotated w ⟨u, s, v, rfl, hu, hs, t, ht, heq⟩
    have hsubject := (throughout_iff.mp hannotated).2 (.expr subject) (by simp [children])
    obtain ⟨c, hc, hsame⟩ := (hu.chained hsubject).derives
    have hrelational := DerivesExpr.ascription (.additive (.unary hc)) hs (.union (.inter (.primary ht)))
    refine ⟨_, Parser.Rank.Derives.whole (r := .relational) hrelational, ?_⟩
    rw [unplaced, rebound, hsame, heq]

/-- An operator between two operands that are no binary expressions themselves. -/
theorem derives_binary {op : BinaryOp} {s : Token} {u v : List Token} {left right : Expr}
    (hs : s.terminal = op.terminal) (hu : DerivesExpr .unary u left) (hv : DerivesExpr .unary v right) :
    DerivesExpr .expr (u ++ s :: v) (.binary (.ofTokens (u ++ s :: v)) op left right) := by
  cases op with
  | equal =>
      have h := DerivesExpr.equal (.relational (.additive (.unary hu))) hs (.additive (.unary hv))
      exact Parser.Rank.Derives.whole (r := .equality) h
  | notEqual =>
      have h := DerivesExpr.notEqual (.relational (.additive (.unary hu))) hs (.additive (.unary hv))
      exact Parser.Rank.Derives.whole (r := .equality) h
  | add =>
      have h := DerivesExpr.add (.unary hu) hs hv
      exact Parser.Rank.Derives.whole (r := .additive) h

theorem derives_logical {op : LogicalOp} {s : Token} {u v : List Token} {left right : Expr}
    (hs : s.terminal = op.terminal) (hu : DerivesExpr .unary u left) (hv : DerivesExpr .unary v right) :
    DerivesExpr .expr (u ++ s :: v) (.logical (.ofTokens (u ++ s :: v)) op left right) := by
  have hu := DerivesExpr.relational (.additive (.unary hu))
  have hv := DerivesExpr.relational (.additive (.unary hv))
  cases op with
  | and => exact .disjunction (.conjunction (.and (.equality hu) hs hv))
  | or => exact .disjunction (.or (.conjunction (.equality hu)) hs (.equality hv))

/-- The text of two operands with an operator between them. -/
theorem prints_infix {e left right : Expr} {k : Terminal} {word : String} (hword : k.spelling? = some word)
    (htext : e.render = "(" ++ (left.render ++ (" " ++ word ++ " ") ++ right.render) ++ ")") (hk : k ≠ .arrow)
    (hchildren : (SourceNode.expr e).children = [.expr left, .expr right]) (hunary : e.rebound.isUnary = false)
    (hleft : left.Prints) (hright : right.Prints)
    (h : ∀ {s : Token} {u v : List Token} {l r : Expr}, s.terminal = k → DerivesExpr .unary u l →
      l.unplaced = left.rebound → DerivesExpr .unary v r → r.unplaced = right.rebound →
        ∃ c, DerivesExpr .expr (u ++ s :: v) c ∧ c.unplaced = e.rebound) : e.Prints := by
  have hglue : Glues (" " ++ word ++ " ") k := glues_between hword (by simp)
  have hreads := hleft.reads.glued hglue hright.reads
  refine prints_grouped htext hreads hunary ?_ ?_
  · rintro w ⟨u, s, v, rfl, hu, hs, hv⟩
    exact hu.closed.append (.cons hs hk hv.closed)
  · rintro hannotated w ⟨u, s, v, rfl, hu, hs, hv⟩
    have hparts := (throughout_iff.mp hannotated).2
    rw [hchildren] at hparts
    obtain ⟨l, hl, hsame⟩ := (hu.chained (hparts _ List.mem_cons_self)).derives
    obtain ⟨r, hr, hsame'⟩ := (hv.chained (hparts _ (by simp))).derives
    exact h hs hl hsame hr hsame'

theorem prints_binary {op : BinaryOp} {left right : Expr} (hleft : left.Prints) (hright : right.Prints) :
    (binary span op left right).Prints := by
  have hword : op.terminal.spelling? = some op.render := by cases op <;> rfl
  have hk : op.terminal ≠ .arrow := by cases op <;> decide
  refine prints_infix hword ?_ hk rfl rfl hleft hright ?_
  · simp [render, ← String.toList_inj]
  · intro s u v l r hs hl hsame hr hsame'
    refine ⟨_, derives_binary hs hl hr, ?_⟩
    rw [unplaced, rebound, hsame, hsame']

theorem prints_logical {op : LogicalOp} {left right : Expr} (hleft : left.Prints) (hright : right.Prints) :
    (logical span op left right).Prints := by
  have hword : op.terminal.spelling? = some op.render := by cases op <;> rfl
  have hk : op.terminal ≠ .arrow := by cases op <;> decide
  refine prints_infix hword ?_ hk rfl rfl hleft hright ?_
  · simp [render, ← String.toList_inj]
  · intro s u v l r hs hl hsame hr hsame'
    refine ⟨_, derives_logical hs hl hr, ?_⟩
    rw [unplaced, rebound, hsame, hsame']

/-- The first parameters are both without a type or neither. -/
theorem ne_bare_of_forall₂ {ps params : List Signature}
    (hall : List.Forall₂ (fun p q => p.unplaced = q.unplaced) ps params)
    (h : ∀ n rest, params ≠ .bare n :: rest) (n : Name) (rest : List Signature) : ps ≠ .bare n :: rest := by
  rintro rfl
  cases hall with
  | @cons _ q _ _ hq _ =>
      cases q with
      | bare => exact h _ _ rfl
      | typed => cases hq

theorem prints_function {params : List Signature} {body : Expr} (h : ∀ p ∈ params, p.Prints) (hbody : body.Prints) :
    (function span params body).Prints := by
  have htext : (function span params body).render =
      "(" ++ ("(" ++ ", ".intercalate (params.map Signature.render) ++ ") => " ++ body.render) ++ ")" := by
    simp [render, Signature.renderAll_eq_map, ← String.toList_inj]
  refine prints_grouped htext (ReadAs.function h hbody.reads) rfl ?_ ?_
  · rintro w ⟨l, u, r, a, v, rfl, hl, hu, hr, ha, hv⟩
    obtain ⟨ps, hps, -⟩ := hu.choose
    exact .cons hl (by decide) ((params_of_series hps).arrowsClosed.append (.behind hr hv.closed))
  · rintro hannotated w ⟨l, u, r, a, v, rfl, hl, hu, hr, ha, hv⟩
    obtain ⟨hroot, hparts⟩ := throughout_iff.mp hannotated
    obtain ⟨ps, hps, hall⟩ := hu.choose
    obtain ⟨c, hc, hsame⟩ := (hv.chained (hparts (.expr body) (by simp [children]))).derives_expr
    have hfirst : ∀ n rest, params ≠ .bare n :: rest := by
      rintro n rest rfl
      exact hroot
    have hparams := arrowParams_of_series hps (ne_bare_of_forall₂ hall hfirst)
    refine ⟨_, .arrow (.function hl hparams hr ha hc), ?_⟩
    rw [unplaced, rebound, hsame, Signature.unplacedAll_eq_map, Signature.unplacedAll_eq_map,
      map_eq_map_of_forall₂ hall]

theorem prints_unary {op : UnaryOp} {operand : Expr} (h : operand.Prints) : (unary span op operand).Prints := by
  have hread {w : List Token} (hw : ∃ t v, w = t :: v ∧ t.terminal = op.terminal ∧ operand.ReadBy v) :
      (unary span op operand).ReadBy w := by
    obtain ⟨t, v, rfl, ht, hv⟩ := hw
    have hk : op.terminal ≠ .arrow := by cases op <;> decide
    refine ⟨.cons ht hk hv.closed, fun hannotated => .unary ht (hv.chained ?_)⟩
    exact (throughout_iff.mp hannotated).2 (.expr operand) (by simp [children])
  cases op with
  | not =>
      have htext : (unary span .not operand).render.toList = "!".toList ++ operand.render.toList := by
        simp [render, UnaryOp.render]
      have hword : Terminal.not.spelling? = some "!" := rfl
      refine ⟨fun rest => htext ▸ .other rfl, ?_⟩
      rw [htext]
      refine (h.reads.prefixed hword fun rest => ?_).imp fun w => hread
      exact longest_sign_of_stops (by decide) hword (h.opens rest)
  | typeof =>
      have htext : (unary span .typeof operand).render.toList = "typeof".toList ++ ' ' :: operand.render.toList := by
        simp [render, UnaryOp.render]
      have hword : Terminal.typeofWord.spelling? = some "typeof" := rfl
      refine ⟨fun rest => htext ▸ .other rfl, ?_⟩
      rw [htext]
      refine ((ReadAs.spelled hword).spaced h.reads).imp ?_
      rintro w ⟨_, v, rfl, ⟨t, ht, rfl⟩, hv⟩
      exact hread ⟨t, v, rfl, ht, hv⟩

/-- The text of a part of a chain behind the text of what it belongs to. -/
theorem prints_part {e object : Expr} {text : List Char} {good : List Token → Prop} {part : Expr → Expr}
    (htext : e.render.toList = object.render.toList ++ text) (hobject : object.Prints) (hreads : ReadAs text good)
    (hsep : ∀ rest, Separated (text ++ rest)) (hrebound : e.rebound = object.rebound.extend part)
    (hchild : .expr object ∈ (SourceNode.expr e).children) (hunary : ∀ e, (part e).isUnary = false)
    (hclosed : ∀ v, good v → ArrowsClosed v)
    (hpart : (SourceNode.expr e).Throughout IsAnnotated → ∀ v, good v → ∀ {u : List Token} {c : Expr},
      DerivesExpr .chain u c → ∃ c', DerivesExpr .chain (u ++ v) c' ∧ c'.unplaced = part c.unplaced) :
    e.Prints := by
  refine ⟨fun rest => ?_, ?_⟩
  · rw [htext, List.append_assoc]
    exact hobject.opens _
  · rw [htext]
    refine (hobject.reads.append hreads hsep).imp ?_
    rintro w ⟨u, v, rfl, hu, hv⟩
    refine ⟨hu.closed.append (hclosed v hv), fun hannotated => ?_⟩
    rw [hrebound]
    have hchained := hu.chained ((throughout_iff.mp hannotated).2 _ hchild)
    exact hchained.extend hunary (hpart hannotated v hv)

theorem prints_member {object : Expr} {name : Name} (h : object.Prints) (hname : IsName name.text) :
    (member span object name).Prints := by
  have hword : Terminal.dot.spelling? = some "." := rfl
  have hreads := (ReadAs.token hname.1 fun _ => hname).prefixed hword fun rest =>
    longest_sign_of_stops (by decide) hword (hname.1.stops_sign (by decide) rest)
  have htext : (member span object name).render.toList = object.render.toList ++ (".".toList ++ name.text.toList) := by
    simp [render]
  refine prints_part htext h hreads (fun rest => ?_) rfl (by simp [children]) (fun _ => rfl) ?_ ?_
  · exact hname.separated_point rest
  · rintro w ⟨d, _, rfl, hd, n, hn, -, rfl⟩
    exact .cons hd (by decide) (.one hn (by decide))
  · rintro - w ⟨d, _, rfl, hd, n, hn, hntext, rfl⟩ u c hc
    refine ⟨_, .member hc hd hn, ?_⟩
    rw [unplaced, Name.unplaced, Name.unplaced, Token.name, hntext]

theorem prints_computed {object index : Expr} (h : object.Prints) (hindex : index.Prints) :
    (computed span object index).Prints := by
  have hclose := hindex.reads.closed (t := .closeBracket) rfl fun rest => separated_cons (by decide)
  have hreads := hclose.opened (t := .openBracket) (by decide) rfl
  have htext : (computed span object index).render.toList =
      object.render.toList ++ ("[".toList ++ (index.render.toList ++ "]".toList)) := by
    simp [render]
  refine prints_part htext h hreads (fun rest => separated_cons (by decide)) rfl (by simp [children])
    (fun _ => rfl) ?_ ?_
  · rintro w ⟨l, _, rfl, hl, v, r, rfl, hv, hr⟩
    exact .cons hl (by decide) (hv.closed.append (.one hr (by decide)))
  · rintro hannotated w ⟨l, _, rfl, hl, v, r, rfl, hv, hr⟩ u c hc
    have hpart := (throughout_iff.mp hannotated).2 (.expr index) (by simp [children])
    obtain ⟨i, hi, hsame⟩ := (hv.chained hpart).derives_expr
    refine ⟨_, .computed hc hl hi hr, ?_⟩
    rw [unplaced, hsame]

theorem renderAll_eq_map (es : List Expr) : renderAll es = es.map render := by
  induction es with
  | nil => rfl
  | cons e es ih => rw [renderAll, ih, List.map_cons]

theorem reboundAll_eq_map (es : List Expr) : reboundAll es = es.map rebound := by
  induction es with
  | nil => rfl
  | cons e es ih => rw [reboundAll, ih, List.map_cons]

theorem prints_call {callee : Expr} {args : List Expr} (h : callee.Prints) (hargs : ∀ e ∈ args, e.Prints) :
    (call span callee args).Prints := by
  have hclose := ReadAs.spelled (t := .closeParen) rfl
  have hlist := ReadAs.series glues_comma (fun e he => (hargs e he).reads) hclose fun rest => separated_cons (by decide)
  have hreads := hlist.opened (t := .openParen) (by decide) rfl
  have htext : (call span callee args).render.toList = callee.render.toList ++
      ("(".toList ++ ((", ".intercalate (args.map render)).toList ++ ")".toList)) := by
    simp [render, renderAll_eq_map]
  refine prints_part htext h hreads (fun rest => separated_cons (by decide)) rfl (by simp [children])
    (fun _ => rfl) ?_ ?_
  · rintro w ⟨l, _, rfl, hl, v, _, rfl, hv, r, hr, rfl⟩
    exact .cons hl (by decide) ((hv.arrowsClosed (by decide) fun _ _ => ReadBy.closed).append (.one hr (by decide)))
  · rintro hannotated w ⟨l, _, rfl, hl, v, _, rfl, hv, r, hr, rfl⟩ u c hc
    have hparts := (throughout_iff.mp hannotated).2
    have hchosen := hv.imp fun e he w hw => (hw.chained (hparts (.expr e) (by simp [children, he]))).derives_expr
    obtain ⟨es, hes, hall⟩ := hchosen.choose
    refine ⟨_, .call hc hl (arguments_of_series hes) hr, ?_⟩
    rw [unplaced, unplacedAll_eq_map, reboundAll_eq_map, map_eq_map_of_forall₂ hall]

end Expr

namespace Property

structure ReadBy (p : Property) (w : List Token) : Prop where
  closed : ArrowsClosed w
  derives : (∀ node ∈ p.nodes, node.Throughout IsAnnotated) →
    ∃ p', DerivesExpr .property w p' ∧ p'.unplaced = p.rebound

def Prints (p : Property) : Prop := ReadAs p.render.toList p.ReadBy

theorem prints_field {name : Name} {value : Expr} (hname : IsName name.text) (h : value.Prints) :
    (field name value).Prints := by
  rw [Prints, render]
  refine (ReadAs.labelled hname h.reads).imp ?_
  rintro w ⟨n, c, v, rfl, hn, hntext, hc, hv⟩
  refine ⟨.cons hn (by decide) (.cons hc (by decide) hv.closed), fun hannotated => ?_⟩
  obtain ⟨e, he, hsame⟩ := (hv.chained (hannotated (.expr value) (by simp [nodes]))).derives_expr
  refine ⟨_, .field hn hc he, ?_⟩
  rw [unplaced, rebound, hsame, Name.unplaced, Name.unplaced, Token.name, hntext]

theorem prints_spread {value : Expr} (h : value.Prints) : (spread value).Prints := by
  have hword : Terminal.ellipsis.spelling? = some "..." := rfl
  have htext : (spread value).render.toList = "...".toList ++ value.render.toList := by simp [render]
  rw [Prints, htext]
  refine (h.reads.prefixed hword fun rest => longest_sign_of_stops (by decide) hword (h.opens rest)).imp ?_
  rintro w ⟨t, v, rfl, ht, hv⟩
  refine ⟨.cons ht (by decide) hv.closed, fun hannotated => ?_⟩
  obtain ⟨e, he, hsame⟩ := (hv.chained (hannotated (.expr value) (by simp [nodes]))).derives_expr
  refine ⟨_, .spread ht he, ?_⟩
  rw [unplaced, rebound, hsame]

theorem renderAll_eq_map (ps : List Property) : renderAll ps = ps.map render := by
  induction ps with
  | nil => rfl
  | cons p ps ih => rw [renderAll, ih, List.map_cons]

theorem reboundAll_eq_map (ps : List Property) : reboundAll ps = ps.map rebound := by
  induction ps with
  | nil => rfl
  | cons p ps ih => rw [reboundAll, ih, List.map_cons]

end Property

namespace Expr

variable {span : Span}

theorem readBy_object {ps : List Property} {l r : Token} {u : List Token} (hl : l.terminal = .openBrace)
    (hu : Series (fun w p => Property.ReadBy p w) .comma u ps) (hr : r.terminal = .closeBrace) :
    (object span ps).ReadBy (l :: (u ++ [r])) := by
  have hclosed : ArrowsClosed u := hu.arrowsClosed (by decide) fun _ _ => Property.ReadBy.closed
  refine .of_primary (.cons hl (by decide) (hclosed.append (.one hr (by decide)))) rfl fun hannotated => ?_
  have hparts := (throughout_iff.mp hannotated).2
  have hchosen := hu.imp fun p hp w hw => hw.derives fun node hnode => hparts node (List.mem_flatMap.mpr ⟨p, hp, hnode⟩)
  obtain ⟨ps', hps, hall⟩ := hchosen.choose
  refine ⟨_, .object hl (properties_of_series hps) hr, ?_⟩
  rw [unplaced, rebound, Property.unplacedAll_eq_map, Property.reboundAll_eq_map, map_eq_map_of_forall₂ hall]

theorem prints_object {ps : List Property} (h : ∀ p ∈ ps, p.Prints) : (object span ps).Prints := by
  cases ps with
  | nil =>
      have hopen := ReadAs.spelled (t := .openBrace) rfl
      have hclose := ReadAs.spelled (t := .closeBrace) rfl
      have htext : (object span []).render.toList = "\x7b".toList ++ "\x7d".toList := by simp [render]
      refine ⟨fun rest => htext ▸ .other rfl, ?_⟩
      rw [htext]
      refine (hopen.append hclose fun rest => separated_cons (by decide)).imp ?_
      rintro w ⟨_, _, rfl, ⟨l, hl, rfl⟩, r, hr, rfl⟩
      exact readBy_object hl (.inl ⟨rfl, rfl⟩) hr
  | cons p ps =>
      have htext : (object span (p :: ps)).render =
          "\x7b " ++ ", ".intercalate ((p :: ps).map Property.render) ++ " \x7d" := by
        rw [render, Property.renderAll_eq_map, List.map_cons]
      refine ⟨fun rest => ?_, ?_⟩
      · rw [htext, String.toList_append, String.toList_append]
        exact .other rfl
      · rw [htext]
        refine (ReadAs.listed glues_comma (List.cons_ne_nil p ps) h).braced.imp ?_
        rintro w ⟨l, u, r, rfl, hl, hu, hr⟩
        exact readBy_object hl (.inr hu) hr

end Expr

namespace Grammar

def ExprSymbol.Printed : (s : ExprSymbol) → s.Tree → Prop
  | .arrowParams, ps | .moreParams, ps => ∀ p ∈ ps, p.Prints
  | .arguments, es => ∀ e ∈ es, e.Prints
  | .properties, ps => ∀ p ∈ ps, p.Prints
  | .property, p => p.Prints
  | .expr, e | .arrow, e | .disjunction, e | .conjunction, e | .equality, e | .relational, e
  | .additive, e | .unary, e | .chain, e | .primary, e => e.Prints

theorem DerivesExpr.printed {s : ExprSymbol} {w : List Token} {e : s.Tree} (h : DerivesExpr s w e)
    (hnodes : ∀ node ∈ s.nodes e, node.Writable) : s.Printed e := by
  -- Along the derivation and not along the tree: it is what says that literals are values of tokens.
  have hchildren {node : SourceNode} (h : ∀ n ∈ [node], n.Writable) := (h node List.mem_cons_self).children
  induction h with
  | arrow _ ih | disjunction _ ih | conjunction _ ih | equality _ ih | relational _ ih | additive _ ih
  | unary _ ih | chain _ ih | primary _ ih | group _ _ _ ih => exact ih hnodes
  | function _ _ _ _ _ ihu ihv =>
      obtain ⟨hparams, hbody⟩ := List.forall_mem_append.mp (hchildren hnodes)
      exact Expr.prints_function (ihu hparams) (ihv hbody)
  | bareFunction _ _ _ ih =>
      obtain ⟨hname, hbody⟩ := List.forall_mem_cons.mp (hchildren hnodes)
      exact Expr.prints_function (List.forall_mem_singleton.mpr (Signature.prints_bare hname.self.2)) (ih hbody)
  | noParams | noMoreParams | noArguments | noProperties => exact fun _ hp => absurd hp List.not_mem_nil
  | params _ _ hu _ ihv =>
      obtain ⟨hname, hothers⟩ := List.forall_mem_cons.mp hnodes
      obtain ⟨htype, hrest⟩ := List.forall_mem_cons.mp hothers
      have hprints : TypeExpr.Prints _ := hu.printed (List.forall_mem_singleton.mpr htype)
      exact List.forall_mem_cons.mpr ⟨Signature.prints_typed hname.self.2 hprints, ihv hrest⟩
  | moreParams _ hu _ ihv =>
      obtain ⟨hfirst, hrest⟩ := List.forall_mem_append.mp hnodes
      exact List.forall_mem_cons.mpr ⟨hu.printed hfirst, ihv hrest⟩
  | or _ _ _ ihu ihv | and _ _ _ ihu ihv =>
      obtain ⟨hleft, hright⟩ := List.forall_mem_cons.mp (hchildren hnodes)
      exact Expr.prints_logical (ihu (List.forall_mem_singleton.mpr hleft)) (ihv hright)
  | equal _ _ _ ihu ihv | notEqual _ _ _ ihu ihv | add _ _ _ ihu ihv =>
      obtain ⟨hleft, hright⟩ := List.forall_mem_cons.mp (hchildren hnodes)
      exact Expr.prints_binary (ihu (List.forall_mem_singleton.mpr hleft)) (ihv hright)
  | ascription _ _ hv ihu =>
      obtain ⟨hsubject, htype⟩ := List.forall_mem_cons.mp (hchildren hnodes)
      exact Expr.prints_ascription (ihu (List.forall_mem_singleton.mpr hsubject)) (hv.printed htype)
  | not _ _ ih | typeof _ _ ih => exact Expr.prints_unary (ih (hchildren hnodes))
  | member _ _ _ ih =>
      obtain ⟨hobject, hname⟩ := List.forall_mem_cons.mp (hchildren hnodes)
      exact Expr.prints_member (ih (List.forall_mem_singleton.mpr hobject)) (hname _ List.mem_cons_self).self.2
  | computed _ _ _ _ ihu ihv =>
      obtain ⟨hobject, hindex⟩ := List.forall_mem_cons.mp (hchildren hnodes)
      exact Expr.prints_computed (ihu (List.forall_mem_singleton.mpr hobject)) (ihv hindex)
  | call _ _ _ _ ihu ihv =>
      obtain ⟨hcallee, hargs⟩ := List.forall_mem_cons.mp (hchildren hnodes)
      exact Expr.prints_call (ihu (List.forall_mem_singleton.mpr hcallee)) (ihv hargs)
  | ident _ => exact Expr.prints_ident ((hchildren hnodes) _ List.mem_cons_self).self.2
  | null _ => exact Expr.prints_null
  | literal hdenotes => exact Expr.prints_literal hdenotes (hnodes _ List.mem_cons_self).self.1
  | object _ _ _ ih => exact Expr.prints_object (ih (hchildren hnodes))
  | lastArgument _ ih => exact List.forall_mem_singleton.mpr (ih hnodes)
  | argument _ _ _ ihu ihv =>
      obtain ⟨hfirst, hrest⟩ := List.forall_mem_cons.mp hnodes
      exact List.forall_mem_cons.mpr ⟨ihu (List.forall_mem_singleton.mpr hfirst), ihv hrest⟩
  | lastProperty _ ih =>
      refine List.forall_mem_singleton.mpr (ih ?_)
      rwa [ExprSymbol.nodes, List.flatMap_singleton] at hnodes
  | property _ _ _ ihu ihv =>
      obtain ⟨hfirst, hrest⟩ := List.forall_mem_append.mp hnodes
      exact List.forall_mem_cons.mpr ⟨ihu hfirst, ihv hrest⟩
  | field _ _ _ ih =>
      obtain ⟨hname, hvalue⟩ := List.forall_mem_cons.mp hnodes
      exact Property.prints_field hname.self.2 (ih hvalue)
  | spread _ _ ih => exact Property.prints_spread (ih hnodes)

end Grammar

/-- The node is read where it stands in the text. -/
def SourceNode.IsFaithful (node : SourceNode) : Prop := node.IsTight ∧ node.IsAnnotated

theorem SourceNode.isAnnotated_unplaced (node : SourceNode) : node.unplaced.IsAnnotated ↔ node.IsAnnotated := by
  cases node with
  | type | name | statement => exact Iff.rfl
  | expr e =>
      cases e with
      | function span params body =>
          rcases params with _ | ⟨⟨n⟩ | ⟨n, t⟩, params⟩
          · exact Iff.rfl
          · exact Iff.rfl
          · exact Iff.rfl
      | _ => exact Iff.rfl

namespace Expr

variable {code : String} {e e' : Expr}

theorem prints_of_parse (h : Expr.parse code = .ok e) (hplain : (SourceNode.expr e).Throughout IsPlain) :
    e.Prints := by
  obtain ⟨tokens, o, hlexes, hderives⟩ := Parser.derives_of_parse_eq_ok (s := .expr) h
  have hwritable := writable_of_derives hlexes hderives List.mem_cons_self hplain
  exact DerivesExpr.printed hderives (List.forall_mem_singleton.mpr hwritable)

theorem Prints.exists_lexes (h : e.Prints) : ∃ w o, Lexes 0 e.render.toList w o [] ∧ e.ReadBy w := by
  obtain ⟨w, o, hlexes, hread⟩ := h.reads.lexes 0 [] separated_nil
  rw [List.append_nil] at hlexes
  exact ⟨w, o, hlexes, hread⟩

/-- The text of an expression is read as what it says. -/
theorem Prints.parse_eq_rebound (h : e.Prints) (hannotated : (SourceNode.expr e).Throughout IsAnnotated) :
    ∃ e', Expr.parse e.render = .ok e' ∧ e'.unplaced = e.rebound := by
  obtain ⟨w, o, hlexes, hread⟩ := h.exists_lexes
  obtain ⟨e', he', heq⟩ := (hread.chained hannotated).derives_expr
  exact ⟨e', Parser.parse_eq_ok_of_derives (s := .expr) hlexes he', heq⟩

/-- What is read from the text of an expression has annotated functions only. -/
theorem Prints.isAnnotated_of_parse (h : e.Prints) (hparse : Expr.parse e.render = .ok e') :
    (SourceNode.expr e').Throughout IsAnnotated := by
  obtain ⟨w, o, hlexes, hread⟩ := h.exists_lexes
  obtain ⟨w', o', hlexes', hderives⟩ := Parser.derives_of_parse_eq_ok (s := .expr) hparse
  have htokens := hlexes'.ofText_eq.symm.trans hlexes.ofText_eq
  cases htokens
  exact DerivesExpr.throughout_isAnnotated hderives hread.closed

theorem Prints.parse_eq_self_iff (h : e.Prints) :
    (∃ e', Expr.parse e.render = .ok e' ∧ e'.unplaced = e.unplaced) ↔
      (SourceNode.expr e).Throughout IsFaithful := by
  constructor
  · rintro ⟨e', hparse, heq⟩
    -- Only an expression with annotated functions has tokens that what it says is derived from, so this comes
    -- before the comparison with `rebound`.
    have hsame : (SourceNode.expr e').unplaced = (SourceNode.expr e).unplaced := congrArg SourceNode.expr heq
    have hannotated : (SourceNode.expr e).Throughout IsAnnotated :=
      (h.isAnnotated_of_parse hparse).of_unplaced_eq isAnnotated_unplaced hsame
    obtain ⟨e'', hparse', hrebound⟩ := h.parse_eq_rebound hannotated
    rw [hparse] at hparse'
    cases hparse'
    have htight := e.rebound_eq_unplaced_iff.mp (hrebound.symm.trans heq)
    exact fun node hnode => ⟨htight node hnode, hannotated node hnode⟩
  · intro hfaithful
    have htight := e.rebound_eq_unplaced_iff.mpr fun node hnode => (hfaithful node hnode).1
    obtain ⟨e', hparse, hrebound⟩ := h.parse_eq_rebound fun node hnode => (hfaithful node hnode).2
    exact ⟨e', hparse, hrebound.trans htight⟩

/-- The text of an expression with annotated functions is read as what it says. An expression is read again
from its text, up to places, exactly when no chain in it starts with a unary operator and the first parameter
of every function has a type; no two such expressions have the same text. -/
theorem parse_render_iff_isFaithful (h : Expr.parse code = .ok e)
    (hplain : (SourceNode.expr e).Throughout IsPlain) :
    ((SourceNode.expr e).Throughout IsAnnotated →
      ∃ e', Expr.parse e.render = .ok e' ∧ e'.unplaced = e.rebound) ∧
    ((∃ e', Expr.parse e.render = .ok e' ∧ e'.unplaced = e.unplaced) ↔
      (SourceNode.expr e).Throughout IsFaithful) ∧
    ∀ (code' : String) (e' : Expr), Expr.parse code' = .ok e' → (SourceNode.expr e').Throughout IsPlain →
      (SourceNode.expr e).Throughout IsFaithful → (SourceNode.expr e').Throughout IsFaithful →
        e'.render = e.render → e'.unplaced = e.unplaced := by
  have hprints := prints_of_parse h hplain
  refine ⟨hprints.parse_eq_rebound, hprints.parse_eq_self_iff, ?_⟩
  intro code' e' h' hplain' hfaithful hfaithful' htext
  obtain ⟨f, hparse, heq⟩ := hprints.parse_eq_self_iff.mpr hfaithful
  obtain ⟨f', hparse', heq'⟩ := (prints_of_parse h' hplain').parse_eq_self_iff.mpr hfaithful'
  rw [htext, hparse] at hparse'
  cases hparse'
  exact heq'.symm.trans heq

def partlyAnnotated : Expr :=
  .function ⟨6, 34⟩ [.typed ⟨"x", ⟨7, 8⟩⟩ (.never ⟨10, 15⟩), .bare ⟨"y", ⟨17, 18⟩⟩]
    (.ascription ⟨23, 34⟩ (.ident ⟨23, 24⟩ "x") (.prim ⟨28, 34⟩ .string))

def negatedChain : Expr :=
  .unary ⟨0, 40⟩ .not (.computed ⟨1, 40⟩
    (.call ⟨1, 35⟩ (.ident ⟨1, 2⟩ "f") [.ident ⟨3, 4⟩ "a", partlyAnnotated]) (.literal ⟨36, 39⟩ (.string "s")))

theorem parse_render_iff_isFaithful_negatedChain :
    Expr.parse "!f(a, (x: never, y) => x as string)[\"s\"]" = .ok negatedChain ∧
      (SourceNode.expr negatedChain).Throughout IsPlain ∧ (SourceNode.expr negatedChain).Throughout IsFaithful ∧
        ∃ e, Expr.parse "!f(a, ((x: never, y) => (x as string)))[\"s\"]" = .ok e ∧
          e.unplaced = negatedChain.unplaced := by
  have hparse : Expr.parse "!f(a, (x: never, y) => x as string)[\"s\"]" = .ok negatedChain := by
    with_unfolding_all rfl
  let P : SourceNode → Prop := fun node => node.IsPlain ∧ node.IsFaithful
  have hleaf {node : SourceNode} (hchildren : node.children = []) (h : P node) : node.Throughout P :=
    throughout_iff.mpr ⟨h, by simp [hchildren]⟩
  have hname (n : Name) : (SourceNode.name n).Throughout P := hleaf rfl ⟨trivial, trivial, trivial⟩
  have hident (span : Span) (n : String) : (SourceNode.expr (.ident span n)).Throughout P :=
    throughout_iff.mpr ⟨⟨trivial, trivial, trivial⟩, List.forall_mem_singleton.mpr (hname _)⟩
  have htype {t : TypeExpr} (hchildren : (SourceNode.type t).children = []) (hplain : (SourceNode.type t).IsPlain) :
      (SourceNode.type t).Throughout P := hleaf hchildren ⟨hplain, trivial, trivial⟩
  have hstring : Literal.Plain (.string "s") := by
    intro c hc
    rw [List.mem_singleton.mp hc]
    decide
  have hfunction : (SourceNode.expr partlyAnnotated).Throughout P := by
    refine throughout_iff.mpr ⟨⟨trivial, trivial, trivial⟩, ?_⟩
    refine List.forall_mem_cons.mpr ⟨hname _, List.forall_mem_cons.mpr ⟨htype rfl trivial, ?_⟩⟩
    refine List.forall_mem_cons.mpr ⟨hname _, List.forall_mem_singleton.mpr ?_⟩
    refine throughout_iff.mpr ⟨⟨trivial, trivial, trivial⟩, List.forall_mem_cons.mpr ⟨hident _ _, ?_⟩⟩
    exact List.forall_mem_singleton.mpr (htype rfl trivial)
  have hchain : (SourceNode.expr negatedChain).Throughout P := by
    refine throughout_iff.mpr ⟨⟨trivial, trivial, trivial⟩, List.forall_mem_singleton.mpr ?_⟩
    refine throughout_iff.mpr ⟨⟨trivial, rfl, trivial⟩, List.forall_mem_cons.mpr ⟨?_, ?_⟩⟩
    · refine throughout_iff.mpr ⟨⟨trivial, rfl, trivial⟩, List.forall_mem_cons.mpr ⟨hident _ _, ?_⟩⟩
      exact List.forall_mem_cons.mpr ⟨hident _ _, List.forall_mem_singleton.mpr hfunction⟩
    · exact List.forall_mem_singleton.mpr (hleaf rfl ⟨hstring, trivial, trivial⟩)
  have hplain : (SourceNode.expr negatedChain).Throughout IsPlain := fun node hnode => (hchain node hnode).1
  have hfaithful : (SourceNode.expr negatedChain).Throughout IsFaithful := fun node hnode => (hchain node hnode).2
  exact ⟨hparse, hplain, hfaithful, (parse_render_iff_isFaithful hparse hplain).2.1.mpr hfaithful⟩

/-- Two expressions with one text, and one whose text cannot be read. -/
theorem parse_render_not_faithful :
    (∃ e e', Expr.parse "(!a).b" = .ok e ∧ Expr.parse "!a.b" = .ok e' ∧ e.render = e'.render ∧
      e.unplaced ≠ e'.unplaced) ∧
    ∃ e, Expr.parse "x => x" = .ok e ∧ ∀ e', Expr.parse e.render ≠ .ok e' := by
  have haccess : Expr.parse "(!a).b" =
      .ok (.member ⟨0, 6⟩ (.unary ⟨1, 3⟩ .not (.ident ⟨2, 3⟩ "a")) ⟨"b", ⟨5, 6⟩⟩) := by with_unfolding_all rfl
  have hnegation : Expr.parse "!a.b" =
      .ok (.unary ⟨0, 4⟩ .not (.member ⟨1, 4⟩ (.ident ⟨1, 2⟩ "a") ⟨"b", ⟨3, 4⟩⟩)) := by with_unfolding_all rfl
  have hidentity : Expr.parse "x => x" =
      .ok (.function ⟨0, 6⟩ [.bare ⟨"x", ⟨0, 1⟩⟩] (.ident ⟨5, 6⟩ "x")) := by with_unfolding_all rfl
  have hfails : (Expr.parse "((x) => x)").isOk = false := by with_unfolding_all rfl
  refine ⟨⟨_, _, haccess, hnegation, ?_, ?_⟩, _, hidentity, fun e' h => ?_⟩
  · simp [render, UnaryOp.render]
  · simp [unplaced]
  · have hread : Expr.parse "((x) => x)" = .ok e' := h
    rw [hread] at hfails
    cases hfails

end Expr

end Structura
