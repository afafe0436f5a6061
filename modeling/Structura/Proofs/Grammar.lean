import Structura.Number.Text
import Structura.Parser
import Structura.Proofs.Lexemes

namespace Structura

namespace Span

def ofTokens (w : List Token) : Span :=
  ⟨(w.head?.map (·.span.start)).getD 0, Parser.endOffset w⟩

variable {t : Token} {u v : List Token}

theorem ofTokens_singleton : ofTokens [t] = t.span := rfl

theorem stop_ofTokens_append (hv : v ≠ []) : (ofTokens (u ++ v)).stop = (ofTokens v).stop := by
  change Parser.endOffset (u ++ v) = Parser.endOffset v
  rw [Parser.endOffset, List.getLast?_append, List.getLast?_eq_some_getLast hv, Option.some_or,
    Parser.endOffset, List.getLast?_eq_some_getLast hv]

theorem start_ofTokens_append (hu : u ≠ []) : (ofTokens (u ++ v)).start = (ofTokens u).start := by
  obtain ⟨t, u, rfl⟩ := List.exists_cons_of_ne_nil hu
  rfl

theorem ofTokens_append (hu : u ≠ []) (hv : v ≠ []) :
    ofTokens (u ++ v) = ⟨(ofTokens u).start, (ofTokens v).stop⟩ := by
  rw [← start_ofTokens_append hu, ← stop_ofTokens_append hv]

theorem stop_ofTokens_cons (hv : v ≠ []) : (ofTokens (t :: v)).stop = (ofTokens v).stop :=
  stop_ofTokens_append (u := [t]) hv

theorem ofTokens_cons (hv : v ≠ []) : ofTokens (t :: v) = ⟨t.span.start, (ofTokens v).stop⟩ :=
  ofTokens_append (u := [t]) (List.cons_ne_nil t []) hv

theorem ofTokens_delimited {l r : Token} : ofTokens (l :: (u ++ [r])) = ⟨l.span.start, r.span.stop⟩ := by
  rw [ofTokens_cons (by simp), stop_ofTokens_append (List.cons_ne_nil r []), ofTokens_singleton]

end Span

namespace Token

def Spelled (t : Token) : Prop := Lexer.Pattern (some t.terminal) t.text.toList

inductive Denotes (t : Token) : Literal → Prop
  | trueWord : t.terminal = .trueWord → Denotes t (.boolean true)
  | falseWord : t.terminal = .falseWord → Denotes t (.boolean false)
  | number {n : Binary64} : t.terminal = .number → Lexer.IsNumber t.text.toList →
      Binary64.ofText? t.text = some n → Denotes t (.number n)
  | doubleQuoted {s : String} : t.terminal = .doubleQuoted → t.text = "\"" ++ s ++ "\"" →
      Denotes t (.string s)
  | singleQuoted {s : String} : t.terminal = .singleQuoted → t.text = "'" ++ s ++ "'" →
      Denotes t (.string s)

end Token

namespace Grammar

inductive TypeSymbol where
  | type
  | functionType
  | unionType
  | alternatives
  | interType
  | requirements
  | primaryType
  | params
  | members
  | signature

abbrev TypeSymbol.Tree : TypeSymbol → Type
  | .type | .functionType | .unionType | .interType | .primaryType => TypeExpr
  | .alternatives | .requirements => List TypeExpr
  | .params | .members => List Signature
  | .signature => Signature

inductive DerivesType : (s : TypeSymbol) → List Token → s.Tree → Prop
  | function {w : List Token} {e : TypeExpr} : DerivesType .functionType w e → DerivesType .type w e
  | union {w : List Token} {e : TypeExpr} : DerivesType .unionType w e → DerivesType .type w e
  | arrow {l r a : Token} {u v : List Token} {params : List Signature} {result : TypeExpr} :
      l.terminal = .openParen → DerivesType .params u params → r.terminal = .closeParen →
      a.terminal = .arrow → DerivesType .type v result →
      DerivesType .functionType (l :: (u ++ r :: a :: v))
        (.function (.ofTokens (l :: (u ++ r :: a :: v))) params result)
  | alternatives {u v : List Token} {first : TypeExpr} {rest : List TypeExpr} :
      DerivesType .interType u first → DerivesType .alternatives v rest →
      DerivesType .unionType (u ++ v) (.union (.ofTokens (u ++ v)) (first :: rest))
  | inter {w : List Token} {e : TypeExpr} : DerivesType .interType w e → DerivesType .unionType w e
  | lastAlternative {t : Token} {u : List Token} {e : TypeExpr} :
      t.terminal = .bar → DerivesType .interType u e → DerivesType .alternatives (t :: u) [e]
  | alternative {t : Token} {u v : List Token} {e : TypeExpr} {es : List TypeExpr} :
      t.terminal = .bar → DerivesType .interType u e → DerivesType .alternatives v es →
      DerivesType .alternatives (t :: (u ++ v)) (e :: es)
  | requirements {u v : List Token} {first : TypeExpr} {rest : List TypeExpr} :
      DerivesType .primaryType u first → DerivesType .requirements v rest →
      DerivesType .interType (u ++ v) (.inter (.ofTokens (u ++ v)) (first :: rest))
  | primary {w : List Token} {e : TypeExpr} :
      DerivesType .primaryType w e → DerivesType .interType w e
  | lastRequirement {t : Token} {u : List Token} {e : TypeExpr} :
      t.terminal = .amp → DerivesType .primaryType u e → DerivesType .requirements (t :: u) [e]
  | requirement {t : Token} {u v : List Token} {e : TypeExpr} {es : List TypeExpr} :
      t.terminal = .amp → DerivesType .primaryType u e → DerivesType .requirements v es →
      DerivesType .requirements (t :: (u ++ v)) (e :: es)
  | null {t : Token} : t.terminal = .nullWord → DerivesType .primaryType [t] (.prim t.span .null)
  | boolean {t : Token} :
      t.terminal = .booleanWord → DerivesType .primaryType [t] (.prim t.span .boolean)
  | number {t : Token} : t.terminal = .numberWord → DerivesType .primaryType [t] (.prim t.span .number)
  | string {t : Token} : t.terminal = .stringWord → DerivesType .primaryType [t] (.prim t.span .string)
  | unknown {t : Token} : t.terminal = .unknownWord → DerivesType .primaryType [t] (.unknown t.span)
  | never {t : Token} : t.terminal = .neverWord → DerivesType .primaryType [t] (.never t.span)
  | literal {t : Token} {value : Literal} :
      t.Denotes value → DerivesType .primaryType [t] (.literal t.span value)
  | object {l r : Token} {u : List Token} {members : List Signature} :
      l.terminal = .openBrace → DerivesType .members u members → r.terminal = .closeBrace →
      DerivesType .primaryType (l :: (u ++ [r])) (.object (.ofTokens (l :: (u ++ [r]))) members)
  | group {l r : Token} {u : List Token} {e : TypeExpr} :
      l.terminal = .openParen → DerivesType .type u e → r.terminal = .closeParen →
      DerivesType .primaryType (l :: (u ++ [r])) e
  | noParams : DerivesType .params [] []
  | lastParam {u : List Token} {p : Signature} : DerivesType .signature u p → DerivesType .params u [p]
  | param {t : Token} {u v : List Token} {p : Signature} {ps : List Signature} :
      DerivesType .signature u p → t.terminal = .comma → DerivesType .params v ps →
      DerivesType .params (u ++ t :: v) (p :: ps)
  | noMembers : DerivesType .members [] []
  | lastMember {u : List Token} {m : Signature} :
      DerivesType .signature u m → DerivesType .members u [m]
  | member {t : Token} {u v : List Token} {m : Signature} {ms : List Signature} :
      DerivesType .signature u m → t.terminal = .semicolon ∨ t.terminal = .comma →
      DerivesType .members v ms → DerivesType .members (u ++ t :: v) (m :: ms)
  | bare {n : Token} : n.terminal = .identifier → DerivesType .signature [n] (.bare n.name)
  | typed {n c : Token} {u : List Token} {e : TypeExpr} :
      n.terminal = .identifier → c.terminal = .colon → DerivesType .type u e →
      DerivesType .signature (n :: c :: u) (.typed n.name e)

/-- The symbols of expressions, from any expression to the most tightly built ones, and of their
parts. -/
inductive ExprSymbol where
  | expr
  | arrow
  | arrowParams
  | moreParams
  | disjunction
  | conjunction
  | equality
  | relational
  | additive
  | unary
  | chain
  | primary
  | arguments
  | properties
  | property

abbrev ExprSymbol.Tree : ExprSymbol → Type
  | .arrowParams | .moreParams => List Signature
  | .arguments => List Expr
  | .properties => List Property
  | .property => Property
  | _ => Expr

inductive DerivesExpr : (s : ExprSymbol) → List Token → s.Tree → Prop
  | arrow {w : List Token} {e : Expr} : DerivesExpr .arrow w e → DerivesExpr .expr w e
  | disjunction {w : List Token} {e : Expr} : DerivesExpr .disjunction w e → DerivesExpr .expr w e
  | function {l r a : Token} {u v : List Token} {params : List Signature} {body : Expr} :
      l.terminal = .openParen → DerivesExpr .arrowParams u params → r.terminal = .closeParen →
      a.terminal = .arrow → DerivesExpr .expr v body →
      DerivesExpr .arrow (l :: (u ++ r :: a :: v))
        (.function (.ofTokens (l :: (u ++ r :: a :: v))) params body)
  | bareFunction {n a : Token} {v : List Token} {body : Expr} :
      n.terminal = .identifier → a.terminal = .arrow → DerivesExpr .expr v body →
      DerivesExpr .arrow (n :: a :: v) (.function (.ofTokens (n :: a :: v)) [.bare n.name] body)
  | noParams : DerivesExpr .arrowParams [] []
  /-- Only the first parameter has to have a type. -/
  | params {n c : Token} {u v : List Token} {type : TypeExpr} {rest : List Signature} :
      n.terminal = .identifier → c.terminal = .colon → DerivesType .type u type →
      DerivesExpr .moreParams v rest →
      DerivesExpr .arrowParams (n :: c :: (u ++ v)) (.typed n.name type :: rest)
  | noMoreParams : DerivesExpr .moreParams [] []
  | moreParams {t : Token} {u v : List Token} {p : Signature} {ps : List Signature} :
      t.terminal = .comma → DerivesType .signature u p → DerivesExpr .moreParams v ps →
      DerivesExpr .moreParams (t :: (u ++ v)) (p :: ps)
  | or {t : Token} {u v : List Token} {left right : Expr} :
      DerivesExpr .disjunction u left → t.terminal = .either → DerivesExpr .conjunction v right →
      DerivesExpr .disjunction (u ++ t :: v) (.logical (.ofTokens (u ++ t :: v)) .or left right)
  | conjunction {w : List Token} {e : Expr} :
      DerivesExpr .conjunction w e → DerivesExpr .disjunction w e
  | and {t : Token} {u v : List Token} {left right : Expr} :
      DerivesExpr .conjunction u left → t.terminal = .both → DerivesExpr .equality v right →
      DerivesExpr .conjunction (u ++ t :: v) (.logical (.ofTokens (u ++ t :: v)) .and left right)
  | equality {w : List Token} {e : Expr} : DerivesExpr .equality w e → DerivesExpr .conjunction w e
  | equal {t : Token} {u v : List Token} {left right : Expr} :
      DerivesExpr .equality u left → t.terminal = .equal → DerivesExpr .relational v right →
      DerivesExpr .equality (u ++ t :: v) (.binary (.ofTokens (u ++ t :: v)) .equal left right)
  | notEqual {t : Token} {u v : List Token} {left right : Expr} :
      DerivesExpr .equality u left → t.terminal = .notEqual → DerivesExpr .relational v right →
      DerivesExpr .equality (u ++ t :: v) (.binary (.ofTokens (u ++ t :: v)) .notEqual left right)
  | relational {w : List Token} {e : Expr} : DerivesExpr .relational w e → DerivesExpr .equality w e
  | ascription {t : Token} {u v : List Token} {subject : Expr} {type : TypeExpr} :
      DerivesExpr .relational u subject → t.terminal = .asWord → DerivesType .type v type →
      DerivesExpr .relational (u ++ t :: v) (.ascription (.ofTokens (u ++ t :: v)) subject type)
  | additive {w : List Token} {e : Expr} : DerivesExpr .additive w e → DerivesExpr .relational w e
  | add {t : Token} {u v : List Token} {left right : Expr} :
      DerivesExpr .additive u left → t.terminal = .plus → DerivesExpr .unary v right →
      DerivesExpr .additive (u ++ t :: v) (.binary (.ofTokens (u ++ t :: v)) .add left right)
  | unary {w : List Token} {e : Expr} : DerivesExpr .unary w e → DerivesExpr .additive w e
  | not {t : Token} {v : List Token} {operand : Expr} :
      t.terminal = .not → DerivesExpr .unary v operand →
      DerivesExpr .unary (t :: v) (.unary (.ofTokens (t :: v)) .not operand)
  | typeof {t : Token} {v : List Token} {operand : Expr} :
      t.terminal = .typeofWord → DerivesExpr .unary v operand →
      DerivesExpr .unary (t :: v) (.unary (.ofTokens (t :: v)) .typeof operand)
  | chain {w : List Token} {e : Expr} : DerivesExpr .chain w e → DerivesExpr .unary w e
  | member {d n : Token} {u : List Token} {object : Expr} :
      DerivesExpr .chain u object → d.terminal = .dot → n.terminal = .identifier →
      DerivesExpr .chain (u ++ [d, n]) (.member (.ofTokens (u ++ [d, n])) object n.name)
  | computed {l r : Token} {u v : List Token} {object index : Expr} :
      DerivesExpr .chain u object → l.terminal = .openBracket → DerivesExpr .expr v index →
      r.terminal = .closeBracket →
      DerivesExpr .chain (u ++ l :: (v ++ [r])) (.computed (.ofTokens (u ++ l :: (v ++ [r]))) object index)
  | call {l r : Token} {u v : List Token} {callee : Expr} {args : List Expr} :
      DerivesExpr .chain u callee → l.terminal = .openParen → DerivesExpr .arguments v args →
      r.terminal = .closeParen →
      DerivesExpr .chain (u ++ l :: (v ++ [r])) (.call (.ofTokens (u ++ l :: (v ++ [r]))) callee args)
  | primary {w : List Token} {e : Expr} : DerivesExpr .primary w e → DerivesExpr .chain w e
  | ident {t : Token} : t.terminal = .identifier → DerivesExpr .primary [t] (.ident t.span t.text)
  | null {t : Token} : t.terminal = .nullWord → DerivesExpr .primary [t] (.null t.span)
  | literal {t : Token} {value : Literal} :
      t.Denotes value → DerivesExpr .primary [t] (.literal t.span value)
  | object {l r : Token} {u : List Token} {properties : List Property} :
      l.terminal = .openBrace → DerivesExpr .properties u properties → r.terminal = .closeBrace →
      DerivesExpr .primary (l :: (u ++ [r])) (.object (.ofTokens (l :: (u ++ [r]))) properties)
  | group {l r : Token} {u : List Token} {e : Expr} :
      l.terminal = .openParen → DerivesExpr .expr u e → r.terminal = .closeParen →
      DerivesExpr .primary (l :: (u ++ [r])) e
  | noArguments : DerivesExpr .arguments [] []
  | lastArgument {u : List Token} {e : Expr} : DerivesExpr .expr u e → DerivesExpr .arguments u [e]
  | argument {t : Token} {u v : List Token} {e : Expr} {es : List Expr} :
      DerivesExpr .expr u e → t.terminal = .comma → DerivesExpr .arguments v es →
      DerivesExpr .arguments (u ++ t :: v) (e :: es)
  | noProperties : DerivesExpr .properties [] []
  | lastProperty {u : List Token} {p : Property} :
      DerivesExpr .property u p → DerivesExpr .properties u [p]
  | property {t : Token} {u v : List Token} {p : Property} {ps : List Property} :
      DerivesExpr .property u p → t.terminal = .comma → DerivesExpr .properties v ps →
      DerivesExpr .properties (u ++ t :: v) (p :: ps)
  | field {n c : Token} {u : List Token} {e : Expr} :
      n.terminal = .identifier → c.terminal = .colon → DerivesExpr .expr u e →
      DerivesExpr .property (n :: c :: u) (.field n.name e)
  | spread {t : Token} {u : List Token} {e : Expr} :
      t.terminal = .ellipsis → DerivesExpr .expr u e → DerivesExpr .property (t :: u) (.spread e)

inductive DerivesStatement : List Token → Statement → Prop
  | declare {d n c s : Token} {u : List Token} {type : TypeExpr} :
      d.terminal = .declareWord → n.terminal = .identifier → c.terminal = .colon →
      DerivesType .type u type → s.terminal = .semicolon →
      DerivesStatement (d :: n :: c :: (u ++ [s]))
        (.declare (.ofTokens (d :: n :: c :: (u ++ [s]))) n.name type)
  | bind {l n a s : Token} {u : List Token} {e : Expr} :
      l.terminal = .letWord → n.terminal = .identifier → a.terminal = .assign →
      DerivesExpr .expr u e → s.terminal = .semicolon →
      DerivesStatement (l :: n :: a :: (u ++ [s]))
        (.bind (.ofTokens (l :: n :: a :: (u ++ [s]))) n.name none e)
  | bindTyped {l n c a s : Token} {u v : List Token} {type : TypeExpr} {e : Expr} :
      l.terminal = .letWord → n.terminal = .identifier → c.terminal = .colon →
      DerivesType .type u type → a.terminal = .assign → DerivesExpr .expr v e →
      s.terminal = .semicolon →
      DerivesStatement (l :: n :: c :: (u ++ a :: (v ++ [s])))
        (.bind (.ofTokens (l :: n :: c :: (u ++ a :: (v ++ [s])))) n.name (some type) e)
  | eval {s : Token} {u : List Token} {e : Expr} :
      DerivesExpr .expr u e → s.terminal = .semicolon →
      DerivesStatement (u ++ [s]) (.eval (.ofTokens (u ++ [s])) e)

inductive DerivesProgram : List Token → List Statement → Prop
  | nil : DerivesProgram [] []
  | cons {u v : List Token} {s : Statement} {ss : List Statement} :
      DerivesStatement u s → DerivesProgram v ss → DerivesProgram (u ++ v) (s :: ss)

theorem DerivesProgram.append {u v : List Token} {ss ss' : List Statement} (h : DerivesProgram u ss)
    (h' : DerivesProgram v ss') : DerivesProgram (u ++ v) (ss ++ ss') := by
  induction h with
  | nil => exact h'
  | cons hst _ ih =>
      rw [List.append_assoc]
      exact .cons hst ih

theorem DerivesStatement.program {w : List Token} {st : Statement} (h : DerivesStatement w st) :
    DerivesProgram w [st] := by
  have hprogram := DerivesProgram.cons h .nil
  rwa [List.append_nil] at hprogram

inductive Start where
  | expr
  | type
  | program

namespace Start

abbrev Tree : Start → Type
  | .expr => Expr
  | .type => TypeExpr
  | .program => List Statement

def Derives : (s : Start) → List Token → s.Tree → Prop
  | .expr => DerivesExpr .expr
  | .type => DerivesType .type
  | .program => DerivesProgram

def parse : (s : Start) → String → Except Diagnostic s.Tree
  | .expr => Expr.parse
  | .type => TypeExpr.parse
  | .program => Statement.parseAll

end Start

end Grammar

end Structura
