import Structura.Proofs.Grammar

namespace Structura

def Span.relative (n : Nat) (s : Span) : Span := ⟨s.start - n, s.stop - n⟩

def Name.relative (n : Nat) (name : Name) : Name := ⟨name.text, name.span.relative n⟩

mutual

def TypeExpr.relative (n : Nat) : TypeExpr → TypeExpr
  | .prim span primitive => .prim (span.relative n) primitive
  | .unknown span => .unknown (span.relative n)
  | .never span => .never (span.relative n)
  | .literal span value => .literal (span.relative n) value
  | .object span members => .object (span.relative n) (Signature.relativeAll n members)
  | .function span params result =>
      .function (span.relative n) (Signature.relativeAll n params) (result.relative n)
  | .union span members => .union (span.relative n) (TypeExpr.relativeAll n members)
  | .inter span members => .inter (span.relative n) (TypeExpr.relativeAll n members)

def TypeExpr.relativeAll (n : Nat) : List TypeExpr → List TypeExpr
  | [] => []
  | t :: ts => t.relative n :: TypeExpr.relativeAll n ts

def Signature.relative (n : Nat) : Signature → Signature
  | .bare name => .bare (name.relative n)
  | .typed name type => .typed (name.relative n) (type.relative n)

def Signature.relativeAll (n : Nat) : List Signature → List Signature
  | [] => []
  | s :: ss => s.relative n :: Signature.relativeAll n ss

end

mutual

def Expr.relative (n : Nat) : Expr → Expr
  | .ident span name => .ident (span.relative n) name
  | .null span => .null (span.relative n)
  | .literal span value => .literal (span.relative n) value
  | .object span properties => .object (span.relative n) (Property.relativeAll n properties)
  | .member span object name => .member (span.relative n) (object.relative n) (name.relative n)
  | .computed span object index => .computed (span.relative n) (object.relative n) (index.relative n)
  | .ascription span subject type =>
      .ascription (span.relative n) (subject.relative n) (type.relative n)
  | .function span params body =>
      .function (span.relative n) (Signature.relativeAll n params) (body.relative n)
  | .call span callee args => .call (span.relative n) (callee.relative n) (Expr.relativeAll n args)
  | .binary span op left right => .binary (span.relative n) op (left.relative n) (right.relative n)
  | .logical span op left right => .logical (span.relative n) op (left.relative n) (right.relative n)
  | .unary span op operand => .unary (span.relative n) op (operand.relative n)

def Expr.relativeAll (n : Nat) : List Expr → List Expr
  | [] => []
  | e :: es => e.relative n :: Expr.relativeAll n es

def Property.relative (n : Nat) : Property → Property
  | .field name value => .field (name.relative n) (value.relative n)
  | .spread value => .spread (value.relative n)

def Property.relativeAll (n : Nat) : List Property → List Property
  | [] => []
  | p :: ps => p.relative n :: Property.relativeAll n ps

end

def Statement.relative (n : Nat) : Statement → Statement
  | .declare span name type => .declare (span.relative n) (name.relative n) (type.relative n)
  | .bind span name type value =>
      .bind (span.relative n) (name.relative n) (type.map (·.relative n)) (value.relative n)
  | .eval span value => .eval (span.relative n) (value.relative n)

namespace Token

variable {t : Token} {n : Nat}

def relative (n : Nat) (t : Token) : Token := ⟨t.terminal, t.text, t.span.relative n⟩

theorem Denotes.relative {value : Literal} (h : t.Denotes value) : (t.relative n).Denotes value := by
  cases h with
  | trueWord ht => exact .trueWord ht
  | falseWord ht => exact .falseWord ht
  | number ht hnumber hvalue => exact .number ht hnumber hvalue
  | doubleQuoted ht htext => exact .doubleQuoted ht htext
  | singleQuoted ht htext => exact .singleQuoted ht htext

end Token

theorem Span.ofTokens_relative (n : Nat) (w : List Token) :
    ofTokens (w.map (Token.relative n)) = (ofTokens w).relative n := by
  have hstart : (ofTokens (w.map (Token.relative n))).start = (ofTokens w).start - n := by
    cases w with
    | nil => exact (Nat.zero_sub n).symm
    | cons t w => rfl
  have hstop : (ofTokens (w.map (Token.relative n))).stop = (ofTokens w).stop - n := by
    change Parser.endOffset _ = Parser.endOffset _ - n
    unfold Parser.endOffset
    rw [List.getLast?_map]
    cases w.getLast? with
    | none => exact (Nat.zero_sub n).symm
    | some t => rfl
  rw [relative, ← hstart, ← hstop]

namespace Grammar

variable {n : Nat} {w : List Token}

def TypeSymbol.relative (n : Nat) : (s : TypeSymbol) → s.Tree → s.Tree
  | .type | .functionType | .unionType | .interType | .primaryType => TypeExpr.relative n
  | .alternatives | .requirements => TypeExpr.relativeAll n
  | .params | .members => Signature.relativeAll n
  | .signature => Signature.relative n

theorem DerivesType.relative {s : TypeSymbol} {e : s.Tree} (h : DerivesType s w e) :
    DerivesType s (w.map (Token.relative n)) (s.relative n e) := by
  induction h with
  | function _ ih => exact .function ih
  | union _ ih => exact .union ih
  | arrow hl _ hr ha _ ihu ihv =>
      rw [TypeSymbol.relative, TypeExpr.relative, ← Span.ofTokens_relative, List.map_cons, List.map_append,
        List.map_cons, List.map_cons]
      exact .arrow hl ihu hr ha ihv
  | alternatives _ _ ihu ihv =>
      rw [TypeSymbol.relative, TypeExpr.relative, ← Span.ofTokens_relative, List.map_append]
      exact .alternatives ihu ihv
  | inter _ ih => exact .inter ih
  | lastAlternative ht _ ih => exact .lastAlternative ht ih
  | alternative ht _ _ ihu ihv =>
      rw [List.map_cons, List.map_append]
      exact .alternative ht ihu ihv
  | requirements _ _ ihu ihv =>
      rw [TypeSymbol.relative, TypeExpr.relative, ← Span.ofTokens_relative, List.map_append]
      exact .requirements ihu ihv
  | primary _ ih => exact .primary ih
  | lastRequirement ht _ ih => exact .lastRequirement ht ih
  | requirement ht _ _ ihu ihv =>
      rw [List.map_cons, List.map_append]
      exact .requirement ht ihu ihv
  | null ht => exact .null ht
  | boolean ht => exact .boolean ht
  | number ht => exact .number ht
  | string ht => exact .string ht
  | unknown ht => exact .unknown ht
  | never ht => exact .never ht
  | literal h => exact .literal h.relative
  | object hl _ hr ih =>
      rw [TypeSymbol.relative, TypeExpr.relative, ← Span.ofTokens_relative, List.map_cons, List.map_append]
      exact .object hl ih hr
  | group hl _ hr ih =>
      rw [List.map_cons, List.map_append]
      exact .group hl ih hr
  | noParams => exact .noParams
  | lastParam _ ih => exact .lastParam ih
  | param _ ht _ ihu ihv =>
      rw [List.map_append, List.map_cons]
      exact .param ihu ht ihv
  | noMembers => exact .noMembers
  | lastMember _ ih => exact .lastMember ih
  | member _ ht _ ihu ihv =>
      rw [List.map_append, List.map_cons]
      exact .member ihu ht ihv
  | bare hn => exact .bare hn
  | typed hn hc _ ih => exact .typed hn hc ih

def ExprSymbol.relative (n : Nat) : (s : ExprSymbol) → s.Tree → s.Tree
  | .arrowParams | .moreParams => Signature.relativeAll n
  | .arguments => Expr.relativeAll n
  | .properties => Property.relativeAll n
  | .property => Property.relative n
  | .expr | .arrow | .disjunction | .conjunction | .equality | .relational | .additive | .unary | .chain
  | .primary => Expr.relative n

theorem DerivesExpr.relative {s : ExprSymbol} {e : s.Tree} (h : DerivesExpr s w e) :
    DerivesExpr s (w.map (Token.relative n)) (s.relative n e) := by
  induction h with
  | arrow _ ih => exact .arrow ih
  | disjunction _ ih => exact .disjunction ih
  | function hl _ hr ha _ ihu ihv =>
      rw [ExprSymbol.relative, Expr.relative, ← Span.ofTokens_relative, List.map_cons, List.map_append,
        List.map_cons, List.map_cons]
      exact .function hl ihu hr ha ihv
  | bareFunction hn ha _ ih =>
      rw [ExprSymbol.relative, Expr.relative, ← Span.ofTokens_relative]
      exact .bareFunction hn ha ih
  | noParams => exact .noParams
  | params hn hc hu _ ihv =>
      rw [List.map_cons, List.map_cons, List.map_append]
      exact .params hn hc hu.relative ihv
  | noMoreParams => exact .noMoreParams
  | moreParams ht hu _ ihv =>
      rw [List.map_cons, List.map_append]
      exact .moreParams ht hu.relative ihv
  | or _ ht _ ihu ihv =>
      rw [ExprSymbol.relative, Expr.relative, ← Span.ofTokens_relative, List.map_append, List.map_cons]
      exact .or ihu ht ihv
  | conjunction _ ih => exact .conjunction ih
  | and _ ht _ ihu ihv =>
      rw [ExprSymbol.relative, Expr.relative, ← Span.ofTokens_relative, List.map_append, List.map_cons]
      exact .and ihu ht ihv
  | equality _ ih => exact .equality ih
  | equal _ ht _ ihu ihv =>
      rw [ExprSymbol.relative, Expr.relative, ← Span.ofTokens_relative, List.map_append, List.map_cons]
      exact .equal ihu ht ihv
  | notEqual _ ht _ ihu ihv =>
      rw [ExprSymbol.relative, Expr.relative, ← Span.ofTokens_relative, List.map_append, List.map_cons]
      exact .notEqual ihu ht ihv
  | relational _ ih => exact .relational ih
  | ascription _ ht hv ihu =>
      rw [ExprSymbol.relative, Expr.relative, ← Span.ofTokens_relative, List.map_append, List.map_cons]
      exact .ascription ihu ht hv.relative
  | additive _ ih => exact .additive ih
  | add _ ht _ ihu ihv =>
      rw [ExprSymbol.relative, Expr.relative, ← Span.ofTokens_relative, List.map_append, List.map_cons]
      exact .add ihu ht ihv
  | unary _ ih => exact .unary ih
  | not ht _ ih =>
      rw [ExprSymbol.relative, Expr.relative, ← Span.ofTokens_relative]
      exact .not ht ih
  | typeof ht _ ih =>
      rw [ExprSymbol.relative, Expr.relative, ← Span.ofTokens_relative]
      exact .typeof ht ih
  | chain _ ih => exact .chain ih
  | member _ hd hn ih =>
      rw [ExprSymbol.relative, Expr.relative, ← Span.ofTokens_relative, List.map_append]
      exact .member ih hd hn
  | computed _ hl _ hr ihu ihv =>
      rw [ExprSymbol.relative, Expr.relative, ← Span.ofTokens_relative, List.map_append, List.map_cons,
        List.map_append]
      exact .computed ihu hl ihv hr
  | call _ hl _ hr ihu ihv =>
      rw [ExprSymbol.relative, Expr.relative, ← Span.ofTokens_relative, List.map_append, List.map_cons,
        List.map_append]
      exact .call ihu hl ihv hr
  | primary _ ih => exact .primary ih
  | ident ht => exact .ident ht
  | null ht => exact .null ht
  | literal h => exact .literal h.relative
  | object hl _ hr ih =>
      rw [ExprSymbol.relative, Expr.relative, ← Span.ofTokens_relative, List.map_cons, List.map_append]
      exact .object hl ih hr
  | group hl _ hr ih =>
      rw [List.map_cons, List.map_append]
      exact .group hl ih hr
  | noArguments => exact .noArguments
  | lastArgument _ ih => exact .lastArgument ih
  | argument _ ht _ ihu ihv =>
      rw [List.map_append, List.map_cons]
      exact .argument ihu ht ihv
  | noProperties => exact .noProperties
  | lastProperty _ ih => exact .lastProperty ih
  | property _ ht _ ihu ihv =>
      rw [List.map_append, List.map_cons]
      exact .property ihu ht ihv
  | field hn hc _ ih => exact .field hn hc ih
  | spread ht _ ih => exact .spread ht ih

theorem DerivesStatement.relative {st : Statement} (h : DerivesStatement w st) :
    DerivesStatement (w.map (Token.relative n)) (st.relative n) := by
  cases h with
  | declare hd hn hc hu hs =>
      rw [Statement.relative, ← Span.ofTokens_relative, List.map_cons, List.map_cons, List.map_cons,
        List.map_append]
      exact .declare hd hn hc hu.relative hs
  | bind hl hn ha hu hs =>
      rw [Statement.relative, ← Span.ofTokens_relative, List.map_cons, List.map_cons, List.map_cons,
        List.map_append]
      exact .bind hl hn ha hu.relative hs
  | bindTyped hl hn hc hu ha hv hs =>
      rw [Statement.relative, ← Span.ofTokens_relative, List.map_cons, List.map_cons, List.map_cons,
        List.map_append, List.map_cons, List.map_append]
      exact .bindTyped hl hn hc hu.relative ha hv.relative hs
  | eval hu hs =>
      rw [Statement.relative, ← Span.ofTokens_relative, List.map_append]
      exact .eval hu.relative hs

end Grammar

end Structura
