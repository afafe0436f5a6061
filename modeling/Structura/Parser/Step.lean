import Structura.Number.Decimal
import Structura.Parser.Config

namespace Structura

namespace Token

def name (t : Token) : Name := ⟨t.text, t.span⟩

def numberValue (t : Token) : Binary64 :=
  let cs := t.text.toList
  .ofDecimal false (.ofDigits (cs.takeWhile (· != '.')) ((cs.dropWhile (· != '.')).drop 1))

def stringValue (t : Token) : String := String.ofList (t.text.toList.drop 1).dropLast

def literal? (t : Token) : Option Literal :=
  match t.terminal with
  | .trueWord => some (.boolean true)
  | .falseWord => some (.boolean false)
  | .number => some (.number t.numberValue)
  | .doubleQuoted => some (.string t.stringValue)
  | .singleQuoted => some (.string t.stringValue)
  | _ => none

def simpleType? (t : Token) : Option TypeExpr :=
  match t.terminal with
  | .nullWord => some (.prim t.span .null)
  | .booleanWord => some (.prim t.span .boolean)
  | .numberWord => some (.prim t.span .number)
  | .stringWord => some (.prim t.span .string)
  | .unknownWord => some (.unknown t.span)
  | .neverWord => some (.never t.span)
  | _ => t.literal?.map (.literal t.span)

def simpleExpr? (t : Token) : Option Expr :=
  match t.terminal with
  | .nullWord => some (.null t.span)
  | _ => t.literal?.map (.literal t.span)

end Token

namespace Parser

namespace Part

def extend {α β : Type} (start : Nat) (node : Span → α → β) (p : Part α) : Part β :=
  let span : Span := ⟨start, p.span.stop⟩
  ⟨span, node span p.tree⟩

def close {α β : Type} (p : Part α) (t : Token) (node : Span → α → β) : Part β :=
  let span : Span := ⟨p.span.start, t.span.stop⟩
  ⟨span, node span p.tree⟩

end Part

namespace Params

def add (params : Params) (s : Signature) : Params := { params with before := s :: params.before }

end Params

def Frame.complete? (f : Frame) (e : Part Expr) : Option (Rank × Part Expr) :=
  match f with
  | .unary start op => some (.unary, e.extend start (.unary · op ·))
  | .binary .add left => some (.additive, e.extend left.span.start (.binary · .add left.tree ·))
  | .binary op left => some (.equality, e.extend left.span.start (.binary · op left.tree ·))
  | .logical .and left => some (.conjunction, e.extend left.span.start (.logical · .and left.tree ·))
  | .logical .or left => some (.disjunction, e.extend left.span.start (.logical · .or left.tree ·))
  | .body start params => some (.whole, e.extend start (.function · params ·))
  | _ => none

/-- Completes the operators on top of the stack whose rank is at most `rank`. -/
def fold (rank : Rank) : List Frame → Part Expr → List Frame × Part Expr
  | [], e => ([], e)
  | f :: rest, e =>
      match f.complete? e with
      | some (r, e') => if r ≤ rank then fold rank rest e' else (f :: rest, e)
      | none => (f :: rest, e)

def foldInter : List Frame → Part TypeExpr → List Frame × Part TypeExpr
  | .inter start before :: rest, t =>
      (rest, t.extend start fun span last => .inter span (last :: before).reverse)
  | stack, t => (stack, t)

def foldType : List Frame → Part TypeExpr → List Frame × Part TypeExpr
  | .inter start before :: rest, t =>
      foldType rest (t.extend start fun span last => .inter span (last :: before).reverse)
  | .union start before :: rest, t =>
      foldType rest (t.extend start fun span last => .union span (last :: before).reverse)
  | .result start params :: rest, t => foldType rest (t.extend start (.function · params ·))
  | stack, t => (stack, t)

/-- Whether an expression of any form may start here, and not only an operand. -/
def awaitsWhole : List Frame → Bool
  | .unary _ _ :: _ => false
  | .binary _ _ :: _ => false
  | .logical _ _ :: _ => false
  | _ => true

def awaitsWholeType : List Frame → Bool
  | .union _ _ :: _ => false
  | .inter _ _ :: _ => false
  | _ => true

def call (callee : Part Expr) (args : List Expr) (t : Token) : Focus :=
  .expr .chain (callee.close t fun span f => .call span f args.reverse)

abbrev Move := Option (List Frame × Focus)

def operandStep (stack : List Frame) (t : Token) : Move :=
  match t.terminal with
  | .identifier => some (stack, .expr .name ⟨t.span, .ident t.span t.text⟩)
  | .openBrace => some (stack, .property t.span.start [])
  | .openParen => some (.group t.span.start (awaitsWhole stack) :: stack, .operand)
  | .not => some (.unary t.span.start .not :: stack, .operand)
  | .typeofWord => some (.unary t.span.start .typeof :: stack, .operand)
  | .closeParen =>
      match stack with
      | .group start true :: rest => some (rest, .arrow ⟨.function, start, []⟩)
      | .argument callee before :: rest => some (rest, call callee before t)
      | _ => none
  | _ => t.simpleExpr?.map fun e => (stack, .expr .chain ⟨t.span, e⟩)

def operatorStep (rank : Rank) (frame : Part Expr → Frame) (next : Focus) (stack : List Frame)
    (r : Rank) (e : Part Expr) : Move :=
  if r ≤ rank then
    let (rest, left) := fold rank stack e
    some (frame left :: rest, next)
  else none

def closeExprStep (stack : List Frame) (e : Part Expr) (t : Token) : Move :=
  match t.terminal, fold .whole stack e with
  | .closeParen, (.group start _ :: rest, e) =>
      some (rest, .expr .chain ⟨⟨start, t.span.stop⟩, e.tree⟩)
  | .closeParen, (.argument callee before :: rest, e) => some (rest, call callee (e.tree :: before) t)
  | .comma, (.argument callee before :: rest, e) =>
      some (.argument callee (e.tree :: before) :: rest, .operand)
  | .closeBracket, (.index object :: rest, e) =>
      some (rest, .expr .chain (object.close t (.computed · · e.tree)))
  | .comma, (.field start before name :: rest, e) =>
      some (rest, .property start (.field name e.tree :: before))
  | .comma, (.spread start before :: rest, e) => some (rest, .property start (.spread e.tree :: before))
  | .closeBrace, (.field start before name :: rest, e) =>
      let span : Span := ⟨start, t.span.stop⟩
      some (rest, .expr .chain ⟨span, .object span (.field name e.tree :: before).reverse⟩)
  | .closeBrace, (.spread start before :: rest, e) =>
      let span : Span := ⟨start, t.span.stop⟩
      some (rest, .expr .chain ⟨span, .object span (.spread e.tree :: before).reverse⟩)
  | _, _ => none

def nameOf? (r : Rank) (e : Part Expr) : Option Name :=
  match r, e.tree with
  | .name, .ident span name => some ⟨name, span⟩
  | _, _ => none

/-- A name before an arrow is the only parameter of a function. -/
def bodyStep (stack : List Frame) (name : Name) : Move :=
  if awaitsWhole stack then some (.body name.span.start [.bare name] :: stack, .operand) else none

def firstParamStep (stack : List Frame) (name : Name) : Move :=
  match stack with
  | .group start true :: rest => some (.paramType ⟨.function, start, []⟩ name :: rest, .type)
  | _ => none

def exprStep (stack : List Frame) (r : Rank) (e : Part Expr) (t : Token) : Move :=
  match t.terminal with
  | .dot => if r ≤ .chain then some (stack, .memberName e) else none
  | .openBracket => if r ≤ .chain then some (.index e :: stack, .operand) else none
  | .openParen => if r ≤ .chain then some (.argument e [] :: stack, .operand) else none
  | .plus => operatorStep .additive (.binary .add) .operand stack r e
  | .asWord => operatorStep .relational .ascription .type stack r e
  | .equal => operatorStep .equality (.binary .equal) .operand stack r e
  | .notEqual => operatorStep .equality (.binary .notEqual) .operand stack r e
  | .both => operatorStep .conjunction (.logical .and) .operand stack r e
  | .either => operatorStep .disjunction (.logical .or) .operand stack r e
  | .arrow => (nameOf? r e).bind (bodyStep stack)
  | .colon => (nameOf? r e).bind (firstParamStep stack)
  | _ => closeExprStep stack e t

def propertyStep (stack : List Frame) (start : Nat) (before : List Property) (t : Token) : Move :=
  match t.terminal with
  | .identifier => some (stack, .propertyColon start before t.name)
  | .ellipsis => some (.spread start before :: stack, .operand)
  | .closeBrace =>
      let span : Span := ⟨start, t.span.stop⟩
      some (stack, .expr .chain ⟨span, .object span before.reverse⟩)
  | _ => none

def paramNameStep (stack : List Frame) (params : Params) (t : Token) : Move :=
  match t.terminal, params.owner with
  | .identifier, _ => some (stack, .paramEnd params t.name)
  | .closeParen, .functionType => some (stack, .arrow params)
  | _, _ => none

def paramEndStep (stack : List Frame) (params : Params) (name : Name) (t : Token) : Move :=
  match t.terminal with
  | .colon => some (.paramType params name :: stack, .type)
  | .comma => some (stack, .paramName (params.add (.bare name)))
  | .closeParen => some (stack, .arrow (params.add (.bare name)))
  | _ => none

def arrowStep (stack : List Frame) (params : Params) (t : Token) : Move :=
  match t.terminal, params.owner with
  | .arrow, .function => some (.body params.start params.before.reverse :: stack, .operand)
  | .arrow, .functionType => some (.result params.start params.before.reverse :: stack, .type)
  | _, _ => none

def typeStep (stack : List Frame) (t : Token) : Move :=
  match t.terminal with
  | .openBrace => some (stack, .member t.span.start [])
  | .openParen => some (.typeGroup t.span.start (awaitsWholeType stack) :: stack, .type)
  | .identifier =>
      match stack with
      | .typeGroup start true :: rest => some (rest, .paramEnd ⟨.functionType, start, []⟩ t.name)
      | _ => none
  | .closeParen =>
      match stack with
      | .typeGroup start true :: rest => some (rest, .arrow ⟨.functionType, start, []⟩)
      | _ => none
  | _ => t.simpleType?.map fun e => (stack, .typed false ⟨t.span, e⟩)

def objectType (start : Nat) (members : List Signature) (t : Token) : Focus :=
  let span : Span := ⟨start, t.span.stop⟩
  .typed false ⟨span, .object span members.reverse⟩

def closeTypeStep (stack : List Frame) (type : Part TypeExpr) (t : Token) : Move :=
  match t.terminal, stack with
  | .closeParen, .typeGroup start _ :: rest =>
      some (rest, .typed false ⟨⟨start, t.span.stop⟩, type.tree⟩)
  | .comma, .memberType start before name :: rest =>
      some (rest, .member start (.typed name type.tree :: before))
  | .semicolon, .memberType start before name :: rest =>
      some (rest, .member start (.typed name type.tree :: before))
  | .closeBrace, .memberType start before name :: rest =>
      some (rest, objectType start (.typed name type.tree :: before) t)
  | .comma, .paramType params name :: rest =>
      some (rest, .paramName (params.add (.typed name type.tree)))
  | .closeParen, .paramType params name :: rest =>
      some (rest, .arrow (params.add (.typed name type.tree)))
  | .assign, .annotated start name :: rest =>
      some (.value start name (some type.tree) :: rest, .operand)
  | _, _ => none

def ascribe (subject : Part Expr) (type : Part TypeExpr) : Part Expr :=
  type.extend subject.span.start (.ascription · subject.tree ·)

def typedStep (stack : List Frame) (complete : Bool) (type : Part TypeExpr) (t : Token) : Move :=
  match t.terminal, complete with
  | .amp, false =>
      match stack with
      | .inter start before :: rest => some (.inter start (type.tree :: before) :: rest, .type)
      | _ => some (.inter type.span.start [type.tree] :: stack, .type)
  | .bar, false =>
      match foldInter stack type with
      | (.union start before :: rest, last) => some (.union start (last.tree :: before) :: rest, .type)
      | (rest, last) => some (.union last.span.start [last.tree] :: rest, .type)
  | _, _ =>
      match foldType stack type with
      | (.ascription subject :: rest, type) => exprStep rest .relational (ascribe subject type) t
      | (rest, type) => closeTypeStep rest type t

def memberStep (stack : List Frame) (start : Nat) (before : List Signature) (t : Token) : Move :=
  match t.terminal with
  | .identifier => some (stack, .memberEnd start before t.name)
  | .closeBrace => some (stack, objectType start before t)
  | _ => none

def memberEndStep (stack : List Frame) (start : Nat) (before : List Signature) (name : Name)
    (t : Token) : Move :=
  match t.terminal with
  | .colon => some (.memberType start before name :: stack, .type)
  | .comma => some (stack, .member start (.bare name :: before))
  | .semicolon => some (stack, .member start (.bare name :: before))
  | .closeBrace => some (stack, objectType start (.bare name :: before) t)
  | _ => none

def statementStep (stack : List Frame) (t : Token) : Move :=
  match t.terminal with
  | .declareWord => some (stack, .declareName t.span.start)
  | .letWord => some (stack, .letName t.span.start)
  | _ => operandStep (.statement t.span.start :: stack) t

def letEndStep (stack : List Frame) (start : Nat) (name : Name) (t : Token) : Move :=
  match t.terminal with
  | .colon => some (.annotated start name :: stack, .type)
  | .assign => some (.value start name none :: stack, .operand)
  | _ => none

def move (stack : List Frame) (focus : Focus) (t : Token) : Move :=
  match focus with
  | .operand => operandStep stack t
  | .expr r e => exprStep stack r e t
  | .property start before => propertyStep stack start before t
  | .propertyColon start before name =>
      if t.terminal = .colon then some (.field start before name :: stack, .operand) else none
  | .memberName object =>
      if t.terminal = .identifier then
        some (stack, .expr .chain (object.close t (.member · · t.name)))
      else none
  | .paramName params => paramNameStep stack params t
  | .paramEnd params name => paramEndStep stack params name t
  | .arrow params => arrowStep stack params t
  | .type => typeStep stack t
  | .typed complete type => typedStep stack complete type t
  | .member start before => memberStep stack start before t
  | .memberEnd start before name => memberEndStep stack start before name t
  | .statement => statementStep stack t
  | .declareName start =>
      if t.terminal = .identifier then some (stack, .declareColon start t.name) else none
  | .declareColon start name =>
      if t.terminal = .colon then some (.declared start name :: stack, .type) else none
  | .letName start =>
      if t.terminal = .identifier then some (stack, .letEnd start t.name) else none
  | .letEnd start name => letEndStep stack start name t

def close (stack : List Frame) : Focus → List Frame × Focus
  | .expr _ e =>
      let (rest, e) := fold .whole stack e
      (rest, .expr .whole e)
  | .typed _ t =>
      match foldType stack t with
      | (.ascription subject :: rest, type) =>
          let (rest, e) := fold .whole rest (ascribe subject type)
          (rest, .expr .whole e)
      | (rest, type) => (rest, .typed true type)
  | focus => (stack, focus)

def statement? (stack : List Frame) (focus : Focus) (stop : Nat) : Option Statement :=
  match close stack focus with
  | ([.declared start name], .typed _ t) => some (.declare ⟨start, stop⟩ name t.tree)
  | ([.value start name type], .expr _ e) => some (.bind ⟨start, stop⟩ name type e.tree)
  | ([.statement start], .expr _ e) => some (.eval ⟨start, stop⟩ e.tree)
  | _ => none

namespace Config

def step (c : Config) (t : Token) : Option Config :=
  match if t.terminal = .semicolon then statement? c.stack c.focus t.span.stop else none with
  | some s => some ⟨s :: c.done, [], .statement⟩
  | none => (move c.stack c.focus t).map fun (stack, focus) => ⟨c.done, stack, focus⟩

end Config

end Parser

end Structura
