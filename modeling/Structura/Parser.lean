import Structura.Diagnostic
import Structura.Parser.Step
import Structura.Token.Lexer

/-!
Reading expressions, types and programs. The first token that cannot stand at its place is reported;
a place where no token starts is reported once everything before it has been read; a text that ends
too early is reported with the tokens that could come next.
-/

namespace Structura

namespace Parser

def feed (c : Config) : List Token → Except Token Config
  | [] => .ok c
  | t :: ts =>
      match c.step t with
      | some c' => feed c' ts
      | none => .error t

def endOffset (tokens : List Token) : Nat :=
  match tokens.getLast? with
  | some t => t.span.stop
  | none => 0

def Config.accepts (c : Config) (terminal : Terminal) : Bool :=
  (c.step ⟨terminal, "", ⟨0, 0⟩⟩).isSome

def Config.expected (c : Config) : List Terminal := Terminal.all.filter c.accepts

def Config.atEnd (c : Config) : Config :=
  let (stack, focus) := close c.stack c.focus
  { c with stack, focus }

/-- Reads a whole text. `result?` gives what the last configuration stands for, unless something is
missing. -/
def parse {α : Type} (start : Config) (finish : Config → Config) (result? : Config → Option α)
    (code : String) : Except Diagnostic α :=
  let lexed := Token.ofText code
  match feed start lexed.tokens, lexed.invalid with
  | .error t, _ => .error (.located (.unexpectedToken t.text) t.span)
  | .ok _, some offset => .error (.located .invalidToken (.ofOffset offset))
  | .ok c, none =>
      let c := finish c
      match result? c with
      | some a => .ok a
      | none => .error (.located (.unexpectedEnd c.expected) (.ofOffset (endOffset lexed.tokens)))

def Config.expr? (c : Config) : Option Expr :=
  match c.stack, c.focus with
  | [], .expr _ e => some e.tree
  | _, _ => none

def Config.type? (c : Config) : Option TypeExpr :=
  match c.stack, c.focus with
  | [], .typed _ t => some t.tree
  | _, _ => none

def Config.program? (c : Config) : Option (List Statement) :=
  match c.focus with
  | .statement => some c.done.reverse
  | _ => none

end Parser

def Expr.parse (code : String) : Except Diagnostic Expr :=
  Parser.parse ⟨[], [], .operand⟩ Parser.Config.atEnd Parser.Config.expr? code

def TypeExpr.parse (code : String) : Except Diagnostic TypeExpr :=
  Parser.parse ⟨[], [], .type⟩ Parser.Config.atEnd Parser.Config.type? code

/-- A program ends between statements, so its end completes nothing. -/
def Statement.parseAll (code : String) : Except Diagnostic (List Statement) :=
  Parser.parse ⟨[], [], .statement⟩ id Parser.Config.program? code

end Structura
