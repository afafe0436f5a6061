import Structura.Statement
import Structura.Token

/-!
The state of a parser that reads one token at a time. Everything that has been read but is not
complete stands on a stack of frames, the innermost on top; the focus says what has just been read or
what has to come next.
-/

namespace Structura.Parser

/-- Part of the source that has been read. Its span counts the parentheses around it, which the tree
does not know of. -/
structure Part (α : Type) where
  span : Span
  tree : α
deriving Inhabited

/-- How tightly an expression is built, from names to expressions of any form. An operator takes an
operand only up to some rank. -/
inductive Rank where
  | name
  | chain
  | unary
  | additive
  | relational
  | equality
  | conjunction
  | disjunction
  | whole
deriving DecidableEq, Repr, Inhabited

namespace Rank

def level : Rank → Nat
  | .name => 0
  | .chain => 1
  | .unary => 2
  | .additive => 3
  | .relational => 4
  | .equality => 5
  | .conjunction => 6
  | .disjunction => 7
  | .whole => 8

instance : LE Rank := ⟨fun a b => a.level ≤ b.level⟩

instance (a b : Rank) : Decidable (a ≤ b) := inferInstanceAs (Decidable (a.level ≤ b.level))

end Rank

inductive Owner where
  | function
  | functionType
deriving DecidableEq, Repr, Inhabited

structure Params where
  owner : Owner
  start : Nat
  before : List Signature

/-- Something that waits for what is read next. Lists hold the latest element first. -/
inductive Frame where
  | unary (start : Nat) (op : UnaryOp)
  | binary (op : BinaryOp) (left : Part Expr)
  | logical (op : LogicalOp) (left : Part Expr)
  | body (start : Nat) (params : List Signature)
  /-- An opening parenthesis. Where a function may stand it can also open parameters. -/
  | group (start : Nat) (mayOpenParams : Bool)
  | index (object : Part Expr)
  | argument (callee : Part Expr) (before : List Expr)
  | field (start : Nat) (before : List Property) (name : Name)
  | spread (start : Nat) (before : List Property)
  | ascription (subject : Part Expr)
  | union (start : Nat) (before : List TypeExpr)
  | inter (start : Nat) (before : List TypeExpr)
  | result (start : Nat) (params : List Signature)
  | typeGroup (start : Nat) (mayOpenParams : Bool)
  | memberType (start : Nat) (before : List Signature) (name : Name)
  | paramType (params : Params) (name : Name)
  | declared (start : Nat) (name : Name)
  | annotated (start : Nat) (name : Name)
  | value (start : Nat) (name : Name) (type : Option TypeExpr)
  | statement (start : Nat)

inductive Focus where
  | operand
  | expr (rank : Rank) (e : Part Expr)
  | property (start : Nat) (before : List Property)
  | propertyColon (start : Nat) (before : List Property) (name : Name)
  | memberName (object : Part Expr)
  | paramName (params : Params)
  | paramEnd (params : Params) (name : Name)
  | arrow (params : Params)
  | type
  /-- A type has been read; it can grow unless it is known to be complete. -/
  | typed (complete : Bool) (t : Part TypeExpr)
  | member (start : Nat) (before : List Signature)
  | memberEnd (start : Nat) (before : List Signature) (name : Name)
  | statement
  | declareName (start : Nat)
  | declareColon (start : Nat) (name : Name)
  | letName (start : Nat)
  | letEnd (start : Nat) (name : Name)

/-- Complete statements, the latest first, and what is being read. -/
structure Config where
  done : List Statement
  stack : List Frame
  focus : Focus

end Structura.Parser
