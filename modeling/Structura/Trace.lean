import Structura.Diagnostic
import Structura.Expr

namespace Structura

inductive Rule where
  | synth
  | check
  | checkObject
  | isSubtype
  | convert
  | onMember
  | onCall
  | onBinary
  | onLogical
  | onUnary
deriving DecidableEq, Repr, Inhabited

def Rule.render : Rule → String
  | .synth => "synth"
  | .check => "check"
  | .checkObject => "checkObject"
  | .isSubtype => "isSubtype"
  | .convert => "ofAnnotation"
  | .onMember => "andThenMember"
  | .onCall => "andThenCall"
  | .onBinary => "andThenBinary"
  | .onLogical => "andThenLogical"
  | .onUnary => "andThenUnary"

inductive Subject where
  | expr (e : Expr)
  | typeExpr (t : TypeExpr)
  | against (e : Expr) (t : Ty)
  | branch (t : Ty)
  | pair (left right : Ty)
  | below (lower upper : Ty)
  | bothBelow (left right upper : Ty)

def Subject.render : Subject → String
  | .expr e => e.render
  | .typeExpr t => t.render
  | .against e t => e.render ++ " <== " ++ t.render
  | .branch t => t.render
  | .pair left right => left.render ++ ", " ++ right.render
  | .below lower upper => lower.render ++ " <: " ++ upper.render
  | .bothBelow left right upper => left.render ++ ", " ++ right.render ++ " <: " ++ upper.render

inductive Outcome where
  | type (t : Ty)
  | holds
  | truth (b : Bool)
  | failed (d : Diagnostic)

def Outcome.render : Outcome → String
  | .type t => "returned=" ++ t.render
  | .holds => "returned=ok"
  | .truth b => "returned=" ++ renderBool b
  | .failed d => "error=" ++ d.message ++ " kind=" ++ d.kind.render

inductive Record where
  | mk (rule : Rule) (subject : Subject) (inner : List Record) (outcome : Outcome)

def Record.subject : Record → Subject
  | .mk _ subject _ _ => subject

mutual

/-- The lines of a record: one when it starts, one when it ends, with its depth in front. -/
def Record.lines (depth : Nat) : Record → List String
  | .mk rule subject inner outcome =>
      let head := toString depth ++ " " ++ rule.render ++ " "
      (head ++ "subject=" ++ subject.render) ::
        (Record.linesAll (depth + 1) inner ++ [head ++ outcome.render])

def Record.linesAll (depth : Nat) : List Record → List String
  | [] => []
  | r :: rs => r.lines depth ++ Record.linesAll depth rs

end

structure Traced (α : Type) where
  records : List Record
  result : Except Diagnostic α

namespace Traced

variable {α β : Type}

protected def pure (a : α) : Traced α := ⟨[], .ok a⟩

protected def bind (x : Traced α) (f : α → Traced β) : Traced β :=
  match x.result with
  | .ok a =>
      let y := f a
      ⟨x.records ++ y.records, y.result⟩
  | .error d => ⟨x.records, .error d⟩

instance : Monad Traced where
  pure := Traced.pure
  bind := Traced.bind

def fail (fault : Fault) (span : Span) : Traced α := ⟨[], .error (.located fault span)⟩

def record (rule : Rule) (subject : Subject) (value : α → Outcome) (x : Traced α) : Traced α :=
  let outcome := match x.result with
    | .ok a => value a
    | .error d => .failed d
  ⟨[.mk rule subject x.records outcome], x.result⟩

def each (f : α → Traced β) : List α → Traced (List β)
  | [] => pure []
  | a :: as => do
      let b ← f a
      let bs ← each f as
      return b :: bs

def lines (x : Traced α) : List String := Record.linesAll 1 x.records

end Traced

end Structura
