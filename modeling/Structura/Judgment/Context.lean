import Structura.Env
import Structura.Trace
import Structura.Ty.Lattice

namespace Structura

inductive LiteralPolicy where
  | singleton
  | primitive
deriving DecidableEq, Repr, Inhabited

structure Settings where
  literals : LiteralPolicy := .singleton
  maxDepth : Nat := 128
  maxBranches : Nat := 4096
deriving DecidableEq, Repr, Inhabited

structure Context where
  env : Env
  settings : Settings
  span : Span
  depth : Nat

namespace Context

def top (env : Env) (settings : Settings) (span : Span) : Context := ⟨env, settings, span, 0⟩

def bind (cx : Context) (name : String) (t : Ty) : Context := { cx with env := cx.env.set name t }

def literal (cx : Context) (value : Literal) : Ty :=
  match cx.settings.literals with
  | .singleton => .literal value
  | .primitive => .prim value.base

def fail {α : Type} (cx : Context) (fault : Fault) : Traced α := .fail fault cx.span

def object (cx : Context) (properties : List (String × Ty)) : Traced Ty :=
  match Ty.object? properties with
  | .ok t => pure t
  -- The rules refuse a repeated name where it is written, so none is left to be found here.
  | .error name => cx.fail (.duplicateProperty name)

def descend (cx : Context) (span : Span) : Traced Context :=
  if cx.depth < cx.settings.maxDepth then pure { cx with span, depth := cx.depth + 1 }
  else cx.fail (.tooDeep cx.settings.maxDepth)

def judge {α : Type} (cx : Context) (span : Span) (rule : Rule) (subject : Subject)
    (value : α → Outcome) (body : Context → Traced α) : Traced α := do
  let cx ← cx.descend span
  Traced.record rule subject value (body cx)

def checkBranches (cx : Context) (count : Nat) : Traced Unit :=
  if count ≤ cx.settings.maxBranches then pure ()
  else cx.fail (.tooManyBranches count cx.settings.maxBranches)

/-- Applies a rule for types that are not unions to every branch of a type. -/
def onBranches (cx : Context) (rule : Rule) (t : Ty) (body : Ty → Traced Ty) : Traced Ty :=
  let onBranch (b : Ty) : Traced Ty := Traced.record rule (.branch b) .type (body b)
  match t with
  | .union members => do
      cx.checkBranches members.length
      let results ← Traced.each onBranch members
      return Ty.join results
  | t => onBranch t

def onPairs (cx : Context) (rule : Rule) (left right : Ty) (body : Ty → Ty → Traced Ty) :
    Traced Ty :=
  let onPair (p : Ty × Ty) : Traced Ty :=
    Traced.record rule (.pair p.1 p.2) .type (body p.1 p.2)
  if left.isUnion || right.isUnion then do
    cx.checkBranches (left.branches.length * right.branches.length)
    let pairs := left.branches.flatMap fun l => right.branches.map fun r => (l, r)
    let results ← Traced.each onPair pairs
    return Ty.join results
  else onPair (left, right)

end Context

end Structura
