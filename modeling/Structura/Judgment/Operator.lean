import Structura.Judgment.Context
import Structura.Ty.Same

namespace Structura

namespace Ty

mutual

def tag : Ty → Ty
  | .never => .never
  | .unknown => .string
  | .prim .null => .literal (.string "object")
  | .prim p => .literal (.string p.render)
  | .literal value => .literal (.string value.base.render)
  | .object _ => .literal (.string "object")
  | .function _ _ => .literal (.string "function")
  | .union members => join (tags members)
  | .inter members =>
      -- The members describe the same values, so they agree on the tag or there is no value.
      match tags members with
      | [] => .never
      | first :: rest => if rest.all (same · first) then first else .never

def tags : List Ty → List Ty
  | [] => []
  | t :: ts => t.tag :: tags ts

end

end Ty

def Ty.compare (expected : Bool) : Ty → Ty → Ty
  | .literal a, .literal b => .literal (.boolean (a.strictEq b == expected))
  | _, _ => .boolean

def Ty.add (cx : Context) (left right : Ty) : Traced Ty := do
  let numbers ← Traced.record .isSubtype (.bothBelow left right .number) .truth
    (pure (left.isSubtype .number && right.isSubtype .number))
  if !numbers then cx.fail .addOfNonNumber
  else
    match left, right with
    | .literal (.number a), .literal (.number b) => return .literal (.number (a + b))
    | .literal _, .literal _ => cx.fail .addOfOtherValues
    | _, _ => return .number

def BinaryOp.apply (cx : Context) (op : BinaryOp) (left right : Ty) : Traced Ty :=
  match op with
  | .equal => pure (left.compare true right)
  | .notEqual => pure (left.compare false right)
  | .add => left.add cx right

def LogicalOp.apply (op : LogicalOp) (left right : Ty) : Ty :=
  match op with
  | .and =>
      if left.isFalsy then left else if left.isTruthy then right else .join [left, right]
  | .or =>
      if left.isTruthy then left else if left.isFalsy then right else .join [left, right]

def UnaryOp.apply (op : UnaryOp) (operand : Ty) : Ty :=
  match op with
  | .not =>
      if operand.isTruthy then .literal (.boolean false)
      else if operand.isFalsy then .literal (.boolean true)
      else .boolean
  | .typeof => operand.tag

end Structura
