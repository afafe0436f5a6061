import Structura.Number.Shortest

namespace Structura

inductive Primitive where
  | null
  | boolean
  | number
  | string
deriving DecidableEq, Repr, Inhabited

namespace Primitive

def render : Primitive → String
  | .null => "null"
  | .boolean => "boolean"
  | .number => "number"
  | .string => "string"

end Primitive

inductive Literal where
  | boolean (value : Bool)
  | number (value : Binary64)
  | string (value : String)
deriving DecidableEq, Inhabited

def renderBool (b : Bool) : String := if b then "true" else "false"

namespace Literal

def base : Literal → Primitive
  | .boolean _ => .boolean
  | .number _ => .number
  | .string _ => .string

def isTruthy : Literal → Bool
  | .boolean b => b
  | .number n => !n.isZero && !n.isNaN
  | .string s => s != ""

def strictEq : Literal → Literal → Bool
  | .boolean a, .boolean b => a == b
  | .number a, .number b => a.numericEq b
  | .string a, .string b => a == b
  | _, _ => false

/-- Whether the two values name the same singleton type. Unlike in `strictEq`, `nan` is itself. -/
def same : Literal → Literal → Bool
  | .number a, .number b => a.numericEq b || (a.isNaN && b.isNaN)
  | a, b => strictEq a b

def render : Literal → String
  | .boolean b => renderBool b
  | .number n => n.render
  | .string s => "'" ++ s ++ "'"

end Literal

end Structura
