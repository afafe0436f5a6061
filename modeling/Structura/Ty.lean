import Structura.Literal
import Structura.Repeat

namespace Structura

inductive Ty where
  | never
  | unknown
  | prim (primitive : Primitive)
  | literal (value : Literal)
  | object (properties : List (String × Ty))
  | function (params : List Ty) (result : Ty)
  | union (members : List Ty)
  | inter (members : List Ty)
deriving Inhabited

namespace Ty

abbrev null : Ty := .prim .null

abbrev boolean : Ty := .prim .boolean

abbrev number : Ty := .prim .number

abbrev string : Ty := .prim .string

def branches : Ty → List Ty
  | .union members => members
  | t => [t]

def factors : Ty → List Ty
  | .inter members => members
  | t => [t]

def property? (name : String) : Ty → Option Ty
  | .object properties => properties.lookup name
  | _ => none

def object? (properties : List (String × Ty)) : Except String Ty :=
  match firstRepeat? Prod.fst [] properties with
  | some (name, _) => .error name
  | none => .ok (.object properties)

mutual

def isTruthy : Ty → Bool
  | .literal value => value.isTruthy
  | .union members => allTruthy members
  | .inter members => someTruthy members
  | _ => false

def allTruthy : List Ty → Bool
  | [] => true
  | t :: ts => t.isTruthy && allTruthy ts

def someTruthy : List Ty → Bool
  | [] => false
  | t :: ts => t.isTruthy || someTruthy ts

end

mutual

def isFalsy : Ty → Bool
  | .prim .null => true
  | .literal value => !value.isTruthy
  | .union members => allFalsy members
  | .inter members => someFalsy members
  | _ => false

def allFalsy : List Ty → Bool
  | [] => true
  | t :: ts => t.isFalsy && allFalsy ts

def someFalsy : List Ty → Bool
  | [] => false
  | t :: ts => t.isFalsy || someFalsy ts

end

/-- Whether the text of a type needs parentheses as an alternative. -/
def isFunction : Ty → Bool
  | .function _ _ => true
  | _ => false

def isUnion : Ty → Bool
  | .union _ => true
  | _ => false

def parenthesize (needed : Bool) (text : String) : String :=
  if needed then "(" ++ text ++ ")" else text

mutual

def render : Ty → String
  | .never => "never"
  | .unknown => "unknown"
  | .prim p => p.render
  | .literal value => value.render
  | .object [] => "\x7b\x7d"
  | .object (p :: ps) => "\x7b " ++ ", ".intercalate (renderProperties (p :: ps)) ++ " \x7d"
  | .function params result => "(" ++ ", ".intercalate (renderAll params) ++ ") => " ++ result.render
  | .union members => " | ".intercalate (renderBranches members)
  | .inter members => " & ".intercalate (renderFactors members)

def renderAll : List Ty → List String
  | [] => []
  | t :: ts => t.render :: renderAll ts

def renderProperties : List (String × Ty) → List String
  | [] => []
  | (name, t) :: ps => (name ++ ": " ++ t.render) :: renderProperties ps

def renderBranches : List Ty → List String
  | [] => []
  | t :: ts => parenthesize t.isFunction t.render :: renderBranches ts

def renderFactors : List Ty → List String
  | [] => []
  | t :: ts => parenthesize (t.isFunction || t.isUnion) t.render :: renderFactors ts

end

end Ty

end Structura
