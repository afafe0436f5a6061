import Structura.TypeExpr

namespace Structura

inductive BinaryOp where
  | equal
  | notEqual
  | add
deriving DecidableEq, Repr, Inhabited

inductive LogicalOp where
  | and
  | or
deriving DecidableEq, Repr, Inhabited

inductive UnaryOp where
  | not
  | typeof
deriving DecidableEq, Repr, Inhabited

def BinaryOp.render : BinaryOp → String
  | .equal => "==="
  | .notEqual => "!=="
  | .add => "+"

def LogicalOp.render : LogicalOp → String
  | .and => "&&"
  | .or => "||"

def UnaryOp.render : UnaryOp → String
  | .not => "!"
  | .typeof => "typeof "

mutual

inductive Expr where
  | ident (span : Span) (name : String)
  | null (span : Span)
  | literal (span : Span) (value : Literal)
  | object (span : Span) (properties : List Property)
  | member (span : Span) (object : Expr) (name : Name)
  | computed (span : Span) (object index : Expr)
  | ascription (span : Span) (subject : Expr) (type : TypeExpr)
  | function (span : Span) (params : List Signature) (body : Expr)
  | call (span : Span) (callee : Expr) (args : List Expr)
  | binary (span : Span) (op : BinaryOp) (left right : Expr)
  | logical (span : Span) (op : LogicalOp) (left right : Expr)
  | unary (span : Span) (op : UnaryOp) (operand : Expr)

inductive Property where
  | field (name : Name) (value : Expr)
  | spread (value : Expr)

end

instance : Inhabited Expr := ⟨.null default⟩

def Expr.span : Expr → Span
  | .ident span _ => span
  | .null span => span
  | .literal span _ => span
  | .object span _ => span
  | .member span _ _ => span
  | .computed span _ _ => span
  | .ascription span _ _ => span
  | .function span _ _ => span
  | .call span _ _ => span
  | .binary span _ _ _ => span
  | .logical span _ _ _ => span
  | .unary span _ _ => span

mutual

def Expr.render : Expr → String
  | .ident _ name => name
  | .null _ => "null"
  | .literal _ value => value.source
  | .object _ [] => "\x7b\x7d"
  | .object _ (p :: ps) =>
      "\x7b " ++ ", ".intercalate (p.render :: Property.renderAll ps) ++ " \x7d"
  | .member _ object name => object.render ++ "." ++ name.text
  | .computed _ object index => object.render ++ "[" ++ index.render ++ "]"
  | .ascription _ subject type => "(" ++ subject.render ++ " as " ++ type.render ++ ")"
  | .function _ params body =>
      "((" ++ ", ".intercalate (Signature.renderAll params) ++ ") => " ++ body.render ++ ")"
  | .call _ callee args =>
      callee.render ++ "(" ++ ", ".intercalate (Expr.renderAll args) ++ ")"
  | .binary _ op left right => "(" ++ left.render ++ " " ++ op.render ++ " " ++ right.render ++ ")"
  | .logical _ op left right => "(" ++ left.render ++ " " ++ op.render ++ " " ++ right.render ++ ")"
  | .unary _ op operand => op.render ++ operand.render

def Expr.renderAll : List Expr → List String
  | [] => []
  | e :: es => e.render :: Expr.renderAll es

def Property.render : Property → String
  | .field name value => name.text ++ ": " ++ value.render
  | .spread value => "..." ++ value.render

def Property.renderAll : List Property → List String
  | [] => []
  | p :: ps => p.render :: Property.renderAll ps

end

end Structura
