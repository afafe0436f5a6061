import Structura.Literal
import Structura.Source.Span
import Structura.Text.Quoted

namespace Structura

structure Name where
  text : String
  span : Span
deriving DecidableEq, Repr, Inhabited

mutual

inductive TypeExpr where
  | prim (span : Span) (primitive : Primitive)
  | unknown (span : Span)
  | never (span : Span)
  | literal (span : Span) (value : Literal)
  | object (span : Span) (members : List Signature)
  | function (span : Span) (params : List Signature) (result : TypeExpr)
  | union (span : Span) (members : List TypeExpr)
  | inter (span : Span) (members : List TypeExpr)

inductive Signature where
  | bare (name : Name)
  | typed (name : Name) (type : TypeExpr)

end

instance : Inhabited TypeExpr := ⟨.unknown default⟩

def Signature.name : Signature → Name
  | .bare name => name
  | .typed name _ => name

def TypeExpr.span : TypeExpr → Span
  | .prim span _ => span
  | .unknown span => span
  | .never span => span
  | .literal span _ => span
  | .object span _ => span
  | .function span _ _ => span
  | .union span _ => span
  | .inter span _ => span

def Literal.source : Literal → String
  | .string s => Text.quoted s
  | value => value.render

mutual

def TypeExpr.render : TypeExpr → String
  | .prim _ p => p.render
  | .unknown _ => "unknown"
  | .never _ => "never"
  | .literal _ value => value.source
  | .object _ members => "\x7b " ++ "; ".intercalate (Signature.renderAll members) ++ " \x7d"
  | .function _ params result =>
      "((" ++ ", ".intercalate (Signature.renderAll params) ++ ") => " ++ result.render ++ ")"
  | .union _ members => "(" ++ " | ".intercalate (TypeExpr.renderAll members) ++ ")"
  | .inter _ members => "(" ++ " & ".intercalate (TypeExpr.renderAll members) ++ ")"

def TypeExpr.renderAll : List TypeExpr → List String
  | [] => []
  | t :: ts => t.render :: TypeExpr.renderAll ts

def Signature.render : Signature → String
  | .bare name => name.text
  | .typed name type => name.text ++ ": " ++ type.render

def Signature.renderAll : List Signature → List String
  | [] => []
  | s :: ss => s.render :: Signature.renderAll ss

end

end Structura
