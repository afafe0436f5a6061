import Structura.Expr

namespace Structura

inductive Statement where
  /-- Gives a name a type: `declare name: type;` -/
  | declare (span : Span) (name : Name) (type : TypeExpr)
  /-- Names a value, with or without an annotation on the name: `let name = value;` -/
  | bind (span : Span) (name : Name) (type : Option TypeExpr) (value : Expr)
  | eval (span : Span) (value : Expr)
deriving Inhabited

namespace Statement

def span : Statement → Span
  | .declare span _ _ => span
  | .bind span _ _ _ => span
  | .eval span _ => span

def render : Statement → String
  | .declare _ name type => "declare " ++ name.text ++ ": " ++ type.render ++ ";"
  | .bind _ name (some type) value =>
      "let " ++ name.text ++ ": " ++ type.render ++ " = " ++ value.render ++ ";"
  | .bind _ name none value => "let " ++ name.text ++ " = " ++ value.render ++ ";"
  | .eval _ value => value.render ++ ";"

end Statement

end Structura
