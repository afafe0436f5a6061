import Structura.Judgment.Context

namespace Structura

mutual

def TypeExpr.convert (e : TypeExpr) (cx : Context) : Traced Ty :=
  cx.judge e.span .convert (.typeExpr e) .type fun cx =>
    match e with
    | .prim _ p => pure (.prim p)
    | .unknown _ => pure .unknown
    | .never _ => pure .never
    | .literal _ value => pure (.literal value)
    | .object _ members => do
        let properties ← Signature.convertMembers members cx []
        cx.object properties
    | .function _ params result => do
        let params ← Signature.convertParams params cx
        let result ← result.convert cx
        return .function params result
    | .union _ members => .join <$> TypeExpr.convertAll members cx
    | .inter _ members => do
        let members ← TypeExpr.convertAll members cx
        cx.checkBranches (Ty.distributionSize members)
        return .meet members

def TypeExpr.convertAll (es : List TypeExpr) (cx : Context) : Traced (List Ty) :=
  match es with
  | [] => pure []
  | e :: es => do
      let t ← e.convert cx
      let ts ← TypeExpr.convertAll es cx
      return t :: ts

def Signature.convertMembers (members : List Signature) (cx : Context) (seen : List String) :
    Traced (List (String × Ty)) :=
  match members with
  | [] => pure []
  | .bare name :: _ => .fail (.untypedSignature name.text) name.span
  | .typed name e :: rest =>
      if seen.contains name.text then .fail (.duplicateProperty name.text) name.span
      else do
        let t ← e.convert cx
        let ts ← Signature.convertMembers rest cx (name.text :: seen)
        return (name.text, t) :: ts

def Signature.convertParams (params : List Signature) (cx : Context) : Traced (List Ty) :=
  match params with
  | [] => pure []
  | .bare name :: _ => .fail (.untypedSignature name.text) name.span
  | .typed _ e :: rest => do
      let t ← e.convert cx
      let ts ← Signature.convertParams rest cx
      return t :: ts

end

end Structura
