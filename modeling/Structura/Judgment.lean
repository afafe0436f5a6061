import Structura.Judgment.Rules

namespace Structura

mutual

def Expr.judgments : Expr → Judgments
  | e@(.ident _ name) => .ofSynth e (Rules.ident name)
  | e@(.null _) => .ofSynth e fun _ => pure .null
  | e@(.literal _ value) => .ofSynth e fun cx => pure (cx.literal value)
  | e@(.object _ properties) => .ofObject e (Property.entries properties)
  | e@(.member _ object name) => .ofSynth e (Rules.member object object.judgments name)
  | e@(.computed _ _ _) => .ofSynth e fun cx => cx.fail .computedMember
  | e@(.ascription _ subject type) => .ofSynth e (Rules.ascription subject.judgments type)
  | e@(.function _ params body) => .ofSynth e (Rules.function params body.judgments)
  | e@(.call _ callee args) =>
      .ofSynth e (Rules.call callee callee.judgments (Expr.judgmentsAll args))
  | e@(.binary _ op left right) => .ofSynth e (Rules.binary op left.judgments right.judgments)
  | e@(.logical _ op left right) => .ofSynth e (Rules.logical op left.judgments right.judgments)
  | e@(.unary _ op operand) => .ofSynth e (Rules.unary op operand.judgments)

def Expr.judgmentsAll : List Expr → List Judgments
  | [] => []
  | e :: es => e.judgments :: Expr.judgmentsAll es

def Property.entries : List Property → List Entry
  | [] => []
  | .field name value :: ps => .field name value.judgments :: Property.entries ps
  | .spread value :: ps => .spread value.span :: Property.entries ps

end

def Expr.synth (cx : Context) (e : Expr) : Traced Ty := e.judgments.synth cx

def Expr.check (cx : Context) (e : Expr) (t : Ty) : Traced Unit := e.judgments.check cx t

end Structura
