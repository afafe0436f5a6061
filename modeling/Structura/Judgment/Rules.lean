import Structura.Judgment.Convert
import Structura.Judgment.Operator

namespace Structura

structure Judgments where
  synth : Context → Traced Ty
  check : Context → Ty → Traced Unit

inductive Entry where
  | field (name : Name) (value : Judgments)
  | spread (span : Span)

namespace Rules

def ident (name : String) (cx : Context) : Traced Ty :=
  match cx.env.get? name with
  | some t => pure t
  | none => cx.fail (.unbound name)

def synthFields (cx : Context) : List Entry → List String → Traced (List (String × Ty))
  | [], _ => pure []
  | .spread span :: _, _ => .fail .spreadProperty span
  | .field name value :: rest, seen =>
      if seen.contains name.text then .fail (.duplicateProperty name.text) name.span
      else do
        let t ← value.synth cx
        let ts ← synthFields cx rest (name.text :: seen)
        return (name.text, t) :: ts

def object (entries : List Entry) (cx : Context) : Traced Ty := do
  let properties ← synthFields cx entries []
  cx.object properties

def member (object : Expr) (judged : Judgments) (name : Name) (cx : Context) : Traced Ty := do
  let t ← judged.synth cx
  cx.onBranches .onMember t fun
    | .object properties =>
        match properties.lookup name.text with
        | some t => pure t
        | none => .fail (.noSuchProperty name.text) name.span
    | _ => .fail .memberOfNonObject object.span

def ascription (subject : Judgments) (type : TypeExpr) (cx : Context) : Traced Ty := do
  let t ← type.convert cx
  subject.check cx t
  return t

/-- The types of parameters, and the context with them in scope. Annotations do not see parameters. -/
def params (outer : Context) : List Signature → Context → Traced (List Ty × Context)
  | [], inner => pure ([], inner)
  | .bare name :: _, _ => .fail (.untypedParam name.text) name.span
  | .typed name e :: rest, inner => do
      let t ← e.convert outer
      let (ts, inner) ← params outer rest (inner.bind name.text t)
      return (t :: ts, inner)

def function (signature : List Signature) (body : Judgments) (cx : Context) : Traced Ty := do
  let (ts, inner) ← params cx signature cx
  let result ← body.synth inner
  return .function ts result

def checkArgs (cx : Context) : List Judgments → List Ty → Traced Unit
  | arg :: args, t :: ts => do
      arg.check cx t
      checkArgs cx args ts
  | _, _ => pure ()

def call (callee : Expr) (judged : Judgments) (args : List Judgments) (cx : Context) :
    Traced Ty := do
  let t ← judged.synth cx
  cx.onBranches .onCall t fun
    | .function ts result =>
        if ts.length = args.length then do
          checkArgs cx args ts
          return result
        else cx.fail (.wrongArity ts.length args.length)
    | _ => .fail .callOfNonFunction callee.span

def binary (op : BinaryOp) (left right : Judgments) (cx : Context) : Traced Ty := do
  let l ← left.synth cx
  let r ← right.synth cx
  cx.onPairs .onBinary l r (op.apply cx)

def logical (op : LogicalOp) (left right : Judgments) (cx : Context) : Traced Ty := do
  let l ← left.synth cx
  let r ← right.synth cx
  cx.onPairs .onLogical l r fun l r => pure (op.apply l r)

def unary (op : UnaryOp) (operand : Judgments) (cx : Context) : Traced Ty := do
  let t ← operand.synth cx
  cx.onBranches .onUnary t fun t => pure (op.apply t)

def checkBySynth (synth : Context → Traced Ty) (t : Ty) (cx : Context) : Traced Unit := do
  let s ← synth cx
  let fits ← Traced.record .isSubtype (.below s t) .truth (pure (s.isSubtype t))
  if fits then pure () else cx.fail (.mismatch t s)

def fields : List Entry → Traced (List (Name × Judgments))
  | [] => pure []
  | .spread span :: _ => .fail .spreadProperty span
  | .field name value :: rest => do
      let fs ← fields rest
      return (name, value) :: fs

def checkFields (cx : Context) (expected : List (String × Ty)) :
    List (Name × Judgments) → Traced Unit
  | [] => pure ()
  | (name, value) :: rest =>
      match expected.lookup name.text with
      | some t => do
          value.check cx t
          checkFields cx expected rest
      | none => .fail (.extraProperty name.text) name.span

/-- Checking an object property by property: every expected property has to be written and no
other. -/
def checkObject (entries : List Entry) (expected : List (String × Ty)) (cx : Context) :
    Traced Unit := do
  let fs ← fields entries
  match firstRepeat? (fun f => f.1.text) [] fs with
  | some (name, _) => .fail (.duplicateProperty name.text) name.span
  | none =>
      match expected.find? fun p => !fs.any fun f => f.1.text == p.1 with
      | some (name, _) => cx.fail (.missingProperty name)
      | none => checkFields cx expected fs

end Rules

namespace Judgments

def ofSynth (e : Expr) (rule : Context → Traced Ty) : Judgments :=
  let synth (cx : Context) : Traced Ty := cx.judge e.span .synth (.expr e) .type rule
  { synth
    check := fun cx t =>
      cx.judge e.span .check (.against e t) (fun _ => .holds) (Rules.checkBySynth synth t) }

def ofObject (e : Expr) (entries : List Entry) : Judgments :=
  let generic := ofSynth e (Rules.object entries)
  { synth := generic.synth
    check := fun cx t =>
      match t with
      | .object expected =>
          cx.judge e.span .check (.against e t) (fun _ => .holds) fun cx =>
            Traced.record .checkObject (.expr e) (fun _ => .holds)
              (Rules.checkObject entries expected cx)
      | _ => generic.check cx t }

end Judgments

end Structura
