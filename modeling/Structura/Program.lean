import Structura.Judgment
import Structura.Parser

namespace Structura

inductive Finding where
  | binding (name : String) (type : Ty)
  | value (type : Ty)

def Finding.render : Finding → String
  | .binding name t => name ++ ": " ++ t.render
  | .value t => t.render

structure Verdict where
  statement : Statement
  outcome : Traced Finding
  env : Env

namespace Verdict

def failure? (v : Verdict) : Option Diagnostic :=
  match v.outcome.result with
  | .ok _ => none
  | .error d => some d

def finding? (v : Verdict) : Option Finding :=
  match v.outcome.result with
  | .ok finding => some finding
  | .error _ => none

def render (code : String) (v : Verdict) : String :=
  match v.outcome.result with
  | .ok finding => finding.render
  | .error d => Diagnostic.summary code { d with span := some (d.span.getD v.statement.span) }

def traceLines (v : Verdict) : List String :=
  v.outcome.lines ++
    match v.failure? with
    | some d => [.join ["0 statement failed: ", d.message, " kind=", d.kind.render]]
    | none => []

end Verdict

def Env.setResult (env : Env) (name : String) (t : Traced Ty) : Env :=
  match t.result with
  | .ok t => env.set name t
  | .error _ => env

/-- Judges a statement. An annotated name is bound to its annotation even if the value does not have
that type; otherwise a statement that fails binds nothing. -/
def Statement.judge (settings : Settings) (env : Env) (s : Statement) : Verdict :=
  let cx := Context.top env settings s.span
  match s with
  | .declare _ name type =>
      let t := type.convert cx
      ⟨s, .binding name.text <$> t, env.setResult name.text t⟩
  | .bind _ name none value =>
      let t := value.synth cx
      ⟨s, .binding name.text <$> t, env.setResult name.text t⟩
  | .bind _ name (some type) value =>
      let t := type.convert cx
      let outcome : Traced Finding := do
        let t ← t
        value.check cx t
        return .binding name.text t
      ⟨s, outcome, env.setResult name.text t⟩
  | .eval _ value => ⟨s, .value <$> value.synth cx, env⟩

namespace Program

def judgeAll (settings : Settings) (env : Env) : List Statement → List Verdict
  | [] => []
  | s :: ss =>
      let v := s.judge settings env
      v :: judgeAll settings v.env ss

def finalEnv (env : Env) : List Verdict → Env
  | [] => env
  | v :: vs => finalEnv v.env vs

/-- Reads and judges a program. Only a text that cannot be read stops it as a whole. -/
def check (settings : Settings) (env : Env) (code : String) : Except Diagnostic (List Verdict) :=
  (judgeAll settings env ·) <$> Statement.parseAll code

def failures (verdicts : List Verdict) : List Diagnostic := verdicts.filterMap Verdict.failure?

def renderVerdicts (code : String) (verdicts : List Verdict) : String :=
  "\n".intercalate (verdicts.map (Verdict.render code))

def render (settings : Settings) (env : Env) (code : String) : String :=
  match check settings env code with
  | .ok verdicts => renderVerdicts code verdicts
  | .error d => d.summary code

def reports? (code file : String) (verdicts : List Verdict) : Option (List String) :=
  (failures verdicts).mapM (Diagnostic.report? code file)

end Program

end Structura
