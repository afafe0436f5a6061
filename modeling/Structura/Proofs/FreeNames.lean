import Structura.Proofs.ComparedJudgments
import Structura.Proofs.FailureIsolation

namespace Structura

open Comparison Traced

variable {settings : Settings} {env env' : Env} {name : String}

def otherBindings : Comparison := .strict (fun _ => False) fun cx cy => ∃ env, cy = { cx with env }

theorem lawful_otherBindings : otherBindings.Lawful := by
  refine lawful_strict ?_ ?_ ?_ ?_
  · rintro cx _ ⟨_, rfl⟩
    rfl
  · rintro cx _ ⟨_, rfl⟩ env env'
    exact ⟨env', rfl⟩
  · rintro cx _ ⟨env, rfl⟩ span
    rw [Context.descend, Context.descend]
    split
    · exact linked_pure ⟨⟨⟨env, rfl⟩, rfl⟩, rfl, rfl⟩
    · exact linked_fail rfl
  · rintro cx _ ⟨⟨env, rfl⟩, -⟩ count
    rw [Context.checkBranches, Context.checkBranches]
    split
    · exact linked_pure trivial
    · exact linked_fail rfl

theorem result_eq_of_otherBindings {α : Type} {like : α → α → Prop} (hlike : ∀ a b, like a b → a = b)
    {x y : Traced α} (h : otherBindings.Linked like x y) : y.result = x.result :=
  result_eq_of_strict hlike h fun _ _ => not_false

/-- Annotations look up no names. -/
theorem TypeExpr.convert_setEnv (e : TypeExpr) (cx : Context) (env : Env) :
    (e.convert { cx with env }).result = (e.convert cx).result :=
  result_eq_of_otherBindings (fun _ _ => id) (e.linked_convert lawful_otherBindings ⟨env, rfl⟩)

theorem Expr.compared_otherBindings {e : Expr} {cx : Context}
    (h : ∀ x, e.hasFree x = true → cx.env.get? x = env.get? x) :
    e.judgments.Compared otherBindings cx { cx with env } := by
  refine e.compared_judgments lawful_otherBindings ⟨env, rfl⟩ fun x hx => ?_
  rw [h x hx]
  exact optionRel_refl (fun _ => rfl) _

theorem Expr.synth_setEnv {e : Expr} (cx : Context)
    (h : ∀ x, e.hasFree x = true → cx.env.get? x = env.get? x) :
    (e.synth { cx with env }).result = (e.synth cx).result :=
  result_eq_of_otherBindings (fun _ _ => id) (compared_otherBindings h).synth

theorem Expr.check_setEnv {e : Expr} (cx : Context)
    (h : ∀ x, e.hasFree x = true → cx.env.get? x = env.get? x) (t : Ty) :
    (e.check { cx with env } t).result = (e.check cx t).result :=
  result_eq_of_otherBindings (fun _ _ _ => rfl) ((compared_otherBindings h).check rfl)

def Env.AgreeBut (name : String) (env env' : Env) : Prop := ∀ x, x ≠ name → env.get? x = env'.get? x

namespace Env.AgreeBut

theorem set (h : AgreeBut name env env') (other : String) (t : Ty) :
    AgreeBut name (env.set other t) (env'.set other t) := by
  intro x hx
  rw [get?_set, get?_set, h x hx]

theorem setResult (h : AgreeBut name env env') (other : String) {x y : Traced Ty}
    (hxy : y.result = x.result) : AgreeBut name (env.setResult other x) (env'.setResult other y) := by
  cases hx : x.result with
  | ok t =>
      rw [setResult_of_ok hx, setResult_of_ok (hxy.trans hx)]
      exact h.set other t
  | error d =>
      rw [setResult_of_error hx, setResult_of_error (hxy.trans hx)]
      exact h

theorem free {e : Expr} (h : AgreeBut name env env') (he : e.hasFree name = false) (x : String)
    (hx : e.hasFree x = true) : env.get? x = env'.get? x := by
  refine h x ?_
  rintro rfl
  rw [he] at hx
  cases hx

end Env.AgreeBut

theorem Env.agreeBut_set (env : Env) (name : String) (t : Ty) : AgreeBut name env (env.set name t) := by
  intro x hx
  rw [get?_set, if_neg hx]

namespace Statement

def hasFree (name : String) : Statement → Bool
  | .declare _ _ _ => false
  | .bind _ _ _ value => value.hasFree name
  | .eval _ value => value.hasFree name

/-- A binding that is not looked up changes no outcome, and after the statement it is still the only one in which
the environments may differ. -/
theorem judge_agreeBut (settings : Settings) {s : Statement} (h : env.AgreeBut name env') (hs : s.hasFree name = false) :
    (s.judge settings env').outcome.result = (s.judge settings env).outcome.result ∧
      (s.judge settings env).env.AgreeBut name (s.judge settings env').env := by
  match s with
  | .declare span n type =>
      have htype := type.convert_setEnv (.top env settings span) env'
      exact ⟨result_map_congr htype _, h.setResult n.text htype⟩
  | .bind span n none value =>
      have hvalue := Expr.synth_setEnv (.top env settings span) (h.free hs)
      exact ⟨result_map_congr hvalue _, h.setResult n.text hvalue⟩
  | .bind span n (some type) value =>
      have htype := type.convert_setEnv (.top env settings span) env'
      refine ⟨result_bind_congr htype fun t => ?_, h.setResult n.text htype⟩
      exact result_bind_congr (Expr.check_setEnv (.top env settings span) (h.free hs) t) fun _ => rfl
  | .eval span value =>
      exact ⟨result_map_congr (Expr.synth_setEnv (.top env settings span) (h.free hs)) _, h⟩

end Statement

namespace Program

def shown (v : Verdict) : Span × Except Diagnostic Finding := (v.statement.span, v.outcome.result)

theorem judgeAll_agreeBut {ss : List Statement} (h : env.AgreeBut name env')
    (hss : ∀ s ∈ ss, s.hasFree name = false) :
    (judgeAll settings env' ss).map shown = (judgeAll settings env ss).map shown := by
  induction ss generalizing env env' with
  | nil => rfl
  | cons s ss ih =>
      obtain ⟨hs, hss⟩ := List.forall_mem_cons.mp hss
      obtain ⟨houtcome, henv⟩ := Statement.judge_agreeBut settings h hs
      refine congrArg₂ List.cons ?_ (ih henv hss)
      rw [shown, shown, s.statement_judge, s.statement_judge, houtcome]

end Program

/-- Environments that bind the free names of an expression alike lead to the same type or diagnostic. So a
statement that binds a name can be put before statements that do not look it up: they come out as before. -/
theorem free_names_decide :
    (∀ (e : Expr) (cx : Context) (env : Env),
      (∀ x, e.hasFree x = true → cx.env.get? x = env.get? x) →
      (e.synth { cx with env }).result = (e.synth cx).result ∧
      ∀ t, (e.check { cx with env } t).result = (e.check cx t).result) ∧
    ∀ (settings : Settings) (env : Env) (before after : List Statement) (s : Statement) (name : String)
      (t : Ty),
      (s.judge settings (Program.finalEnv env (Program.judgeAll settings env before))).outcome.result =
        .ok (.binding name t) →
      (∀ r ∈ after, r.hasFree name = false) →
      ∃ front v back back', Program.judgeAll settings env (before ++ s :: after) = front ++ v :: back ∧
        Program.judgeAll settings env (before ++ after) = front ++ back' ∧
        front.map Verdict.statement = before ∧ v.statement = s ∧ back'.map Verdict.statement = after ∧
        back.map Program.shown = back'.map Program.shown := by
  refine ⟨fun e cx env h => ⟨Expr.synth_setEnv cx h, Expr.check_setEnv cx h⟩, ?_⟩
  intro settings env before after s name t hbinds hafter
  refine ⟨_, _, _, _, Program.judgeAll_append before (s :: after), Program.judgeAll_append before after,
    Program.statements_judgeAll before, s.statement_judge, Program.statements_judgeAll after, ?_⟩
  refine Program.judgeAll_agreeBut ?_ hafter
  rw [Statement.env_judge_of_binding hbinds]
  exact Env.agreeBut_set _ name t

/-- `(x: null, x: boolean) => x === y`, in which `x` is not free. -/
def comparesLastParam : Expr :=
  .function default [.typed ⟨"x", default⟩ (.prim default .null), .typed ⟨"x", default⟩ (.prim default .boolean)]
    (.binary default .equal (.ident default "x") (.ident default "y"))

def bindsY : Statement := .bind default ⟨"y", default⟩ none (.null default)

def bindsX : Statement := .bind default ⟨"x", default⟩ none (.ident default "y")

theorem free_names_decide_shadowed :
    ((comparesLastParam.synth (.top ((Env.empty.set "y" .null).set "x" .string) {} default)).result =
        (comparesLastParam.synth (.top (Env.empty.set "y" .null) {} default)).result ∧
      (comparesLastParam.synth (.top (Env.empty.set "y" .null) {} default)).result =
        .ok (.function [.null, .boolean] .boolean)) ∧
    ∃ front v back back',
      Program.judgeAll {} .empty [bindsY, bindsX, .eval default comparesLastParam] = front ++ v :: back ∧
      Program.judgeAll {} .empty [bindsY, .eval default comparesLastParam] = front ++ back' ∧
      back'.map Verdict.statement = [.eval default comparesLastParam] ∧
      back.map Program.shown = back'.map Program.shown := by
  have hfree (x : String) (hx : comparesLastParam.hasFree x = true) : x = "y" := by
    have hx : ¬"x" = x ∧ ("x" = x ∨ "y" = x) := by
      simpa [comparesLastParam, Expr.hasFree, Signature.name] using hx
    exact (hx.2.resolve_left hx.1).symm
  refine ⟨⟨(free_names_decide.1 comparesLastParam (.top (Env.empty.set "y" .null) {} default) _ ?_).1, rfl⟩, ?_⟩
  · intro x hx
    rw [hfree x hx]
    rfl
  · obtain ⟨front, v, back, back', hwith, hwithout, -, -, hafter, hshown⟩ :=
      free_names_decide.2 {} .empty [bindsY] [.eval default comparesLastParam] bindsX "x" .null rfl
        (List.forall_mem_singleton.mpr rfl)
    exact ⟨front, v, back, back', hwith, hwithout, hafter, hshown⟩

end Structura
