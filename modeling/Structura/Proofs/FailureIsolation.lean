import Structura.Program
import Structura.Proofs.Successes

namespace Structura

open Traced

variable {settings : Settings} {env : Env}

/-- Where an annotation stands shows in its faults only. -/
theorem TypeExpr.convert_top_eq_ok {e : TypeExpr} {span : Span} {t : Ty}
    (h : (e.convert (.top env settings span)).result = .ok t) (span' : Span) :
    (e.convert (.top env settings span')).result = .ok t := by
  rw [convert, Context.judge_eq_ok] at h ⊢
  exact h

theorem Env.setResult_of_ok {name : String} {x : Traced Ty} {t : Ty} (h : x.result = .ok t) :
    env.setResult name x = env.set name t := by
  rw [setResult, h]

theorem Env.setResult_of_error {name : String} {x : Traced Ty} {d : Diagnostic}
    (h : x.result = .error d) : env.setResult name x = env := by
  rw [setResult, h]

namespace Statement

/-- Statements that bind nothing: they only look at a value, or what they would bind is not found. -/
inductive BindsNothing (settings : Settings) (env : Env) : Statement → Prop
  | eval (span : Span) (value : Expr) : BindsNothing settings env (.eval span value)
  | declare {span : Span} {name : Name} {type : TypeExpr} {d : Diagnostic} :
      (type.convert (.top env settings span)).result = .error d →
      BindsNothing settings env (.declare span name type)
  | bindTyped {span : Span} {name : Name} {type : TypeExpr} {value : Expr} {d : Diagnostic} :
      (type.convert (.top env settings span)).result = .error d →
      BindsNothing settings env (.bind span name (some type) value)
  | bind {span : Span} {name : Name} {value : Expr} {d : Diagnostic} :
      (value.synth (.top env settings span)).result = .error d →
      BindsNothing settings env (.bind span name none value)

theorem statement_judge (s : Statement) : (s.judge settings env).statement = s := by
  match s with
  | .declare _ _ _ | .bind _ _ none _ | .bind _ _ (some _) _ | .eval _ _ => rfl

theorem BindsNothing.env_judge {s : Statement} (h : s.BindsNothing settings env) :
    (s.judge settings env).env = env := by
  cases h with
  | eval => rfl
  | declare hd | bindTyped hd | bind hd => exact Env.setResult_of_error hd

section

variable {span : Span} {type : TypeExpr} {t : Ty}

/-- The annotation is bound whatever the value is. -/
theorem env_judge_bindTyped (name : Name) (value : Expr)
    (h : (type.convert (.top env settings span)).result = .ok t) :
    ((Statement.bind span name (some type) value).judge settings env).env = env.set name.text t :=
  Env.setResult_of_ok h

theorem env_judge_declare (name : Name) (h : (type.convert (.top env settings span)).result = .ok t) :
    ((Statement.declare span name type).judge settings env).env = env.set name.text t :=
  Env.setResult_of_ok h

theorem result_judge_declare (name : Name)
    (h : (type.convert (.top env settings span)).result = .ok t) :
    ((Statement.declare span name type).judge settings env).outcome.result = .ok (.binding name.text t) :=
  map_eq_ok.mpr ⟨t, h, rfl⟩

/-- The value is checked in the environment before the name is bound. -/
theorem result_judge_bindTyped (name : Name) (value : Expr)
    (h : (type.convert (.top env settings span)).result = .ok t) :
    ((Statement.bind span name (some type) value).judge settings env).outcome.result =
      (value.check (.top env settings span) t).result.map fun _ => .binding name.text t := by
  change (type.convert (.top env settings span) >>= fun t => value.check (.top env settings span) t >>=
    fun _ => pure (Finding.binding name.text t)).result = _
  rw [result_bind_ok h]
  cases hcheck : (value.check (.top env settings span) t).result with
  | ok _ => exact result_bind_ok hcheck _
  | error d => exact result_bind_error hcheck _

/-- A statement that finds a binding makes it. -/
theorem env_judge_of_binding {s : Statement} {name : String}
    (h : (s.judge settings env).outcome.result = .ok (.binding name t)) :
    (s.judge settings env).env = env.set name t := by
  match s with
  | .declare _ _ _ | .bind _ _ none _ =>
      obtain ⟨u, hu, heq⟩ := map_eq_ok.mp h
      cases heq
      exact Env.setResult_of_ok hu
  | .bind _ _ (some _) _ =>
      obtain ⟨u, hu, h⟩ := bind_eq_ok.mp h
      obtain ⟨_, -, h⟩ := bind_eq_ok.mp h
      cases h
      exact Env.setResult_of_ok hu
  | .eval _ _ =>
      obtain ⟨u, -, heq⟩ := map_eq_ok.mp h
      cases heq

end

end Statement

namespace Program

theorem finalEnv_append (vs ws : List Verdict) :
    finalEnv env (vs ++ ws) = finalEnv (finalEnv env vs) ws := by
  induction vs generalizing env with
  | nil => rfl
  | cons v vs ih => exact ih

theorem judgeAll_append (ss ts : List Statement) :
    judgeAll settings env (ss ++ ts) =
      judgeAll settings env ss ++ judgeAll settings (finalEnv env (judgeAll settings env ss)) ts := by
  induction ss generalizing env with
  | nil => rfl
  | cons s ss ih => exact congrArg (_ :: ·) ih

theorem statements_judgeAll (ss : List Statement) :
    (judgeAll settings env ss).map Verdict.statement = ss := by
  induction ss generalizing env with
  | nil => rfl
  | cons s ss ih => exact congrArg₂ (· :: ·) s.statement_judge ih

/-- All statements are judged, in their order, each in the environment that the one before it leaves. What a
statement finds to be bound is bound in the one that it leaves. Leaving out a statement that binds nothing changes
nothing for the others and for the environment at the end; nor does putting a declaration for an annotated name, which
is bound whatever its value is, and whose value is checked before it is bound. -/
theorem failures_isolated (settings : Settings) (env : Env) (before : List Statement) (s : Statement)
    (after : List Statement) :
    ∃ front v back, judgeAll settings env (before ++ s :: after) = front ++ v :: back ∧
      front.map Verdict.statement = before ∧ v.statement = s ∧ back.map Verdict.statement = after ∧
      front = judgeAll settings env before ∧ back = judgeAll settings v.env after ∧
      (∀ name t, v.outcome.result = .ok (.binding name t) → v.env = (finalEnv env front).set name t) ∧
      (s.BindsNothing settings (finalEnv env front) →
        judgeAll settings env (before ++ after) = front ++ back ∧
        finalEnv env (front ++ back) = finalEnv env (front ++ v :: back)) ∧
      ∀ span name type value t, s = .bind span name (some type) value →
        (type.convert (.top (finalEnv env front) settings span)).result = .ok t →
        v.outcome.result = ((value.check (.top (finalEnv env front) settings span) t).result.map
          fun _ => .binding name.text t) ∧
        v.env = (finalEnv env front).set name.text t ∧
        ∀ span', ∃ v', judgeAll settings env (before ++ .declare span' name type :: after) =
            front ++ v' :: back ∧
          v'.env = (finalEnv env front).set name.text t ∧ v'.outcome.result = .ok (.binding name.text t) ∧
          finalEnv env (front ++ v' :: back) = finalEnv env (front ++ v :: back) := by
  have hrun (s : Statement) : judgeAll settings env (before ++ s :: after) = _ := judgeAll_append _ _
  generalize hfront : judgeAll settings env before = front at hrun
  refine ⟨front, _, _, hrun s, hfront ▸ statements_judgeAll before, s.statement_judge,
    statements_judgeAll after, rfl, rfl, fun name t ht => Statement.env_judge_of_binding ht,
    fun hs => ⟨?_, ?_⟩, ?_⟩
  · rw [judgeAll_append, hfront, hs.env_judge]
  · rw [finalEnv_append, finalEnv_append, finalEnv, hs.env_judge]
  · rintro span name type value t rfl ht
    have henv := Statement.env_judge_bindTyped name value ht
    refine ⟨Statement.result_judge_bindTyped name value ht, henv, fun span' => ?_⟩
    have ht' := TypeExpr.convert_top_eq_ok ht span'
    have henv' := Statement.env_judge_declare name ht'
    refine ⟨_, ?_, henv', Statement.result_judge_declare name ht', ?_⟩
    · rw [hrun, judgeAll, henv, henv']
    · rw [finalEnv_append, finalEnv_append, finalEnv, finalEnv, henv, henv']

def unboundValue : Statement := .bind default ⟨"a", default⟩ none (.ident default "nope")

/-- `let p: { x: null } = {};` -/
def missingValue : Statement :=
  .bind default ⟨"p", default⟩ (some (.object default [.typed ⟨"x", default⟩ (.prim default .null)]))
    (.object default [])

def access : Statement := .eval default (.member default (.ident default "p") ⟨"x", default⟩)

/-- The first statement can be left out, and the second can be a declaration. -/
theorem failures_isolated_twice :
    (∃ v back, judgeAll {} .empty [unboundValue, missingValue, access] = v :: back ∧
      unboundValue.BindsNothing {} .empty ∧ judgeAll {} .empty [missingValue, access] = back) ∧
    ∃ front v v' back, judgeAll {} .empty [unboundValue, missingValue, access] = front ++ v :: back ∧
      v.outcome.result = .error (.located (.missingProperty "x") default) ∧
      v.env = (finalEnv .empty front).set "p" (.object [("x", .null)]) ∧
      judgeAll {} .empty [unboundValue, .declare default ⟨"p", default⟩
        (.object default [.typed ⟨"x", default⟩ (.prim default .null)]), access] = front ++ v' :: back ∧
      v'.outcome.result = .ok (.binding "p" (.object [("x", .null)])) := by
  constructor
  · obtain ⟨front, v, back, hrun, hfront, -, -, -, -, -, hskip, -⟩ :=
      failures_isolated {} .empty [] unboundValue [missingValue, access]
    obtain rfl := List.map_eq_nil_iff.mp hfront
    have hfails : unboundValue.BindsNothing {} .empty := .bind rfl
    exact ⟨v, back, hrun, hfails, (hskip hfails).1⟩
  · obtain ⟨front, v, back, hrun, -, -, -, -, -, -, -, hdeclare⟩ :=
      failures_isolated {} .empty [unboundValue] missingValue [access]
    obtain ⟨houtcome, henv, hdeclare⟩ := hdeclare _ _ _ _ (.object [("x", .null)]) rfl rfl
    obtain ⟨v', hrun', -, houtcome', -⟩ := hdeclare default
    exact ⟨front, v, v', back, hrun, houtcome, henv, hrun', houtcome'⟩

end Program

end Structura
