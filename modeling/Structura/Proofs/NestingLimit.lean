import Structura.Proofs.FreeNames
import Structura.Proofs.NestingDepth

namespace Structura

open Traced

namespace Expr

def negations : Nat → Expr
  | 0 => .null default
  | n + 1 => .unary default .not (negations n)

def nestedObjects : Nat → Expr
  | 0 => .object default []
  | n + 1 => .object default [.field ⟨"a", default⟩ (nestedObjects n)]

def nestedObjectsType : Nat → Ty
  | 0 => .object []
  | n + 1 => .object [("a", nestedObjectsType n)]

theorem height_negations (n : Nat) : (negations n).height = n + 1 := by
  induction n with
  | zero => rfl
  | succ n ih => rw [negations, height, ih]

theorem height_nestedObjects (n : Nat) : (nestedObjects n).height = n + 1 := by
  induction n with
  | zero => rfl
  | succ n ih =>
      rw [nestedObjects, height, Property.heightOfAll, Property.heightOfAll, ih]
      omega

/-- Negation goes down once for every operator. -/
theorem synth_negations (cx : Context) {n : Nat} (h : n + 1 ≤ cx.room) :
    ∃ t : Ty, ((negations n).synth cx).result = .ok t ∧ t.isUnion = false := by
  have hdepth : cx.depth < cx.settings.maxDepth := Context.room_pos_iff.mp (by omega)
  induction n generalizing cx with
  | zero => exact ⟨.null, Context.judge_eq_ok.mpr ⟨hdepth, rfl⟩, rfl⟩
  | succ n ih =>
      have hroom := cx.room_inner default
      obtain ⟨t, ht, hunion⟩ := ih { cx with span := default, depth := cx.depth + 1 } (by omega)
        (Context.room_pos_iff.mp (by omega))
      refine ⟨UnaryOp.not.apply t, Context.judge_eq_ok.mpr ⟨hdepth, bind_eq_ok.mpr ⟨t, ht, ?_⟩⟩, ?_⟩
      · cases t with
        | union => cases hunion
        | _ => rfl
      · unfold UnaryOp.apply
        split_ifs <;> rfl

/-- Objects are checked property by property, with no synthesis in between. -/
theorem check_nestedObjects (cx : Context) {n : Nat} (h : n + 1 ≤ cx.room) :
    ((nestedObjects n).check cx (nestedObjectsType n)).result = .ok () := by
  have hdepth : cx.depth < cx.settings.maxDepth := Context.room_pos_iff.mp (by omega)
  induction n generalizing cx with
  | zero => exact Context.judge_eq_ok.mpr ⟨hdepth, rfl⟩
  | succ n ih =>
      have hroom := cx.room_inner default
      have hvalue := ih { cx with span := default, depth := cx.depth + 1 } (by omega)
        (Context.room_pos_iff.mp (by omega))
      have hfields : (Rules.checkFields { cx with span := default, depth := cx.depth + 1 }
          [("a", nestedObjectsType n)] [(⟨"a", default⟩, (nestedObjects n).judgments)]).result = .ok () :=
        bind_eq_ok.mpr ⟨(), hvalue, rfl⟩
      exact Context.judge_eq_ok.mpr ⟨hdepth, bind_eq_ok.mpr ⟨_, rfl, hfields⟩⟩

end Expr

def Traced.TooDeep {α : Type} (x : Traced α) : Prop := ∃ d, x.result = .error d ∧ d.fault.isTooDeep = true

namespace Traced.TooDeep

variable {α β : Type} {x : Traced α} {f : α → Traced β}

theorem bind (h : x.TooDeep) : (x >>= f).TooDeep := by
  obtain ⟨d, hd, hdeep⟩ := h
  exact ⟨d, result_bind_error hd f, hdeep⟩

theorem bind_ok {a : α} (ha : x.result = .ok a) (h : (f a).TooDeep) : (x >>= f).TooDeep := by
  unfold TooDeep
  rwa [result_bind_ok ha]

theorem judge {cx : Context} {span : Span} {rule : Rule} {subject : Subject} {value : α → Outcome}
    {body : Context → Traced α}
    (h : cx.depth < cx.settings.maxDepth → (body { cx with span, depth := cx.depth + 1 }).TooDeep) :
    (cx.judge span rule subject value body).TooDeep := by
  by_cases hdepth : cx.depth < cx.settings.maxDepth
  · unfold TooDeep
    rw [Context.result_judge hdepth]
    exact h hdepth
  · refine ⟨.located (.tooDeep cx.settings.maxDepth) cx.span, ?_, rfl⟩
    rw [Context.judge, Context.descend, if_neg hdepth]
    rfl

end Traced.TooDeep

namespace Expr

def ascriptions : Nat → Expr
  | 0 => .null default
  | n + 1 => .ascription default (ascriptions n) (.prim default .null)

theorem height_ascriptions (n : Nat) : (ascriptions n).height = n + 1 := by
  induction n with
  | zero => rfl
  | succ n ih =>
      rw [ascriptions, height, ih, TypeExpr.height]
      omega

theorem tooDeep_check {e : Expr} (he : ∃ rule, e.judgments = .ofSynth e rule) {n : Nat}
    (hsynth : ∀ cx : Context, cx.room < n → (e.synth cx).TooDeep) {cx : Context} (h : cx.room < n + 1) (t : Ty) :
    (e.check cx t).TooDeep := by
  obtain ⟨rule, he⟩ := he
  have hroom := cx.room_inner e.span
  rw [check, he]
  refine TooDeep.judge fun hdepth => TooDeep.bind ?_
  have hinner := hsynth { cx with span := e.span, depth := cx.depth + 1 } (by
    have := Context.room_pos_iff.mpr hdepth
    omega)
  rwa [synth, he] at hinner

/-- Every ascription goes down twice, to check its subject and to synthesize what is checked. -/
theorem tooDeep_ascriptions (n : Nat) (cx : Context) (h : cx.room < 2 * n + 1) :
    ((ascriptions n).synth cx).TooDeep := by
  induction n generalizing cx with
  | zero => exact TooDeep.judge fun hdepth => absurd (Context.room_pos_iff.mpr hdepth) (by omega)
  | succ n ih =>
      have hroom := cx.room_inner default
      have hsubject : ∃ rule, (ascriptions n).judgments = .ofSynth (ascriptions n) rule := by
        cases n <;> exact ⟨_, rfl⟩
      refine TooDeep.judge fun hdepth => ?_
      have hpos := Context.room_pos_iff.mpr hdepth
      by_cases htype : 0 < Context.room { cx with span := default, depth := cx.depth + 1 }
      · have hnull : (TypeExpr.convert (.prim default .null)
            { cx with span := default, depth := cx.depth + 1 }).result = .ok .null := by
          rw [TypeExpr.convert]
          exact Context.judge_eq_ok.mpr ⟨Context.room_pos_iff.mp htype, rfl⟩
        have hinner : Context.room { cx with span := default, depth := cx.depth + 1 } < 2 * n + 1 + 1 := by omega
        exact TooDeep.bind_ok hnull (TooDeep.bind (tooDeep_check hsubject ih hinner .null))
      · refine TooDeep.bind ?_
        rw [TypeExpr.convert]
        exact TooDeep.judge fun hdepth => absurd (Context.room_pos_iff.mpr hdepth) htype

end Expr

/-- Annotations do not look at the environment, so nothing has to be known of it. -/
theorem TypeExpr.height_le_of_convert {e : TypeExpr} {cx : Context} {t : Ty} (h : (e.convert cx).result = .ok t) :
    e.height ≤ cx.room := by
  rw [← e.convert_setEnv cx .empty] at h
  exact (e.takes_convert { cx with env := .empty }).least_le h (Env.all_empty _)

theorem Context.Takes.not_isTooDeep {α : Type} {cx : Context} {least most : Nat} {x : Traced α}
    (h : cx.Takes least most x) (hroom : most ≤ cx.room) {d : Diagnostic} (hd : x.result = .error d) :
    d.fault.isTooDeep = false := by
  refine Bool.eq_false_iff.mpr fun hdeep => ?_
  have := h.lt_most hd hdeep
  omega

/-- The limit on nesting, from both sides. Whatever succeeds is no higher than the limit, and nothing is too deep as
long as twice the height is within the limit, less one for synthesis. For annotations the height itself decides. Both
bounds are met at every height: some expressions succeed with the height as the limit, and some are too deep with any
limit below the other bound. -/
theorem nesting_limit_tight (env : Env) (settings : Settings) (span : Span) :
    (env.All Ty.Populated → ∀ e : Expr,
      (∀ s, (e.synth (.top env settings span)).result = .ok s → e.height ≤ settings.maxDepth) ∧
      ∀ t, (e.check (.top env settings span) t).result = .ok () → e.height ≤ settings.maxDepth) ∧
    (∀ e : Expr,
      (2 * e.height - 1 ≤ settings.maxDepth → ∀ d, (e.synth (.top env settings span)).result = .error d →
        d.fault.isTooDeep = false) ∧
      (2 * e.height ≤ settings.maxDepth → ∀ t d, (e.check (.top env settings span) t).result = .error d →
        d.fault.isTooDeep = false)) ∧
    (∀ n : TypeExpr,
      (n.height ≤ settings.maxDepth → ∀ d, (n.convert (.top env settings span)).result = .error d →
        d.fault.isTooDeep = false) ∧
      (settings.maxDepth < n.height → ∀ t, (n.convert (.top env settings span)).result ≠ .ok t)) ∧
    ∀ h, 0 < h →
      (h ≤ settings.maxDepth →
        (∃ e : Expr, e.height = h ∧ ∃ s, (e.synth (.top env settings span)).result = .ok s) ∧
        ∃ e : Expr, e.height = h ∧ ∃ t, (e.check (.top env settings span) t).result = .ok ()) ∧
      (settings.maxDepth < 2 * h - 1 →
        ∃ e : Expr, e.height = h ∧ (e.synth (.top env settings span)).TooDeep) ∧
      (settings.maxDepth < 2 * h →
        ∃ e : Expr, e.height = h ∧ ∃ t, (e.check (.top env settings span) t).TooDeep) := by
  refine ⟨fun henv e => ?_, fun e => ?_, fun n => ?_, fun h hpos => ?_⟩
  · exact ⟨fun s hs => (e.takes_judgments.synth (.top env settings span)).least_le hs henv,
      fun t ht => (e.takes_judgments.check (.top env settings span) t).least_le ht henv⟩
  · exact ⟨fun hroom d hd => (e.takes_judgments.synth (.top env settings span)).not_isTooDeep hroom hd,
      fun hroom t d hd => (e.takes_judgments.check (.top env settings span) t).not_isTooDeep hroom hd⟩
  · refine ⟨fun hroom d hd => (n.takes_convert (.top env settings span)).not_isTooDeep hroom hd, fun hlow t ht => ?_⟩
    exact absurd (TypeExpr.height_le_of_convert ht) (Nat.not_le_of_lt hlow)
  · obtain ⟨n, rfl⟩ : ∃ n, h = n + 1 := ⟨h - 1, by omega⟩
    have hascriptions (cx : Context) (hroom : cx.room < 2 * n + 1) := Expr.tooDeep_ascriptions n cx hroom
    refine ⟨fun hroom => ⟨?_, ?_⟩, fun hlow => ?_, fun hlow => ?_⟩
    · obtain ⟨t, ht, -⟩ := Expr.synth_negations (.top env settings span) hroom
      exact ⟨_, Expr.height_negations n, t, ht⟩
    · exact ⟨_, Expr.height_nestedObjects n, _, Expr.check_nestedObjects (.top env settings span) hroom⟩
    · refine ⟨_, Expr.height_ascriptions n, hascriptions _ ?_⟩
      change settings.maxDepth < 2 * n + 1
      omega
    · refine ⟨_, Expr.height_ascriptions n, .null, Expr.tooDeep_check ?_ hascriptions ?_ .null⟩
      · cases n <;> exact ⟨_, rfl⟩
      · change settings.maxDepth < 2 * n + 1 + 1
        omega

/-- The call `f(null as null)`, which goes down from the argument twice. -/
def ascribedArg : Expr :=
  .call default (.ident default "f") [.ascription default (.null default) (.prim default .null)]

/-- The result of the function is an intersection that could be made simpler. -/
def functionOfNull : Env := Env.empty.set "f" (.function [.null] (.inter [.number, .string]))

theorem nesting_limit_tight_ascribedArg :
    (ascribedArg.synth (.top functionOfNull { maxDepth := 5 } default)).result = .ok (.inter [.number, .string]) ∧
    ascribedArg.height ≤ 5 ∧
    (∃ d, (Expr.synth (.top functionOfNull { maxDepth := 5 } default) (.ident default "g")).result = .error d ∧
      d.fault.isTooDeep = false) ∧
    (∃ e : Expr, e.height = 5 ∧ ∃ s, (e.synth (.top functionOfNull { maxDepth := 5 } default)).result = .ok s) ∧
    ∃ e : Expr, e.height = 4 ∧ (e.synth (.top functionOfNull { maxDepth := 5 } default)).TooDeep := by
  have henv : functionOfNull.All Ty.Populated := by
    refine (Env.all_empty _).set ?_
    apply Ty.Populated.function
    · simp [Ty.Populated.prim]
    · apply Ty.Populated.inter
      simp [Ty.Populated.prim]
  have hresult : (ascribedArg.synth (.top functionOfNull { maxDepth := 5 } default)).result =
      .ok (.inter [.number, .string]) := by
    with_unfolding_all rfl
  have h := nesting_limit_tight functionOfNull { maxDepth := 5 } default
  refine ⟨hresult, (h.1 henv ascribedArg).1 _ hresult, ?_, ?_, ?_⟩
  · exact ⟨_, rfl, (h.2.1 (.ident default "g")).1 (by decide) _ rfl⟩
  · exact ((h.2.2.2 5 (by decide)).1 (by decide)).1
  · exact (h.2.2.2 4 (by decide)).2.1 (by decide)

end Structura
