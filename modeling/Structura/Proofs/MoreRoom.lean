import Structura.Proofs.ComparedJudgments

namespace Structura

def Fault.isLimit : Fault → Bool
  | .tooDeep _ | .tooManyBranches _ _ => true
  | _ => false

def Traced.Limited {α : Type} (x : Traced α) : Prop :=
  ∃ d, x.result = .error d ∧ d.fault.isLimit = true

instance {α : Type} (x : Traced α) : Decidable x.Limited :=
  match h : x.result with
  | .ok _ => isFalse fun ⟨_, hd, _⟩ => nomatch h.symm.trans hd
  | .error d => decidable_of_iff (d.fault.isLimit = true)
      ⟨fun hd => ⟨d, h, hd⟩, fun ⟨_, he, hd⟩ => Except.error.inj (h.symm.trans he) ▸ hd⟩

namespace Context

structure Within (cx wide : Context) : Prop where
  literals : cx.settings.literals = wide.settings.literals
  levels : cx.settings.maxDepth + wide.depth ≤ wide.settings.maxDepth + cx.depth
  branches : cx.settings.maxBranches ≤ wide.settings.maxBranches

structure Roomier (cx wide : Context) : Prop extends Within cx wide where
  env : cx.env = wide.env

end Context

open Context Comparison

/-- Nothing is asked of the run with more room where the other one met a limit. -/
def moreRoom : Comparison := .strict (·.fault.isLimit = true) Within

theorem linked_descend_moreRoom {cx wide : Context} (h : cx.Within wide) (span : Span) :
    moreRoom.Linked
      (fun inner wider => moreRoom.Inside inner wider ∧ inner.env = cx.env ∧ wider.env = wide.env)
      (cx.descend span) (wide.descend span) := by
  have hlevels := h.levels
  rw [descend, descend]
  by_cases hdepth : cx.depth < cx.settings.maxDepth
  · rw [if_pos hdepth, if_pos (by omega)]
    refine linked_pure ⟨⟨⟨h.literals, ?_, h.branches⟩, rfl⟩, rfl, rfl⟩
    dsimp only
    omega
  · rw [if_neg hdepth]
    exact linked_excused rfl _

theorem linked_checkBranches_moreRoom {cx wide : Context} (h : cx.Within wide)
    (count : Nat) :
    moreRoom.Linked (fun _ _ => True) (cx.checkBranches count) (wide.checkBranches count) := by
  have hbranches := h.branches
  rw [checkBranches, checkBranches]
  by_cases hcount : count ≤ cx.settings.maxBranches
  · rw [if_pos hcount, if_pos (by omega)]
    exact linked_pure trivial
  · rw [if_neg hcount]
    exact linked_excused rfl _

theorem lawful_moreRoom : moreRoom.Lawful :=
  lawful_strict Within.literals (fun h _ _ => ⟨h.literals, h.levels, h.branches⟩)
    linked_descend_moreRoom fun h => linked_checkBranches_moreRoom h.room

theorem Expr.compared_moreRoom (e : Expr) {cx wide : Context} (h : cx.Roomier wide) :
    e.judgments.Compared moreRoom cx wide := by
  refine e.compared_judgments lawful_moreRoom h.toWithin fun x _ => ?_
  rw [h.env]
  exact optionRel_refl (fun _ => rfl) _

theorem result_eq_of_linked {α : Type} {like : α → α → Prop} (hlike : ∀ a b, like a b → a = b)
    {x y : Traced α} (h : moreRoom.Linked like x y) (hx : ¬x.Limited) : y.result = x.result :=
  result_eq_of_strict hlike h fun d hd hlimit => hx ⟨d, hd, hlimit⟩

theorem Expr.synth_roomier (e : Expr) {cx wide : Context} (h : cx.Roomier wide)
    (hx : ¬(e.synth cx).Limited) : (e.synth wide).result = (e.synth cx).result :=
  result_eq_of_linked (fun _ _ => id) (e.compared_moreRoom h).synth hx

/-- Limits are guards and nothing else. Where a judgment or a conversion does not meet one, larger
limits lead to the same type or to the same diagnostic. -/
theorem limits_only_guard (cx : Context) (wide : Settings)
    (hliterals : cx.settings.literals = wide.literals)
    (hdepth : cx.settings.maxDepth ≤ wide.maxDepth)
    (hbranches : cx.settings.maxBranches ≤ wide.maxBranches) :
    (∀ e : Expr, ¬(e.synth cx).Limited →
      (e.synth { cx with settings := wide }).result = (e.synth cx).result) ∧
    (∀ (e : Expr) (t : Ty), ¬(e.check cx t).Limited →
      (e.check { cx with settings := wide } t).result = (e.check cx t).result) ∧
    ∀ e : TypeExpr, ¬(e.convert cx).Limited →
      (e.convert { cx with settings := wide }).result = (e.convert cx).result := by
  have hroom : cx.Roomier { cx with settings := wide } :=
    ⟨⟨hliterals, Nat.add_le_add_right hdepth _, hbranches⟩, rfl⟩
  refine ⟨fun e => e.synth_roomier hroom, fun e t => ?_, fun e => ?_⟩
  · exact result_eq_of_linked (fun _ _ _ => rfl) ((e.compared_moreRoom hroom).check rfl)
  · exact result_eq_of_linked (fun _ _ => id)
      (TypeExpr.linked_convert lawful_moreRoom e hroom.toWithin)

def twoLevels : Context :=
  .top (Env.empty.set "x" (.union [.null, .boolean])) { maxDepth := 2, maxBranches := 2 } default

theorem limits_only_guard_tag :
    ((Expr.unary default .typeof (.ident default "x")).synth
        { twoLevels with settings := {} }).result =
      ((Expr.unary default .typeof (.ident default "x")).synth twoLevels).result ∧
    ((Expr.binary default .add (.ident default "x") (.null default)).synth
        { twoLevels with settings := {} }).result =
      ((Expr.binary default .add (.ident default "x") (.null default)).synth twoLevels).result := by
  have h := (limits_only_guard twoLevels {} rfl (by decide) (by decide)).1
  exact ⟨h _ (by decide +kernel), h _ (by decide +kernel)⟩

end Structura
