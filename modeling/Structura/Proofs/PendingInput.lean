import Structura.Proofs.OpenInput

namespace Structura

open Grammar

def Grammar.Start.goal : Start → Parser.Goal
  | .expr => .expr .whole
  | .type => .type .whole
  | .program => .statement

namespace Parser

variable {s : Start} {o : Nat} {stack rest stack' : List Frame} {focus focus' : Focus} {f : Frame}
  {p q r : Rank} {e e' : Part Expr} {t : Token} {u v w : List Token}

theorem operandRank_of_awaited (h : awaited s.goal stack = .expr r) : operandRank stack = r := by
  cases stack with
  | nil =>
      cases s with
      | expr => cases h; rfl
      | type => cases h
      | program => cases h
  | cons f rest =>
      cases f with
      | binary op _ => cases op <;> cases h <;> rfl
      | logical op _ => cases op <;> cases h <;> rfl
      | unary | body | group | index | argument | field | spread | value | statement => cases h; rfl
      | _ => cases h

theorem unary_le_operandRank (stack : List Frame) : .unary ≤ operandRank stack := by
  fun_cases operandRank stack <;> decide

theorem unary_le_of_awaited (h : awaited s.goal stack = .expr r) : .unary ≤ r := by
  rw [← operandRank_of_awaited h]
  exact unary_le_operandRank stack

theorem chain_le_of_awaited (h : awaited s.goal stack = .expr r) : .chain ≤ r :=
  Rank.le_trans (by decide) (unary_le_of_awaited h)

theorem eq_whole_of_awaitsWhole (h : awaited s.goal stack = .expr r) (hwhole : awaitsWhole stack = true) :
    r = .whole := by
  rw [awaitsWhole_eq, operandRank_of_awaited h] at hwhole
  exact of_decide_eq_true hwhole

theorem eq_whole_of_awaitsWholeType {form : TypeForm} (h : awaited s.goal stack = .type form)
    (hwhole : awaitsWholeType stack = true) : form = .whole := by
  cases stack with
  | nil =>
      cases s with
      | type => cases h; rfl
      | expr => cases h
      | program => cases h
  | cons f rest =>
      cases f with
      | binary op _ => cases op <;> cases h
      | logical op _ => cases op <;> cases h
      | union | inter => cases hwhole
      | ascription | result | typeGroup | memberType | paramType | declared | annotated => cases h; rfl
      | _ => cases h

/-- Only the bottom of the stack of a program waits for a statement. -/
theorem eq_nil_of_awaited (h : awaited s.goal stack = .statement) : stack = [] := by
  cases stack with
  | nil => rfl
  | cons f rest =>
      cases f with
      | binary op _ => cases op <;> cases h
      | logical op _ => cases op <;> cases h
      | _ => cases h

theorem StackReads.pending {start goal : Goal} (h : StackReads o start stack u)
    (hgoal : awaited start stack = goal) (hfocus : FocusReads goal focus v) :
    Pending o start stack focus (u ++ v) := by
  subst hgoal
  exact ⟨u, v, rfl, h, hfocus⟩

/-- The frame on top and what the focus has read on top of it. -/
theorem Pending.pop {start : Goal} (h : Pending o start (f :: rest) focus w) :
    ∃ u v v' goal, w = u ++ (v ++ v') ∧ StackReads o start rest u ∧ awaited start rest = goal ∧
      Opens o f goal v ∧ FocusReads f.awaits focus v' := by
  obtain ⟨w, v', rfl, hstack, hfocus⟩ := h
  cases hstack with
  | @cons _ _ u v hrest hopens =>
      exact ⟨u, v, v', _, List.append_assoc u v v', hrest, rfl, hopens, hfocus⟩

theorem Pending.advance {start : Goal} (h : Pending o start stack focus w)
    (hfocus : ∀ goal v, awaited start stack = goal → FocusReads goal focus v →
      FocusReads goal focus' (v ++ [t])) : Pending o start stack focus' (w ++ [t]) := by
  obtain ⟨u, v, rfl, hstack, hreads⟩ := h
  rw [List.append_assoc]
  exact ⟨u, v ++ [t], rfl, hstack, hfocus _ v rfl hreads⟩

theorem Pending.open {start : Goal} (h : Pending o start stack focus w)
    (hopens : ∀ goal v, awaited start stack = goal → FocusReads goal focus v →
      Opens o f goal (v ++ [t]))
    (hfocus : FocusReads f.awaits focus' []) : Pending o start (f :: stack) focus' (w ++ [t]) := by
  obtain ⟨u, v, rfl, hstack, hreads⟩ := h
  rw [List.append_assoc]
  exact ⟨_, [], (List.append_nil _).symm, .cons hstack (hopens _ v rfl hreads), hfocus⟩

theorem Pending.close {start : Goal} (h : Pending o start (f :: rest) focus w)
    (hfocus : ∀ goal u v, awaited start rest = goal → Opens o f goal u → FocusReads f.awaits focus v →
      FocusReads goal focus' (u ++ (v ++ [t]))) : Pending o start rest focus' (w ++ [t]) := by
  obtain ⟨u, v, v', goal, rfl, hrest, hgoal, hopens, hreads⟩ := h.pop
  rw [List.append_assoc, List.append_assoc]
  exact hrest.pending hgoal (hfocus goal v v' hgoal hopens hreads)

theorem Pending.replace {f' : Frame} {start : Goal} (h : Pending o start (f :: rest) focus w)
    (hopens : ∀ goal u v, awaited start rest = goal → Opens o f goal u → FocusReads f.awaits focus v →
      Opens o f' goal (u ++ (v ++ [t])))
    (hfocus : FocusReads f'.awaits focus' []) : Pending o start (f' :: rest) focus' (w ++ [t]) := by
  obtain ⟨u, v, v', goal, rfl, hrest, rfl, hf, hreads⟩ := h.pop
  rw [List.append_assoc, List.append_assoc]
  exact ⟨_, [], (List.append_nil _).symm, .cons hrest (hopens _ v v' rfl hf hreads), hfocus⟩

/-- What is left on the stack waits for expressions as loose as the rank. -/
theorem le_of_not_complete (hf : f.awaits = .expr q)
    (hstop : ∀ p e', f.complete? e = some (p, e') → ¬p ≤ r) (hr : .additive ≤ r) : r ≤ q := by
  cases f with
  | unary => exact absurd (Rank.le_trans (by decide) hr) (hstop .unary _ rfl)
  | binary op left =>
      cases op with
      | add => exact absurd hr (hstop .additive _ rfl)
      | equal | notEqual =>
          have hnot := hstop .equality _ rfl
          cases hf
          revert hnot
          cases r <;> decide
  | logical op left =>
      cases op with
      | and =>
          have hnot := hstop .conjunction _ rfl
          cases hf
          revert hnot
          cases r <;> decide
      | or =>
          have hnot := hstop .disjunction _ rfl
          cases hf
          revert hnot
          cases r <;> decide
  | body | group | index | argument | field | spread | value | statement =>
      cases hf
      exact Rank.le_whole r
  | _ => cases hf

/-- An expression may be given a looser rank where one of that rank may stand. -/
theorem FocusReads.mono {goal : Goal} (h : FocusReads goal (.expr p e) w) (hp : p ≤ q)
    (hgoal : ∀ r, goal = .expr r → q ≤ r) : FocusReads goal (.expr q e) w := by
  cases h with
  | expr he _ => exact .expr ⟨he.span, he.tree.mono hp⟩ (hgoal _ rfl)

theorem Pending.fold (hr : .additive ≤ r) (h : Pending o s.goal stack (.expr p e) w) (hp : p ≤ r) :
    Pending o s.goal (fold r stack e).1 (.expr r (fold r stack e).2) w := by
  induction stack generalizing w e p with
  | nil =>
      obtain ⟨u, v, rfl, hstack, hfocus⟩ := h
      refine ⟨u, v, rfl, hstack, hfocus.mono hp fun q hq => ?_⟩
      rw [← operandRank_of_awaited hq]
      exact Rank.le_whole r
  | cons f stack ih =>
      by_cases hcomplete : ∃ q e', f.complete? e = some (q, e') ∧ q ≤ r
      · obtain ⟨q, e', hcomplete, hle⟩ := hcomplete
        obtain ⟨u, v, v', goal, rfl, hrest, hgoal, hopens, hfocus⟩ := h.pop
        rw [fold_complete hcomplete hle]
        generalize hawaits : f.awaits = inner at hfocus
        cases hfocus with
        | expr he hle' =>
            have hfocus := hopens.complete hcomplete hawaits ⟨he.span, he.tree.mono hle'⟩
            exact ih (hrest.pending hgoal hfocus) hle
      · have hstop : ∀ q e', f.complete? e = some (q, e') → ¬q ≤ r :=
          fun q e' h hle => hcomplete ⟨q, e', h, hle⟩
        have hopen : Parser.fold r (f :: stack) e = (f :: stack, e) := by
          cases h : f.complete? e with
          | none => exact fold_open h
          | some x => exact fold_stop h (hstop _ _ h)
        obtain ⟨u, v, rfl, hstack, hfocus⟩ := h
        rw [hopen]
        exact ⟨u, v, rfl, hstack, hfocus.mono hp fun q hq => le_of_not_complete hq hstop hr⟩

theorem foldType_pending {form : TypeForm} {p : Part TypeExpr} (hstack : StackReads o s.goal stack u)
    (hgoal : awaited s.goal stack = .type form) (hp : p.Reads form.Derives v) :
    Pending o s.goal (foldType stack p).1 (.typed true (foldType stack p).2) (u ++ v) := by
  induction stack generalizing u v p form with
  | nil =>
      cases eq_whole_of_awaitsWholeType hgoal rfl
      exact hstack.pending hgoal (.completed hp)
  | cons f stack ih =>
      cases hstack with
      | cons hrest hopens =>
          generalize hbelow : awaited s.goal stack = goal at hopens
          rw [List.append_assoc]
          cases f with
          | inter =>
              cases hgoal
              obtain ⟨form, rfl, hform, hreads⟩ := hopens.complete_inter hp
              exact ih hrest hbelow ⟨hreads.span, TypeForm.derives_inter hreads.tree hform⟩
          | union =>
              cases hgoal
              obtain ⟨rfl, hreads⟩ := hopens.complete_union hp
              exact ih hrest hbelow hreads
          | result =>
              cases hgoal
              obtain ⟨rfl, hreads⟩ := hopens.complete_result hp
              exact ih hrest hbelow hreads
          | ascription | typeGroup | memberType | paramType | declared | annotated =>
              cases hgoal
              subst hbelow
              rw [← List.append_assoc]
              exact (hrest.cons hopens).pending rfl (.completed hp)
          | binary op _ => cases op <;> cases hgoal
          | logical op _ => cases op <;> cases hgoal
          | _ => cases hgoal

theorem Pending.foldType {complete : Bool} {type : Part TypeExpr}
    (h : Pending o s.goal stack (.typed complete type) w) :
    Pending o s.goal (foldType stack type).1 (.typed true (foldType stack type).2) w := by
  obtain ⟨u, v, rfl, hstack, hfocus⟩ := h
  generalize hgoal : awaited s.goal stack = goal at hfocus
  cases hfocus with
  | typed hp => exact foldType_pending hstack hgoal ⟨hp.span, TypeForm.derives_primary hp.tree⟩
  | completed hp => exact foldType_pending hstack hgoal hp

end Parser

end Structura
