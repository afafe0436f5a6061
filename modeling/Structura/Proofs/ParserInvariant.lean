import Structura.Proofs.TypeSteps

namespace Structura

open Grammar

namespace Parser

variable {s : Start} {o : Nat} {stack rest stack' : List Frame} {focus focus' : Focus} {f : Frame}
  {p q r : Rank} {e e' : Part Expr} {t : Token} {u v w : List Token}

theorem statementStep_pending (h : Pending o s.goal stack .statement w) (ht : t.Spelled)
    (ho : (Span.ofTokens (w ++ [t])).start = o) (hstep : statementStep stack t = some (stack', focus')) :
    Pending o s.goal stack' focus' (w ++ [t]) := by
  unfold statementStep at hstep
  split at hstep
  · rename_i hterminal
    cases hstep
    apply h.advance
    rintro goal _ _ ⟨⟩
    exact .declareName hterminal
  · rename_i hterminal
    cases hstep
    apply h.advance
    rintro goal _ _ ⟨⟩
    exact .letName hterminal
  · obtain ⟨u, v, rfl, hstack, hfocus⟩ := h
    generalize hgoal : awaited s.goal stack = goal at hfocus
    cases hfocus with
    | statement =>
        cases eq_nil_of_awaited hgoal
        cases hstack with
        | nil =>
            have hopened : Pending o s.goal [.statement t.span.start] .operand [] := by
              refine ⟨[], [], rfl, .cons (u := []) .nil ?_, .operand⟩
              rw [hgoal, ← ho]
              exact .statement
            exact operandStep_pending hopened ht hstep

theorem letEndStep_pending {start : Nat} {name : Name} (h : Pending o s.goal stack (.letEnd start name) w)
    (hstep : letEndStep stack start name t = some (stack', focus')) :
    Pending o s.goal stack' focus' (w ++ [t]) := by
  unfold letEndStep at hstep
  split at hstep
  · rename_i hterminal
    cases hstep
    refine h.open ?_ .type
    intro goal v _ hfocus
    cases hfocus with
    | letEnd hl hn => exact .annotated hl hn hterminal
  · rename_i hterminal
    cases hstep
    refine h.open ?_ .operand
    intro goal v _ hfocus
    cases hfocus with
    | letEnd hl hn => exact .value hl hn hterminal
  · cases hstep

/-- A token that completes no statement keeps the reading. -/
theorem move_pending (h : Pending o s.goal stack focus w) (ht : t.Spelled)
    (ho : (Span.ofTokens (w ++ [t])).start = o) (hstep : move stack focus t = some (stack', focus')) :
    Pending o s.goal stack' focus' (w ++ [t]) := by
  cases focus with
  | operand => exact operandStep_pending h ht hstep
  | expr => exact exprStep_pending h hstep
  | property => exact propertyStep_pending h hstep
  | propertyColon start before name =>
      change (if _ then _ else _) = _ at hstep
      split at hstep
      · rename_i hterminal
        cases hstep
        refine h.open ?_ .operand
        intro goal v _ hfocus
        cases hfocus with
        | propertyColon hl hv hn hle =>
            rw [List.cons_append, List.append_assoc]
            exact .field hl hv hn hterminal hle
      · cases hstep
  | memberName object =>
      change (if _ then _ else _) = _ at hstep
      split at hstep
      · rename_i hterminal
        cases hstep
        apply h.advance
        intro goal v _ hfocus
        cases hfocus with
        | @memberName _ u d _ hobject hd hle =>
            rw [List.append_assoc]
            exact .expr (hobject.close (v := [d]) hobject.tree.ne_nil
              (.member hobject.tree hd hterminal)) hle
      · cases hstep
  | paramName => exact paramNameStep_pending h hstep
  | paramEnd => exact paramEndStep_pending h hstep
  | arrow => exact arrowStep_pending h hstep
  | type => exact typeStep_pending h ht hstep
  | typed => exact typedStep_pending h hstep
  | member => exact memberStep_pending h hstep
  | memberEnd => exact memberEndStep_pending h hstep
  | statement => exact statementStep_pending h ht ho hstep
  | declareName start =>
      change (if _ then _ else _) = _ at hstep
      split at hstep
      · rename_i hterminal
        cases hstep
        apply h.advance
        intro goal v _ hfocus
        cases hfocus with
        | declareName hd => exact .declareColon hd hterminal
      · cases hstep
  | declareColon start name =>
      change (if _ then _ else _) = _ at hstep
      split at hstep
      · rename_i hterminal
        cases hstep
        refine h.open ?_ .type
        intro goal v _ hfocus
        cases hfocus with
        | declareColon hd hn => exact .declared hd hn hterminal
      · cases hstep
  | letName start =>
      change (if _ then _ else _) = _ at hstep
      split at hstep
      · rename_i hterminal
        cases hstep
        apply h.advance
        intro goal v _ hfocus
        cases hfocus with
        | letName hl => exact .letEnd hl hterminal
      · cases hstep
  | letEnd => exact letEndStep_pending h hstep

end Parser

end Structura
