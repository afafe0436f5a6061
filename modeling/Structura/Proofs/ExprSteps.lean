import Structura.Proofs.PendingInput

namespace Structura

open Grammar

namespace Parser

variable {s : Start} {o : Nat} {stack rest stack' : List Frame} {focus focus' : Focus} {f : Frame}
  {p q r : Rank} {e e' : Part Expr} {t : Token} {u v w : List Token}

theorem FocusReads.whole {w : List Token} (h : FocusReads (.expr .whole) (.expr q e) w) :
    DerivesExpr .expr w e.tree := by
  cases h with
  | expr he hle => exact he.tree.mono hle

theorem derives_of_simpleExpr? {tree : Expr} (ht : t.Spelled) (h : t.simpleExpr? = some tree) :
    DerivesExpr .primary [t] tree := by
  unfold Token.simpleExpr? at h
  split at h
  · rename_i hterminal
    cases h
    exact .null hterminal
  · obtain ⟨value, hvalue, rfl⟩ := Option.map_eq_some_iff.mp h
    exact .literal (ht.denotes hvalue)

theorem operandStep_pending (h : Pending o s.goal stack .operand w) (ht : t.Spelled)
    (hstep : operandStep stack t = some (stack', focus')) :
    Pending o s.goal stack' focus' (w ++ [t]) := by
  unfold operandStep at hstep
  split at hstep
  · rename_i hterminal
    cases hstep
    apply h.advance
    rintro goal _ hgoal ⟨⟩
    exact .expr ⟨rfl, t, hterminal, rfl, rfl⟩ (Rank.le_trans (by decide) (chain_le_of_awaited hgoal))
  · rename_i hterminal
    cases hstep
    apply h.advance
    rintro goal _ hgoal ⟨⟩
    exact .property hterminal .nil (chain_le_of_awaited hgoal)
  · rename_i hterminal
    cases hstep
    refine h.open ?_ .operand
    rintro goal _ hgoal ⟨⟩
    exact .group hterminal (chain_le_of_awaited hgoal) (eq_whole_of_awaitsWhole hgoal)
  · rename_i hterminal
    cases hstep
    refine h.open ?_ .operand
    rintro goal _ hgoal ⟨⟩
    exact .unary (show t.terminal = UnaryOp.not.terminal from hterminal) (unary_le_of_awaited hgoal)
  · rename_i hterminal
    cases hstep
    refine h.open ?_ .operand
    rintro goal _ hgoal ⟨⟩
    exact .unary (show t.terminal = UnaryOp.typeof.terminal from hterminal) (unary_le_of_awaited hgoal)
  · rename_i hterminal
    split at hstep
    · cases hstep
      apply h.close
      rintro goal u _ hgoal hopens ⟨⟩
      cases hopens with
      | group hl _ hmay =>
          cases hmay rfl
          exact .arrow rfl (.mk hl (v := []) .noParams hterminal)
    · cases hstep
      apply h.close
      rintro goal u _ hgoal hopens ⟨⟩
      exact hopens.close_arguments .noArguments hterminal
    · cases hstep
  · obtain ⟨tree, htree, hmove⟩ := Option.map_eq_some_iff.mp hstep
    cases hmove
    apply h.advance
    rintro goal _ hgoal ⟨⟩
    have hreads : Part.Reads ⟨t.span, tree⟩ Rank.chain.Derives [t] :=
      ⟨rfl, .primary (derives_of_simpleExpr? ht htree)⟩
    exact .expr hreads (chain_le_of_awaited hgoal)

theorem operatorStep_pending {next : Focus} {frame : Part Expr → Frame}
    (h : Pending o s.goal stack (.expr q e) w) (hp : .additive ≤ p)
    (hframe : ∀ left u r, Part.Reads left p.Derives u → p ≤ r → Opens o (frame left) (.expr r) (u ++ [t]))
    (hnext : ∀ left, FocusReads (frame left).awaits next [])
    (hstep : operatorStep p frame next stack q e = some (stack', focus')) :
    Pending o s.goal stack' focus' (w ++ [t]) := by
  unfold operatorStep at hstep
  split at hstep
  · rename_i hle
    cases hstep
    apply (h.fold hp hle).open _ (hnext _)
    intro goal v _ hfocus
    cases hfocus with
    | expr he hle => exact hframe _ _ _ he hle
  · cases hstep

theorem closeExprStep_pending (h : Pending o s.goal stack (.expr q e) w)
    (hstep : closeExprStep stack e t = some (stack', focus')) :
    Pending o s.goal stack' focus' (w ++ [t]) := by
  have hclosed := h.fold (by decide) (Rank.le_whole q)
  unfold closeExprStep at hstep
  generalize fold .whole stack e = x at hclosed hstep
  split at hstep
  · rename_i hterminal
    cases hstep
    exact hclosed.close fun _ _ _ _ hopens hfocus => hopens.close_group hfocus.whole hterminal
  · rename_i hterminal
    cases hstep
    exact hclosed.close fun _ _ _ _ hopens hfocus =>
      hopens.close_arguments (.lastArgument hfocus.whole) hterminal
  · rename_i hterminal
    cases hstep
    exact hclosed.replace (fun _ _ _ _ hopens hfocus => hopens.next_argument hfocus.whole hterminal)
      .operand
  · rename_i hterminal
    cases hstep
    exact hclosed.close fun _ _ _ _ hopens hfocus => hopens.close_index hfocus.whole hterminal
  · rename_i hterminal
    cases hstep
    exact hclosed.close fun _ _ _ _ hopens hfocus => hopens.next_property hfocus.whole hterminal
  · rename_i hterminal
    cases hstep
    exact hclosed.close fun _ _ _ _ hopens hfocus => hopens.next_of_spread hfocus.whole hterminal
  · rename_i hterminal
    cases hstep
    exact hclosed.close fun _ _ _ _ hopens hfocus => hopens.close_field hfocus.whole hterminal
  · rename_i hterminal
    cases hstep
    exact hclosed.close fun _ _ _ _ hopens hfocus => hopens.close_spread hfocus.whole hterminal
  · cases hstep

/-- The name that has been read, and its token. -/
theorem nameOf?_reads {name : Name} {goal : Goal} (h : FocusReads goal (.expr q e) w)
    (hname : nameOf? q e = some name) :
    ∃ n : Token, n.terminal = .identifier ∧ w = [n] ∧ name = n.name := by
  cases h with
  | expr he _ =>
      unfold nameOf? at hname
      split at hname
      · rename_i htree _
        obtain ⟨n, hn, rfl, hident⟩ := he.tree
        rw [htree] at hident
        cases hident
        cases hname
        exact ⟨n, hn, rfl, rfl⟩
      · cases hname

theorem bodyStep_pending {name : Name} (h : Pending o s.goal stack (.expr q e) w)
    (ht : t.terminal = .arrow) (hname : nameOf? q e = some name)
    (hstep : bodyStep stack name = some (stack', focus')) :
    Pending o s.goal stack' focus' (w ++ [t]) := by
  unfold bodyStep at hstep
  split at hstep
  · rename_i hwhole
    cases hstep
    refine h.open ?_ .operand
    intro goal v hgoal hfocus
    obtain ⟨n, hn, rfl, rfl⟩ := nameOf?_reads hfocus hname
    cases hfocus with
    | expr =>
        cases eq_whole_of_awaitsWhole hgoal hwhole
        exact .bareBody hn ht
  · cases hstep

theorem firstParamStep_pending {name : Name} (h : Pending o s.goal stack (.expr q e) w)
    (ht : t.terminal = .colon) (hname : nameOf? q e = some name)
    (hstep : firstParamStep stack name = some (stack', focus')) :
    Pending o s.goal stack' focus' (w ++ [t]) := by
  unfold firstParamStep at hstep
  split at hstep
  · cases hstep
    refine h.replace ?_ .type
    intro goal u v _ hopens hfocus
    obtain ⟨n, hn, rfl, rfl⟩ := nameOf?_reads hfocus hname
    cases hopens with
    | group hl _ hmay =>
        cases hmay rfl
        exact .paramType rfl (.mk hl .nil) (fun _ => trivial) hn ht
  · cases hstep

theorem exprStep_pending (h : Pending o s.goal stack (.expr q e) w)
    (hstep : exprStep stack q e t = some (stack', focus')) :
    Pending o s.goal stack' focus' (w ++ [t]) := by
  unfold exprStep at hstep
  split at hstep
  · rename_i hterminal
    split at hstep
    · rename_i hle
      cases hstep
      apply h.advance
      intro goal v hgoal hfocus
      cases hfocus with
      | expr he _ => exact .memberName ⟨he.span, he.tree.mono hle⟩ hterminal (chain_le_of_awaited hgoal)
    · cases hstep
  · rename_i hterminal
    split at hstep
    · rename_i hle
      cases hstep
      refine h.open ?_ .operand
      intro goal v hgoal hfocus
      cases hfocus with
      | expr he _ => exact .index ⟨he.span, he.tree.mono hle⟩ hterminal (chain_le_of_awaited hgoal)
    · cases hstep
  · rename_i hterminal
    split at hstep
    · rename_i hle
      cases hstep
      refine h.open ?_ .operand
      intro goal v hgoal hfocus
      cases hfocus with
      | expr he _ =>
          exact .argument ⟨he.span, he.tree.mono hle⟩ hterminal .nil (chain_le_of_awaited hgoal)
    · cases hstep
  · rename_i hterminal
    have hop : t.terminal = BinaryOp.add.terminal := hterminal
    exact operatorStep_pending h (by decide) (fun _ _ _ hleft hle => .binary hleft hop hle)
      (fun _ => .operand) hstep
  · rename_i hterminal
    exact operatorStep_pending h (by decide) (fun _ _ _ hleft hle => .ascription hleft hterminal hle)
      (fun _ => .type) hstep
  · rename_i hterminal
    have hop : t.terminal = BinaryOp.equal.terminal := hterminal
    exact operatorStep_pending h (by decide) (fun _ _ _ hleft hle => .binary hleft hop hle)
      (fun _ => .operand) hstep
  · rename_i hterminal
    have hop : t.terminal = BinaryOp.notEqual.terminal := hterminal
    exact operatorStep_pending h (by decide) (fun _ _ _ hleft hle => .binary hleft hop hle)
      (fun _ => .operand) hstep
  · rename_i hterminal
    have hop : t.terminal = LogicalOp.and.terminal := hterminal
    exact operatorStep_pending h (by decide) (fun _ _ _ hleft hle => .logical hleft hop hle)
      (fun _ => .operand) hstep
  · rename_i hterminal
    have hop : t.terminal = LogicalOp.or.terminal := hterminal
    exact operatorStep_pending h (by decide) (fun _ _ _ hleft hle => .logical hleft hop hle)
      (fun _ => .operand) hstep
  · rename_i hterminal
    obtain ⟨name, hname, hbody⟩ := Option.bind_eq_some_iff.mp hstep
    exact bodyStep_pending h hterminal hname hbody
  · rename_i hterminal
    obtain ⟨name, hname, hparam⟩ := Option.bind_eq_some_iff.mp hstep
    exact firstParamStep_pending h hterminal hname hparam
  · exact closeExprStep_pending h hstep

theorem propertyStep_pending {start : Nat} {before : List Property}
    (h : Pending o s.goal stack (.property start before) w)
    (hstep : propertyStep stack start before t = some (stack', focus')) :
    Pending o s.goal stack' focus' (w ++ [t]) := by
  unfold propertyStep at hstep
  split at hstep
  · rename_i hterminal
    cases hstep
    apply h.advance
    intro goal v _ hfocus
    cases hfocus with
    | property hl hv hle => exact .propertyColon hl hv hterminal hle
  · rename_i hterminal
    cases hstep
    refine h.open ?_ .operand
    intro goal v _ hfocus
    cases hfocus with
    | property hl hv hle => exact .spread hl hv hterminal hle
  · rename_i hterminal
    cases hstep
    apply h.advance
    intro goal v _ hfocus
    cases hfocus with
    | property hl hv hle => exact .expr (hv.object hl .noProperties hterminal) hle
  · cases hstep

theorem paramNameStep_pending {params : Params} (h : Pending o s.goal stack (.paramName params) w)
    (hstep : paramNameStep stack params t = some (stack', focus')) :
    Pending o s.goal stack' focus' (w ++ [t]) := by
  unfold paramNameStep at hstep
  split at hstep
  · rename_i hterminal
    cases hstep
    apply h.advance
    intro goal v _ hfocus
    cases hfocus with
    | paramName hgoal hopen hfirst => exact .paramEnd hgoal hopen hfirst hterminal
  · rename_i hterminal howner
    cases hstep
    apply h.advance
    intro goal v _ hfocus
    cases hfocus with
    | paramName hgoal hopen _ =>
        obtain ⟨hl, hv⟩ := hopen
        cases howner
        have hparams := hv.params .noParams
        rw [List.append_nil, List.append_nil] at hparams
        exact .arrow hgoal (.mk hl hparams hterminal)
  · cases hstep

theorem paramEndStep_pending {params : Params} {name : Name}
    (h : Pending o s.goal stack (.paramEnd params name) w)
    (hstep : paramEndStep stack params name t = some (stack', focus')) :
    Pending o s.goal stack' focus' (w ++ [t]) := by
  unfold paramEndStep at hstep
  split at hstep
  · rename_i hterminal
    cases hstep
    refine h.open ?_ .type
    intro goal v _ hfocus
    cases hfocus with
    | paramEnd hgoal hopen hfirst hn =>
        rw [List.append_assoc]
        exact .paramType hgoal hopen (fun _ => hfirst _) hn hterminal
  · rename_i hterminal
    cases hstep
    apply h.advance
    intro goal v _ hfocus
    cases hfocus with
    | paramEnd hgoal hopen hfirst hn =>
        rw [List.append_assoc]
        exact .paramName hgoal (hopen.add (.bare hn) hterminal) fun _ => Params.admits_add (hfirst _)
  · rename_i hterminal
    cases hstep
    apply h.advance
    intro goal v _ hfocus
    cases hfocus with
    | paramEnd hgoal hopen hfirst hn =>
        rw [List.append_assoc]
        exact .arrow hgoal (hopen.close (.bare hn) (hfirst _) hterminal)
  · cases hstep

theorem arrowStep_pending {params : Params} (h : Pending o s.goal stack (.arrow params) w)
    (hstep : arrowStep stack params t = some (stack', focus')) :
    Pending o s.goal stack' focus' (w ++ [t]) := by
  unfold arrowStep at hstep
  split at hstep
  · rename_i hterminal howner
    cases hstep
    refine h.open ?_ .operand
    intro goal v _ hfocus
    cases hfocus with
    | arrow hgoal hclosed =>
        rw [howner] at hgoal
        subst hgoal
        exact .body howner hclosed hterminal
  · rename_i hterminal howner
    cases hstep
    refine h.open ?_ .type
    intro goal v _ hfocus
    cases hfocus with
    | arrow hgoal hclosed =>
        rw [howner] at hgoal
        subst hgoal
        exact .result howner hclosed hterminal
  · cases hstep

end Parser

end Structura
