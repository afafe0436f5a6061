import Structura.Proofs.ExprSteps

namespace Structura

open Grammar

namespace Parser

variable {s : Start} {o : Nat} {stack rest stack' : List Frame} {focus focus' : Focus} {f : Frame}
  {p q r : Rank} {e e' : Part Expr} {t : Token} {u v w : List Token}

theorem derives_of_simpleType? {type : TypeExpr} (ht : t.Spelled) (h : t.simpleType? = some type) :
    DerivesType .primaryType [t] type := by
  unfold Token.simpleType? at h
  split at h
  case h_1 hterminal => cases h; exact .null hterminal
  case h_2 hterminal => cases h; exact .boolean hterminal
  case h_3 hterminal => cases h; exact .number hterminal
  case h_4 hterminal => cases h; exact .string hterminal
  case h_5 hterminal => cases h; exact .unknown hterminal
  case h_6 hterminal => cases h; exact .never hterminal
  case h_7 =>
    obtain ⟨value, hvalue, rfl⟩ := Option.map_eq_some_iff.mp h
    exact .literal (ht.denotes hvalue)

theorem typeStep_pending (h : Pending o s.goal stack .type w) (ht : t.Spelled)
    (hstep : typeStep stack t = some (stack', focus')) :
    Pending o s.goal stack' focus' (w ++ [t]) := by
  unfold typeStep at hstep
  split at hstep
  · rename_i hterminal
    cases hstep
    apply h.advance
    rintro goal _ _ ⟨⟩
    exact .member hterminal .nil
  · rename_i hterminal
    cases hstep
    refine h.open ?_ .type
    rintro goal _ hgoal ⟨⟩
    exact .typeGroup hterminal (eq_whole_of_awaitsWholeType hgoal)
  · rename_i hterminal
    split at hstep
    · cases hstep
      apply h.close
      rintro goal u _ _ hopens ⟨⟩
      cases hopens with
      | typeGroup hl hmay =>
          cases hmay rfl
          exact .paramEnd rfl (.mk hl .nil) (fun _ => trivial) hterminal
    · cases hstep
  · rename_i hterminal
    split at hstep
    · cases hstep
      apply h.close
      rintro goal u _ _ hopens ⟨⟩
      cases hopens with
      | typeGroup hl hmay =>
          cases hmay rfl
          exact .arrow rfl (.mk hl (v := []) .noParams hterminal)
    · cases hstep
  · obtain ⟨type, htype, hmove⟩ := Option.map_eq_some_iff.mp hstep
    cases hmove
    apply h.advance
    rintro goal _ _ ⟨⟩
    exact .typed ⟨rfl, derives_of_simpleType? ht htype⟩

theorem FocusReads.completed_type {p : Part TypeExpr} (h : FocusReads (.type .whole) (.typed true p) w) :
    DerivesType .type w p.tree := by
  cases h with
  | completed hp => exact hp.tree

theorem closeTypeStep_pending {type : Part TypeExpr} (h : Pending o s.goal stack (.typed true type) w)
    (hstep : closeTypeStep stack type t = some (stack', focus')) :
    Pending o s.goal stack' focus' (w ++ [t]) := by
  unfold closeTypeStep at hstep
  split at hstep
  · rename_i hterminal
    cases hstep
    exact h.close fun _ _ _ _ hopens hfocus => hopens.close_typeGroup hfocus.completed_type hterminal
  · rename_i hterminal
    cases hstep
    exact h.close fun _ _ _ _ hopens hfocus => hopens.next_member hfocus.completed_type (.inr hterminal)
  · rename_i hterminal
    cases hstep
    exact h.close fun _ _ _ _ hopens hfocus => hopens.next_member hfocus.completed_type (.inl hterminal)
  · rename_i hterminal
    cases hstep
    exact h.close fun _ _ _ _ hopens hfocus => hopens.close_memberType hfocus.completed_type hterminal
  · rename_i hterminal
    cases hstep
    exact h.close fun _ _ _ _ hopens hfocus => hopens.next_param hfocus.completed_type hterminal
  · rename_i hterminal
    cases hstep
    exact h.close fun _ _ _ _ hopens hfocus => hopens.close_paramType hfocus.completed_type hterminal
  · rename_i hterminal
    cases hstep
    refine h.replace ?_ .operand
    intro goal u v _ hopens hfocus
    cases hopens with
    | annotated hl hn hc => exact .typedValue hl hn hc hfocus.completed_type hterminal
  · cases hstep

/-- A type that is given to an expression makes an expression with it. -/
theorem Pending.ascribe {subject : Part Expr} {type : Part TypeExpr}
    (h : Pending o s.goal (.ascription subject :: rest) (.typed true type) w) :
    Pending o s.goal rest (.expr .relational (ascribe subject type)) w := by
  obtain ⟨u, v, v', goal, rfl, hrest, hgoal, hopens, hfocus⟩ := h.pop
  cases hopens with
  | @ascription _ v t r hsubject ht hle =>
      cases hfocus with
      | completed htype =>
          refine hrest.pending hgoal (.expr (htype.extend (htype.tree.ne_nil rfl) ?_ ?_) hle)
          · rw [List.append_assoc]
            exact hsubject.start_eq
          · rw [List.append_assoc]
            exact .ascription hsubject.tree ht htype.tree

theorem awaited_eq_primary (h : awaited s.goal stack = .type .primary) :
    ∃ n before rest, stack = .inter n before :: rest := by
  cases stack with
  | nil => cases s <;> cases h
  | cons f rest =>
      cases f with
      | inter n before => exact ⟨n, before, rest, rfl⟩
      | binary op _ => cases op <;> cases h
      | logical op _ => cases op <;> cases h
      | _ => cases h

theorem awaited_eq_inter (h : awaited s.goal stack = .type .inter) :
    ∃ n before rest, stack = .union n before :: rest := by
  cases stack with
  | nil => cases s <;> cases h
  | cons f rest =>
      cases f with
      | union n before => exact ⟨n, before, rest, rfl⟩
      | binary op _ => cases op <;> cases h
      | logical op _ => cases op <;> cases h
      | _ => cases h

section

variable {goal : Goal} {form : TypeForm} {n : Nat} {before : List TypeExpr} {type : Part TypeExpr}

theorem Opens.next_requirement (h : Opens o (.inter n before) goal u)
    (htype : type.Reads (DerivesType .primaryType) v) (ht : t.terminal = .amp) :
    Opens o (.inter n (type.tree :: before)) goal (u ++ (v ++ [t])) := by
  cases h with
  | inter hu hne hform =>
      rw [← Span.start_ofTokens_append (v := v ++ [t]) (hu.ne_nil hne)]
      exact .inter (hu.add htype.tree ht) (List.cons_ne_nil _ _) hform

theorem Opens.first_requirement (htype : type.Reads (DerivesType .primaryType) v) (hform : form ≠ .primary)
    (ht : t.terminal = .amp) :
    Opens o (.inter type.span.start [type.tree]) (.type form) (v ++ [t]) := by
  rw [htype.span, ← Span.start_ofTokens_append (v := [t]) (htype.tree.ne_nil rfl)]
  exact .inter (.add (w := []) .nil htype.tree ht) (List.cons_ne_nil _ _) hform

theorem Opens.next_alternative (h : Opens o (.union n before) goal u)
    (htype : type.Reads (DerivesType .interType) v) (ht : t.terminal = .bar) :
    Opens o (.union n (type.tree :: before)) goal (u ++ (v ++ [t])) := by
  cases h with
  | union hu hne =>
      rw [← Span.start_ofTokens_append (v := v ++ [t]) (hu.ne_nil hne)]
      exact .union (hu.add htype.tree ht) (List.cons_ne_nil _ _)

theorem Opens.first_alternative (htype : type.Reads (DerivesType .interType) v) (ht : t.terminal = .bar) :
    Opens o (.union type.span.start [type.tree]) (.type .whole) (v ++ [t]) := by
  rw [htype.span, ← Span.start_ofTokens_append (v := [t]) (htype.tree.ne_nil rfl)]
  exact .union (.add (w := []) .nil htype.tree ht) (List.cons_ne_nil _ _)

/-- Completing an intersection leaves a stack that waits for more than its parts. -/
theorem foldInter_reads {type' : Part TypeExpr} (h : Pending o s.goal stack (.typed false type) w)
    (hfold : foldInter stack type = (rest, type')) :
    ∃ u v form, w = u ++ v ∧ StackReads o s.goal rest u ∧ awaited s.goal rest = .type form ∧
      form ≠ .primary ∧ type'.Reads (DerivesType .interType) v := by
  unfold foldInter at hfold
  split at hfold
  · cases hfold
    obtain ⟨u, v, v', goal, rfl, hrest, hgoal, hopens, hfocus⟩ := h.pop
    cases hfocus with
    | typed htype =>
        obtain ⟨form, rfl, hform, hreads⟩ := hopens.complete_inter htype
        exact ⟨u, v ++ v', form, rfl, hrest, hgoal, hform, hreads⟩
  · rename_i hinter
    cases hfold
    obtain ⟨u, v, rfl, hstack, hfocus⟩ := h
    generalize hgoal : awaited s.goal stack = goal at hfocus
    cases hfocus with
    | @typed _ form _ htype =>
        refine ⟨u, v, form, rfl, hstack, rfl, ?_, htype.span, .primary htype.tree⟩
        rintro rfl
        obtain ⟨n, before, rest, hstack⟩ := awaited_eq_primary hgoal
        exact hinter n before rest hstack

end

theorem typedStep_pending {complete : Bool} {type : Part TypeExpr}
    (h : Pending o s.goal stack (.typed complete type) w)
    (hstep : typedStep stack complete type t = some (stack', focus')) :
    Pending o s.goal stack' focus' (w ++ [t]) := by
  unfold typedStep at hstep
  split at hstep
  · rename_i hterminal
    split at hstep
    · cases hstep
      refine h.replace ?_ .type
      intro goal u v _ hopens hfocus
      cases hfocus with
      | typed htype => exact hopens.next_requirement htype hterminal
    · rename_i hinter
      cases hstep
      refine h.open ?_ .type
      intro goal v hgoal hfocus
      cases hfocus with
      | typed htype =>
          apply Opens.first_requirement htype _ hterminal
          rintro rfl
          obtain ⟨n, before, rest, hstack⟩ := awaited_eq_primary hgoal
          exact hinter n before rest hstack
  · rename_i hterminal
    generalize hfold : foldInter stack type = x at hstep
    obtain ⟨rest, last⟩ := x
    obtain ⟨u, v, form, rfl, hrest, hgoal, hform, hlast⟩ := foldInter_reads h hfold
    split at hstep
    · rename_i heq
      cases heq
      cases hstep
      cases hrest with
      | cons hrest hopens =>
          rw [List.append_assoc, List.append_assoc]
          exact ⟨_, [], (List.append_nil _).symm, .cons hrest (hopens.next_alternative hlast hterminal),
            .type⟩
    · rename_i hunion heq
      cases heq
      cases hstep
      cases form with
      | primary => exact absurd rfl hform
      | inter =>
          obtain ⟨n, before, rest, rfl⟩ := awaited_eq_inter hgoal
          exact absurd rfl (hunion n before rest)
      | whole =>
          rw [List.append_assoc]
          refine ⟨u ++ (v ++ [t]), [], (List.append_nil _).symm, .cons hrest ?_, .type⟩
          rw [hgoal]
          exact Opens.first_alternative hlast hterminal
  · have hcompleted := h.foldType
    generalize foldType stack type = x at hstep hcompleted
    split at hstep
    · exact exprStep_pending hcompleted.ascribe hstep
    · exact closeTypeStep_pending hcompleted hstep

theorem memberStep_pending {start : Nat} {before : List Signature}
    (h : Pending o s.goal stack (.member start before) w)
    (hstep : memberStep stack start before t = some (stack', focus')) :
    Pending o s.goal stack' focus' (w ++ [t]) := by
  unfold memberStep at hstep
  split at hstep
  · rename_i hterminal
    cases hstep
    apply h.advance
    intro goal v _ hfocus
    cases hfocus with
    | member hl hv => exact .memberEnd hl hv hterminal
  · rename_i hterminal
    cases hstep
    apply h.advance
    intro goal v _ hfocus
    cases hfocus with
    | member hl hv => exact hv.objectType hl .noMembers hterminal
  · cases hstep

theorem memberEndStep_pending {start : Nat} {before : List Signature} {name : Name}
    (h : Pending o s.goal stack (.memberEnd start before name) w)
    (hstep : memberEndStep stack start before name t = some (stack', focus')) :
    Pending o s.goal stack' focus' (w ++ [t]) := by
  have hnext (hterminal : t.terminal = .semicolon ∨ t.terminal = .comma) :
      Pending o s.goal stack (.member start (.bare name :: before)) (w ++ [t]) := by
    apply h.advance
    intro goal v _ hfocus
    cases hfocus with
    | memberEnd hl hv hn =>
        rw [List.cons_append, List.append_assoc]
        exact .member hl (hv.add (.bare hn) hterminal)
  unfold memberEndStep at hstep
  split at hstep
  · rename_i hterminal
    cases hstep
    refine h.open ?_ .type
    intro goal v _ hfocus
    cases hfocus with
    | memberEnd hl hv hn =>
        rw [List.cons_append, List.append_assoc]
        exact .memberType hl hv hn hterminal
  · rename_i hterminal
    cases hstep
    exact hnext (.inr hterminal)
  · rename_i hterminal
    cases hstep
    exact hnext (.inl hterminal)
  · rename_i hterminal
    cases hstep
    apply h.advance
    intro goal v _ hfocus
    cases hfocus with
    | memberEnd hl hv hn =>
        rw [List.cons_append, List.append_assoc]
        exact hv.objectType hl (.lastMember (.bare hn)) hterminal
  · cases hstep

end Parser

end Structura
