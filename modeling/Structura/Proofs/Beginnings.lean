import Structura.Proofs.OpenInput

namespace Structura

open Grammar

def Token.specimen (terminal : Terminal) : Token := ⟨terminal, terminal.spelling?.getD "x", ⟨0, 0⟩⟩

theorem Token.spelled_specimen {terminal : Terminal}
    (h : terminal.spelling?.isSome = true ∨ terminal = .identifier) : (specimen terminal).Spelled := by
  rcases h with h | rfl
  · obtain ⟨word, hword⟩ := Option.isSome_iff_exists.mp h
    have hpattern := Lexer.Pattern.spelled hword
    unfold Spelled specimen
    rwa [hword]
  · have hname : Lexer.Pattern (some .identifier) ['x'] := .name (by decide) (by simp)
    exact hname

namespace Parser

variable {w u v : List Token} {t : Token} {o : Nat}

def Goal.Derivable : Goal → List Token → Prop
  | .expr r, w => ∃ e, r.Derives w e
  | .type form, w => ∃ e, form.Derives w e
  | .statement, w => ∃ statements, DerivesProgram w statements

def Goal.Begins (goal : Goal) (w : List Token) : Prop :=
  ∃ v, (∀ t ∈ v, t.Spelled) ∧ goal.Derivable (w ++ v)

theorem Goal.Derivable.begins {goal : Goal} (h : goal.Derivable w) : goal.Begins w :=
  ⟨[], by simp, by rwa [List.append_nil]⟩

/-- It suffices to complete what has been read and one token more. -/
theorem Goal.begins_of_token {goal : Goal} (terminal : Terminal)
    (hterminal : terminal.spelling?.isSome = true ∨ terminal = .identifier)
    (h : goal.Begins (w ++ [.specimen terminal])) : goal.Begins w := by
  obtain ⟨v, hv, hall⟩ := h
  refine ⟨.specimen terminal :: v, ?_, ?_⟩
  · intro t ht
    rcases List.mem_cons.mp ht with rfl | ht
    · exact Token.spelled_specimen hterminal
    · exact hv t ht
  · rwa [List.append_assoc] at hall

theorem Goal.begins_nil (goal : Goal) : goal.Begins [] := by
  cases goal with
  | expr r =>
      apply begins_of_token .identifier (.inr rfl)
      have hname : Rank.name.Derives [.specimen .identifier]
        (.ident (Token.specimen .identifier).span (Token.specimen .identifier).text) := ⟨_, rfl, rfl, rfl⟩
      exact Derivable.begins ⟨_, hname.mono (Nat.zero_le _)⟩
  | type form =>
      apply begins_of_token .nullWord (.inl rfl)
      exact Derivable.begins ⟨_, TypeForm.derives_primary (.null rfl)⟩
  | statement => exact Derivable.begins ⟨[], .nil⟩

/-- It suffices to complete what stands around every completion. -/
theorem Goal.Begins.trans {inner outer : Goal} (hv : inner.Begins v)
    (h : ∀ v, inner.Derivable v → outer.Begins (u ++ v)) : outer.Begins (u ++ v) := by
  obtain ⟨v', hv', hinner⟩ := hv
  obtain ⟨v'', hv'', houter⟩ := h (v ++ v') hinner
  refine ⟨v' ++ v'', ?_, ?_⟩
  · intro t ht
    rcases List.mem_append.mp ht with ht | ht
    · exact hv' t ht
    · exact hv'' t ht
  · simpa using houter

/-- One token completes what stands around every completion. -/
theorem Goal.Begins.close {inner outer : Goal} (hv : inner.Begins v) (terminal : Terminal)
    (hterminal : terminal.spelling?.isSome = true)
    (h : ∀ v, inner.Derivable v → outer.Begins (u ++ (v ++ [.specimen terminal]))) :
    outer.Begins (u ++ v) := by
  apply hv.trans
  intro v hinner
  apply begins_of_token terminal (.inl hterminal)
  rw [List.append_assoc]
  exact h v hinner

theorem FocusReads.begins_expr {q : Rank} {e : Part Expr} {goal : Goal}
    (h : FocusReads goal (.expr q e) w) : goal.Begins w := by
  cases h with
  | expr he hle => exact Goal.Derivable.begins ⟨_, he.tree.mono hle⟩

theorem FocusReads.begins_typed {p : Part TypeExpr} {goal : Goal}
    (h : FocusReads goal (.typed false p) w) : goal.Begins w := by
  cases h with
  | typed hp => exact Goal.Derivable.begins ⟨_, TypeForm.derives_primary hp.tree⟩

theorem begins_of_statement {s : Statement} (h : DerivesStatement w s) : Goal.statement.Begins w := by
  exact Goal.Derivable.begins ⟨_, h.program⟩

theorem Opens.begins_operator {f : Frame} {goal : Goal} {r : Rank} (h : Opens o f goal u)
    (hr : f.awaits = .expr r) (hc : ∀ e, (f.complete? e).isSome = true) (hv : (Goal.expr r).Begins v) :
    goal.Begins (u ++ v) := by
  apply hv.trans
  rintro v ⟨tree, htree⟩
  obtain ⟨⟨q, e'⟩, he'⟩ := Option.isSome_iff_exists.mp (hc ⟨.ofTokens v, tree⟩)
  exact (h.complete he' hr ⟨rfl, htree⟩).begins_expr

theorem Opens.begins_result {start : Nat} {params : List Signature} {goal : Goal}
    (h : Opens o (.result start params) goal u) (hv : (Goal.type .whole).Begins v) :
    goal.Begins (u ++ v) := by
  apply hv.trans
  rintro v ⟨type, htype⟩
  obtain ⟨rfl, hreads⟩ := h.complete_result (p := ⟨.ofTokens v, type⟩) ⟨rfl, htype⟩
  exact Goal.Derivable.begins ⟨_, hreads.tree⟩

theorem Params.Closed.begins {params : Params} (h : params.Closed w) : params.owner.goal.Begins w := by
  apply Goal.begins_of_token .arrow (.inl rfl)
  rw [← List.append_nil (w ++ _)]
  obtain ⟨owner, start, before⟩ := params
  cases owner with
  | function =>
      have hbody := Opens.body (o := 0) rfl h (a := .specimen .arrow) rfl
      exact hbody.begins_operator rfl (fun _ => rfl) (Goal.begins_nil _)
  | functionType =>
      have hresult := Opens.result (o := 0) rfl h (a := .specimen .arrow) rfl
      exact hresult.begins_result (Goal.begins_nil _)

theorem FocusReads.begins_arrow {params : Params} {goal : Goal} (h : FocusReads goal (.arrow params) w) :
    goal.Begins w := by
  cases h with
  | arrow hgoal hclosed =>
      rw [← hgoal]
      exact hclosed.begins

theorem Opens.begins_value {start : Nat} {name : Name} {type : Option TypeExpr}
    (h : Opens o (.value start name type) .statement u) (hv : (Goal.expr .whole).Begins v) :
    Goal.statement.Begins (u ++ v) := by
  apply hv.close .semicolon rfl
  rintro v ⟨tree, htree⟩
  cases h with
  | value hl hn ha => exact begins_of_statement (.bind hl hn ha htree rfl)
  | typedValue hl hn hc htype ha =>
      have hstatement := DerivesStatement.bindTyped hl hn hc htype ha htree (s := .specimen .semicolon) rfl
      simpa using begins_of_statement hstatement

/-- What a frame has read can be completed as soon as what it waits for has been begun. -/
theorem Opens.begins {f : Frame} {goal : Goal} (h : Opens o f goal u) (hv : f.awaits.Begins v) :
    goal.Begins (u ++ v) := by
  have hopens := h
  cases h with
  | unary | bareBody | body => exact hopens.begins_operator rfl (fun _ => rfl) hv
  | @binary op => cases op <;> exact hopens.begins_operator rfl (fun _ => rfl) hv
  | @logical op => cases op <;> exact hopens.begins_operator rfl (fun _ => rfl) hv
  | group =>
      apply Goal.Begins.close hv .closeParen rfl
      rintro v ⟨tree, htree⟩
      exact (hopens.close_group htree rfl).begins_expr
  | index =>
      apply Goal.Begins.close hv .closeBracket rfl
      rintro v ⟨tree, htree⟩
      exact (hopens.close_index htree rfl).begins_expr
  | argument =>
      apply Goal.Begins.close hv .closeParen rfl
      rintro v ⟨tree, htree⟩
      exact (hopens.close_arguments (.lastArgument htree) rfl).begins_expr
  | field =>
      apply Goal.Begins.close hv .closeBrace rfl
      rintro v ⟨tree, htree⟩
      exact (hopens.close_field htree rfl).begins_expr
  | spread =>
      apply Goal.Begins.close hv .closeBrace rfl
      rintro v ⟨tree, htree⟩
      exact (hopens.close_spread htree rfl).begins_expr
  | ascription hsubject ht hr =>
      apply hv.trans
      rintro v ⟨type, htype⟩
      rw [List.append_assoc]
      exact Goal.Derivable.begins
        ⟨_, Rank.Derives.mono (q := .relational) (.ascription hsubject.tree ht htype) hr⟩
  | union hu hne =>
      apply hv.trans
      rintro v ⟨type, htype⟩
      exact Goal.Derivable.begins ⟨_, .union (hu.union hne htype)⟩
  | inter hu hne hform =>
      apply hv.trans
      rintro v ⟨type, htype⟩
      exact Goal.Derivable.begins ⟨_, TypeForm.derives_inter (hu.inter hne htype) hform⟩
  | result => exact hopens.begins_result hv
  | typeGroup =>
      apply Goal.Begins.close hv .closeParen rfl
      rintro v ⟨type, htype⟩
      exact (hopens.close_typeGroup htype rfl).begins_typed
  | memberType =>
      apply Goal.Begins.close hv .closeBrace rfl
      rintro v ⟨type, htype⟩
      exact (hopens.close_memberType htype rfl).begins_typed
  | paramType =>
      apply Goal.Begins.close hv .closeParen rfl
      rintro v ⟨type, htype⟩
      exact (hopens.close_paramType htype rfl).begins_arrow
  | declared hd hn hc =>
      apply Goal.Begins.close hv .semicolon rfl
      rintro v ⟨type, htype⟩
      exact begins_of_statement (.declare hd hn hc htype rfl)
  | annotated hl hn hc =>
      apply Goal.Begins.close hv .assign rfl
      rintro v ⟨type, htype⟩
      have hvalue := Opens.typedValue (o := o) hl hn hc htype (a := .specimen .assign) rfl
      have hbegins := hvalue.begins_value (Goal.begins_nil _)
      rwa [List.append_nil] at hbegins
  | value | typedValue => exact hopens.begins_value hv
  | statement =>
      apply Goal.Begins.close hv .semicolon rfl
      rintro v ⟨tree, htree⟩
      exact begins_of_statement (.eval htree rfl)

/-- A token leads from the focus to a frame, which can be completed. -/
theorem Opens.begins_focus {f : Frame} {goal : Goal} (terminal : Terminal)
    (h : Opens o f goal (w ++ [.specimen terminal])) (hterminal : terminal.spelling?.isSome = true) :
    goal.Begins w := by
  apply Goal.begins_of_token terminal (.inl hterminal)
  have hbegins := h.begins (Goal.begins_nil f.awaits)
  rwa [List.append_nil] at hbegins

theorem FocusReads.begins {goal : Goal} {focus : Focus} (h : FocusReads goal focus w) : goal.Begins w := by
  have hfocus := h
  cases h with
  | operand | type | statement => exact Goal.begins_nil _
  | expr => exact hfocus.begins_expr
  | property hl hv hr =>
      apply Goal.begins_of_token .closeBrace (.inl rfl)
      exact (FocusReads.expr (hv.object hl .noProperties rfl) hr).begins_expr
  | @propertyColon before l n v r hl hv hn hr =>
      have hfield := Opens.field (o := 0) hl hv hn (c := .specimen .colon) rfl hr
      have hall : l :: (v ++ [n, .specimen .colon]) = l :: (v ++ [n]) ++ [.specimen .colon] := by simp
      rw [hall] at hfield
      exact hfield.begins_focus .colon rfl
  | @memberName object u d r hobject hd hr =>
      apply Goal.begins_of_token .identifier (.inr rfl)
      rw [List.append_assoc]
      exact Goal.Derivable.begins ⟨_, Rank.Derives.mono (q := .chain) (.member hobject.tree hd rfl) hr⟩
  | paramName hgoal hopen hfirst =>
      apply Goal.begins_of_token .identifier (.inr rfl)
      apply Goal.begins_of_token .closeParen (.inl rfl)
      rw [← hgoal, List.append_assoc]
      exact (hopen.close (.bare rfl) (hfirst _) rfl).begins
  | paramEnd hgoal hopen hfirst hn =>
      apply Goal.begins_of_token .closeParen (.inl rfl)
      rw [← hgoal, List.append_assoc]
      exact (hopen.close (.bare hn) (hfirst _) rfl).begins
  | arrow => exact hfocus.begins_arrow
  | typed => exact hfocus.begins_typed
  | completed hp => exact Goal.Derivable.begins ⟨_, hp.tree⟩
  | member hl hv =>
      apply Goal.begins_of_token .closeBrace (.inl rfl)
      exact (hv.objectType hl .noMembers rfl).begins_typed
  | memberEnd hl hv hn =>
      apply Goal.begins_of_token .closeBrace (.inl rfl)
      rw [List.cons_append, List.append_assoc]
      exact (hv.objectType hl (.lastMember (.bare hn)) rfl).begins_typed
  | declareName hd =>
      apply Goal.begins_of_token .identifier (.inr rfl)
      exact Opens.begins_focus (o := 0) .colon (.declared hd rfl rfl) rfl
  | declareColon hd hn => exact Opens.begins_focus (o := 0) .colon (.declared hd hn rfl) rfl
  | letName hl =>
      apply Goal.begins_of_token .identifier (.inr rfl)
      exact Opens.begins_focus (o := 0) .assign (.value hl rfl rfl) rfl
  | letEnd hl hn => exact Opens.begins_focus (o := 0) .assign (.value hl hn rfl) rfl

theorem StackReads.begins {start : Goal} {stack : List Frame} (h : StackReads o start stack u)
    (hv : (awaited start stack).Begins v) : start.Begins (u ++ v) := by
  induction h generalizing v with
  | nil => exact hv
  | cons _ hopens ih =>
      rw [List.append_assoc]
      exact ih (hopens.begins hv)

/-- Whatever stands open can be completed. -/
theorem Pending.begins {start : Goal} {stack : List Frame} {focus : Focus}
    (h : Pending o start stack focus w) : start.Begins w := by
  obtain ⟨u, v, rfl, hstack, hfocus⟩ := h
  exact hstack.begins hfocus.begins

end Parser

end Structura
