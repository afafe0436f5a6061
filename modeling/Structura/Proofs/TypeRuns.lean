import Structura.Proofs.TokenValues

namespace Structura

namespace Parser

variable {c c' : Config} {t : Token} {u v : List Token}

theorem feed_cons (h : c.step t = some c') : feed c (t :: v) = feed c' v := by
  rw [feed, h]

theorem feed_append (h : feed c u = .ok c') : feed c (u ++ v) = feed c' v := by
  induction u generalizing c with
  | nil =>
      cases h
      rfl
  | cons t u ih =>
      rw [List.cons_append, feed]
      rw [feed] at h
      cases hstep : c.step t with
      | none =>
          rw [hstep] at h
          cases h
      | some d =>
          rw [hstep] at h
          exact ih h

theorem step_of_move {done : List Statement} {stack stack' : List Frame} {focus focus' : Focus}
    (ht : t.terminal ≠ .semicolon) (h : move stack focus t = some (stack', focus')) :
    Config.step ⟨done, stack, focus⟩ t = some ⟨done, stack', focus'⟩ := by
  rw [Config.step, if_neg ht, h]
  rfl

open Grammar

def awaitsInter : List Frame → Bool
  | .inter _ _ :: _ => false
  | _ => true

theorem foldInter_of_awaitsInter {stack : List Frame} {p : Part TypeExpr}
    (h : awaitsInter stack = true) : foldInter stack p = (stack, p) := by
  unfold foldInter
  split
  · cases h
  · rfl

theorem foldType_of_foldInter {stack rest : List Frame} {p q : Part TypeExpr}
    (h : foldInter stack p = (rest, q)) : foldType stack p = foldType rest q := by
  unfold foldInter at h
  split at h
  · cases h
    rw [foldType]
  · cases h
    rfl

section

variable {done : List Statement} {stack stack' : List Frame} {p p' : Part TypeExpr}

theorem typedStep_eq (hamp : t.terminal ≠ .amp) (hbar : t.terminal ≠ .bar) :
    typedStep stack false p t =
      match foldType stack p with
      | (.ascription subject :: rest, type) => exprStep rest .relational (ascribe subject type) t
      | (rest, type) => closeTypeStep rest type t := by
  unfold typedStep
  split
  · contradiction
  · contradiction
  · rfl

/-- Where no type goes on, only what completes an open type matters. -/
theorem step_typed_congr (h : foldType stack p = foldType stack' p') (hamp : t.terminal ≠ .amp)
    (hbar : t.terminal ≠ .bar) :
    Config.step ⟨done, stack, .typed false p⟩ t = Config.step ⟨done, stack', .typed false p'⟩ t := by
  have hclose : close stack (.typed false p) = close stack' (.typed false p') := by
    unfold close
    simp only [h]
  have hmove : move stack (.typed false p) t = move stack' (.typed false p') t := by
    unfold move
    simp only [typedStep_eq hamp hbar, h]
  unfold Config.step statement?
  simp only [hclose, hmove]

end

structure ParamRead (c : Config) (done : List Statement) (stack : List Frame) (params : Params) :
    Prop where
  comma : ∀ t : Token, t.terminal = .comma → c.step t = some ⟨done, stack, .paramName params⟩
  close : ∀ t : Token, t.terminal = .closeParen → c.step t = some ⟨done, stack, .arrow params⟩

structure ParamNext (c : Config) (done : List Statement) (stack : List Frame) (params : Params) :
    Prop where
  name : ∀ t : Token, t.terminal = .identifier → c.step t = some ⟨done, stack, .paramEnd params t.name⟩

structure MemberRead (c : Config) (done : List Statement) (stack : List Frame) (start : Nat)
    (members : List Signature) : Prop where
  separator : ∀ t : Token, t.terminal = .semicolon ∨ t.terminal = .comma →
    c.step t = some ⟨done, stack, .member start members⟩
  close : ∀ t : Token, t.terminal = .closeBrace →
    c.step t = some ⟨done, stack, objectType start members t⟩

def TypeRuns : (s : TypeSymbol) → List Token → s.Tree → Prop
  | .type, w, e | .functionType, w, e | .unionType, w, e =>
      ∀ done stack, awaitsWholeType stack = true → ∃ stack' p,
        feed ⟨done, stack, .type⟩ w = .ok ⟨done, stack', .typed false p⟩ ∧
          foldType stack' p = foldType stack ⟨.ofTokens w, e⟩
  | .interType, w, e =>
      ∀ done stack, awaitsInter stack = true → ∃ stack' p,
        feed ⟨done, stack, .type⟩ w = .ok ⟨done, stack', .typed false p⟩ ∧
          foldInter stack' p = (stack, ⟨.ofTokens w, e⟩)
  | .primaryType, w, e =>
      ∀ done stack, feed ⟨done, stack, .type⟩ w = .ok ⟨done, stack, .typed false ⟨.ofTokens w, e⟩⟩
  | .alternatives, w, es =>
      ∀ done stack p start before rest,
        (∀ t : Token, t.terminal = .bar → move stack (.typed false p) t =
          some (.union start before :: rest, .type)) → ∃ stack' p',
        feed ⟨done, stack, .typed false p⟩ w = .ok ⟨done, stack', .typed false p'⟩ ∧
          foldType stack' p' = foldType rest
            ⟨⟨start, (Span.ofTokens w).stop⟩,
              .union ⟨start, (Span.ofTokens w).stop⟩ (before.reverse ++ es)⟩
  | .requirements, w, es =>
      ∀ done stack p start before rest,
        (∀ t : Token, t.terminal = .amp → move stack (.typed false p) t =
          some (.inter start before :: rest, .type)) → ∃ stack' p',
        feed ⟨done, stack, .typed false p⟩ w = .ok ⟨done, stack', .typed false p'⟩ ∧
          foldInter stack' p' = (rest,
            ⟨⟨start, (Span.ofTokens w).stop⟩,
              .inter ⟨start, (Span.ofTokens w).stop⟩ (before.reverse ++ es)⟩)
  | .params, w, ps =>
      ∀ c done stack params, ParamNext c done stack params →
        (∀ t : Token, t.terminal = .closeParen → c.step t = some ⟨done, stack, .arrow params⟩) →
        params.owner = .functionType → ∀ t : Token, t.terminal = .closeParen →
        feed c (w ++ [t]) =
          .ok ⟨done, stack, .arrow { params with before := ps.reverse ++ params.before }⟩
  | .members, w, ms =>
      ∀ done stack start before, ∀ t : Token, t.terminal = .closeBrace →
        feed ⟨done, stack, .member start before⟩ (w ++ [t]) =
          .ok ⟨done, stack, objectType start (ms.reverse ++ before) t⟩
  | .signature, w, p =>
      (∀ c done stack params, ParamNext c done stack params →
        ∃ c', feed c w = .ok c' ∧ ParamRead c' done stack (params.add p)) ∧
      ∀ done stack start before, ∃ c',
        feed ⟨done, stack, .member start before⟩ w = .ok c' ∧
          MemberRead c' done stack start (p :: before)

end Parser

namespace Grammar

def TypeSymbol.mayBeEmpty : TypeSymbol → Bool
  | .params | .members => true
  | _ => false

theorem DerivesType.ne_nil {s : TypeSymbol} {w : List Token} {e : s.Tree} (h : DerivesType s w e)
    (hs : s.mayBeEmpty = false) : w ≠ [] := by
  induction h <;> simp_all [TypeSymbol.mayBeEmpty]

end Grammar

namespace Parser

open Grammar

section

variable {u v : List Token} {e : TypeExpr} {es : List TypeExpr}

theorem typeRuns_arrow {l r a : Token} {params : List Signature} (hl : l.terminal = .openParen)
    (hu : TypeRuns .params u params) (hr : r.terminal = .closeParen) (ha : a.terminal = .arrow)
    (hv : TypeRuns .type v e) (hne : v ≠ []) :
    TypeRuns .functionType (l :: (u ++ r :: a :: v))
      (.function (.ofTokens (l :: (u ++ r :: a :: v))) params e) := by
  intro done stack hstack
  have hopen : Config.step ⟨done, stack, .type⟩ l =
      some ⟨done, .typeGroup l.span.start true :: stack, .type⟩ := by
    apply step_of_move (by simp [hl])
    simp [move, typeStep, hl, hstack]
  have hparams : feed ⟨done, .typeGroup l.span.start true :: stack, .type⟩ (u ++ [r]) =
      .ok ⟨done, stack, .arrow ⟨.functionType, l.span.start, params.reverse ++ []⟩⟩ := by
    refine hu _ done stack ⟨.functionType, l.span.start, []⟩ ⟨fun t ht => ?_⟩ (fun t ht => ?_) rfl r hr
    · exact step_of_move (by simp [ht]) (by simp [move, typeStep, ht])
    · exact step_of_move (by simp [ht]) (by simp [move, typeStep, ht])
  have harrow : Config.step ⟨done, stack, .arrow ⟨.functionType, l.span.start, params.reverse ++ []⟩⟩ a =
      some ⟨done, .result l.span.start params :: stack, .type⟩ := by
    apply step_of_move (by simp [ha])
    simp [move, arrowStep, ha]
  have hspan : Span.ofTokens (l :: (u ++ r :: a :: v)) = ⟨l.span.start, (Span.ofTokens v).stop⟩ := by
    rw [Span.ofTokens_cons (by simp), Span.stop_ofTokens_append (by simp),
      Span.stop_ofTokens_cons (by simp), Span.stop_ofTokens_cons hne]
  obtain ⟨stack', p, hfeed, hfold⟩ := hv done (.result l.span.start params :: stack) rfl
  refine ⟨stack', p, ?_, ?_⟩
  · rw [feed_cons hopen, List.append_cons, feed_append hparams, feed_cons harrow, hfeed]
  · rw [hfold, foldType, hspan]
    rfl

theorem awaitsInter_of_awaitsWholeType {stack : List Frame} (h : awaitsWholeType stack = true) :
    awaitsInter stack = true := by
  unfold awaitsInter
  split
  · cases h
  · rfl

section

variable {stack stack' rest : List Frame} {p q : Part TypeExpr} {start : Nat} {before : List TypeExpr}
  {t : Token}

theorem move_bar (hstack : awaitsWholeType stack = true) (h : foldInter stack' p = (stack, q))
    (ht : t.terminal = .bar) :
    move stack' (.typed false p) t = some (.union q.span.start [q.tree] :: stack, .type) := by
  simp only [move, typedStep, ht, h]
  split
  · rename_i heq
    cases heq
    cases hstack
  · rename_i heq
    cases heq
    rfl

theorem move_bar_union (h : foldInter stack' p = (.union start before :: rest, q))
    (ht : t.terminal = .bar) :
    move stack' (.typed false p) t = some (.union start (q.tree :: before) :: rest, .type) := by
  simp only [move, typedStep, ht, h]

theorem move_amp (hstack : awaitsInter stack = true) (ht : t.terminal = .amp) :
    move stack (.typed false p) t = some (.inter p.span.start [p.tree] :: stack, .type) := by
  simp only [move, typedStep, ht]
  split
  · cases hstack
  · rfl

theorem move_amp_inter (ht : t.terminal = .amp) :
    move (.inter start before :: rest) (.typed false p) t =
      some (.inter start (p.tree :: before) :: rest, .type) := by
  simp only [move, typedStep, ht]

end

theorem typeRuns_alternatives (hu : TypeRuns .interType u e) (hv : TypeRuns .alternatives v es)
    (hune : u ≠ []) (hvne : v ≠ []) :
    TypeRuns .unionType (u ++ v) (.union (.ofTokens (u ++ v)) (e :: es)) := by
  intro done stack hstack
  obtain ⟨stack₁, p, hfeed₁, hfold₁⟩ := hu done stack (awaitsInter_of_awaitsWholeType hstack)
  obtain ⟨stack₂, q, hfeed₂, hfold₂⟩ := hv done stack₁ p _ _ _ fun t ht => move_bar hstack hfold₁ ht
  refine ⟨stack₂, q, ?_, ?_⟩
  · rw [feed_append hfeed₁, hfeed₂]
  · rw [hfold₂, Span.ofTokens_append hune hvne]
    rfl

theorem typeRuns_inter (hu : TypeRuns .interType u e) : TypeRuns .unionType u e := by
  intro done stack hstack
  obtain ⟨stack', p, hfeed, hfold⟩ := hu done stack (awaitsInter_of_awaitsWholeType hstack)
  exact ⟨stack', p, hfeed, foldType_of_foldInter hfold⟩

theorem typeRuns_lastAlternative {t : Token} (ht : t.terminal = .bar) (hu : TypeRuns .interType u e)
    (hne : u ≠ []) : TypeRuns .alternatives (t :: u) [e] := by
  intro done stack p start before rest hbar
  obtain ⟨stack', q, hfeed, hfold⟩ := hu done (.union start before :: rest) rfl
  refine ⟨stack', q, ?_, ?_⟩
  · rw [feed_cons (step_of_move (by simp [ht]) (hbar t ht)), hfeed]
  · rw [foldType_of_foldInter hfold, foldType, Span.stop_ofTokens_cons hne, ← List.reverse_cons]
    rfl

theorem typeRuns_alternative {t : Token} (ht : t.terminal = .bar) (hu : TypeRuns .interType u e)
    (hv : TypeRuns .alternatives v es) (hne : v ≠ []) :
    TypeRuns .alternatives (t :: (u ++ v)) (e :: es) := by
  intro done stack p start before rest hbar
  obtain ⟨stack₁, p₁, hfeed₁, hfold₁⟩ := hu done (.union start before :: rest) rfl
  obtain ⟨stack₂, p₂, hfeed₂, hfold₂⟩ := hv done stack₁ p₁ _ _ _ fun t ht => move_bar_union hfold₁ ht
  refine ⟨stack₂, p₂, ?_, ?_⟩
  · rw [feed_cons (step_of_move (by simp [ht]) (hbar t ht)), feed_append hfeed₁, hfeed₂]
  · rw [hfold₂, Span.stop_ofTokens_cons (by simp [hne]), Span.stop_ofTokens_append hne,
      List.reverse_cons, List.append_assoc, List.singleton_append]

theorem typeRuns_requirements (hu : TypeRuns .primaryType u e) (hv : TypeRuns .requirements v es)
    (hune : u ≠ []) (hvne : v ≠ []) :
    TypeRuns .interType (u ++ v) (.inter (.ofTokens (u ++ v)) (e :: es)) := by
  intro done stack hstack
  obtain ⟨stack', q, hfeed, hfold⟩ := hv done stack _ _ _ _ fun t ht => move_amp hstack ht
  refine ⟨stack', q, ?_, ?_⟩
  · rw [feed_append (hu done stack), hfeed]
  · rw [hfold, Span.ofTokens_append hune hvne]
    rfl

theorem typeRuns_primary (hu : TypeRuns .primaryType u e) : TypeRuns .interType u e := by
  intro done stack hstack
  exact ⟨stack, _, hu done stack, foldInter_of_awaitsInter hstack⟩

theorem typeRuns_lastRequirement {t : Token} (ht : t.terminal = .amp) (hu : TypeRuns .primaryType u e)
    (hne : u ≠ []) : TypeRuns .requirements (t :: u) [e] := by
  intro done stack p start before rest hamp
  refine ⟨.inter start before :: rest, ⟨.ofTokens u, e⟩, ?_, ?_⟩
  · rw [feed_cons (step_of_move (by simp [ht]) (hamp t ht)), hu]
  · rw [foldInter, Span.stop_ofTokens_cons hne, ← List.reverse_cons]
    rfl

theorem typeRuns_requirement {t : Token} (ht : t.terminal = .amp) (hu : TypeRuns .primaryType u e)
    (hv : TypeRuns .requirements v es) (hne : v ≠ []) :
    TypeRuns .requirements (t :: (u ++ v)) (e :: es) := by
  intro done stack p start before rest hamp
  obtain ⟨stack', q, hfeed, hfold⟩ := hv done _ _ _ _ _ fun t ht => move_amp_inter ht
  refine ⟨stack', q, ?_, ?_⟩
  · rw [feed_cons (step_of_move (by simp [ht]) (hamp t ht)), feed_append (hu done _), hfeed]
  · rw [hfold, Span.stop_ofTokens_cons (by simp [hne]), Span.stop_ofTokens_append hne,
      List.reverse_cons, List.append_assoc, List.singleton_append]

theorem typeRuns_simple {t : Token} (ht : t.simpleType? = some e) : TypeRuns .primaryType [t] e := by
  intro done stack
  have hsemi : t.terminal ≠ .semicolon := by
    intro h
    simp [Token.simpleType?, Token.literal?, h] at ht
  refine feed_cons (step_of_move hsemi ?_)
  change typeStep stack t = _
  unfold typeStep
  split
  case h_5 => rw [ht]; rfl
  all_goals
    rename_i h
    simp [Token.simpleType?, Token.literal?, h] at ht

theorem simpleType?_of_denotes {t : Token} {value : Literal} (h : t.Denotes value) :
    t.simpleType? = some (.literal t.span value) := by
  have hliteral := h.literal?
  unfold Token.simpleType?
  split
  case h_7 => rw [hliteral]; rfl
  all_goals
    rename_i ht
    simp [Token.literal?, ht] at hliteral

theorem typeRuns_object {l r : Token} {members : List Signature} (hl : l.terminal = .openBrace)
    (hu : TypeRuns .members u members) (hr : r.terminal = .closeBrace) :
    TypeRuns .primaryType (l :: (u ++ [r])) (.object (.ofTokens (l :: (u ++ [r]))) members) := by
  intro done stack
  have hopen : Config.step ⟨done, stack, .type⟩ l = some ⟨done, stack, .member l.span.start []⟩ :=
    step_of_move (by simp [hl]) (by simp [move, typeStep, hl])
  rw [feed_cons hopen, hu done stack l.span.start [] r hr, Span.ofTokens_delimited, objectType, List.append_nil,
    List.reverse_reverse]

theorem typeRuns_group {l r : Token} (hl : l.terminal = .openParen) (hu : TypeRuns .type u e)
    (hr : r.terminal = .closeParen) : TypeRuns .primaryType (l :: (u ++ [r])) e := by
  intro done stack
  have hopen : Config.step ⟨done, stack, .type⟩ l =
      some ⟨done, .typeGroup l.span.start (awaitsWholeType stack) :: stack, .type⟩ :=
    step_of_move (by simp [hl]) (by simp [move, typeStep, hl])
  obtain ⟨stack', p, hfeed, hfold⟩ :=
    hu done (.typeGroup l.span.start (awaitsWholeType stack) :: stack) rfl
  have hclose : Config.step ⟨done, stack', .typed false p⟩ r =
      some ⟨done, stack, .typed false ⟨⟨l.span.start, r.span.stop⟩, e⟩⟩ := by
    rw [step_typed_congr hfold (by simp [hr]) (by simp [hr])]
    apply step_of_move (by simp [hr])
    simp [move, typedStep, foldType, closeTypeStep, hr]
  rw [feed_cons hopen, feed_append hfeed, feed_cons hclose, Span.ofTokens_delimited]
  rfl

end

section

variable {u v : List Token} {p : Signature} {ps : List Signature}

theorem typeRuns_bare {n : Token} (hn : n.terminal = .identifier) :
    TypeRuns .signature [n] (.bare n.name) := by
  constructor
  · intro c done stack params hnext
    refine ⟨⟨done, stack, .paramEnd params n.name⟩, feed_cons (hnext.name n hn), ?_, ?_⟩
    · intro t ht
      exact step_of_move (by simp [ht]) (by simp [move, paramEndStep, ht])
    · intro t ht
      exact step_of_move (by simp [ht]) (by simp [move, paramEndStep, ht])
  · intro done stack start before
    have hname : Config.step ⟨done, stack, .member start before⟩ n =
        some ⟨done, stack, .memberEnd start before n.name⟩ :=
      step_of_move (by simp [hn]) (by simp [move, memberStep, hn])
    refine ⟨⟨done, stack, .memberEnd start before n.name⟩, feed_cons hname, ?_, ?_⟩
    · rintro t (ht | ht)
      · simp [Config.step, statement?, close, move, memberEndStep, ht]
      · exact step_of_move (by simp [ht]) (by simp [move, memberEndStep, ht])
    · intro t ht
      exact step_of_move (by simp [ht]) (by simp [move, memberEndStep, ht])

theorem typeRuns_typed {n c : Token} {e : TypeExpr} (hn : n.terminal = .identifier)
    (hc : c.terminal = .colon) (hu : TypeRuns .type u e) :
    TypeRuns .signature (n :: c :: u) (.typed n.name e) := by
  constructor
  · intro d done stack params hnext
    have hcolon : Config.step ⟨done, stack, .paramEnd params n.name⟩ c =
        some ⟨done, .paramType params n.name :: stack, .type⟩ :=
      step_of_move (by simp [hc]) (by simp [move, paramEndStep, hc])
    obtain ⟨stack', q, hfeed, hfold⟩ := hu done (.paramType params n.name :: stack) rfl
    refine ⟨⟨done, stack', .typed false q⟩, ?_, ?_, ?_⟩
    · rw [feed_cons (hnext.name n hn), feed_cons hcolon, hfeed]
    · intro t ht
      rw [step_typed_congr hfold (by simp [ht]) (by simp [ht])]
      exact step_of_move (by simp [ht]) (by simp [move, typedStep, foldType, closeTypeStep, ht])
    · intro t ht
      rw [step_typed_congr hfold (by simp [ht]) (by simp [ht])]
      exact step_of_move (by simp [ht]) (by simp [move, typedStep, foldType, closeTypeStep, ht])
  · intro done stack start before
    have hname : Config.step ⟨done, stack, .member start before⟩ n =
        some ⟨done, stack, .memberEnd start before n.name⟩ :=
      step_of_move (by simp [hn]) (by simp [move, memberStep, hn])
    have hcolon : Config.step ⟨done, stack, .memberEnd start before n.name⟩ c =
        some ⟨done, .memberType start before n.name :: stack, .type⟩ :=
      step_of_move (by simp [hc]) (by simp [move, memberEndStep, hc])
    obtain ⟨stack', q, hfeed, hfold⟩ := hu done (.memberType start before n.name :: stack) rfl
    refine ⟨⟨done, stack', .typed false q⟩, ?_, ?_, ?_⟩
    · rw [feed_cons hname, feed_cons hcolon, hfeed]
    · rintro t (ht | ht)
      · rw [step_typed_congr hfold (by simp [ht]) (by simp [ht])]
        simp [Config.step, statement?, close, move, typedStep, foldType, closeTypeStep, ht]
      · rw [step_typed_congr hfold (by simp [ht]) (by simp [ht])]
        exact step_of_move (by simp [ht]) (by simp [move, typedStep, foldType, closeTypeStep, ht])
    · intro t ht
      rw [step_typed_congr hfold (by simp [ht]) (by simp [ht])]
      exact step_of_move (by simp [ht]) (by simp [move, typedStep, foldType, closeTypeStep, ht])

theorem typeRuns_lastParam (hu : TypeRuns .signature u p) : TypeRuns .params u [p] := by
  intro c done stack params hnext _ _ t ht
  obtain ⟨c', hfeed, hread⟩ := hu.1 c done stack params hnext
  rw [feed_append hfeed, feed_cons (hread.close t ht)]
  rfl

theorem typeRuns_param {t : Token} (hu : TypeRuns .signature u p) (ht : t.terminal = .comma)
    (hv : TypeRuns .params v ps) : TypeRuns .params (u ++ t :: v) (p :: ps) := by
  intro c done stack params hnext _ howner r hr
  obtain ⟨c', hfeed, hread⟩ := hu.1 c done stack params hnext
  have hrest := hv ⟨done, stack, .paramName (params.add p)⟩ done stack (params.add p)
    ⟨fun n hn => step_of_move (by simp [hn]) (by simp [move, paramNameStep, hn])⟩
    (fun r hr => step_of_move (by simp [hr]) (by simp [move, paramNameStep, hr, Params.add, howner]))
    howner r hr
  rw [List.append_assoc, feed_append hfeed, List.cons_append, feed_cons (hread.comma t ht), hrest,
    List.reverse_cons, List.append_assoc]
  rfl

theorem typeRuns_lastMember (hu : TypeRuns .signature u p) : TypeRuns .members u [p] := by
  intro done stack start before t ht
  obtain ⟨c, hfeed, hread⟩ := hu.2 done stack start before
  rw [feed_append hfeed, feed_cons (hread.close t ht)]
  rfl

theorem typeRuns_member {t : Token} (hu : TypeRuns .signature u p)
    (ht : t.terminal = .semicolon ∨ t.terminal = .comma) (hv : TypeRuns .members v ps) :
    TypeRuns .members (u ++ t :: v) (p :: ps) := by
  intro done stack start before r hr
  obtain ⟨c, hfeed, hread⟩ := hu.2 done stack start before
  rw [List.append_assoc, feed_append hfeed, List.cons_append, feed_cons (hread.separator t ht),
    hv done stack start (p :: before) r hr, List.reverse_cons, List.append_assoc]
  rfl

end

theorem typeRuns {s : TypeSymbol} {w : List Token} {e : s.Tree} (h : DerivesType s w e) :
    TypeRuns s w e := by
  induction h with
  | function _ ih => exact ih
  | union _ ih => exact ih
  | arrow hl _ hr ha hv ihu ihv => exact typeRuns_arrow hl ihu hr ha ihv (hv.ne_nil rfl)
  | alternatives hu hv ihu ihv =>
      exact typeRuns_alternatives ihu ihv (hu.ne_nil rfl) (hv.ne_nil rfl)
  | inter _ ih => exact typeRuns_inter ih
  | lastAlternative ht hu ih => exact typeRuns_lastAlternative ht ih (hu.ne_nil rfl)
  | alternative ht _ hv ihu ihv => exact typeRuns_alternative ht ihu ihv (hv.ne_nil rfl)
  | requirements hu hv ihu ihv =>
      exact typeRuns_requirements ihu ihv (hu.ne_nil rfl) (hv.ne_nil rfl)
  | primary _ ih => exact typeRuns_primary ih
  | lastRequirement ht hu ih => exact typeRuns_lastRequirement ht ih (hu.ne_nil rfl)
  | requirement ht _ hv ihu ihv => exact typeRuns_requirement ht ihu ihv (hv.ne_nil rfl)
  | null ht | boolean ht | number ht | string ht | unknown ht | never ht =>
      exact typeRuns_simple (by simp [Token.simpleType?, ht])
  | literal h => exact typeRuns_simple (simpleType?_of_denotes h)
  | object hl _ hr ih => exact typeRuns_object hl ih hr
  | group hl _ hr ih => exact typeRuns_group hl ih hr
  | noParams => exact fun c done stack params _ hclose _ t ht => feed_cons (hclose t ht)
  | lastParam _ ih => exact typeRuns_lastParam ih
  | param _ ht _ ihu ihv => exact typeRuns_param ihu ht ihv
  | noMembers =>
      exact fun done stack start before t ht => feed_cons
        (step_of_move (by simp [ht]) (by simp [move, memberStep, ht]))
  | lastMember _ ih => exact typeRuns_lastMember ih
  | member _ ht _ ihu ihv => exact typeRuns_member ihu ht ihv
  | bare hn => exact typeRuns_bare hn
  | typed hn hc _ ih => exact typeRuns_typed hn hc ih

end Parser

end Structura
