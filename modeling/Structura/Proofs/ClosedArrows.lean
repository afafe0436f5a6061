import Structura.Proofs.NodePlaces
import Structura.Proofs.PrintedText

namespace Structura

def SourceNode.IsAnnotated : SourceNode → Prop
  | .expr (.function _ (.bare _ :: _) _) => False
  | _ => True

def Token.ArrowsClosed (w : List Token) : Prop :=
  ∀ u a v, w = u ++ a :: v → a.terminal = .arrow → ∃ u' r, u = u' ++ [r] ∧ r.terminal = .closeParen

namespace Token.ArrowsClosed

variable {t r a : Token} {u v w : List Token}

theorem nil : ArrowsClosed [] := by
  intro u a v h
  simp at h

theorem one {k : Terminal} (ht : t.terminal = k) (hk : k ≠ .arrow) : ArrowsClosed [t] := by
  intro u a v h ha
  obtain ⟨rfl, htail⟩ | ⟨u, rfl, htail⟩ := List.cons_eq_append_iff.mp h
  · obtain ⟨rfl, -⟩ := List.cons.inj htail
    exact absurd (ht.symm.trans ha) hk
  · simp at htail

theorem append (h : ArrowsClosed u) (h' : ArrowsClosed v) : ArrowsClosed (u ++ v) := by
  intro x a y heq ha
  rcases List.append_eq_append_iff.mp heq with ⟨m, rfl, hm⟩ | ⟨m, hm, hy⟩
  · obtain ⟨u', r, rfl, hr⟩ := h' m a y hm ha
    exact ⟨u ++ u', r, (List.append_assoc _ _ _).symm, hr⟩
  · cases m with
    | nil =>
        obtain ⟨u', r, hnil, -⟩ := h' [] a y hy.symm ha
        simp at hnil
    | cons b m =>
        obtain ⟨rfl, -⟩ := List.cons.inj hy
        exact h x a m hm ha

theorem cons {k : Terminal} (ht : t.terminal = k) (hk : k ≠ .arrow) (h : ArrowsClosed w) : ArrowsClosed (t :: w) :=
  (one ht hk).append h

theorem behind (hr : r.terminal = .closeParen) (h : ArrowsClosed w) : ArrowsClosed (r :: a :: w) := by
  have hpair : ArrowsClosed [r, a] := by
    intro u b v heq hb
    rcases u with _ | ⟨r', _ | ⟨c, u⟩⟩
    · obtain ⟨rfl, -⟩ := List.cons.inj heq
      rw [hr] at hb
      cases hb
    · obtain ⟨rfl, -⟩ := List.cons.inj heq
      exact ⟨[], r, rfl, hr⟩
    · simp at heq
  exact hpair.append h

theorem closeParen_of_arrow (h : ArrowsClosed (u ++ t :: a :: v)) (ha : a.terminal = .arrow) :
    t.terminal = .closeParen := by
  obtain ⟨u', r, heq, hr⟩ := h (u ++ [t]) a v (by simp) ha
  obtain ⟨-, hlast⟩ := List.append_inj' heq rfl
  obtain ⟨rfl, -⟩ := List.cons.inj hlast
  exact hr

end Token.ArrowsClosed

theorem Lexer.Series.arrowsClosed {α : Type} {item : List Token → α → Prop} {sign : Terminal} {w : List Token}
    {as : List α} (h : Series item sign w as) (hsign : sign ≠ .arrow)
    (hitem : ∀ a w, item w a → Token.ArrowsClosed w) : Token.ArrowsClosed w := by
  rcases h with ⟨-, rfl⟩ | h
  · exact .nil
  · induction h with
    | one hu => exact hitem _ _ hu
    | cons hu hs _ ih => exact (hitem _ _ hu).append (.cons hs hsign ih)

theorem Token.Denotes.arrowsClosed {t : Token} {value : Literal} (h : t.Denotes value) : ArrowsClosed [t] := by
  cases h with
  | trueWord ht | falseWord ht | number ht _ _ | doubleQuoted ht _ | singleQuoted ht _ =>
      exact .one ht (by decide)

namespace Grammar

open Token

theorem DerivesType.arrowsClosed {s : TypeSymbol} {w : List Token} {t : s.Tree} (h : DerivesType s w t) :
    ArrowsClosed w := by
  induction h with
  | function _ ih | union _ ih | inter _ ih | primary _ ih | lastParam _ ih | lastMember _ ih => exact ih
  | arrow hl _ hr _ _ ihu ihv => exact .cons hl (by decide) (ihu.append (.behind hr ihv))
  | alternatives _ _ ihu ihv | requirements _ _ ihu ihv => exact ihu.append ihv
  | lastAlternative ht _ ih | lastRequirement ht _ ih => exact .cons ht (by decide) ih
  | alternative ht _ _ ihu ihv | requirement ht _ _ ihu ihv => exact .cons ht (by decide) (ihu.append ihv)
  | null ht | boolean ht | number ht | string ht | unknown ht | never ht | bare ht => exact .one ht (by decide)
  | literal h => exact h.arrowsClosed
  | object hl _ hr ih | group hl _ hr ih => exact .cons hl (by decide) (ih.append (.one hr (by decide)))
  | noParams | noMembers => exact .nil
  | param _ ht _ ihu ihv => exact ihu.append (.cons ht (by decide) ihv)
  | member _ ht _ ihu ihv =>
      rcases ht with ht | ht
      · exact ihu.append (.cons ht (by decide) ihv)
      · exact ihu.append (.cons ht (by decide) ihv)
  | typed hn hc _ ih => exact .cons hn (by decide) (.cons hc (by decide) ih)

def BareArrow (w : List Token) : Prop :=
  ∃ u n a v, w = u ++ n :: a :: v ∧ n.terminal = .identifier ∧ a.terminal = .arrow

theorem BareArrow.among {w : List Token} (h : BareArrow w) (u v : List Token) : BareArrow (u ++ (w ++ v)) := by
  obtain ⟨u', n, a, v', rfl, hn, ha⟩ := h
  exact ⟨u ++ u', n, a, v' ++ v, by simp, hn, ha⟩

def ExprSymbol.isTerm : ExprSymbol → Bool
  | .arrowParams | .moreParams | .arguments | .properties | .property => false
  | _ => true

theorem DerivesExpr.bareArrow {s : ExprSymbol} {w : List Token} {e : s.Tree} (h : DerivesExpr s w e)
    (hs : s.isTerm = true) (hbare : ∃ node ∈ s.nodes e, ¬node.IsAnnotated) : BareArrow w := by
  have hnone {f : Expr} {w : List Token} (h : ∃ node ∈ [SourceNode.expr f], ¬node.IsAnnotated)
      (hf : (SourceNode.expr f).IsAnnotated) : BareArrow w := by
    obtain ⟨node, hnode, hbare⟩ := h
    obtain rfl := List.mem_singleton.mp hnode
    exact absurd hf hbare
  induction h with
  | arrow _ ih | disjunction _ ih | conjunction _ ih | equality _ ih | relational _ ih | additive _ ih
  | unary _ ih | chain _ ih | primary _ ih => exact ih rfl hbare
  | function _ hu _ _ _ _ _ =>
      cases hu with
      | noParams | params => exact hnone hbare trivial
  | @bareFunction n a v _ hn ha _ _ => exact ⟨[], n, a, v, rfl, hn, ha⟩
  | @group l r u e _ _ _ ih => exact (ih rfl hbare).among [l] [r]
  | or | and | equal | notEqual | ascription | add | not | typeof | member | computed | call | ident | null
  | literal | object => exact hnone hbare trivial
  | noParams | params | noMoreParams | moreParams | noArguments | lastArgument | argument | noProperties
  | lastProperty | property | field | spread => cases hs

/-- Where every arrow follows a parenthesis, all functions have a type for their first parameter. -/
theorem DerivesExpr.throughout_isAnnotated {w : List Token} {e : Expr} (h : DerivesExpr .expr w e)
    (hclosed : ArrowsClosed w) : (SourceNode.expr e).Throughout SourceNode.IsAnnotated := by
  intro node hnode
  by_contra hbare
  obtain ⟨u, w₁, v, rfl, hroot⟩ := h.laid.exists_of_mem List.mem_cons_self
  obtain ⟨u₁, w₂, v₁, rfl, hbelow⟩ := hroot.of_contains hnode
  cases hbelow with
  | mk hmakes _ =>
      cases hmakes with
      | expr he _ =>
          -- The tokens of the function stand among all tokens, and so do its name and its arrow.
          have harrow : BareArrow w₂ := he.bareArrow rfl ⟨_, List.mem_cons_self, hbare⟩
          obtain ⟨x, n, a, y, heq, hn, ha⟩ := (harrow.among u₁ v₁).among u v
          rw [heq] at hclosed
          have hparen := hclosed.closeParen_of_arrow ha
          rw [hn] at hparen
          cases hparen
      | type | name | statement => exact hbare trivial

end Grammar

end Structura
