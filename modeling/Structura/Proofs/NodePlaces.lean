import Structura.Proofs.OpenInput
import Structura.Proofs.SourceNodes

namespace Structura

namespace Grammar

variable {u v w : List Token}

/-- Tokens that make a node, without parentheses around it. -/
inductive Makes : SourceNode → List Token → Prop
  | expr {w : List Token} {e : Expr} : DerivesExpr .expr w e → e.span = .ofTokens w → Makes (.expr e) w
  | type {w : List Token} {t : TypeExpr} : DerivesType .type w t → t.span = .ofTokens w →
      Makes (.type t) w
  | name {t : Token} : t.terminal = .identifier → Makes (.name t.name) [t]
  | statement {w : List Token} {s : Statement} : DerivesStatement w s → s.span = .ofTokens w →
      Makes (.statement s) w

inductive Laid (P : SourceNode → List Token → Prop) : List SourceNode → List Token → Prop
  | nil (w : List Token) : Laid P [] w
  | cons {node : SourceNode} {nodes : List SourceNode} (u : List Token) {w v : List Token} : P node w →
      Laid P nodes v → Laid P (node :: nodes) (u ++ (w ++ v))

inductive Occupies : SourceNode → List Token → Prop
  | mk {node : SourceNode} {w : List Token} : Makes node w → Laid Occupies node.children w → Occupies node w

section

variable {P : SourceNode → List Token → Prop} {node : SourceNode} {nodes nodes' : List SourceNode}

theorem Laid.one (h : P node w) : Laid P [node] w := by
  have hlaid := Laid.cons [] h (.nil [])
  rwa [List.append_nil] at hlaid

theorem Laid.after (u : List Token) (h : Laid P nodes w) : Laid P nodes (u ++ w) := by
  cases h with
  | nil => exact .nil _
  | cons u' hnode hrest =>
      rw [← List.append_assoc]
      exact .cons (u ++ u') hnode hrest

theorem Laid.append (h : Laid P nodes w) (h' : Laid P nodes' v) : Laid P (nodes ++ nodes') (w ++ v) := by
  induction h with
  | nil w => exact h'.after w
  | cons u hnode _ ih =>
      rw [List.append_assoc, List.append_assoc]
      exact .cons u hnode ih

theorem Laid.before (h : Laid P nodes w) (v : List Token) : Laid P nodes (w ++ v) := by
  have hlaid := h.append (.nil v)
  rwa [List.append_nil] at hlaid

theorem Laid.exists_of_mem (h : Laid P nodes w) (hnode : node ∈ nodes) :
    ∃ u w' v, w = u ++ (w' ++ v) ∧ P node w' := by
  induction h with
  | nil => cases hnode
  | @cons _ _ u w v hfirst _ ih =>
      rcases List.mem_cons.mp hnode with rfl | hrest
      · exact ⟨u, w, v, rfl, hfirst⟩
      · obtain ⟨u', w', v', rfl, hw'⟩ := ih hrest
        exact ⟨u ++ (w ++ u'), w', v', by simp, hw'⟩

end

theorem Occupies.of_contains {root node : SourceNode} (h : Occupies root w) (hnode : root.Contains node) :
    ∃ u w' v, w = u ++ (w' ++ v) ∧ Occupies node w' := by
  induction hnode with
  | self => exact ⟨[], w, [], by simp, h⟩
  | child _ hbelow ih =>
      obtain ⟨u, w₁, v, rfl, hparent⟩ := ih
      cases hparent with
      | mk _ hchildren =>
          obtain ⟨u', w', v', rfl, hw'⟩ := hchildren.exists_of_mem hbelow
          exact ⟨u ++ u', w', v' ++ v, by simp, hw'⟩

def TypeSymbol.nodes : (s : TypeSymbol) → s.Tree → List SourceNode
  | .type, t | .functionType, t | .unionType, t | .interType, t | .primaryType, t => [.type t]
  | .alternatives, ts | .requirements, ts => ts.map .type
  | .params, ps | .members, ps => ps.flatMap Signature.nodes
  | .signature, p => p.nodes

theorem laid_type {t : TypeExpr} (h : DerivesType .type w t) (hspan : t.span = .ofTokens w)
    (hchildren : Laid Occupies (SourceNode.type t).children w) : Laid Occupies [.type t] w :=
  .one (.mk (.type h hspan) hchildren)

theorem laid_name {n : Token} (hn : n.terminal = .identifier) (h : Laid Occupies nodes w) :
    Laid Occupies (.name n.name :: nodes) (n :: w) :=
  .cons [] (w := [n]) (.mk (.name hn) (.nil _)) h

theorem DerivesType.laid {s : TypeSymbol} {t : s.Tree} (h : DerivesType s w t) :
    Laid Occupies (s.nodes t) w := by
  induction h with
  | function _ ih => exact ih
  | union _ ih => exact ih
  | @arrow l r a u v params result hl hu hr ha hv ihu ihv =>
      exact laid_type (.function (.arrow hl hu hr ha hv)) rfl
        ((ihu.append (ihv.after [r, a])).after [l])
  | alternatives hu hv ihu ihv =>
      exact laid_type (.union (.alternatives hu hv)) rfl (ihu.append ihv)
  | inter _ ih => exact ih
  | lastAlternative _ _ ih => exact ih.after [_]
  | alternative _ _ _ ihu ihv => exact (ihu.append ihv).after [_]
  | requirements hu hv ihu ihv =>
      exact laid_type (.union (.inter (.requirements hu hv))) rfl (ihu.append ihv)
  | primary _ ih => exact ih
  | lastRequirement _ _ ih => exact ih.after [_]
  | requirement _ _ _ ihu ihv => exact (ihu.append ihv).after [_]
  | null ht => exact laid_type (.union (.inter (.primary (.null ht)))) rfl (.nil _)
  | boolean ht => exact laid_type (.union (.inter (.primary (.boolean ht)))) rfl (.nil _)
  | number ht => exact laid_type (.union (.inter (.primary (.number ht)))) rfl (.nil _)
  | string ht => exact laid_type (.union (.inter (.primary (.string ht)))) rfl (.nil _)
  | unknown ht => exact laid_type (.union (.inter (.primary (.unknown ht)))) rfl (.nil _)
  | never ht => exact laid_type (.union (.inter (.primary (.never ht)))) rfl (.nil _)
  | literal h => exact laid_type (.union (.inter (.primary (.literal h)))) rfl (.nil _)
  | @object l r u members hl hu hr ih =>
      exact laid_type (.union (.inter (.primary (.object hl hu hr)))) rfl ((ih.before [r]).after [l])
  | @group l r u e _ _ _ ih => exact (ih.before [r]).after [l]
  | noParams => exact .nil _
  | lastParam _ ih =>
      rw [TypeSymbol.nodes, List.flatMap_singleton]
      exact ih
  | param _ _ _ ihu ihv => exact ihu.append (ihv.after [_])
  | noMembers => exact .nil _
  | lastMember _ ih =>
      rw [TypeSymbol.nodes, List.flatMap_singleton]
      exact ih
  | member _ _ _ ihu ihv => exact ihu.append (ihv.after [_])
  | bare hn => exact laid_name hn (.nil _)
  | @typed n c u e hn _ _ ih => exact laid_name hn (ih.after [c])

def ExprSymbol.nodes : (s : ExprSymbol) → s.Tree → List SourceNode
  | .arrowParams, ps | .moreParams, ps => ps.flatMap Signature.nodes
  | .arguments, es => es.map .expr
  | .properties, ps => ps.flatMap Property.nodes
  | .property, p => p.nodes
  | .expr, e | .arrow, e | .disjunction, e | .conjunction, e | .equality, e | .relational, e
  | .additive, e | .unary, e | .chain, e | .primary, e => [.expr e]

theorem laid_expr {r : Parser.Rank} {e : Expr} (h : r.Derives w e) (hspan : e.span = .ofTokens w)
    (hchildren : Laid Occupies (SourceNode.expr e).children w) : Laid Occupies [.expr e] w :=
  .one (.mk (.expr (h.mono (Parser.Rank.le_whole r)) hspan) hchildren)

theorem DerivesExpr.laid {s : ExprSymbol} {e : s.Tree} (h : DerivesExpr s w e) :
    Laid Occupies (s.nodes e) w := by
  induction h with
  | arrow _ ih | disjunction _ ih | conjunction _ ih | equality _ ih | relational _ ih | additive _ ih
  | unary _ ih | chain _ ih | primary _ ih => exact ih
  | @function l r a u v params body hl hu hr ha hv ihu ihv =>
      exact laid_expr (r := .whole) (.arrow (.function hl hu hr ha hv)) rfl
        ((ihu.append (ihv.after [r, a])).after [l])
  | @bareFunction n a v body hn ha hv ih =>
      exact laid_expr (r := .whole) (.arrow (.bareFunction hn ha hv)) rfl (laid_name hn (ih.after [a]))
  | noParams => exact .nil _
  | @params n c u v type rest hn _ hu _ ihv =>
      exact laid_name hn ((hu.laid.append ihv).after [c])
  | noMoreParams => exact .nil _
  | moreParams _ hu _ ihv => exact (hu.laid.append ihv).after [_]
  | @or t u v left right hu ht hv ihu ihv =>
      exact laid_expr (r := .disjunction) (.or hu ht hv) rfl (ihu.append (ihv.after [t]))
  | @and t u v left right hu ht hv ihu ihv =>
      exact laid_expr (r := .conjunction) (.and hu ht hv) rfl (ihu.append (ihv.after [t]))
  | @equal t u v left right hu ht hv ihu ihv =>
      exact laid_expr (r := .equality) (.equal hu ht hv) rfl (ihu.append (ihv.after [t]))
  | @notEqual t u v left right hu ht hv ihu ihv =>
      exact laid_expr (r := .equality) (.notEqual hu ht hv) rfl (ihu.append (ihv.after [t]))
  | @ascription t u v subject type hu ht hv ihu =>
      exact laid_expr (r := .relational) (.ascription hu ht hv) rfl (ihu.append (hv.laid.after [t]))
  | @add t u v left right hu ht hv ihu ihv =>
      exact laid_expr (r := .additive) (.add hu ht hv) rfl (ihu.append (ihv.after [t]))
  | @not t v operand ht hv ih => exact laid_expr (r := .unary) (.not ht hv) rfl (ih.after [t])
  | @typeof t v operand ht hv ih => exact laid_expr (r := .unary) (.typeof ht hv) rfl (ih.after [t])
  | @member d n u object hu hd hn ih =>
      exact laid_expr (r := .chain) (.member hu hd hn) rfl
        (ih.append ((laid_name hn (.nil [])).after [d]))
  | @computed l r u v object index hu hl hv hr ihu ihv =>
      exact laid_expr (r := .chain) (.computed hu hl hv hr) rfl
        (ihu.append ((ihv.before [r]).after [l]))
  | @call l r u v callee args hu hl hv hr ihu ihv =>
      exact laid_expr (r := .chain) (.call hu hl hv hr) rfl (ihu.append ((ihv.before [r]).after [l]))
  | ident ht => exact laid_expr (r := .chain) (.primary (.ident ht)) rfl (laid_name ht (.nil []))
  | null ht => exact laid_expr (r := .chain) (.primary (.null ht)) rfl (.nil _)
  | literal h => exact laid_expr (r := .chain) (.primary (.literal h)) rfl (.nil _)
  | @object l r u properties hl hu hr ih =>
      exact laid_expr (r := .chain) (.primary (.object hl hu hr)) rfl ((ih.before [r]).after [l])
  | @group l r u e _ _ _ ih => exact (ih.before [r]).after [l]
  | noArguments => exact .nil _
  | lastArgument _ ih => exact ih
  | argument _ _ _ ihu ihv => exact ihu.append (ihv.after [_])
  | noProperties => exact .nil _
  | lastProperty _ ih =>
      rw [ExprSymbol.nodes, List.flatMap_singleton]
      exact ih
  | property _ _ _ ihu ihv => exact ihu.append (ihv.after [_])
  | @field n c u e hn _ _ ih => exact laid_name hn (ih.after [c])
  | spread _ _ ih => exact ih.after [_]

theorem laid_statement {st : Statement} (h : DerivesStatement w st) (hspan : st.span = .ofTokens w)
    (hchildren : Laid Occupies (SourceNode.statement st).children w) : Laid Occupies [.statement st] w :=
  .one (.mk (.statement h hspan) hchildren)

theorem DerivesStatement.laid {st : Statement} (h : DerivesStatement w st) :
    Laid Occupies [.statement st] w := by
  cases h with
  | @declare d n c s u type hd hn hc hu hs =>
      exact laid_statement (.declare hd hn hc hu hs) rfl
        ((laid_name hn ((hu.laid.before [s]).after [c])).after [d])
  | @bind l n a s u e hl hn ha hu hs =>
      exact laid_statement (.bind hl hn ha hu hs) rfl
        ((laid_name hn ((hu.laid.before [s]).after [a])).after [l])
  | @bindTyped l n c a s u v type e hl hn hc hu ha hv hs =>
      exact laid_statement (.bindTyped hl hn hc hu ha hv hs) rfl
        ((laid_name hn ((hu.laid.append ((hv.laid.before [s]).after [a])).after [c])).after [l])
  | @eval s u e hu hs => exact laid_statement (.eval hu hs) rfl (hu.laid.before [s])

theorem DerivesProgram.laid {ss : List Statement} (h : DerivesProgram w ss) :
    Laid Occupies (ss.map .statement) w := by
  induction h with
  | nil => exact .nil _
  | cons hst _ ih => exact hst.laid.append ih

def Start.nodes : (s : Start) → s.Tree → List SourceNode
  | .expr, e => [.expr e]
  | .type, t => [.type t]
  | .program, ss => ss.map .statement

theorem Start.laid {s : Start} {tree : s.Tree} (h : s.Derives w tree) :
    Laid Occupies (s.nodes tree) w := by
  cases s with
  | expr => exact DerivesExpr.laid h
  | type => exact DerivesType.laid h
  | program => exact DerivesProgram.laid h

end Grammar

end Structura
