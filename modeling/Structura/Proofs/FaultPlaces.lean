import Structura.Proofs.CanonicalJudgments
import Structura.Proofs.FailureIsolation
import Structura.Proofs.Locations

namespace Structura

open Grammar

def Span.Within (inner outer : Span) : Prop :=
  outer.start ≤ inner.start ∧ inner.start ≤ inner.stop ∧ inner.stop ≤ outer.stop

theorem SourceNode.Reports.span_cases {I : Ty.Invariant} {node : SourceNode} {fault : Fault} {place : Span}
    (h : node.Reports I fault place) : place = node.span ∨ ∃ child ∈ node.children, place = child.span := by
  cases h with
  | tooDeep | typeTooDeep | statementTooDeep | tooManyBranches | typeTooManyBranches | mismatch | unbound
  | missing | computed | wrongArity | nonNumber => exact .inl rfl
  | duplicateField hn | extraField hn => exact .inr ⟨_, Property.name_mem_nodes hn, rfl⟩
  | spread hvalue => exact .inr ⟨_, Property.value_mem_nodes hvalue, rfl⟩
  | nonObject | nonFunction => exact .inr ⟨_, List.mem_cons_self, rfl⟩
  | noSuchProperty => exact .inr ⟨_, List.mem_cons_of_mem _ List.mem_cons_self, rfl⟩
  | untypedParam hn | untypedTypeParam hn =>
      exact .inr ⟨_, List.mem_append_left _ (Signature.name_mem_nodes hn), rfl⟩
  | duplicateMember hn | untypedMember hn => exact .inr ⟨_, Signature.name_mem_nodes hn, rfl⟩

/-- Faults are found at the places of nodes. -/
theorem SourceNode.allows_places {root : SourceNode} {good : Span → Prop}
    (h : ∀ node, root.Contains node → good node.span) :
    root.Allows .any fun d => ∃ place, d.span = some place ∧ good place := by
  refine allows_any fun node hnode fault place hreports => ⟨place, rfl, ?_⟩
  rcases hreports.span_cases with rfl | ⟨child, hchild, rfl⟩
  · exact h node hnode
  · exact h child (hnode.child hchild)

/-- The nodes below a node lie within it. -/
theorem Grammar.Occupies.contains_within {root node : SourceNode} {w : List Token} (h : Occupies root w)
    (hw : Token.Ordered w) (hnode : root.Contains node) : node.span.Within root.span := by
  obtain ⟨u, w', v, rfl, hw'⟩ := h.of_contains hnode
  have hne := hw'.makes.ne_nil
  have hinside := hw.inside hne
  rw [h.makes.span_eq, hw'.makes.span_eq]
  exact ⟨hinside.1, hw.right.left.start_le_stop hne, hinside.2⟩

/-- Every failure of a program that can be read has a place, inside the statement that failed. -/
theorem Program.failures_inside_statements {code : String} {ss : List Statement}
    (h : Statement.parseAll code = .ok ss) (settings : Settings) (env : Env) :
    ∀ v ∈ judgeAll settings env ss, ∀ d, v.failure? = some d →
      ∃ place, d.span = some place ∧ v.statement.span.start ≤ place.start ∧ place.start ≤ place.stop ∧
        place.stop ≤ v.statement.span.stop := by
  intro v hv d hd
  obtain ⟨s, hs, env', rfl⟩ := exists_env_of_mem_judgeAll hv
  obtain ⟨tokens, o, hlexes, hderives⟩ := Parser.derives_of_parse_eq_ok (s := .program) h
  obtain ⟨u, w, u', rfl, hw⟩ := (Start.laid hderives).exists_of_mem (List.mem_map_of_mem hs)
  have hordered := hlexes.tokens_ordered.right.left
  have hallows : (SourceNode.statement s).Allows .any
      fun d => ∃ place, d.span = some place ∧ place.Within (SourceNode.statement s).span :=
    SourceNode.allows_places fun node hnode => hw.contains_within hordered hnode
  rw [s.statement_judge]
  exact (Statement.uphold_judge settings env'.all_any hallows).2.error (Verdict.failure?_eq_some.mp hd)

/-- The program `declare o: { x: null }; (o).y;` -/
def Program.absentProperty : List Statement :=
  [.declare ⟨0, 23⟩ ⟨"o", ⟨8, 9⟩⟩ (.object ⟨11, 22⟩ [.typed ⟨"x", ⟨13, 14⟩⟩ (.prim ⟨16, 20⟩ .null)]),
    .eval ⟨24, 30⟩ (.member ⟨24, 29⟩ (.ident ⟨25, 26⟩ "o") ⟨"y", ⟨28, 29⟩⟩)]

theorem Program.failures_inside_statements_absentProperty :
    Statement.parseAll "declare o: \x7b x: null \x7d; (o).y;" = .ok absentProperty ∧
    ∃ v ∈ judgeAll {} .empty absentProperty,
      v.failure? = some (.located (.noSuchProperty "y") ⟨28, 29⟩) ∧
      v.statement.span.start ≤ 28 ∧ 29 ≤ v.statement.span.stop := by
  have hparse : Statement.parseAll "declare o: \x7b x: null \x7d; (o).y;" = .ok absentProperty := by
    with_unfolding_all rfl
  have hfails : (judgeAll {} .empty absentProperty).map Verdict.failure? =
      [none, some (.located (.noSuchProperty "y") ⟨28, 29⟩)] := by
    with_unfolding_all rfl
  obtain ⟨v, hv, hd⟩ := List.mem_map.mp (hfails ▸ List.mem_cons_of_mem _ List.mem_cons_self)
  obtain ⟨place, hplace, hstart, -, hstop⟩ := failures_inside_statements hparse {} .empty v hv _ hd
  cases hplace
  exact ⟨hparse, v, hv, hd, hstart, hstop⟩

end Structura
