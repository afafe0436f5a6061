import Structura.Proofs.JudgmentInvariants

namespace Structura

open Traced

/-- The forms that have no rule, each with the fault it is reported as and the place of that fault. -/
inductive SourceNode.Unsupported : SourceNode → Fault → Span → Prop
  | computed (span : Span) (object index : Expr) :
      Unsupported (.expr (.computed span object index)) .computedMember span
  | spread {span : Span} {properties : List Property} {value : Expr} : .spread value ∈ properties →
      Unsupported (.expr (.object span properties)) .spreadProperty value.span
  | member {span : Span} {members : List Signature} {n : Name} : .bare n ∈ members →
      Unsupported (.type (.object span members)) (.untypedSignature n.text) n.span
  | param {span : Span} {params : List Signature} {n : Name} {result : TypeExpr} : .bare n ∈ params →
      Unsupported (.type (.function span params result)) (.untypedSignature n.text) n.span

theorem SourceNode.Reports.unsupported {I : Ty.Invariant} {node : SourceNode} {fault : Fault} {place : Span}
    (h : node.Reports I fault place) (hkind : fault.kind = .unsupported) : node.Unsupported fault place := by
  cases h with
  | computed => exact .computed _ _ _
  | spread hvalue => exact .spread hvalue
  | untypedMember hn => exact .member hn
  | untypedTypeParam hn => exact .param hn
  | _ => cases hkind

def SourceNode.Accounts (root : SourceNode) (d : Diagnostic) : Prop :=
  d.kind = .unsupported →
    ∃ node place, root.Contains node ∧ node.Unsupported d.fault place ∧ d.span = some place

theorem SourceNode.allows_accounts (root : SourceNode) : root.Allows .any root.Accounts :=
  allows_any fun node hnode _ place hreports hkind => ⟨node, place, hnode, hreports.unsupported hkind, rfl⟩

theorem Context.upholds_accounts (cx : Context) (root : SourceNode) : cx.Upholds .any root.Accounts :=
  ⟨cx.env.all_any, fun _ hkind => nomatch hkind⟩

/-- Neither values nor diagnostics are of interest here. -/
theorem Judgments.uphold_any (j : Judgments) : j.Uphold .any fun _ => True :=
  ⟨fun _ => ends_any, fun _ _ _ => ends_any⟩

theorem Entry.uphold_any (entry : Entry) : entry.Uphold .any fun _ => True := by
  cases entry with
  | field n value => exact .field trivial trivial trivial value.uphold_any
  | spread span => exact .spread trivial

/-- The properties of an object expression are gathered with distinct names. -/
theorem Rules.object?_of_synthFields {cx : Context} {entries : List Entry} {ps : List (String × Ty)}
    (h : (synthFields cx entries []).result = .ok ps) : Ty.object? ps = .ok (.object ps) := by
  have hcx : cx.Upholds .any fun _ => True := ⟨cx.env.all_any, fun _ => trivial⟩
  exact Ty.object?_eq_ok ((ends_synthFields hcx (fun entry _ => entry.uphold_any) []).ok h).1

/-- So are those of an object type. -/
theorem Signature.object?_of_convertMembers {cx : Context} {members : List Signature} {ps : List (String × Ty)}
    (h : (convertMembers members cx []).result = .ok ps) : Ty.object? ps = .ok (.object ps) := by
  have hends : (convertMembers members cx []).Ends (Ty.Invariant.any.Fresh []) fun _ => True :=
    ends_convertMembers members (fun _ _ => trivial) (fun _ _ _ => trivial) (fun _ _ _ => trivial)
      (fun _ t _ => SourceNode.allows_any fun _ _ _ _ _ => trivial) (fun _ => trivial) []
  exact Ty.object?_eq_ok (hends.ok h).1

/-- A judgment or a conversion that ends with an unsupported form names one that it contains, at its place.
Addition never meets values that are no numbers, and no name is repeated among the properties of which an object
is built. -/
theorem unsupported_only_without_rule :
    (∀ (cx : Context) (e : Expr) (d : Diagnostic),
      ((e.synth cx).result = .error d ∨ ∃ t, (e.check cx t).result = .error d) → d.kind = .unsupported →
      ∃ node place, (SourceNode.expr e).Contains node ∧ node.Unsupported d.fault place ∧
        d.span = some place) ∧
    (∀ (cx : Context) (e : TypeExpr) (d : Diagnostic), (e.convert cx).result = .error d →
      d.kind = .unsupported →
      ∃ node place, (SourceNode.type e).Contains node ∧ node.Unsupported d.fault place ∧
        d.span = some place) ∧
    (∀ (cx : Context) (op : BinaryOp) (left right : Ty) (d : Diagnostic),
      (op.apply cx left right).result = .error d → d.fault ≠ .addOfOtherValues) ∧
    (∀ (cx : Context) (entries : List Entry) (ps : List (String × Ty)),
      (Rules.synthFields cx entries []).result = .ok ps → Ty.object? ps = .ok (.object ps)) ∧
    ∀ (cx : Context) (members : List Signature) (ps : List (String × Ty)),
      (Signature.convertMembers members cx []).result = .ok ps → Ty.object? ps = .ok (.object ps) := by
  refine ⟨fun cx e d h => ?_, fun cx e d h => ?_, fun cx op left right d h => ?_,
    fun _ _ _ => Rules.object?_of_synthFields, fun _ _ _ => Signature.object?_of_convertMembers⟩
  · have hjudged := e.uphold_judgments (SourceNode.allows_accounts _)
    have hcx := cx.upholds_accounts (.expr e)
    rcases h with h | ⟨t, h⟩
    · exact (hjudged.synth hcx).error h
    · exact (hjudged.check hcx trivial).error h
  · exact (e.ends_convert (SourceNode.allows_accounts _) (cx.upholds_accounts _).deep).error h
  · have hends : (op.apply cx left right).Ends Ty.Invariant.any.holds fun d => d.fault ≠ .addOfOtherValues :=
      Ty.Invariant.any.ends_binary op left right fun _ => nofun
    exact hends.error h

/-- `!o['x']` -/
def negatedAccess : Expr :=
  .unary ⟨0, 7⟩ .not (.computed ⟨1, 7⟩ (.ident ⟨1, 2⟩ "o") (.literal ⟨3, 6⟩ (.string "x")))

/-- `null | ((x) => null)` -/
def untypedParamBranch : TypeExpr :=
  .union ⟨0, 20⟩ [.prim ⟨0, 4⟩ .null, .function ⟨8, 19⟩ [.bare ⟨"x", ⟨9, 10⟩⟩] (.prim ⟨15, 19⟩ .null)]

theorem unsupported_only_without_rule_nested :
    ((negatedAccess.check (.top .empty {} default) .boolean).result =
        .error (.located .computedMember ⟨1, 7⟩) ∧
      ∃ node place, (SourceNode.expr negatedAccess).Contains node ∧ node.Unsupported .computedMember place ∧
        some ⟨1, 7⟩ = some place) ∧
    ((untypedParamBranch.convert (.top .empty {} default)).result =
        .error (.located (.untypedSignature "x") ⟨9, 10⟩) ∧
      ∃ node place, (SourceNode.type untypedParamBranch).Contains node ∧
        node.Unsupported (.untypedSignature "x") place ∧ some ⟨9, 10⟩ = some place) ∧
    ((BinaryOp.add.apply (.top .empty {} default) .string .number).result =
        .error (.located .addOfNonNumber default) ∧ Fault.addOfNonNumber ≠ .addOfOtherValues) ∧
    Ty.object? [("a", .null)] = .ok (.object [("a", .null)]) := by
  obtain ⟨hjudged, hconverted, hadded, hsynth, -⟩ := unsupported_only_without_rule
  have hcheck : (negatedAccess.check (.top .empty {} default) .boolean).result =
      .error (.located .computedMember ⟨1, 7⟩) := rfl
  have hconvert : (untypedParamBranch.convert (.top .empty {} default)).result =
      .error (.located (.untypedSignature "x") ⟨9, 10⟩) := rfl
  have hadd : (BinaryOp.add.apply (.top .empty {} default) .string .number).result =
      .error (.located .addOfNonNumber default) := by with_unfolding_all rfl
  exact ⟨⟨hcheck, hjudged _ _ _ (.inr ⟨_, hcheck⟩) rfl⟩, ⟨hconvert, hconverted _ _ _ hconvert rfl⟩,
    ⟨hadd, hadded _ _ _ _ _ hadd⟩,
    hsynth (.top .empty {} default) [.field ⟨"a", default⟩ (Expr.null default).judgments] _ rfl⟩

end Structura
