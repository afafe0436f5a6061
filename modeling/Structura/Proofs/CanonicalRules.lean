import Structura.Proofs.JudgmentInvariants
import Structura.Proofs.Normalization

namespace Structura

def Fault.Canonical : Fault → Prop
  | .mismatch expected actual => expected.Canonical ∧ actual.Canonical
  | _ => True

abbrev Traced.Keeps {α : Type} (good : α → Prop) (x : Traced α) : Prop :=
  x.Ends good fun d => d.fault.Canonical

open Traced

mutual

theorem Ty.canonical_tag (t : Ty) : t.tag.Canonical := by
  match t with
  | .never => exact .never
  | .unknown => exact .prim .string
  | .prim .null | .prim .boolean | .prim .number | .prim .string => exact .literal _
  | .literal _ | .object _ | .function _ _ => exact .literal _
  | .union members =>
      rw [tag]
      exact canonical_join (canonical_tags members)
  | .inter members =>
      have htags := canonical_tags members
      rw [tag]
      split
      · exact .never
      · rename_i first rest hfirst
        split
        · exact htags first (hfirst ▸ List.mem_cons_self)
        · exact .never

theorem Ty.canonical_tags (ts : List Ty) : ∀ u ∈ tags ts, u.Canonical := by
  match ts with
  | [] => exact List.forall_mem_nil _
  | t :: ts => exact List.forall_mem_cons.mpr ⟨canonical_tag t, canonical_tags ts⟩

end

def Ty.canonicity : Ty.Invariant where
  holds := Canonical
  named _ := True
  never := .never
  unknown := .unknown
  prim := .prim
  boolean b := .literal (.boolean b)
  number n := .literal (.number n)
  object names types := .object names fun p hp => (types p hp).2
  function := .function
  join := canonical_join
  meet := canonical_meet
  tag := canonical_tag
  branch ht hb := (ht.of_mem_branches hb).1
  property ht hp := ⟨trivial, ht.property hp⟩
  param ht hp := ht.param hp
  result := .result

/-- Every literal has a canonical type, so there is nothing to ask of the source. -/
theorem SourceNode.allows_canonicity (root : SourceNode) :
    root.Allows Ty.canonicity fun d => d.fault.Canonical := by
  intro node _
  refine ⟨brings_of_literals Ty.Canonical.literal (fun _ => trivial) node, ?_⟩
  intro fault span hreports
  cases hreports with
  | mismatch _ hexpected hactual => exact ⟨hexpected, hactual⟩
  | _ => trivial

theorem TypeExpr.keeps_convert (e : TypeExpr) (cx : Context) : (e.convert cx).Keeps Ty.Canonical :=
  e.ends_convert (SourceNode.allows_canonicity _) fun _ => trivial

theorem BinaryOp.keeps_apply (cx : Context) (op : BinaryOp) (left right : Ty) :
    (op.apply cx left right).Keeps Ty.Canonical :=
  Ty.canonicity.ends_binary op left right fun _ => trivial

theorem LogicalOp.canonical_apply (op : LogicalOp) {left right : Ty} (hl : left.Canonical)
    (hr : right.Canonical) : (op.apply left right).Canonical :=
  Ty.canonicity.logical op hl hr

theorem UnaryOp.canonical_apply (op : UnaryOp) (operand : Ty) : (op.apply operand).Canonical :=
  Ty.canonicity.unary op operand

end Structura
