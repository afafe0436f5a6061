import Structura.Proofs.CanonicalRules

namespace Structura

namespace Ty

/-- Every union in the type has a member. Nothing else is asked: members may be redundant, overlap or stand in any
nesting. -/
inductive Populated : Ty → Prop
  | never : Populated .never
  | unknown : Populated .unknown
  | prim (p : Primitive) : Populated (.prim p)
  | literal (v : Literal) : Populated (.literal v)
  | object {ps : List (String × Ty)} : (∀ p ∈ ps, Populated p.2) → Populated (.object ps)
  | function {ps : List Ty} {r : Ty} : (∀ p ∈ ps, Populated p) → Populated r → Populated (.function ps r)
  | union {ts : List Ty} : ts ≠ [] → (∀ t ∈ ts, Populated t) → Populated (.union ts)
  | inter {ts : List Ty} : (∀ t ∈ ts, Populated t) → Populated (.inter ts)

theorem Canonical.populated {t : Ty} (h : Canonical t) : Populated t := by
  induction h with
  | never => exact .never
  | unknown => exact .unknown
  | prim p => exact .prim p
  | literal v => exact .literal v
  | object _ _ ih => exact .object ih
  | function _ _ ihparams ihresult => exact .function ihparams ihresult
  | union two _ _ _ ih => exact .union (List.ne_nil_of_length_pos (Nat.zero_lt_of_lt two)) ih
  | inter _ _ _ _ _ ih => exact .inter ih

theorem memberwise_populated : Memberwise Populated where
  never := .never
  unknown := .unknown
  union := .union
  inter := .inter
  of_union h ht := by
    cases h with
    | union _ members => exact members _ ht
  of_inter h ht := by
    cases h with
    | inter members => exact members _ ht

theorem Populated.branches_ne_nil {t : Ty} (h : Populated t) : t.branches ≠ [] := by
  cases h with
  | union hne _ => exact hne
  | _ => exact List.cons_ne_nil _ _

def population : Ty.Invariant where
  holds := Populated
  named _ := True
  never := .never
  unknown := .unknown
  prim := .prim
  boolean b := .literal (.boolean b)
  number n := .literal (.number n)
  object _ types := .object fun p hp => (types p hp).2
  function := .function
  join := memberwise_populated.holds_join
  meet := memberwise_populated.holds_meet
  tag t := (canonical_tag t).populated
  branch := memberwise_populated.branch
  property h hp := by
    cases h with
    | object types => exact ⟨trivial, types _ hp⟩
  param h hp := by
    cases h with
    | function params _ => exact params _ hp
  result h := by
    cases h with
    | function _ result => exact result

end Ty

theorem SourceNode.allows_population (root : SourceNode) : root.Allows Ty.population fun _ => True := by
  intro node _
  exact ⟨brings_of_literals Ty.Populated.literal (fun _ => trivial) node, fun _ _ _ => trivial⟩

theorem TypeExpr.populated_of_convert {e : TypeExpr} {cx : Context} {t : Ty} (h : (e.convert cx).result = .ok t) :
    t.Populated :=
  (e.ends_convert (SourceNode.allows_population _) fun _ => trivial).ok h

theorem Expr.populated_of_synth {e : Expr} {cx : Context} (hcx : cx.env.All Ty.Populated) {t : Ty}
    (h : (e.synth cx).result = .ok t) : t.Populated :=
  ((e.uphold_judgments (SourceNode.allows_population _)).synth ⟨hcx, fun _ => trivial⟩).ok h

end Structura
