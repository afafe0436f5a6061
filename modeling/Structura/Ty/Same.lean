import Structura.Ty

namespace Structura.Ty

def same : Ty → Ty → Bool
  | .never, .never => true
  | .unknown, .unknown => true
  | .prim p, .prim q => p == q
  | .literal a, .literal b => a.same b
  | .object ps, .object qs =>
      ps.length == qs.length && ps.attach.all fun ⟨(n, s), _⟩ =>
        qs.attach.any fun ⟨(m, t), _⟩ => m == n && same s t
  | .function ps r, .function qs s =>
      ps.length == qs.length && (ps.attach.zip qs.attach).all (fun (⟨p, _⟩, ⟨q, _⟩) => same p q)
        && same r s
  | .union ts, .union us =>
      ts.length == us.length
        && (ts.attach.all fun ⟨t, _⟩ => us.attach.any fun ⟨u, _⟩ => same t u)
        && (us.attach.all fun ⟨u, _⟩ => ts.attach.any fun ⟨t, _⟩ => same t u)
  | .inter ts, .inter us =>
      ts.length == us.length
        && (ts.attach.all fun ⟨t, _⟩ => us.attach.any fun ⟨u, _⟩ => same t u)
        && (us.attach.all fun ⟨u, _⟩ => ts.attach.any fun ⟨t, _⟩ => same t u)
  | _, _ => false
termination_by a b => sizeOf a + sizeOf b
decreasing_by
  all_goals simp_wf
  · have h₁ := List.sizeOf_lt_of_mem ‹(n, s) ∈ _›
    have h₂ := List.sizeOf_lt_of_mem ‹(m, t) ∈ _›
    simp at h₁ h₂
    omega
  · have h₁ := List.sizeOf_lt_of_mem ‹p ∈ _›
    have h₂ := List.sizeOf_lt_of_mem ‹q ∈ _›
    omega
  · omega
  all_goals
    have h₁ := List.sizeOf_lt_of_mem ‹t ∈ _›
    have h₂ := List.sizeOf_lt_of_mem ‹u ∈ _›
    omega

end Structura.Ty
