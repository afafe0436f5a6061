import Structura.Ty

namespace Structura.Ty

/-- No value can belong to both types. Two objects clash as soon as one shared property does. -/
def disjoint : Ty → Ty → Bool
  | .never, _ => true
  | _, .never => true
  | .unknown, _ => false
  | _, .unknown => false
  | .union ts, b => ts.attach.all fun ⟨t, _⟩ => disjoint t b
  | a, .union us => us.attach.all fun ⟨u, _⟩ => disjoint a u
  | .inter ts, b => ts.attach.any fun ⟨t, _⟩ => disjoint t b
  | a, .inter us => us.attach.any fun ⟨u, _⟩ => disjoint a u
  | .literal a, .literal b => !a.same b
  | .literal a, .prim q => a.base != q
  | .prim p, .literal b => b.base != p
  | .prim p, .prim q => p != q
  | .object ps, .object qs =>
      ps.attach.any fun ⟨(n, s), _⟩ => qs.attach.any fun ⟨(m, t), _⟩ => m == n && disjoint s t
  | .function _ _, .function _ _ => false
  | _, _ => true
termination_by a b => sizeOf a + sizeOf b
decreasing_by
  all_goals simp_wf
  · have := List.sizeOf_lt_of_mem ‹t ∈ _›
    omega
  · have := List.sizeOf_lt_of_mem ‹u ∈ _›
    omega
  · have := List.sizeOf_lt_of_mem ‹t ∈ _›
    omega
  · have := List.sizeOf_lt_of_mem ‹u ∈ _›
    omega
  · have h₁ := List.sizeOf_lt_of_mem ‹(n, s) ∈ _›
    have h₂ := List.sizeOf_lt_of_mem ‹(m, t) ∈ _›
    simp at h₁ h₂
    omega

end Structura.Ty
