import Structura.Ty

/-!
Subtyping. The relation looks only at the shape of the two types: a union on the left is taken apart
first, then a union on the right, an intersection on the right and last an intersection on the left.
-/

namespace Structura.Ty

/-- Every value of the first type is a value of the second. Objects may have more properties than
asked for, parameters go the other way round. -/
def isSubtype : Ty → Ty → Bool
  | .never, _ => true
  | _, .unknown => true
  | .union ts, b => ts.attach.all fun ⟨t, _⟩ => isSubtype t b
  | a, .union us => us.attach.any fun ⟨u, _⟩ => isSubtype a u
  | a, .inter us => us.attach.all fun ⟨u, _⟩ => isSubtype a u
  | .inter ts, b => ts.attach.any fun ⟨t, _⟩ => isSubtype t b
  | .prim p, .prim q => p == q
  | .literal a, .literal b => a.same b
  | .literal a, .prim q => a.base == q
  | .object ps, .object qs =>
      qs.attach.all fun ⟨(n, t), _⟩ => ps.attach.any fun ⟨(m, s), _⟩ => m == n && isSubtype s t
  | .function ps r, .function qs s =>
      ps.length == qs.length
        && (qs.attach.zip ps.attach).all (fun (⟨q, _⟩, ⟨p, _⟩) => isSubtype q p)
        && isSubtype r s
  | _, _ => false
termination_by a b => sizeOf a + sizeOf b
decreasing_by
  all_goals simp_wf
  · have := List.sizeOf_lt_of_mem ‹t ∈ _›
    omega
  · have := List.sizeOf_lt_of_mem ‹u ∈ _›
    omega
  · have := List.sizeOf_lt_of_mem ‹u ∈ _›
    omega
  · have := List.sizeOf_lt_of_mem ‹t ∈ _›
    omega
  · have h₁ := List.sizeOf_lt_of_mem ‹(n, t) ∈ _›
    have h₂ := List.sizeOf_lt_of_mem ‹(m, s) ∈ _›
    simp at h₁ h₂
    omega
  · have h₁ := List.sizeOf_lt_of_mem ‹p ∈ _›
    have h₂ := List.sizeOf_lt_of_mem ‹q ∈ _›
    omega
  · omega

end Structura.Ty
