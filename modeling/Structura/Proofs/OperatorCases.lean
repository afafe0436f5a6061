import Structura.Judgment.Operator
import Structura.Proofs.Successes

namespace Structura.Ty

variable {t : Ty} {ts : List Ty}

/-- Every value of the type is truthy, or every value is falsy, as the argument says. -/
def truthIs (truth : Bool) (t : Ty) : Bool := if truth then t.isTruthy else t.isFalsy

theorem truthIs_union {truth : Bool} :
    truthIs truth (.union ts) = true ↔ ∀ t ∈ ts, truthIs truth t = true := by
  cases truth with
  | false =>
      change allFalsy ts = true ↔ ∀ t ∈ ts, t.isFalsy = true
      induction ts with
      | nil => exact iff_of_true rfl (List.forall_mem_nil _)
      | cons t ts ih => rw [allFalsy, Bool.and_eq_true, ih, List.forall_mem_cons]
  | true =>
      change allTruthy ts = true ↔ ∀ t ∈ ts, t.isTruthy = true
      induction ts with
      | nil => exact iff_of_true rfl (List.forall_mem_nil _)
      | cons t ts ih => rw [allTruthy, Bool.and_eq_true, ih, List.forall_mem_cons]

theorem truthIs_literal (truth : Bool) (v : Literal) :
    truthIs truth (.literal v) = (v.isTruthy == truth) := by
  cases truth <;> cases h : v.isTruthy <;> simp [truthIs, isTruthy, isFalsy, h]

theorem Canonical.object_or_function (h : Canonical (.inter ts)) (ht : t ∈ ts) :
    (∃ ps, t = .object ps) ∨ ∃ ps r, t = .function ps r := by
  cases h with
  | inter _ _ alike _ _ =>
      rcases alike with h | h <;> have := h t ht <;> cases t <;> simp_all [isObject, isFunction]

theorem truthIs_inter (h : Canonical (.inter ts)) (truth : Bool) :
    truthIs truth (.inter ts) = false := by
  have hmember : ∀ t ∈ ts, t.isFalsy = false ∧ t.isTruthy = false := by
    intro t ht
    rcases h.object_or_function ht with ⟨ps, rfl⟩ | ⟨ps, r, rfl⟩ <;> exact ⟨rfl, rfl⟩
  clear h
  cases truth with
  | false =>
      change someFalsy ts = false
      induction ts with
      | nil => rfl
      | cons t ts ih =>
          rw [List.forall_mem_cons] at hmember
          rw [someFalsy, hmember.1.1, ih hmember.2, Bool.or_false]
  | true =>
      change someTruthy ts = false
      induction ts with
      | nil => rfl
      | cons t ts ih =>
          rw [List.forall_mem_cons] at hmember
          rw [someTruthy, hmember.1.2, ih hmember.2, Bool.or_false]

theorem tags_eq_map (ts : List Ty) : tags ts = ts.map tag := by
  induction ts with
  | nil => rfl
  | cons t ts ih => rw [tags, ih, List.map_cons]

theorem tag_union (ts : List Ty) : tag (.union ts) = join (ts.map tag) := by
  rw [tag, tags_eq_map]

theorem tag_inter_of_forall {u : Ty} (hu : same u u = true) (h : ∀ t ∈ ts, t.tag = u)
    (hne : ts ≠ []) : tag (.inter ts) = u := by
  obtain ⟨t, rest, rfl⟩ := List.exists_cons_of_ne_nil hne
  rw [List.forall_mem_cons] at h
  rw [tag, tags_eq_map, List.map_cons, h.1]
  have hall : (rest.map tag).all (same · u) = true := by
    rw [List.all_map, List.all_eq_true]
    intro t ht
    exact (congrArg (same · u) (h.2 t ht)).trans hu
  dsimp only
  rw [if_pos hall]

/-- The members of an intersection share its tag. -/
theorem tag_inter (h : Canonical (.inter ts)) (ht : t ∈ ts) : tag (.inter ts) = t.tag := by
  have hsame (s : String) : same (.literal (.string s)) (.literal (.string s)) = true := by
    simp [same]
  have hne : ts ≠ [] := List.ne_nil_of_mem ht
  cases h with
  | inter _ _ alike _ _ =>
      rcases alike with hall | hall
      · have htag : ∀ t ∈ ts, t.tag = .literal (.string "object") := by
          intro t ht
          have := hall t ht
          cases t <;> simp_all [isObject, tag]
        rw [htag t ht]
        exact tag_inter_of_forall (hsame _) htag hne
      · have htag : ∀ t ∈ ts, t.tag = .literal (.string "function") := by
          intro t ht
          have := hall t ht
          cases t <;> simp_all [isFunction, tag]
        rw [htag t ht]
        exact tag_inter_of_forall (hsame _) htag hne

theorem compare_of_not_literals {expected : Bool} {left right : Ty}
    (h : ∀ a b, left = .literal a → right = .literal b → False) :
    left.compare expected right = .boolean := by
  unfold compare
  split
  · exact (h _ _ rfl rfl).elim
  · rfl

def sum : Ty → Ty → Ty
  | .literal (.number a), .literal (.number b) => .literal (.number (a + b))
  | _, _ => .number

theorem sum_of_not_numbers {left right : Ty}
    (h : ∀ a b, left = .literal (.number a) → right = .literal (.number b) → False) :
    sum left right = .number := by
  unfold sum
  split
  · exact (h _ _ rfl rfl).elim
  · rfl

theorem exists_number_of_literal_isSubtype {v : Literal}
    (h : isSubtype (.literal v) .number = true) : ∃ a, v = .number a := by
  cases v with
  | number a => exact ⟨a, rfl⟩
  | boolean | string => simp [number, isSubtype, Literal.base] at h

/-- Addition succeeds exactly on numbers: no literal below `number` has another value. -/
theorem add_eq_ok {cx : Context} {left right : Ty} :
    (left.add cx right).result = .ok t ↔
      (left.isSubtype .number = true ∧ right.isSubtype .number = true) ∧ sum left right = t := by
  unfold add
  rw [Traced.bind_eq_ok, ← Bool.and_eq_true]
  change (∃ numbers, Except.ok (left.isSubtype .number && right.isSubtype .number) = _ ∧ _) ↔ _
  cases hbelow : left.isSubtype .number && right.isSubtype .number with
  | false =>
      refine iff_of_false ?_ fun h => Bool.false_ne_true h.1
      rintro ⟨numbers, hnumbers, h⟩
      cases hnumbers
      cases h
  | true =>
      simp only [Except.ok.injEq, exists_eq_left', Bool.not_true, Bool.false_eq_true, if_false,
        true_and]
      split
      · exact Traced.pure_eq_ok
      · rename_i a b hnumber
        obtain ⟨ha, hb⟩ := Bool.and_eq_true_iff.mp hbelow
        obtain ⟨x, rfl⟩ := exists_number_of_literal_isSubtype ha
        obtain ⟨y, rfl⟩ := exists_number_of_literal_isSubtype hb
        exact (hnumber x y rfl rfl).elim
      · rename_i hnumber hliteral
        rw [sum_of_not_numbers fun a b hl hr => hnumber a b hl hr]
        exact Traced.pure_eq_ok

end Structura.Ty
