import Mathlib.Data.Fintype.EquivFin
import Mathlib.Data.List.Sort
import Structura.Ty.Lattice

namespace Structura.Ty

variable {α : Type} {covers : α → α → Bool} {xs : List α}

/-- The entry at `j` takes the place of the entry at `i`. An entry never takes its own place. -/
def Supersedes (covers : α → α → Bool) (xs : List α) (j i : Fin xs.length) : Prop :=
  covers xs[j] xs[i] = true ∧ (covers xs[i] xs[j] = true → j < i)

instance (j i : Fin xs.length) : Decidable (Supersedes covers xs j i) :=
  inferInstanceAs (Decidable (_ ∧ _))

theorem not_supersedes_self (i : Fin xs.length) : ¬Supersedes covers xs i i := by
  rintro ⟨hc, hlt⟩
  exact lt_irrefl i (hlt hc)

theorem not_supersedes_iff {i j : Fin xs.length} :
    ¬Supersedes covers xs j i ↔
      i = j ∨ (covers xs[j] xs[i] = true → covers xs[i] xs[j] = true ∧ i < j) := by
  by_cases hij : i = j
  · subst hij
    exact iff_of_true (not_supersedes_self i) (Or.inl rfl)
  · simp only [Supersedes, hij, false_or, not_and, Classical.not_imp, not_lt]
    refine imp_congr_right fun _ => and_congr_right fun _ => ?_
    exact ⟨fun hle => lt_of_le_of_ne hle hij, le_of_lt⟩

def staying (covers : α → α → Bool) (xs : List α) : List (Fin xs.length) :=
  (List.finRange xs.length).filter fun i => ∀ j, ¬Supersedes covers xs j i

theorem mem_staying {i : Fin xs.length} :
    i ∈ staying covers xs ↔ ∀ j, ¬Supersedes covers xs j i := by
  simp [staying]

theorem staying_pairwise : (staying covers xs).Pairwise (· < ·) :=
  (List.pairwise_lt_finRange xs.length).filter _

theorem stays_iff {b c : Bool} {i j : Nat} :
    (i == j || !b || (c && i < j)) = true ↔ i = j ∨ (b = true → c = true ∧ i < j) := by
  cases b <;> cases c <;> simp

theorem zipIdx_eq_map_finRange (xs : List α) :
    xs.zipIdx = (List.finRange xs.length).map fun i => (xs[i], i.val) :=
  List.ext_getElem (by simp) (by simp)

theorem uncovered_eq_map_staying : uncovered covers xs = (staying covers xs).map xs.get := by
  rw [uncovered, zipIdx_eq_map_finRange, List.filter_map, List.map_map, staying]
  congr 1
  refine List.filter_congr fun i _ => ?_
  rw [Function.comp_apply, Bool.eq_iff_iff, decide_eq_true_iff]
  simp only [List.all_map, List.all_eq_true, List.mem_finRange, true_imp_iff, Function.comp_apply,
    stays_iff, not_supersedes_iff, Fin.ext_iff, Fin.lt_def]

theorem mem_uncovered {x : α} :
    x ∈ uncovered covers xs ↔ ∃ i ∈ staying covers xs, xs.get i = x := by
  rw [uncovered_eq_map_staying, List.mem_map]

theorem uncovered_sublist : (uncovered covers xs).Sublist xs := by
  have h : (uncovered covers xs).Sublist ((List.finRange xs.length).map xs.get) :=
    uncovered_eq_map_staying ▸ List.filter_sublist.map _
  rwa [List.map_get_finRange] at h

/-- An entry that covers one that stays does not come before it. -/
theorem le_of_mem_staying {i j : Fin xs.length} (hi : i ∈ staying covers xs)
    (hji : covers xs[j] xs[i] = true) : i ≤ j := by
  by_contra hlt
  exact mem_staying.mp hi j ⟨hji, fun _ => not_le.mp hlt⟩

/-- Of two entries that stay neither covers the other: the later one would have gone. -/
theorem covers_eq_false_of_mem_staying {i j : Fin xs.length} (hi : i ∈ staying covers xs)
    (hj : j ∈ staying covers xs) (hne : i ≠ j) : covers xs[i] xs[j] = false := by
  refine Bool.eq_false_iff.mpr fun hij => ?_
  rcases not_supersedes_iff.mp (mem_staying.mp hj i) with rfl | h
  · exact hne rfl
  · obtain ⟨hji, hlt⟩ := h hij
    exact absurd (le_of_mem_staying hi hji) (not_le.mpr hlt)

theorem uncovered_pairwise :
    (uncovered covers xs).Pairwise fun x y => covers x y = false ∧ covers y x = false := by
  rw [uncovered_eq_map_staying, List.pairwise_map]
  refine staying_pairwise.imp_of_mem fun hi hj hlt => ?_
  exact ⟨covers_eq_false_of_mem_staying hi hj hlt.ne, covers_eq_false_of_mem_staying hj hi hlt.ne'⟩

theorem uncovered_eq_self
    (h : xs.Pairwise fun x y => covers x y = false ∧ covers y x = false) :
    uncovered covers xs = xs := by
  rw [List.pairwise_iff_getElem] at h
  rw [uncovered_eq_map_staying, staying, List.filter_eq_self.mpr, List.map_get_finRange]
  intro i _
  refine decide_eq_true fun j hji => ?_
  rcases lt_trichotomy i j with hij | rfl | hlt
  · exact Bool.false_ne_true ((h i j i.2 j.2 hij).2.symm.trans hji.1)
  · exact not_supersedes_self i hji
  · exact Bool.false_ne_true ((h j i j.2 i.2 hlt).1.symm.trans hji.1)

/-- A choice of entries, by their positions, that leaves out what another entry makes redundant. -/
structure Selection (covers : α → α → Bool) (xs : List α) (kept : List (Fin xs.length)) : Prop where
  inOrder : kept.Pairwise (· < ·)
  /-- No entry that is kept is covered by another one. -/
  apart : ∀ i ∈ kept, ∀ j ∈ kept, i ≠ j → covers xs[i] xs[j] = false
  /-- An entry that is dropped is covered by one that is kept. -/
  covered : ∀ i ∉ kept, ∃ j ∈ kept, covers xs[j] xs[i] = true
  /-- Of entries that cover each other only the first can be kept. -/
  first : ∀ i ∈ kept, ∀ j, covers xs[i] xs[j] = true → covers xs[j] xs[i] = true → i ≤ j

theorem Selection.mem_of_mem_staying {kept : List (Fin xs.length)} (h : Selection covers xs kept)
    {i : Fin xs.length} (hi : i ∈ staying covers xs) : i ∈ kept := by
  by_contra hgone
  obtain ⟨j, hj, hji⟩ := h.covered i hgone
  rcases not_supersedes_iff.mp (mem_staying.mp hi j) with rfl | hlater
  · exact hgone hj
  -- Only a later entry can cover `i`, and then the two cover each other: that entry is not kept.
  · obtain ⟨hij, hlt⟩ := hlater hji
    exact absurd (h.first j hj i hji hij) (not_le.mpr hlt)

section Transitive

variable (htrans : ∀ x ∈ xs, ∀ y ∈ xs, ∀ z ∈ xs,
  covers x y = true → covers y z = true → covers x z = true)
include htrans

theorem Supersedes.trans {i j k : Fin xs.length} (hkj : Supersedes covers xs k j)
    (hji : Supersedes covers xs j i) : Supersedes covers xs k i := by
  have hi : xs[i] ∈ xs := List.getElem_mem _
  have hj : xs[j] ∈ xs := List.getElem_mem _
  have hk : xs[k] ∈ xs := List.getElem_mem _
  refine ⟨htrans _ hk _ hj _ hi hkj.1 hji.1, fun hik => ?_⟩
  have h₁ := hkj.2 (htrans _ hj _ hi _ hk hji.1 hik)
  have h₂ := hji.2 (htrans _ hi _ hk _ hj hik hkj.1)
  exact h₁.trans h₂

/-- Taking an entry's place is a strict order on finitely many entries, so it ends at one that stays. -/
theorem exists_staying {i : Fin xs.length} (hi : i ∉ staying covers xs) :
    ∃ j ∈ staying covers xs, Supersedes covers xs j i := by
  have : IsTrans (Fin xs.length) (Supersedes covers xs) := ⟨fun _ _ _ => Supersedes.trans htrans⟩
  have : Std.Irrefl (Supersedes covers xs) := ⟨not_supersedes_self⟩
  have hwf := Finite.wellFounded_of_trans_of_irrefl (Supersedes covers xs)
  induction i using hwf.induction with
  | _ i ih =>
      obtain ⟨j, hji⟩ := not_forall_not.mp (mem_staying.not.mp hi)
      by_cases hj : j ∈ staying covers xs
      · exact ⟨j, hj, hji⟩
      · obtain ⟨k, hk, hkj⟩ := ih j hji hj
        exact ⟨k, hk, hkj.trans htrans hji⟩

theorem exists_uncovered {x : α} (hx : x ∈ xs) :
    ∃ y ∈ uncovered covers xs, y = x ∨ covers y x = true := by
  obtain ⟨i, rfl⟩ := List.get_of_mem hx
  by_cases hi : i ∈ staying covers xs
  · exact ⟨xs.get i, mem_uncovered.mpr ⟨i, hi, rfl⟩, Or.inl rfl⟩
  · obtain ⟨j, hj, hc, -⟩ := exists_staying htrans hi
    exact ⟨xs.get j, mem_uncovered.mpr ⟨j, hj, rfl⟩, Or.inr hc⟩

theorem selection_staying : Selection covers xs (staying covers xs) where
  inOrder := staying_pairwise
  apart _ hi _ hj hne := covers_eq_false_of_mem_staying hi hj hne
  covered i hi := by
    obtain ⟨j, hj, hc, -⟩ := exists_staying htrans hi
    exact ⟨j, hj, hc⟩
  first _ hi _ _ hji := le_of_mem_staying hi hji

theorem Selection.eq_staying {kept : List (Fin xs.length)} (h : Selection covers xs kept) :
    kept = staying covers xs := by
  refine h.inOrder.eq_of_mem_iff staying_pairwise fun i => ⟨fun hi => ?_, h.mem_of_mem_staying⟩
  by_contra hgone
  obtain ⟨j, hj, hji⟩ := exists_staying htrans hgone
  have hne : j ≠ i := ne_of_mem_of_not_mem hj hgone
  have hapart := h.apart j (h.mem_of_mem_staying hj) i hi hne
  exact Bool.false_ne_true (hapart.symm.trans hji.1)

end Transitive

/-- What stays is the only selection that the list has. Covering has to be transitive among the entries:
entries that cover one another in a circle would all go. -/
theorem uncovered_unique_selection
    (htrans : ∀ x ∈ xs, ∀ y ∈ xs, ∀ z ∈ xs,
      covers x y = true → covers y z = true → covers x z = true) :
    (∃ kept, Selection covers xs kept ∧ uncovered covers xs = kept.map xs.get ∧
      ∀ other, Selection covers xs other → other = kept) ∧
    (xs ≠ [] → uncovered covers xs ≠ []) := by
  refine ⟨⟨staying covers xs, selection_staying htrans, uncovered_eq_map_staying,
    fun _ h => h.eq_staying htrans⟩, fun hne => ?_⟩
  obtain ⟨x, hx⟩ := List.exists_mem_of_ne_nil xs hne
  obtain ⟨y, hy, -⟩ := exists_uncovered htrans hx
  exact List.ne_nil_of_mem hy

def twins : List Ty :=
  [.literal (.string "a"), .object [("x", number), ("y", string)],
    .object [("y", string), ("x", number)], string]

theorem uncovered_unique_selection_twins :
    ∃ kept, Selection (fun u t => isSubtype t u) twins kept ∧
      (∀ other, Selection (fun u t => isSubtype t u) twins other → other = kept) ∧
      kept.map twins.get = [.object [("x", number), ("y", string)], string] := by
  have htrans : ∀ x ∈ twins, ∀ y ∈ twins, ∀ z ∈ twins,
      isSubtype y x = true → isSubtype z y = true → isSubtype z x = true := by
    decide +kernel
  obtain ⟨⟨kept, hselects, hkept, honly⟩, -⟩ := uncovered_unique_selection htrans
  refine ⟨kept, hselects, honly, hkept.symm.trans ?_⟩
  with_unfolding_all rfl

example : uncovered (fun i j : Fin 3 => j == i + 1) [0, 1, 2] = [] := by decide

end Structura.Ty
