import Mathlib.Data.List.Forall2
import Structura.Proofs.Uncovered

namespace Structura.Ty

variable {α : Type}

theorem branches_of_not_isUnion {t : Ty} (h : t.isUnion = false) : t.branches = [t] := by
  cases t <;> simp_all [isUnion, branches]

theorem flatMap_branches {ts : List Ty} (h : ∀ t ∈ ts, t.isUnion = false) :
    ts.flatMap branches = ts := by
  induction ts with
  | nil => rfl
  | cons t ts ih =>
      rw [List.flatMap_cons, branches_of_not_isUnion (h t (by simp)),
        ih fun u hu => h u (by simp [hu])]
      rfl

theorem exists_of_forall₂ {α β : Type} {R : α → β → Prop} {xs : List α} {ys : List β}
    (h : List.Forall₂ R xs ys) {y : β} (hy : y ∈ ys) : ∃ x ∈ xs, R x y := by
  induction h with
  | nil => cases hy
  | cons hxy _ ih =>
      rcases List.mem_cons.mp hy with rfl | hy
      · exact ⟨_, List.mem_cons_self, hxy⟩
      · obtain ⟨x, hx, hxy⟩ := ih hy
        exact ⟨x, List.mem_cons_of_mem _ hx, hxy⟩

theorem iff_exists_branch (holds : Ty → Prop)
    (hunion : ∀ us, holds (.union us) ↔ ∃ u ∈ us, holds u) (t : Ty) :
    holds t ↔ ∃ b ∈ t.branches, holds b := by
  cases t with
  | union members => exact hunion members
  | _ => simp [branches]

def isInter : Ty → Bool
  | .inter _ => true
  | _ => false

theorem factors_of_not_isInter {t : Ty} (h : t.isInter = false) : t.factors = [t] := by
  cases t <;> simp_all [isInter, factors]

theorem flatMap_factors {ts : List Ty} (h : ∀ t ∈ ts, t.isInter = false) :
    ts.flatMap factors = ts := by
  induction ts with
  | nil => rfl
  | cons t ts ih =>
      rw [List.flatMap_cons, factors_of_not_isInter (h t (by simp)),
        ih fun u hu => h u (by simp [hu])]
      rfl

theorem iff_forall_factor (holds : Ty → Prop)
    (hinter : ∀ us, holds (.inter us) ↔ ∀ u ∈ us, holds u) (t : Ty) :
    holds t ↔ ∀ f ∈ t.factors, holds f := by
  cases t with
  | inter members => exact hinter members
  | _ => simp [factors]

theorem somePair_eq_false {related : α → α → Bool} {xs : List α} :
    somePair related xs = false ↔ xs.Pairwise fun x y => related x y = false := by
  induction xs with
  | nil => simp [somePair]
  | cons x xs ih => simp [somePair, ih]

theorem exists_of_somePair {related : α → α → Bool} {xs : List α}
    (h : somePair related xs = true) : ∃ x ∈ xs, ∃ y ∈ xs, related x y = true := by
  induction xs with
  | nil => cases h
  | cons x xs ih =>
      rw [somePair, Bool.or_eq_true, List.any_eq_true] at h
      rcases h with ⟨y, hy, hxy⟩ | h
      · exact ⟨x, List.mem_cons_self, y, List.mem_cons_of_mem x hy, hxy⟩
      · obtain ⟨a, ha, b, hb, hab⟩ := ih h
        exact ⟨a, List.mem_cons_of_mem x ha, b, List.mem_cons_of_mem x hb, hab⟩

theorem mem_choices {c : List α} {ls : List (List α)} :
    c ∈ choices ls ↔ List.Forall₂ (· ∈ ·) c ls := by
  induction ls generalizing c with
  | nil => simp [choices]
  | cons l ls ih =>
      simp only [choices, List.mem_flatMap, List.mem_map, ih]
      constructor
      · rintro ⟨x, hx, c, hc, rfl⟩
        exact .cons hx hc
      · intro h
        cases h with
        | cons hx hc => exact ⟨_, hx, _, hc, rfl⟩

theorem exists_of_mem_choices {c : List α} {ls : List (List α)} (hc : c ∈ choices ls) {x : α}
    (hx : x ∈ c) : ∃ l ∈ ls, x ∈ l := by
  have h := mem_choices.mp hc
  induction h with
  | nil => simp at hx
  | cons ha _ ih =>
      rcases List.mem_cons.mp hx with rfl | hx
      · exact ⟨_, by simp, ha⟩
      · obtain ⟨l, hl, hxl⟩ := ih (mem_choices.mpr (by assumption)) hx
        exact ⟨l, by simp [hl], hxl⟩

/-- Some choice has only good elements if every list has one. -/
theorem exists_choice {good : α → Prop} {ls : List (List α)} :
    (∃ c ∈ choices ls, ∀ x ∈ c, good x) ↔ ∀ l ∈ ls, ∃ x ∈ l, good x := by
  induction ls with
  | nil => simp [choices]
  | cons l ls ih =>
      rw [List.forall_mem_cons, ← ih]
      simp only [choices, List.mem_flatMap, List.mem_map]
      constructor
      · rintro ⟨_, ⟨x, hx, c, hc, rfl⟩, hgood⟩
        obtain ⟨hxgood, hcgood⟩ := List.forall_mem_cons.mp hgood
        exact ⟨⟨x, hx, hxgood⟩, c, hc, hcgood⟩
      · rintro ⟨⟨x, hx, hxgood⟩, c, hc, hcgood⟩
        exact ⟨x :: c, ⟨x, hx, c, hc, rfl⟩, List.forall_mem_cons.mpr ⟨hxgood, hcgood⟩⟩

theorem choices_singletons (xs : List α) : choices (xs.map fun x => [x]) = [xs] := by
  induction xs with
  | nil => rfl
  | cons x xs ih => simp [choices, ih]

theorem mostGeneral_subset {ts : List Ty} : mostGeneral ts ⊆ ts := uncovered_sublist.subset

theorem mostSpecific_sublist {ts : List Ty} : (mostSpecific ts).Sublist ts := uncovered_sublist

theorem join_cases (ts : List Ty) :
    (mostGeneral (ts.flatMap branches) = [] ∧ join ts = .never) ∨
    (∃ t, mostGeneral (ts.flatMap branches) = [t] ∧ join ts = t) ∨
    (2 ≤ (mostGeneral (ts.flatMap branches)).length ∧
      join ts = .union (mostGeneral (ts.flatMap branches))) := by
  rw [join]
  rcases mostGeneral (ts.flatMap branches) with _ | ⟨t, _ | ⟨u, rest⟩⟩ <;> simp

theorem meetConcrete_cases (ts : List Ty) :
    (somePair disjoint (ts.flatMap factors) = true ∧ meetConcrete ts = .never) ∨
    somePair disjoint (ts.flatMap factors) = false ∧
      ((mostSpecific (ts.flatMap factors) = [] ∧ meetConcrete ts = .unknown) ∨
      (∃ t, mostSpecific (ts.flatMap factors) = [t] ∧ meetConcrete ts = t) ∨
      (2 ≤ (mostSpecific (ts.flatMap factors)).length ∧
        meetConcrete ts = .inter (mostSpecific (ts.flatMap factors)))) := by
  simp only [meetConcrete]
  cases somePair disjoint (ts.flatMap factors) with
  | true => simp
  | false =>
      rcases mostSpecific (ts.flatMap factors) with _ | ⟨t, _ | ⟨u, rest⟩⟩ <;> simp

theorem meet_cases (ts : List Ty) :
    (ts.flatMap factors = [] ∧ meet ts = .unknown) ∨
    (ts.flatMap factors ≠ [] ∧
      meet ts = join ((choices ((ts.flatMap factors).map branches)).map meetConcrete)) := by
  rw [meet]
  cases ts.flatMap factors <;> simp

/-- A property that unions and intersections share with their members. A union without members need not have it. -/
structure Memberwise (holds : Ty → Prop) : Prop where
  never : holds .never
  unknown : holds .unknown
  union {ts : List Ty} : ts ≠ [] → (∀ t ∈ ts, holds t) → holds (.union ts)
  inter {ts : List Ty} : (∀ t ∈ ts, holds t) → holds (.inter ts)
  of_union {ts : List Ty} {t : Ty} : holds (.union ts) → t ∈ ts → holds t
  of_inter {ts : List Ty} {t : Ty} : holds (.inter ts) → t ∈ ts → holds t

namespace Memberwise

variable {holds : Ty → Prop} (hP : Memberwise holds)
include hP

theorem branch {t b : Ty} (ht : holds t) (hb : b ∈ t.branches) : holds b := by
  cases t with
  | union members => exact hP.of_union ht hb
  | _ => exact List.mem_singleton.mp hb ▸ ht

theorem factor {t f : Ty} (ht : holds t) (hf : f ∈ t.factors) : holds f := by
  cases t with
  | inter members => exact hP.of_inter ht hf
  | _ => exact List.mem_singleton.mp hf ▸ ht

theorem holds_join {ts : List Ty} (h : ∀ t ∈ ts, holds t) : holds (join ts) := by
  have hbranches : ∀ b ∈ mostGeneral (ts.flatMap branches), holds b := by
    intro b hb
    obtain ⟨t, ht, hbt⟩ := List.mem_flatMap.mp (mostGeneral_subset hb)
    exact hP.branch (h t ht) hbt
  rcases join_cases ts with ⟨-, heq⟩ | ⟨t, hmembers, heq⟩ | ⟨two, heq⟩
  · rw [heq]
    exact hP.never
  · rw [heq]
    exact hbranches t (hmembers ▸ List.mem_cons_self)
  · rw [heq]
    exact hP.union (List.ne_nil_of_length_pos (Nat.zero_lt_of_lt two)) hbranches

theorem holds_meetConcrete {ts : List Ty} (h : ∀ t ∈ ts, holds t) : holds (meetConcrete ts) := by
  have hfactors : ∀ f ∈ mostSpecific (ts.flatMap factors), holds f := by
    intro f hf
    obtain ⟨t, ht, hft⟩ := List.mem_flatMap.mp (mostSpecific_sublist.subset hf)
    exact hP.factor (h t ht) hft
  rcases meetConcrete_cases ts with ⟨-, heq⟩ | ⟨-, ⟨-, heq⟩ | ⟨t, hmembers, heq⟩ | ⟨-, heq⟩⟩
  · rw [heq]
    exact hP.never
  · rw [heq]
    exact hP.unknown
  · rw [heq]
    exact hfactors t (hmembers ▸ List.mem_cons_self)
  · rw [heq]
    exact hP.inter hfactors

theorem holds_meet {ts : List Ty} (h : ∀ t ∈ ts, holds t) : holds (meet ts) := by
  rcases meet_cases ts with ⟨-, heq⟩ | ⟨-, heq⟩
  · rw [heq]
    exact hP.unknown
  · rw [heq]
    apply hP.holds_join
    rw [List.forall_mem_map]
    intro choice hchoice
    apply hP.holds_meetConcrete
    intro t ht
    obtain ⟨l, hl, htl⟩ := exists_of_mem_choices hchoice ht
    obtain ⟨f, hf, rfl⟩ := List.mem_map.mp hl
    obtain ⟨u, hu, hfu⟩ := List.mem_flatMap.mp hf
    exact hP.branch (hP.factor (h u hu) hfu) htl

end Memberwise

end Structura.Ty
