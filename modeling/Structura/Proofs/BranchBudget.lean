import Mathlib.Data.List.Flatten
import Structura.Proofs.CanonicalRules
import Structura.Proofs.Successes

namespace Structura

namespace Ty

variable {α : Type} {t : Ty} {ts : List Ty}

def combinations (ts : List Ty) : List (List Ty) := choices ((ts.flatMap factors).map branches)

theorem length_choices_cons (l : List α) (ls : List (List α)) :
    (choices (l :: ls)).length = l.length * (choices ls).length := by
  simp [choices, List.length_flatMap]

theorem nodup_choices {ls : List (List α)} (h : ∀ l ∈ ls, l.Nodup) : (choices ls).Nodup := by
  induction ls with
  | nil => exact List.nodup_singleton []
  | cons l ls ih =>
      obtain ⟨hl, hls⟩ := List.forall_mem_cons.mp h
      refine List.nodup_flatMap.mpr ⟨fun x _ => (ih hls).map (List.cons_injective), hl.imp fun hne => ?_⟩
      intro c hc hc'
      obtain ⟨d, -, rfl⟩ := List.mem_map.mp hc
      obtain ⟨e, -, he⟩ := List.mem_map.mp hc'
      exact hne (List.cons.inj he).1.symm

theorem min_mul_min {a n limit : Nat} (hn : 0 < n) : min (min a limit * n) limit = min (a * n) limit := by
  rcases Nat.le_total a limit with h | h
  · rw [min_eq_left h]
  · have hlimit : limit ≤ limit * n := Nat.le_mul_of_pos_right limit hn
    rw [min_eq_right h, min_eq_right hlimit, min_eq_right (hlimit.trans (Nat.mul_le_mul_right n h))]

/-- Stopping at a limit in between does not matter as long as no list is empty. -/
theorem foldl_min_length {ls : List (List α)} (h : ∀ l ∈ ls, l ≠ []) (a limit : Nat) :
    (ls.map List.length).foldl (fun size n => min (size * n) limit) (min a limit) =
      min (a * (choices ls).length) limit := by
  induction ls generalizing a with
  | nil => rw [List.map_nil, List.foldl_nil, choices, List.length_singleton, Nat.mul_one]
  | cons l ls ih =>
      obtain ⟨hl, hls⟩ := List.forall_mem_cons.mp h
      rw [List.map_cons, List.foldl_cons, min_mul_min (List.length_pos_iff.mpr hl), ih hls, length_choices_cons,
        Nat.mul_assoc]

/-- Branches are apart, so none of them is repeated. -/
theorem Canonical.nodup_branches (h : Canonical t) : t.branches.Nodup := by
  cases t with
  | union members =>
      refine h.union_apart.imp_of_mem fun {a b} ha _ hab => ?_
      rintro rfl
      exact Bool.false_ne_true (hab.1.symm.trans (isSubtype_refl (h.branch ha)))
  | _ => exact List.nodup_singleton _

theorem distributionSize_eq_min (hts : ∀ t ∈ ts, Canonical t) :
    distributionSize ts = min (combinations ts).length largestCount := by
  have hbranches : ∀ l ∈ (ts.flatMap factors).map branches, l ≠ [] := by
    intro l hl
    obtain ⟨f, hf, rfl⟩ := List.mem_map.mp hl
    exact (canonical_factors hts f hf).branches_ne_nil
  have hfold := foldl_min_length hbranches 1 largestCount
  rw [List.map_map, Nat.one_mul] at hfold
  exact hfold

theorem meet_eq_join_combinations (hne : ts ≠ []) (hts : ∀ t ∈ ts, Canonical t) :
    meet ts = join ((combinations ts).map meetConcrete) := by
  rcases meet_cases ts with ⟨hnil, -⟩ | ⟨-, hmeet⟩
  · obtain ⟨t, ht⟩ := List.exists_mem_of_ne_nil ts hne
    exact absurd (List.flatMap_eq_nil_iff.mp hnil t ht) (hts t ht).factors_ne_nil
  · exact hmeet

theorem mem_combinations {c : List Ty} :
    c ∈ combinations ts ↔ List.Forall₂ (fun b t => b ∈ t.branches) c (ts.flatMap factors) := by
  rw [combinations, mem_choices, List.forall₂_map_right_iff]

theorem nodup_combinations (hts : ∀ t ∈ ts, Canonical t) : (combinations ts).Nodup := by
  refine nodup_choices fun l hl => ?_
  obtain ⟨f, hf, rfl⟩ := List.mem_map.mp hl
  exact (canonical_factors hts f hf).nodup_branches

end Ty

namespace TypeExpr

open Traced

variable {cx : Context} {members : List TypeExpr} {ts : List Ty}

theorem lt_maxDepth_of_convertAll (hne : members ≠ []) (h : (convertAll members cx).result = .ok ts) :
    cx.depth < cx.settings.maxDepth := by
  obtain ⟨e, es, rfl⟩ := List.exists_cons_of_ne_nil hne
  rw [convertAll] at h
  obtain ⟨t, ht, -⟩ := bind_eq_ok.mp h
  rw [convert] at ht
  exact (Context.judge_eq_ok.mp ht).1

theorem canonical_of_convertAll (h : (convertAll members cx).result = .ok ts) : ∀ t ∈ ts, t.Canonical :=
  (ends_convertAll members (fun _ _ => SourceNode.allows_canonicity _) fun _ => trivial).ok h

theorem result_convert_inter {span : Span} (hne : members ≠ [])
    (h : (convertAll members { cx with span, depth := cx.depth + 1 }).result = .ok ts) :
    ((inter span members).convert cx).result =
      if Ty.distributionSize ts ≤ cx.settings.maxBranches then .ok (Ty.meet ts)
      else .error (.located (.tooManyBranches (Ty.distributionSize ts) cx.settings.maxBranches) span) := by
  have hdepth : cx.depth + 1 < cx.settings.maxDepth := lt_maxDepth_of_convertAll hne h
  rw [convert, Context.result_judge (Nat.lt_of_succ_lt hdepth)]
  refine (result_bind_ok h _).trans ?_
  rw [Context.checkBranches]
  split <;> rfl

end TypeExpr

/-- Intersections are counted as they are built: the count is the number of combinations as far as it can be counted,
and the combinations are all ways of taking a branch of every operand, each of them once. So an intersection whose
operands convert is accepted exactly if there are no more combinations than allowed. -/
theorem branch_budget_exact :
    (∀ ts : List Ty, ts ≠ [] → (∀ t ∈ ts, t.Reachable) →
      Ty.distributionSize ts = min (Ty.combinations ts).length (Nat.pow 2 64 - 1) ∧
      Ty.meet ts = Ty.join ((Ty.combinations ts).map Ty.meetConcrete) ∧
      (Ty.combinations ts).Nodup ∧
      ∀ c, c ∈ Ty.combinations ts ↔ List.Forall₂ (fun b t => b ∈ t.branches) c (ts.flatMap Ty.factors)) ∧
    ∀ (cx : Context) (span : Span) (members : List TypeExpr) (ts : List Ty), members ≠ [] →
      cx.settings.maxBranches < Nat.pow 2 64 - 1 →
      (TypeExpr.convertAll members { cx with span, depth := cx.depth + 1 }).result = .ok ts →
      (((TypeExpr.inter span members).convert cx).result = .ok (Ty.meet ts) ↔
        (Ty.combinations ts).length ≤ cx.settings.maxBranches) ∧
      (((TypeExpr.inter span members).convert cx).result =
          .error (.located (.tooManyBranches (min (Ty.combinations ts).length (Nat.pow 2 64 - 1))
            cx.settings.maxBranches) span) ↔
        cx.settings.maxBranches < (Ty.combinations ts).length) := by
  refine ⟨fun ts hne hts => ?_, fun cx span members ts hne hmax h => ?_⟩
  · have hcanonical := Ty.canonical_of_reachable hts
    exact ⟨Ty.distributionSize_eq_min hcanonical, Ty.meet_eq_join_combinations hne hcanonical,
      Ty.nodup_combinations hcanonical, fun c => Ty.mem_combinations⟩
  · have hsize : Ty.distributionSize ts = min (Ty.combinations ts).length (Nat.pow 2 64 - 1) :=
      Ty.distributionSize_eq_min (TypeExpr.canonical_of_convertAll h)
    have hcount : Ty.distributionSize ts ≤ cx.settings.maxBranches ↔
        (Ty.combinations ts).length ≤ cx.settings.maxBranches := by
      rw [hsize, min_le_iff]
      exact or_iff_left (Nat.not_le_of_lt hmax)
    rw [TypeExpr.result_convert_inter hne h, ← hsize]
    by_cases hfits : Ty.distributionSize ts ≤ cx.settings.maxBranches
    · have hlength := hcount.mp hfits
      rw [if_pos hfits]
      refine ⟨iff_of_true rfl hlength, iff_of_false ?_ (Nat.not_lt_of_le hlength)⟩
      intro herror
      cases herror
    · have hlength := hcount.not.mp hfits
      rw [if_neg hfits]
      refine ⟨iff_of_false ?_ hlength, iff_of_true rfl (Nat.lt_of_not_le hlength)⟩
      intro hok
      cases hok

def letter (text : String) : TypeExpr := .literal default (.string text)

def letterTy (text : String) : Ty := .literal (.string text)

def letters : List TypeExpr :=
  [.union default [letter "a", letter "b"], .union default [letter "a", letter "b", letter "c"]]

def lettersTys : List Ty :=
  [.union [letterTy "a", letterTy "b"], .union [letterTy "a", letterTy "b", letterTy "c"]]

theorem branch_budget_exact_letters :
    Ty.distributionSize lettersTys = min 6 (Nat.pow 2 64 - 1) ∧
    ((TypeExpr.inter default letters).convert (.top .empty { maxBranches := 6 } default)).result =
      .ok (Ty.meet lettersTys) ∧
    ((TypeExpr.inter default letters).convert (.top .empty { maxBranches := 5 } default)).result =
      .error (.located (.tooManyBranches (min 6 (Nat.pow 2 64 - 1)) 5) default) := by
  have hconverts (n : Nat) :
      (TypeExpr.convertAll letters ⟨.empty, { maxBranches := n }, default, 1⟩).result = .ok lettersTys := by
    with_unfolding_all rfl
  have hreachable : ∀ t ∈ lettersTys, t.Reachable := fun t ht =>
    Ty.reachable_iff_canonical.mpr (TypeExpr.canonical_of_convertAll (hconverts 6) t ht)
  have hlength : (Ty.combinations lettersTys).length = 6 := rfl
  obtain ⟨hsize, hbudget⟩ := branch_budget_exact
  refine ⟨?_, ?_, ?_⟩
  · exact hlength ▸ (hsize lettersTys (List.cons_ne_nil _ _) hreachable).1
  · refine (hbudget (.top .empty { maxBranches := 6 } default) default letters lettersTys (List.cons_ne_nil _ _)
      (by decide) (hconverts _)).1.mpr ?_
    exact hlength.le
  · rw [← hlength]
    refine (hbudget (.top .empty { maxBranches := 5 } default) default letters lettersTys (List.cons_ne_nil _ _)
      (by decide) (hconverts _)).2.mpr ?_
    rw [hlength]
    decide

end Structura
