import Mathlib.Logic.Basic
import Structura.Env

namespace Structura

theorem mem_of_lookup {α : Type} {ps : List (String × α)} {name : String} {a : α}
    (h : ps.lookup name = some a) : (name, a) ∈ ps := by
  obtain ⟨front, back, rfl, -⟩ := List.lookup_eq_some_iff.mp h
  exact List.mem_append_right front List.mem_cons_self

theorem exists_lookup {α : Type} {ps : List (String × α)} {name : String} {a : α}
    (h : (name, a) ∈ ps) : ∃ b, ps.lookup name = some b := by
  refine Option.ne_none_iff_exists'.mp fun hnone => ?_
  have := List.lookup_eq_none_iff.mp hnone (name, a) h
  simp at this

theorem lookup_filter_ne {α : Type} {ps : List (String × α)} {name other : String}
    (h : other ≠ name) : (ps.filter (·.1 != name)).lookup other = ps.lookup other := by
  induction ps with
  | nil => rfl
  | cons p ps ih =>
      obtain ⟨key, a⟩ := p
      by_cases hk : key = name
      · subst hk
        simp [List.lookup_cons, ih, beq_false_of_ne h]
      · simp [List.lookup_cons, ih, hk]

theorem firstRepeat?_eq_none_iff {α : Type} {name : α → String} {xs : List α} {seen : List String} :
    firstRepeat? name seen xs = none ↔ (xs.map name).Nodup ∧ ∀ x ∈ xs, name x ∉ seen := by
  induction xs generalizing seen with
  | nil => simp [firstRepeat?]
  | cons x xs ih =>
      by_cases hx : name x ∈ seen
      · rw [firstRepeat?, if_pos (by simpa using hx)]
        simp [hx]
      · rw [firstRepeat?, if_neg (by simpa using hx), ih, List.map_cons, List.nodup_cons,
          List.forall_mem_cons]
        have hnew : (∀ y ∈ xs, name y ∉ name x :: seen) ↔
            name x ∉ xs.map name ∧ ∀ y ∈ xs, name y ∉ seen := by
          simp only [List.mem_cons, not_or, List.mem_map, not_exists, not_and]
          exact forall₂_and
        rw [hnew]
        constructor
        · rintro ⟨hnodup, hother, hseen⟩
          exact ⟨⟨hother, hnodup⟩, hx, hseen⟩
        · rintro ⟨⟨hother, hnodup⟩, -, hseen⟩
          exact ⟨hnodup, hother, hseen⟩

theorem Ty.object?_eq_ok {ps : List (String × Ty)} (h : (ps.map Prod.fst).Nodup) :
    object? ps = .ok (.object ps) := by
  rw [object?, firstRepeat?_eq_none_iff.mpr ⟨h, fun _ _ => List.not_mem_nil⟩]

namespace Env

theorem get?_set (env : Env) (name other : String) (t : Ty) :
    (env.set name t).get? other = if other = name then some t else env.get? other := by
  rw [get?, set, List.lookup_cons]
  split
  · rename_i h
    rw [if_pos (beq_iff_eq.mp h)]
  · rename_i h
    have hne : other ≠ name := fun he => by simp [he] at h
    rw [if_neg hne, lookup_filter_ne hne, get?]

def All (good : Ty → Prop) (env : Env) : Prop := ∀ name t, env.get? name = some t → good t

theorem all_empty (good : Ty → Prop) : empty.All good := by
  intro name t h
  cases h

theorem All.set {good : Ty → Prop} {env : Env} (henv : env.All good) {name : String} {t : Ty}
    (ht : good t) : (env.set name t).All good := by
  intro other u hu
  rw [get?_set] at hu
  split at hu
  · cases hu
    exact ht
  · exact henv other u hu

end Env

end Structura
