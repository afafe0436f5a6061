import Structura.Judgment.Context
import Structura.Proofs.LatticeCases

namespace Structura

namespace Traced

variable {α β : Type} {good : α → Prop} {bad : Diagnostic → Prop}

def Ends (good : α → Prop) (bad : Diagnostic → Prop) (x : Traced α) : Prop :=
  match x.result with
  | .ok a => good a
  | .error d => bad d

theorem Ends.ok {x : Traced α} (h : x.Ends good bad) {a : α} (ha : x.result = .ok a) : good a := by
  rwa [Ends, ha] at h

theorem Ends.error {x : Traced α} (h : x.Ends good bad) {d : Diagnostic}
    (hd : x.result = .error d) : bad d := by
  rwa [Ends, hd] at h

theorem Ends.imp {x : Traced α} {other : α → Prop} (h : x.Ends good bad) (himp : ∀ a, good a → other a) :
    x.Ends other bad := by
  unfold Ends at h ⊢
  cases hx : x.result with
  | ok a =>
      rw [hx] at h
      exact himp a h
  | error d =>
      rw [hx] at h
      exact h

theorem ends_any {x : Traced α} : x.Ends (fun _ => True) fun _ => True := by
  unfold Ends
  split <;> trivial

theorem ends_pure {a : α} : (pure a : Traced α).Ends good bad ↔ good a := Iff.rfl

theorem ends_fail {fault : Fault} {span : Span} :
    (fail fault span : Traced α).Ends good bad ↔ bad (.located fault span) := Iff.rfl

theorem Ends.bind {x : Traced α} {f : α → Traced β} {last : β → Prop} (hx : x.Ends good bad)
    (hf : ∀ a, good a → (f a).Ends last bad) : (x >>= f).Ends last bad := by
  change (Traced.bind x f).Ends last bad
  unfold Ends at hx
  unfold Traced.bind
  cases h : x.result with
  | ok a =>
      rw [h] at hx
      exact hf a hx
  | error d =>
      rw [h] at hx
      exact hx

theorem Ends.map {x : Traced α} {f : α → β} {last : β → Prop} (hx : x.Ends good bad)
    (hf : ∀ a, good a → last (f a)) : (f <$> x).Ends last bad :=
  Ends.bind (f := fun a => pure (f a)) hx hf

theorem ends_record {rule : Rule} {subject : Subject} {value : α → Outcome} {x : Traced α} :
    (record rule subject value x).Ends good bad ↔ x.Ends good bad := Iff.rfl

theorem ends_record_pure {rule : Rule} {subject : Subject} {value : α → Outcome} {a : α} :
    (record rule subject value (pure a)).Ends (· = a) bad := rfl

theorem ends_each {f : α → Traced β} {goodOf : β → Prop} {as : List α}
    (h : ∀ a ∈ as, (f a).Ends goodOf bad) : (each f as).Ends (fun bs => ∀ b ∈ bs, goodOf b) bad := by
  induction as with
  | nil => exact ends_pure.mpr (List.forall_mem_nil _)
  | cons a as ih =>
      refine (h a List.mem_cons_self).bind fun b hb => ?_
      refine (ih fun c hc => h c (List.mem_cons_of_mem a hc)).bind fun bs hbs => ?_
      exact ends_pure.mpr (List.forall_mem_cons.mpr ⟨hb, hbs⟩)

end Traced

namespace Context

open Traced

variable {α : Type} {good : α → Prop} {bad : Diagnostic → Prop}

theorem ends_descend {cx : Context} {span : Span}
    (hdeep : bad (.located (.tooDeep cx.settings.maxDepth) cx.span)) :
    (cx.descend span).Ends (· = { cx with span, depth := cx.depth + 1 }) bad := by
  unfold descend
  split
  · exact ends_pure.mpr rfl
  · exact ends_fail.mpr hdeep

/-- A judgment fails where it starts, when it is nested too deeply, or as its body does. -/
theorem ends_judge {cx : Context} {span : Span} {rule : Rule} {subject : Subject}
    {value : α → Outcome} {body : Context → Traced α}
    (hdeep : bad (.located (.tooDeep cx.settings.maxDepth) cx.span))
    (hbody : (body { cx with span, depth := cx.depth + 1 }).Ends good bad) :
    (cx.judge span rule subject value body).Ends good bad := by
  refine (ends_descend hdeep).bind ?_
  rintro inner rfl
  exact ends_record.mpr hbody

theorem ends_checkBranches {cx : Context} {count : Nat}
    (hmany : bad (.located (.tooManyBranches count cx.settings.maxBranches) cx.span)) :
    (cx.checkBranches count).Ends (fun _ => True) bad := by
  unfold checkBranches
  split
  · exact ends_pure.mpr trivial
  · exact ends_fail.mpr hmany

theorem ends_onBranches {cx : Context} {rule : Rule} {t : Ty} {body : Ty → Traced Ty}
    {good : Ty → Prop}
    (hmany : ∀ count, bad (.located (.tooManyBranches count cx.settings.maxBranches) cx.span))
    (hjoin : ∀ ts : List Ty, (∀ t ∈ ts, good t) → good (.join ts))
    (hbody : ∀ b ∈ t.branches, (body b).Ends good bad) :
    (cx.onBranches rule t body).Ends good bad := by
  cases t with
  | union members =>
      refine (ends_checkBranches (hmany _)).bind fun _ _ => ?_
      refine (ends_each fun b hb => ends_record.mpr (hbody b hb)).bind fun ts hts => ?_
      exact ends_pure.mpr (hjoin ts hts)
  | _ => exact ends_record.mpr (hbody _ (List.mem_singleton_self _))

theorem ends_onPairs {cx : Context} {rule : Rule} {left right : Ty} {body : Ty → Ty → Traced Ty}
    {good : Ty → Prop}
    (hmany : ∀ count, bad (.located (.tooManyBranches count cx.settings.maxBranches) cx.span))
    (hjoin : ∀ ts : List Ty, (∀ t ∈ ts, good t) → good (.join ts))
    (hbody : ∀ l ∈ left.branches, ∀ r ∈ right.branches, (body l r).Ends good bad) :
    (cx.onPairs rule left right body).Ends good bad := by
  have hself {t : Ty} (h : t.isUnion = false) : t ∈ t.branches := by
    rw [Ty.branches_of_not_isUnion h]
    exact List.mem_singleton_self t
  unfold onPairs
  split
  · refine (ends_checkBranches (hmany _)).bind fun _ _ => ?_
    refine (ends_each fun p hp => ?_).bind fun ts hts => ends_pure.mpr (hjoin ts hts)
    obtain ⟨l, hl, hp⟩ := List.mem_flatMap.mp hp
    obtain ⟨r, hr, rfl⟩ := List.mem_map.mp hp
    exact ends_record.mpr (hbody l hl r hr)
  · rename_i hunion
    obtain ⟨hl, hr⟩ : left.isUnion = false ∧ right.isUnion = false := by simpa using hunion
    exact ends_record.mpr (hbody left (hself hl) right (hself hr))

end Context

end Structura
