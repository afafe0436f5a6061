import Mathlib.Data.List.ProdSigma
import Structura.Judgment.Context
import Structura.Proofs.Bindings
import Structura.Proofs.Normalization

namespace Structura

namespace Traced

variable {α β : Type}

theorem result_bind_ok {x : Traced α} {a : α} (h : x.result = .ok a) (f : α → Traced β) :
    (x >>= f).result = (f a).result := by
  change (Traced.bind x f).result = _
  rw [Traced.bind, h]

theorem result_bind_error {x : Traced α} {d : Diagnostic} (h : x.result = .error d)
    (f : α → Traced β) : (x >>= f).result = .error d := by
  change (Traced.bind x f).result = _
  rw [Traced.bind, h]

/-- Only the results of the two computations count. -/
theorem result_bind_congr {x y : Traced α} {f g : α → Traced β} (hxy : y.result = x.result)
    (hfg : ∀ a, (g a).result = (f a).result) : (y >>= g).result = (x >>= f).result := by
  cases hx : x.result with
  | ok a => rw [result_bind_ok hx, result_bind_ok (hxy.trans hx), hfg a]
  | error d => rw [result_bind_error hx, result_bind_error (hxy.trans hx)]

theorem result_map_congr {x y : Traced α} (hxy : y.result = x.result) (f : α → β) :
    (f <$> y).result = (f <$> x).result :=
  result_bind_congr (f := fun a => pure (f a)) hxy fun _ => rfl

theorem bind_eq_ok {x : Traced α} {f : α → Traced β} {b : β} :
    (x >>= f).result = .ok b ↔ ∃ a, x.result = .ok a ∧ (f a).result = .ok b := by
  cases hx : x.result with
  | ok a => simp [result_bind_ok hx f]
  | error d => simp [result_bind_error hx f]

theorem pure_eq_ok {a b : α} : (pure a : Traced α).result = .ok b ↔ a = b :=
  ⟨Except.ok.inj, congrArg Except.ok⟩

theorem map_eq_ok {x : Traced α} {f : α → β} {b : β} :
    (f <$> x).result = .ok b ↔ ∃ a, x.result = .ok a ∧ f a = b := by
  change (x >>= fun a => pure (f a)).result = .ok b ↔ _
  rw [bind_eq_ok]
  exact exists_congr fun a => and_congr_right fun _ => pure_eq_ok

theorem each_eq_ok {f : α → Traced β} {as : List α} {bs : List β} :
    (each f as).result = .ok bs ↔ List.Forall₂ (fun a b => (f a).result = .ok b) as bs := by
  induction as generalizing bs with
  | nil =>
      rw [List.forall₂_nil_left_iff, each, pure_eq_ok]
      exact eq_comm
  | cons a as ih =>
      rw [each, bind_eq_ok, List.forall₂_cons_left_iff]
      refine exists_congr fun b => ?_
      rw [bind_eq_ok]
      simp only [ih, pure_eq_ok]
      constructor
      · rintro ⟨hb, cs, hcs, rfl⟩
        exact ⟨cs, hb, hcs, rfl⟩
      · rintro ⟨cs, hb, hcs, rfl⟩
        exact ⟨hb, cs, hcs, rfl⟩

theorem exists_result_of_mem {f : α → Traced β} {as : List α} {bs : List β}
    (h : List.Forall₂ (fun a b => (f a).result = .ok b) as bs) {a : α} (ha : a ∈ as) :
    ∃ b ∈ bs, (f a).result = .ok b :=
  Ty.exists_of_forall₂ (List.Forall₂.flip h) ha

theorem result_eq_ok {x : Traced Unit} (h : x.result.isOk = true) : x.result = .ok () := by
  cases hx : x.result with
  | ok _ => rfl
  | error d =>
      rw [hx] at h
      cases h

end Traced

namespace Context

open Traced

variable {cx : Context}

theorem result_judge {α : Type} {span : Span} {rule : Rule} {subject : Subject} {value : α → Outcome}
    {body : Context → Traced α} (h : cx.depth < cx.settings.maxDepth) :
    (cx.judge span rule subject value body).result = (body { cx with span, depth := cx.depth + 1 }).result := by
  rw [judge, descend, if_pos h]
  rfl

theorem judge_eq_ok {α : Type} {span : Span} {rule : Rule} {subject : Subject}
    {value : α → Outcome} {body : Context → Traced α} {a : α} :
    (cx.judge span rule subject value body).result = .ok a ↔
      cx.depth < cx.settings.maxDepth ∧
        (body { cx with span, depth := cx.depth + 1 }).result = .ok a := by
  change (cx.descend span >>= fun cx => (body cx).record rule subject value).result = .ok a ↔ _
  rw [bind_eq_ok, Context.descend]
  by_cases hdepth : cx.depth < cx.settings.maxDepth
  · rw [if_pos hdepth]
    constructor
    · rintro ⟨inner, hinner, h⟩
      cases hinner
      exact ⟨hdepth, h⟩
    · rintro ⟨-, h⟩
      exact ⟨_, rfl, h⟩
  · rw [if_neg hdepth]
    constructor
    · rintro ⟨inner, hinner, -⟩
      cases hinner
    · rintro ⟨h, -⟩
      contradiction

theorem object_eq_pure {ps : List (String × Ty)} (h : (ps.map Prod.fst).Nodup) :
    cx.object ps = pure (.object ps) := by
  rw [object, Ty.object?_eq_ok h]

theorem checkBranches_eq_ok {count : Nat} :
    (cx.checkBranches count).result = .ok () ↔ count ≤ cx.settings.maxBranches := by
  unfold checkBranches
  split
  · exact iff_of_true rfl ‹_›
  · refine iff_of_false ?_ ‹_›
    intro h
    cases h

theorem counted_eq_ok {α : Type} {count : Nat} {f : Unit → Traced α} {a : α} :
    (cx.checkBranches count >>= f).result = .ok a ↔
      count ≤ cx.settings.maxBranches ∧ (f ()).result = .ok a := by
  rw [bind_eq_ok, ← checkBranches_eq_ok]
  exact ⟨fun ⟨(), h⟩ => h, fun h => ⟨(), h⟩⟩

/-- The results of a body on all entries of a list, put together. -/
theorem joined_eq_ok {α : Type} {rule : Rule} {subject : α → Subject} {body : α → Traced Ty}
    {as : List α} {u : Ty} :
    (each (fun a => (body a).record rule (subject a) .type) as >>=
        fun rs => pure (Ty.join rs) : Traced Ty).result = .ok u ↔
      ∃ rs, List.Forall₂ (fun a r => (body a).result = .ok r) as rs ∧ Ty.join rs = u := by
  rw [bind_eq_ok]
  exact exists_congr fun rs => and_congr each_eq_ok pure_eq_ok

/-- One result is the union of itself. -/
theorem single_eq_ok {α : Type} (body : α → Traced Ty) (a : α) {u : Ty}
    (h : ∀ r, (body a).result = .ok r → r.Canonical) :
    (body a).result = .ok u ↔
      ∃ rs, List.Forall₂ (fun a r => (body a).result = .ok r) [a] rs ∧ Ty.join rs = u := by
  constructor
  · intro hu
    exact ⟨[u], .cons hu .nil, Ty.join_eq_self (h u hu)⟩
  · rintro ⟨_, hrs, hu⟩
    obtain ⟨r, _, hr, hnil, rfl⟩ := List.forall₂_cons_left_iff.mp hrs
    obtain rfl := List.forall₂_nil_left_iff.mp hnil
    rwa [← hu, Ty.join_eq_self (h r hr)]

theorem onBranches_eq_ok {rule : Rule} {t u : Ty} {body : Ty → Traced Ty}
    (hbody : ∀ b ∈ t.branches, ∀ r, (body b).result = .ok r → r.Canonical) :
    (cx.onBranches rule t body).result = .ok u ↔
      (t.isUnion = true → t.branches.length ≤ cx.settings.maxBranches) ∧
        ∃ rs, List.Forall₂ (fun b r => (body b).result = .ok r) t.branches rs ∧ Ty.join rs = u := by
  cases t with
  | union members =>
      rw [onBranches, counted_eq_ok, joined_eq_ok]
      exact and_congr_left fun _ => ⟨fun h _ => h, fun h => h rfl⟩
  | _ =>
      refine (single_eq_ok body _ (hbody _ (List.mem_singleton_self _))).trans ?_
      exact ⟨fun h => ⟨fun hunion => (Bool.false_ne_true hunion).elim, h⟩, And.right⟩

theorem onPairs_eq_ok {rule : Rule} {left right u : Ty} {body : Ty → Ty → Traced Ty}
    (hbody : ∀ l ∈ left.branches, ∀ r ∈ right.branches, ∀ t, (body l r).result = .ok t →
      t.Canonical) :
    (cx.onPairs rule left right body).result = .ok u ↔
      ((left.isUnion || right.isUnion) = true →
        left.branches.length * right.branches.length ≤ cx.settings.maxBranches) ∧
        ∃ ts, List.Forall₂ (fun p t => (body p.1 p.2).result = .ok t)
          (left.branches ×ˢ right.branches) ts ∧ Ty.join ts = u := by
  rw [onPairs]
  cases hunion : left.isUnion || right.isUnion with
  | true =>
      rw [if_pos rfl, counted_eq_ok, joined_eq_ok]
      exact and_congr_left fun _ => ⟨fun h _ => h, fun h => h rfl⟩
  | false =>
      obtain ⟨hl, hr⟩ : left.isUnion = false ∧ right.isUnion = false := by simpa using hunion
      rw [Ty.branches_of_not_isUnion hl, Ty.branches_of_not_isUnion hr] at hbody ⊢
      refine (single_eq_ok (fun p : Ty × Ty => body p.1 p.2) (left, right)
        (hbody left (List.mem_singleton_self _) right (List.mem_singleton_self _))).trans ?_
      exact ⟨fun h => ⟨fun hfalse => (Bool.false_ne_true hfalse).elim, h⟩, And.right⟩

end Context

end Structura
