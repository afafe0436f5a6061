import Structura.Proofs.LeastUpperBound
import Structura.Proofs.Successes

/-!
Rules that are applied branch by branch. If a rule for concrete types accepts all that is below a type it accepts, with
a result that is below, then the same holds of the rule applied to unions, and the result on a union is the union of
the results. The branches that a union has dropped do not count, since those that covered them give more.
-/

namespace Structura

open Ty

namespace Traced

variable {α : Type} {body : α → Traced Ty} {le : α → α → Prop} {as bs xs ys zs : List α} {t u : Ty}

def Joins (body : α → Traced Ty) (as : List α) (t : Ty) : Prop :=
  ∃ rs, List.Forall₂ (fun a r => (body a).result = .ok r) as rs ∧ join rs = t

theorem exists_joins : (∃ t, Joins body as t) ↔ ∀ a ∈ as, ∃ r, (body a).result = .ok r := by
  constructor
  · rintro ⟨t, rs, hrs, -⟩ a ha
    obtain ⟨r, -, hr⟩ := exists_result_of_mem hrs ha
    exact ⟨r, hr⟩
  · intro h
    choose! result hresult using h
    exact ⟨_, as.map result, List.forall₂_map_right_iff.mpr (List.forall₂_same.mpr hresult), rfl⟩

theorem Joins.unique (ht : Joins body as t) (hu : Joins body as u) : t = u := by
  obtain ⟨rs, hrs, rfl⟩ := ht
  obtain ⟨ss, hss, rfl⟩ := hu
  have hright : Relator.RightUnique fun a r => (body a).result = .ok r :=
    fun _ _ _ hr hs => Except.ok.inj (hr.symm.trans hs)
  rw [hright.forall₂ hrs hss]

/-- The rule gives canonical types, and it gives no more for what is below. -/
structure Ascends (le : α → α → Prop) (body : α → Traced Ty) : Prop where
  canonical {a : α} {r : Ty} : le a a → (body a).result = .ok r → r.Canonical
  mono {a b : α} {r : Ty} : le a b → (body b).result = .ok r →
    ∃ s, (body a).result = .ok s ∧ isSubtype s r = true

namespace Ascends

variable (hbody : Ascends le body)
include hbody

theorem canonical_results (has : ∀ a ∈ as, le a a) {rs : List Ty}
    (hrs : List.Forall₂ (fun a r => (body a).result = .ok r) as rs) : ∀ r ∈ rs, r.Canonical := by
  intro r hr
  obtain ⟨a, ha, har⟩ := exists_of_forall₂ hrs hr
  exact hbody.canonical (has a ha) har

theorem canonical_joins (has : ∀ a ∈ as, le a a) (h : Joins body as t) : t.Canonical := by
  obtain ⟨rs, hrs, rfl⟩ := h
  exact canonical_join (hbody.canonical_results has hrs)

theorem isSubtype_joins (has : ∀ a ∈ as, le a a) (h : Joins body as t) {c : Ty} (hc : Concrete c) :
    isSubtype c t = true ↔ ∃ a ∈ as, ∃ r, (body a).result = .ok r ∧ isSubtype c r = true := by
  obtain ⟨rs, hrs, rfl⟩ := h
  rw [hc.isSubtype_join (hbody.canonical_results has hrs)]
  constructor
  · rintro ⟨r, hr, hcr⟩
    obtain ⟨a, ha, har⟩ := exists_of_forall₂ hrs hr
    exact ⟨a, ha, r, har, hcr⟩
  · rintro ⟨a, ha, r, har, hcr⟩
    obtain ⟨s, hs, has⟩ := exists_result_of_mem hrs ha
    exact ⟨s, hs, Except.ok.inj (has.symm.trans har) ▸ hcr⟩

theorem joins_mono (has : ∀ a ∈ as, le a a) (hbs : ∀ b ∈ bs, le b b)
    (hcover : ∀ a ∈ as, ∃ b ∈ bs, le a b) (ht : Joins body bs t) :
    ∃ s, Joins body as s ∧ isSubtype s t = true := by
  have hresult := exists_joins.mp ⟨t, ht⟩
  obtain ⟨s, hs⟩ : ∃ s, Joins body as s := by
    refine exists_joins.mpr fun a ha => ?_
    obtain ⟨b, hb, hab⟩ := hcover a ha
    obtain ⟨r, hr⟩ := hresult b hb
    obtain ⟨s, hs, -⟩ := hbody.mono hab hr
    exact ⟨s, hs⟩
  refine ⟨s, hs, isSubtype_of_concrete (hbody.canonical_joins has hs) fun c hc hcs => ?_⟩
  obtain ⟨a, ha, q, hq, hcq⟩ := (hbody.isSubtype_joins has hs hc).mp hcs
  obtain ⟨b, hb, hab⟩ := hcover a ha
  obtain ⟨r, hr⟩ := hresult b hb
  obtain ⟨_, hq', hqr⟩ := hbody.mono hab hr
  obtain rfl := Except.ok.inj (hq.symm.trans hq')
  have hcr := isSubtype_trans hc.canonical (hbody.canonical (has a ha) hq)
    (hbody.canonical (hbs b hb) hr) hcq hqr
  exact (hbody.isSubtype_joins hbs ht hc).mpr ⟨b, hb, r, hr, hcr⟩

end Ascends

structure Covers (le : α → α → Prop) (xs ys zs : List α) : Prop where
  taken : ∀ x ∈ xs, x ∈ ys ∨ x ∈ zs
  left : ∀ y ∈ ys, ∃ x ∈ xs, le y x
  right : ∀ z ∈ zs, ∃ x ∈ xs, le z x

/-- The computation succeeds exactly if both of the others do, and then its type is the union of their types. -/
structure Additive (whole left right : Traced Ty) : Prop where
  succeeds : (∃ t, whole.result = .ok t) ↔ (∃ u, left.result = .ok u) ∧ ∃ v, right.result = .ok v
  result {t u v : Ty} : whole.result = .ok t → left.result = .ok u → right.result = .ok v →
    same t (join [u, v]) = true

theorem Ascends.additive (hbody : Ascends le body) (h : Covers le xs ys zs) (hys : ∀ y ∈ ys, le y y)
    (hzs : ∀ z ∈ zs, le z z) {whole left right : Traced Ty}
    (hwhole : ∀ t, whole.result = .ok t ↔ Joins body xs t)
    (hleft : ∀ t, left.result = .ok t ↔ Joins body ys t)
    (hright : ∀ t, right.result = .ok t ↔ Joins body zs t) : Additive whole left right := by
  have hxs : ∀ x ∈ xs, le x x := fun x hx => (h.taken x hx).elim (hys x) (hzs x)
  constructor
  · simp only [hwhole, hleft, hright]
    constructor
    · rintro ⟨t, ht⟩
      obtain ⟨u, hu, -⟩ := hbody.joins_mono hys hxs h.left ht
      obtain ⟨v, hv, -⟩ := hbody.joins_mono hzs hxs h.right ht
      exact ⟨⟨u, hu⟩, v, hv⟩
    · rintro ⟨hu, hv⟩
      exact exists_joins.mpr fun x hx =>
        (h.taken x hx).elim (exists_joins.mp hu x) (exists_joins.mp hv x)
  · intro t u v ht hu hv
    rw [hwhole] at ht
    rw [hleft] at hu
    rw [hright] at hv
    have hct := hbody.canonical_joins hxs ht
    have huv : ∀ s ∈ [u, v], s.Canonical := by
      simp [hbody.canonical_joins hys hu, hbody.canonical_joins hzs hv]
    refine same_of_mutual hct (canonical_join huv) ⟨?_, (join_isSubtype_iff huv hct).mpr ?_⟩
    · refine isSubtype_of_concrete hct fun c hc hcx => (hc.isSubtype_join huv).mpr ?_
      obtain ⟨x, hx, hr⟩ := (hbody.isSubtype_joins hxs ht hc).mp hcx
      rcases h.taken x hx with hmem | hmem
      · exact ⟨u, by simp, (hbody.isSubtype_joins hys hu hc).mpr ⟨x, hmem, hr⟩⟩
      · exact ⟨v, by simp, (hbody.isSubtype_joins hzs hv hc).mpr ⟨x, hmem, hr⟩⟩
    · obtain ⟨u', hu', hle⟩ := hbody.joins_mono hys hxs h.left ht
      obtain ⟨v', hv', hle'⟩ := hbody.joins_mono hzs hxs h.right ht
      simp [hu.unique hu', hv.unique hv', hle, hle']

end Traced

namespace Ty

variable {a b s t x : Ty}

structure Narrows (s t : Ty) : Prop where
  lower : Concrete s
  upper : Concrete t
  below : isSubtype s t = true

theorem Concrete.narrows_self (h : Concrete t) : Narrows t t := ⟨h, h, isSubtype_refl h.canonical⟩

def PairNarrows (p q : Ty × Ty) : Prop := Narrows p.1 q.1 ∧ Narrows p.2 q.2

structure Operand (t : Ty) : Prop where
  canonical : Canonical t
  ne_never : t ≠ .never

theorem Reachable.operand (h : Reachable t) (hne : t ≠ .never) : Operand t :=
  ⟨reachable_iff_canonical.mp h, hne⟩

namespace Operand

theorem concrete (ht : Operand t) (hx : x ∈ t.branches) : Concrete x :=
  .of_mem_branches ht.canonical ht.ne_never hx

theorem narrows_self (ht : Operand t) : ∀ x ∈ t.branches, Narrows x x :=
  fun _ hx => (ht.concrete hx).narrows_self

theorem of_isSubtype (hs : Operand s) (ht : Canonical t) (h : isSubtype s t = true) : Operand t := by
  refine ⟨ht, ?_⟩
  rintro rfl
  exact hs.ne_never (eq_never_of_isSubtype hs.canonical h)

theorem exists_narrows (hs : Operand s) (ht : Operand t) (h : isSubtype s t = true) :
    ∀ x ∈ s.branches, ∃ y ∈ t.branches, Narrows x y := by
  intro x hx
  have hconcrete := hs.concrete hx
  obtain ⟨y, hy, hxy⟩ := hconcrete.exists_branch.mp (isSubtype_iff_branches.mp h x hx)
  exact ⟨y, hy, hconcrete, ht.concrete hy, hxy⟩

theorem join_pair (ha : Operand a) (hb : Operand b) : Operand (join [a, b]) := by
  have hab : ∀ t ∈ [a, b], Canonical t := by simp [ha.canonical, hb.canonical]
  exact ha.of_isSubtype (canonical_join hab) (isSubtype_join hab List.mem_cons_self)

end Operand

/-- The branches of a union are branches of its operands. -/
theorem mem_branches_join {ts : List Ty} (hts : ∀ t ∈ ts, Canonical t) (hne : join ts ≠ .never)
    (hx : x ∈ (join ts).branches) : ∃ t ∈ ts, x ∈ t.branches := by
  rcases join_cases ts with ⟨-, hj⟩ | ⟨t, hms, hj⟩ | ⟨-, hj⟩
  · contradiction
  · obtain ⟨u, hu, htu⟩ := List.mem_flatMap.mp (mostGeneral_subset (hms ▸ List.mem_singleton_self t))
    rw [hj, branches_of_not_isUnion ((hts u hu).of_mem_branches htu).2, List.mem_singleton] at hx
    exact ⟨u, hu, hx ▸ htu⟩
  · rw [hj] at hx
    exact List.mem_flatMap.mp (mostGeneral_subset hx)

theorem covers_branches_join (ha : Operand a) (hb : Operand b) :
    Traced.Covers Narrows (join [a, b]).branches a.branches b.branches := by
  have hab : ∀ t ∈ [a, b], Canonical t := by simp [ha.canonical, hb.canonical]
  have hjoin := ha.join_pair hb
  refine ⟨fun x hx => ?_, ?_, ?_⟩
  · simpa using mem_branches_join hab hjoin.ne_never hx
  · exact ha.exists_narrows hjoin (isSubtype_join hab (by simp))
  · exact hb.exists_narrows hjoin (isSubtype_join hab (by simp))

theorem exists_pairNarrows {l l' r r' : List Ty} (hl : ∀ x ∈ l, ∃ y ∈ l', Narrows x y)
    (hr : ∀ x ∈ r, ∃ y ∈ r', Narrows x y) : ∀ p ∈ l ×ˢ r, ∃ q ∈ l' ×ˢ r', PairNarrows p q := by
  rintro ⟨x, z⟩ hp
  obtain ⟨hx, hz⟩ := List.mem_product.mp hp
  obtain ⟨y, hy, hxy⟩ := hl x hx
  obtain ⟨w, hw, hzw⟩ := hr z hz
  exact ⟨(y, w), List.mem_product.mpr ⟨hy, hw⟩, hxy, hzw⟩

theorem pairNarrows_self (hs : Operand s) (ht : Operand t) :
    ∀ p ∈ s.branches ×ˢ t.branches, PairNarrows p p := by
  rintro ⟨x, y⟩ hp
  obtain ⟨hx, hy⟩ := List.mem_product.mp hp
  exact ⟨hs.narrows_self x hx, ht.narrows_self y hy⟩

end Ty

open Traced in
theorem Traced.Covers.product_right {xs ys zs cs : List Ty} (h : Covers Narrows xs ys zs)
    (hcs : ∀ c ∈ cs, Narrows c c) : Covers PairNarrows (xs ×ˢ cs) (ys ×ˢ cs) (zs ×ˢ cs) := by
  have hself : ∀ c ∈ cs, ∃ d ∈ cs, Narrows c d := fun c hc => ⟨c, hc, hcs c hc⟩
  refine ⟨?_, exists_pairNarrows h.left hself, exists_pairNarrows h.right hself⟩
  rintro ⟨x, c⟩ hp
  simp only [List.mem_product] at hp ⊢
  exact (h.taken x hp.1).imp (⟨·, hp.2⟩) (⟨·, hp.2⟩)

open Traced in
theorem Traced.Covers.product_left {xs ys zs cs : List Ty} (h : Covers Narrows xs ys zs)
    (hcs : ∀ c ∈ cs, Narrows c c) : Covers PairNarrows (cs ×ˢ xs) (cs ×ˢ ys) (cs ×ˢ zs) := by
  have hself : ∀ c ∈ cs, ∃ d ∈ cs, Narrows c d := fun c hc => ⟨c, hc, hcs c hc⟩
  refine ⟨?_, exists_pairNarrows hself h.left, exists_pairNarrows hself h.right⟩
  rintro ⟨c, x⟩ hp
  simp only [List.mem_product] at hp ⊢
  exact (h.taken x hp.2).imp (⟨hp.1, ·⟩) (⟨hp.1, ·⟩)

namespace Context

open Traced

variable {cx : Context} {rule : Rule} {a b l l' r r' s t u : Ty}

/-- The branches of the type are no more than may be looked at. Only those of unions are counted. -/
def AffordsBranches (cx : Context) (t : Ty) : Prop :=
  t.isUnion = true → t.branches.length ≤ cx.settings.maxBranches

def AffordsPairs (cx : Context) (left right : Ty) : Prop :=
  (left.isUnion || right.isUnion) = true →
    left.branches.length * right.branches.length ≤ cx.settings.maxBranches

instance (cx : Context) (t : Ty) : Decidable (cx.AffordsBranches t) :=
  inferInstanceAs (Decidable (_ → _))

instance (cx : Context) (left right : Ty) : Decidable (cx.AffordsPairs left right) :=
  inferInstanceAs (Decidable (_ → _))

section Branches

variable {body : Ty → Traced Ty} (hbody : Ascends Narrows body)
include hbody

theorem onBranches_eq_ok_iff_joins (ht : Operand t) :
    (cx.onBranches rule t body).result = .ok u ↔ cx.AffordsBranches t ∧ Joins body t.branches u :=
  onBranches_eq_ok fun b hb _ => hbody.canonical (ht.narrows_self b hb)

theorem onBranches_mono (hs : Operand s) (ht : Canonical t) (hst : isSubtype s t = true)
    (hroom : cx.AffordsBranches s) (h : (cx.onBranches rule t body).result = .ok u) :
    ∃ v, (cx.onBranches rule s body).result = .ok v ∧ isSubtype v u = true := by
  have ht := hs.of_isSubtype ht hst
  obtain ⟨-, hu⟩ := (onBranches_eq_ok_iff_joins hbody ht).mp h
  obtain ⟨v, hv, hvu⟩ :=
    hbody.joins_mono hs.narrows_self ht.narrows_self (hs.exists_narrows ht hst) hu
  exact ⟨v, (onBranches_eq_ok_iff_joins hbody hs).mpr ⟨hroom, hv⟩, hvu⟩

theorem onBranches_additive (ha : Operand a) (hb : Operand b) (hrooma : cx.AffordsBranches a)
    (hroomb : cx.AffordsBranches b) (hroom : cx.AffordsBranches (join [a, b])) :
    Additive (cx.onBranches rule (join [a, b]) body) (cx.onBranches rule a body)
      (cx.onBranches rule b body) := by
  have hresult {t : Ty} (ht : Operand t) (hroom : cx.AffordsBranches t) (u : Ty) :
      (cx.onBranches rule t body).result = .ok u ↔ Joins body t.branches u :=
    (onBranches_eq_ok_iff_joins hbody ht).trans (and_iff_right hroom)
  exact hbody.additive (covers_branches_join ha hb) ha.narrows_self hb.narrows_self
    (hresult (ha.join_pair hb) hroom) (hresult ha hrooma) (hresult hb hroomb)

end Branches

section Pairs

variable {body : Ty → Ty → Traced Ty} (hbody : Ascends PairNarrows fun p => body p.1 p.2)
include hbody

theorem onPairs_eq_ok_iff_joins (hl : Operand l) (hr : Operand r) :
    (cx.onPairs rule l r body).result = .ok u ↔
      cx.AffordsPairs l r ∧ Joins (fun p => body p.1 p.2) (l.branches ×ˢ r.branches) u :=
  onPairs_eq_ok fun x hx y hy _ =>
    hbody.canonical (a := (x, y)) ⟨hl.narrows_self x hx, hr.narrows_self y hy⟩

theorem onPairs_eq_ok_of_affords (hl : Operand l) (hr : Operand r) (hroom : cx.AffordsPairs l r) (u : Ty) :
    (cx.onPairs rule l r body).result = .ok u ↔
      Joins (fun p => body p.1 p.2) (l.branches ×ˢ r.branches) u :=
  (onPairs_eq_ok_iff_joins hbody hl hr).trans (and_iff_right hroom)

theorem onPairs_mono (hl : Operand l) (hr : Operand r) (hl' : Canonical l') (hr' : Canonical r')
    (hll : isSubtype l l' = true) (hrr : isSubtype r r' = true) (hroom : cx.AffordsPairs l r)
    (h : (cx.onPairs rule l' r' body).result = .ok u) :
    ∃ v, (cx.onPairs rule l r body).result = .ok v ∧ isSubtype v u = true := by
  have hl' := hl.of_isSubtype hl' hll
  have hr' := hr.of_isSubtype hr' hrr
  obtain ⟨-, hu⟩ := (onPairs_eq_ok_iff_joins hbody hl' hr').mp h
  obtain ⟨v, hv, hvu⟩ := hbody.joins_mono (pairNarrows_self hl hr) (pairNarrows_self hl' hr')
    (exists_pairNarrows (hl.exists_narrows hl' hll) (hr.exists_narrows hr' hrr)) hu
  exact ⟨v, (onPairs_eq_ok_of_affords hbody hl hr hroom v).mpr hv, hvu⟩

theorem onPairs_additive_left (ha : Operand a) (hb : Operand b) (hr : Operand r)
    (hrooma : cx.AffordsPairs a r) (hroomb : cx.AffordsPairs b r)
    (hroom : cx.AffordsPairs (join [a, b]) r) :
    Additive (cx.onPairs rule (join [a, b]) r body) (cx.onPairs rule a r body)
      (cx.onPairs rule b r body) :=
  hbody.additive ((covers_branches_join ha hb).product_right hr.narrows_self)
    (pairNarrows_self ha hr) (pairNarrows_self hb hr)
    (onPairs_eq_ok_of_affords hbody (ha.join_pair hb) hr hroom)
    (onPairs_eq_ok_of_affords hbody ha hr hrooma) (onPairs_eq_ok_of_affords hbody hb hr hroomb)

theorem onPairs_additive_right (ha : Operand a) (hb : Operand b) (hl : Operand l)
    (hrooma : cx.AffordsPairs l a) (hroomb : cx.AffordsPairs l b)
    (hroom : cx.AffordsPairs l (join [a, b])) :
    Additive (cx.onPairs rule l (join [a, b]) body) (cx.onPairs rule l a body)
      (cx.onPairs rule l b body) :=
  hbody.additive ((covers_branches_join ha hb).product_left hl.narrows_self)
    (pairNarrows_self hl ha) (pairNarrows_self hl hb)
    (onPairs_eq_ok_of_affords hbody hl (ha.join_pair hb) hroom)
    (onPairs_eq_ok_of_affords hbody hl ha hrooma) (onPairs_eq_ok_of_affords hbody hl hb hroomb)

end Pairs

end Context

end Structura
