import Structura.Proofs.Normalization
import Structura.Proofs.SameCases
import Structura.Proofs.SharedTypes

namespace Structura.Ty

/-- The least relation on reachable types that is closed under the rules of subtyping. -/
inductive Below : Ty → Ty → Prop
  | equal {a b : Ty} (ha : Reachable a) (hb : Reachable b) (h : same a b = true) : Below a b
  | trans {a b c : Ty} (hab : Below a b) (hbc : Below b c) : Below a c
  | never {b : Ty} (hb : Reachable b) : Below .never b
  | unknown {a : Ty} (ha : Reachable a) : Below a .unknown
  | base (v : Literal) : Below (.literal v) (.prim v.base)
  | unionRight {a u : Ty} {us : List Ty} (hus : Reachable (.union us)) (hu : u ∈ us)
      (h : Below a u) : Below a (.union us)
  | unionLeft {ts : List Ty} {b : Ty} (hts : Reachable (.union ts)) (hb : Reachable b)
      (h : ∀ t ∈ ts, Below t b) : Below (.union ts) b
  | interRight {a : Ty} {us : List Ty} (ha : Reachable a) (hus : Reachable (.inter us))
      (h : ∀ u ∈ us, Below a u) : Below a (.inter us)
  | interLeft {t b : Ty} {ts : List Ty} (hts : Reachable (.inter ts)) (ht : t ∈ ts)
      (h : Below t b) : Below (.inter ts) b
  | object {ps qs : List (String × Ty)} (hps : Reachable (.object ps))
      (hqs : Reachable (.object qs)) (width : ∀ n t, (n, t) ∈ qs → ∃ s, (n, s) ∈ ps)
      (depth : ∀ n s t, (n, s) ∈ ps → (n, t) ∈ qs → Below s t) : Below (.object ps) (.object qs)
  | function {ps qs : List Ty} {r s : Ty} (hps : Reachable (.function ps r))
      (hqs : Reachable (.function qs s)) (arity : ps.length = qs.length)
      (params : ∀ (i : Nat) p q, ps[i]? = some p → qs[i]? = some q → Below q p)
      (result : Below r s) : Below (.function ps r) (.function qs s)

theorem Below.reachable {a b : Ty} (h : Below a b) : Reachable a ∧ Reachable b := by
  induction h with
  | equal ha hb _ => exact ⟨ha, hb⟩
  | trans _ _ ih₁ ih₂ => exact ⟨ih₁.1, ih₂.2⟩
  | never hb => exact ⟨.never, hb⟩
  | unknown ha => exact ⟨ha, .unknown⟩
  | base v => exact ⟨.literal v, .prim v.base⟩
  | unionRight hus _ _ ih => exact ⟨ih.1, hus⟩
  | unionLeft hts hb _ _ => exact ⟨hts, hb⟩
  | interRight ha hus _ _ => exact ⟨ha, hus⟩
  | interLeft hts _ _ ih => exact ⟨hts, ih.2⟩
  | object hps hqs _ _ _ => exact ⟨hps, hqs⟩
  | function hps hqs _ _ _ _ _ => exact ⟨hps, hqs⟩

theorem isSubtype_unionRight {a u : Ty} {us : List Ty} (ha : Canonical a)
    (hus : Canonical (.union us)) (hu : u ∈ us) (h : isSubtype a u = true) :
    isSubtype a (.union us) = true := by
  rcases a.shape with rfl | rfl | ⟨ts, rfl⟩ | halt
  · exact isSubtype_never_left _
  · have := hus.alternative hu
    rw [eq_unknown_of_isSubtype (hus.branch hu) h] at this
    contradiction
  · refine isSubtype_union_left.mpr fun t ht => ?_
    exact (isSubtype_union_right (ha.alternative ht)).mpr ⟨u, hu, isSubtype_union_left.mp h t ht⟩
  · exact (isSubtype_union_right halt).mpr ⟨u, hu, h⟩

theorem isSubtype_interLeft {t b : Ty} {ts : List Ty} (hts : Canonical (.inter ts))
    (hb : Canonical b) (ht : t ∈ ts) (h : isSubtype t b = true) :
    isSubtype (.inter ts) b = true := by
  -- The members of the intersection are basic, so none of them needs several alternatives of `b`.
  have hbasic := isAlternative_of_isBasic (hts.basic ht)
  have hinter {c : Ty} (hc : Canonical c) (halt : c.isAlternative = true)
      (htc : isSubtype t c = true) : isSubtype (.inter ts) c = true := by
    rcases alternative_shape halt with ⟨vs, rfl⟩ | hbc
    · refine isSubtype_inter_right.mpr fun v hv => ?_
      exact (isSubtype_inter_left (hc.basic hv)).mpr ⟨t, ht, isSubtype_inter_right.mp htc v hv⟩
    · exact (isSubtype_inter_left hbc).mpr ⟨t, ht, htc⟩
  rcases b.shape with rfl | rfl | ⟨us, rfl⟩ | halt
  · rw [isBasic_not_isSubtype_never (hts.basic ht)] at h
    contradiction
  · exact isSubtype_unknown_right _
  · obtain ⟨u, hu, htu⟩ := (isSubtype_union_right hbasic).mp h
    exact (isSubtype_union_right rfl).mpr
      ⟨u, hu, hinter (hb.branch hu) (hb.alternative hu) htu⟩
  · exact hinter hb halt h

theorem isSubtype_of_below {a b : Ty} (h : Below a b) : isSubtype a b = true := by
  induction h with
  | equal ha hb h =>
      exact (isSubtype_of_same (reachable_iff_canonical.mp ha) (reachable_iff_canonical.mp hb) h).1
  | trans hab hbc ih₁ ih₂ =>
      exact isSubtype_trans (reachable_iff_canonical.mp hab.reachable.1)
        (reachable_iff_canonical.mp hab.reachable.2) (reachable_iff_canonical.mp hbc.reachable.2)
        ih₁ ih₂
  | never hb => exact isSubtype_never_left _
  | unknown ha => exact isSubtype_unknown_right _
  | base v => exact (isSubtype_basic rfl rfl).mpr (.base v)
  | unionRight hus hu h ih =>
      exact isSubtype_unionRight (reachable_iff_canonical.mp h.reachable.1)
        (reachable_iff_canonical.mp hus) hu ih
  | unionLeft hts hb h ih => exact isSubtype_union_left.mpr ih
  | interRight ha hus h ih => exact isSubtype_inter_right.mpr ih
  | interLeft hts ht h ih =>
      exact isSubtype_interLeft (reachable_iff_canonical.mp hts)
        (reachable_iff_canonical.mp h.reachable.2) ht ih
  | object hps hqs width depth ih =>
      refine isSubtype_object.mpr fun n t ht => ?_
      obtain ⟨s, hs⟩ := width n t ht
      exact ⟨s, hs, ih n s t hs ht⟩
  | function hps hqs arity params result ihp ihr => exact isSubtype_function.mpr ⟨arity, ihp, ihr⟩

theorem below_of_isSubtype {a b : Ty} (ha : Canonical a) (hb : Canonical b)
    (h : isSubtype a b = true) : Below a b := by
  have hreach {t : Ty} (ht : Canonical t) : Reachable t := reachable_iff_canonical.mpr ht
  -- Every step of the test is an application of one rule.
  induction a, b using isSubtype.induct with
  | case1 b => exact .never (hreach hb)
  | case2 a _ => exact .unknown (hreach ha)
  | case3 ts b _ ih =>
      refine .unionLeft (hreach ha) (hreach hb) fun t ht => ?_
      exact ih t ht (ha.branch ht) hb (isSubtype_union_left.mp h t ht)
  | case4 a us hnever hunion ih =>
      obtain ⟨u, hu, hau⟩ := (isSubtype_union_right_iff hnever hunion).mp h
      exact .unionRight (hreach hb) hu (ih u hu ha (hb.branch hu) hau)
  | case5 a us _ _ ih =>
      refine .interRight (hreach ha) (hreach hb) fun u hu => ?_
      exact ih u hu ha (hb.factor hu) (isSubtype_inter_right.mp h u hu)
  | case6 ts b hunknown hunion hinter ih =>
      obtain ⟨t, ht, htb⟩ := (isSubtype_inter_left_iff hunknown hunion hinter).mp h
      exact .interLeft (hreach ha) ht (ih t ht (ha.factor ht) hb htb)
  | case7 p q =>
      obtain rfl : p = q := by simpa [isSubtype] using h
      exact .equal (hreach ha) (hreach hb) (same_iff.mpr (.prim p))
  | case8 v w =>
      have hvw : v.same w = true := by simpa [isSubtype] using h
      exact .equal (hreach ha) (hreach hb) (same_iff.mpr (.literal hvw))
  | case9 v q =>
      obtain rfl : v.base = q := by simpa [isSubtype] using h
      exact .base v
  | case10 ps qs ih =>
      have hpq := isSubtype_object.mp h
      refine .object (hreach ha) (hreach hb) (fun n t ht => (hpq n t ht).imp fun _ => And.left) ?_
      intro n s t hs ht
      obtain ⟨s', hs', hst⟩ := hpq n t ht
      obtain rfl := ha.property_unique hs' hs
      exact ih n t ht n s' hs (ha.property hs) (hb.property ht) hst
  | case11 ps r qs s ihp ihr =>
      obtain ⟨hl, hp, hr⟩ := isSubtype_function.mp h
      refine .function (hreach ha) (hreach hb) hl (fun i p q hi hj => ?_)
        (ihr ha.result hb.result hr)
      have hpm := List.mem_of_getElem? hi
      have hqm := List.mem_of_getElem? hj
      exact ihp q hqm p hpm (hb.param hqm) (ha.param hpm) (hp i p q hi hj)
  | case12 => simp [isSubtype, *] at h

/-- The test decides subtyping by rules. It is therefore a preorder, and a test that may stop early at
equal addresses gives the same answers. -/
theorem isSubtype_iff_below {a b : Ty} (ha : Reachable a) (hb : Reachable b) :
    (isSubtype a b = true ↔ Below a b) ∧ isSubtype a a = true ∧
      (∀ c, Reachable c → isSubtype a b = true → isSubtype b c = true → isSubtype a c = true) ∧
      ∀ (A : Type) [DecidableEq A] (heap : Heap A) (x y : A), heap.type x = a → heap.type y = b →
        heap.isSubtype x y = isSubtype a b := by
  have hca := reachable_iff_canonical.mp ha
  have hcb := reachable_iff_canonical.mp hb
  refine ⟨⟨below_of_isSubtype hca hcb, isSubtype_of_below⟩, isSubtype_refl hca, ?_, ?_⟩
  · intro c hc hab hbc
    exact isSubtype_trans hca hcb (reachable_iff_canonical.mp hc) hab hbc
  · rintro A _ heap x y rfl rfl
    exact heap.isSubtype_eq hca hcb

def oneString : Heap (Fin 3) where
  age := Fin.val
  node
    | 0 => .prim .string
    | 1 => .object [("x", ⟨0, by decide⟩)]
    | 2 => .object [("x", ⟨0, by decide⟩), ("y", ⟨0, by decide⟩)]

theorem isSubtype_iff_below_oneString :
    Below (oneString.type 2) (oneString.type 1) ∧ oneString.isSubtype 2 1 = true ∧
      isSubtype (oneString.type 2) (.object []) = true := by
  have hstring : oneString.type 0 = .string := oneString.type_eq (x := 0) rfl
  have hwide : oneString.type 2 = .object [("x", .string), ("y", .string)] := by
    rw [oneString.type_eq (x := 2) rfl]
    exact congrArg (fun t => Ty.object [("x", t), ("y", t)]) hstring
  have hnarrow : oneString.type 1 = .object [("x", .string)] := by
    rw [oneString.type_eq (x := 1) rfl]
    exact congrArg (fun t => Ty.object [("x", t)]) hstring
  have hsub : isSubtype (.object [("x", .string), ("y", .string)]) (.object [("x", .string)]) =
      true := by
    decide +kernel
  have h := isSubtype_iff_below
    (a := .object [("x", .string), ("y", .string)]) (b := .object [("x", .string)])
    (.object (by decide) (by simp [Reachable.prim])) (.object (by decide) (by simp [Reachable.prim]))
  rw [h.2.2.2 (Fin 3) oneString 2 1 hwide hnarrow, hwide, hnarrow]
  refine ⟨h.1.mp hsub, hsub, ?_⟩
  exact h.2.2.1 (.object []) (.object (by decide) (by simp)) hsub (by decide +kernel)

end Structura.Ty
