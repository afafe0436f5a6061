import Structura.Proofs.Canonicity

namespace Structura.Ty

/-- A canonical type other than `never` and unions. -/
structure Concrete (t : Ty) : Prop where
  canonical : Canonical t
  ne_never : t ≠ .never
  not_union : t.isUnion = false

theorem Concrete.of_mem_branches {t b : Ty} (ht : Canonical t) (hn : t ≠ .never)
    (hb : b ∈ t.branches) : Concrete b := by
  obtain ⟨hcanonical, hunion⟩ := ht.of_mem_branches hb
  refine ⟨hcanonical, ?_, hunion⟩
  rintro rfl
  cases t with
  | union members => cases ht.alternative hb
  | _ => exact hn (List.mem_singleton.mp hb).symm

theorem isSubtype_iff_branches {a b : Ty} :
    isSubtype a b = true ↔ ∀ x ∈ a.branches, isSubtype x b = true := by
  cases a with
  | union members => exact isSubtype_union_left
  | _ => simp [branches]

theorem Concrete.isSubtype_union {c : Ty} (hc : Concrete c) (us : List Ty) :
    isSubtype c (.union us) = true ↔ ∃ u ∈ us, isSubtype c u = true := by
  apply isSubtype_union_right_iff hc.ne_never
  rintro ts rfl
  cases hc.not_union

theorem Concrete.exists_branch {c b : Ty} (hc : Concrete c) :
    isSubtype c b = true ↔ ∃ y ∈ b.branches, isSubtype c y = true :=
  iff_exists_branch (isSubtype c · = true) hc.isSubtype_union b

theorem Concrete.below_of_mem_branches {a b : Ty} (hb : Concrete b) (h : b ∈ a.branches) :
    isSubtype b a = true :=
  hb.exists_branch.mpr ⟨b, h, isSubtype_refl hb.canonical⟩

/-- A type is below all that its concrete subtypes are below. -/
theorem isSubtype_of_concrete {a b : Ty} (ha : Canonical a)
    (h : ∀ c, Concrete c → isSubtype c a = true → isSubtype c b = true) :
    isSubtype a b = true := by
  by_cases hn : a = .never
  · exact hn ▸ isSubtype_never_left b
  · refine isSubtype_iff_branches.mpr fun x hx => ?_
    have hconcrete := Concrete.of_mem_branches ha hn hx
    exact h x hconcrete (hconcrete.below_of_mem_branches hx)

theorem same_of_concrete {a b : Ty} (ha : Canonical a) (hb : Canonical b)
    (h : ∀ c, Concrete c → (isSubtype c a = true ↔ isSubtype c b = true)) : same a b = true :=
  same_of_mutual ha hb
    ⟨isSubtype_of_concrete ha fun c hc => (h c hc).mp,
      isSubtype_of_concrete hb fun c hc => (h c hc).mpr⟩

theorem Concrete.not_isSubtype_never {c : Ty} (hc : Concrete c) : isSubtype c .never = false :=
  Bool.eq_false_iff.mpr fun h => hc.ne_never (eq_never_of_isSubtype hc.canonical h)

theorem upward_isSubtype {c : Ty} (hc : Canonical c) : Upward fun t => isSubtype c t = true :=
  fun _ _ ht hu htu hct => isSubtype_trans hc ht hu hct htu

/-- What is concrete lies below a union if it lies below one of the operands. -/
theorem Concrete.isSubtype_join {c : Ty} (hc : Concrete c) {ts : List Ty}
    (hts : ∀ t ∈ ts, Canonical t) :
    isSubtype c (join ts) = true ↔ ∃ t ∈ ts, isSubtype c t = true :=
  (upward_isSubtype hc.canonical).holds_join (by simp [hc.not_isSubtype_never])
    hc.isSubtype_union hts

theorem isSubtype_join {ts : List Ty} (hts : ∀ t ∈ ts, Canonical t) {t : Ty} (ht : t ∈ ts) :
    isSubtype t (join ts) = true :=
  isSubtype_of_concrete (hts t ht) fun _ hc hct => (hc.isSubtype_join hts).mpr ⟨t, ht, hct⟩

theorem join_isSubtype_iff {ts : List Ty} (hts : ∀ t ∈ ts, Canonical t) {b : Ty}
    (hb : Canonical b) :
    isSubtype (join ts) b = true ↔ ∀ t ∈ ts, isSubtype t b = true := by
  constructor
  · intro h t ht
    exact isSubtype_trans (hts t ht) (canonical_join hts) hb (isSubtype_join hts ht) h
  · intro h
    apply isSubtype_of_concrete (canonical_join hts)
    intro c hc hcj
    obtain ⟨t, ht, hct⟩ := (hc.isSubtype_join hts).mp hcj
    exact isSubtype_trans hc.canonical (hts t ht) hb hct (h t ht)

theorem same_join {ts us : List Ty} (hts : ∀ t ∈ ts, Canonical t) (hus : ∀ u ∈ us, Canonical u)
    (h : ∀ c, Concrete c →
      ((∃ t ∈ ts, isSubtype c t = true) ↔ ∃ u ∈ us, isSubtype c u = true)) :
    same (join ts) (join us) = true :=
  same_of_concrete (canonical_join hts) (canonical_join hus) fun c hc => by
    rw [hc.isSubtype_join hts, hc.isSubtype_join hus]
    exact h c hc

/-- Operands that are put together by nested calls of one operation. -/
inductive Grouping where
  | operand (t : Ty)
  | call (parts : List Grouping)

namespace Grouping

mutual

def operands : Grouping → List Ty
  | .operand t => [t]
  | .call parts => operandsAll parts

def operandsAll : List Grouping → List Ty
  | [] => []
  | g :: gs => g.operands ++ operandsAll gs

end

mutual

def eval (op : List Ty → Ty) : Grouping → Ty
  | .operand t => t
  | .call parts => op (evalAll op parts)

def evalAll (op : List Ty → Ty) : List Grouping → List Ty
  | [] => []
  | g :: gs => g.eval op :: evalAll op gs

end

theorem operands_call (parts : List Grouping) :
    (call parts).operands = parts.flatMap operands := by
  change operandsAll parts = _
  induction parts with
  | nil => rfl
  | cons g gs ih => rw [operandsAll, ih, List.flatMap_cons]

theorem eval_call (op : List Ty → Ty) (parts : List Grouping) :
    (call parts).eval op = op (parts.map (eval op)) := by
  change op (evalAll op parts) = _
  congr 1
  induction parts with
  | nil => rfl
  | cons g gs ih => rw [evalAll, ih, List.map_cons]

theorem induct {good : Grouping → Prop} (operand : ∀ t, good (.operand t))
    (call : ∀ parts, (∀ g ∈ parts, good g) → good (.call parts)) : ∀ g, good g
  | .operand t => operand t
  | .call parts => call parts fun g hg => by
      have := List.sizeOf_lt_of_mem hg
      exact induct operand call g
termination_by g => sizeOf g

theorem canonical_eval {op : List Ty → Ty}
    (hop : ∀ {ts : List Ty}, (∀ t ∈ ts, Canonical t) → Canonical (op ts)) {g : Grouping}
    (hg : ∀ t ∈ g.operands, Canonical t) : Canonical (g.eval op) := by
  induction g using induct with
  | operand t => exact hg t (List.mem_singleton_self t)
  | call parts ih =>
      rw [operands_call, List.forall_mem_flatMap] at hg
      rw [eval_call]
      exact hop (List.forall_mem_map.mpr fun g hmem => ih g hmem (hg g hmem))

theorem isSubtype_eval_join {c : Ty} (hc : Concrete c) {g : Grouping}
    (hg : ∀ t ∈ g.operands, Canonical t) :
    isSubtype c (g.eval join) = true ↔ ∃ t ∈ g.operands, isSubtype c t = true := by
  induction g using induct with
  | operand t => simp [eval, operands]
  | call parts ih =>
      rw [operands_call] at hg ⊢
      rw [List.forall_mem_flatMap] at hg
      rw [eval_call, hc.isSubtype_join (List.forall_mem_map.mpr fun g hmem =>
        canonical_eval canonical_join (hg g hmem))]
      simp only [List.mem_map, List.mem_flatMap, exists_exists_and_eq_and]
      constructor
      · rintro ⟨g, hmem, h⟩
        obtain ⟨t, ht, hct⟩ := (ih g hmem (hg g hmem)).mp h
        exact ⟨t, ⟨g, hmem, ht⟩, hct⟩
      · rintro ⟨t, ⟨g, hmem, ht⟩, hct⟩
        exact ⟨g, hmem, (ih g hmem (hg g hmem)).mpr ⟨t, ht, hct⟩⟩

end Grouping

/-- Unions with the same operands are equal, in whatever order, number and nesting these are given. -/
theorem Grouping.same_join {g h : Grouping} (hg : ∀ t ∈ g.operands, Canonical t)
    (hgh : ∀ t, t ∈ g.operands ↔ t ∈ h.operands) : same (g.eval join) (h.eval join) = true := by
  have hh : ∀ t ∈ h.operands, Canonical t := fun t ht => hg t ((hgh t).mpr ht)
  refine same_of_concrete (canonical_eval canonical_join hg) (canonical_eval canonical_join hh)
    fun c hc => ?_
  rw [isSubtype_eval_join hc hg, isSubtype_eval_join hc hh]
  simp only [hgh]

theorem join_never_cons {ts : List Ty} (hts : ∀ t ∈ ts, Canonical t) :
    same (join (.never :: ts)) (join ts) = true := by
  refine same_join (List.forall_mem_cons.mpr ⟨.never, hts⟩) hts fun c hc => ?_
  simp [hc.not_isSubtype_never]

theorem join_unknown_cons {ts : List Ty} (hts : ∀ t ∈ ts, Canonical t) :
    join (.unknown :: ts) = .unknown := by
  have hall : ∀ t ∈ Ty.unknown :: ts, Canonical t := List.forall_mem_cons.mpr ⟨.unknown, hts⟩
  exact eq_unknown_of_isSubtype (canonical_join hall) (isSubtype_join hall List.mem_cons_self)

/-- Of all types above the operands their union is the least. It does not depend on how the operands
are ordered, repeated or nested; `never` adds nothing and `unknown` takes in everything. -/
theorem join_least_upper_bound :
    (∀ (ts : List Ty) (c : Ty), (∀ t ∈ ts, Reachable t) → Reachable c →
      (∀ t ∈ ts, isSubtype t (join ts) = true) ∧
      (isSubtype (join ts) c = true ↔ ∀ t ∈ ts, isSubtype t c = true)) ∧
    (∀ ts us : List Ty, (∀ t ∈ ts, Reachable t) → (∀ t, t ∈ ts ↔ t ∈ us) →
      same (join ts) (join us) = true) ∧
    (∀ g h : Grouping, (∀ t ∈ g.operands, Reachable t) →
      (∀ t, t ∈ g.operands ↔ t ∈ h.operands) → same (g.eval join) (h.eval join) = true) ∧
    ∀ ts : List Ty, (∀ t ∈ ts, Reachable t) →
      same (join (.never :: ts)) (join ts) = true ∧ join (.unknown :: ts) = .unknown := by
  refine ⟨fun ts c hts hc => ?_, fun ts us hts h => ?_, fun g h hg hgh => ?_, fun ts hts => ?_⟩
  · have hts := canonical_of_reachable hts
    exact ⟨fun t ht => isSubtype_join hts ht,
      join_isSubtype_iff hts (reachable_iff_canonical.mp hc)⟩
  · have hts := canonical_of_reachable hts
    refine same_join hts (fun u hu => hts u ((h u).mpr hu)) fun c _ => ?_
    simp only [h]
  · exact Grouping.same_join (canonical_of_reachable hg) hgh
  · have hts := canonical_of_reachable hts
    exact ⟨join_never_cons hts, join_unknown_cons hts⟩

theorem join_least_upper_bound_nested :
    isSubtype (join [.object [("x", .number), ("y", .string)], .null])
        (join [.null, .object [("x", .number)]]) = true ∧
      same (join [join [.object [("x", .number), ("y", .string)], .object [("x", .number)]], .null])
        (join [.null, .object [("x", .number)], .null,
          .object [("x", .number), ("y", .string)]]) = true := by
  have hwide : Reachable (.object [("x", .number), ("y", .string)]) :=
    .object (by decide) (by simp [Reachable.prim])
  have hnarrow : Reachable (.object [("x", .number)]) :=
    .object (by decide) (by simp [Reachable.prim])
  have hnull : Reachable .null := .prim .null
  constructor
  · refine (join_least_upper_bound.1 _ _ (by simp [hwide, hnull])
      (.join (by simp [hnarrow, hnull]))).2.mpr ?_
    exact List.forall_mem_cons.mpr
      ⟨by decide +kernel, List.forall_mem_singleton.mpr (by decide +kernel)⟩
  · refine join_least_upper_bound.2.2.1
      (.call [.call [.operand (.object [("x", .number), ("y", .string)]),
        .operand (.object [("x", .number)])], .operand .null])
      (.call [.operand .null, .operand (.object [("x", .number)]), .operand .null,
        .operand (.object [("x", .number), ("y", .string)])]) ?_ ?_
    · simp [Grouping.operands, Grouping.operandsAll, hwide, hnarrow, hnull]
    · simp only [Grouping.operands, Grouping.operandsAll, List.mem_append, List.mem_singleton,
        List.not_mem_nil, or_false]
      tauto

end Structura.Ty
