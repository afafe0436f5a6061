import Structura.Proofs.BranchResults
import Structura.Proofs.CanonicalRules
import Structura.Proofs.CompatibleParts
import Structura.Proofs.OperatorCases

namespace Structura

namespace Ty

variable {s s' t t' : Ty} {truth : Bool}

/-- One of the requirements of a type is below the basic type that it is below. -/
theorem Narrows.exists_factor (h : Narrows s t) (ht : t.isBasic = true) :
    ∃ f ∈ s.factors, BasicBelow f t := by
  rcases s.shape with rfl | rfl | ⟨ts, rfl⟩ | halt
  · exact absurd rfl h.lower.ne_never
  · rw [eq_unknown_of_isSubtype h.upper.canonical h.below] at ht
    cases ht
  · cases h.lower.not_union
  rcases alternative_shape halt with ⟨fs, rfl⟩ | hbasic
  · obtain ⟨f, hf, hft⟩ := (isSubtype_inter_left ht).mp h.below
    exact ⟨f, hf, (isSubtype_basic (h.lower.canonical.basic hf) ht).mp hft⟩
  · have hfactors : s.factors = [s] := by
      cases s with
      | inter => cases hbasic
      | _ => rfl
    exact ⟨s, hfactors ▸ List.mem_singleton_self s, (isSubtype_basic hbasic ht).mp h.below⟩

theorem Canonical.tag_of_mem_factors (hs : Canonical s) {f : Ty} (hf : f ∈ s.factors) : s.tag = f.tag := by
  cases s with
  | inter members => exact tag_inter hs hf
  | _ => rw [List.mem_singleton.mp hf]

/-- Requirements that are joined are all objects or all functions. -/
theorem Canonical.eq_of_mem_factors (hs : Canonical s) {f : Ty} (hf : f ∈ s.factors)
    (hobject : f.isObject = false) (hfunction : f.isFunction = false) : s = f := by
  cases s with
  | inter members =>
      rcases hs.object_or_function hf with ⟨ps, rfl⟩ | ⟨ps, r, rfl⟩
      · cases hobject
      · cases hfunction
  | _ => exact (List.mem_singleton.mp hf).symm

theorem Narrows.exists_literal {w : Literal} (h : Narrows s (.literal w)) :
    ∃ v, s = .literal v ∧ v.same w = true := by
  obtain ⟨f, hf, hbelow⟩ := h.exists_factor rfl
  cases hbelow with
  | literal hvw => exact ⟨_, h.lower.canonical.eq_of_mem_factors hf rfl rfl, hvw⟩

theorem Narrows.exists_number {b : Binary64} (h : Narrows s (.literal (.number b))) :
    ∃ a, s = .literal (.number a) ∧ (Literal.number a).same (.number b) = true := by
  obtain ⟨v, rfl, hv⟩ := h.exists_literal
  cases v with
  | number a => exact ⟨a, rfl, hv⟩
  | boolean | string => cases Literal.base_eq_of_same hv

theorem Narrows.eq_null (h : Narrows s .null) : s = .null := by
  obtain ⟨f, hf, hbelow⟩ := h.exists_factor rfl
  have hfnull : f = .null := by
    generalize hp : Ty.null = p at hbelow
    cases hbelow with
    | prim => rfl
    | base v => cases v <;> cases hp
    | literal | object | function => cases hp
  rw [← hfnull]
  exact h.lower.canonical.eq_of_mem_factors hf (by rw [hfnull]; rfl) (by rw [hfnull]; rfl)

theorem Concrete.truthIs_cases (hs : Concrete s) (h : truthIs truth s = true) :
    (s = .null ∧ truth = false) ∨ ∃ v, s = .literal v ∧ v.isTruthy = truth := by
  cases s with
  | literal v =>
      rw [truthIs_literal, beq_iff_eq] at h
      exact Or.inr ⟨v, rfl, h⟩
  | prim p =>
      cases truth with
      | true => cases h
      | false =>
          cases p with
          | null => exact Or.inl ⟨rfl, rfl⟩
          | boolean | number | string => cases h
  | inter =>
      rw [truthIs_inter hs.canonical] at h
      cases h
  | never => exact absurd rfl hs.ne_never
  | union => cases hs.not_union
  | unknown | object | function => cases truth <;> cases h

theorem Concrete.truthIs_not (hs : Concrete s) (h : truthIs truth s = true) :
    truthIs (!truth) s = false := by
  rcases hs.truthIs_cases h with ⟨rfl, rfl⟩ | ⟨v, rfl, rfl⟩
  · rfl
  · rw [truthIs_literal]
    cases v.isTruthy <;> rfl

theorem Narrows.truthIs (h : Narrows s t) (ht : truthIs truth t = true) : truthIs truth s = true := by
  rcases h.upper.truthIs_cases ht with ⟨rfl, rfl⟩ | ⟨w, rfl, hw⟩
  · rw [h.eq_null]
    rfl
  · obtain ⟨v, rfl, hvw⟩ := h.exists_literal
    rw [truthIs_literal, Literal.isTruthy_eq_of_same hvw, hw, beq_self_eq_true]

theorem BasicBelow.tag_eq (h : BasicBelow s t) : s.tag = t.tag := by
  cases h with
  | prim p => rfl
  | literal hvw => rw [tag, tag, Literal.base_eq_of_same hvw]
  | base v => cases v <;> rfl
  | object _ => rfl
  | function _ _ _ => rfl

theorem Concrete.tag_isSubtype_string (hs : Concrete s) : isSubtype s.tag .string = true := by
  have hliteral (text : String) : isSubtype (.literal (.string text)) .string = true :=
    (isSubtype_basic rfl rfl).mpr (.base (.string text))
  have hbasic {t : Ty} (ht : t.isBasic = true) : isSubtype t.tag .string = true := by
    cases t with
    | prim p => cases p <;> exact hliteral _
    | literal | object | function => exact hliteral _
    | never | unknown | union | inter => cases ht
  cases s with
  | inter members =>
      obtain ⟨f, hf⟩ := hs.canonical.exists_factor
      rw [tag_inter hs.canonical hf]
      exact hbasic (hs.canonical.basic hf)
  | never => exact absurd rfl hs.ne_never
  | union => cases hs.not_union
  | unknown => exact isSubtype_refl (.prim .string)
  | prim | literal | object | function => exact hbasic rfl

theorem Narrows.tag (h : Narrows s t) : isSubtype s.tag t.tag = true := by
  have hbasic {t : Ty} (h : Narrows s t) (ht : t.isBasic = true) : isSubtype s.tag t.tag = true := by
    obtain ⟨f, hf, hft⟩ := h.exists_factor ht
    rw [h.lower.canonical.tag_of_mem_factors hf, hft.tag_eq]
    exact isSubtype_refl (canonical_tag t)
  cases t with
  | unknown => exact h.lower.tag_isSubtype_string
  | inter members =>
      obtain ⟨f, hf⟩ := h.upper.canonical.exists_factor
      have hfactor : Narrows s f :=
        ⟨h.lower, h.upper.of_mem_factors hf, isSubtype_inter_right.mp h.below f hf⟩
      rw [tag_inter h.upper.canonical hf]
      exact hbasic hfactor (h.upper.canonical.basic hf)
  | never => exact absurd rfl h.upper.ne_never
  | union => cases h.upper.not_union
  | prim | literal | object | function => exact hbasic h rfl

theorem boolean_isSubtype (b : Bool) : isSubtype (.literal (.boolean b)) .boolean = true :=
  (isSubtype_basic rfl rfl).mpr (.base (.boolean b))

theorem Narrows.compare (h : Narrows s t) (h' : Narrows s' t') (expected : Bool) :
    isSubtype (s.compare expected s') (t.compare expected t') = true := by
  by_cases hliterals : ∃ v w, t = .literal v ∧ t' = .literal w
  · obtain ⟨v, w, rfl, rfl⟩ := hliterals
    obtain ⟨v', rfl, hv⟩ := h.exists_literal
    obtain ⟨w', rfl, hw⟩ := h'.exists_literal
    rw [Ty.compare, Ty.compare, Literal.strictEq_eq_of_same hv hw]
    exact isSubtype_refl (.literal _)
  · have ht : t.compare expected t' = .boolean :=
      compare_of_not_literals fun v w hv hw => hliterals ⟨v, w, hv, hw⟩
    rw [ht]
    unfold Ty.compare
    split
    · exact boolean_isSubtype _
    · exact isSubtype_refl (.prim .boolean)

theorem Narrows.sum (h : Narrows s t) (h' : Narrows s' t') : isSubtype (s.sum s') (t.sum t') = true := by
  by_cases hnumbers : ∃ a b, t = .literal (.number a) ∧ t' = .literal (.number b)
  · obtain ⟨a, b, rfl, rfl⟩ := hnumbers
    obtain ⟨a', rfl, ha⟩ := h.exists_number
    obtain ⟨b', rfl, hb⟩ := h'.exists_number
    exact (isSubtype_basic rfl rfl).mpr (.literal (Literal.same_add ha hb))
  · have ht : t.sum t' = .number := sum_of_not_numbers fun a b ha hb => hnumbers ⟨a, b, ha, hb⟩
    rw [ht]
    unfold Ty.sum
    split
    · exact (isSubtype_basic rfl rfl).mpr (.base (.number _))
    · exact isSubtype_refl (.prim .number)

end Ty

open Ty

def LogicalOp.decisive : LogicalOp → Bool
  | .and => false
  | .or => true

theorem LogicalOp.apply_eq (op : LogicalOp) (l r : Ty) :
    op.apply l r =
      if truthIs op.decisive l then l else if truthIs (!op.decisive) l then r else join [l, r] := by
  cases op <;> rfl

theorem LogicalOp.apply_mono (op : LogicalOp) {l l' r r' : Ty} (hl : Narrows l l') (hr : Narrows r r') :
    isSubtype (op.apply l r) (op.apply l' r') = true := by
  rw [apply_eq, apply_eq]
  by_cases hdecided : truthIs op.decisive l' = true
  · rw [if_pos hdecided, if_pos (hl.truthIs hdecided)]
    exact hl.below
  by_cases hpassed : truthIs (!op.decisive) l' = true
  · have hlower := hl.truthIs hpassed
    have hnot := hl.lower.truthIs_not hlower
    rw [Bool.not_not] at hnot
    rw [if_neg hdecided, if_pos hpassed, if_neg (by simp [hnot]), if_pos hlower]
    exact hr.below
  · -- Nothing is known of the larger operand, so either of the smaller ones may be the result.
    rw [if_neg hdecided, if_neg hpassed]
    have hcanonical : ∀ t ∈ [l, r], Canonical t := by simp [hl.lower.canonical, hr.lower.canonical]
    have hupper : ∀ t ∈ [l', r'], Canonical t := by simp [hl.upper.canonical, hr.upper.canonical]
    have hleft : isSubtype l (join [l', r']) = true :=
      isSubtype_trans hl.lower.canonical hl.upper.canonical (canonical_join hupper) hl.below
        (isSubtype_join hupper (by simp))
    have hright : isSubtype r (join [l', r']) = true :=
      isSubtype_trans hr.lower.canonical hr.upper.canonical (canonical_join hupper) hr.below
        (isSubtype_join hupper (by simp))
    split_ifs
    · exact hleft
    · exact hright
    · exact (join_isSubtype_iff hcanonical (canonical_join hupper)).mpr (by simp [hleft, hright])

theorem UnaryOp.not_apply_eq (t : Ty) :
    UnaryOp.not.apply t = if truthIs true t then .literal (.boolean false)
      else if truthIs false t then .literal (.boolean true) else .boolean :=
  rfl

theorem UnaryOp.apply_mono (op : UnaryOp) {s t : Ty} (h : Narrows s t) :
    isSubtype (op.apply s) (op.apply t) = true := by
  cases op with
  | typeof => exact h.tag
  | not =>
      rw [not_apply_eq, not_apply_eq]
      by_cases htruthy : truthIs true t = true
      · rw [if_pos htruthy, if_pos (h.truthIs htruthy)]
        exact isSubtype_refl (.literal _)
      by_cases hfalsy : truthIs false t = true
      · have hlower := h.truthIs hfalsy
        have hnot : truthIs true s = false := h.lower.truthIs_not hlower
        rw [if_neg htruthy, if_pos hfalsy, if_neg (by simp [hnot]), if_pos hlower]
        exact isSubtype_refl (.literal _)
      · rw [if_neg htruthy, if_neg hfalsy]
        split_ifs
        · exact boolean_isSubtype false
        · exact boolean_isSubtype true
        · exact isSubtype_refl (.prim .boolean)

theorem BinaryOp.ascends (cx : Context) (op : BinaryOp) :
    Traced.Ascends PairNarrows fun p => op.apply cx p.1 p.2 where
  canonical _ h := (op.keeps_apply cx _ _).ok h
  mono := by
    rintro ⟨l, r⟩ ⟨l', r'⟩ t ⟨hl, hr⟩ h
    cases op with
    | equal =>
        obtain rfl := Except.ok.inj h
        exact ⟨_, rfl, hl.compare hr true⟩
    | notEqual =>
        obtain rfl := Except.ok.inj h
        exact ⟨_, rfl, hl.compare hr false⟩
    | add =>
        obtain ⟨⟨hlnumber, hrnumber⟩, rfl⟩ := add_eq_ok.mp h
        refine ⟨_, add_eq_ok.mpr ⟨⟨?_, ?_⟩, rfl⟩, hl.sum hr⟩
        · exact isSubtype_trans hl.lower.canonical hl.upper.canonical (.prim .number) hl.below hlnumber
        · exact isSubtype_trans hr.lower.canonical hr.upper.canonical (.prim .number) hr.below hrnumber

theorem LogicalOp.ascends (op : LogicalOp) :
    Traced.Ascends PairNarrows fun p => pure (op.apply p.1 p.2) where
  canonical h hr := Except.ok.inj hr ▸ op.canonical_apply h.1.lower.canonical h.2.lower.canonical
  mono h hr := ⟨_, rfl, Except.ok.inj hr ▸ op.apply_mono h.1 h.2⟩

theorem UnaryOp.ascends (op : UnaryOp) : Traced.Ascends Narrows fun t => pure (op.apply t) where
  canonical _ hr := Except.ok.inj hr ▸ op.canonical_apply _
  mono h hr := ⟨_, rfl, Except.ok.inj hr ▸ op.apply_mono h⟩

inductive Context.OperatorRule (cx : Context) : (Ty → Ty → Traced Ty) → Prop
  | binary (op : BinaryOp) : OperatorRule cx (op.apply cx)
  | logical (op : LogicalOp) : OperatorRule cx fun l r => pure (op.apply l r)

theorem Context.OperatorRule.ascends {cx : Context} {body : Ty → Ty → Traced Ty} (h : cx.OperatorRule body) :
    Traced.Ascends PairNarrows fun p => body p.1 p.2 := by
  cases h with
  | binary op => exact op.ascends cx
  | logical op => exact op.ascends

open Traced in
/-- An operator accepts a union exactly if it accepts both of its operands, and gives the union of what it gives for
them, on whichever side the union stands. It accepts what is below operands that it accepts, and gives a type below. -/
theorem operators_additive (cx : Context) (rule : Rule) :
    (∀ body, cx.OperatorRule body → ∀ a b r : Ty, Reachable a → Reachable b → Reachable r →
      a ≠ .never → b ≠ .never → r ≠ .never →
      (cx.AffordsPairs a r → cx.AffordsPairs b r → cx.AffordsPairs (join [a, b]) r →
        Additive (cx.onPairs rule (join [a, b]) r body) (cx.onPairs rule a r body)
          (cx.onPairs rule b r body)) ∧
      (cx.AffordsPairs r a → cx.AffordsPairs r b → cx.AffordsPairs r (join [a, b]) →
        Additive (cx.onPairs rule r (join [a, b]) body) (cx.onPairs rule r a body)
          (cx.onPairs rule r b body))) ∧
    (∀ (op : UnaryOp) (a b : Ty), Reachable a → Reachable b → a ≠ .never → b ≠ .never →
      cx.AffordsBranches a → cx.AffordsBranches b → cx.AffordsBranches (join [a, b]) →
        Additive (cx.onBranches rule (join [a, b]) fun t => pure (op.apply t))
          (cx.onBranches rule a fun t => pure (op.apply t))
          (cx.onBranches rule b fun t => pure (op.apply t))) ∧
    (∀ body, cx.OperatorRule body → ∀ l l' r r' t : Ty, Reachable l → Reachable l' → Reachable r →
      Reachable r' → l ≠ .never → r ≠ .never → isSubtype l l' = true → isSubtype r r' = true →
      cx.AffordsPairs l r → (cx.onPairs rule l' r' body).result = .ok t →
        ∃ s, (cx.onPairs rule l r body).result = .ok s ∧ isSubtype s t = true) ∧
    ∀ (op : UnaryOp) (a a' t : Ty), Reachable a → Reachable a' → a ≠ .never → isSubtype a a' = true →
      cx.AffordsBranches a → (cx.onBranches rule a' fun t => pure (op.apply t)).result = .ok t →
        ∃ s, (cx.onBranches rule a fun t => pure (op.apply t)).result = .ok s ∧
          isSubtype s t = true := by
  refine ⟨fun body hbody a b r ha hb hr hna hnb hnr => ?_, fun op a b ha hb hna hnb => ?_,
    fun body hbody l l' r r' t hl hl' hr hr' hnl hnr => ?_, fun op a a' t ha ha' hna => ?_⟩
  · have ha := ha.operand hna
    have hb := hb.operand hnb
    have hr := hr.operand hnr
    exact ⟨Context.onPairs_additive_left hbody.ascends ha hb hr,
      Context.onPairs_additive_right hbody.ascends ha hb hr⟩
  · exact Context.onBranches_additive op.ascends (ha.operand hna) (hb.operand hnb)
  · exact Context.onPairs_mono hbody.ascends (hl.operand hnl) (hr.operand hnr)
      (reachable_iff_canonical.mp hl') (reachable_iff_canonical.mp hr')
  · exact Context.onBranches_mono op.ascends (ha.operand hna) (reachable_iff_canonical.mp ha')

/-- The first operand is a union, or `string` once the union has dropped its literals. -/
theorem operators_additive_literals :
    (∃ t, ((Context.top .empty {} default).onPairs .onBinary
        (join [.literal (.string "a"), .literal (.string "b")]) (.literal (.string "a"))
        (BinaryOp.equal.apply (.top .empty {} default))).result = .ok t ∧
      same t (join [.literal (.boolean true), .literal (.boolean false)]) = true) ∧
    (∃ t, ((Context.top .empty {} default).onBranches .onUnary (join [.literal (.string "a"), .string])
        fun t => pure (UnaryOp.not.apply t)).result = .ok t ∧
      same t (join [.literal (.boolean false), .boolean]) = true) ∧
    ∃ s, ((Context.top .empty {} default).onPairs .onLogical (.literal (.string "a")) .null
        fun l r => pure (LogicalOp.and.apply l r)).result = .ok s ∧
      isSubtype s (join [.string, .null]) = true := by
  have hliteral (text : String) : Reachable (.literal (.string text)) := .literal _
  have h := operators_additive (.top .empty {} default)
  refine ⟨?_, ?_, ?_⟩
  · have hsum := ((h .onBinary).1 _ (.binary .equal) (.literal (.string "a")) (.literal (.string "b"))
      (.literal (.string "a")) (hliteral _) (hliteral _) (hliteral _) (by simp) (by simp) (by simp)).1
      (by decide +kernel) (by decide +kernel) (by decide +kernel)
    obtain ⟨t, ht⟩ := hsum.succeeds.mpr ⟨⟨_, rfl⟩, _, rfl⟩
    exact ⟨t, ht, hsum.result ht rfl rfl⟩
  · have hsum := (h .onUnary).2.1 .not (.literal (.string "a")) .string (hliteral _) (.prim .string)
      (by simp) (by simp) (by decide +kernel) (by decide +kernel) (by decide +kernel)
    obtain ⟨t, ht⟩ := hsum.succeeds.mpr ⟨⟨_, rfl⟩, _, rfl⟩
    exact ⟨t, ht, hsum.result ht rfl rfl⟩
  · exact (h .onLogical).2.2.1 _ (.logical .and) (.literal (.string "a")) .string .null .null _
      (hliteral _) (.prim .string) (.prim .null) (.prim .null) (by simp) (by simp) (by decide +kernel)
      (by decide +kernel) (by decide +kernel) rfl

end Structura
