import Structura.Proofs.Normalization

namespace Structura

/-- Values. Of a function only the type that it was made with is known. -/
inductive Value where
  | null
  | literal (value : Literal)
  | record (fields : List (String × Value))
  | function (params : List Ty) (result : Ty) (made : Ty.Reachable (.function params result))

namespace Value

def primitive? : Value → Option Primitive
  | .null => some .null
  | .literal v => some v.base
  | _ => none

def isRecord : Value → Bool
  | .record _ => true
  | _ => false

def isFunction : Value → Bool
  | .function _ _ _ => true
  | _ => false

end Value

namespace Ty

mutual

def admits : Ty → Value → Bool
  | .never, _ => false
  | .unknown, _ => true
  | .prim p, v => v.primitive? == some p
  | .literal w, .literal v => v.same w
  | .object ps, .record fields => admitsFields ps fields
  | .function ps r, .function qs s _ => isSubtype (.function qs s) (.function ps r)
  | .union ts, v => someAdmits ts v
  | .inter ts, v => allAdmit ts v
  | _, _ => false

def admitsFields : List (String × Ty) → List (String × Value) → Bool
  | [], _ => true
  | (name, t) :: ps, fields =>
      (match fields.lookup name with
        | some v => t.admits v
        | none => false) && admitsFields ps fields

def someAdmits : List Ty → Value → Bool
  | [], _ => false
  | t :: ts, v => t.admits v || someAdmits ts v

def allAdmit : List Ty → Value → Bool
  | [], _ => true
  | t :: ts, v => t.admits v && allAdmit ts v

end

@[simp] theorem not_admits_never (v : Value) : never.admits v = false := rfl

@[simp] theorem admits_unknown (v : Value) : unknown.admits v = true := rfl

theorem admits_union {ts : List Ty} {v : Value} :
    (union ts).admits v = true ↔ ∃ t ∈ ts, t.admits v = true := by
  change someAdmits ts v = true ↔ _
  induction ts with
  | nil => exact iff_of_false Bool.false_ne_true (by simp)
  | cons t ts ih =>
      change (t.admits v || someAdmits ts v) = true ↔ _
      rw [Bool.or_eq_true, ih]
      simp

theorem admits_inter {ts : List Ty} {v : Value} :
    (inter ts).admits v = true ↔ ∀ t ∈ ts, t.admits v = true := by
  change allAdmit ts v = true ↔ _
  induction ts with
  | nil => exact iff_of_true rfl (List.forall_mem_nil _)
  | cons t ts ih =>
      change (t.admits v && allAdmit ts v) = true ↔ _
      rw [Bool.and_eq_true, ih, List.forall_mem_cons]

theorem admits_prim {p : Primitive} {v : Value} :
    (prim p).admits v = true ↔ v.primitive? = some p := beq_iff_eq

theorem admits_literal {w : Literal} {v : Value} :
    (literal w).admits v = true ↔ ∃ l, v = .literal l ∧ l.same w = true := by
  constructor
  · intro h
    cases v with
    | literal l => exact ⟨l, rfl, h⟩
    | null | record | function => cases h
  · rintro ⟨l, rfl, h⟩
    exact h

theorem admitsFields_iff {ps : List (String × Ty)} {fields : List (String × Value)} :
    admitsFields ps fields = true ↔
      ∀ p ∈ ps, ∃ w, fields.lookup p.1 = some w ∧ p.2.admits w = true := by
  induction ps with
  | nil => exact iff_of_true rfl (List.forall_mem_nil _)
  | cons p ps ih =>
      have hhead : (match fields.lookup p.1 with
          | some v => p.2.admits v
          | none => false) = true ↔ ∃ w, fields.lookup p.1 = some w ∧ p.2.admits w = true := by
        cases fields.lookup p.1 <;> simp
      rw [List.forall_mem_cons, ← hhead, ← ih, ← Bool.and_eq_true]
      rfl

theorem admits_object {ps : List (String × Ty)} {v : Value} :
    (object ps).admits v = true ↔ ∃ fields, v = .record fields ∧
      ∀ n t, (n, t) ∈ ps → ∃ w, fields.lookup n = some w ∧ t.admits w = true := by
  constructor
  · intro h
    cases v with
    | record fields => exact ⟨fields, rfl, fun n t ht => admitsFields_iff.mp h (n, t) ht⟩
    | null | literal | function => cases h
  · rintro ⟨fields, rfl, h⟩
    exact admitsFields_iff.mpr fun p hp => h p.1 p.2 hp

theorem admits_function {ps : List Ty} {r : Ty} {v : Value} :
    (function ps r).admits v = true ↔ ∃ qs s made, v = .function qs s made ∧
      isSubtype (.function qs s) (.function ps r) = true := by
  constructor
  · intro h
    cases v with
    | function qs s made => exact ⟨qs, s, made, rfl, h⟩
    | null | literal | record => cases h
  · rintro ⟨qs, s, made, rfl, h⟩
    exact h

/-- Subtypes have no other values. -/
theorem admits_of_isSubtype {a b : Ty} (ha : Canonical a) (hb : Canonical b)
    (h : isSubtype a b = true) {v : Value} (hv : a.admits v = true) : b.admits v = true := by
  induction a, b using isSubtype.induct generalizing v with
  | case1 b => cases hv
  | case2 a _ => exact admits_unknown v
  | case3 ts b _ ih =>
      obtain ⟨t, ht, hv⟩ := admits_union.mp hv
      exact ih t ht (ha.branch ht) hb (isSubtype_union_left.mp h t ht) hv
  | case4 a us hnever hunion ih =>
      obtain ⟨u, hu, hau⟩ := (isSubtype_union_right_iff hnever hunion).mp h
      exact admits_union.mpr ⟨u, hu, ih u hu ha (hb.branch hu) hau hv⟩
  | case5 a us _ _ ih =>
      refine admits_inter.mpr fun u hu => ?_
      exact ih u hu ha (hb.factor hu) (isSubtype_inter_right.mp h u hu) hv
  | case6 ts b hunknown hunion hinter ih =>
      obtain ⟨t, ht, htb⟩ := (isSubtype_inter_left_iff hunknown hunion hinter).mp h
      exact ih t ht (ha.factor ht) hb htb (admits_inter.mp hv t ht)
  | case7 p q =>
      obtain rfl : p = q := by simpa [isSubtype] using h
      exact hv
  | case8 u w =>
      obtain ⟨l, rfl, hl⟩ := admits_literal.mp hv
      exact admits_literal.mpr ⟨l, rfl, Literal.same_trans hl (by simpa [isSubtype] using h)⟩
  | case9 w q =>
      obtain ⟨l, rfl, hl⟩ := admits_literal.mp hv
      obtain rfl : w.base = q := by simpa [isSubtype] using h
      exact admits_prim.mpr (congrArg some (Literal.base_eq_of_same hl))
  | case10 ps qs ih =>
      obtain ⟨fields, rfl, hfields⟩ := admits_object.mp hv
      refine admits_object.mpr ⟨fields, rfl, fun n t ht => ?_⟩
      obtain ⟨s, hs, hst⟩ := isSubtype_object.mp h n t ht
      obtain ⟨w, hw, hsw⟩ := hfields n s hs
      exact ⟨w, hw, ih n t ht n s hs (ha.property hs) (hb.property ht) hst hsw⟩
  | case11 ps r qs s _ _ =>
      obtain ⟨ps', r', made, rfl, hmade⟩ := admits_function.mp hv
      refine admits_function.mpr ⟨ps', r', made, rfl, ?_⟩
      exact isSubtype_trans (reachable_iff_canonical.mp made) ha hb hmade h
  | case12 => simp [isSubtype, *] at h

theorem primitive?_of_admits_literal {w : Literal} {v : Value}
    (hv : (literal w).admits v = true) : v.primitive? = some w.base := by
  obtain ⟨l, rfl, hl⟩ := admits_literal.mp hv
  exact congrArg some (Literal.base_eq_of_same hl)

/-- A value shows whether it belongs to object types, to function types or to other basic types. -/
theorem kind_of_admits {a : Ty} {v : Value} (ha : a.isBasic = true) (hv : a.admits v = true) :
    a.isObject = v.isRecord ∧ a.isFunction = v.isFunction := by
  cases a with
  | prim p =>
      have hp := admits_prim.mp hv
      cases v with
      | null | literal => exact ⟨rfl, rfl⟩
      | record | function => cases hp
  | literal w =>
      obtain ⟨l, rfl, -⟩ := admits_literal.mp hv
      exact ⟨rfl, rfl⟩
  | object ps =>
      obtain ⟨fields, rfl, -⟩ := admits_object.mp hv
      exact ⟨rfl, rfl⟩
  | function ps r =>
      obtain ⟨qs, s, made, rfl, -⟩ := admits_function.mp hv
      exact ⟨rfl, rfl⟩
  | never | unknown | union | inter => cases ha

theorem BasicClash.not_admits {a b : Ty}
    (ih : ∀ x y : Ty, sizeOf x + sizeOf y < sizeOf a + sizeOf b → disjoint x y = true →
      ∀ v : Value, x.admits v = true → ¬y.admits v = true)
    (ha : a.isBasic = true) (hb : b.isBasic = true) (h : BasicClash a b) {v : Value}
    (hav : a.admits v = true) : ¬b.admits v = true := by
  intro hbv
  cases h with
  | literals h =>
      obtain ⟨l, rfl, hl⟩ := admits_literal.mp hav
      obtain ⟨_, hv, hm⟩ := admits_literal.mp hbv
      cases hv
      simp [Literal.same_trans (Literal.same_symm hl) hm] at h
  | literalPrim h =>
      have := (primitive?_of_admits_literal hav).symm.trans (admits_prim.mp hbv)
      exact h (Option.some.inj this)
  | primLiteral h =>
      have := (primitive?_of_admits_literal hbv).symm.trans (admits_prim.mp hav)
      exact h (Option.some.inj this)
  | prims h => exact h (Option.some.inj ((admits_prim.mp hav).symm.trans (admits_prim.mp hbv)))
  | @objects ps qs n s t hs ht h =>
      obtain ⟨fields, rfl, hfields⟩ := admits_object.mp hav
      obtain ⟨_, hv, hfields'⟩ := admits_object.mp hbv
      cases hv
      obtain ⟨w, hw, hsw⟩ := hfields n s hs
      obtain ⟨w', hw', htw⟩ := hfields' n t ht
      obtain rfl : w = w' := Option.some.inj (hw.symm.trans hw')
      have h₁ := sizeOf_lt_object hs
      have h₂ := sizeOf_lt_object ht
      exact ih s t (by omega) h w hsw htw
  | kinds h =>
      have hka := kind_of_admits ha hav
      have hkb := kind_of_admits hb hbv
      rcases h with h | h
      · exact h (hka.1.trans hkb.1.symm)
      · exact h (hka.2.trans hkb.2.symm)

/-- Disjoint types have no value in common. -/
theorem not_admits_of_disjoint {a b : Ty} (h : disjoint a b = true) {v : Value}
    (hav : a.admits v = true) : ¬b.admits v = true := by
  induction hn : sizeOf a + sizeOf b using Nat.strongRecOn generalizing a b v with
  | _ n ih =>
      subst hn
      intro hbv
      have hna : a ≠ .never := by rintro rfl; cases hav
      have hnb : b ≠ .never := by rintro rfl; cases hbv
      have hub : b ≠ .unknown := by rintro rfl; simp [disjoint_unknown_right hna] at h
      rcases a.shape with rfl | rfl | ⟨ts, rfl⟩ | halta
      · contradiction
      · simp [disjoint_unknown_left hnb] at h
      · obtain ⟨t, ht, hv⟩ := admits_union.mp hav
        have := sizeOf_lt_union ht
        exact ih _ (by omega) ((disjoint_union_left hub).mp h t ht) hv rfl hbv
      rcases b.shape with rfl | rfl | ⟨us, rfl⟩ | haltb
      · contradiction
      · contradiction
      · obtain ⟨u, hu, hv⟩ := admits_union.mp hbv
        have := sizeOf_lt_union hu
        exact ih _ (by omega) ((disjoint_union_right halta).mp h u hu) hav rfl hv
      rcases alternative_shape halta with ⟨ts, rfl⟩ | hbasica
      · obtain ⟨t, ht, htb⟩ := (disjoint_inter_left haltb).mp h
        have := sizeOf_lt_inter ht
        exact ih _ (by omega) htb (admits_inter.mp hav t ht) rfl hbv
      rcases alternative_shape haltb with ⟨us, rfl⟩ | hbasicb
      · obtain ⟨u, hu, hau⟩ := (disjoint_inter_right hbasica).mp h
        have := sizeOf_lt_inter hu
        exact ih _ (by omega) hau hav rfl (admits_inter.mp hbv u hu)
      · exact ((disjoint_basic hbasica hbasicb).mp h).not_admits
          (fun x y hlt hxy v hx => ih _ hlt hxy hx rfl) hbasica hbasicb hav hbv

theorem upward_admits (v : Value) : Upward fun t => t.admits v = true :=
  fun _ _ ht hu htu hv => admits_of_isSubtype ht hu htu hv

theorem admits_join {ts : List Ty} (hts : ∀ t ∈ ts, Canonical t) {v : Value} :
    (join ts).admits v = true ↔ ∃ t ∈ ts, t.admits v = true :=
  (upward_admits v).holds_join (by simp) (fun _ => admits_union) hts

theorem forall_factors_admits {ts : List Ty} {v : Value} :
    (∀ f ∈ ts.flatMap factors, f.admits v = true) ↔ ∀ t ∈ ts, t.admits v = true := by
  rw [List.forall_mem_flatMap]
  exact forall₂_congr fun t _ => (iff_forall_factor (·.admits v = true) (fun _ => admits_inter) t).symm

theorem admits_meetConcrete {ts : List Ty} (hts : ∀ t ∈ ts, Canonical t) {v : Value} :
    (meetConcrete ts).admits v = true ↔ ∀ t ∈ ts, t.admits v = true := by
  rcases meetConcrete_cases ts with ⟨hp, hm⟩ | ⟨hclash, -⟩
  · obtain ⟨f, hf, g, hg, hfg⟩ := exists_of_somePair hp
    rw [hm, ← forall_factors_admits]
    constructor
    · intro hv
      cases hv
    · intro h
      exact absurd (h g hg) (not_admits_of_disjoint hfg (h f hf))
  · exact (upward_admits v).holds_meetConcrete (admits_unknown v) (fun _ => admits_inter) hts hclash

theorem admits_meet {ts : List Ty} (hts : ∀ t ∈ ts, Canonical t) {v : Value} :
    (meet ts).admits v = true ↔ ∀ t ∈ ts, t.admits v = true := by
  rw [← forall_factors_admits]
  rcases meet_cases ts with ⟨hnil, hm⟩ | ⟨-, hm⟩
  · simp [hm, hnil]
  · have hmeets : ∀ t ∈ (choices ((ts.flatMap factors).map branches)).map meetConcrete,
        Canonical t :=
      List.forall_mem_map.mpr fun c hc => canonical_meetConcrete (canonical_of_mem_choice hts hc)
    calc (meet ts).admits v = true
        ↔ ∃ c ∈ choices ((ts.flatMap factors).map branches), (meetConcrete c).admits v = true := by
          rw [hm, admits_join hmeets]
          simp only [List.mem_map, exists_exists_and_eq_and]
      _ ↔ ∃ c ∈ choices ((ts.flatMap factors).map branches), ∀ b ∈ c, b.admits v = true :=
          exists_congr fun c => and_congr_right fun hc =>
            admits_meetConcrete fun b hb => (canonical_of_mem_choice hts hc b hb).1
      _ ↔ ∀ l ∈ (ts.flatMap factors).map branches, ∃ b ∈ l, b.admits v = true := exists_choice
      _ ↔ ∀ f ∈ ts.flatMap factors, f.admits v = true := by
          rw [List.forall_mem_map]
          exact forall₂_congr fun f _ =>
            (iff_exists_branch (·.admits v = true) (fun _ => admits_union) f).symm

/-- Normalization preserves the values of a type: a subtype has no others, disjoint types share none,
and unions and intersections have those of some or of all of their operands. -/
theorem normalization_preserves_values (v : Value) :
    (∀ a b : Ty, Reachable a → Reachable b → isSubtype a b = true →
      a.admits v = true → b.admits v = true) ∧
    (∀ a b : Ty, Reachable a → Reachable b → disjoint a b = true →
      ¬(a.admits v = true ∧ b.admits v = true)) ∧
    (∀ ts : List Ty, (∀ t ∈ ts, Reachable t) →
      ((join ts).admits v = true ↔ ∃ t ∈ ts, t.admits v = true)) ∧
    ∀ ts : List Ty, (∀ t ∈ ts, Reachable t) →
      ((meet ts).admits v = true ↔ ∀ t ∈ ts, t.admits v = true) := by
  refine ⟨fun a b ha hb h hv => ?_, fun a b _ _ h hv => not_admits_of_disjoint h hv.1 hv.2,
    fun ts hts => admits_join fun t ht => reachable_iff_canonical.mp (hts t ht),
    fun ts hts => admits_meet fun t ht => reachable_iff_canonical.mp (hts t ht)⟩
  exact admits_of_isSubtype (reachable_iff_canonical.mp ha) (reachable_iff_canonical.mp hb) h hv

def trueAndNull : Value := .record [("x", .literal (.boolean true)), ("y", .null)]

theorem normalization_preserves_values_record :
    (object [("x", .boolean)]).admits trueAndNull = true ∧
    (object [("x", .string)]).admits trueAndNull = false ∧
    (join [.null, .object [("y", .null)]]).admits trueAndNull = true ∧
    (meet [join [.null, .object [("y", .null)]], .object [("x", .boolean)]]).admits trueAndNull =
      true := by
  have hfacts := normalization_preserves_values trueAndNull
  have hx : Reachable (.object [("x", .boolean)]) :=
    .object (by decide) (by simp [Reachable.prim])
  have hy : Reachable (.object [("y", .null)]) := .object (by decide) (by simp [Reachable.prim])
  have hstring : Reachable (.object [("x", .string)]) :=
    .object (by decide) (by simp [Reachable.prim])
  have htrue : Reachable (.object [("x", .literal (.boolean true))]) :=
    .object (by decide) (by simp [Reachable.literal])
  have hboolean := hfacts.1 _ _ htrue hx (by decide +kernel) (by decide)
  have hjoin := (hfacts.2.2.1 [.null, .object [("y", .null)]] (by simp [hy, Reachable.prim])).mpr
    ⟨.object [("y", .null)], by simp, by decide⟩
  refine ⟨hboolean, ?_, hjoin, ?_⟩
  · have := hfacts.2.1 _ _ htrue hstring (by decide +kernel)
    exact Bool.eq_false_iff.mpr fun h => this ⟨by decide, h⟩
  · refine (hfacts.2.2.2 _ (by simp [hx, Reachable.join, hy, Reachable.prim])).mpr ?_
    simp [hjoin, hboolean]

end Ty

end Structura
