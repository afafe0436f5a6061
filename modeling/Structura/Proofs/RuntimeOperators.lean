import Structura.Proofs.CanonicalRules
import Structura.Proofs.OperatorCases
import Structura.Proofs.Successes
import Structura.Proofs.Values

namespace Structura

namespace Value

def isTruthy : Value → Bool
  | .null => false
  | .literal v => v.isTruthy
  | .record _ | .function _ _ _ => true

def tag : Value → String
  | .null | .record _ => "object"
  | .literal (.boolean _) => "boolean"
  | .literal (.number _) => "number"
  | .literal (.string _) => "string"
  | .function _ _ _ => "function"

/-- How two values compare, where that is settled: a record or a function may equal any value but
null. -/
def strictEq? : Value → Value → Option Bool
  | .null, .null => some true
  | .null, _ | _, .null => some false
  | .literal a, .literal b => some (a.strictEq b)
  | _, _ => none

end Value

/-- A possible result of a binary operator. Addition has none unless both operands are numbers. -/
inductive BinaryOp.Gives : BinaryOp → Value → Value → Value → Prop
  | equal {v w : Value} {b : Bool} (h : ∀ c, v.strictEq? w = some c → b = c) :
      Gives .equal v w (.literal (.boolean b))
  | notEqual {v w : Value} {b : Bool} (h : ∀ c, v.strictEq? w = some c → b = c) :
      Gives .notEqual v w (.literal (.boolean !b))
  | add (a b : Binary64) :
      Gives .add (.literal (.number a)) (.literal (.number b)) (.literal (.number (a + b)))

def LogicalOp.run : LogicalOp → Value → Value → Value
  | .and, v, w => if v.isTruthy then w else v
  | .or, v, w => if v.isTruthy then v else w

def UnaryOp.run : UnaryOp → Value → Value
  | .not, v => .literal (.boolean !v.isTruthy)
  | .typeof, v => .literal (.string v.tag)

namespace Ty

variable {t l r : Ty} {v w : Value}

theorem admits_boolean (b : Bool) : boolean.admits (.literal (.boolean b)) = true := rfl

theorem admits_literal_self (a : Literal) : (literal a).admits (.literal a) = true :=
  Literal.same_refl a

theorem eq_null_of_admits (hv : null.admits v = true) : v = .null := by
  have hprim := admits_prim.mp hv
  cases v with
  | null => rfl
  | literal a => cases a <;> cases hprim
  | record | function => cases hprim

theorem exists_number_of_admits (hv : number.admits v = true) : ∃ a, v = .literal (.number a) := by
  have hprim := admits_prim.mp hv
  cases v with
  | literal a =>
      cases a with
      | number a => exact ⟨a, rfl⟩
      | boolean | string => cases hprim
  | null | record | function => cases hprim

/-- The values of a type are as truthy as the type says. -/
theorem isTruthy_of_truthIs (truth : Bool) (ht : Canonical t) (h : truthIs truth t = true)
    (hv : t.admits v = true) : v.isTruthy = truth := by
  induction ht with
  | union _ _ _ _ ih =>
      obtain ⟨b, hb, hbv⟩ := admits_union.mp hv
      exact ih b hb (truthIs_union.mp h b hb) hbv
  | inter two members alike apart compatible _ =>
      rw [truthIs_inter (.inter two members alike apart compatible)] at h
      cases h
  | literal a =>
      obtain ⟨b, rfl, hb⟩ := admits_literal.mp hv
      rw [truthIs_literal, beq_iff_eq] at h
      exact (Literal.isTruthy_eq_of_same hb).trans h
  | prim p =>
      cases truth with
      | true => cases h
      | false =>
          cases p with
          | null => rw [eq_null_of_admits hv, Value.isTruthy]
          | boolean | number | string => cases h
  | never => cases hv
  | unknown | object | function => cases truth <;> cases h

theorem admits_tag (ht : Canonical t) (hv : t.admits v = true) :
    t.tag.admits (.literal (.string v.tag)) = true := by
  induction ht with
  | union _ members _ _ ih =>
      obtain ⟨b, hb, hbv⟩ := admits_union.mp hv
      rw [tag_union, admits_join (List.forall_mem_map.mpr fun t _ => canonical_tag t)]
      exact ⟨b.tag, List.mem_map_of_mem hb, ih b hb hbv⟩
  | inter two members alike apart compatible ih =>
      obtain ⟨f, hf⟩ := (Canonical.inter two members alike apart compatible).exists_factor
      rw [tag_inter (.inter two members alike apart compatible) hf]
      exact ih f hf (admits_inter.mp hv f hf)
  | prim p =>
      have hprim := admits_prim.mp hv
      cases v with
      | null => cases hprim; exact admits_literal_self _
      | literal a => cases a <;> cases hprim <;> exact admits_literal_self _
      | record | function => cases hprim
  | literal a =>
      have hprim := primitive?_of_admits_literal hv
      obtain ⟨b, rfl, -⟩ := admits_literal.mp hv
      rw [tag, ← Option.some.inj hprim]
      cases b <;> exact admits_literal_self _
  | object =>
      obtain ⟨fields, rfl, -⟩ := admits_object.mp hv
      exact admits_literal_self _
  | function =>
      obtain ⟨qs, s, made, rfl, -⟩ := admits_function.mp hv
      exact admits_literal_self _
  | unknown => rfl
  | never => cases hv

theorem admits_compare (expected : Bool) (hv : l.admits v = true) (hw : r.admits w = true) {b : Bool}
    (hb : ∀ c, v.strictEq? w = some c → b = c) :
    (l.compare expected r).admits (.literal (.boolean (b == expected))) = true := by
  unfold compare
  split
  · obtain ⟨x, rfl, hx⟩ := admits_literal.mp hv
    obtain ⟨y, rfl, hy⟩ := admits_literal.mp hw
    rw [hb _ rfl, Literal.strictEq_eq_of_same hx hy]
    exact admits_literal_self _
  · exact admits_boolean _

theorem admits_sum {a b : Binary64} (ha : l.admits (.literal (.number a)) = true)
    (hb : r.admits (.literal (.number b)) = true) :
    (sum l r).admits (.literal (.number (a + b))) = true := by
  unfold sum
  split
  · exact Literal.same_add ha hb
  · rfl

end Ty

open Ty

variable {cx : Context} {l r t : Ty} {v w : Value}

theorem BinaryOp.gives_sound (op : BinaryOp) (hl : l.Canonical) (hr : r.Canonical)
    (h : (op.apply cx l r).result = .ok t) (hv : l.admits v = true) (hw : r.admits w = true) :
    (∃ u, op.Gives v w u) ∧ ∀ u, op.Gives v w u → t.admits u = true := by
  have hsettled (c : Bool) (hc : v.strictEq? w = some c) : (v.strictEq? w).getD false = c := by
    rw [hc, Option.getD_some]
  cases op with
  | equal =>
      obtain rfl := Except.ok.inj h
      refine ⟨⟨_, .equal hsettled⟩, ?_⟩
      rintro _ (⟨hb⟩ | _ | _)
      simpa using admits_compare true hv hw hb
  | notEqual =>
      obtain rfl := Except.ok.inj h
      refine ⟨⟨_, .notEqual hsettled⟩, ?_⟩
      rintro _ (_ | ⟨hb⟩ | _)
      simpa using admits_compare false hv hw hb
  | add =>
      obtain ⟨⟨hlnumber, hrnumber⟩, rfl⟩ := add_eq_ok.mp h
      obtain ⟨a, rfl⟩ :=
        exists_number_of_admits (admits_of_isSubtype hl (.prim .number) hlnumber hv)
      obtain ⟨b, rfl⟩ :=
        exists_number_of_admits (admits_of_isSubtype hr (.prim .number) hrnumber hw)
      refine ⟨⟨_, .add a b⟩, ?_⟩
      rintro _ (_ | _ | _)
      exact admits_sum hv hw

theorem LogicalOp.admits_run (op : LogicalOp) (hl : l.Canonical) (hr : r.Canonical)
    (hv : l.admits v = true) (hw : r.admits w = true) :
    (op.apply l r).admits (op.run v w) = true := by
  have hmember : ∀ t ∈ [l, r], t.Canonical := by simp [hl, hr]
  have hleft : (join [l, r]).admits v = true := (admits_join hmember).mpr ⟨l, by simp, hv⟩
  have hright : (join [l, r]).admits w = true := (admits_join hmember).mpr ⟨r, by simp, hw⟩
  have htruthy (h : l.isTruthy = true) : v.isTruthy = true := isTruthy_of_truthIs true hl h hv
  have hfalsy (h : l.isFalsy = true) : v.isTruthy = false := isTruthy_of_truthIs false hl h hv
  cases op with
  | and =>
      rw [apply, run]
      split_ifs <;> simp_all
  | or =>
      rw [apply, run]
      split_ifs <;> simp_all

theorem UnaryOp.admits_run (op : UnaryOp) (hl : l.Canonical) (hv : l.admits v = true) :
    (op.apply l).admits (op.run v) = true := by
  cases op with
  | not =>
      rw [apply, run]
      split_ifs with htruthy hfalsy
      · rw [isTruthy_of_truthIs true hl htruthy hv]
        exact admits_literal_self _
      · rw [isTruthy_of_truthIs false hl hfalsy hv]
        exact admits_literal_self _
      · exact admits_boolean _
  | typeof => exact admits_tag hl hv

theorem Traced.exists_result_admits {α : Type} {body : α → Traced Ty} {as : List α} {ss : List Ty}
    (hss : List.Forall₂ (fun a s => (body a).result = .ok s) as ss)
    (hbody : ∀ a ∈ as, ∀ s, (body a).result = .ok s → s.Canonical) {a : α} (ha : a ∈ as) :
    ∃ s, (body a).result = .ok s ∧ ∀ u, s.admits u = true → (join ss).admits u = true := by
  have hcanonical : ∀ s ∈ ss, s.Canonical := by
    intro s hs
    obtain ⟨a, ha, has⟩ := exists_of_forall₂ hss hs
    exact hbody a ha s has
  obtain ⟨s, hs, has⟩ := exists_result_of_mem hss ha
  exact ⟨s, has, fun u hu => (admits_join hcanonical).mpr ⟨s, hs, hu⟩⟩

theorem exists_branch_admits (hv : l.admits v = true) : ∃ b ∈ l.branches, b.admits v = true :=
  (iff_exists_branch (·.admits v = true) (fun _ => admits_union) l).mp hv

/-- Where a rule succeeds on all branches of a type, each value is in a branch, and the values of the
type that the rule gives there are values of the whole result. -/
theorem Context.exists_branch_of_admits {rule : Rule} {body : Ty → Traced Ty}
    (h : (cx.onBranches rule l body).result = .ok t) (hv : l.admits v = true)
    (hbody : ∀ b ∈ l.branches, ∀ s, (body b).result = .ok s → s.Canonical) :
    ∃ b ∈ l.branches, b.admits v = true ∧
      ∃ s, (body b).result = .ok s ∧ ∀ u, s.admits u = true → t.admits u = true := by
  obtain ⟨-, ss, hss, rfl⟩ := (onBranches_eq_ok hbody).mp h
  obtain ⟨b, hb, hbv⟩ := exists_branch_admits hv
  exact ⟨b, hb, hbv, Traced.exists_result_admits hss hbody hb⟩

theorem Context.exists_pair_of_admits {rule : Rule} {body : Ty → Ty → Traced Ty}
    (h : (cx.onPairs rule l r body).result = .ok t) (hv : l.admits v = true)
    (hw : r.admits w = true)
    (hbody : ∀ b ∈ l.branches, ∀ c ∈ r.branches, ∀ s, (body b c).result = .ok s → s.Canonical) :
    ∃ b ∈ l.branches, ∃ c ∈ r.branches, b.admits v = true ∧ c.admits w = true ∧
      ∃ s, (body b c).result = .ok s ∧ ∀ u, s.admits u = true → t.admits u = true := by
  obtain ⟨-, ss, hss, rfl⟩ := (onPairs_eq_ok hbody).mp h
  obtain ⟨b, hb, hbv⟩ := exists_branch_admits hv
  obtain ⟨c, hc, hcw⟩ := exists_branch_admits hw
  refine ⟨b, hb, c, hc, hbv, hcw, Traced.exists_result_admits hss ?_ (List.mem_product.mpr ⟨hb, hc⟩)⟩
  rintro ⟨b, c⟩ hbc
  obtain ⟨hb, hc⟩ := List.mem_product.mp hbc
  exact hbody b hb c hc

/-- Whatever an operator gives on values of two types belongs to the type that its rule gives on the
types, and where the rule accepts the types the operator has a result. A type that is known to be
truthy or falsy has only such values. -/
theorem operators_sound (cx : Context) (rule : Rule) (hl : l.Reachable) (hr : r.Reachable)
    (hv : l.admits v = true) (hw : r.admits w = true) :
    (∀ (op : BinaryOp) (t : Ty), (cx.onPairs rule l r (op.apply cx)).result = .ok t →
      (∃ u, op.Gives v w u) ∧ ∀ u, op.Gives v w u → t.admits u = true) ∧
    (∀ (op : LogicalOp) (t : Ty),
      (cx.onPairs rule l r fun l r => pure (op.apply l r)).result = .ok t →
        t.admits (op.run v w) = true) ∧
    (∀ (op : UnaryOp) (t : Ty), (cx.onBranches rule l fun l => pure (op.apply l)).result = .ok t →
      t.admits (op.run v) = true) ∧
    (l.isTruthy = true → v.isTruthy = true) ∧ (l.isFalsy = true → v.isTruthy = false) := by
  have hcl := reachable_iff_canonical.mp hl
  have hcr := reachable_iff_canonical.mp hr
  have hbl (b : Ty) (hb : b ∈ l.branches) : b.Canonical := (hcl.of_mem_branches hb).1
  have hbr (b : Ty) (hb : b ∈ r.branches) : b.Canonical := (hcr.of_mem_branches hb).1
  refine ⟨fun op t h => ?_, fun op t h => ?_, fun op t h => ?_,
    fun h => isTruthy_of_truthIs true hcl h hv, fun h => isTruthy_of_truthIs false hcl h hv⟩
  · obtain ⟨b, hb, c, hc, hbv, hcw, s, hs, hst⟩ :=
      Context.exists_pair_of_admits h hv hw fun b _ c _ s hs => (op.keeps_apply cx b c).ok hs
    obtain ⟨hsome, hall⟩ := op.gives_sound (hbl b hb) (hbr c hc) hs hbv hcw
    exact ⟨hsome, fun u hu => hst u (hall u hu)⟩
  · obtain ⟨b, hb, c, hc, hbv, hcw, s, hs, hst⟩ :=
      Context.exists_pair_of_admits h hv hw fun b hb c hc s hs =>
        Except.ok.inj hs ▸ op.canonical_apply (hbl b hb) (hbr c hc)
    obtain rfl := Except.ok.inj hs
    exact hst _ (op.admits_run (hbl b hb) (hbr c hc) hbv hcw)
  · obtain ⟨b, hb, hbv, s, hs, hst⟩ :=
      Context.exists_branch_of_admits h hv fun b _ s hs => Except.ok.inj hs ▸ op.canonical_apply b
    obtain rfl := Except.ok.inj hs
    exact hst _ (op.admits_run (hbl b hb) hbv)

def infinities : Ty :=
  .join [.literal (.number (.infinity false)), .literal (.number (.infinity true))]

theorem operators_sound_infinities :
    (join [.literal (.number (.infinity false)), .literal (.number .nan)]).admits
      (.literal (.number .nan)) = true ∧
    infinities.isTruthy = true ∧ Value.isTruthy (.literal (.number (.infinity true))) = true := by
  have hright : (Ty.literal (.number (.infinity false))).Reachable := .literal _
  have hleft : infinities.Reachable := .join (by simp [Reachable.literal])
  have htruthy : infinities.isTruthy = true := by decide +kernel
  have h := operators_sound (.top .empty {} default) .onBinary hleft hright
    (v := .literal (.number (.infinity true))) (w := .literal (.number (.infinity false)))
    (by decide +kernel) (by decide +kernel)
  have hsum := (h.1 .add _ (by with_unfolding_all rfl)).2 _ (.add (.infinity true) (.infinity false))
  exact ⟨hsum, htruthy, h.2.2.2.1 htruthy⟩

end Structura
