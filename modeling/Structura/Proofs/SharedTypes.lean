import Structura.Proofs.Canonical

namespace Structura

inductive Node (A : Type) where
  | never
  | unknown
  | prim (primitive : Primitive)
  | literal (value : Literal)
  | object (properties : List (String × A))
  | function (params : List A) (result : A)
  | union (members : List A)
  | inter (members : List A)

def Node.type {A : Type} (types : A → Ty) : Node A → Ty
  | .never => .never
  | .unknown => .unknown
  | .prim p => .prim p
  | .literal v => .literal v
  | .object ps => .object (ps.map fun p => (p.1, types p.2))
  | .function ps r => .function (ps.map types) (types r)
  | .union ts => .union (ts.map types)
  | .inter ts => .inter (ts.map types)

/-- A memory that is never written twice: a node can only refer to addresses that are older. -/
structure Heap (A : Type) where
  age : A → Nat
  node : (x : A) → Node {c : A // age c < age x}

namespace Heap

variable {A : Type}

def type (heap : Heap A) (x : A) : Ty := (heap.node x).type fun c => heap.type c.1
termination_by heap.age x
decreasing_by exact c.2

def isSubtype [DecidableEq A] (heap : Heap A) (x y : A) : Bool :=
  x == y || match heap.node x, heap.node y with
    | .never, _ => true
    | _, .unknown => true
    | .union ts, _ => ts.all fun t => heap.isSubtype t.1 y
    | _, .union us => us.any fun u => heap.isSubtype x u.1
    | _, .inter us => us.all fun u => heap.isSubtype x u.1
    | .inter ts, _ => ts.any fun t => heap.isSubtype t.1 y
    | .prim p, .prim q => p == q
    | .literal v, .literal w => v.same w
    | .literal v, .prim q => v.base == q
    | .object ps, .object qs =>
        qs.all fun q => ps.any fun p => p.1 == q.1 && heap.isSubtype p.2.1 q.2.1
    | .function ps r, .function qs s =>
        ps.length == qs.length && ((qs.zip ps).all fun z => heap.isSubtype z.1.1 z.2.1)
          && heap.isSubtype r.1 s.1
    | _, _ => false
termination_by heap.age x + heap.age y
decreasing_by
  · have := t.2
    omega
  · have := u.2
    omega
  · have := u.2
    omega
  · have := t.2
    omega
  · have := p.2.2
    have := q.2.2
    omega
  · have := z.1.2
    have := z.2.2
    omega
  · have := r.2
    have := s.2
    omega

theorem type_eq (heap : Heap A) {x : A} {n : Node {c : A // heap.age c < heap.age x}}
    (hx : heap.node x = n) : heap.type x = n.type fun c => heap.type c.1 := by
  rw [type, hx]

def Shows (heap : Heap A) (x : A) : Ty → Prop
  | .never => heap.node x = .never
  | .unknown => heap.node x = .unknown
  | .prim p => heap.node x = .prim p
  | .literal v => heap.node x = .literal v
  | .object _ => ∃ ps, heap.node x = .object ps
  | .function _ _ => ∃ ps r, heap.node x = .function ps r
  | .union _ => ∃ ts, heap.node x = .union ts
  | .inter _ => ∃ ts, heap.node x = .inter ts

theorem shows_of_type (heap : Heap A) {x : A} {t : Ty} (h : heap.type x = t) : heap.Shows x t := by
  subst h
  rw [type]
  cases hx : heap.node x <;> simp [Node.type, Shows, hx]

variable {B C : Type} {type : B → Ty} {type' : C → Ty}

theorem isSubtype_objects (ps : List (String × B)) (qs : List (String × C)) (below : B → C → Bool)
    (h : ∀ p ∈ ps, ∀ q ∈ qs, below p.2 q.2 = Ty.isSubtype (type p.2) (type' q.2)) :
    (qs.all fun q => ps.any fun p => p.1 == q.1 && below p.2 q.2) =
      Ty.isSubtype ((Node.object ps).type type) ((Node.object qs).type type') := by
  rw [Bool.eq_iff_iff, Node.type, Node.type, Ty.isSubtype_object]
  simp only [List.all_eq_true, List.any_eq_true, Bool.and_eq_true, beq_iff_eq, List.mem_map,
    Prod.mk.injEq]
  constructor
  · rintro hall n t ⟨q, hq, rfl, rfl⟩
    obtain ⟨p, hp, hn, hpq⟩ := hall q hq
    exact ⟨_, ⟨p, hp, hn, rfl⟩, h p hp q hq ▸ hpq⟩
  · intro hall q hq
    obtain ⟨s, ⟨p, hp, hn, rfl⟩, hpq⟩ := hall q.1 _ ⟨q, hq, rfl, rfl⟩
    exact ⟨p, hp, hn, (h p hp q hq).symm ▸ hpq⟩

theorem isSubtype_functions (ps : List B) {r : B} (qs : List C) {s : C} (below : C → B → Bool)
    {result : Bool} (h : ∀ p ∈ ps, ∀ q ∈ qs, below q p = Ty.isSubtype (type' q) (type p))
    (hresult : result = Ty.isSubtype (type r) (type' s)) :
    (ps.length == qs.length && ((qs.zip ps).all fun z => below z.1 z.2) && result) =
      Ty.isSubtype ((Node.function ps r).type type) ((Node.function qs s).type type') := by
  rw [hresult, Bool.eq_iff_iff, Node.type, Node.type, Ty.isSubtype_function]
  simp only [Bool.and_eq_true, beq_iff_eq, Ty.all_zip qs ps below, List.length_map, and_assoc,
    List.getElem?_map, Option.map_eq_some_iff]
  refine and_congr_right fun _ => and_congr_left fun _ => ?_
  constructor
  · rintro hall i p q ⟨p, hi, rfl⟩ ⟨q, hj, rfl⟩
    exact h p (List.mem_of_getElem? hi) q (List.mem_of_getElem? hj) ▸ hall i q p hj hi
  · intro hall i q p hj hi
    exact (h p (List.mem_of_getElem? hi) q (List.mem_of_getElem? hj)).symm ▸
      hall i _ _ ⟨p, hi, rfl⟩ ⟨q, hj, rfl⟩

theorem isSubtype_eq [DecidableEq A] (heap : Heap A) {x y : A}
    (hx : Ty.Canonical (heap.type x)) (hy : Ty.Canonical (heap.type y)) :
    heap.isSubtype x y = Ty.isSubtype (heap.type x) (heap.type y) := by
  induction x, y using Heap.isSubtype.induct heap with
  | case1 x y ihLeft ihRight ihProperty ihParam ihResult =>
      by_cases hxy : x = y
      · subst hxy
        rw [Ty.isSubtype_refl hx, Heap.isSubtype]
        simp
      rw [Heap.isSubtype, beq_false_of_ne hxy, Bool.false_or]
      split
      case h_1 hnx => simp [heap.type_eq hnx, Node.type]
      case h_2 hny _ => simp [heap.type_eq hny, Node.type]
      case h_3 ts hnx hny =>
        have htx := heap.type_eq hnx
        rw [Bool.eq_iff_iff, List.all_eq_true, htx, Node.type, Ty.isSubtype_union_left,
          List.forall_mem_map]
        refine forall₂_congr fun t ht => ?_
        rw [ihLeft t ((htx ▸ hx).branch (List.mem_map.mpr ⟨t, ht, rfl⟩)) hy]
      case h_4 us hny hnever hunion =>
        have hty := heap.type_eq hny
        rw [Bool.eq_iff_iff, List.any_eq_true, hty, Node.type, Ty.isSubtype_union_right_iff
          (fun h => hnever (heap.shows_of_type h))
          fun ts h => (heap.shows_of_type h).elim hunion]
        simp only [List.mem_map, exists_exists_and_eq_and]
        refine exists_congr fun u => and_congr_right fun hu => ?_
        rw [ihRight u hx ((hty ▸ hy).branch (List.mem_map.mpr ⟨u, hu, rfl⟩))]
      case h_5 us hny hnever hunion =>
        have hty := heap.type_eq hny
        rw [Bool.eq_iff_iff, List.all_eq_true, hty, Node.type, Ty.isSubtype_inter_right,
          List.forall_mem_map]
        refine forall₂_congr fun u hu => ?_
        rw [ihRight u hx ((hty ▸ hy).factor (List.mem_map.mpr ⟨u, hu, rfl⟩))]
      case h_6 ts hnx hunknown hunion hinter =>
        have htx := heap.type_eq hnx
        rw [Bool.eq_iff_iff, List.any_eq_true, htx, Node.type, Ty.isSubtype_inter_left_iff
          (fun h => hunknown (heap.shows_of_type h))
          (fun us h => (heap.shows_of_type h).elim hunion)
          fun us h => (heap.shows_of_type h).elim hinter]
        simp only [List.mem_map, exists_exists_and_eq_and]
        refine exists_congr fun t => and_congr_right fun ht => ?_
        rw [ihLeft t ((htx ▸ hx).factor (List.mem_map.mpr ⟨t, ht, rfl⟩)) hy]
      case h_7 p q hnx hny => simp [heap.type_eq hnx, heap.type_eq hny, Node.type, Ty.isSubtype]
      case h_8 v w hnx hny => simp [heap.type_eq hnx, heap.type_eq hny, Node.type, Ty.isSubtype]
      case h_9 v q hnx hny => simp [heap.type_eq hnx, heap.type_eq hny, Node.type, Ty.isSubtype]
      case h_10 ps qs hnx hny =>
        have htx := heap.type_eq hnx
        have hty := heap.type_eq hny
        rw [htx, hty]
        refine isSubtype_objects ps qs (fun p q => heap.isSubtype p.1 q.1) ?_
        refine fun p hp q hq => ihProperty q p ?_ ?_
        · exact (htx ▸ hx).property (List.mem_map.mpr ⟨p, hp, rfl⟩)
        · exact (hty ▸ hy).property (List.mem_map.mpr ⟨q, hq, rfl⟩)
      case h_11 ps r qs s hnx hny =>
        have htx := heap.type_eq hnx
        have hty := heap.type_eq hny
        rw [htx, hty]
        refine isSubtype_functions ps qs (fun q p => heap.isSubtype q.1 p.1) ?_
          (ihResult r s (htx ▸ hx).result (hty ▸ hy).result)
        refine fun p hp q hq => ihParam (q, p) ?_ ?_
        · exact (hty ▸ hy).param (List.mem_map.mpr ⟨q, hq, rfl⟩)
        · exact (htx ▸ hx).param (List.mem_map.mpr ⟨p, hp, rfl⟩)
      case h_12 hnever hunion hinter hunknown hunion' hinter' hprims hliterals hbase hobjects
          hfunctions =>
        -- No rule fits the two nodes, so none fits their types.
        have hsx := heap.shows_of_type (x := x) rfl
        have hsy := heap.shows_of_type (x := y) rfl
        generalize heap.type x = a at hsx
        generalize heap.type y = b at hsy
        fun_cases Ty.isSubtype a b with
        | case1 => exact absurd hsx hnever
        | case2 => exact absurd hsy hunknown
        | case3 => exact (hsx.elim hunion).elim
        | case4 => exact (hsy.elim hunion').elim
        | case5 => exact (hsy.elim hinter').elim
        | case6 => exact (hsx.elim hinter).elim
        | case7 p q => exact absurd hsy (hprims p q hsx)
        | case8 v w => exact absurd hsy (hliterals v w hsx)
        | case9 v q => exact absurd hsy (hbase v q hsx)
        | case10 =>
            obtain ⟨ps, hps⟩ := hsx
            obtain ⟨qs, hqs⟩ := hsy
            exact absurd hqs (hobjects ps qs hps)
        | case11 =>
            obtain ⟨ps, r, hps⟩ := hsx
            obtain ⟨qs, s, hqs⟩ := hsy
            exact absurd hqs (hfunctions ps r qs s hps)
        | case12 => rfl

end Heap

end Structura
