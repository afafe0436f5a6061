import Structura.Proofs.Bindings
import Structura.Proofs.CanonicalRules
import Structura.Proofs.LeastUpperBound
import Structura.Proofs.OperatorCases

namespace Structura.Ty

variable {s s' t t' u u' : Ty} {ts us : List Ty} {α β γ δ : Type}

structure Matched (R : α → β → Prop) (as : List α) (bs : List β) : Prop where
  forth : ∀ a ∈ as, ∃ b ∈ bs, R a b
  back : ∀ b ∈ bs, ∃ a ∈ as, R a b

namespace Matched

variable {R : α → β → Prop} {S : γ → δ → Prop}
  {as : List α} {bs : List β} {cs : List γ} {ds : List δ}

theorem singleton {a : α} {b : β} (h : R a b) : Matched R [a] [b] where
  forth := List.forall_mem_singleton.mpr ⟨b, List.mem_singleton_self b, h⟩
  back := List.forall_mem_singleton.mpr ⟨a, List.mem_singleton_self a, h⟩

theorem pair {a a' : α} {b b' : β} (h : R a b) (h' : R a' b') : Matched R [a, a'] [b, b'] where
  forth := by simp [h, h']
  back := by simp [h, h']

theorem map {f : α → γ} {g : β → δ} (h : Matched R as bs)
    (hfg : ∀ a ∈ as, ∀ b ∈ bs, R a b → S (f a) (g b)) : Matched S (as.map f) (bs.map g) where
  forth := List.forall_mem_map.mpr fun a ha =>
    let ⟨b, hb, hab⟩ := h.forth a ha
    ⟨g b, List.mem_map_of_mem hb, hfg a ha b hb hab⟩
  back := List.forall_mem_map.mpr fun b hb =>
    let ⟨a, ha, hab⟩ := h.back b hb
    ⟨f a, List.mem_map_of_mem ha, hfg a ha b hb hab⟩

theorem product (h : Matched R as bs) (h' : Matched S cs ds) :
    Matched (fun p q => R p.1 q.1 ∧ S p.2 q.2) (as ×ˢ cs) (bs ×ˢ ds) where
  forth := by
    rintro ⟨a, c⟩ hac
    obtain ⟨ha, hc⟩ := List.mem_product.mp hac
    obtain ⟨b, hb, hab⟩ := h.forth a ha
    obtain ⟨d, hd, hcd⟩ := h'.forth c hc
    exact ⟨(b, d), List.mem_product.mpr ⟨hb, hd⟩, hab, hcd⟩
  back := by
    rintro ⟨b, d⟩ hbd
    obtain ⟨hb, hd⟩ := List.mem_product.mp hbd
    obtain ⟨a, ha, hab⟩ := h.back b hb
    obtain ⟨c, hc, hcd⟩ := h'.back d hd
    exact ⟨(a, c), List.mem_product.mpr ⟨ha, hc⟩, hab, hcd⟩

end Matched

/-- Canonical types that differ in the order of their parts only. -/
structure Alike (t u : Ty) : Prop where
  left : Canonical t
  right : Canonical u
  equal : same t u = true

theorem alike_of_mutual (ht : Canonical t) (hu : Canonical u) (h : Mutual t u) : Alike t u :=
  ⟨ht, hu, same_of_mutual ht hu h⟩

theorem alike_refl (ht : Canonical t) : Alike t t :=
  alike_of_mutual ht ht ⟨isSubtype_refl ht, isSubtype_refl ht⟩

namespace Alike

theorem toMutual (h : Alike t u) : Mutual t u := isSubtype_of_same h.left h.right h.equal

theorem symm (h : Alike t u) : Alike u t := alike_of_mutual h.right h.left h.toMutual.symm

theorem below (hs : Alike s s') (ht : Alike t t') (h : isSubtype s t = true) :
    isSubtype s' t' = true :=
  isSubtype_trans hs.right hs.left ht.right hs.toMutual.2
    (isSubtype_trans hs.left ht.left ht.right h ht.toMutual.1)

theorem isSubtype_eq (hs : Alike s s') (ht : Alike t t') : isSubtype s t = isSubtype s' t' :=
  Bool.eq_iff_iff.mpr ⟨hs.below ht, hs.symm.below ht.symm⟩

end Alike

theorem Matched.alike_join (h : Matched Alike ts us) : Alike (join ts) (join us) := by
  have hts : ∀ t ∈ ts, Canonical t := fun t ht => let ⟨_, _, htu⟩ := h.forth t ht; htu.left
  have hus : ∀ u ∈ us, Canonical u := fun u hu => let ⟨_, _, htu⟩ := h.back u hu; htu.right
  refine ⟨canonical_join hts, canonical_join hus, same_join hts hus fun c hc => ⟨?_, ?_⟩⟩
  · rintro ⟨t, ht, hct⟩
    obtain ⟨u, hu, htu⟩ := h.forth t ht
    exact ⟨u, hu, (alike_refl hc.canonical).below htu hct⟩
  · rintro ⟨u, hu, hcu⟩
    obtain ⟨t, ht, htu⟩ := h.back u hu
    exact ⟨t, ht, (alike_refl hc.canonical).below htu.symm hcu⟩

/-- The parameters of functions match one by one. -/
theorem same_function_iff {ps qs : List Ty} {r s : Ty} :
    same (.function ps r) (.function qs s) = true ↔
      List.Forall₂ (fun p q => same p q = true) ps qs ∧ same r s = true := by
  rw [same_function, List.forall₂_iff_zip, and_assoc]
  refine and_congr_right fun _ => and_congr_left fun _ =>
    ⟨fun h p q hpq => ?_, fun h i p q hp hq => ?_⟩
  · obtain ⟨i, hi⟩ := List.mem_iff_getElem?.mp hpq
    obtain ⟨hp, hq⟩ := List.getElem?_zip_eq_some.mp hi
    exact h i p q hp hq
  · exact h (List.mem_of_getElem? (List.getElem?_zip_eq_some.mpr ⟨hp, hq⟩))

theorem alike_function {ps qs : List Ty} {r s : Ty} (params : List.Forall₂ Alike ps qs)
    (result : Alike r s) : Alike (.function ps r) (.function qs s) where
  left := .function (fun _ hp => let ⟨_, _, h⟩ := exists_of_forall₂ params.flip hp; h.left) result.left
  right := .function (fun _ hq => let ⟨_, _, h⟩ := exists_of_forall₂ params hq; h.right) result.right
  equal := same_function_iff.mpr ⟨params.imp fun _ _ => Alike.equal, result.equal⟩

theorem alike_object {ps qs : List (String × Ty)} (names : (ps.map Prod.fst).Nodup)
    (h : List.Forall₂ (fun p q => p.1 = q.1 ∧ Alike p.2 q.2) ps qs) :
    Alike (.object ps) (.object qs) := by
  have hnames : ps.map Prod.fst = qs.map Prod.fst := by
    rw [← List.forall₂_eq_eq_eq, List.forall₂_map_left_iff, List.forall₂_map_right_iff]
    exact h.imp fun _ _ => And.left
  refine ⟨.object names fun p hp => ?_, .object (hnames ▸ names) fun q hq => ?_,
    same_object.mpr ⟨h.length_eq, fun n s hs => ?_⟩⟩
  · obtain ⟨q, -, hpq⟩ := exists_of_forall₂ h.flip hp
    exact hpq.2.left
  · obtain ⟨p, -, hpq⟩ := exists_of_forall₂ h hq
    exact hpq.2.right
  · obtain ⟨⟨m, t⟩, hq, rfl, hst⟩ := exists_of_forall₂ h.flip hs
    exact ⟨t, hq, hst.equal⟩

namespace Alike

theorem isUnion_eq (h : Alike t u) : t.isUnion = u.isUnion := by
  cases same_iff.mp h.equal <;> rfl

theorem length_branches (h : Alike t u) : t.branches.length = u.branches.length := by
  cases same_iff.mp h.equal with
  | union members => exact members.1
  | _ => rfl

theorem branches (h : Alike t u) : Matched Alike t.branches u.branches := by
  cases same_iff.mp h.equal with
  | union members =>
      refine ⟨fun t ht => ?_, fun u hu => ?_⟩
      · obtain ⟨u, hu, htu⟩ := members.2.1 t ht
        exact ⟨u, hu, h.left.branch ht, h.right.branch hu, htu⟩
      · obtain ⟨t, ht, htu⟩ := members.2.2 u hu
        exact ⟨t, ht, h.left.branch ht, h.right.branch hu, htu⟩
  | _ => exact .singleton h

theorem params {ps qs : List Ty} {r s : Ty} (h : Alike (.function ps r) (.function qs s)) :
    List.Forall₂ Alike ps qs := by
  obtain ⟨hparams, -⟩ := same_function_iff.mp h.equal
  rw [List.forall₂_iff_zip] at hparams ⊢
  refine ⟨hparams.1, fun hpq => ⟨?_, ?_, hparams.2 hpq⟩⟩
  · exact h.left.param (List.of_mem_zip hpq).1
  · exact h.right.param (List.of_mem_zip hpq).2

theorem result {ps qs : List Ty} {r s : Ty} (h : Alike (.function ps r) (.function qs s)) :
    Alike r s :=
  ⟨h.left.result, h.right.result, (same_function_iff.mp h.equal).2⟩

theorem property {ps qs : List (String × Ty)} (h : Alike (.object ps) (.object qs)) {n : String}
    {s : Ty} (hs : (n, s) ∈ ps) : ∃ t, (n, t) ∈ qs ∧ Alike s t := by
  obtain ⟨t, ht, hst⟩ := (same_object.mp h.equal).2 n s hs
  exact ⟨t, ht, h.left.property hs, h.right.property ht, hst⟩

theorem lookup {ps qs : List (String × Ty)} (h : Alike (.object ps) (.object qs)) (n : String) :
    Option.Rel Alike (ps.lookup n) (qs.lookup n) := by
  cases hp : ps.lookup n with
  | some s =>
      obtain ⟨t, ht, hst⟩ := h.property (mem_of_lookup hp)
      obtain ⟨t', ht'⟩ := exists_lookup ht
      rw [ht', h.right.property_unique (mem_of_lookup ht') ht]
      exact .some hst
  | none =>
      cases hq : qs.lookup n with
      | none => exact .none
      | some t =>
          obtain ⟨s, hs, -⟩ := h.symm.property (mem_of_lookup hq)
          obtain ⟨s', hs'⟩ := exists_lookup hs
          rw [hp] at hs'
          cases hs'

theorem isSome_find? {ps qs : List (String × Ty)} (h : Alike (.object ps) (.object qs))
    (good : String → Bool) :
    (ps.find? fun p => good p.1).isSome = (qs.find? fun q => good q.1).isSome := by
  have hmem {ps qs : List (String × Ty)} (h : Alike (.object ps) (.object qs))
      (hp : (ps.find? fun p => good p.1).isSome = true) :
      (qs.find? fun q => good q.1).isSome = true := by
    obtain ⟨⟨n, s⟩, hs, hn⟩ := List.find?_isSome.mp hp
    obtain ⟨t, ht, -⟩ := h.property hs
    exact List.find?_isSome.mpr ⟨(n, t), ht, hn⟩
  exact Bool.eq_iff_iff.mpr ⟨hmem h, hmem h.symm⟩

theorem truthIs_eq (h : Alike t u) (truth : Bool) : truthIs truth t = truthIs truth u := by
  obtain ⟨ht, hu, hsame⟩ := h
  induction ht generalizing u with
  | union _ members _ _ ih =>
      cases same_iff.mp hsame with
      | union hmembers =>
          rw [Bool.eq_iff_iff, truthIs_union, truthIs_union]
          constructor
          · intro hall u hmem
            obtain ⟨t, ht, htu⟩ := hmembers.2.2 u hmem
            rw [← ih t ht (hu.branch hmem) htu]
            exact hall t ht
          · intro hall t ht
            obtain ⟨u, hmem, htu⟩ := hmembers.2.1 t ht
            rw [ih t ht (hu.branch hmem) htu]
            exact hall u hmem
  | inter two members alike apart compatible _ =>
      cases same_iff.mp hsame with
      | inter _ =>
          rw [truthIs_inter (.inter two members alike apart compatible), truthIs_inter hu]
  | literal v =>
      cases same_iff.mp hsame with
      | literal hvw => rw [truthIs_literal, truthIs_literal, Literal.isTruthy_eq_of_same hvw]
  | never | unknown | prim =>
      cases same_iff.mp hsame
      rfl
  | object | function =>
      cases same_iff.mp hsame
      cases truth <;> rfl

theorem isTruthy_eq (h : Alike t u) : t.isTruthy = u.isTruthy := h.truthIs_eq true

theorem isFalsy_eq (h : Alike t u) : t.isFalsy = u.isFalsy := h.truthIs_eq false

theorem tag (h : Alike t u) : Alike t.tag u.tag := by
  have hequal {t u : Ty} (h : t.tag = u.tag) : Alike t.tag u.tag := h ▸ alike_refl (canonical_tag t)
  obtain ⟨ht, hu, hsame⟩ := h
  induction ht generalizing u with
  | union _ members _ _ ih =>
      cases same_iff.mp hsame with
      | union hmembers =>
          rw [tag_union, tag_union]
          refine (Matched.map (R := fun t u => same t u = true) ⟨hmembers.2.1, hmembers.2.2⟩
            fun t ht u hmem htu => ?_).alike_join
          exact ih t ht (hu.branch hmem) htu
  | inter two members alike apart compatible ih =>
      have hinter := Canonical.inter two members alike apart compatible
      cases same_iff.mp hsame with
      | inter hmembers =>
          obtain ⟨t, ht⟩ := hinter.exists_factor
          obtain ⟨u, hmem, htu⟩ := hmembers.2.1 t ht
          rw [tag_inter hinter ht, tag_inter hu hmem]
          exact ih t ht (hu.factor hmem) htu
  | literal v =>
      cases same_iff.mp hsame with
      | literal hvw =>
          exact hequal (by rw [Ty.tag, Ty.tag, Literal.base_eq_of_same hvw])
  | never | unknown | prim =>
      cases same_iff.mp hsame
      exact hequal rfl
  | object | function =>
      cases same_iff.mp hsame
      exact hequal rfl

theorem exists_literal {v : Literal} (h : Alike (.literal v) u) :
    ∃ w, u = .literal w ∧ v.same w = true := by
  cases same_iff.mp h.equal with
  | literal hvw => exact ⟨_, rfl, hvw⟩

theorem exists_number {a : Binary64} (h : Alike (.literal (.number a)) u) :
    ∃ b, u = .literal (.number b) ∧ (Literal.number a).same (.number b) = true := by
  obtain ⟨w, rfl, hw⟩ := h.exists_literal
  cases w with
  | number b => exact ⟨b, rfl, hw⟩
  | boolean | string => cases Literal.base_eq_of_same hw

theorem compare (hs : Alike s s') (ht : Alike t t') (expected : Bool) :
    Alike (s.compare expected t) (s'.compare expected t') := by
  by_cases h : ∃ v w, s = .literal v ∧ t = .literal w
  · obtain ⟨v, w, rfl, rfl⟩ := h
    obtain ⟨v', rfl, hv⟩ := hs.exists_literal
    obtain ⟨w', rfl, hw⟩ := ht.exists_literal
    rw [Ty.compare, Ty.compare, Literal.strictEq_eq_of_same hv hw]
    exact alike_refl (.literal _)
  · rw [compare_of_not_literals fun v w hv hw => h ⟨v, w, hv, hw⟩, compare_of_not_literals]
    · exact alike_refl (.prim .boolean)
    · rintro v w rfl rfl
      obtain ⟨v', hv', -⟩ := hs.symm.exists_literal
      obtain ⟨w', hw', -⟩ := ht.symm.exists_literal
      exact h ⟨v', w', hv', hw'⟩

theorem sum (hs : Alike s s') (ht : Alike t t') : Alike (s.sum t) (s'.sum t') := by
  by_cases h : ∃ a b, s = .literal (.number a) ∧ t = .literal (.number b)
  · obtain ⟨a, b, rfl, rfl⟩ := h
    obtain ⟨a', rfl, ha⟩ := hs.exists_number
    obtain ⟨b', rfl, hb⟩ := ht.exists_number
    exact ⟨.literal _, .literal _, same_iff.mpr (.literal (Literal.same_add ha hb))⟩
  · rw [sum_of_not_numbers fun a b ha hb => h ⟨a, b, ha, hb⟩, sum_of_not_numbers]
    · exact alike_refl (.prim .number)
    · rintro a b rfl rfl
      obtain ⟨a', ha', -⟩ := hs.symm.exists_number
      obtain ⟨b', hb', -⟩ := ht.symm.exists_number
      exact h ⟨a', b', ha', hb'⟩

theorem logical (op : LogicalOp) (hs : Alike s s') (ht : Alike t t') :
    Alike (op.apply s t) (op.apply s' t') := by
  have hjoin : Alike (join [s, t]) (join [s', t']) := (Matched.pair hs ht).alike_join
  cases op with
  | and =>
      rw [LogicalOp.apply, LogicalOp.apply, hs.isFalsy_eq, hs.isTruthy_eq]
      split_ifs <;> assumption
  | or =>
      rw [LogicalOp.apply, LogicalOp.apply, hs.isFalsy_eq, hs.isTruthy_eq]
      split_ifs <;> assumption

theorem unary (op : UnaryOp) (h : Alike t u) : Alike (op.apply t) (op.apply u) := by
  cases op with
  | not =>
      have hcanonical := UnaryOp.not.canonical_apply u
      rw [UnaryOp.apply, h.isTruthy_eq, h.isFalsy_eq]
      exact alike_refl hcanonical
  | typeof => exact h.tag

end Alike

end Structura.Ty
