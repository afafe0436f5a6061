import Structura.Proofs.AlikeTypes
import Structura.Proofs.ComparedJudgments

namespace Structura

open Comparison Traced Ty

/-- Two runs on types that differ in the order of their parts only, with the same limits. When both
fail nothing is said about how: each shows its own order, and finds its own fault first. -/
def reordered : Comparison where
  types := Alike
  faults _ _ := True
  excused _ := False
  rooms cx cy := cx.settings = cy.settings ∧ cx.depth = cy.depth

variable {α β : Type} {like : α → β → Prop}

theorem linked_reordered_iff {x : Traced α} {y : Traced β} :
    reordered.Linked like x y ↔
      (∀ a, x.result = .ok a → ∃ b, y.result = .ok b ∧ like a b) ∧
        ∀ b, y.result = .ok b → ∃ a, x.result = .ok a ∧ like a b := by
  constructor
  · rintro (⟨d, -, hd⟩ | ⟨d, e, hd, he, -⟩ | ⟨a, b, ha, hb, hab⟩)
    · exact hd.elim
    · exact ⟨by simp [hd], by simp [he]⟩
    · exact ⟨by simp [ha, hb, hab], by simp [ha, hb, hab]⟩
  · rintro ⟨hforth, hback⟩
    cases hx : x.result with
    | ok a =>
        obtain ⟨b, hb, hab⟩ := hforth a hx
        exact Or.inr (Or.inr ⟨a, b, hx, hb, hab⟩)
    | error d =>
        cases hy : y.result with
        | ok b =>
            obtain ⟨a, ha, -⟩ := hback b hy
            rw [hx] at ha
            cases ha
        | error e => exact Or.inr (Or.inl ⟨d, e, hx, hy, trivial⟩)

theorem exists_forall₂ {R : α → β → Prop} {as : List α} (h : ∀ a ∈ as, ∃ b, R a b) :
    ∃ bs, List.Forall₂ R as bs := by
  induction as with
  | nil => exact ⟨[], .nil⟩
  | cons a as ih =>
      obtain ⟨⟨b, hab⟩, hrest⟩ := List.forall_mem_cons.mp h
      obtain ⟨bs, hbs⟩ := ih hrest
      exact ⟨b :: bs, .cons hab hbs⟩

section Matched

variable {as : List α} {bs : List β} {f : α → Traced Ty} {g : β → Traced Ty}
  (h : Matched like as bs) (hfg : ∀ a b, like a b → reordered.Linked Alike (f a) (g b))
include h hfg

theorem Ty.Matched.canonical_left : ∀ a ∈ as, ∀ r, (f a).result = .ok r → r.Canonical := by
  intro a ha r hr
  obtain ⟨b, -, hab⟩ := h.forth a ha
  obtain ⟨s, -, hrs⟩ := (linked_reordered_iff.mp (hfg a b hab)).1 r hr
  exact hrs.left

theorem Ty.Matched.canonical_right : ∀ b ∈ bs, ∀ s, (g b).result = .ok s → s.Canonical := by
  intro b hb s hs
  obtain ⟨a, -, hab⟩ := h.back b hb
  obtain ⟨r, -, hrs⟩ := (linked_reordered_iff.mp (hfg a b hab)).2 s hs
  exact hrs.right

/-- A body that succeeds on all entries of a list also does on the entries that match them, and the
unions of the results are alike. -/
theorem Ty.Matched.exists_results {rs : List Ty}
    (hrs : List.Forall₂ (fun a r => (f a).result = .ok r) as rs) :
    ∃ ss, List.Forall₂ (fun b s => (g b).result = .ok s) bs ss ∧ Alike (join rs) (join ss) := by
  have hsome : ∀ b ∈ bs, ∃ s, (g b).result = .ok s := by
    intro b hb
    obtain ⟨a, ha, hab⟩ := h.back b hb
    obtain ⟨r, -, hr⟩ := exists_result_of_mem hrs ha
    obtain ⟨s, hs, -⟩ := (linked_reordered_iff.mp (hfg a b hab)).1 r hr
    exact ⟨s, hs⟩
  obtain ⟨ss, hss⟩ := exists_forall₂ hsome
  refine ⟨ss, hss, Matched.alike_join ⟨fun r hr => ?_, fun s hs => ?_⟩⟩
  · obtain ⟨a, ha, hra⟩ := exists_of_forall₂ hrs hr
    obtain ⟨b, hb, hab⟩ := h.forth a ha
    obtain ⟨s, hs, hsb⟩ := exists_result_of_mem hss hb
    obtain ⟨s', hs', hrs'⟩ := (linked_reordered_iff.mp (hfg a b hab)).1 r hra
    obtain rfl := Except.ok.inj (hsb.symm.trans hs')
    exact ⟨s, hs, hrs'⟩
  · obtain ⟨b, hb, hsb⟩ := exists_of_forall₂ hss hs
    obtain ⟨a, ha, hab⟩ := h.back b hb
    obtain ⟨r, hr, hra⟩ := exists_result_of_mem hrs ha
    obtain ⟨r', hr', hrs'⟩ := (linked_reordered_iff.mp (hfg a b hab)).2 s hsb
    obtain rfl := Except.ok.inj (hra.symm.trans hr')
    exact ⟨r, hr, hrs'⟩

end Matched

theorem linked_alike_symm {x y : Traced Ty} (h : reordered.Linked Alike x y) :
    reordered.Linked Alike y x := by
  rw [linked_reordered_iff] at h ⊢
  refine ⟨fun t ht => ?_, fun u hu => ?_⟩
  · obtain ⟨u, hu, hut⟩ := h.2 t ht
    exact ⟨u, hu, hut.symm⟩
  · obtain ⟨t, ht, hut⟩ := h.1 u hu
    exact ⟨t, ht, hut.symm⟩

variable {cx cy : Context} (hsettings : cx.settings = cy.settings) {rule : Rule}

section Branches

include hsettings

theorem onBranches_alike {t u r : Ty} (htu : Alike t u) {f g : Ty → Traced Ty}
    (hfg : ∀ b c, Alike b c → reordered.Linked Alike (f b) (g c))
    (h : (cx.onBranches rule t f).result = .ok r) :
    ∃ s, (cy.onBranches rule u g).result = .ok s ∧ Alike r s := by
  rw [Context.onBranches_eq_ok (htu.branches.canonical_left hfg)] at h
  obtain ⟨hcount, rs, hrs, rfl⟩ := h
  obtain ⟨ss, hss, hjoin⟩ := htu.branches.exists_results hfg hrs
  rw [htu.isUnion_eq, htu.length_branches, hsettings] at hcount
  exact ⟨join ss, (Context.onBranches_eq_ok (htu.branches.canonical_right hfg)).mpr
    ⟨hcount, ss, hss, rfl⟩, hjoin⟩

theorem onPairs_alike {l l' r r' t : Ty} (hl : Alike l l') (hr : Alike r r')
    {f g : Ty → Ty → Traced Ty}
    (hfg : ∀ b b' c c', Alike b b' → Alike c c' → reordered.Linked Alike (f b c) (g b' c'))
    (h : (cx.onPairs rule l r f).result = .ok t) :
    ∃ u, (cy.onPairs rule l' r' g).result = .ok u ∧ Alike t u := by
  have hpairs := hl.branches.product hr.branches
  have hbodies (p q : Ty × Ty) (hpq : Alike p.1 q.1 ∧ Alike p.2 q.2) :
      reordered.Linked Alike (f p.1 p.2) (g q.1 q.2) := hfg _ _ _ _ hpq.1 hpq.2
  have hleft := hpairs.canonical_left (f := fun p => f p.1 p.2) (g := fun q => g q.1 q.2) hbodies
  have hright := hpairs.canonical_right (f := fun p => f p.1 p.2) (g := fun q => g q.1 q.2) hbodies
  rw [Context.onPairs_eq_ok fun b hb c hc => hleft (b, c) (List.mem_product.mpr ⟨hb, hc⟩)] at h
  obtain ⟨hcount, rs, hrs, rfl⟩ := h
  obtain ⟨ss, hss, hjoin⟩ := hpairs.exists_results (f := fun p => f p.1 p.2)
    (g := fun q => g q.1 q.2) hbodies hrs
  rw [hl.isUnion_eq, hr.isUnion_eq, hl.length_branches, hr.length_branches, hsettings] at hcount
  refine ⟨join ss, ?_, hjoin⟩
  rw [Context.onPairs_eq_ok fun b hb c hc => hright (b, c) (List.mem_product.mpr ⟨hb, hc⟩)]
  exact ⟨hcount, ss, hss, rfl⟩

end Branches

theorem linked_binary_alike {l l' r r' : Ty} (op : BinaryOp) (hl : Alike l l') (hr : Alike r r') :
    reordered.Linked Alike (op.apply cx l r) (op.apply cy l' r') := by
  cases op with
  | equal => exact linked_pure (hl.compare hr true)
  | notEqual => exact linked_pure (hl.compare hr false)
  | add =>
      have hnumber := alike_refl (.prim .number)
      change reordered.Linked Alike (l.add cx r) (l'.add cy r')
      rw [linked_reordered_iff]
      simp only [add_eq_ok, hl.isSubtype_eq hnumber, hr.isSubtype_eq hnumber]
      refine ⟨?_, ?_⟩
      · rintro _ ⟨hbelow, rfl⟩
        exact ⟨_, ⟨hbelow, rfl⟩, hl.sum hr⟩
      · rintro _ ⟨hbelow, rfl⟩
        exact ⟨_, ⟨hbelow, rfl⟩, hl.sum hr⟩

theorem optionRel_of_isSome {R : α → β → Prop} (hR : ∀ a b, R a b) {o : Option α} {o' : Option β}
    (h : o.isSome = o'.isSome) : Option.Rel R o o' := by
  cases o with
  | none =>
      cases o' with
      | none => exact .none
      | some b => cases h
  | some a =>
      cases o' with
      | none => cases h
      | some b => exact .some (hR a b)

theorem optionRel_imp {R S : α → β → Prop} (hRS : ∀ a b, R a b → S a b) {o : Option α}
    {o' : Option β} (h : Option.Rel R o o') : Option.Rel S o o' := by
  cases h with
  | none => exact .none
  | some hab => exact .some (hRS _ _ hab)

theorem shape_of_alike {t u : Ty} (h : Alike t u) : reordered.Shape t u := by
  cases same_iff.mp h.equal with
  | object =>
      exact .object h.lookup fun written =>
        optionRel_of_isSome (fun _ _ _ => trivial) (h.isSome_find? fun n => !written n)
  | function => exact .function h.params h.result
  | _ => exact .other ⟨rfl, rfl⟩ ⟨rfl, rfl⟩

theorem lawful_reordered : reordered.Lawful where
  faults_refl _ := trivial
  mismatch _ _ _ := trivial
  literals h := congrArg Settings.literals h.1
  setEnv h _ _ := h
  descend := by
    rintro cx cy ⟨hsettings, hdepth⟩ span
    unfold Context.descend
    rw [hsettings, hdepth]
    split
    · exact linked_pure ⟨⟨⟨rfl, rfl⟩, rfl⟩, rfl, rfl⟩
    · exact linked_fail trivial
  checkBranches := by
    intro cx cy h count
    unfold Context.checkBranches
    rw [h.room.1]
    split
    · exact linked_pure trivial
    · exact linked_fail trivial
  types_refl := alike_refl
  shape := shape_of_alike
  object := alike_object
  function := alike_function
  isSubtype := Alike.isSubtype_eq
  onBranches := by
    intro cx cy h rule t u htu f g hfg
    refine linked_reordered_iff.mpr ⟨fun r => onBranches_alike h.room.1 htu hfg, fun s hs => ?_⟩
    obtain ⟨r, hr, hsr⟩ := onBranches_alike h.room.1.symm htu.symm
      (fun c b hcb => linked_alike_symm (hfg b c (Alike.symm hcb))) hs
    exact ⟨r, hr, hsr.symm⟩
  onPairs := by
    intro cx cy h rule l l' r r' hl hr f g hfg
    refine linked_reordered_iff.mpr ⟨fun t => onPairs_alike h.room.1 hl hr hfg, fun u hu => ?_⟩
    obtain ⟨t, ht, hut⟩ := onPairs_alike h.room.1.symm hl.symm hr.symm
      (fun b' b c' c hb hc => linked_alike_symm (hfg b b' c c' (Alike.symm hb) (Alike.symm hc))) hu
    exact ⟨t, ht, hut.symm⟩
  binary _ op _ _ _ _ hl hr := linked_binary_alike op hl hr
  logical op _ _ _ _ hl hr := Alike.logical op hl hr
  unary op _ _ htu := Alike.unary op htu

/-- The order of members is of no consequence. Bind the same names to types that differ in that order
only, and the same expressions have a type, again up to that order, and are accepted by such types. -/
theorem member_order_immaterial (e : Expr) (cx : Context) (env : Env)
    (henv : ∀ name, Option.Rel (fun t u => t.Reachable ∧ u.Reachable ∧ t.same u = true)
      (cx.env.get? name) (env.get? name)) :
    ((∃ t, (e.synth cx).result = .ok t) ↔ ∃ u, (e.synth { cx with env }).result = .ok u) ∧
    (∀ t u, (e.synth cx).result = .ok t → (e.synth { cx with env }).result = .ok u →
      t.same u = true) ∧
    ∀ t u : Ty, t.Reachable → u.Reachable → t.same u = true →
      ((e.check cx t).result = .ok () ↔ (e.check { cx with env } u).result = .ok ()) := by
  have hcompared : e.judgments.Compared reordered cx { cx with env } := by
    refine e.compared_judgments lawful_reordered ⟨rfl, rfl⟩ fun name _ => ?_
    refine optionRel_imp (fun t u h => ?_) (henv name)
    exact ⟨reachable_iff_canonical.mp h.1, reachable_iff_canonical.mp h.2.1, h.2.2⟩
  obtain ⟨hforth, hback⟩ := linked_reordered_iff.mp hcompared.synth
  refine ⟨⟨fun ⟨t, ht⟩ => ?_, fun ⟨u, hu⟩ => ?_⟩, fun t u ht hu => ?_, fun t u ht hu htu => ?_⟩
  · obtain ⟨u, hu, -⟩ := hforth t ht
    exact ⟨u, hu⟩
  · obtain ⟨t, ht, -⟩ := hback u hu
    exact ⟨t, ht⟩
  · obtain ⟨u', hu', htu⟩ := hforth t ht
    obtain rfl := Except.ok.inj (hu.symm.trans hu')
    exact htu.equal
  · have halike : Alike t u := ⟨reachable_iff_canonical.mp ht, reachable_iff_canonical.mp hu, htu⟩
    obtain ⟨hto, hfrom⟩ := linked_reordered_iff.mp (hcompared.check halike)
    refine ⟨fun h => ?_, fun h => ?_⟩
    · obtain ⟨_, h', -⟩ := hto () h
      exact h'
    · obtain ⟨_, h', -⟩ := hfrom () h
      exact h'

def pointOrNull : Ty := join [.object [("x", .number), ("y", .string)], .null]

def nullOrPoint : Ty := join [.null, .object [("y", .string), ("x", .number)]]

theorem member_order_immaterial_union :
    ((Expr.logical default .or (.ident default "p") (.ident default "p")).synth
        (.top (Env.empty.set "p" pointOrNull) {} default)).result = .ok pointOrNull ∧
    ∃ u, ((Expr.logical default .or (.ident default "p") (.ident default "p")).synth
        (.top (Env.empty.set "p" nullOrPoint) {} default)).result = .ok u ∧
      pointOrNull.same u = true := by
  have hxy : Reachable (.object [("x", .number), ("y", .string)]) :=
    .object (by decide) (by simp [Reachable.prim])
  have hyx : Reachable (.object [("y", .string), ("x", .number)]) :=
    .object (by decide) (by simp [Reachable.prim])
  have hpoint : pointOrNull.Reachable := .join (by simp [hxy, Reachable.prim])
  have hnull : nullOrPoint.Reachable := .join (by simp [hyx, Reachable.prim])
  have hsame : pointOrNull.same nullOrPoint = true := by decide +kernel
  have hfound : ((Expr.logical default .or (.ident default "p") (.ident default "p")).synth
      (.top (Env.empty.set "p" pointOrNull) {} default)).result = .ok pointOrNull := by
    with_unfolding_all rfl
  have henv (name : String) :
      Option.Rel (fun t u => t.Reachable ∧ u.Reachable ∧ t.same u = true)
        ((Env.empty.set "p" pointOrNull).get? name) ((Env.empty.set "p" nullOrPoint).get? name) := by
    rw [Env.get?_set, Env.get?_set]
    split
    · exact .some ⟨hpoint, hnull, hsame⟩
    · exact .none
  obtain ⟨hsome, hall, -⟩ := member_order_immaterial
    (.logical default .or (.ident default "p") (.ident default "p"))
    (.top (Env.empty.set "p" pointOrNull) {} default) (Env.empty.set "p" nullOrPoint) henv
  obtain ⟨u, hu⟩ := hsome.mp ⟨pointOrNull, hfound⟩
  exact ⟨hfound, u, hu, hall _ u hfound hu⟩

end Structura
