import Mathlib.Data.List.Pairwise
import Structura.Proofs.Normalization
import Structura.Proofs.SameCases

namespace Structura.Ty

/-- Distinct entries on the left that never share a partner on the right. -/
theorem length_le_of_separated {α β : Type} {R : α → β → Prop} {xs : List α} {ys : List β}
    (hsep : xs.Pairwise fun x x' => ∀ y ∈ ys, R x y → ¬R x' y)
    (hR : ∀ x ∈ xs, ∃ y ∈ ys, R x y) : xs.length ≤ ys.length := by
  induction xs generalizing ys with
  | nil => simp
  | cons x xs ih =>
      obtain ⟨y, hy, hxy⟩ := hR x (by simp)
      obtain ⟨l, r, rfl⟩ := List.append_of_mem hy
      obtain ⟨hx, htail⟩ := List.pairwise_cons.mp hsep
      have hmem {z : β} (hz : z ∈ l ++ r) : z ∈ l ++ y :: r := by
        rcases List.mem_append.mp hz with h | h <;> simp [h]
      have hle : xs.length ≤ (l ++ r).length := by
        refine ih (htail.imp fun h z hz => h z (hmem hz)) fun x' hx' => ?_
        obtain ⟨z, hz, hxz⟩ := hR x' (by simp [hx'])
        have hne : z ≠ y := by
          rintro rfl
          exact hx x' hx' z hy hxy hxz
        exact ⟨z, by simpa [hne] using hz, hxz⟩
      simp only [List.length_append, List.length_cons] at hle ⊢
      omega

def Mutual (t u : Ty) : Prop := isSubtype t u = true ∧ isSubtype u t = true

theorem length_le_of_mutual {ts us : List Ty} (hts : ∀ t ∈ ts, Canonical t)
    (hus : ∀ u ∈ us, Canonical u) (apart : ts.Pairwise Apart)
    (h : ∀ t ∈ ts, ∃ u ∈ us, Mutual t u) : ts.length ≤ us.length := by
  refine length_le_of_separated (apart.imp_of_mem fun ht ht' hap u hu htu ht'u => ?_) h
  have := isSubtype_trans (hts _ ht) (hus u hu) (hts _ ht') htu.1 ht'u.2
  simp [hap.1] at this

/-- Going along `le` from a member to the other list and back comes home, as no other member is
comparable. Unions are compared upwards and intersections downwards, hence the parameter. -/
theorem exists_mutual {le : Ty → Ty → Prop}
    (htrans : ∀ {a b c}, Canonical a → Canonical b → Canonical c → le a b → le b c → le a c)
    (hcomp : ∀ {a b}, le a b → ¬Apart a b) (hmut : ∀ {a b}, le a b → le b a → Mutual a b)
    {ts us : List Ty} (hts : ∀ t ∈ ts, Canonical t) (hus : ∀ u ∈ us, Canonical u)
    (apart : ts.Pairwise Apart) (hto : ∀ t ∈ ts, ∃ u ∈ us, le t u)
    (hfrom : ∀ u ∈ us, ∃ t ∈ ts, le u t) : ∀ t ∈ ts, ∃ u ∈ us, Mutual t u := by
  intro t ht
  obtain ⟨u, hu, htu⟩ := hto t ht
  obtain ⟨t', ht', hut⟩ := hfrom u hu
  have htt := htrans (hts t ht) (hus u hu) (hts t' ht') htu hut
  obtain rfl : t = t' := by
    have : Std.Symm Apart := ⟨fun _ _ => Apart.symm⟩
    by_contra hne
    exact hcomp htt (apart.forall ht ht' hne)
  exact ⟨u, hu, hmut htu hut⟩

theorem sameMembers_of_mutual {ts us : List Ty} (hts : ∀ t ∈ ts, Canonical t)
    (hus : ∀ u ∈ us, Canonical u) (hta : ts.Pairwise Apart) (hua : us.Pairwise Apart)
    (ht : ∀ t ∈ ts, ∃ u ∈ us, Mutual t u) (hu : ∀ u ∈ us, ∃ t ∈ ts, Mutual u t)
    (hsame : ∀ t ∈ ts, ∀ u ∈ us, Mutual t u → same t u = true) : SameMembers ts us := by
  refine ⟨Nat.le_antisymm (length_le_of_mutual hts hus hta ht)
    (length_le_of_mutual hus hts hua hu), fun t h => ?_, fun u h => ?_⟩
  · obtain ⟨u, hu, hm⟩ := ht t h
    exact ⟨u, hu, hsame t h u hu hm⟩
  · obtain ⟨t, ht, hm⟩ := hu u h
    exact ⟨t, ht, hsame t ht u h hm.symm⟩

theorem union_members_mutual {ts us : List Ty} (ha : Canonical (.union ts))
    (hb : Canonical (.union us)) (h : Mutual (.union ts) (.union us)) :
    ∀ t ∈ ts, ∃ u ∈ us, Mutual t u := by
  refine exists_mutual (fun ha hb hc hab hbc => isSubtype_trans ha hb hc hab hbc)
    (fun hab hap => by simp [hap.1] at hab) (fun hab hba => ⟨hab, hba⟩)
    (fun _ => ha.branch) (fun _ => hb.branch) ha.union_apart (fun t ht => ?_) fun u hu => ?_
  · exact (isSubtype_union_right (ha.alternative ht)).mp (isSubtype_union_left.mp h.1 t ht)
  · exact (isSubtype_union_right (hb.alternative hu)).mp (isSubtype_union_left.mp h.2 u hu)

theorem inter_members_mutual {ts us : List Ty} (ha : Canonical (.inter ts))
    (hb : Canonical (.inter us)) (h : Mutual (.inter ts) (.inter us)) :
    ∀ t ∈ ts, ∃ u ∈ us, Mutual t u := by
  refine exists_mutual (fun ha hb hc hab hbc => isSubtype_trans hc hb ha hbc hab)
    (fun hab hap => by simp [hap.2] at hab) (fun hab hba => ⟨hba, hab⟩)
    (fun _ => ha.factor) (fun _ => hb.factor) ha.inter_apart (fun t ht => ?_) fun u hu => ?_
  · exact (isSubtype_inter_left (ha.basic ht)).mp (isSubtype_inter_right.mp h.2 t ht)
  · exact (isSubtype_inter_left (hb.basic hu)).mp (isSubtype_inter_right.mp h.1 u hu)

/-- One alternative cannot stand for two incomparable ones. -/
theorem union_not_mutual {ts : List Ty} {b : Ty} (ha : Canonical (.union ts)) (hb : Canonical b)
    (halt : b.isAlternative = true) : ¬Mutual (.union ts) b := by
  rintro ⟨hab, hba⟩
  obtain ⟨t, ht, hbt⟩ := (isSubtype_union_right halt).mp hba
  cases ha with
  | union two members alternatives apart =>
      obtain ⟨u, hu, hap⟩ := exists_apart two apart ht
      have := isSubtype_trans (members u hu) hb (members t ht)
        (isSubtype_union_left.mp hab u hu) hbt
      simp [hap.2] at this

theorem inter_not_mutual {ts : List Ty} {b : Ty} (ha : Canonical (.inter ts)) (hb : Canonical b)
    (hbasic : b.isBasic = true) : ¬Mutual (.inter ts) b := by
  rintro ⟨hab, hba⟩
  obtain ⟨t, ht, htb⟩ := (isSubtype_inter_left hbasic).mp hab
  cases ha with
  | inter two members alike apart compatible =>
      obtain ⟨u, hu, hap⟩ := exists_apart two apart ht
      have := isSubtype_trans (members t ht) hb (members u hu) htb
        (isSubtype_inter_right.mp hba u hu)
      simp [hap.1] at this

theorem BasicBelow.same {a b : Ty}
    (ih : ∀ x y : Ty, sizeOf x + sizeOf y < sizeOf a + sizeOf b → Canonical x → Canonical y →
      Mutual x y → same x y = true)
    (ha : Canonical a) (hb : Canonical b) (hab : BasicBelow a b) (hba : BasicBelow b a) :
    same a b = true := by
  refine same_iff.mpr ?_
  cases hab with
  | prim p => exact .prim p
  | literal h => exact .literal h
  | base v => cases hba
  | @object ps qs hpq =>
      cases hba with
      | object hqp =>
          have hmut {n : String} {s t : Ty} (hs : (n, s) ∈ ps) (ht : (n, t) ∈ qs) : Mutual s t := by
            obtain ⟨s', hs', hst⟩ := hpq n t ht
            obtain ⟨t', ht', hts⟩ := hqp n s hs
            obtain rfl := ha.property_unique hs' hs
            obtain rfl := hb.property_unique ht' ht
            exact ⟨hst, hts⟩
          refine .object (Nat.le_antisymm ?_ ?_) fun n s hs => ?_
          · simpa using (names_subperm ha fun n s hs => (hqp n s hs).imp fun _ => And.left).length_le
          · simpa using (names_subperm hb fun n t ht => (hpq n t ht).imp fun _ => And.left).length_le
          · obtain ⟨t, ht, -⟩ := hqp n s hs
            have h₁ := sizeOf_lt_object hs
            have h₂ := sizeOf_lt_object ht
            exact ⟨t, ht, ih s t (by omega) (ha.property hs) (hb.property ht) (hmut hs ht)⟩
  | @function ps qs r s hl hp hr =>
      cases hba with
      | function _ hp' hr' =>
          refine .function hl (fun i p q hi hj => ?_) ?_
          · have hpm := List.mem_of_getElem? hi
            have hqm := List.mem_of_getElem? hj
            have h₁ := sizeOf_lt_param (r := r) hpm
            have h₂ := sizeOf_lt_param (r := s) hqm
            exact ih p q (by omega) (ha.param hpm) (hb.param hqm)
              ⟨hp' i q p hj hi, hp i p q hi hj⟩
          · have h₁ := sizeOf_lt_result ps r
            have h₂ := sizeOf_lt_result qs s
            exact ih r s (by omega) ha.result hb.result ⟨hr, hr'⟩

theorem same_of_mutual {a b : Ty} (ha : Canonical a) (hb : Canonical b) (h : Mutual a b) :
    same a b = true := by
  induction hn : sizeOf a + sizeOf b using Nat.strongRecOn generalizing a b with
  | _ n ih =>
      subst hn
      rcases a.shape with rfl | rfl | ⟨ts, rfl⟩ | halta
      · rw [eq_never_of_isSubtype hb h.2]
        exact same_iff.mpr .never
      · rw [eq_unknown_of_isSubtype hb h.1]
        exact same_iff.mpr .unknown
      · rcases b.shape with rfl | rfl | ⟨us, rfl⟩ | haltb
        · cases eq_never_of_isSubtype ha h.1
        · cases eq_unknown_of_isSubtype ha h.2
        · refine same_union.mpr (sameMembers_of_mutual (fun _ => ha.branch) (fun _ => hb.branch)
            ha.union_apart hb.union_apart (union_members_mutual ha hb h)
            (union_members_mutual hb ha h.symm) fun t ht u hu hm => ?_)
          have h₁ := sizeOf_lt_union ht
          have h₂ := sizeOf_lt_union hu
          exact ih _ (by omega) (ha.branch ht) (hb.branch hu) hm rfl
        · exact absurd h (union_not_mutual ha hb haltb)
      rcases b.shape with rfl | rfl | ⟨us, rfl⟩ | haltb
      · rw [eq_never_of_isSubtype ha h.1]
        exact same_iff.mpr .never
      · rw [eq_unknown_of_isSubtype ha h.2]
        exact same_iff.mpr .unknown
      · exact absurd h.symm (union_not_mutual hb ha halta)
      rcases alternative_shape halta with ⟨ts, rfl⟩ | hbasica
      · rcases alternative_shape haltb with ⟨us, rfl⟩ | hbasicb
        · refine same_inter.mpr (sameMembers_of_mutual (fun _ => ha.factor) (fun _ => hb.factor)
            ha.inter_apart hb.inter_apart (inter_members_mutual ha hb h)
            (inter_members_mutual hb ha h.symm) fun t ht u hu hm => ?_)
          have h₁ := sizeOf_lt_inter ht
          have h₂ := sizeOf_lt_inter hu
          exact ih _ (by omega) (ha.factor ht) (hb.factor hu) hm rfl
        · exact absurd h (inter_not_mutual ha hb hbasicb)
      rcases alternative_shape haltb with ⟨us, rfl⟩ | hbasicb
      · exact absurd h.symm (inter_not_mutual hb ha hbasica)
      · exact BasicBelow.same (fun x y hlt hx hy hm => ih _ hlt hx hy hm rfl) ha hb
          ((isSubtype_basic hbasica hbasicb).mp h.1) ((isSubtype_basic hbasicb hbasica).mp h.2)

theorem mutual_iff_same {a b : Ty} (ha : Canonical a) (hb : Canonical b) :
    Mutual a b ↔ same a b = true :=
  ⟨same_of_mutual ha hb, isSubtype_of_same ha hb⟩

/-- Reachable types are subtypes of each other only if they differ in nothing but the order of their
parts, and to differ in nothing else is an equivalence. -/
theorem antisymmetric_up_to_order :
    (∀ a b : Ty, Reachable a → Reachable b →
      (isSubtype a b = true ∧ isSubtype b a = true ↔ same a b = true)) ∧
    Equivalence fun a b : {t : Ty // Reachable t} => same a.1 b.1 = true := by
  have hiff {a b : Ty} (ha : Reachable a) (hb : Reachable b) : Mutual a b ↔ same a b = true :=
    mutual_iff_same (reachable_iff_canonical.mp ha) (reachable_iff_canonical.mp hb)
  refine ⟨fun a b ha hb => hiff ha hb, ?_, ?_, ?_⟩
  · intro a
    have := isSubtype_refl (reachable_iff_canonical.mp a.2)
    exact (hiff a.2 a.2).mp ⟨this, this⟩
  · intro a b hab
    exact (hiff b.2 a.2).mp ((hiff a.2 b.2).mpr hab).symm
  · intro a b c hab hbc
    obtain ⟨h₁, h₂⟩ := (hiff a.2 b.2).mpr hab
    obtain ⟨h₃, h₄⟩ := (hiff b.2 c.2).mpr hbc
    have htrans {x y z : {t : Ty // Reachable t}} :=
      isSubtype_trans (reachable_iff_canonical.mp x.2) (reachable_iff_canonical.mp y.2)
        (reachable_iff_canonical.mp z.2)
    exact (hiff a.2 c.2).mp ⟨htrans h₁ h₃, htrans h₄ h₂⟩

theorem antisymmetric_up_to_order_object :
    same (join [.object [("x", .number), ("y", .string)], .null])
        (join [.null, .object [("y", .string), ("x", .number)]]) = true ∧
      same (join [.null, .object [("y", .string), ("x", .number)]])
        (join [.object [("x", .number), ("y", .string)], .null]) = true := by
  have hxy : Reachable (.object [("x", .number), ("y", .string)]) :=
    .object (by decide) (by simp [Reachable.prim])
  have hyx : Reachable (.object [("y", .string), ("x", .number)]) :=
    .object (by decide) (by simp [Reachable.prim])
  have ha : Reachable (join [.object [("x", .number), ("y", .string)], .null]) :=
    .join (by simp [hxy, Reachable.prim])
  have hb : Reachable (join [.null, .object [("y", .string), ("x", .number)]]) :=
    .join (by simp [hyx, Reachable.prim])
  have h := (antisymmetric_up_to_order.1 _ _ ha hb).mp ⟨by decide +kernel, by decide +kernel⟩
  exact ⟨h, antisymmetric_up_to_order.2.symm (x := ⟨_, ha⟩) (y := ⟨_, hb⟩) h⟩

end Structura.Ty
