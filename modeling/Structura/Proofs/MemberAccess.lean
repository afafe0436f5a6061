import Structura.Proofs.AdditiveOperators

namespace Structura

open Ty

namespace Traced

variable {α β : Type} {f : α → Traced β} {as : List α} {d : Diagnostic}

/-- A run over a list that can only fail in one way fails in this way as soon as one entry does. -/
theorem each_eq_error (hbad : ∀ a ∈ as, (f a).Ends (fun _ => True) (· = d))
    (hfails : ∃ a ∈ as, (f a).result = .error d) : (each f as).result = .error d := by
  induction as with
  | nil =>
      obtain ⟨a, ha, -⟩ := hfails
      cases ha
  | cons a as ih =>
      rw [each]
      cases hresult : (f a).result with
      | error e =>
          rw [result_bind_error hresult, (hbad a List.mem_cons_self).error hresult]
      | ok b =>
          have hrest : ∃ c ∈ as, (f c).result = .error d := by
            obtain ⟨c, hc, hfail⟩ := hfails
            rcases List.mem_cons.mp hc with rfl | hc
            · rw [hresult] at hfail
              cases hfail
            · exact ⟨c, hc, hfail⟩
          rw [result_bind_ok hresult,
            result_bind_error (ih (fun c hc => hbad c (List.mem_cons_of_mem a hc)) hrest)]

end Traced

theorem Context.onBranches_eq_error {cx : Context} {rule : Rule} {t : Ty} {body : Ty → Traced Ty}
    {d : Diagnostic} (hroom : cx.AffordsBranches t)
    (hbad : ∀ b ∈ t.branches, (body b).Ends (fun _ => True) (· = d))
    (hfails : ∃ b ∈ t.branches, (body b).result = .error d) :
    (cx.onBranches rule t body).result = .error d := by
  cases t with
  | union members =>
      have hcount : (cx.checkBranches members.length).result = .ok () := checkBranches_eq_ok.mpr (hroom rfl)
      rw [onBranches, Traced.result_bind_ok hcount]
      exact Traced.result_bind_error
        (Traced.each_eq_error (fun b hb => Traced.ends_record.mpr (hbad b hb)) hfails) _
  | _ =>
      obtain ⟨b, hb, hfail⟩ := hfails
      rw [List.mem_singleton.mp hb] at hfail
      exact hfail

namespace Rules

variable {object : Expr} {name : Name} {s t r : Ty}

def property (object : Expr) (name : Name) : Ty → Traced Ty
  | .object properties =>
      match properties.lookup name.text with
      | some t => pure t
      | none => .fail (.noSuchProperty name.text) name.span
  | _ => .fail .memberOfNonObject object.span

theorem member_eq (object : Expr) (judged : Judgments) (name : Name) (cx : Context) :
    member object judged name cx =
      judged.synth cx >>= fun t => cx.onBranches .onMember t (property object name) :=
  rfl

theorem result_member {judged : Judgments} {cx : Context} (h : (judged.synth cx).result = .ok t) :
    (member object judged name cx).result =
      (cx.onBranches .onMember t (property object name)).result := by
  rw [member_eq, Traced.result_bind_ok h]

theorem property_eq_ok :
    (property object name t).result = .ok r ↔ ∃ ps, t = .object ps ∧ ps.lookup name.text = some r := by
  constructor
  · intro h
    cases t with
    | object ps =>
        refine ⟨ps, rfl, ?_⟩
        rw [property] at h
        cases hlookup : ps.lookup name.text with
        | some u =>
            rw [hlookup] at h
            exact congrArg some (Except.ok.inj h)
        | none =>
            rw [hlookup] at h
            cases h
    | _ => cases h
  · rintro ⟨ps, rfl, hlookup⟩
    rw [property, hlookup]
    rfl

theorem canonical_property (ht : Canonical t) (h : (property object name t).result = .ok r) : r.Canonical := by
  obtain ⟨ps, rfl, hlookup⟩ := property_eq_ok.mp h
  exact ht.property (mem_of_lookup hlookup)

theorem property_inter (h : t.isInter = true) :
    (property object name t).result = .error (.located .memberOfNonObject object.span) := by
  cases t with
  | inter => rfl
  | _ => cases h

theorem not_isInter_of_property (h : (property object name t).result = .ok r) : t.isInter = false := by
  obtain ⟨ps, rfl, -⟩ := property_eq_ok.mp h
  rfl

/-- The first type is below the second without being an intersection. -/
structure PlainlyNarrows (s t : Ty) : Prop where
  narrows : Narrows s t
  plain : s.isInter = false

/-- What is below an object and no intersection is an object with these properties and perhaps more. -/
theorem PlainlyNarrows.exists_object {qs : List (String × Ty)} (h : PlainlyNarrows s (.object qs)) :
    ∃ ps, s = .object ps ∧ ∀ n t, (n, t) ∈ qs → ∃ u, (n, u) ∈ ps ∧ isSubtype u t = true := by
  obtain ⟨f, hf, hbelow⟩ := h.narrows.exists_factor rfl
  rw [factors_of_not_isInter h.plain, List.mem_singleton] at hf
  subst hf
  cases hbelow with
  | object hproperties => exact ⟨_, rfl, hproperties⟩

theorem ascends_property (object : Expr) (name : Name) :
    Traced.Ascends PlainlyNarrows (property object name) where
  canonical h hr := canonical_property h.narrows.lower.canonical hr
  mono := by
    intro s t r h hr
    obtain ⟨qs, rfl, hlookup⟩ := property_eq_ok.mp hr
    obtain ⟨ps, rfl, hproperties⟩ := h.exists_object
    obtain ⟨u, hu, hur⟩ := hproperties name.text r (mem_of_lookup hlookup)
    obtain ⟨v, hv⟩ := exists_lookup hu
    obtain rfl := h.narrows.lower.canonical.property_unique hu (mem_of_lookup hv)
    exact ⟨u, property_eq_ok.mpr ⟨ps, rfl, hv⟩, hur⟩

variable {cx cx' : Context} {u : Ty}

theorem onBranches_property_eq_ok (ht : Operand t) :
    (cx.onBranches .onMember t (property object name)).result = .ok u ↔
      cx.AffordsBranches t ∧ Traced.Joins (property object name) t.branches u :=
  Context.onBranches_eq_ok fun _ hb _ => canonical_property (ht.concrete hb).canonical

section Below

variable (hs : Operand s) (ht : Operand t) (hst : isSubtype s t = true) (hroom : cx.AffordsBranches s)
  (h : (cx'.onBranches .onMember t (property object name)).result = .ok u)
include hs ht hst hroom h

/-- Access that succeeds on a type succeeds on a smaller type without intersections among its branches. -/
theorem onBranches_property_mono (hplain : ∀ b ∈ s.branches, b.isInter = false) :
    ∃ v, (cx.onBranches .onMember s (property object name)).result = .ok v ∧ isSubtype v u = true := by
  obtain ⟨-, hjoins⟩ := (onBranches_property_eq_ok ht).mp h
  have hupper : ∀ c ∈ t.branches, PlainlyNarrows c c := by
    intro c hc
    obtain ⟨r, hr⟩ := Traced.exists_joins.mp ⟨u, hjoins⟩ c hc
    exact ⟨ht.narrows_self c hc, not_isInter_of_property hr⟩
  have hcover : ∀ b ∈ s.branches, ∃ c ∈ t.branches, PlainlyNarrows b c := by
    intro b hb
    obtain ⟨c, hc, hbc⟩ := hs.exists_narrows ht hst b hb
    exact ⟨c, hc, hbc, hplain b hb⟩
  obtain ⟨v, hv, hvu⟩ := (ascends_property object name).joins_mono
    (fun b hb => ⟨hs.narrows_self b hb, hplain b hb⟩) hupper hcover hjoins
  exact ⟨v, (onBranches_property_eq_ok hs).mpr ⟨hroom, hv⟩, hvu⟩

/-- On the other smaller types it is refused, for no other reason than the intersection. -/
theorem onBranches_property_inter (hinter : ∃ b ∈ s.branches, b.isInter = true) :
    (cx.onBranches .onMember s (property object name)).result =
      .error (.located .memberOfNonObject object.span) := by
  obtain ⟨-, hjoins⟩ := (onBranches_property_eq_ok ht).mp h
  refine Context.onBranches_eq_error hroom (fun b hb => ?_) ?_
  · unfold Traced.Ends
    cases hplain : b.isInter with
    | true => rw [property_inter hplain]
    | false =>
        obtain ⟨c, hc, hbc⟩ := hs.exists_narrows ht hst b hb
        obtain ⟨r, hr⟩ := Traced.exists_joins.mp ⟨u, hjoins⟩ c hc
        obtain ⟨v, hv, -⟩ := (ascends_property object name).mono ⟨hbc, hplain⟩ hr
        rw [hv]
        trivial
  · obtain ⟨b, hb, hplain⟩ := hinter
    exact ⟨b, hb, property_inter hplain⟩

end Below

/-- Access to a property that succeeds on a type gives a smaller type on what is below, unless one of the branches
below is an intersection: these are no objects, and access is refused on them. -/
theorem member_respects_subtyping {object : Expr} {above below : Judgments} {name : Name} {cx cx' : Context}
    {s t u : Ty} (habove : (above.synth cx').result = .ok t) (hbelow : (below.synth cx).result = .ok s)
    (hs : Reachable s) (ht : Reachable t) (hne : s ≠ .never) (hst : isSubtype s t = true)
    (hroom : cx.AffordsBranches s) (h : (member object above name cx').result = .ok u) :
    ((∀ b ∈ s.branches, b.isInter = false) →
      ∃ v, (member object below name cx).result = .ok v ∧ isSubtype v u = true) ∧
    ((∃ b ∈ s.branches, b.isInter = true) →
      (member object below name cx).result = .error (.located .memberOfNonObject object.span)) := by
  have hs := hs.operand hne
  have ht := hs.of_isSubtype (reachable_iff_canonical.mp ht) hst
  rw [result_member habove] at h
  rw [result_member hbelow]
  exact ⟨onBranches_property_mono hs ht hst hroom h, onBranches_property_inter hs ht hst hroom h⟩

def identA : Expr := .ident default "a"

def bindingA (t : Ty) : Context := .top (Env.empty.set "a" t) {} default

theorem synth_identA (t : Ty) : (identA.judgments.synth (bindingA t)).result = .ok t := rfl

def nameX : Name := ⟨"x", default⟩

def textOrTruth : Ty := .union [.object [("x", .string)], .object [("x", .boolean)]]

def narrowed : Ty :=
  .union [.object [("x", .literal (.boolean true))], .object [("y", .null), ("x", .literal (.string "b"))]]

def textAndNull : Ty := .inter [.object [("x", .string)], .object [("y", .null)]]

theorem reachable_textOrTruth : Reachable textOrTruth := by
  have hjoin : textOrTruth = join [.object [("x", .string)], .object [("x", .boolean)]] := by
    with_unfolding_all rfl
  rw [hjoin]
  exact .join (by simp [Reachable.object, Reachable.prim])

theorem reachable_narrowed : Reachable narrowed := by
  have hjoin : narrowed = join [.object [("x", .literal (.boolean true))],
      .object [("y", .null), ("x", .literal (.string "b"))]] := by
    with_unfolding_all rfl
  rw [hjoin]
  exact .join (by simp [Reachable.object, Reachable.prim, Reachable.literal])

theorem reachable_textAndNull : Reachable textAndNull := by
  have hmeet : textAndNull = meet [.object [("x", .string)], .object [("y", .null)]] := by
    with_unfolding_all rfl
  rw [hmeet]
  exact .meet (by simp [Reachable.object, Reachable.prim])

theorem member_respects_subtyping_unions :
    (∃ v, (member identA identA.judgments nameX (bindingA narrowed)).result = .ok v ∧
      isSubtype v (.union [.string, .boolean]) = true) ∧
    (member identA identA.judgments nameX (bindingA textAndNull)).result =
      .error (.located .memberOfNonObject default) := by
  have haccepted : (member identA identA.judgments nameX (bindingA textOrTruth)).result =
      .ok (.union [.string, .boolean]) := by
    with_unfolding_all rfl
  refine ⟨?_, ?_⟩
  · refine (member_respects_subtyping (synth_identA _) (synth_identA _) reachable_narrowed
      reachable_textOrTruth (by simp [narrowed]) (by decide +kernel) (by decide +kernel) haccepted).1 ?_
    simp [narrowed, branches, isInter]
  · refine (member_respects_subtyping (synth_identA _) (synth_identA _) reachable_textAndNull
      reachable_textOrTruth (by simp [textAndNull]) (by decide +kernel) (by decide +kernel) haccepted).2 ?_
    simp [textAndNull, branches, isInter]

/-- An intersection of objects is below its first member, and has no properties. -/
theorem member_not_monotone_on_intersection :
    (identA.judgments.synth (bindingA (.object [("x", .string)]))).result = .ok (.object [("x", .string)]) ∧
    (identA.judgments.synth (bindingA textAndNull)).result = .ok textAndNull ∧
    Reachable textAndNull ∧ Reachable (.object [("x", .string)]) ∧ textAndNull ≠ .never ∧
    isSubtype textAndNull (.object [("x", .string)]) = true ∧
    (bindingA textAndNull).AffordsBranches textAndNull ∧
    (member identA identA.judgments nameX (bindingA (.object [("x", .string)]))).result = .ok .string ∧
    ¬∃ v, (member identA identA.judgments nameX (bindingA textAndNull)).result = .ok v ∧
      isSubtype v .string = true := by
  refine ⟨rfl, rfl, reachable_textAndNull, ?_, by simp [textAndNull], by decide +kernel, by decide +kernel,
    rfl, ?_⟩
  · simp [Reachable.object, Reachable.prim]
  · rintro ⟨v, hv, -⟩
    cases hv

end Rules

end Structura
