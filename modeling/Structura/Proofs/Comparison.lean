import Structura.Judgment
import Structura.Proofs.CanonicalRules
import Structura.Proofs.Successes

/-!
Two runs of the checker side by side. A comparison says which types, diagnostics and limits of the two
runs may stand for each other, and it is lawful if no rule can tell them apart. Annotations mention no
names that are bound, so they are converted alike under every lawful comparison.
-/

namespace Structura

structure Comparison where
  types : Ty → Ty → Prop
  faults : Diagnostic → Diagnostic → Prop
  /-- After these diagnostics of the first run nothing is asked of the second. -/
  excused : Diagnostic → Prop
  /-- How far the two runs may go. The bindings do not count. -/
  rooms : Context → Context → Prop

namespace Comparison

open Traced

variable {K : Comparison} {α β γ δ : Type} {like : α → β → Prop} {last : γ → δ → Prop}

/-- The two computations end alike, unless the first one is excused. -/
def Linked (K : Comparison) (like : α → β → Prop) (x : Traced α) (y : Traced β) : Prop :=
  (∃ d, x.result = .error d ∧ K.excused d) ∨
    (∃ d e, x.result = .error d ∧ y.result = .error e ∧ K.faults d e) ∨
      ∃ a b, x.result = .ok a ∧ y.result = .ok b ∧ like a b

theorem linked_pure {a : α} {b : β} (h : like a b) :
    K.Linked like (pure a : Traced α) (pure b : Traced β) :=
  Or.inr (Or.inr ⟨a, b, rfl, rfl, h⟩)

theorem linked_fail {f g : Fault} {r s : Span} (h : K.faults (.located f r) (.located g s)) :
    K.Linked like (fail f r : Traced α) (fail g s : Traced β) :=
  Or.inr (Or.inl ⟨_, _, rfl, rfl, h⟩)

theorem linked_excused {f : Fault} {s : Span} (h : K.excused (.located f s)) (y : Traced β) :
    K.Linked like (fail f s : Traced α) y :=
  Or.inl ⟨_, rfl, h⟩

theorem Linked.bind {x : Traced α} {y : Traced β} {f : α → Traced γ} {g : β → Traced δ}
    (hxy : K.Linked like x y) (hfg : ∀ a b, like a b → K.Linked last (f a) (g b)) :
    K.Linked last (x >>= f) (y >>= g) := by
  rcases hxy with ⟨d, hx, hd⟩ | ⟨d, e, hx, hy, hde⟩ | ⟨a, b, hx, hy, hab⟩
  · exact Or.inl ⟨d, result_bind_error hx f, hd⟩
  · exact Or.inr (Or.inl ⟨d, e, result_bind_error hx f, result_bind_error hy g, hde⟩)
  · have h := hfg a b hab
    rwa [Linked, ← result_bind_ok hx f, ← result_bind_ok hy g] at h

theorem Linked.map {x : Traced α} {y : Traced β} {f : α → γ} {g : β → δ} (hxy : K.Linked like x y)
    (hfg : ∀ a b, like a b → last (f a) (g b)) : K.Linked last (f <$> x) (g <$> y) :=
  hxy.bind (f := fun a => pure (f a)) (g := fun b => pure (g b)) fun a b hab =>
    linked_pure (hfg a b hab)

theorem Linked.record {x : Traced α} {y : Traced β} (h : K.Linked like x y) {rule rule' : Rule}
    {subject subject' : Subject} {value : α → Outcome} {value' : β → Outcome} :
    K.Linked like (x.record rule subject value) (y.record rule' subject' value') :=
  h

theorem Linked.each {f : α → Traced γ} {g : β → Traced δ} {as : List α} {bs : List β}
    (hlists : List.Forall₂ like as bs) (h : ∀ a b, like a b → K.Linked last (f a) (g b)) :
    K.Linked (List.Forall₂ last) (each f as) (each g bs) := by
  induction hlists with
  | nil => exact linked_pure .nil
  | cons hab _ ih =>
      refine (h _ _ hab).bind fun c d hcd => ih.bind fun cs ds hcds => ?_
      exact linked_pure (.cons hcd hcds)

structure Inside (K : Comparison) (cx cy : Context) : Prop where
  room : K.rooms cx cy
  span : cx.span = cy.span

/-- What the rules for objects and functions see of two types. Of the properties that are not written
the first one is reported. -/
inductive Shape (K : Comparison) : Ty → Ty → Prop
  | object {ps qs : List (String × Ty)}
      (types : ∀ name, Option.Rel K.types (ps.lookup name) (qs.lookup name))
      (missing : ∀ written : String → Bool, Option.Rel
        (fun p q => ∀ span, K.faults (.located (.missingProperty p.1) span)
          (.located (.missingProperty q.1) span))
        (ps.find? fun p => !written p.1) (qs.find? fun q => !written q.1)) :
      Shape K (.object ps) (.object qs)
  | function {ps qs : List Ty} {r s : Ty} (params : List.Forall₂ K.types ps qs)
      (result : K.types r s) : Shape K (.function ps r) (.function qs s)
  | other {t u : Ty} (objects : t.isObject = false ∧ u.isObject = false)
      (functions : t.isFunction = false ∧ u.isFunction = false) : Shape K t u

/-- No rule can tell types, diagnostics and limits apart that stand for each other. -/
structure Lawful (K : Comparison) : Prop where
  faults_refl (d : Diagnostic) : K.faults d d
  mismatch {t t' s s' : Ty} (ht : K.types t t') (hs : K.types s s') (span : Span) :
    K.faults (.located (.mismatch t s) span) (.located (.mismatch t' s') span)
  literals {cx cy : Context} (h : K.rooms cx cy) : cx.settings.literals = cy.settings.literals
  setEnv {cx cy : Context} (h : K.rooms cx cy) (env env' : Env) :
    K.rooms { cx with env } { cy with env := env' }
  descend {cx cy : Context} (h : K.rooms cx cy) (span : Span) :
    K.Linked (fun inner inner' => K.Inside inner inner' ∧ inner.env = cx.env ∧ inner'.env = cy.env)
      (cx.descend span) (cy.descend span)
  checkBranches {cx cy : Context} (h : K.Inside cx cy) (count : Nat) :
    K.Linked (fun _ _ => True) (cx.checkBranches count) (cy.checkBranches count)
  types_refl {t : Ty} (ht : t.Canonical) : K.types t t
  shape {t u : Ty} (h : K.types t u) : K.Shape t u
  object {ps qs : List (String × Ty)} (names : (ps.map Prod.fst).Nodup)
    (h : List.Forall₂ (fun p q => p.1 = q.1 ∧ K.types p.2 q.2) ps qs) :
    K.types (.object ps) (.object qs)
  function {ps qs : List Ty} {r s : Ty} (params : List.Forall₂ K.types ps qs)
    (result : K.types r s) : K.types (.function ps r) (.function qs s)
  isSubtype {s s' t t' : Ty} (hs : K.types s s') (ht : K.types t t') :
    s.isSubtype t = s'.isSubtype t'
  onBranches {cx cy : Context} (h : K.Inside cx cy) (rule : Rule) {t u : Ty} (ht : K.types t u)
    {f g : Ty → Traced Ty} (hfg : ∀ b c, K.types b c → K.Linked K.types (f b) (g c)) :
    K.Linked K.types (cx.onBranches rule t f) (cy.onBranches rule u g)
  onPairs {cx cy : Context} (h : K.Inside cx cy) (rule : Rule) {l l' r r' : Ty}
    (hl : K.types l l') (hr : K.types r r') {f g : Ty → Ty → Traced Ty}
    (hfg : ∀ b b' c c', K.types b b' → K.types c c' → K.Linked K.types (f b c) (g b' c')) :
    K.Linked K.types (cx.onPairs rule l r f) (cy.onPairs rule l' r' g)
  binary {cx cy : Context} (h : K.Inside cx cy) (op : BinaryOp) {l l' r r' : Ty}
    (hl : K.types l l') (hr : K.types r r') :
    K.Linked K.types (op.apply cx l r) (op.apply cy l' r')
  logical (op : LogicalOp) {l l' r r' : Ty} (hl : K.types l l') (hr : K.types r r') :
    K.types (op.apply l r) (op.apply l' r')
  unary (op : UnaryOp) {t u : Ty} (ht : K.types t u) : K.types (op.apply t) (op.apply u)

theorem optionRel_refl {R : α → α → Prop} (h : ∀ a, R a a) (o : Option α) : Option.Rel R o o := by
  cases o with
  | none => exact .none
  | some a => exact .some (h a)

def strict (excused : Diagnostic → Prop) (rooms : Context → Context → Prop) : Comparison :=
  ⟨Eq, Eq, excused, rooms⟩

theorem strict_shape {excused : Diagnostic → Prop} {rooms : Context → Context → Prop} (t : Ty) :
    (strict excused rooms).Shape t t := by
  cases t with
  | object ps =>
      exact .object (fun _ => optionRel_refl (fun _ => rfl) _) fun _ =>
        optionRel_refl (fun _ _ => rfl) _
  | function ps r => exact .function (List.forall₂_same.mpr fun _ _ => rfl) rfl
  | _ => exact .other ⟨rfl, rfl⟩ ⟨rfl, rfl⟩

theorem eq_of_forall₂ {as bs : List α} (h : List.Forall₂ Eq as bs) : as = bs := by
  rwa [List.forall₂_eq_eq_eq] at h

theorem result_eq_of_strict {excused : Diagnostic → Prop} {rooms : Context → Context → Prop}
    {like : α → α → Prop} (hlike : ∀ a b, like a b → a = b) {x y : Traced α}
    (h : (strict excused rooms).Linked like x y) (hx : ∀ d, x.result = .error d → ¬excused d) :
    y.result = x.result := by
  rcases h with ⟨d, hd, hexcused⟩ | ⟨d, _, hd, he, rfl⟩ | ⟨a, b, ha, hb, hab⟩
  · exact absurd hexcused (hx d hd)
  · exact he.trans hd.symm
  · rw [ha, hb, hlike a b hab]

/-- What is asked of the limits is all that a strict comparison needs. -/
theorem lawful_strict {excused : Diagnostic → Prop} {rooms : Context → Context → Prop}
    (literals : ∀ {cx cy : Context}, rooms cx cy → cx.settings.literals = cy.settings.literals)
    (setEnv : ∀ {cx cy : Context}, rooms cx cy → ∀ env env',
      rooms { cx with env } { cy with env := env' })
    (descend : ∀ {cx cy : Context}, rooms cx cy → ∀ span,
      (strict excused rooms).Linked
        (fun inner inner' => (strict excused rooms).Inside inner inner' ∧ inner.env = cx.env ∧
          inner'.env = cy.env) (cx.descend span) (cy.descend span))
    (checkBranches : ∀ {cx cy : Context}, (strict excused rooms).Inside cx cy → ∀ count,
      (strict excused rooms).Linked (fun _ _ => True) (cx.checkBranches count)
        (cy.checkBranches count)) : (strict excused rooms).Lawful where
  faults_refl _ := rfl
  mismatch := by
    rintro t _ s _ rfl rfl span
    rfl
  literals := literals
  setEnv := setEnv
  descend := descend
  checkBranches := checkBranches
  types_refl _ := rfl
  shape := by
    rintro t _ rfl
    exact strict_shape t
  object := by
    intro ps qs _ h
    exact congrArg Ty.object (eq_of_forall₂ (h.imp fun _ _ hpq => Prod.ext hpq.1 hpq.2))
  function params result := congrArg₂ Ty.function (eq_of_forall₂ params) result
  isSubtype hs ht := congrArg₂ Ty.isSubtype hs ht
  onBranches := by
    rintro cx cy h rule t _ rfl f g hfg
    cases t with
    | union members =>
        refine (checkBranches h _).bind fun _ _ _ => ?_
        refine (Linked.each (List.forall₂_same.mpr fun _ _ => rfl) fun b c hbc =>
          (hfg b c hbc).record).bind fun ts us hts => ?_
        exact linked_pure (congrArg Ty.join (eq_of_forall₂ hts))
    | _ => exact (hfg _ _ rfl).record
  onPairs := by
    rintro cx cy h rule l _ r _ rfl rfl f g hfg
    unfold Context.onPairs
    split
    · refine (checkBranches h _).bind fun _ _ _ => ?_
      refine (Linked.each (List.forall₂_same.mpr fun _ _ => rfl) fun p q hpq => ?_).bind
        fun ts us hts => linked_pure (congrArg Ty.join (eq_of_forall₂ hts))
      subst hpq
      exact (hfg _ _ _ _ rfl rfl).record
    · exact (hfg _ _ _ _ rfl rfl).record
  binary := by
    rintro cx cy h op l _ r _ rfl rfl
    have hfail (fault : Fault) :
        (strict excused rooms).Linked Eq (cx.fail fault : Traced Ty) (cy.fail fault) :=
      linked_fail (congrArg (Diagnostic.located fault) h.span)
    cases op with
    | equal | notEqual => exact linked_pure rfl
    | add =>
        refine (linked_pure rfl).record.bind fun numbers _ hnumbers => ?_
        subst hnumbers
        split
        · exact hfail _
        · split
          · exact linked_pure rfl
          · exact hfail _
          · exact linked_pure rfl
  logical op _ _ _ _ hl hr := congrArg₂ op.apply hl hr
  unary op _ _ ht := congrArg op.apply ht

namespace Lawful

variable (hK : K.Lawful) {cx cy : Context}
include hK

theorem fail (h : K.Inside cx cy) (fault : Fault) :
    K.Linked like (cx.fail fault : Traced α) (cy.fail fault : Traced β) := by
  apply linked_fail
  rw [h.span]
  exact hK.faults_refl _

theorem failAt (fault : Fault) (span : Span) :
    K.Linked like (Traced.fail fault span : Traced α) (Traced.fail fault span : Traced β) :=
  linked_fail (hK.faults_refl _)

theorem judge (h : K.rooms cx cy) {span : Span} {rule : Rule} {subject subject' : Subject}
    {value : α → Outcome} {value' : β → Outcome} {body : Context → Traced α}
    {body' : Context → Traced β}
    (hbody : ∀ inner inner', K.Inside inner inner' → inner.env = cx.env → inner'.env = cy.env →
      K.Linked like (body inner) (body' inner')) :
    K.Linked like (cx.judge span rule subject value body)
      (cy.judge span rule subject' value' body') :=
  (hK.descend h span).bind fun inner inner' ⟨hinside, henv, henv'⟩ =>
    (hbody inner inner' hinside henv henv').record

theorem makesObject (h : K.Inside cx cy) (ps : List (String × Ty)) : K.Linked Eq (cx.object ps) (cy.object ps) := by
  unfold Context.object
  split
  · exact linked_pure rfl
  · exact hK.fail h _

theorem bind (h : K.Inside cx cy) (name : String) (t u : Ty) :
    K.Inside (cx.bind name t) (cy.bind name u) :=
  ⟨hK.setEnv h.room _ _, h.span⟩

end Lawful

end Comparison

open Comparison Traced

variable {K : Comparison}

mutual

theorem TypeExpr.linked_convert (hK : K.Lawful) (e : TypeExpr) {cx cy : Context}
    (h : K.rooms cx cy) :
    K.Linked Eq (e.convert cx) (e.convert cy) := by
  rw [TypeExpr.convert, TypeExpr.convert]
  apply hK.judge h
  intro inner inner' hinside _ _
  match e with
  | .prim _ p => exact linked_pure rfl
  | .unknown _ => exact linked_pure rfl
  | .never _ => exact linked_pure rfl
  | .literal _ value => exact linked_pure rfl
  | .object _ members =>
      refine (Signature.linked_convertMembers hK members hinside.room []).bind fun ps _ hps => ?_
      subst hps
      exact hK.makesObject hinside ps
  | .function _ params result =>
      refine (Signature.linked_convertParams hK params hinside.room).bind fun ps _ hps => ?_
      refine (TypeExpr.linked_convert hK result hinside.room).bind fun r _ hr => ?_
      exact linked_pure (congrArg₂ Ty.function hps hr)
  | .union _ members =>
      exact (TypeExpr.linked_convertAll hK members hinside.room).map fun _ _ => congrArg _
  | .inter _ members =>
      refine (TypeExpr.linked_convertAll hK members hinside.room).bind fun ts _ hts => ?_
      subst hts
      exact (hK.checkBranches hinside _).bind fun _ _ _ => linked_pure rfl

theorem TypeExpr.linked_convertAll (hK : K.Lawful) (es : List TypeExpr) {cx cy : Context}
    (h : K.rooms cx cy) :
    K.Linked Eq (TypeExpr.convertAll es cx) (TypeExpr.convertAll es cy) := by
  rw [TypeExpr.convertAll.eq_def, TypeExpr.convertAll.eq_def]
  match es with
  | [] => exact linked_pure rfl
  | e :: es =>
      refine (TypeExpr.linked_convert hK e h).bind fun t _ ht => ?_
      refine (TypeExpr.linked_convertAll hK es h).bind fun ts _ hts => ?_
      exact linked_pure (congrArg₂ List.cons ht hts)

theorem Signature.linked_convertMembers (hK : K.Lawful) (members : List Signature)
    {cx cy : Context} (h : K.rooms cx cy) (seen : List String) :
    K.Linked Eq (Signature.convertMembers members cx seen)
      (Signature.convertMembers members cy seen) := by
  rw [Signature.convertMembers.eq_def, Signature.convertMembers.eq_def]
  match members with
  | [] => exact linked_pure rfl
  | .bare _ :: _ => exact hK.failAt _ _
  | .typed name e :: rest =>
      dsimp only
      split
      · exact hK.failAt _ _
      · refine (TypeExpr.linked_convert hK e h).bind fun t _ ht => ?_
        refine (Signature.linked_convertMembers hK rest h (name.text :: seen)).bind fun ts _ hts => ?_
        subst ht hts
        exact linked_pure rfl

theorem Signature.linked_convertParams (hK : K.Lawful) (params : List Signature)
    {cx cy : Context} (h : K.rooms cx cy) :
    K.Linked Eq (Signature.convertParams params cx) (Signature.convertParams params cy) := by
  rw [Signature.convertParams.eq_def, Signature.convertParams.eq_def]
  match params with
  | [] => exact linked_pure rfl
  | .bare _ :: _ => exact hK.failAt _ _
  | .typed _ e :: rest =>
      refine (TypeExpr.linked_convert hK e h).bind fun t _ ht => ?_
      refine (Signature.linked_convertParams hK rest h).bind fun ts _ hts => ?_
      exact linked_pure (congrArg₂ List.cons ht hts)

end

theorem Comparison.Lawful.convert (hK : K.Lawful) {cx cy : Context} (h : K.rooms cx cy)
    (e : TypeExpr) :
    K.Linked K.types (e.convert cx) (e.convert cy) := by
  rcases TypeExpr.linked_convert hK e h with hx | hx | ⟨t, u, ht, hu, rfl⟩
  · exact Or.inl hx
  · exact Or.inr (Or.inl hx)
  · exact Or.inr (Or.inr ⟨t, t, ht, hu, hK.types_refl ((e.keeps_convert cx).ok ht)⟩)

end Structura
