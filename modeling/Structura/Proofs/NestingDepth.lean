import Structura.Proofs.Populated

/-!
How much nesting an expression takes. Synthesis goes one level down for every node and checking goes down twice, once
for itself and once for the synthesis behind it, except from an object to its properties. So a success has used at
least as many levels as there are nodes on the longest way down, and twice as many are always enough.
-/

namespace Structura

open Traced

mutual

def TypeExpr.height : TypeExpr → Nat
  | .prim _ _ | .unknown _ | .never _ | .literal _ _ => 1
  | .object _ members => Signature.heightOfAll members + 1
  | .function _ params result => max (Signature.heightOfAll params) result.height + 1
  | .union _ members | .inter _ members => TypeExpr.heightOfAll members + 1

def TypeExpr.heightOfAll : List TypeExpr → Nat
  | [] => 0
  | t :: ts => max t.height (TypeExpr.heightOfAll ts)

def Signature.heightOfAll : List Signature → Nat
  | [] => 0
  | .bare _ :: ss => Signature.heightOfAll ss
  | .typed _ t :: ss => max t.height (Signature.heightOfAll ss)

end

mutual

/-- The number of nodes on the longest way down, annotations included. -/
def Expr.height : Expr → Nat
  | .ident _ _ | .null _ | .literal _ _ => 1
  | .object _ properties => Property.heightOfAll properties + 1
  | .member _ object _ => object.height + 1
  | .computed _ object index => max object.height index.height + 1
  | .ascription _ subject type => max subject.height type.height + 1
  | .function _ params body => max (Signature.heightOfAll params) body.height + 1
  | .call _ callee args => max callee.height (Expr.heightOfAll args) + 1
  | .binary _ _ left right | .logical _ _ left right => max left.height right.height + 1
  | .unary _ _ operand => operand.height + 1

def Expr.heightOfAll : List Expr → Nat
  | [] => 0
  | e :: es => max e.height (Expr.heightOfAll es)

def Property.heightOfAll : List Property → Nat
  | [] => 0
  | .field _ value :: ps => max value.height (Property.heightOfAll ps)
  | .spread value :: ps => max value.height (Property.heightOfAll ps)

end

def Fault.isTooDeep : Fault → Bool
  | .tooDeep _ => true
  | _ => false

namespace Context

variable {α β : Type} {cx : Context} {least least' most most' : Nat} {x : Traced α}

def room (cx : Context) : Nat := cx.settings.maxDepth - cx.depth

theorem room_pos_iff : 0 < cx.room ↔ cx.depth < cx.settings.maxDepth := Nat.sub_pos_iff_lt

theorem room_inner (cx : Context) (span : Span) :
    room { cx with span, depth := cx.depth + 1 } = cx.room - 1 := by
  change cx.settings.maxDepth - (cx.depth + 1) = cx.settings.maxDepth - cx.depth - 1
  omega

/-- The computation succeeds only if `least` levels are left, and complains about nesting only if fewer than `most`
are. A union of no types would let a call succeed without a look at its arguments, so the first half needs an
environment without such types. -/
structure Takes (cx : Context) (least most : Nat) (x : Traced α) : Prop where
  least_le {a : α} : x.result = .ok a → cx.env.All Ty.Populated → least ≤ cx.room
  lt_most {d : Diagnostic} : x.result = .error d → d.fault.isTooDeep = true → cx.room < most

theorem takes_pure {a : α} : cx.Takes 0 most (pure a : Traced α) where
  least_le _ _ := Nat.zero_le _
  lt_most h := by cases h

theorem takes_fail {fault : Fault} {span : Span} (h : fault.isTooDeep = false) :
    cx.Takes least most (.fail fault span : Traced α) where
  least_le h := by cases h
  lt_most hd hdeep := by
    cases hd
    exact absurd (hdeep.symm.trans h) Bool.noConfusion

/-- Computations that do not go down. -/
theorem takes_of_ends (h : x.Ends (fun _ => True) (·.fault.isTooDeep = false)) : cx.Takes 0 0 x where
  least_le _ _ := Nat.zero_le _
  lt_most hd hdeep := absurd (hdeep.symm.trans (h.error hd)) Bool.noConfusion

namespace Takes

theorem record (h : cx.Takes least most x) {rule : Rule} {subject : Subject} {value : α → Outcome} :
    cx.Takes least most (Traced.record rule subject value x) := ⟨h.least_le, h.lt_most⟩

theorem mono (h : cx.Takes least most x) (hleast : least' ≤ least) (hmost : most ≤ most') :
    cx.Takes least' most' x where
  least_le ha henv := hleast.trans (h.least_le ha henv)
  lt_most hd hdeep := (h.lt_most hd hdeep).trans_le hmost

/-- One computation after another takes the levels of both. -/
theorem bind {f : α → Traced β} (hx : cx.Takes least most x)
    (hf : ∀ a, x.result = .ok a → cx.Takes least' most' (f a)) :
    cx.Takes (max least least') (max most most') (x >>= f) := by
  cases hresult : x.result with
  | ok a =>
      refine ⟨fun hb henv => ?_, fun hd hdeep => ?_⟩
      · rw [result_bind_ok hresult] at hb
        exact max_le (hx.least_le hresult henv) ((hf a hresult).least_le hb henv)
      · rw [result_bind_ok hresult] at hd
        exact lt_max_of_lt_right ((hf a hresult).lt_most hd hdeep)
  | error e =>
      refine ⟨fun hb => ?_, fun hd hdeep => ?_⟩
      · rw [result_bind_error hresult] at hb
        cases hb
      · rw [result_bind_error hresult] at hd
        cases hd
        exact lt_max_of_lt_left (hx.lt_most hresult hdeep)

theorem map {f : α → β} (hx : cx.Takes least most x) : cx.Takes least most (f <$> x) := by
  have h : cx.Takes (max least 0) (max most 0) (x >>= fun a => pure (f a)) := hx.bind fun _ _ => takes_pure
  rwa [Nat.max_zero, Nat.max_zero] at h

/-- Names that are bound to further types leave the same levels. -/
theorem of_inner {inner : Context} (h : inner.Takes least most x) (hroom : inner.room = cx.room)
    (henv : cx.env.All Ty.Populated → inner.env.All Ty.Populated) : cx.Takes least most x where
  least_le ha hcx := hroom ▸ h.least_le ha (henv hcx)
  lt_most hd hdeep := hroom ▸ h.lt_most hd hdeep

end Takes

/-- A judgment takes one level more than its body. -/
theorem takes_judge {span : Span} {rule : Rule} {subject : Subject} {value : α → Outcome}
    {body : Context → Traced α}
    (h : ∀ inner : Context, inner.Takes least most (body inner)) :
    cx.Takes (least + 1) (most + 1) (cx.judge span rule subject value body) := by
  have hbody := h { cx with span, depth := cx.depth + 1 }
  have hroom := cx.room_inner span
  refine ⟨fun ha henv => ?_, fun hd hdeep => ?_⟩
  · obtain ⟨hdepth, ha⟩ := judge_eq_ok.mp ha
    have hpos := room_pos_iff.mpr hdepth
    have hleast := hbody.least_le ha henv
    omega
  · by_cases hdepth : cx.depth < cx.settings.maxDepth
    · rw [result_judge hdepth] at hd
      have hmost := hbody.lt_most hd hdeep
      omega
    · have hpos := room_pos_iff.not.mpr hdepth
      omega

theorem takes_object (cx : Context) (ps : List (String × Ty)) : cx.Takes 0 0 (cx.object ps) := by
  unfold object
  split
  · exact takes_pure
  · exact takes_fail rfl

theorem takes_checkBranches (cx : Context) (count : Nat) : cx.Takes 0 0 (cx.checkBranches count) :=
  takes_of_ends (ends_checkBranches rfl)

/-- A rule that does not go down does not go down on branches either. -/
theorem takes_onBranches_zero {rule : Rule} {t : Ty} {body : Ty → Traced Ty}
    (h : ∀ b, (body b).Ends (fun _ => True) (·.fault.isTooDeep = false)) :
    cx.Takes 0 0 (cx.onBranches rule t body) :=
  takes_of_ends (ends_onBranches (fun _ => rfl) (fun _ _ => trivial) fun b _ => h b)

theorem takes_onPairs_zero {rule : Rule} {left right : Ty} {body : Ty → Ty → Traced Ty}
    (h : ∀ l r, (body l r).Ends (fun _ => True) (·.fault.isTooDeep = false)) :
    cx.Takes 0 0 (cx.onPairs rule left right body) :=
  takes_of_ends (ends_onPairs (fun _ => rfl) (fun _ _ => trivial) fun l _ r _ => h l r)

/-- What is done on every branch is done, since there is a branch. -/
theorem takes_onBranches {rule : Rule} {t : Ty} {body : Ty → Traced Ty}
    (hsome : cx.env.All Ty.Populated → t.branches ≠ []) (h : ∀ b ∈ t.branches, cx.Takes least most (body b)) :
    cx.Takes least most (cx.onBranches rule t body) := by
  refine ⟨fun {u} hu henv => ?_, fun {d} hd hdeep => ?_⟩
  · obtain ⟨b, hb⟩ := List.exists_mem_of_ne_nil _ (hsome henv)
    obtain ⟨r, hr⟩ : ∃ r, (body b).result = .ok r := by
      cases t with
      | union members =>
          rw [onBranches, counted_eq_ok, joined_eq_ok] at hu
          obtain ⟨-, rs, hrs, -⟩ := hu
          obtain ⟨r, -, hr⟩ := exists_result_of_mem hrs hb
          exact ⟨r, hr⟩
      | _ =>
          rw [List.mem_singleton.mp hb]
          exact ⟨u, hu⟩
    exact (h b hb).least_le hr henv
  · have hends : (cx.onBranches rule t body).Ends (fun _ => True)
        fun d => d.fault.isTooDeep = true → cx.room < most := by
      refine ends_onBranches (fun _ hmany => ?_) (fun _ _ => trivial) fun b hb => ?_
      · cases hmany
      · unfold Ends
        split
        · trivial
        · exact (h b hb).lt_most ‹_›
    exact hends.error hd hdeep

end Context

mutual

theorem TypeExpr.takes_convert (e : TypeExpr) (cx : Context) : cx.Takes e.height e.height (e.convert cx) := by
  rw [TypeExpr.convert]
  match e with
  | .prim _ _ | .unknown _ | .never _ | .literal _ _ => exact Context.takes_judge fun _ => Context.takes_pure
  | .object _ members =>
      refine Context.takes_judge fun inner => ?_
      have h := (Signature.takes_convertMembers members inner []).bind fun ps _ => inner.takes_object ps
      rwa [Nat.max_zero] at h
  | .function _ params result =>
      refine Context.takes_judge fun inner => ?_
      refine (Signature.takes_convertParams params inner).bind fun ps _ => ?_
      exact (TypeExpr.takes_convert result inner).map
  | .union _ members =>
      exact Context.takes_judge fun inner => (TypeExpr.takes_convertAll members inner).map
  | .inter _ members =>
      refine Context.takes_judge fun inner => ?_
      have h := (TypeExpr.takes_convertAll members inner).bind fun ts _ =>
        (inner.takes_checkBranches (Ty.distributionSize ts)).map (f := fun _ => Ty.meet ts)
      rwa [Nat.max_zero] at h

theorem TypeExpr.takes_convertAll (es : List TypeExpr) (cx : Context) :
    cx.Takes (TypeExpr.heightOfAll es) (TypeExpr.heightOfAll es) (TypeExpr.convertAll es cx) := by
  rw [TypeExpr.convertAll.eq_def]
  match es with
  | [] => exact Context.takes_pure
  | e :: es =>
      exact (TypeExpr.takes_convert e cx).bind fun t _ => (TypeExpr.takes_convertAll es cx).map

theorem Signature.takes_convertMembers (members : List Signature) (cx : Context) (seen : List String) :
    cx.Takes (Signature.heightOfAll members) (Signature.heightOfAll members)
      (Signature.convertMembers members cx seen) := by
  rw [Signature.convertMembers.eq_def]
  match members with
  | [] => exact Context.takes_pure
  | .bare _ :: _ => exact Context.takes_fail rfl
  | .typed name e :: rest =>
      dsimp only
      split
      · exact Context.takes_fail rfl
      · exact (TypeExpr.takes_convert e cx).bind fun t _ =>
          (Signature.takes_convertMembers rest cx (name.text :: seen)).map

theorem Signature.takes_convertParams (params : List Signature) (cx : Context) :
    cx.Takes (Signature.heightOfAll params) (Signature.heightOfAll params)
      (Signature.convertParams params cx) := by
  rw [Signature.convertParams.eq_def]
  match params with
  | [] => exact Context.takes_pure
  | .bare _ :: _ => exact Context.takes_fail rfl
  | .typed _ e :: rest =>
      exact (TypeExpr.takes_convert e cx).bind fun t _ => (Signature.takes_convertParams rest cx).map

end

structure Judgments.Takes (height : Nat) (j : Judgments) : Prop where
  synth (cx : Context) : cx.Takes height (2 * height - 1) (j.synth cx)
  check (cx : Context) (t : Ty) : cx.Takes height (2 * height) (j.check cx t)

inductive Judgments.TakeAll : Nat → List Judgments → Prop
  | nil : TakeAll 0 []
  | cons {h k : Nat} {j : Judgments} {js : List Judgments} : j.Takes h → TakeAll k js → TakeAll (max h k) (j :: js)

/-- Nothing is asked of a property that is spread, since it is refused. -/
inductive Entry.TakeAll : Nat → List Entry → Prop
  | nil : TakeAll 0 []
  | field {h k : Nat} {name : Name} {j : Judgments} {entries : List Entry} :
      j.Takes h → TakeAll k entries → TakeAll (max h k) (.field name j :: entries)
  | spread {h : Nat} {span : Span} {entries : List Entry} : TakeAll h (.spread span :: entries)

namespace Rules

variable {cx : Context} {h k : Nat}

theorem takes_ident (name : String) (cx : Context) : cx.Takes 0 0 (ident name cx) := by
  unfold ident
  split
  · exact Context.takes_pure
  · exact Context.takes_fail rfl

theorem takes_synthFields {entries : List Entry} (hentries : Entry.TakeAll h entries) (seen : List String) :
    cx.Takes h (2 * h) (synthFields cx entries seen) := by
  induction hentries generalizing seen with
  | nil => exact Context.takes_pure
  | spread => exact Context.takes_fail rfl
  | @field _ _ name _ _ hj _ ih =>
      rw [synthFields]
      split
      · exact Context.takes_fail rfl
      · exact ((hj.synth cx).bind fun t _ => (ih (name.text :: seen)).map).mono le_rfl (by omega)

theorem takes_object {entries : List Entry} (hentries : Entry.TakeAll h entries) :
    cx.Takes h (2 * h) (object entries cx) := by
  have hobject := (takes_synthFields hentries []).bind fun ps _ => cx.takes_object ps
  rwa [Nat.max_zero, Nat.max_zero] at hobject

theorem takes_member {object : Expr} {judged : Judgments} (hjudged : judged.Takes h) (name : Name) :
    cx.Takes h (2 * h) (member object judged name cx) := by
  refine ((hjudged.synth cx).bind fun t _ => Context.takes_onBranches_zero fun b => ?_).mono
    (by omega) (by omega)
  split
  · split
    · exact ends_pure.mpr trivial
    · exact ends_fail.mpr rfl
  · exact ends_fail.mpr rfl

theorem takes_ascription {subject : Judgments} (hsubject : subject.Takes h) (type : TypeExpr) :
    cx.Takes (max h type.height) (2 * max h type.height) (ascription subject type cx) :=
  ((type.takes_convert cx).bind fun t _ => (hsubject.check cx t).map (f := fun _ => t)).mono
    (by omega) (by omega)

/-- Parameters come into scope without taking a level. -/
theorem takes_params (signature : List Signature) (inner : Context) :
    cx.Takes (Signature.heightOfAll signature) (Signature.heightOfAll signature) (params cx signature inner) := by
  induction signature generalizing inner with
  | nil => exact Context.takes_pure
  | cons s rest ih =>
      cases s with
      | bare => exact Context.takes_fail rfl
      | typed name e => exact (e.takes_convert cx).bind fun t _ => (ih (inner.bind name.text t)).map

theorem params_eq_ok {signature : List Signature} {inner : Context} {r : List Ty × Context}
    (h : (params cx signature inner).result = .ok r) :
    r.2.room = inner.room ∧ (inner.env.All Ty.Populated → r.2.env.All Ty.Populated) := by
  induction signature generalizing inner r with
  | nil =>
      cases h
      exact ⟨rfl, id⟩
  | cons s rest ih =>
      cases s with
      | bare => cases h
      | typed name e =>
          rw [params, bind_eq_ok] at h
          obtain ⟨t, ht, h⟩ := h
          rw [bind_eq_ok] at h
          obtain ⟨r', hr', h⟩ := h
          cases h
          obtain ⟨hroom, henv⟩ := ih hr'
          exact ⟨hroom, fun hinner => henv (hinner.set (TypeExpr.populated_of_convert ht))⟩

theorem takes_function (signature : List Signature) {body : Judgments} (hbody : body.Takes h) :
    cx.Takes (max (Signature.heightOfAll signature) h) (2 * max (Signature.heightOfAll signature) h)
      (function signature body cx) := by
  have hresult (r : List Ty × Context) (hr : (params cx signature cx).result = .ok r) :
      cx.Takes h (2 * h - 1) ((fun t => Ty.function r.1 t) <$> body.synth r.2) := by
    obtain ⟨hroom, henv⟩ := params_eq_ok hr
    exact ((hbody.synth r.2).of_inner hroom henv).map
  exact ((takes_params signature cx).bind hresult).mono le_rfl (by omega)

/-- As many types as arguments, so all arguments are looked at. -/
theorem takes_checkArgs {args : List Judgments} (hargs : Judgments.TakeAll h args) {ts : List Ty}
    (hlength : ts.length = args.length) : cx.Takes h (2 * h) (checkArgs cx args ts) := by
  induction hargs generalizing ts with
  | nil =>
      rw [List.length_eq_zero_iff.mp hlength]
      exact Context.takes_pure
  | cons harg _ ih =>
      cases ts with
      | nil => cases hlength
      | cons t ts =>
          refine ((harg.check cx t).bind fun _ _ => ih (Nat.succ.inj hlength)).mono le_rfl ?_
          omega

theorem takes_call {callee : Expr} {judged : Judgments} {args : List Judgments} (hjudged : judged.Takes h)
    (hargs : Judgments.TakeAll k args)
    (hpopulated : cx.env.All Ty.Populated → ∀ t, (judged.synth cx).result = .ok t → t.Populated) :
    cx.Takes (max h k) (2 * max h k) (call callee judged args cx) := by
  have hcall : cx.Takes (max h k) (max (2 * h - 1) (2 * k)) (call callee judged args cx) := by
    refine (hjudged.synth cx).bind fun t ht => Context.takes_onBranches ?_ fun b _ => ?_
    · exact fun henv => (hpopulated henv t ht).branches_ne_nil
    · split
      · split
        case isTrue hlength => exact (takes_checkArgs hargs hlength).map
        case isFalse => exact Context.takes_fail rfl
      · exact Context.takes_fail rfl
  exact hcall.mono le_rfl (by omega)

theorem takes_binary (op : BinaryOp) {left right : Judgments} (hleft : left.Takes h) (hright : right.Takes k) :
    cx.Takes (max h k) (2 * max h k) (binary op left right cx) :=
  ((hleft.synth cx).bind fun _ _ => (hright.synth cx).bind fun _ _ =>
    Context.takes_onPairs_zero fun l r => Ty.Invariant.any.ends_binary op l r fun _ => rfl).mono (by omega) (by omega)

theorem takes_logical (op : LogicalOp) {left right : Judgments} (hleft : left.Takes h) (hright : right.Takes k) :
    cx.Takes (max h k) (2 * max h k) (logical op left right cx) :=
  ((hleft.synth cx).bind fun _ _ => (hright.synth cx).bind fun _ _ =>
    Context.takes_onPairs_zero fun _ _ => ends_pure.mpr trivial).mono (by omega) (by omega)

theorem takes_unary (op : UnaryOp) {operand : Judgments} (hoperand : operand.Takes h) :
    cx.Takes h (2 * h) (unary op operand cx) :=
  ((hoperand.synth cx).bind fun _ _ =>
    Context.takes_onBranches_zero fun _ => ends_pure.mpr trivial).mono (by omega) (by omega)

theorem takes_checkBySynth {synth : Context → Traced Ty} (hsynth : cx.Takes h k (synth cx)) (t : Ty) :
    cx.Takes h k (checkBySynth synth t cx) := by
  refine (hsynth.bind fun s _ => ?_).mono (le_max_left h 0) (max_le le_rfl (Nat.zero_le k))
  refine Context.takes_of_ends (ends_record_pure.bind fun fits _ => ?_)
  split
  · exact ends_pure.mpr trivial
  · exact ends_fail.mpr rfl

theorem takeAll_of_fields {entries : List Entry} (hentries : Entry.TakeAll h entries)
    {fs : List (Name × Judgments)} (hfs : (fields entries).result = .ok fs) :
    Judgments.TakeAll h (fs.map Prod.snd) := by
  induction hentries generalizing fs with
  | nil =>
      cases hfs
      exact .nil
  | spread => cases hfs
  | field hj _ ih =>
      rw [fields, bind_eq_ok] at hfs
      obtain ⟨gs, hgs, hfs⟩ := hfs
      cases hfs
      exact .cons hj (ih hgs)

theorem takes_fields (entries : List Entry) (cx : Context) : cx.Takes 0 0 (fields entries) := by
  induction entries with
  | nil => exact Context.takes_pure
  | cons entry rest ih =>
      cases entry with
      | field => exact ih.map
      | spread => exact Context.takes_fail rfl

theorem takes_checkFields (expected : List (String × Ty)) {fs : List (Name × Judgments)}
    (hfs : Judgments.TakeAll h (fs.map Prod.snd)) : cx.Takes h (2 * h) (checkFields cx expected fs) := by
  induction fs generalizing h with
  | nil =>
      cases hfs
      exact Context.takes_pure
  | cons f fs ih =>
      cases hfs with
      | cons hj hrest =>
          rw [checkFields]
          split
          · refine ((hj.check cx _).bind fun _ _ => ih hrest).mono le_rfl ?_
            omega
          · exact Context.takes_fail rfl

theorem takes_checkObject {entries : List Entry} (hentries : Entry.TakeAll h entries)
    (expected : List (String × Ty)) : cx.Takes h (2 * h) (checkObject entries expected cx) := by
  refine ((takes_fields entries cx).bind fun fs hfs => ?_).mono (le_max_right 0 h)
    (max_le (Nat.zero_le _) le_rfl)
  split
  · exact Context.takes_fail rfl
  · split
    · exact Context.takes_fail rfl
    · exact takes_checkFields expected (takeAll_of_fields hentries hfs)

end Rules

namespace Judgments

theorem takes_ofSynth {e : Expr} {rule : Context → Traced Ty} {h : Nat}
    (hrule : ∀ cx : Context, cx.Takes h (2 * h) (rule cx)) : (ofSynth e rule).Takes (h + 1) := by
  have hsynth (cx : Context) : cx.Takes (h + 1) (2 * h + 1) ((ofSynth e rule).synth cx) :=
    Context.takes_judge hrule
  refine ⟨fun cx => (hsynth cx).mono le_rfl (by omega), fun cx t => ?_⟩
  have hcheck : cx.Takes (h + 1 + 1) (2 * h + 1 + 1) ((ofSynth e rule).check cx t) :=
    Context.takes_judge fun inner => Rules.takes_checkBySynth (hsynth inner) t
  exact hcheck.mono (Nat.le_succ _) (by omega)

theorem takes_ofObject {e : Expr} {entries : List Entry} {h : Nat} (hentries : Entry.TakeAll h entries) :
    (ofObject e entries).Takes (h + 1) := by
  have hgeneric : (ofSynth e (Rules.object entries)).Takes (h + 1) :=
    takes_ofSynth fun _ => Rules.takes_object hentries
  refine ⟨hgeneric.synth, fun cx t => ?_⟩
  cases t with
  | object expected =>
      have hcheck : cx.Takes (h + 1) (2 * h + 1) ((ofObject e entries).check cx (.object expected)) :=
        Context.takes_judge fun inner => (Rules.takes_checkObject hentries expected).record
      exact hcheck.mono le_rfl (by omega)
  | _ => exact hgeneric.check cx _

end Judgments

mutual

theorem Expr.takes_judgments (e : Expr) : e.judgments.Takes e.height := by
  match e with
  | .ident _ name => exact Judgments.takes_ofSynth (Rules.takes_ident name)
  | .null _ | .literal _ _ => exact Judgments.takes_ofSynth fun _ => Context.takes_pure
  | .object _ properties => exact Judgments.takes_ofObject (Property.takeAll_entries properties)
  | .member _ object name =>
      exact Judgments.takes_ofSynth fun _ => Rules.takes_member object.takes_judgments name
  | .computed _ _ _ => exact Judgments.takes_ofSynth fun _ => Context.takes_fail rfl
  | .ascription _ subject type =>
      exact Judgments.takes_ofSynth fun _ => Rules.takes_ascription subject.takes_judgments type
  | .function _ params body =>
      exact Judgments.takes_ofSynth fun _ => Rules.takes_function params body.takes_judgments
  | .call _ callee args =>
      refine Judgments.takes_ofSynth fun cx => Rules.takes_call callee.takes_judgments
        (Expr.takeAll_judgmentsAll args) fun henv t ht => ?_
      exact Expr.populated_of_synth henv ht
  | .binary _ op left right =>
      exact Judgments.takes_ofSynth fun _ => Rules.takes_binary op left.takes_judgments right.takes_judgments
  | .logical _ op left right =>
      exact Judgments.takes_ofSynth fun _ => Rules.takes_logical op left.takes_judgments right.takes_judgments
  | .unary _ op operand =>
      exact Judgments.takes_ofSynth fun _ => Rules.takes_unary op operand.takes_judgments

theorem Expr.takeAll_judgmentsAll (es : List Expr) :
    Judgments.TakeAll (Expr.heightOfAll es) (Expr.judgmentsAll es) := by
  match es with
  | [] => exact .nil
  | e :: es => exact .cons e.takes_judgments (Expr.takeAll_judgmentsAll es)

theorem Property.takeAll_entries (ps : List Property) :
    Entry.TakeAll (Property.heightOfAll ps) (Property.entries ps) := by
  match ps with
  | [] => exact .nil
  | .field _ value :: ps => exact .field value.takes_judgments (Property.takeAll_entries ps)
  | .spread _ :: _ => exact .spread

end

end Structura
