import Structura.Proofs.Comparison

namespace Structura

mutual

/-- The name is looked up outside the expression. -/
def Expr.hasFree (name : String) : Expr → Bool
  | .ident _ x => x == name
  | .null _ => false
  | .literal _ _ => false
  | .object _ properties => Property.someFree name properties
  | .member _ object _ => object.hasFree name
  | .computed _ object index => object.hasFree name || index.hasFree name
  | .ascription _ subject _ => subject.hasFree name
  | .function _ params body => params.all (·.name.text != name) && body.hasFree name
  | .call _ callee args => callee.hasFree name || Expr.someFree name args
  | .binary _ _ left right => left.hasFree name || right.hasFree name
  | .logical _ _ left right => left.hasFree name || right.hasFree name
  | .unary _ _ operand => operand.hasFree name

def Expr.someFree (name : String) : List Expr → Bool
  | [] => false
  | e :: es => e.hasFree name || Expr.someFree name es

def Property.someFree (name : String) : List Property → Bool
  | [] => false
  | .field _ value :: ps => value.hasFree name || Property.someFree name ps
  | .spread value :: ps => value.hasFree name || Property.someFree name ps

end

namespace Comparison

variable {K : Comparison} {env env' : Env}

def AgreeOn (K : Comparison) (names : String → Bool) (env env' : Env) : Prop :=
  ∀ x, names x = true → Option.Rel K.types (env.get? x) (env'.get? x)

theorem AgreeOn.mono {names fewer : String → Bool} (h : K.AgreeOn names env env')
    (hle : ∀ x, fewer x = true → names x = true) : K.AgreeOn fewer env env' :=
  fun x hx => h x (hle x hx)

theorem AgreeOn.left {names others : String → Bool}
    (h : K.AgreeOn (fun x => names x || others x) env env') : K.AgreeOn names env env' :=
  h.mono fun _ hx => Bool.or_eq_true_iff.mpr (Or.inl hx)

theorem AgreeOn.right {names others : String → Bool}
    (h : K.AgreeOn (fun x => names x || others x) env env') : K.AgreeOn others env env' :=
  h.mono fun _ hx => Bool.or_eq_true_iff.mpr (Or.inr hx)

theorem AgreeOn.set {names : String → Bool} {name : String} {t u : Ty} (ht : K.types t u)
    (h : K.AgreeOn (fun x => name != x && names x) env env') :
    K.AgreeOn names (env.set name t) (env'.set name u) := by
  intro x hx
  rw [Env.get?_set, Env.get?_set]
  split
  · exact .some ht
  · rename_i hne
    exact h x (by simpa [hx] using Ne.symm hne)

end Comparison

open Comparison

structure Judgments.Compared (j : Judgments) (K : Comparison) (cx cy : Context) : Prop where
  synth : K.Linked K.types (j.synth cx) (j.synth cy)
  check {t u : Ty} (h : K.types t u) : K.Linked (fun _ _ => True) (j.check cx t) (j.check cy u)

namespace Rules

variable {K : Comparison} (hK : K.Lawful) {cx cy : Context} (h : K.Inside cx cy)
include hK h

theorem linked_ident {name : String}
    (henv : Option.Rel K.types (cx.env.get? name) (cy.env.get? name)) :
    K.Linked K.types (ident name cx) (ident name cy) := by
  unfold ident
  generalize cx.env.get? name = found, cy.env.get? name = found' at henv
  cases henv with
  | some ht => exact linked_pure ht
  | none => exact hK.fail h _

omit h in
/-- The names that come later are neither repeated nor among those seen. -/
theorem linked_synthFields {entries : List Entry}
    (hentries : ∀ name value, .field name value ∈ entries → value.Compared K cx cy)
    (seen : List String) :
    K.Linked (fun ps qs => List.Forall₂ (fun p q => p.1 = q.1 ∧ K.types p.2 q.2) ps qs ∧
        (ps.map Prod.fst).Nodup ∧ ∀ p ∈ ps, p.1 ∉ seen)
      (synthFields cx entries seen) (synthFields cy entries seen) := by
  induction entries generalizing seen with
  | nil => exact linked_pure ⟨.nil, List.nodup_nil, List.forall_mem_nil _⟩
  | cons entry rest ih =>
      have hrest := fun name value hmem => hentries name value (List.mem_cons_of_mem entry hmem)
      cases entry with
      | spread span => exact hK.failAt _ _
      | field name value =>
          rw [synthFields, synthFields]
          split
          · exact hK.failAt _ _
          · rename_i hseen
            refine (hentries name value List.mem_cons_self).synth.bind fun t u htu => ?_
            refine (ih hrest (name.text :: seen)).bind fun ps qs hlater => ?_
            obtain ⟨hpqs, hnodup, hfresh⟩ := hlater
            refine linked_pure ⟨.cons ⟨rfl, htu⟩ hpqs, List.nodup_cons.mpr ⟨?_, hnodup⟩, ?_⟩
            · intro hmem
              obtain ⟨p, hp, hname⟩ := List.mem_map.mp hmem
              exact hfresh p hp (hname ▸ List.mem_cons_self)
            · refine List.forall_mem_cons.mpr ⟨by simpa using hseen, fun p hp hmem => ?_⟩
              exact hfresh p hp (List.mem_cons_of_mem _ hmem)

omit h in
theorem linked_object {entries : List Entry}
    (hentries : ∀ name value, .field name value ∈ entries → value.Compared K cx cy) :
    K.Linked K.types (object entries cx) (object entries cy) := by
  refine (linked_synthFields hK hentries []).bind fun ps qs hfields => ?_
  obtain ⟨hpqs, hnodup, -⟩ := hfields
  have hnames : ps.map Prod.fst = qs.map Prod.fst := by
    apply eq_of_forall₂
    rw [List.forall₂_map_left_iff, List.forall₂_map_right_iff]
    exact hpqs.imp fun _ _ hpq => hpq.1
  rw [Context.object_eq_pure hnodup, Context.object_eq_pure (hnames ▸ hnodup)]
  exact linked_pure (hK.object hnodup hpqs)

theorem linked_member (e : Expr) {judged : Judgments} (hjudged : judged.Compared K cx cy)
    (name : Name) : K.Linked K.types (member e judged name cx) (member e judged name cy) := by
  refine hjudged.synth.bind fun t u htu => hK.onBranches h _ htu fun b c hbc => ?_
  cases hK.shape hbc with
  | @object ps qs types _ =>
      have hfound := types name.text
      dsimp only
      generalize ps.lookup name.text = found, qs.lookup name.text = found' at hfound
      cases hfound with
      | some htu => exact linked_pure htu
      | none => exact hK.failAt _ _
  | function _ _ => exact hK.failAt _ _
  | other objects _ =>
      cases b <;> cases c <;> simp only [Ty.isObject, Bool.true_eq_false, false_and, and_false] at objects
      all_goals exact hK.failAt _ _

theorem linked_ascription {subject : Judgments} (hsubject : subject.Compared K cx cy)
    (type : TypeExpr) :
    K.Linked K.types (ascription subject type cx) (ascription subject type cy) :=
  (hK.convert h.room type).bind fun _ _ htu =>
    (hsubject.check htu).bind fun _ _ _ => linked_pure htu

/-- The parameters come into scope one by one; before that the two runs need not agree on them. -/
theorem linked_params {names : String → Bool} (signature : List Signature)
    {inner inner' : Context} (hinner : K.Inside inner inner')
    (henv : K.AgreeOn (fun x => signature.all (·.name.text != x) && names x) inner.env inner'.env) :
    K.Linked (fun r s => List.Forall₂ K.types r.1 s.1 ∧ K.Inside r.2 s.2 ∧
        K.AgreeOn names r.2.env s.2.env)
      (params cx signature inner) (params cy signature inner') := by
  induction signature generalizing inner inner' with
  | nil => exact linked_pure ⟨.nil, hinner, henv⟩
  | cons s rest ih =>
      cases s with
      | bare name => exact hK.failAt _ _
      | typed name e =>
          refine (hK.convert h.room e).bind fun t u htu => ?_
          have hset : K.AgreeOn (fun x => rest.all (·.name.text != x) && names x)
              (inner.bind name.text t).env (inner'.bind name.text u).env :=
            AgreeOn.set htu (henv.mono fun x hx => by
              rw [List.all_cons, Bool.and_assoc]
              exact hx)
          refine (ih (hK.bind hinner name.text t u) hset).bind fun r s ⟨hts, hinside, hon⟩ => ?_
          exact linked_pure ⟨.cons htu hts, hinside, hon⟩

theorem linked_function {names : String → Bool} (signature : List Signature) {body : Judgments}
    (hbody : ∀ inner inner', K.Inside inner inner' → K.AgreeOn names inner.env inner'.env →
      body.Compared K inner inner')
    (henv : K.AgreeOn (fun x => signature.all (·.name.text != x) && names x) cx.env cy.env) :
    K.Linked K.types (function signature body cx) (function signature body cy) := by
  refine (linked_params hK h signature h henv).bind fun r s ⟨hts, hinside, hon⟩ => ?_
  exact (hbody r.2 s.2 hinside hon).synth.bind fun t u htu => linked_pure (hK.function hts htu)

omit hK h in
theorem linked_checkArgs {args : List Judgments} (hargs : ∀ arg ∈ args, arg.Compared K cx cy)
    {ts us : List Ty} (htypes : List.Forall₂ K.types ts us) :
    K.Linked (fun _ _ => True) (checkArgs cx args ts) (checkArgs cy args us) := by
  induction args generalizing ts us with
  | nil => exact linked_pure trivial
  | cons arg args ih =>
      rw [List.forall_mem_cons] at hargs
      cases htypes with
      | nil => exact linked_pure trivial
      | cons htu htus => exact (hargs.1.check htu).bind fun _ _ _ => ih hargs.2 htus

theorem linked_call (callee : Expr) {judged : Judgments} (hjudged : judged.Compared K cx cy)
    {args : List Judgments} (hargs : ∀ arg ∈ args, arg.Compared K cx cy) :
    K.Linked K.types (call callee judged args cx) (call callee judged args cy) := by
  refine hjudged.synth.bind fun t u htu => hK.onBranches h _ htu fun b c hbc => ?_
  cases hK.shape hbc with
  | object _ _ => exact hK.failAt _ _
  | function params result =>
      dsimp only
      rw [params.length_eq]
      split
      · exact (linked_checkArgs hargs params).bind fun _ _ _ => linked_pure result
      · exact hK.fail h _
  | other _ functions =>
      cases b <;> cases c <;>
        simp only [Ty.isFunction, Bool.true_eq_false, false_and, and_false] at functions
      all_goals exact hK.failAt _ _

theorem linked_binary (op : BinaryOp) {left right : Judgments} (hleft : left.Compared K cx cy)
    (hright : right.Compared K cx cy) :
    K.Linked K.types (binary op left right cx) (binary op left right cy) :=
  hleft.synth.bind fun _ _ hl => hright.synth.bind fun _ _ hr =>
    hK.onPairs h _ hl hr fun _ _ _ _ hb hc => hK.binary h op hb hc

theorem linked_logical (op : LogicalOp) {left right : Judgments} (hleft : left.Compared K cx cy)
    (hright : right.Compared K cx cy) :
    K.Linked K.types (logical op left right cx) (logical op left right cy) :=
  hleft.synth.bind fun _ _ hl => hright.synth.bind fun _ _ hr =>
    hK.onPairs h _ hl hr fun _ _ _ _ hb hc => linked_pure (hK.logical op hb hc)

theorem linked_unary (op : UnaryOp) {operand : Judgments} (hoperand : operand.Compared K cx cy) :
    K.Linked K.types (unary op operand cx) (unary op operand cy) :=
  hoperand.synth.bind fun _ _ ht =>
    hK.onBranches h _ ht fun _ _ hb => linked_pure (hK.unary op hb)

theorem linked_checkBySynth {synth : Context → Traced Ty}
    (hsynth : K.Linked K.types (synth cx) (synth cy)) {t u : Ty} (htu : K.types t u) :
    K.Linked (fun _ _ => True) (checkBySynth synth t cx) (checkBySynth synth u cy) := by
  refine hsynth.bind fun s s' hs => ?_
  rw [hK.isSubtype hs htu]
  refine (linked_pure rfl).record.bind fun fits _ hfits => ?_
  subst hfits
  split
  · exact linked_pure trivial
  · apply linked_fail
    rw [h.span]
    exact hK.mismatch htu hs _

omit h in
theorem linked_checkFields {expected expected' : List (String × Ty)}
    (htypes : ∀ name, Option.Rel K.types (expected.lookup name) (expected'.lookup name))
    {fs : List (Name × Judgments)} (hfs : ∀ f ∈ fs, f.2.Compared K cx cy) :
    K.Linked (fun _ _ => True) (checkFields cx expected fs) (checkFields cy expected' fs) := by
  induction fs with
  | nil => exact linked_pure trivial
  | cons f fs ih =>
      rw [List.forall_mem_cons] at hfs
      have hfound := htypes f.1.text
      rw [checkFields, checkFields]
      generalize expected.lookup f.1.text = found, expected'.lookup f.1.text = found' at hfound
      cases hfound with
      | some htu => exact (hfs.1.check htu).bind fun _ _ _ => ih hfs.2
      | none => exact hK.failAt _ _

omit h in
theorem linked_fields {entries : List Entry}
    (hentries : ∀ name value, .field name value ∈ entries → value.Compared K cx cy) :
    K.Linked (fun fs gs => fs = gs ∧ ∀ f ∈ fs, f.2.Compared K cx cy)
      (fields entries) (fields entries) := by
  induction entries with
  | nil => exact linked_pure ⟨rfl, List.forall_mem_nil _⟩
  | cons entry rest ih =>
      have hrest := fun name value hmem => hentries name value (List.mem_cons_of_mem entry hmem)
      cases entry with
      | spread span => exact hK.failAt _ _
      | field name value =>
          refine (ih hrest).bind fun fs _ ⟨hfs, hcompared⟩ => ?_
          exact linked_pure ⟨congrArg ((name, value) :: ·) hfs,
            List.forall_mem_cons.mpr ⟨hentries name value List.mem_cons_self, hcompared⟩⟩

theorem linked_checkObject {entries : List Entry}
    (hentries : ∀ name value, .field name value ∈ entries → value.Compared K cx cy)
    {expected expected' : List (String × Ty)}
    (htypes : K.Shape (.object expected) (.object expected')) :
    K.Linked (fun _ _ => True) (checkObject entries expected cx)
      (checkObject entries expected' cy) := by
  refine (linked_fields hK hentries).bind fun fs _ ⟨hfs, hcompared⟩ => ?_
  subst hfs
  split
  · exact hK.failAt _ _
  · cases htypes with
    | other objects _ => cases objects.1
    | object types missing =>
        have hfound := missing fun name => fs.any fun f => f.1.text == name
        generalize (expected.find? fun p => !fs.any fun f => f.1.text == p.1) = found,
          (expected'.find? fun p => !fs.any fun f => f.1.text == p.1) = found' at hfound
        cases hfound with
        | some hfaults =>
            apply linked_fail
            rw [h.span]
            exact hfaults _
        | none => exact linked_checkFields hK types hcompared

end Rules

namespace Judgments

variable {K : Comparison} (hK : K.Lawful) {cx cy : Context} (h : K.rooms cx cy)
include hK h

theorem compared_ofSynth (e : Expr) {rule : Context → Traced Ty}
    (hrule : ∀ inner inner', K.Inside inner inner' → inner.env = cx.env → inner'.env = cy.env →
      K.Linked K.types (rule inner) (rule inner')) : (ofSynth e rule).Compared K cx cy := by
  refine ⟨hK.judge h hrule, fun htu => hK.judge h fun inner inner' hinside henv henv' => ?_⟩
  -- Checking starts synthesis from a context of its own, with the same bindings.
  refine Rules.linked_checkBySynth hK hinside (hK.judge hinside.room ?_) htu
  rw [henv, henv']
  exact hrule

theorem compared_ofObject (e : Expr) {entries : List Entry}
    (hentries : ∀ inner inner', K.Inside inner inner' → inner.env = cx.env → inner'.env = cy.env →
      ∀ name value, .field name value ∈ entries → value.Compared K inner inner') :
    (ofObject e entries).Compared K cx cy := by
  have hgeneric : (ofSynth e (Rules.object entries)).Compared K cx cy :=
    compared_ofSynth hK h e fun inner inner' hinside henv henv' =>
      Rules.linked_object hK (hentries inner inner' hinside henv henv')
  refine ⟨hgeneric.synth, fun {t u} htu => ?_⟩
  have hshape := hK.shape htu
  cases t with
  | object expected =>
      cases hshape with
      | other objects _ => cases objects.1
      | object types missing =>
          refine hK.judge h fun inner inner' hinside henv henv' => Linked.record ?_
          exact Rules.linked_checkObject hK hinside (hentries inner inner' hinside henv henv')
            (.object types missing)
  | _ =>
      cases u with
      | object expected =>
          cases hshape with
          | other objects _ => cases objects.2
      | _ => exact hgeneric.check htu

end Judgments

open Judgments

variable {K : Comparison}

mutual

/-- Both judgments respect every lawful comparison, as far as the free names of the expression do. -/
theorem Expr.compared_judgments (hK : K.Lawful) (e : Expr) {cx cy : Context} (h : K.rooms cx cy)
    (henv : K.AgreeOn (fun x => e.hasFree x) cx.env cy.env) : e.judgments.Compared K cx cy := by
  match e with
  | .ident _ name =>
      refine compared_ofSynth hK h _ fun inner inner' hinside hx hy => ?_
      rw [← hx, ← hy] at henv
      exact Rules.linked_ident hK hinside (henv name (beq_self_eq_true name))
  | .null _ => exact compared_ofSynth hK h _ fun _ _ _ _ _ => linked_pure (hK.types_refl (.prim _))
  | .literal _ value =>
      refine compared_ofSynth hK h _ fun inner inner' hinside _ _ => linked_pure ?_
      have hpolicy := hK.literals hinside.room
      unfold Context.literal
      rw [hpolicy]
      split
      · exact hK.types_refl (.literal value)
      · exact hK.types_refl (.prim value.base)
  | .object _ properties =>
      refine compared_ofObject hK h _ fun inner inner' hinside hx hy => ?_
      rw [← hx, ← hy] at henv
      exact Property.compared_entries hK properties hinside.room henv
  | .member _ object name =>
      refine compared_ofSynth hK h _ fun inner inner' hinside hx hy => ?_
      rw [← hx, ← hy] at henv
      exact Rules.linked_member hK hinside object (object.compared_judgments hK hinside.room henv) name
  | .computed _ _ _ => exact compared_ofSynth hK h _ fun _ _ hinside _ _ => hK.fail hinside _
  | .ascription _ subject type =>
      refine compared_ofSynth hK h _ fun inner inner' hinside hx hy => ?_
      rw [← hx, ← hy] at henv
      exact Rules.linked_ascription hK hinside (subject.compared_judgments hK hinside.room henv) type
  | .function _ params body =>
      refine compared_ofSynth hK h _ fun inner inner' hinside hx hy => ?_
      rw [← hx, ← hy] at henv
      exact Rules.linked_function hK hinside params
        (fun _ _ hbody hon => body.compared_judgments hK hbody.room hon) henv
  | .call _ callee args =>
      refine compared_ofSynth hK h _ fun inner inner' hinside hx hy => ?_
      rw [← hx, ← hy] at henv
      exact Rules.linked_call hK hinside callee
        (callee.compared_judgments hK hinside.room henv.left)
        (Expr.compared_judgmentsAll hK args hinside.room henv.right)
  | .binary _ op left right =>
      refine compared_ofSynth hK h _ fun inner inner' hinside hx hy => ?_
      rw [← hx, ← hy] at henv
      exact Rules.linked_binary hK hinside op (left.compared_judgments hK hinside.room henv.left)
        (right.compared_judgments hK hinside.room henv.right)
  | .logical _ op left right =>
      refine compared_ofSynth hK h _ fun inner inner' hinside hx hy => ?_
      rw [← hx, ← hy] at henv
      exact Rules.linked_logical hK hinside op (left.compared_judgments hK hinside.room henv.left)
        (right.compared_judgments hK hinside.room henv.right)
  | .unary _ op operand =>
      refine compared_ofSynth hK h _ fun inner inner' hinside hx hy => ?_
      rw [← hx, ← hy] at henv
      exact Rules.linked_unary hK hinside op (operand.compared_judgments hK hinside.room henv)

theorem Expr.compared_judgmentsAll (hK : K.Lawful) (es : List Expr) {cx cy : Context}
    (h : K.rooms cx cy) (henv : K.AgreeOn (fun x => Expr.someFree x es) cx.env cy.env) :
    ∀ j ∈ Expr.judgmentsAll es, j.Compared K cx cy := by
  match es with
  | [] => exact List.forall_mem_nil _
  | e :: es =>
      exact List.forall_mem_cons.mpr ⟨e.compared_judgments hK h henv.left,
        Expr.compared_judgmentsAll hK es h henv.right⟩

theorem Property.compared_entries (hK : K.Lawful) (ps : List Property) {cx cy : Context}
    (h : K.rooms cx cy) (henv : K.AgreeOn (fun x => Property.someFree x ps) cx.env cy.env)
    (name : Name) (value : Judgments) (hmem : .field name value ∈ Property.entries ps) :
    value.Compared K cx cy := by
  match ps with
  | [] => cases hmem
  | .field _ e :: ps =>
      rcases List.mem_cons.mp hmem with hhead | hmem
      · cases hhead
        exact e.compared_judgments hK h henv.left
      · exact Property.compared_entries hK ps h henv.right name value hmem
  | .spread _ :: ps =>
      rcases List.mem_cons.mp hmem with hhead | hmem
      · cases hhead
      · exact Property.compared_entries hK ps h henv.right name value hmem

end

end Structura
