import Structura.Proofs.CheckingSynthesis

namespace Structura

/-- The ways in which computations are put together. No value is recorded as a failure. -/
inductive Traced.Built : {α : Type} → Traced α → Prop
  | pure {α : Type} (a : α) : Built (pure a : Traced α)
  | fail {α : Type} (fault : Fault) (span : Span) : Built (.fail fault span : Traced α)
  | bind {α β : Type} {x : Traced α} {f : α → Traced β} : Built x →
      (∀ a, x.result = .ok a → Built (f a)) → Built (x >>= f)
  | record {α : Type} {x : Traced α} {rule : Rule} {subject : Subject} {value : α → Outcome} :
      (∀ a d, value a ≠ .failed d) → Built x → Built (x.record rule subject value)

namespace Traced.Built

variable {α β : Type}

theorem map {x : Traced α} (hx : x.Built) (f : α → β) : (f <$> x).Built :=
  .bind (f := fun a => Pure.pure (f a)) hx fun a _ => .pure (f a)

theorem each {f : α → Traced β} (hf : ∀ a, (f a).Built) (as : List α) : (Traced.each f as).Built := by
  induction as with
  | nil => exact .pure []
  | cons a as ih => exact .bind (hf a) fun b _ => .bind ih fun bs _ => .pure (b :: bs)

end Traced.Built

open Traced

namespace Context

variable {cx : Context} {rule : Rule}

theorem built_judge {α : Type} {span : Span} {subject : Subject} {value : α → Outcome}
    {body : Context → Traced α} (hvalue : ∀ a d, value a ≠ .failed d) (hbody : ∀ cx, (body cx).Built) :
    (cx.judge span rule subject value body).Built := by
  refine .bind ?_ fun inner _ => .record hvalue (hbody inner)
  unfold descend
  split
  · exact .pure _
  · exact .fail _ _

theorem built_object (cx : Context) (ps : List (String × Ty)) : (cx.object ps).Built := by
  unfold object
  split
  · exact .pure _
  · exact .fail _ _

theorem built_checkBranches (count : Nat) : (cx.checkBranches count).Built := by
  unfold checkBranches
  split
  · exact .pure ()
  · exact .fail _ _

theorem built_onBranches {t : Ty} {body : Ty → Traced Ty} (hbody : ∀ b, (body b).Built) :
    (cx.onBranches rule t body).Built := by
  cases t with
  | union members =>
      refine .bind (built_checkBranches _) fun _ _ => .bind ?_ fun results _ => .pure _
      refine .each (fun b => ?_) members
      exact .record (fun _ _ => nofun) (hbody b)
  | _ => exact .record (fun _ _ => nofun) (hbody _)

theorem built_onPairs {left right : Ty} {body : Ty → Ty → Traced Ty} (hbody : ∀ l r, (body l r).Built) :
    (cx.onPairs rule left right body).Built := by
  unfold onPairs
  split
  · refine .bind (built_checkBranches _) fun _ _ => .bind ?_ fun results _ => .pure _
    refine .each (fun p => ?_) _
    exact .record (fun _ _ => nofun) (hbody p.1 p.2)
  · exact .record (fun _ _ => nofun) (hbody left right)

end Context

mutual

theorem TypeExpr.built_convert (e : TypeExpr) (cx : Context) : (e.convert cx).Built := by
  rw [TypeExpr.convert]
  refine Context.built_judge (fun _ _ => nofun) fun inner => ?_
  match e with
  | .prim _ p => exact .pure _
  | .unknown _ => exact .pure _
  | .never _ => exact .pure _
  | .literal _ value => exact .pure _
  | .object _ members =>
      exact .bind (Signature.built_convertMembers members inner []) fun ps _ => inner.built_object ps
  | .function _ params result =>
      refine .bind (Signature.built_convertParams params inner) fun ps _ => ?_
      exact .bind (TypeExpr.built_convert result inner) fun r _ => .pure _
  | .union _ members => exact (TypeExpr.built_convertAll members inner).map Ty.join
  | .inter _ members =>
      refine .bind (TypeExpr.built_convertAll members inner) fun ts _ => ?_
      exact .bind (Context.built_checkBranches _) fun _ _ => .pure _

theorem TypeExpr.built_convertAll (es : List TypeExpr) (cx : Context) :
    (TypeExpr.convertAll es cx).Built := by
  rw [TypeExpr.convertAll.eq_def]
  match es with
  | [] => exact .pure []
  | e :: es =>
      refine .bind (TypeExpr.built_convert e cx) fun t _ => ?_
      exact .bind (TypeExpr.built_convertAll es cx) fun ts _ => .pure (t :: ts)

theorem Signature.built_convertMembers (members : List Signature) (cx : Context) (seen : List String) :
    (Signature.convertMembers members cx seen).Built := by
  rw [Signature.convertMembers.eq_def]
  match members with
  | [] => exact .pure []
  | .bare _ :: _ => exact .fail _ _
  | .typed name e :: rest =>
      dsimp only
      split
      · exact .fail _ _
      · refine .bind (TypeExpr.built_convert e cx) fun t _ => ?_
        exact .bind (Signature.built_convertMembers rest cx (name.text :: seen)) fun ts _ => .pure _

theorem Signature.built_convertParams (params : List Signature) (cx : Context) :
    (Signature.convertParams params cx).Built := by
  rw [Signature.convertParams.eq_def]
  match params with
  | [] => exact .pure []
  | .bare _ :: _ => exact .fail _ _
  | .typed _ e :: rest =>
      refine .bind (TypeExpr.built_convert e cx) fun t _ => ?_
      exact .bind (Signature.built_convertParams rest cx) fun ts _ => .pure (t :: ts)

end

theorem BinaryOp.built_apply (op : BinaryOp) (cx : Context) (left right : Ty) :
    (op.apply cx left right).Built := by
  cases op with
  | equal | notEqual => exact .pure _
  | add =>
      refine .bind (.record (fun _ _ => nofun) (.pure _)) fun numbers _ => ?_
      split
      · exact .fail _ _
      · split
        · exact .pure _
        · exact .fail _ _
        · exact .pure _

structure Judgments.Built (j : Judgments) : Prop where
  synth (cx : Context) : (j.synth cx).Built
  check (cx : Context) (t : Ty) : (j.check cx t).Built

def Entry.Built : Entry → Prop
  | .field _ value => value.Built
  | .spread _ => True

namespace Rules

variable {cx : Context} {entries : List Entry} {j left right : Judgments}

theorem built_ident (name : String) : (ident name cx).Built := by
  unfold ident
  split
  · exact .pure _
  · exact .fail _ _

theorem built_synthFields (h : ∀ entry ∈ entries, entry.Built) (seen : List String) :
    (synthFields cx entries seen).Built := by
  induction entries generalizing seen with
  | nil => exact .pure []
  | cons entry rest ih =>
      obtain ⟨hentry, hrest⟩ := List.forall_mem_cons.mp h
      cases entry with
      | spread span => exact .fail _ _
      | field name value =>
          rw [synthFields]
          split
          · exact .fail _ _
          · exact .bind (hentry.synth cx) fun t _ => .bind (ih hrest _) fun ts _ => .pure _

theorem built_member (object : Expr) (h : j.Built) (name : Name) : (member object j name cx).Built := by
  refine .bind (h.synth cx) fun t _ => Context.built_onBranches fun b => ?_
  split
  · split
    · exact .pure _
    · exact .fail _ _
  · exact .fail _ _

theorem built_ascription (h : j.Built) (type : TypeExpr) : (ascription j type cx).Built :=
  .bind (type.built_convert cx) fun t _ => .bind (h.check cx t) fun _ _ => .pure t

theorem built_params (signature : List Signature) (inner : Context) : (params cx signature inner).Built := by
  induction signature generalizing inner with
  | nil => exact .pure _
  | cons s rest ih =>
      cases s with
      | bare name => exact .fail _ _
      | typed name e =>
          exact .bind (e.built_convert cx) fun t _ => .bind (ih (inner.bind name.text t)) fun r _ => .pure _

theorem built_function (signature : List Signature) (h : j.Built) : (function signature j cx).Built :=
  .bind (built_params signature cx) fun r _ => .bind (h.synth r.2) fun _ _ => .pure _

theorem built_checkArgs {args : List Judgments} (h : ∀ arg ∈ args, arg.Built) (ts : List Ty) :
    (checkArgs cx args ts).Built := by
  induction args generalizing ts with
  | nil => exact .pure ()
  | cons arg args ih =>
      obtain ⟨harg, hargs⟩ := List.forall_mem_cons.mp h
      cases ts with
      | nil => exact .pure ()
      | cons t ts => exact .bind (harg.check cx t) fun _ _ => ih hargs ts

theorem built_call (callee : Expr) (h : j.Built) {args : List Judgments} (hargs : ∀ arg ∈ args, arg.Built) :
    (call callee j args cx).Built := by
  refine .bind (h.synth cx) fun t _ => Context.built_onBranches fun b => ?_
  split
  · split
    · exact .bind (built_checkArgs hargs _) fun _ _ => .pure _
    · exact .fail _ _
  · exact .fail _ _

theorem built_binary (op : BinaryOp) (hl : left.Built) (hr : right.Built) : (binary op left right cx).Built :=
  .bind (hl.synth cx) fun _ _ => .bind (hr.synth cx) fun _ _ => Context.built_onPairs (op.built_apply cx)

theorem built_logical (op : LogicalOp) (hl : left.Built) (hr : right.Built) :
    (logical op left right cx).Built :=
  .bind (hl.synth cx) fun _ _ => .bind (hr.synth cx) fun _ _ => Context.built_onPairs fun _ _ => .pure _

theorem built_unary (op : UnaryOp) (h : j.Built) : (unary op j cx).Built :=
  .bind (h.synth cx) fun _ _ => Context.built_onBranches fun _ => .pure _

theorem built_checkBySynth {synth : Context → Traced Ty} (h : ∀ cx, (synth cx).Built) (t : Ty) :
    (checkBySynth synth t cx).Built := by
  refine .bind (h cx) fun s _ => .bind (.record (fun _ _ => nofun) (.pure _)) fun fits _ => ?_
  split
  · exact .pure ()
  · exact .fail _ _

theorem built_fields (entries : List Entry) : (fields entries).Built := by
  induction entries with
  | nil => exact .pure []
  | cons entry rest ih =>
      cases entry with
      | spread span => exact .fail _ _
      | field name value => exact .bind ih fun fs _ => .pure _

theorem built_checkFields (expected : List (String × Ty)) {fs : List (Name × Judgments)}
    (h : ∀ f ∈ fs, f.2.Built) : (checkFields cx expected fs).Built := by
  induction fs with
  | nil => exact .pure ()
  | cons f fs ih =>
      obtain ⟨hf, hfs⟩ := List.forall_mem_cons.mp h
      rw [checkFields.eq_def]
      dsimp only
      split
      · exact .bind (hf.check cx _) fun _ _ => ih hfs
      · exact .fail _ _

theorem built_checkObject (h : ∀ entry ∈ entries, entry.Built) (expected : List (String × Ty)) :
    (checkObject entries expected cx).Built := by
  refine .bind (built_fields entries) fun fs hfs => ?_
  have hvalues : ∀ f ∈ fs, f.2.Built := by
    rw [fields_eq_ok hfs] at h
    exact fun f hf => h _ (List.mem_map_of_mem hf)
  split
  · exact .fail _ _
  · split
    · exact .fail _ _
    · exact built_checkFields expected hvalues

end Rules

namespace Judgments

variable {e : Expr}

theorem built_ofSynth {rule : Context → Traced Ty} (h : ∀ cx, (rule cx).Built) : (ofSynth e rule).Built := by
  have hsynth (cx : Context) : ((ofSynth e rule).synth cx).Built := Context.built_judge (fun _ _ => nofun) h
  refine ⟨hsynth, fun cx t => Context.built_judge (fun _ _ => nofun) fun inner => ?_⟩
  exact Rules.built_checkBySynth hsynth t

theorem built_ofObject {entries : List Entry} (h : ∀ entry ∈ entries, entry.Built) :
    (ofObject e entries).Built := by
  have hgeneric : (ofSynth e (Rules.object entries)).Built :=
    built_ofSynth fun cx => .bind (Rules.built_synthFields h []) fun ps _ => cx.built_object ps
  refine ⟨hgeneric.synth, fun cx t => ?_⟩
  cases t with
  | object expected =>
      refine Context.built_judge (fun _ _ => nofun) fun inner => .record (fun _ _ => nofun) ?_
      exact Rules.built_checkObject h expected
  | _ => exact hgeneric.check cx _

end Judgments

mutual

theorem Expr.built_judgments (e : Expr) : e.judgments.Built := by
  match e with
  | .ident _ name => exact Judgments.built_ofSynth fun cx => Rules.built_ident name
  | .null _ => exact Judgments.built_ofSynth fun cx => .pure _
  | .literal _ value => exact Judgments.built_ofSynth fun cx => .pure _
  | .object _ properties => exact Judgments.built_ofObject (Property.built_entries properties)
  | .member _ object name =>
      exact Judgments.built_ofSynth fun cx => Rules.built_member object object.built_judgments name
  | .computed _ _ _ => exact Judgments.built_ofSynth fun cx => .fail _ _
  | .ascription _ subject type =>
      exact Judgments.built_ofSynth fun cx => Rules.built_ascription subject.built_judgments type
  | .function _ params body =>
      exact Judgments.built_ofSynth fun cx => Rules.built_function params body.built_judgments
  | .call _ callee args =>
      have hargs := Expr.built_judgmentsAll args
      exact Judgments.built_ofSynth fun cx => Rules.built_call callee callee.built_judgments hargs
  | .binary _ op left right =>
      have hleft := left.built_judgments
      exact Judgments.built_ofSynth fun cx => Rules.built_binary op hleft right.built_judgments
  | .logical _ op left right =>
      have hleft := left.built_judgments
      exact Judgments.built_ofSynth fun cx => Rules.built_logical op hleft right.built_judgments
  | .unary _ op operand =>
      exact Judgments.built_ofSynth fun cx => Rules.built_unary op operand.built_judgments

theorem Expr.built_judgmentsAll (es : List Expr) : ∀ j ∈ Expr.judgmentsAll es, j.Built := by
  match es with
  | [] => exact List.forall_mem_nil _
  | e :: es => exact List.forall_mem_cons.mpr ⟨e.built_judgments, Expr.built_judgmentsAll es⟩

theorem Property.built_entries (ps : List Property) : ∀ entry ∈ Property.entries ps, entry.Built := by
  match ps with
  | [] => exact List.forall_mem_nil _
  | .field name value :: ps =>
      exact List.forall_mem_cons.mpr ⟨value.built_judgments, Property.built_entries ps⟩
  | .spread value :: ps => exact List.forall_mem_cons.mpr ⟨trivial, Property.built_entries ps⟩

end

inductive Record.Succeeded : Record → Prop
  | mk {rule : Rule} {subject : Subject} {inner : List Record} {outcome : Outcome} :
      (∀ d, outcome ≠ .failed d) → (∀ r ∈ inner, Succeeded r) → Succeeded (.mk rule subject inner outcome)

/-- What is left of judgments that a failure ended. Only the last of them may have failed, and then for the same
reason as the last one inside it. -/
inductive Record.Unwound (d : Diagnostic) : List Record → Prop
  | here {rs : List Record} : (∀ r ∈ rs, r.Succeeded) → Unwound d rs
  | inside {rs : List Record} {rule : Rule} {subject : Subject} {inner : List Record} :
      (∀ r ∈ rs, r.Succeeded) → Unwound d inner → Unwound d (rs ++ [.mk rule subject inner (.failed d)])

theorem Record.Unwound.append {d : Diagnostic} {rs ss : List Record} (hrs : ∀ r ∈ rs, r.Succeeded)
    (h : Unwound d ss) : Unwound d (rs ++ ss) := by
  cases h with
  | here hss => exact .here (List.forall_mem_append.mpr ⟨hrs, hss⟩)
  | inside hss hinner =>
      rw [← List.append_assoc]
      exact .inside (List.forall_mem_append.mpr ⟨hrs, hss⟩) hinner

/-- The failure of a judgment comes from inside it. -/
theorem Record.Unwound.inner {d : Diagnostic} {rule : Rule} {subject : Subject} {inner : List Record}
    (h : Unwound d [.mk rule subject inner (.failed d)]) : Unwound d inner := by
  generalize hrs : [Record.mk rule subject inner (.failed d)] = rs at h
  cases h with
  | here hall =>
      rw [← hrs] at hall
      cases List.forall_mem_singleton.mp hall with
      | mk houtcome _ => exact absurd rfl (houtcome d)
  | inside _ hinner =>
      obtain ⟨-, hlast⟩ | ⟨-, hnone⟩ := List.append_eq_singleton_iff.mp hrs.symm
      · cases hlast
        exact hinner
      · cases hnone

def Traced.Orderly {α : Type} (x : Traced α) : Prop :=
  match x.result with
  | .ok _ => ∀ r ∈ x.records, r.Succeeded
  | .error d => Record.Unwound d x.records

namespace Traced

variable {α β : Type} {x : Traced α}

theorem Orderly.bind {f : α → Traced β} (hx : x.Orderly) (hf : ∀ a, x.result = .ok a → (f a).Orderly) :
    (x >>= f).Orderly := by
  change (Traced.bind x f).Orderly
  unfold Orderly at hx
  unfold Traced.bind
  cases h : x.result with
  | error d =>
      rw [h] at hx
      exact hx
  | ok a =>
      rw [h] at hx
      have hrest := hf a h
      unfold Orderly at hrest ⊢
      dsimp only
      cases hr : (f a).result with
      | ok b =>
          rw [hr] at hrest
          exact List.forall_mem_append.mpr ⟨hx, hrest⟩
      | error d =>
          rw [hr] at hrest
          exact hrest.append hx

theorem Orderly.record {rule : Rule} {subject : Subject} {value : α → Outcome}
    (hvalue : ∀ a d, value a ≠ .failed d) (hx : x.Orderly) : (x.record rule subject value).Orderly := by
  unfold Orderly at hx ⊢
  unfold Traced.record
  dsimp only
  cases h : x.result with
  | ok a =>
      rw [h] at hx
      exact List.forall_mem_singleton.mpr (.mk (hvalue a) hx)
  | error d =>
      rw [h] at hx
      exact .inside (List.forall_mem_nil _) hx

/-- No way of putting computations together handles a failure. -/
theorem Built.orderly (h : x.Built) : x.Orderly := by
  induction h with
  | pure a => exact List.forall_mem_nil _
  | fail fault span => exact .here (List.forall_mem_nil _)
  | bind _ _ hx hf => exact hx.bind hf
  | record hvalue _ hx => exact hx.record hvalue

end Traced

end Structura
