import Structura.Program
import Structura.Proofs.Bindings
import Structura.Proofs.OperatorCases
import Structura.Proofs.Outcomes
import Structura.Proofs.SourceNodes

namespace Structura

open Traced

/-- A property of types that the rules keep. -/
structure Ty.Invariant where
  holds : Ty → Prop
  named : String → Prop
  never : holds .never
  unknown : holds .unknown
  prim (p : Primitive) : holds (.prim p)
  boolean (b : Bool) : holds (.literal (.boolean b))
  number (n : Binary64) : holds (.literal (.number n))
  object {ps : List (String × Ty)} : (ps.map Prod.fst).Nodup → (∀ p ∈ ps, named p.1 ∧ holds p.2) →
    holds (.object ps)
  function {ps : List Ty} {r : Ty} : (∀ p ∈ ps, holds p) → holds r → holds (.function ps r)
  join {ts : List Ty} : (∀ t ∈ ts, holds t) → holds (.join ts)
  meet {ts : List Ty} : (∀ t ∈ ts, holds t) → holds (.meet ts)
  tag (t : Ty) : holds t.tag
  branch {t b : Ty} : holds t → b ∈ t.branches → holds b
  property {ps : List (String × Ty)} {p : String × Ty} : holds (.object ps) → p ∈ ps → named p.1 ∧ holds p.2
  param {ps : List Ty} {r p : Ty} : holds (.function ps r) → p ∈ ps → holds p
  result {ps : List Ty} {r : Ty} : holds (.function ps r) → holds r

def Ty.Invariant.any : Invariant where
  holds _ := True
  named _ := True
  never := trivial
  unknown := trivial
  prim _ := trivial
  boolean _ := trivial
  number _ := trivial
  object _ _ := trivial
  function _ _ := trivial
  join _ := trivial
  meet _ := trivial
  tag _ := trivial
  branch _ _ := trivial
  property _ _ := ⟨trivial, trivial⟩
  param _ _ := trivial
  result _ := trivial

theorem Env.all_any (env : Env) : env.All Ty.Invariant.any.holds := fun _ _ _ => trivial

namespace SourceNode

def Brings (I : Ty.Invariant) : SourceNode → Prop
  | .expr (.literal _ value) | .type (.literal _ value) => I.holds (.literal value)
  | .name n => I.named n.text
  | _ => True

/-- The faults that the rules for one node find, with their places. The types in them have the property. -/
inductive Reports (I : Ty.Invariant) : SourceNode → Fault → Span → Prop
  | tooDeep (e : Expr) (limit : Nat) : Reports I (.expr e) (.tooDeep limit) e.span
  | typeTooDeep (t : TypeExpr) (limit : Nat) : Reports I (.type t) (.tooDeep limit) t.span
  | statementTooDeep (s : Statement) (limit : Nat) : Reports I (.statement s) (.tooDeep limit) s.span
  | tooManyBranches (e : Expr) (count limit : Nat) :
      Reports I (.expr e) (.tooManyBranches count limit) e.span
  | typeTooManyBranches (t : TypeExpr) (count limit : Nat) :
      Reports I (.type t) (.tooManyBranches count limit) t.span
  | mismatch (e : Expr) {expected actual : Ty} : I.holds expected → I.holds actual →
      Reports I (.expr e) (.mismatch expected actual) e.span
  | unbound (span : Span) (name : String) : Reports I (.expr (.ident span name)) (.unbound name) span
  | duplicateField {span : Span} {properties : List Property} {n : Name} {value : Expr} :
      .field n value ∈ properties →
      Reports I (.expr (.object span properties)) (.duplicateProperty n.text) n.span
  | extraField {span : Span} {properties : List Property} {n : Name} {value : Expr} :
      .field n value ∈ properties →
      Reports I (.expr (.object span properties)) (.extraProperty n.text) n.span
  | spread {span : Span} {properties : List Property} {value : Expr} : .spread value ∈ properties →
      Reports I (.expr (.object span properties)) .spreadProperty value.span
  | missing (span : Span) (properties : List Property) {text : String} : I.named text →
      Reports I (.expr (.object span properties)) (.missingProperty text) span
  | nonObject (span : Span) (object : Expr) (n : Name) :
      Reports I (.expr (.member span object n)) .memberOfNonObject object.span
  | noSuchProperty (span : Span) (object : Expr) (n : Name) :
      Reports I (.expr (.member span object n)) (.noSuchProperty n.text) n.span
  | computed (span : Span) (object index : Expr) :
      Reports I (.expr (.computed span object index)) .computedMember span
  | untypedParam {span : Span} {params : List Signature} {n : Name} {body : Expr} : .bare n ∈ params →
      Reports I (.expr (.function span params body)) (.untypedParam n.text) n.span
  | nonFunction (span : Span) (callee : Expr) (args : List Expr) :
      Reports I (.expr (.call span callee args)) .callOfNonFunction callee.span
  | wrongArity (span : Span) (callee : Expr) (args : List Expr) (expected given : Nat) :
      Reports I (.expr (.call span callee args)) (.wrongArity expected given) span
  | nonNumber (span : Span) (left right : Expr) :
      Reports I (.expr (.binary span .add left right)) .addOfNonNumber span
  | duplicateMember {span : Span} {members : List Signature} {n : Name} {t : TypeExpr} :
      .typed n t ∈ members →
      Reports I (.type (.object span members)) (.duplicateProperty n.text) n.span
  | untypedMember {span : Span} {members : List Signature} {n : Name} : .bare n ∈ members →
      Reports I (.type (.object span members)) (.untypedSignature n.text) n.span
  | untypedTypeParam {span : Span} {params : List Signature} {n : Name} {result : TypeExpr} :
      .bare n ∈ params →
      Reports I (.type (.function span params result)) (.untypedSignature n.text) n.span

/-- What a node and those below it bring has the property, and all that they report is among the diagnostics. -/
def Allows (I : Ty.Invariant) (bad : Diagnostic → Prop) (root : SourceNode) : Prop :=
  root.Throughout fun node => node.Brings I ∧ ∀ fault span, node.Reports I fault span → bad (.located fault span)

variable {I : Ty.Invariant} {bad : Diagnostic → Prop} {node below : SourceNode}

theorem Allows.brings (h : node.Allows I bad) : node.Brings I := (h node .self).1

theorem Allows.reports (h : node.Allows I bad) {fault : Fault} {span : Span}
    (hreports : node.Reports I fault span) : bad (.located fault span) :=
  (h node .self).2 fault span hreports

theorem Allows.child (h : node.Allows I bad) (hbelow : below ∈ node.children) : below.Allows I bad :=
  (throughout_iff.mp h).2 below hbelow

theorem brings_of_literals (hliteral : ∀ value, I.holds (.literal value)) (hname : ∀ text, I.named text)
    (node : SourceNode) : node.Brings I := by
  unfold Brings
  split
  · exact hliteral _
  · exact hliteral _
  · exact hname _
  · trivial

theorem allows_any (h : ∀ below, node.Contains below → ∀ fault span, below.Reports .any fault span →
    bad (.located fault span)) : node.Allows .any bad := by
  intro below hbelow
  exact ⟨brings_of_literals (fun _ => trivial) (fun _ => trivial) below, h below hbelow⟩

end SourceNode

structure Context.Upholds (I : Ty.Invariant) (bad : Diagnostic → Prop) (cx : Context) : Prop where
  env : cx.env.All I.holds
  deep (limit : Nat) : bad (.located (.tooDeep limit) cx.span)

def Ty.Invariant.Fresh (I : Ty.Invariant) (seen : List String) (ps : List (String × Ty)) : Prop :=
  (ps.map Prod.fst).Nodup ∧ ∀ p ∈ ps, p.1 ∉ seen ∧ I.named p.1 ∧ I.holds p.2

variable {I : Ty.Invariant} {bad : Diagnostic → Prop}

namespace Ty.Invariant

theorem Fresh.nil (seen : List String) : I.Fresh seen [] := ⟨List.nodup_nil, List.forall_mem_nil _⟩

theorem Fresh.cons {seen : List String} {name : String} {t : Ty} {ps : List (String × Ty)}
    (hseen : ¬seen.contains name = true) (hname : I.named name) (ht : I.holds t)
    (hps : I.Fresh (name :: seen) ps) : I.Fresh seen ((name, t) :: ps) := by
  obtain ⟨hnodup, hfresh⟩ := hps
  refine ⟨List.nodup_cons.mpr ⟨fun hmem => ?_, hnodup⟩, List.forall_mem_cons.mpr ⟨⟨?_, hname, ht⟩, ?_⟩⟩
  · obtain ⟨p, hp, hpn⟩ := List.mem_map.mp hmem
    exact (hfresh p hp).1 (hpn ▸ List.mem_cons_self)
  · simpa using hseen
  · exact fun p hp => ⟨fun hs => (hfresh p hp).1 (List.mem_cons_of_mem name hs), (hfresh p hp).2⟩

theorem Fresh.object {seen : List String} {ps : List (String × Ty)} (h : I.Fresh seen ps) :
    I.holds (.object ps) :=
  I.object h.1 fun p hp => (h.2 p hp).2

theorem Fresh.ends_object {cx : Context} {seen : List String} {ps : List (String × Ty)} (h : I.Fresh seen ps) :
    (cx.object ps).Ends I.holds bad := by
  rw [Context.object_eq_pure h.1]
  exact ends_pure.mpr h.object

end Ty.Invariant

mutual

theorem TypeExpr.ends_convert (e : TypeExpr) (h : (SourceNode.type e).Allows I bad) {cx : Context}
    (hdeep : ∀ limit, bad (.located (.tooDeep limit) cx.span)) : (e.convert cx).Ends I.holds bad := by
  rw [TypeExpr.convert]
  refine Context.ends_judge (hdeep _) ?_
  have hinner (limit : Nat) : bad (.located (.tooDeep limit) e.span) := h.reports (.typeTooDeep e limit)
  match e with
  | .prim _ p => exact ends_pure.mpr (I.prim p)
  | .unknown _ => exact ends_pure.mpr I.unknown
  | .never _ => exact ends_pure.mpr I.never
  | .literal _ value => exact ends_pure.mpr h.brings
  | .object _ members =>
      refine (Signature.ends_convertMembers members ?_ ?_ ?_ ?_ hinner []).bind fun ps hps => hps.ends_object
      · exact fun n hn => h.reports (.untypedMember hn)
      · exact fun n t ht => h.reports (.duplicateMember ht)
      · exact fun n t ht => (h.child (Signature.name_mem_nodes ht)).brings
      · exact fun n t ht => h.child (Signature.type_mem_nodes ht)
  | .function _ params result =>
      refine (Signature.ends_convertParams params ?_ ?_ hinner).bind fun ps hps => ?_
      · exact fun n hn => h.reports (.untypedTypeParam hn)
      · exact fun n t ht => h.child (List.mem_append_left _ (Signature.type_mem_nodes ht))
      · refine (TypeExpr.ends_convert result ?_ hinner).bind fun r hr => ends_pure.mpr (I.function hps hr)
        exact h.child (List.mem_append_right _ (List.mem_singleton_self _))
  | .union _ members =>
      refine (TypeExpr.ends_convertAll members ?_ hinner).map fun ts hts => I.join hts
      exact fun t ht => h.child (List.mem_map_of_mem ht)
  | .inter span members =>
      refine (TypeExpr.ends_convertAll members ?_ hinner).bind fun ts hts => ?_
      · exact fun t ht => h.child (List.mem_map_of_mem ht)
      · refine (Context.ends_checkBranches ?_).bind fun _ _ => ends_pure.mpr (I.meet hts)
        exact h.reports (.typeTooManyBranches (.inter span members) _ _)

theorem TypeExpr.ends_convertAll (es : List TypeExpr) (h : ∀ e ∈ es, (SourceNode.type e).Allows I bad)
    {cx : Context} (hdeep : ∀ limit, bad (.located (.tooDeep limit) cx.span)) :
    (TypeExpr.convertAll es cx).Ends (fun ts => ∀ t ∈ ts, I.holds t) bad := by
  rw [TypeExpr.convertAll.eq_def]
  match es with
  | [] => exact ends_pure.mpr (List.forall_mem_nil _)
  | e :: es =>
      obtain ⟨he, hes⟩ := List.forall_mem_cons.mp h
      refine (TypeExpr.ends_convert e he hdeep).bind fun t ht => ?_
      refine (TypeExpr.ends_convertAll es hes hdeep).bind fun ts hts => ?_
      exact ends_pure.mpr (List.forall_mem_cons.mpr ⟨ht, hts⟩)

theorem Signature.ends_convertMembers (members : List Signature)
    (hbare : ∀ n, .bare n ∈ members → bad (.located (.untypedSignature n.text) n.span))
    (hdouble : ∀ n t, .typed n t ∈ members → bad (.located (.duplicateProperty n.text) n.span))
    (hnames : ∀ n t, .typed n t ∈ members → I.named n.text)
    (h : ∀ n t, .typed n t ∈ members → (SourceNode.type t).Allows I bad) {cx : Context}
    (hdeep : ∀ limit, bad (.located (.tooDeep limit) cx.span)) (seen : List String) :
    (Signature.convertMembers members cx seen).Ends (I.Fresh seen) bad := by
  rw [Signature.convertMembers.eq_def]
  match members with
  | [] => exact ends_pure.mpr (.nil seen)
  | .bare n :: _ => exact ends_fail.mpr (hbare n List.mem_cons_self)
  | .typed n e :: rest =>
      dsimp only
      split
      · exact ends_fail.mpr (hdouble n e List.mem_cons_self)
      · rename_i hseen
        refine (TypeExpr.ends_convert e (h n e List.mem_cons_self) hdeep).bind fun t ht => ?_
        refine (Signature.ends_convertMembers rest ?_ ?_ ?_ ?_ hdeep _).bind fun ps hps => ?_
        · exact fun m hm => hbare m (List.mem_cons_of_mem _ hm)
        · exact fun m t ht => hdouble m t (List.mem_cons_of_mem _ ht)
        · exact fun m t ht => hnames m t (List.mem_cons_of_mem _ ht)
        · exact fun m t ht => h m t (List.mem_cons_of_mem _ ht)
        · exact ends_pure.mpr (.cons hseen (hnames n e List.mem_cons_self) ht hps)

theorem Signature.ends_convertParams (params : List Signature)
    (hbare : ∀ n, .bare n ∈ params → bad (.located (.untypedSignature n.text) n.span))
    (h : ∀ n t, .typed n t ∈ params → (SourceNode.type t).Allows I bad) {cx : Context}
    (hdeep : ∀ limit, bad (.located (.tooDeep limit) cx.span)) :
    (Signature.convertParams params cx).Ends (fun ts => ∀ t ∈ ts, I.holds t) bad := by
  rw [Signature.convertParams.eq_def]
  match params with
  | [] => exact ends_pure.mpr (List.forall_mem_nil _)
  | .bare n :: _ => exact ends_fail.mpr (hbare n List.mem_cons_self)
  | .typed n e :: rest =>
      refine (TypeExpr.ends_convert e (h n e List.mem_cons_self) hdeep).bind fun t ht => ?_
      refine (Signature.ends_convertParams rest ?_ ?_ hdeep).bind fun ts hts => ?_
      · exact fun m hm => hbare m (List.mem_cons_of_mem _ hm)
      · exact fun m t ht => h m t (List.mem_cons_of_mem _ ht)
      · exact ends_pure.mpr (List.forall_mem_cons.mpr ⟨ht, hts⟩)

end

namespace Ty.Invariant

theorem compare (I : Ty.Invariant) (expected : Bool) (left right : Ty) :
    I.holds (left.compare expected right) := by
  unfold Ty.compare
  split
  · exact I.boolean _
  · exact I.prim .boolean

/-- No literal below `number` has another value, so only operands that are no numbers are reported. -/
theorem ends_add (I : Ty.Invariant) {cx : Context} (left right : Ty)
    (h : bad (.located .addOfNonNumber cx.span)) : (left.add cx right).Ends I.holds bad := by
  refine ends_record_pure.bind fun numbers hnumbers => ?_
  split
  · exact ends_fail.mpr h
  · rename_i hall
    split
    · exact ends_pure.mpr (I.number _)
    · rename_i a b hnumber
      have hboth : (Ty.literal a).isSubtype .number = true ∧ (Ty.literal b).isSubtype .number = true := by
        simpa [hnumbers] using hall
      obtain ⟨x, rfl⟩ := exists_number_of_literal_isSubtype hboth.1
      obtain ⟨y, rfl⟩ := exists_number_of_literal_isSubtype hboth.2
      exact (hnumber x y rfl rfl).elim
    · exact ends_pure.mpr (I.prim .number)

theorem ends_binary (I : Ty.Invariant) {cx : Context} (op : BinaryOp) (left right : Ty)
    (h : op = .add → bad (.located .addOfNonNumber cx.span)) : (op.apply cx left right).Ends I.holds bad := by
  cases op with
  | equal => exact ends_pure.mpr (I.compare true left right)
  | notEqual => exact ends_pure.mpr (I.compare false left right)
  | add => exact I.ends_add left right (h rfl)

theorem logical (I : Ty.Invariant) (op : LogicalOp) {left right : Ty} (hl : I.holds left)
    (hr : I.holds right) : I.holds (op.apply left right) := by
  have hjoin : I.holds (.join [left, right]) := I.join (by simp [hl, hr])
  cases op with
  | and =>
      unfold LogicalOp.apply
      split_ifs <;> assumption
  | or =>
      unfold LogicalOp.apply
      split_ifs <;> assumption

theorem unary (I : Ty.Invariant) (op : UnaryOp) (operand : Ty) : I.holds (op.apply operand) := by
  cases op with
  | not =>
      unfold UnaryOp.apply
      split_ifs
      · exact I.boolean false
      · exact I.boolean true
      · exact I.prim .boolean
  | typeof => exact I.tag operand

end Ty.Invariant

structure Judgments.Uphold (I : Ty.Invariant) (bad : Diagnostic → Prop) (j : Judgments) : Prop where
  synth {cx : Context} (hcx : cx.Upholds I bad) : (j.synth cx).Ends I.holds bad
  check {cx : Context} (hcx : cx.Upholds I bad) {t : Ty} (ht : I.holds t) :
    (j.check cx t).Ends (fun _ => True) bad

inductive Entry.Uphold (I : Ty.Invariant) (bad : Diagnostic → Prop) : Entry → Prop
  | field {n : Name} {value : Judgments} : I.named n.text →
      bad (.located (.duplicateProperty n.text) n.span) → bad (.located (.extraProperty n.text) n.span) →
      value.Uphold I bad → Uphold I bad (.field n value)
  | spread {span : Span} : bad (.located .spreadProperty span) → Uphold I bad (.spread span)

namespace Rules

variable {cx : Context} (hcx : cx.Upholds I bad)

include hcx in
theorem ends_ident {name : String} (h : bad (.located (.unbound name) cx.span)) :
    (ident name cx).Ends I.holds bad := by
  unfold ident
  split
  · rename_i t ht
    exact ends_pure.mpr (hcx.env name t ht)
  · exact ends_fail.mpr h

include hcx in
theorem ends_synthFields {entries : List Entry} (h : ∀ entry ∈ entries, entry.Uphold I bad)
    (seen : List String) : (synthFields cx entries seen).Ends (I.Fresh seen) bad := by
  induction entries generalizing seen with
  | nil => exact ends_pure.mpr (.nil seen)
  | cons entry rest ih =>
      obtain ⟨hentry, hrest⟩ := List.forall_mem_cons.mp h
      cases hentry with
      | spread hspread => exact ends_fail.mpr hspread
      | field hname hdouble hextra hvalue =>
          rw [synthFields]
          split
          · exact ends_fail.mpr hdouble
          · rename_i hseen
            refine (hvalue.synth hcx).bind fun t ht => ?_
            exact (ih hrest _).bind fun ps hps => ends_pure.mpr (.cons hseen hname ht hps)

include hcx in
theorem ends_object {entries : List Entry} (h : ∀ entry ∈ entries, entry.Uphold I bad) :
    (object entries cx).Ends I.holds bad :=
  (ends_synthFields hcx h []).bind fun _ hps => hps.ends_object

include hcx in
theorem ends_member {e : Expr} {judged : Judgments} {name : Name} (h : judged.Uphold I bad)
    (hmany : ∀ count limit, bad (.located (.tooManyBranches count limit) cx.span))
    (hobject : bad (.located .memberOfNonObject e.span))
    (hname : bad (.located (.noSuchProperty name.text) name.span)) :
    (member e judged name cx).Ends I.holds bad := by
  refine (h.synth hcx).bind fun t ht => ?_
  refine Context.ends_onBranches (fun _ => hmany _ _) (fun _ => I.join) fun b hb => ?_
  have hbranch := I.branch ht hb
  split
  · split
    · rename_i u hu
      exact ends_pure.mpr (I.property hbranch (mem_of_lookup hu)).2
    · exact ends_fail.mpr hname
  · exact ends_fail.mpr hobject

include hcx in
theorem ends_ascription {subject : Judgments} (h : subject.Uphold I bad) {type : TypeExpr}
    (htype : (SourceNode.type type).Allows I bad) : (ascription subject type cx).Ends I.holds bad := by
  refine (type.ends_convert htype hcx.deep).bind fun t ht => ?_
  exact (h.check hcx ht).bind fun _ _ => ends_pure.mpr ht

include hcx in
/-- Parameters come into scope without moving the place of the context. -/
theorem ends_params {signature : List Signature} {inner : Context} (hinner : inner.env.All I.holds)
    (hbare : ∀ n, .bare n ∈ signature → bad (.located (.untypedParam n.text) n.span))
    (h : ∀ n t, .typed n t ∈ signature → (SourceNode.type t).Allows I bad) :
    (params cx signature inner).Ends
      (fun r => (∀ t ∈ r.1, I.holds t) ∧ r.2.env.All I.holds ∧ r.2.span = inner.span) bad := by
  induction signature generalizing inner with
  | nil => exact ends_pure.mpr ⟨List.forall_mem_nil _, hinner, rfl⟩
  | cons s rest ih =>
      cases s with
      | bare n => exact ends_fail.mpr (hbare n List.mem_cons_self)
      | typed n e =>
          refine (e.ends_convert (h n e List.mem_cons_self) hcx.deep).bind fun t ht => ?_
          refine (@ih (inner.bind n.text t) (hinner.set ht) ?_ ?_).bind fun r hr => ?_
          · exact fun m hm => hbare m (List.mem_cons_of_mem _ hm)
          · exact fun m t ht => h m t (List.mem_cons_of_mem _ ht)
          · exact ends_pure.mpr ⟨List.forall_mem_cons.mpr ⟨ht, hr.1⟩, hr.2⟩

include hcx in
theorem ends_function {signature : List Signature} {body : Judgments} (hbody : body.Uphold I bad)
    (hbare : ∀ n, .bare n ∈ signature → bad (.located (.untypedParam n.text) n.span))
    (h : ∀ n t, .typed n t ∈ signature → (SourceNode.type t).Allows I bad) :
    (function signature body cx).Ends I.holds bad := by
  refine (ends_params hcx hcx.env hbare h).bind fun r ⟨hts, henv, hspan⟩ => ?_
  have hinner : r.2.Upholds I bad := by
    refine ⟨henv, fun limit => ?_⟩
    rw [hspan]
    exact hcx.deep limit
  exact (hbody.synth hinner).bind fun t ht => ends_pure.mpr (I.function hts ht)

include hcx in
theorem ends_checkArgs {args : List Judgments} (h : ∀ arg ∈ args, arg.Uphold I bad) {ts : List Ty}
    (hts : ∀ t ∈ ts, I.holds t) : (checkArgs cx args ts).Ends (fun _ => True) bad := by
  induction args generalizing ts with
  | nil => exact ends_pure.mpr trivial
  | cons arg args ih =>
      obtain ⟨harg, hargs⟩ := List.forall_mem_cons.mp h
      cases ts with
      | nil => exact ends_pure.mpr trivial
      | cons t ts =>
          obtain ⟨ht, hts⟩ := List.forall_mem_cons.mp hts
          exact (harg.check hcx ht).bind fun _ _ => ih hargs hts

include hcx in
theorem ends_call {callee : Expr} {judged : Judgments} {args : List Judgments} (h : judged.Uphold I bad)
    (hargs : ∀ arg ∈ args, arg.Uphold I bad)
    (hmany : ∀ count limit, bad (.located (.tooManyBranches count limit) cx.span))
    (hcallee : bad (.located .callOfNonFunction callee.span))
    (harity : ∀ expected given, bad (.located (.wrongArity expected given) cx.span)) :
    (call callee judged args cx).Ends I.holds bad := by
  refine (h.synth hcx).bind fun t ht => ?_
  refine Context.ends_onBranches (fun _ => hmany _ _) (fun _ => I.join) fun b hb => ?_
  have hbranch := I.branch ht hb
  split
  · split
    · refine (ends_checkArgs hcx hargs fun p hp => I.param hbranch hp).bind fun _ _ => ?_
      exact ends_pure.mpr (I.result hbranch)
    · exact ends_fail.mpr (harity _ _)
  · exact ends_fail.mpr hcallee

include hcx in
theorem ends_binary {op : BinaryOp} {left right : Judgments} (hl : left.Uphold I bad)
    (hr : right.Uphold I bad)
    (hmany : ∀ count limit, bad (.located (.tooManyBranches count limit) cx.span))
    (hadd : op = .add → bad (.located .addOfNonNumber cx.span)) :
    (binary op left right cx).Ends I.holds bad := by
  refine (hl.synth hcx).bind fun l _ => (hr.synth hcx).bind fun r _ => ?_
  exact Context.ends_onPairs (fun _ => hmany _ _) (fun _ => I.join) fun l _ r _ => I.ends_binary op l r hadd

include hcx in
theorem ends_logical {op : LogicalOp} {left right : Judgments} (hl : left.Uphold I bad)
    (hr : right.Uphold I bad)
    (hmany : ∀ count limit, bad (.located (.tooManyBranches count limit) cx.span)) :
    (logical op left right cx).Ends I.holds bad := by
  refine (hl.synth hcx).bind fun l hlt => (hr.synth hcx).bind fun r hrt => ?_
  refine Context.ends_onPairs (fun _ => hmany _ _) (fun _ => I.join) fun b hb c hc => ends_pure.mpr ?_
  exact I.logical op (I.branch hlt hb) (I.branch hrt hc)

include hcx in
theorem ends_unary {op : UnaryOp} {operand : Judgments} (h : operand.Uphold I bad)
    (hmany : ∀ count limit, bad (.located (.tooManyBranches count limit) cx.span)) :
    (unary op operand cx).Ends I.holds bad := by
  refine (h.synth hcx).bind fun t _ => ?_
  exact Context.ends_onBranches (fun _ => hmany _ _) (fun _ => I.join) fun b _ => ends_pure.mpr (I.unary op b)

theorem ends_checkBySynth {synth : Context → Traced Ty} {t : Ty} (h : (synth cx).Ends I.holds bad)
    (hmismatch : ∀ s, I.holds s → bad (.located (.mismatch t s) cx.span)) :
    (checkBySynth synth t cx).Ends (fun _ => True) bad := by
  refine h.bind fun s hs => ends_record_pure.bind fun fits _ => ?_
  split
  · exact ends_pure.mpr trivial
  · exact ends_fail.mpr (hmismatch s hs)

/-- The fields of an object are those of its entries. -/
theorem ends_fields {entries : List Entry} (h : ∀ entry ∈ entries, entry.Uphold I bad) :
    (fields entries).Ends (fun fs => ∀ f ∈ fs, Entry.Uphold I bad (.field f.1 f.2)) bad := by
  induction entries with
  | nil => exact ends_pure.mpr (List.forall_mem_nil _)
  | cons entry rest ih =>
      obtain ⟨hentry, hrest⟩ := List.forall_mem_cons.mp h
      cases entry with
      | spread span =>
          cases hentry with
          | spread hspread => exact ends_fail.mpr hspread
      | field n value =>
          exact (ih hrest).bind fun fs hfs => ends_pure.mpr (List.forall_mem_cons.mpr ⟨hentry, hfs⟩)

include hcx in
theorem ends_checkFields {expected : List (String × Ty)} (hexpected : I.holds (.object expected))
    {fs : List (Name × Judgments)} (h : ∀ f ∈ fs, Entry.Uphold I bad (.field f.1 f.2)) :
    (checkFields cx expected fs).Ends (fun _ => True) bad := by
  induction fs with
  | nil => exact ends_pure.mpr trivial
  | cons f fs ih =>
      obtain ⟨hf, hfs⟩ := List.forall_mem_cons.mp h
      cases hf with
      | field hname hdouble hextra hvalue =>
          rw [checkFields]
          split
          · rename_i t ht
            have ht := (I.property hexpected (mem_of_lookup ht)).2
            exact (hvalue.check hcx ht).bind fun _ _ => ih hfs
          · exact ends_fail.mpr hextra

theorem mem_of_firstRepeat? {α : Type} {name : α → String} {seen : List String} {xs : List α} {x : α}
    (h : firstRepeat? name seen xs = some x) : x ∈ xs := by
  induction xs generalizing seen with
  | nil => cases h
  | cons y ys ih =>
      rw [firstRepeat?] at h
      split at h
      · cases h
        exact List.mem_cons_self
      · exact List.mem_cons_of_mem y (ih h)

include hcx in
theorem ends_checkObject {entries : List Entry} {expected : List (String × Ty)}
    (hexpected : I.holds (.object expected)) (h : ∀ entry ∈ entries, entry.Uphold I bad)
    (hmissing : ∀ name, I.named name → bad (.located (.missingProperty name) cx.span)) :
    (checkObject entries expected cx).Ends (fun _ => True) bad := by
  refine (ends_fields h).bind fun fs hfs => ?_
  split
  · rename_i hrepeat
    cases hfs _ (mem_of_firstRepeat? hrepeat) with
    | field hname hdouble hextra hvalue => exact ends_fail.mpr hdouble
  · split
    · rename_i hfound
      exact ends_fail.mpr (hmissing _ (I.property hexpected (List.mem_of_find?_eq_some hfound)).1)
    · exact ends_checkFields hcx hexpected hfs

end Rules

namespace Judgments

variable {e : Expr}

theorem uphold_ofSynth (he : (SourceNode.expr e).Allows I bad) {rule : Context → Traced Ty}
    (h : ∀ cx : Context, cx.span = e.span → cx.Upholds I bad → (rule cx).Ends I.holds bad) :
    (ofSynth e rule).Uphold I bad := by
  have hinner {cx : Context} (hcx : cx.Upholds I bad) :
      Context.Upholds I bad { cx with span := e.span, depth := cx.depth + 1 } :=
    ⟨hcx.env, fun limit => he.reports (.tooDeep e limit)⟩
  have hsynth {cx : Context} (hcx : cx.Upholds I bad) : ((ofSynth e rule).synth cx).Ends I.holds bad :=
    Context.ends_judge (hcx.deep _) (h _ rfl (hinner hcx))
  refine ⟨hsynth, fun hcx t ht => Context.ends_judge (hcx.deep _) ?_⟩
  exact Rules.ends_checkBySynth (hsynth (hinner hcx)) fun s hs => he.reports (.mismatch e ht hs)

theorem uphold_ofObject {span : Span} {properties : List Property}
    (he : (SourceNode.expr (.object span properties)).Allows I bad) {entries : List Entry}
    (h : ∀ entry ∈ entries, entry.Uphold I bad) :
    (ofObject (.object span properties) entries).Uphold I bad := by
  have hgeneric := uphold_ofSynth he fun cx _ hcx => Rules.ends_object hcx h
  refine ⟨hgeneric.synth, fun {cx} hcx t ht => ?_⟩
  cases t with
  | object expected =>
      refine Context.ends_judge (hcx.deep _) (ends_record.mpr (Rules.ends_checkObject ?_ ht h ?_))
      · exact ⟨hcx.env, fun limit => he.reports (.tooDeep (.object span properties) limit)⟩
      · exact fun name hname => he.reports (.missing span properties hname)
  | _ => exact hgeneric.check hcx ht

end Judgments

theorem Ty.Invariant.literal {value : Literal} (h : I.holds (.literal value)) (cx : Context) :
    I.holds (cx.literal value) := by
  unfold Context.literal
  split
  · exact h
  · exact I.prim value.base

mutual

theorem Expr.uphold_judgments (e : Expr) (h : (SourceNode.expr e).Allows I bad) :
    e.judgments.Uphold I bad := by
  have hmany {cx : Context} (hspan : cx.span = e.span) (count limit : Nat) :
      bad (.located (.tooManyBranches count limit) cx.span) := by
    rw [hspan]
    exact h.reports (.tooManyBranches e count limit)
  match e with
  | .ident span name =>
      refine Judgments.uphold_ofSynth h fun cx hspan hcx => Rules.ends_ident hcx ?_
      rw [hspan]
      exact h.reports (.unbound span name)
  | .null _ => exact Judgments.uphold_ofSynth h fun cx _ _ => ends_pure.mpr (I.prim .null)
  | .literal _ value =>
      exact Judgments.uphold_ofSynth h fun cx _ _ => ends_pure.mpr (Ty.Invariant.literal h.brings cx)
  | .object span properties =>
      refine Judgments.uphold_ofObject h (Property.uphold_entries properties ?_ ?_ ?_ ?_ ?_)
      · exact fun p hp => h.child (Property.value_mem_nodes hp)
      · exact fun n value hp => (h.child (Property.name_mem_nodes hp)).brings
      · exact fun n value hp => h.reports (.duplicateField hp)
      · exact fun n value hp => h.reports (.extraField hp)
      · exact fun value hp => h.reports (.spread hp)
  | .member span object name =>
      have hobject := object.uphold_judgments (h.child List.mem_cons_self)
      exact Judgments.uphold_ofSynth h fun cx hspan hcx => Rules.ends_member hcx hobject (hmany hspan)
        (h.reports (.nonObject span object name)) (h.reports (.noSuchProperty span object name))
  | .computed span object index =>
      refine Judgments.uphold_ofSynth h fun cx hspan _ => ends_fail.mpr ?_
      rw [hspan]
      exact h.reports (.computed span object index)
  | .ascription _ subject type =>
      have hsubject := subject.uphold_judgments (h.child List.mem_cons_self)
      have htype : (SourceNode.type type).Allows I bad := h.child (List.mem_cons_of_mem _ List.mem_cons_self)
      exact Judgments.uphold_ofSynth h fun cx _ hcx => Rules.ends_ascription hcx hsubject htype
  | .function _ params body =>
      have hbody := body.uphold_judgments (h.child (List.mem_append_right _ (List.mem_singleton_self _)))
      refine Judgments.uphold_ofSynth h fun cx _ hcx => Rules.ends_function hcx hbody ?_ ?_
      · exact fun n hn => h.reports (.untypedParam hn)
      · exact fun n t ht => h.child (List.mem_append_left _ (Signature.type_mem_nodes ht))
  | .call span callee args =>
      have hcallee := callee.uphold_judgments (h.child List.mem_cons_self)
      have hargs := Expr.uphold_judgmentsAll args fun arg harg =>
        h.child (List.mem_cons_of_mem _ (List.mem_map_of_mem harg))
      refine Judgments.uphold_ofSynth h fun cx hspan hcx => Rules.ends_call hcx hcallee hargs (hmany hspan)
        (h.reports (.nonFunction span callee args)) fun expected given => ?_
      rw [hspan]
      exact h.reports (.wrongArity span callee args expected given)
  | .binary span op left right =>
      have hleft := left.uphold_judgments (h.child List.mem_cons_self)
      have hright := right.uphold_judgments (h.child (List.mem_cons_of_mem _ List.mem_cons_self))
      refine Judgments.uphold_ofSynth h fun cx hspan hcx => Rules.ends_binary hcx hleft hright
        (hmany hspan) ?_
      rintro rfl
      rw [hspan]
      exact h.reports (.nonNumber span left right)
  | .logical _ op left right =>
      have hleft := left.uphold_judgments (h.child List.mem_cons_self)
      have hright := right.uphold_judgments (h.child (List.mem_cons_of_mem _ List.mem_cons_self))
      exact Judgments.uphold_ofSynth h fun cx hspan hcx => Rules.ends_logical hcx hleft hright (hmany hspan)
  | .unary _ op operand =>
      have hoperand := operand.uphold_judgments (h.child List.mem_cons_self)
      exact Judgments.uphold_ofSynth h fun cx hspan hcx => Rules.ends_unary hcx hoperand (hmany hspan)

theorem Expr.uphold_judgmentsAll (es : List Expr) (h : ∀ e ∈ es, (SourceNode.expr e).Allows I bad) :
    ∀ j ∈ Expr.judgmentsAll es, j.Uphold I bad := by
  match es with
  | [] => exact List.forall_mem_nil _
  | e :: es =>
      obtain ⟨he, hes⟩ := List.forall_mem_cons.mp h
      exact List.forall_mem_cons.mpr ⟨e.uphold_judgments he, Expr.uphold_judgmentsAll es hes⟩

theorem Property.uphold_entries (ps : List Property)
    (h : ∀ p ∈ ps, (SourceNode.expr p.value).Allows I bad)
    (hnames : ∀ n value, .field n value ∈ ps → I.named n.text)
    (hdouble : ∀ n value, .field n value ∈ ps → bad (.located (.duplicateProperty n.text) n.span))
    (hextra : ∀ n value, .field n value ∈ ps → bad (.located (.extraProperty n.text) n.span))
    (hspread : ∀ value, .spread value ∈ ps → bad (.located .spreadProperty value.span)) :
    ∀ entry ∈ Property.entries ps, entry.Uphold I bad := by
  match ps with
  | [] => exact List.forall_mem_nil _
  | p :: ps =>
      obtain ⟨hp, hps⟩ := List.forall_mem_cons.mp h
      have hrest := Property.uphold_entries ps hps
        (fun n value hn => hnames n value (List.mem_cons_of_mem _ hn))
        (fun n value hn => hdouble n value (List.mem_cons_of_mem _ hn))
        (fun n value hn => hextra n value (List.mem_cons_of_mem _ hn))
        (fun value hn => hspread value (List.mem_cons_of_mem _ hn))
      match p with
      | .field n value =>
          refine List.forall_mem_cons.mpr ⟨.field ?_ ?_ ?_ (value.uphold_judgments hp), hrest⟩
          · exact hnames n value List.mem_cons_self
          · exact hdouble n value List.mem_cons_self
          · exact hextra n value List.mem_cons_self
      | .spread value => exact List.forall_mem_cons.mpr ⟨.spread (hspread value List.mem_cons_self), hrest⟩

end

def Finding.Upholds (I : Ty.Invariant) : Finding → Prop
  | .binding name t => I.named name ∧ I.holds t
  | .value t => I.holds t

theorem Env.All.setResult {env : Env} (henv : env.All I.holds) (name : String) {t : Traced Ty}
    (ht : t.Ends I.holds bad) : (env.setResult name t).All I.holds := by
  unfold Env.setResult
  split
  · rename_i u hu
    exact henv.set (ht.ok hu)
  · exact henv

theorem Statement.uphold_judge (settings : Settings) {env : Env} (henv : env.All I.holds) {s : Statement}
    (h : (SourceNode.statement s).Allows I bad) :
    (s.judge settings env).env.All I.holds ∧ (s.judge settings env).outcome.Ends (·.Upholds I) bad := by
  have hcx : (Context.top env settings s.span).Upholds I bad :=
    ⟨henv, fun limit => h.reports (.statementTooDeep s limit)⟩
  match s with
  | .declare span n type =>
      have hname : I.named n.text := (h.child List.mem_cons_self).brings
      have htype := type.ends_convert (h.child (List.mem_cons_of_mem _ List.mem_cons_self)) hcx.deep
      exact ⟨henv.setResult n.text htype, htype.map fun _ ht => ⟨hname, ht⟩⟩
  | .bind span n none value =>
      have hname : I.named n.text := (h.child List.mem_cons_self).brings
      have hvalue := value.uphold_judgments (h.child (List.mem_cons_of_mem _ List.mem_cons_self))
      exact ⟨henv.setResult n.text (hvalue.synth hcx), (hvalue.synth hcx).map fun _ ht => ⟨hname, ht⟩⟩
  | .bind span n (some type) value =>
      have hname : I.named n.text := (h.child List.mem_cons_self).brings
      have htype := type.ends_convert (h.child (List.mem_cons_of_mem _ List.mem_cons_self)) hcx.deep
      have hvalue := value.uphold_judgments
        (h.child (List.mem_cons_of_mem _ (List.mem_cons_of_mem _ List.mem_cons_self)))
      refine ⟨henv.setResult n.text htype, htype.bind fun t ht => ?_⟩
      exact (hvalue.check hcx ht).bind fun _ _ => ends_pure.mpr ⟨hname, ht⟩
  | .eval span value =>
      have hvalue := value.uphold_judgments (h.child List.mem_cons_self)
      exact ⟨henv, (hvalue.synth hcx).map fun _ ht => ht⟩

namespace Program

theorem exists_env_of_mem_judgeAll {settings : Settings} {env : Env} {ss : List Statement} {v : Verdict}
    (h : v ∈ judgeAll settings env ss) : ∃ s ∈ ss, ∃ env', v = s.judge settings env' := by
  induction ss generalizing env with
  | nil => cases h
  | cons s ss ih =>
      rcases List.mem_cons.mp h with rfl | hrest
      · exact ⟨s, List.mem_cons_self, env, rfl⟩
      · obtain ⟨s', hs', henv⟩ := ih hrest
        exact ⟨s', List.mem_cons_of_mem s hs', henv⟩

theorem uphold_judgeAll (settings : Settings) {env : Env} (henv : env.All I.holds) {ss : List Statement}
    (h : ∀ s ∈ ss, (SourceNode.statement s).Allows I bad) :
    ∀ v ∈ judgeAll settings env ss, v.env.All I.holds ∧ v.outcome.Ends (·.Upholds I) bad := by
  induction ss generalizing env with
  | nil => exact List.forall_mem_nil _
  | cons s ss ih =>
      obtain ⟨hs, hss⟩ := List.forall_mem_cons.mp h
      have hjudged := Statement.uphold_judge settings henv hs
      exact List.forall_mem_cons.mpr ⟨hjudged, ih hjudged.1 hss⟩

end Program

end Structura
