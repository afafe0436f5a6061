import Structura.Program
import Structura.Proofs.CanonicalRules

namespace Structura

open Traced

theorem Expr.keeps_synth (e : Expr) {cx : Context} (hcx : cx.env.All Ty.Canonical) :
    (e.synth cx).Keeps Ty.Canonical :=
  (e.uphold_judgments (SourceNode.allows_canonicity _)).synth ⟨hcx, fun _ => trivial⟩

def Finding.type : Finding → Ty
  | .binding _ t => t
  | .value t => t

theorem Verdict.finding?_eq_some {v : Verdict} {f : Finding} :
    v.finding? = some f ↔ v.outcome.result = .ok f := by
  unfold finding?
  split <;> simp [*]

theorem Verdict.failure?_eq_some {v : Verdict} {d : Diagnostic} :
    v.failure? = some d ↔ v.outcome.result = .error d := by
  unfold failure?
  split <;> simp [*]

namespace Program

theorem keeps_judgeAll (settings : Settings) {env : Env} (henv : env.All Ty.Canonical)
    (ss : List Statement) :
    ∀ v ∈ judgeAll settings env ss,
      v.env.All Ty.Canonical ∧ v.outcome.Keeps (·.type.Canonical) := by
  intro v hv
  obtain ⟨henv', houtcome⟩ := uphold_judgeAll (I := Ty.canonicity) settings henv
    (fun s _ => SourceNode.allows_canonicity (.statement s)) v hv
  refine ⟨henv', houtcome.imp fun f hf => ?_⟩
  cases f with
  | binding => exact hf.2
  | value => exact hf

theorem all_finalEnv {good : Ty → Prop} {env : Env} (henv : env.All good) {vs : List Verdict}
    (hvs : ∀ v ∈ vs, v.env.All good) : (finalEnv env vs).All good := by
  induction vs generalizing env with
  | nil => exact henv
  | cons v vs ih =>
      obtain ⟨hv, hvs⟩ := List.forall_mem_cons.mp hvs
      exact ih hv hvs

/-- Canonical types stay canonical: unions and intersections of them, the types of annotations and of
expressions, and all that a program binds, finds or shows in a fault. -/
theorem types_canonical :
    (∀ ts : List Ty, (∀ t ∈ ts, t.Canonical) → (Ty.join ts).Canonical ∧ (Ty.meet ts).Canonical) ∧
    (∀ (cx : Context) (e : TypeExpr) (t : Ty), (e.convert cx).result = .ok t → t.Canonical) ∧
    (∀ (cx : Context) (e : Expr) (t : Ty), cx.env.All Ty.Canonical →
      (e.synth cx).result = .ok t → t.Canonical) ∧
    ∀ (settings : Settings) (env : Env) (ss : List Statement), env.All Ty.Canonical →
      (∀ v ∈ judgeAll settings env ss, v.env.All Ty.Canonical ∧
        (∀ f, v.finding? = some f → f.type.Canonical) ∧
        ∀ d, v.failure? = some d → d.fault.Canonical) ∧
      (finalEnv env (judgeAll settings env ss)).All Ty.Canonical := by
  refine ⟨fun ts hts => ⟨Ty.canonical_join hts, Ty.canonical_meet hts⟩,
    fun cx e t ht => (e.keeps_convert cx).ok ht,
    fun cx e t hcx ht => (e.keeps_synth hcx).ok ht,
    fun settings env ss henv => ?_⟩
  have hall := keeps_judgeAll settings henv ss
  refine ⟨fun v hv => ⟨(hall v hv).1, ?_, ?_⟩, all_finalEnv henv fun v hv => (hall v hv).1⟩
  · exact fun f hf => (hall v hv).2.ok (Verdict.finding?_eq_some.mp hf)
  · exact fun d hd => (hall v hv).2.error (Verdict.failure?_eq_some.mp hd)

/-- The program `declare x: { a: boolean } | null; typeof (null as null | boolean);` -/
def tagOfUnion : List Statement :=
  [.declare default ⟨"x", default⟩ (.union default
      [.object default [.typed ⟨"a", default⟩ (.prim default .boolean)], .prim default .null]),
    .eval default (.unary default .typeof (.ascription default (.null default)
      (.union default [.prim default .null, .prim default .boolean])))]

theorem types_canonical_tagOfUnion :
    ∃ v ∈ judgeAll {} .empty tagOfUnion,
      v.finding? =
        some (.value (.union [.literal (.string "object"), .literal (.string "boolean")])) ∧
        (Ty.union [.literal (.string "object"), .literal (.string "boolean")]).Canonical := by
  have hfound : some (.value (.union [.literal (.string "object"), .literal (.string "boolean")])) ∈
      (judgeAll {} .empty tagOfUnion).map Verdict.finding? :=
    List.mem_of_getElem? (i := 1) (by cbv)
  obtain ⟨v, hv, hf⟩ := List.mem_map.mp hfound
  have h := types_canonical.2.2.2 {} .empty tagOfUnion (Env.all_empty _)
  exact ⟨v, hv, hf, (h.1 v hv).2.1 _ hf⟩

end Program

end Structura
