import Structura.Proofs.MoreRoom

namespace Structura

open Traced

namespace Rules

variable {cx : Context}

theorem checkBySynth_eq_ok {synth : Context → Traced Ty} {t : Ty} :
    (checkBySynth synth t cx).result = .ok () ↔
      ∃ s, (synth cx).result = .ok s ∧ s.isSubtype t = true := by
  rw [checkBySynth, bind_eq_ok]
  refine exists_congr fun s => and_congr_right fun _ => ?_
  rw [bind_eq_ok]
  cases hs : s.isSubtype t with
  | true => exact iff_of_true ⟨true, rfl, rfl⟩ rfl
  | false =>
      refine iff_of_false ?_ Bool.false_ne_true
      rintro ⟨fits, hfits, h⟩
      cases hfits
      cases h

theorem fields_eq_ok {entries : List Entry} {fs : List (Name × Judgments)}
    (h : (fields entries).result = .ok fs) : entries = fs.map fun f => .field f.1 f.2 := by
  induction entries generalizing fs with
  | nil =>
      cases h
      rfl
  | cons entry rest ih =>
      cases entry with
      | spread span => cases h
      | field name value =>
          obtain ⟨gs, hgs, hfs⟩ := bind_eq_ok.mp h
          cases hfs
          rw [List.map_cons, ih hgs]

theorem checkFields_cons_eq_ok {expected : List (String × Ty)} {f : Name × Judgments}
    {fs : List (Name × Judgments)} (h : (checkFields cx expected (f :: fs)).result = .ok ()) :
    ∃ t, expected.lookup f.1.text = some t ∧ (f.2.check cx t).result = .ok () ∧
      (checkFields cx expected fs).result = .ok () := by
  rw [checkFields] at h
  split at h
  · rename_i t ht
    obtain ⟨_, hvalue, hrest⟩ := bind_eq_ok.mp h
    exact ⟨t, ht, hvalue, hrest⟩
  · cases h

theorem checkObject_eq_ok {entries : List Entry} {expected : List (String × Ty)}
    (h : (checkObject entries expected cx).result = .ok ()) :
    ∃ fs : List (Name × Judgments), entries = (fs.map fun f => .field f.1 f.2) ∧
      firstRepeat? (fun f => f.1.text) [] fs = none ∧
      (∀ p ∈ expected, ∃ f ∈ fs, f.1.text = p.1) ∧
      (checkFields cx expected fs).result = .ok () := by
  obtain ⟨fs, hfs, h⟩ := bind_eq_ok.mp h
  refine ⟨fs, fields_eq_ok hfs, ?_⟩
  split at h
  · cases h
  · rename_i hrepeat
    split at h
    · cases h
    · rename_i hmissing
      refine ⟨hrepeat, ?_, h⟩
      simpa using hmissing

end Rules

/-- Whatever the expression can be checked against is above its type. -/
def Judgments.Agrees (j : Judgments) : Prop :=
  ∀ (cx : Context) (t : Ty), t.Canonical → (j.check cx t).result = .ok () →
    ∃ s, (j.synth cx).result = .ok s ∧ s.isSubtype t = true

/-- The properties that pass one by one are those of an object that can be synthesized. -/
theorem Rules.synthFields_of_checkFields {cx : Context} {expected : List (String × Ty)}
    (hexpected : (Ty.object expected).Canonical) {fs : List (Name × Judgments)}
    (hagrees : ∀ f ∈ fs, f.2.Agrees) {seen : List String}
    (hrepeat : firstRepeat? (fun f => f.1.text) seen fs = none)
    (hcheck : (checkFields cx expected fs).result = .ok ()) :
    ∃ ps, (synthFields cx (fs.map fun f => .field f.1 f.2) seen).result = .ok ps ∧
      ps.map Prod.fst = fs.map (fun f => f.1.text) ∧
      ∀ n s, (n, s) ∈ ps → ∃ t, (n, t) ∈ expected ∧ s.isSubtype t = true := by
  induction fs generalizing seen with
  | nil => exact ⟨[], rfl, rfl, by simp⟩
  | cons f fs ih =>
      rw [List.forall_mem_cons] at hagrees
      obtain ⟨t, hlookup, hvalue, hrest⟩ := checkFields_cons_eq_ok hcheck
      have ht := mem_of_lookup hlookup
      rw [firstRepeat?] at hrepeat
      split at hrepeat
      · cases hrepeat
      · rename_i hseen
        obtain ⟨s, hs, hst⟩ := hagrees.1 cx t (hexpected.property ht) hvalue
        obtain ⟨ps, hps, hnames, hbelow⟩ := ih hagrees.2 hrepeat hrest
        refine ⟨(f.1.text, s) :: ps, ?_, congrArg (f.1.text :: ·) hnames, ?_⟩
        · rw [List.map_cons, synthFields, if_neg hseen, bind_eq_ok]
          refine ⟨s, hs, ?_⟩
          rw [bind_eq_ok]
          exact ⟨ps, hps, rfl⟩
        · intro n u hu
          rcases List.mem_cons.mp hu with hhead | hu
          · cases hhead
            exact ⟨t, ht, hst⟩
          · exact hbelow n u hu

def Judgments.SynthLasts (j : Judgments) : Prop :=
  ∀ cx wide : Context, cx.Roomier wide → ∀ s, (j.synth cx).result = .ok s →
    (j.synth wide).result = .ok s

theorem Expr.synthLasts_judgments (e : Expr) : e.judgments.SynthLasts := by
  intro cx wide hroom s hs
  refine (e.synth_roomier hroom ?_).trans hs
  rintro ⟨d, hd, -⟩
  cases hs.symm.trans hd

namespace Judgments

/-- Checking synthesizes one level further down than synthesis itself. -/
theorem agrees_ofSynth {e : Expr} {rule : Context → Traced Ty}
    (hlasting : (ofSynth e rule).SynthLasts) : (ofSynth e rule).Agrees := by
  intro cx t _ hcheck
  obtain ⟨-, h⟩ := Context.judge_eq_ok.mp hcheck
  obtain ⟨s, hs, hst⟩ := Rules.checkBySynth_eq_ok.mp h
  have hroom : Context.Roomier { cx with span := e.span, depth := cx.depth + 1 } cx :=
    ⟨⟨rfl, by dsimp only; omega, le_rfl⟩, rfl⟩
  exact ⟨s, hlasting _ _ hroom s hs, hst⟩

theorem check_ofSynth {e : Expr} {rule : Context → Traced Ty} {cx : Context} {s t : Ty}
    (hs : ((ofSynth e rule).synth { cx with span := e.span, depth := cx.depth + 1 }).result = .ok s)
    (hst : s.isSubtype t = true) : ((ofSynth e rule).check cx t).result = .ok () := by
  obtain ⟨hdepth, -⟩ := Context.judge_eq_ok.mp hs
  have hlevel : cx.depth < cx.settings.maxDepth := by
    dsimp only at hdepth
    omega
  exact Context.judge_eq_ok.mpr ⟨hlevel, Rules.checkBySynth_eq_ok.mpr ⟨s, hs, hst⟩⟩

theorem agrees_ofObject {e : Expr} {entries : List Entry}
    (hlasting : (ofObject e entries).SynthLasts)
    (hagrees : ∀ name value, .field name value ∈ entries → value.Agrees) :
    (ofObject e entries).Agrees := by
  intro cx t ht hcheck
  cases t with
  | object expected =>
      obtain ⟨hdepth, h⟩ := Context.judge_eq_ok.mp hcheck
      obtain ⟨fs, rfl, hrepeat, hwritten, hfields⟩ := Rules.checkObject_eq_ok h
      have hvalues : ∀ f ∈ fs, f.2.Agrees := fun f hf =>
        hagrees f.1 f.2 (List.mem_map.mpr ⟨f, hf, rfl⟩)
      obtain ⟨ps, hps, hnames, hbelow⟩ :=
        Rules.synthFields_of_checkFields ht hvalues hrepeat hfields
      have hnodup : (ps.map Prod.fst).Nodup := hnames ▸ (firstRepeat?_eq_none_iff.mp hrepeat).1
      have hobject (cx : Context) : (cx.object ps).result = .ok (.object ps) := by
        rw [Context.object_eq_pure hnodup]
        rfl
      refine ⟨.object ps, Context.judge_eq_ok.mpr ⟨hdepth, bind_eq_ok.mpr ⟨ps, hps, hobject _⟩⟩, ?_⟩
      -- No expected property is missing, so each one has its synthesized counterpart.
      refine Ty.isSubtype_object.mpr fun n t hnt => ?_
      obtain ⟨f, hf, hfn⟩ := hwritten (n, t) hnt
      have hn : n ∈ ps.map Prod.fst := by
        rw [hnames]
        exact List.mem_map.mpr ⟨f, hf, hfn⟩
      obtain ⟨⟨m, s⟩, hs, rfl⟩ := List.mem_map.mp hn
      obtain ⟨u, hu, hsu⟩ := hbelow m s hs
      exact ⟨s, hs, ht.property_unique hu hnt ▸ hsu⟩
  | _ => exact agrees_ofSynth hlasting cx _ ht hcheck

end Judgments

open Judgments

mutual

theorem Expr.agrees_judgments (e : Expr) : e.judgments.Agrees := by
  have hlasting := e.synthLasts_judgments
  match e with
  | .object _ properties =>
      exact agrees_ofObject hlasting (Property.agrees_entries properties)
  | .ident _ _ | .null _ | .literal _ _ | .member _ _ _ | .computed _ _ _ | .ascription _ _ _
  | .function _ _ _ | .call _ _ _ | .binary _ _ _ _ | .logical _ _ _ _ | .unary _ _ _ =>
      exact agrees_ofSynth hlasting

theorem Property.agrees_entries (ps : List Property) (name : Name) (value : Judgments)
    (h : .field name value ∈ Property.entries ps) : value.Agrees := by
  match ps with
  | [] => cases h
  | .field _ e :: ps =>
      rcases List.mem_cons.mp h with hhead | h
      · cases hhead
        exact e.agrees_judgments
      · exact Property.agrees_entries ps name value h
  | .spread _ :: ps =>
      rcases List.mem_cons.mp h with hhead | h
      · cases hhead
      · exact Property.agrees_entries ps name value h

end

theorem Expr.check_of_synth {cx : Context} {e : Expr} {s t : Ty} (ht : ∀ ps, t ≠ .object ps)
    (hs : (e.synth { cx with span := e.span, depth := cx.depth + 1 }).result = .ok s)
    (hst : s.isSubtype t = true) : (e.check cx t).result = .ok () := by
  match e with
  | .object _ properties =>
      cases t with
      | object ps => exact absurd rfl (ht ps)
      | _ => exact check_ofSynth hs hst
  | .ident _ _ | .null _ | .literal _ _ | .member _ _ _ | .computed _ _ _ | .ascription _ _ _
  | .function _ _ _ | .call _ _ _ | .binary _ _ _ _ | .logical _ _ _ _ | .unary _ _ _ =>
      exact check_ofSynth hs hst

/-- An expression that passes a check has a type in the same context, and this type is a subtype of
the expected one. Unless an object type is expected, it is enough to have such a type one level
further down. -/
theorem Expr.check_agrees_with_synth (cx : Context) (e : Expr) {t : Ty} (ht : t.Reachable) :
    ((e.check cx t).result = .ok () →
      ∃ s, (e.synth cx).result = .ok s ∧ s.isSubtype t = true) ∧
    ((∀ ps, t ≠ .object ps) → ∀ s,
      (e.synth { cx with span := e.span, depth := cx.depth + 1 }).result = .ok s →
        s.isSubtype t = true → (e.check cx t).result = .ok ()) :=
  ⟨e.agrees_judgments cx t (Ty.reachable_iff_canonical.mp ht),
    fun hobject _ hs hst => Expr.check_of_synth hobject hs hst⟩

def nestedObject : Expr :=
  .object default [.field ⟨"a", default⟩
    (.object default [.field ⟨"b", default⟩ (.ident default "x")])]

def fourLevels : Context :=
  .top (Env.empty.set "x" (.literal (.boolean true))) { maxDepth := 4 } default

theorem Expr.check_agrees_with_synth_nestedObject :
    (nestedObject.check fourLevels (.object [("a", .object [("b", .boolean)])])).result = .ok () ∧
      ∃ s, (nestedObject.synth fourLevels).result = .ok s ∧
        s.isSubtype (.object [("a", .object [("b", .boolean)])]) = true := by
  have hinner : Ty.Reachable (.object [("b", .boolean)]) :=
    .object (by decide) (by simp [Ty.Reachable.prim])
  have houter : Ty.Reachable (.object [("a", .object [("b", .boolean)])]) :=
    .object (by decide) (by simp [hinner])
  have hcheck :
      (nestedObject.check fourLevels (.object [("a", .object [("b", .boolean)])])).result = .ok () :=
    result_eq_ok (by decide +kernel)
  exact ⟨hcheck, (Expr.check_agrees_with_synth fourLevels nestedObject houter).1 hcheck⟩

end Structura
