import Structura.Proofs.NumberText
import Structura.Proofs.RecordedJudgments

namespace Structura

open Traced

/-- Two texts that go on after their first `x`. -/
theorem append_cons_inj_of_not_mem {α : Type} {x : α} {as bs cs ds : List α} (ha : x ∉ as) (hc : x ∉ cs)
    (h : as ++ x :: bs = cs ++ x :: ds) : as = cs ∧ bs = ds := by
  induction as generalizing cs with
  | nil =>
      cases cs with
      | nil => exact ⟨rfl, (List.cons.inj h).2⟩
      | cons c cs =>
          have hx : x = c := (List.cons.inj h).1
          exact absurd (hx ▸ List.mem_cons_self) hc
  | cons a as ih =>
      cases cs with
      | nil =>
          have hx : a = x := (List.cons.inj h).1
          exact absurd (hx ▸ List.mem_cons_self) ha
      | cons c cs =>
          obtain ⟨rfl, htail⟩ := List.cons.inj h
          obtain ⟨rfl, rfl⟩ := ih (fun hx => ha (List.mem_cons_of_mem a hx))
            (fun hx => hc (List.mem_cons_of_mem a hx)) htail
          exact ⟨rfl, rfl⟩

theorem Rule.not_blank_mem_render (rule : Rule) : ' ' ∉ rule.render.toList := by
  cases rule <;> decide +kernel

theorem Rule.render_injective {rule other : Rule} (h : rule.render = other.render) : rule = other := by
  revert h
  cases rule <;> cases other <;> decide +kernel

namespace Trace

variable {depth depth' outer : Nat} {rule rule' : Rule} {line : String}

def lineOf (depth : Nat) (rule : Rule) (event : String) : String :=
  toString depth ++ " " ++ rule.render ++ " " ++ event

theorem lineOf_inj {event event' : String} (h : lineOf depth rule event = lineOf depth' rule' event') :
    depth = depth' ∧ rule = rule' ∧ event = event' := by
  have hblank (n : Nat) : ' ' ∉ Nat.toDigits 10 n :=
    fun hc => absurd (Decimal.isDigit_of_mem_toDigits hc) (by decide)
  have htext (n : Nat) (r : Rule) (e : String) : (lineOf n r e).toList =
      Nat.toDigits 10 n ++ ' ' :: (r.render.toList ++ ' ' :: e.toList) := by
    simp [lineOf]
  -- Neither the depth nor the name has a blank in it, so the first two blanks end them.
  have hlists := congrArg String.toList h
  rw [htext, htext] at hlists
  obtain ⟨hdigits, hrest⟩ := append_cons_inj_of_not_mem (hblank depth) (hblank depth') hlists
  obtain ⟨hrule, hevent⟩ :=
    append_cons_inj_of_not_mem rule.not_blank_mem_render rule'.not_blank_mem_render hrest
  refine ⟨?_, Rule.render_injective (String.toList_injective hrule), String.toList_injective hevent⟩
  rw [← Decimal.natOfDigits_toDigits depth, hdigits, Decimal.natOfDigits_toDigits]

def Headed (depth : Nat) (rule : Rule) (line : String) : Prop := ∃ event, line = lineOf depth rule event

def Opens (depth : Nat) (rule : Rule) (line : String) : Prop :=
  ∃ subject, line = lineOf depth rule ("subject=" ++ subject)

def Returns (depth : Nat) (rule : Rule) (line : String) : Prop :=
  ∃ value, line = lineOf depth rule ("returned=" ++ value)

def Errs (depth : Nat) (rule : Rule) (line : String) : Prop :=
  ∃ message kind, line = lineOf depth rule ("error=" ++ message ++ " kind=" ++ kind)

def Closes (depth : Nat) (rule : Rule) (line : String) : Prop :=
  Returns depth rule line ∨ Errs depth rule line

def DeeperThan (outer : Nat) (line : String) : Prop := ∃ depth rule, outer < depth ∧ Headed depth rule line

theorem Headed.unique (h : Headed depth rule line) (h' : Headed depth' rule' line) :
    depth = depth' ∧ rule = rule' := by
  obtain ⟨event, rfl⟩ := h
  obtain ⟨event', heq⟩ := h'
  obtain ⟨hdepth, hrule, -⟩ := lineOf_inj heq
  exact ⟨hdepth, hrule⟩

theorem Headed.not_deeperThan (h : Headed depth rule line) : ¬DeeperThan depth line := by
  rintro ⟨depth', rule', hlt, h'⟩
  exact absurd (h.unique h').1 (Nat.ne_of_lt hlt)

theorem Opens.headed (h : Opens depth rule line) : Headed depth rule line :=
  h.imp' _ fun _ heq => heq

theorem Closes.headed (h : Closes depth rule line) : Headed depth rule line := by
  obtain ⟨value, heq⟩ | ⟨message, kind, heq⟩ := h
  · exact ⟨_, heq⟩
  · exact ⟨_, heq⟩

/-- The first character of an event tells what kind of event it is. -/
theorem head?_event {event event' : String} (h : lineOf depth rule event = lineOf depth' rule' event') :
    event.toList.head? = event'.toList.head? := by
  rw [(lineOf_inj h).2.2]

theorem Opens.not_errs (h : Opens depth rule line) : ¬Errs depth' rule' line := by
  rintro ⟨message, kind, heq⟩
  obtain ⟨subject, rfl⟩ := h
  simpa using head?_event heq

theorem Returns.not_errs (h : Returns depth rule line) : ¬Errs depth' rule' line := by
  rintro ⟨message, kind, heq⟩
  obtain ⟨value, rfl⟩ := h
  simpa using head?_event heq

theorem Opens.not_closes (h : Opens depth rule line) : ¬Closes depth' rule' line := by
  rintro (⟨value, heq⟩ | herrs)
  · obtain ⟨subject, rfl⟩ := h
    simpa using head?_event heq
  · exact h.not_errs herrs

def At (lines : List String) (i : Nat) (p : String → Prop) : Prop := ∃ line ∈ lines[i]?, p line

/-- A judgment opens at `i` and closes at `j`, and only deeper ones are in between. -/
structure Matches (lines : List String) (depth : Nat) (rule : Rule) (i j : Nat) : Prop where
  lt : i < j
  opens : At lines i (Opens depth rule)
  closes : At lines j (Closes depth rule)
  between (k : Nat) : i < k → k < j → At lines k (DeeperThan depth)

/-- Every line opens or closes a judgment, and the two lines of each judgment determine each other. -/
structure Bracketed (lines : List String) : Prop where
  covered : ∀ line ∈ lines, ∃ depth rule, Opens depth rule line ∨ Closes depth rule line
  closed (i depth : Nat) (rule : Rule) : At lines i (Opens depth rule) → ∃! j, Matches lines depth rule i j
  opened (j depth : Nat) (rule : Rule) : At lines j (Closes depth rule) → ∃! i, Matches lines depth rule i j

variable {lines : List String} {i j k : Nat}

theorem At.lt_length {p : String → Prop} (h : At lines k p) : k < lines.length := by
  obtain ⟨line, hline, -⟩ := h
  exact (List.getElem?_eq_some_iff.mp hline).1

theorem At.both {p q : String → Prop} (hp : At lines k p) (hq : At lines k q) : ∃ line, p line ∧ q line := by
  obtain ⟨line, hline, hp⟩ := hp
  obtain ⟨line', hline', hq⟩ := hq
  obtain rfl := Option.mem_unique hline hline'
  exact ⟨line, hp, hq⟩

theorem At.embed {p : String → Prop} (h : At lines k p) (before after : List String) :
    At (before ++ lines ++ after) (before.length + k) p := by
  have hk := h.lt_length
  obtain ⟨line, hline, hp⟩ := h
  refine ⟨line, ?_, hp⟩
  rw [List.append_assoc, List.getElem?_append_right (Nat.le_add_right _ _), Nat.add_sub_cancel_left,
    List.getElem?_append_left hk]
  exact hline

theorem Matches.embed (h : Matches lines depth rule i j) (before after : List String) :
    Matches (before ++ lines ++ after) depth rule (before.length + i) (before.length + j) where
  lt := Nat.add_lt_add_left h.lt _
  opens := h.opens.embed before after
  closes := h.closes.embed before after
  between k hi hj := by
    obtain ⟨m, rfl⟩ : ∃ m, k = before.length + m := ⟨k - before.length, by omega⟩
    exact (h.between m (by omega) (by omega)).embed before after

/-- The closing line is not deeper than itself, so it cannot be in between. -/
theorem Matches.right_le {j' : Nat} (h : Matches lines depth rule i j) (h' : Matches lines depth rule i j') :
    j' ≤ j := by
  by_contra! hlt
  obtain ⟨line, hclose, hdeeper⟩ := h.closes.both (h'.between j h.lt hlt)
  exact hclose.headed.not_deeperThan hdeeper

theorem Matches.le_left {i' : Nat} (h : Matches lines depth rule i j) (h' : Matches lines depth rule i' j) :
    i ≤ i' := by
  by_contra! hlt
  obtain ⟨line, hopen, hdeeper⟩ := h.opens.both (h'.between i hlt h.lt)
  exact hopen.headed.not_deeperThan hdeeper

inductive Nested : Nat → List String → Prop
  | nil (depth : Nat) : Nested depth []
  | judgment {depth : Nat} {rule : Rule} {opening closing : String} {inner rest : List String} :
      Opens depth rule opening → Nested (depth + 1) inner → Closes depth rule closing → Nested depth rest →
      Nested depth (opening :: (inner ++ closing :: rest))

theorem Nested.deeperThan (h : Nested depth lines) (hlt : outer < depth) :
    ∀ line ∈ lines, DeeperThan outer line := by
  induction h with
  | nil => exact List.forall_mem_nil _
  | judgment hopen _ hclose _ hinner hrest =>
      refine List.forall_mem_cons.mpr ⟨⟨_, _, hlt, hopen.headed⟩, List.forall_mem_append.mpr ⟨?_, ?_⟩⟩
      · exact hinner (Nat.lt_succ_of_lt hlt)
      · exact List.forall_mem_cons.mpr ⟨⟨_, _, hlt, hclose.headed⟩, hrest hlt⟩

theorem matches_judgment {opening closing : String} {inner : List String} (rest : List String)
    (hopen : Opens depth rule opening) (hinner : ∀ line ∈ inner, DeeperThan depth line)
    (hclose : Closes depth rule closing) :
    Matches (opening :: (inner ++ closing :: rest)) depth rule 0 (inner.length + 1) where
  lt := Nat.succ_pos _
  opens := ⟨opening, rfl, hopen⟩
  closes := by
    refine ⟨closing, ?_, hclose⟩
    rw [List.getElem?_cons_succ, List.getElem?_append_right (Nat.le_refl _), Nat.sub_self]
    rfl
  between k hi hj := by
    obtain ⟨m, rfl⟩ := Nat.exists_eq_add_one.mpr hi
    have hm : m < inner.length := Nat.lt_of_succ_lt_succ hj
    refine ⟨inner.get ⟨m, hm⟩, ?_, hinner _ (List.get_mem inner ⟨m, hm⟩)⟩
    rw [List.getElem?_cons_succ, List.getElem?_append_left hm]
    exact List.getElem?_eq_getElem hm

/-- Every line is one of the two lines of a judgment. -/
theorem Nested.exists_matches (h : Nested depth lines) (hk : k < lines.length) :
    ∃ depth rule i j, Matches lines depth rule i j ∧ (k = i ∨ k = j) := by
  induction h generalizing k with
  | nil => exact absurd hk (Nat.not_lt_zero k)
  | @judgment depth rule opening closing inner rest hopen hnested hclose _ hinner hrest =>
      have houter := matches_judgment rest hopen (hnested.deeperThan (Nat.lt_succ_self depth)) hclose
      rw [List.length_cons, List.length_append, List.length_cons] at hk
      -- The position is one of the outer lines, inside them or after them.
      obtain rfl | rfl | hin | hout : k = 0 ∨ k = inner.length + 1 ∨ (0 < k ∧ k < inner.length + 1) ∨
          inner.length + 1 < k := by omega
      · exact ⟨depth, rule, _, _, houter, .inl rfl⟩
      · exact ⟨depth, rule, _, _, houter, .inr rfl⟩
      · obtain ⟨d, r, i, j, hmatches, hij⟩ := hinner (k := k - 1) (by omega)
        have hembed := hmatches.embed [opening] (closing :: rest)
        exact ⟨d, r, _, _, hembed, by simp only [List.length_singleton]; omega⟩
      · obtain ⟨d, r, i, j, hmatches, hij⟩ := hrest (k := k - (inner.length + 2)) (by omega)
        have hembed := hmatches.embed (opening :: (inner ++ [closing])) []
        rw [List.append_nil, List.cons_append, List.append_assoc, List.singleton_append] at hembed
        refine ⟨d, r, _, _, hembed, ?_⟩
        simp only [List.length_cons, List.length_append, List.length_nil]
        omega

theorem Nested.bracketed (h : Nested depth lines) : Bracketed lines where
  covered line hline := by
    obtain ⟨k, hk, hkline⟩ := List.getElem_of_mem hline
    have hat : At lines k (· = line) := ⟨_, List.getElem?_eq_getElem hk, hkline⟩
    obtain ⟨d, r, i, j, hmatches, rfl | rfl⟩ := h.exists_matches hk
    · obtain ⟨_, rfl, hopen⟩ := hat.both hmatches.opens
      exact ⟨d, r, .inl hopen⟩
    · obtain ⟨_, rfl, hclose⟩ := hat.both hmatches.closes
      exact ⟨d, r, .inr hclose⟩
  closed i depth rule hopens := by
    obtain ⟨d, r, i, j, hmatches, rfl | rfl⟩ := h.exists_matches hopens.lt_length
    · obtain ⟨line, hopen, hopen'⟩ := hopens.both hmatches.opens
      obtain ⟨rfl, rfl⟩ := hopen'.headed.unique hopen.headed
      exact ⟨j, hmatches, fun _ h' => Nat.le_antisymm (hmatches.right_le h') (h'.right_le hmatches)⟩
    · obtain ⟨line, hopen, hclose⟩ := hopens.both hmatches.closes
      exact absurd hclose hopen.not_closes
  opened j depth rule hcloses := by
    obtain ⟨d, r, i, j, hmatches, rfl | rfl⟩ := h.exists_matches hcloses.lt_length
    · obtain ⟨line, hclose, hopen⟩ := hcloses.both hmatches.opens
      exact absurd hclose hopen.not_closes
    · obtain ⟨line, hclose, hclose'⟩ := hcloses.both hmatches.closes
      obtain ⟨rfl, rfl⟩ := hclose'.headed.unique hclose.headed
      exact ⟨i, hmatches, fun _ h' => Nat.le_antisymm (h'.le_left hmatches) (hmatches.le_left h')⟩

def Clean (lines : List String) : Prop := ∀ line ∈ lines, ∀ depth rule, ¬Errs depth rule line

/-- The errors of judgments that are inside each other, the innermost first and the outermost at depth `base`. -/
def unwinding (d : Diagnostic) (base : Nat) : List Rule → List String
  | [] => []
  | rule :: outer =>
      lineOf (base + outer.length) rule ("error=" ++ d.message ++ " kind=" ++ d.kind.render) ::
        unwinding d base outer

def Unwinds (d : Diagnostic) (base : Nat) (path : List Rule) (lines : List String) : Prop :=
  ∃ before, Clean before ∧ lines = before ++ unwinding d base path

theorem unwinding_concat (d : Diagnostic) (base : Nat) (path : List Rule) (rule : Rule) :
    unwinding d base (path ++ [rule]) =
      unwinding d (base + 1) path ++ [lineOf base rule (Outcome.failed d).render] := by
  induction path with
  | nil => rfl
  | cons inner path ih =>
      have hdepth : base + (path ++ [rule]).length = base + 1 + path.length := by
        rw [List.length_append, List.length_singleton]
        omega
      rw [List.cons_append, unwinding, unwinding, ih, hdepth, List.cons_append]

end Trace

open Trace

theorem Outcome.returns {outcome : Outcome} (h : ∀ d, outcome ≠ .failed d) (depth : Nat) (rule : Rule) :
    Returns depth rule (lineOf depth rule outcome.render) := by
  cases outcome with
  | type t => exact ⟨t.render, rfl⟩
  | holds => exact ⟨"ok", rfl⟩
  | truth b => exact ⟨renderBool b, rfl⟩
  | failed d => exact absurd rfl (h d)

theorem Outcome.closes (outcome : Outcome) (depth : Nat) (rule : Rule) :
    Closes depth rule (lineOf depth rule outcome.render) := by
  cases outcome with
  | failed d => exact .inr ⟨d.message, d.kind.render, rfl⟩
  | _ =>
      refine .inl (Outcome.returns ?_ depth rule)
      intro d hd
      cases hd

namespace Record

variable {depth : Nat} {rule : Rule} {subject : Subject} {inner rs : List Record} {d : Diagnostic}

theorem lines_mk (outcome : Outcome) : (Record.mk rule subject inner outcome).lines depth =
    lineOf depth rule ("subject=" ++ subject.render) ::
      (linesAll (depth + 1) inner ++ [lineOf depth rule outcome.render]) := by
  rw [lines, lineOf, ← String.append_assoc]
  rfl

theorem linesAll_eq_flatMap (depth : Nat) (rs : List Record) : linesAll depth rs = rs.flatMap (lines depth) := by
  induction rs with
  | nil => rw [linesAll, List.flatMap_nil]
  | cons r rs ih => rw [linesAll, ih, List.flatMap_cons]

mutual

theorem nested_lines (depth : Nat) (r : Record) {rest : List String} (hrest : Nested depth rest) :
    Nested depth (r.lines depth ++ rest) := by
  match r with
  | .mk rule subject inner outcome =>
      rw [lines_mk, List.cons_append, List.append_assoc, List.singleton_append]
      exact .judgment ⟨_, rfl⟩ (nested_linesAll (depth + 1) inner) (outcome.closes depth rule) hrest

theorem nested_linesAll (depth : Nat) (rs : List Record) : Nested depth (linesAll depth rs) := by
  match rs with
  | [] =>
      rw [linesAll]
      exact .nil depth
  | r :: rs =>
      rw [linesAll]
      exact nested_lines depth r (nested_linesAll depth rs)

end

/-- The first line of a judgment opens it and the last one closes it. -/
theorem matches_lines (outcome : Outcome) : Matches ((Record.mk rule subject inner outcome).lines depth) depth rule 0
    (((Record.mk rule subject inner outcome).lines depth).length - 1) := by
  have hinner := (nested_linesAll (depth + 1) inner).deeperThan (Nat.lt_succ_self depth)
  rw [lines_mk, List.length_cons, List.length_append]
  exact matches_judgment [] ⟨subject.render, rfl⟩ hinner (outcome.closes depth rule)

theorem Succeeded.clean {r : Record} (h : r.Succeeded) (depth : Nat) : Clean (r.lines depth) := by
  induction h generalizing depth with
  | mk houtcome _ hinner =>
      rw [lines_mk, linesAll_eq_flatMap]
      refine List.forall_mem_cons.mpr ⟨fun _ _ => Opens.not_errs ⟨_, rfl⟩, List.forall_mem_append.mpr ⟨?_, ?_⟩⟩
      · intro line hline
        obtain ⟨r, hr, hline⟩ := List.mem_flatMap.mp hline
        exact hinner r hr (depth + 1) line hline
      · exact List.forall_mem_singleton.mpr fun _ _ => (Outcome.returns houtcome depth _).not_errs

theorem clean_linesAll (h : ∀ r ∈ rs, r.Succeeded) (depth : Nat) : Clean (linesAll depth rs) := by
  intro line hline
  rw [linesAll_eq_flatMap] at hline
  obtain ⟨r, hr, hline⟩ := List.mem_flatMap.mp hline
  exact (h r hr).clean depth line hline

/-- A failed judgment adds its own error to those inside it. -/
theorem unwinds_failed {path : List Rule} (hrs : ∀ r ∈ rs, r.Succeeded)
    (h : Unwinds d (depth + 1) path (linesAll (depth + 1) inner)) :
    Unwinds d depth (path ++ [rule]) (linesAll depth (rs ++ [.mk rule subject inner (.failed d)])) := by
  obtain ⟨before, hbefore, heq⟩ := h
  refine ⟨linesAll depth rs ++ lineOf depth rule ("subject=" ++ subject.render) :: before, ?_, ?_⟩
  · refine List.forall_mem_append.mpr ⟨clean_linesAll hrs depth, List.forall_mem_cons.mpr ⟨?_, hbefore⟩⟩
    exact fun _ _ => Opens.not_errs ⟨_, rfl⟩
  · rw [linesAll_eq_flatMap depth (rs ++ _), List.flatMap_append, List.flatMap_singleton, lines_mk, heq,
      ← linesAll_eq_flatMap, unwinding_concat]
    simp only [List.append_assoc, List.cons_append]

theorem Unwound.exists_path (h : Unwound d rs) (depth : Nat) :
    ∃ path, Unwinds d depth path (linesAll depth rs) := by
  induction h generalizing depth with
  | here hrs => exact ⟨[], _, clean_linesAll hrs depth, (List.append_nil _).symm⟩
  | inside hrs _ ih =>
      obtain ⟨path, hpath⟩ := ih (depth + 1)
      exact ⟨path ++ [_], unwinds_failed hrs hpath⟩

end Record

def Context.RecordsOne {α : Type} (cx : Context) (rule : Rule) (x : Traced α) : Prop :=
  cx.settings.maxDepth ≤ cx.depth ∧ x.records = [] ∨
    ∃ subject inner outcome, x.records = [.mk rule subject inner outcome] ∧
      ∀ d, x.result = .error d → outcome = .failed d

structure Context.Traces {α : Type} (cx : Context) (rule : Rule) (x : Traced α) : Prop where
  bracketed : Bracketed x.lines
  /-- All lines are between the first, which opens the judgment itself, and the last. -/
  whole : cx.settings.maxDepth ≤ cx.depth ∧ x.lines = [] ∨ Matches x.lines 1 rule 0 (x.lines.length - 1)
  success {a : α} : x.result = .ok a → Clean x.lines
  failure {d : Diagnostic} : x.result = .error d → x.lines ≠ [] → ∃ path, Unwinds d 1 (path ++ [rule]) x.lines

theorem Context.recordsOne_judge {α : Type} (cx : Context) (span : Span) (rule : Rule) (subject : Subject)
    (value : α → Outcome) (body : Context → Traced α) :
    cx.RecordsOne rule (cx.judge span rule subject value body) := by
  change cx.RecordsOne rule (cx.descend span >>= fun inner => (body inner).record rule subject value)
  unfold descend
  split
  · refine .inr ⟨subject, _, _, rfl, fun d hd => ?_⟩
    change (body _).result = .error d at hd
    rw [hd]
  · rename_i hdepth
    exact .inl ⟨Nat.le_of_not_lt hdepth, rfl⟩

theorem Context.RecordsOne.traces {α : Type} {cx : Context} {rule : Rule} {x : Traced α}
    (h : cx.RecordsOne rule x) (hbuilt : x.Built) : cx.Traces rule x := by
  have horderly := hbuilt.orderly
  unfold Orderly at horderly
  have hempty (hnone : x.records = []) : x.lines = [] := by rw [Traced.lines, hnone, Record.linesAll]
  refine ⟨(Record.nested_linesAll 1 x.records).bracketed, ?_, fun ha => ?_, fun {d} hd hlines => ?_⟩
  · obtain ⟨hdeep, hnone⟩ | ⟨subject, inner, outcome, hone, -⟩ := h
    · exact .inl ⟨hdeep, hempty hnone⟩
    · refine .inr ?_
      rw [Traced.lines, hone, Record.linesAll, Record.linesAll, List.append_nil]
      exact Record.matches_lines outcome
  · rw [ha] at horderly
    exact Record.clean_linesAll horderly 1
  · rw [hd] at horderly
    obtain ⟨-, hnone⟩ | ⟨subject, inner, outcome, hone, houtcome⟩ := h
    · exact absurd (hempty hnone) hlines
    · obtain rfl := houtcome d hd
      rw [hone] at horderly
      obtain ⟨path, hpath⟩ := horderly.inner.exists_path 2
      rw [Traced.lines, hone]
      exact ⟨path, Record.unwinds_failed (List.forall_mem_nil _) hpath⟩

theorem Expr.recordsOne_synth (e : Expr) (cx : Context) : cx.RecordsOne .synth (e.synth cx) := by
  cases e <;> exact cx.recordsOne_judge _ _ _ _ _

theorem Expr.recordsOne_check (e : Expr) (cx : Context) (t : Ty) : cx.RecordsOne .check (e.check cx t) := by
  cases e with
  | object span properties => cases t <;> exact cx.recordsOne_judge _ _ _ _ _
  | _ => exact cx.recordsOne_judge _ _ _ _ _

theorem TypeExpr.recordsOne_convert (e : TypeExpr) (cx : Context) : cx.RecordsOne .convert (e.convert cx) := by
  rw [TypeExpr.convert]
  exact cx.recordsOne_judge _ _ _ _ _

/-- Traces are well nested, and nothing happens after an error but that it leaves the judgments it is in. -/
theorem judgments_trace_nested_and_unwind (env : Env) (settings : Settings) (span : Span) (e : Expr) (t : Ty)
    (type : TypeExpr) :
    (Context.top env settings span).Traces .synth (e.synth (.top env settings span)) ∧
      (Context.top env settings span).Traces .check (e.check (.top env settings span) t) ∧
      (Context.top env settings span).Traces .convert (type.convert (.top env settings span)) :=
  ⟨(e.recordsOne_synth _).traces (e.built_judgments.synth _),
    (e.recordsOne_check _ t).traces (e.built_judgments.check _ t),
    (type.recordsOne_convert _).traces (type.built_convert _)⟩

example :
    ((Expr.unary ⟨0, 2⟩ .not (.ident ⟨1, 2⟩ "x")).synth (.top .empty {} ⟨0, 2⟩)).lines =
      ["1 synth subject=!x", "2 synth subject=x", "2 synth error=unbound identifier 'x' kind=error",
        "1 synth error=unbound identifier 'x' kind=error"] := by
  decide +kernel

end Structura
