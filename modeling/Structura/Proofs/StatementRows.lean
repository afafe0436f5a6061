import Structura.Proofs.FailureIsolation
import Structura.Proofs.FirstFault
import Structura.Proofs.JudgmentInvariants
import Structura.Proofs.LatticeCases
import Structura.Proofs.LineFeeds
import Structura.Proofs.Locations

namespace Structura

open Grammar Text

namespace Ty

def Unbroken (t : Ty) : Prop := ¬SomeBroken t.texts

theorem someBroken_textsAll {ts : List Ty} : SomeBroken (textsAll ts) ↔ ∃ t ∈ ts, SomeBroken t.texts := by
  induction ts with
  | nil => exact iff_of_false not_someBroken_nil (by simp)
  | cons t ts ih => simp [textsAll, someBroken_append, ih]

theorem someBroken_textsOfProperties {ps : List (String × Ty)} :
    SomeBroken (textsOfProperties ps) ↔ ∃ p ∈ ps, Broken p.1 ∨ SomeBroken p.2.texts := by
  induction ps with
  | nil => exact iff_of_false not_someBroken_nil (by simp)
  | cons p ps ih =>
      rw [textsOfProperties, someBroken_cons, someBroken_append, ih]
      simp [or_assoc]

theorem unbroken_union {ts : List Ty} : (Ty.union ts).Unbroken ↔ ∀ t ∈ ts, t.Unbroken := by
  rw [Unbroken, texts, someBroken_textsAll]
  simp [Unbroken]

theorem unbroken_inter {ts : List Ty} : (Ty.inter ts).Unbroken ↔ ∀ t ∈ ts, t.Unbroken := by
  rw [Unbroken, texts, someBroken_textsAll]
  simp [Unbroken]

theorem unbroken_object {ps : List (String × Ty)} :
    (Ty.object ps).Unbroken ↔ ∀ p ∈ ps, ¬Broken p.1 ∧ p.2.Unbroken := by
  rw [Unbroken, texts, someBroken_textsOfProperties]
  simp [Unbroken]

theorem unbroken_function {ps : List Ty} {r : Ty} :
    (Ty.function ps r).Unbroken ↔ (∀ p ∈ ps, p.Unbroken) ∧ r.Unbroken := by
  rw [Unbroken, texts, someBroken_append, someBroken_textsAll]
  simp [Unbroken]

theorem memberwise_unbroken : Memberwise Unbroken where
  never := not_someBroken_nil
  unknown := not_someBroken_nil
  union _ h := unbroken_union.mpr h
  inter h := unbroken_inter.mpr h
  of_union h ht := unbroken_union.mp h _ ht
  of_inter h ht := unbroken_inter.mp h _ ht

theorem unbroken_string {s : String} : (Ty.literal (.string s)).Unbroken ↔ ¬Broken s := by
  rw [Unbroken, texts, someBroken_singleton]

mutual

theorem unbroken_tag (t : Ty) : t.tag.Unbroken := by
  match t with
  | .never | .unknown => exact not_someBroken_nil
  | .prim .null | .prim .boolean | .prim .number | .prim .string => exact unbroken_string.mpr (by decide)
  | .literal value => exact unbroken_string.mpr value.base.not_broken_render
  | .object _ | .function _ _ => exact unbroken_string.mpr (by decide)
  | .union members =>
      rw [tag]
      exact memberwise_unbroken.holds_join (unbroken_tags members)
  | .inter members =>
      have htags := unbroken_tags members
      rw [tag]
      split
      · exact not_someBroken_nil
      · rename_i first rest hfirst
        split
        · exact htags first (hfirst ▸ List.mem_cons_self)
        · exact not_someBroken_nil

theorem unbroken_tags (ts : List Ty) : ∀ u ∈ tags ts, u.Unbroken := by
  match ts with
  | [] => exact List.forall_mem_nil _
  | t :: ts => exact List.forall_mem_cons.mpr ⟨unbroken_tag t, unbroken_tags ts⟩

end

def unbrokenness : Ty.Invariant where
  holds := Unbroken
  named name := ¬Broken name
  never := not_someBroken_nil
  unknown := not_someBroken_nil
  prim _ := not_someBroken_nil
  boolean _ := not_someBroken_nil
  number _ := not_someBroken_nil
  object _ types := unbroken_object.mpr types
  function params result := unbroken_function.mpr ⟨params, result⟩
  join := memberwise_unbroken.holds_join
  meet := memberwise_unbroken.holds_meet
  tag := unbroken_tag
  branch := memberwise_unbroken.branch
  property ht hp := unbroken_object.mp ht _ hp
  param ht hp := (unbroken_function.mp ht).1 _ hp
  result ht := (unbroken_function.mp ht).2

end Ty

namespace Token.Denotes

theorem not_broken {t : Token} {s : String} (h : t.Denotes (.string s)) (ht : ¬Broken t.text) : ¬Broken s := by
  cases h with
  | doubleQuoted _ htext | singleQuoted _ htext =>
      rw [htext, broken_append, broken_append] at ht
      exact fun hs => ht (.inl (.inr hs))

theorem unbroken {t : Token} {value : Literal} (h : t.Denotes value) (ht : ¬Broken t.text) :
    (Ty.literal value).Unbroken := by
  cases value with
  | boolean | number => exact not_someBroken_nil
  | string s => exact Ty.unbroken_string.mpr (h.not_broken ht)

end Token.Denotes

def TypeExpr.literal? : TypeExpr → Option Literal
  | .literal _ value => some value
  | _ => none

def Expr.literal? : Expr → Option Literal
  | .literal _ value => some value
  | _ => none

namespace Grammar

variable {w : List Token} {value : Literal}

def TypeSymbol.literal? : (s : TypeSymbol) → s.Tree → Option Literal
  | .type, e | .functionType, e | .unionType, e | .interType, e | .primaryType, e => e.literal?
  | .alternatives, _ | .requirements, _ | .params, _ | .members, _ | .signature, _ => none

theorem DerivesType.literal_token {s : TypeSymbol} {tree : s.Tree} (h : DerivesType s w tree)
    (hvalue : s.literal? tree = some value) : ∃ t ∈ w, t.Denotes value := by
  induction h with
  | function _ ih | union _ ih | inter _ ih | primary _ ih => exact ih hvalue
  | @literal t _ ht =>
      cases hvalue
      exact ⟨t, List.mem_cons_self, ht⟩
  | @group l r u _ _ _ _ ih =>
      obtain ⟨t, ht, hdenotes⟩ := ih hvalue
      exact ⟨t, List.mem_cons_of_mem l (List.mem_append_left [r] ht), hdenotes⟩
  | _ => cases hvalue

def ExprSymbol.literal? : (s : ExprSymbol) → s.Tree → Option Literal
  | .expr, e | .arrow, e | .disjunction, e | .conjunction, e | .equality, e | .relational, e
  | .additive, e | .unary, e | .chain, e | .primary, e => e.literal?
  | .arrowParams, _ | .moreParams, _ | .arguments, _ | .properties, _ | .property, _ => none

theorem DerivesExpr.literal_token {s : ExprSymbol} {tree : s.Tree} (h : DerivesExpr s w tree)
    (hvalue : s.literal? tree = some value) : ∃ t ∈ w, t.Denotes value := by
  induction h with
  | arrow _ ih | disjunction _ ih | conjunction _ ih | equality _ ih | relational _ ih | additive _ ih
  | unary _ ih | chain _ ih | primary _ ih => exact ih hvalue
  | @literal t _ ht =>
      cases hvalue
      exact ⟨t, List.mem_cons_self, ht⟩
  | @group l r u _ _ _ _ ih =>
      obtain ⟨t, ht, hdenotes⟩ := ih hvalue
      exact ⟨t, List.mem_cons_of_mem l (List.mem_append_left [r] ht), hdenotes⟩
  | _ => cases hvalue

/-- Literals and names have the texts of tokens. -/
theorem Makes.brings_unbrokenness {node : SourceNode} (h : Makes node w) (hw : ∀ t ∈ w, ¬Broken t.text) :
    node.Brings Ty.unbrokenness := by
  unfold SourceNode.Brings
  split
  · cases h with
    | expr he _ =>
        obtain ⟨t, ht, hdenotes⟩ := he.literal_token rfl
        exact hdenotes.unbroken (hw t ht)
  · cases h with
    | type he _ =>
        obtain ⟨t, ht, hdenotes⟩ := he.literal_token rfl
        exact hdenotes.unbroken (hw t ht)
  · cases h with
    | @name t _ => exact hw t List.mem_cons_self
  · trivial

theorem Occupies.allows_unbrokenness {root : SourceNode} (h : Occupies root w) (hw : ∀ t ∈ w, ¬Broken t.text) :
    root.Allows Ty.unbrokenness fun d => ¬SomeBroken d.fault.texts := by
  have hbrings (node : SourceNode) (hnode : root.Contains node) : node.Brings Ty.unbrokenness := by
    obtain ⟨u, w', v, rfl, hw'⟩ := h.of_contains hnode
    exact hw'.makes.brings_unbrokenness fun t ht =>
      hw t (List.mem_append_right u (List.mem_append_left v ht))
  refine fun node hnode => ⟨hbrings node hnode, fun fault span hreports => ?_⟩
  have hchild {n : Name} (hn : .name n ∈ node.children) : ¬SomeBroken [n.text] :=
    someBroken_singleton.not.mpr (hbrings (.name n) (hnode.child hn))
  cases hreports with
  | mismatch _ hexpected hactual => exact someBroken_append.not.mpr (not_or.mpr ⟨hexpected, hactual⟩)
  | missing _ _ hname => exact someBroken_singleton.not.mpr hname
  | unbound => exact hchild List.mem_cons_self
  | noSuchProperty => exact hchild (List.mem_cons_of_mem _ List.mem_cons_self)
  | duplicateField hn | extraField hn => exact hchild (Property.name_mem_nodes hn)
  | untypedParam hn | untypedTypeParam hn => exact hchild (List.mem_append_left _ (Signature.name_mem_nodes hn))
  | duplicateMember hn | untypedMember hn => exact hchild (Signature.name_mem_nodes hn)
  | _ => exact not_someBroken_nil

end Grammar

def Text.BreaksToken (code : String) : Prop := SomeBroken ((Token.ofText code).tokens.map Token.text)

instance (code : String) : Decidable (BreaksToken code) :=
  inferInstanceAs (Decidable (∃ text ∈ _, Broken text))

theorem Lexer.Lexes.not_broken {code : String} {w : List Token} {o : Nat} {rest : List Char} {t : Token}
    (h : Lexes 0 code.toList w o rest) (hcode : ¬BreaksToken code) (ht : t ∈ w) : ¬Broken t.text := by
  have hmem : t ∈ (Token.ofText code).tokens := by
    rw [Token.ofText, h.split_eq]
    exact List.mem_append_left _ ht
  exact not_someBroken.mp hcode t.text (List.mem_map_of_mem hmem)

theorem Grammar.FirstFault.not_someBroken {s : Start} {code : String} {d : Diagnostic} (h : FirstFault s code d)
    (hcode : ¬BreaksToken code) : ¬SomeBroken d.fault.texts := by
  cases h with
  | unexpectedToken hlexes _ _ =>
      exact someBroken_singleton.not.mpr
        (hlexes.not_broken hcode (List.mem_append_right _ List.mem_cons_self))
  | invalidToken | unexpectedEnd => exact not_someBroken_nil

namespace Program

variable {settings : Settings} {env : Env} {code : String} {ss : List Statement}

theorem render_of_parse_ok (h : Statement.parseAll code = .ok ss) :
    render settings env code = "\n".intercalate ((judgeAll settings env ss).map (Verdict.render code)) := by
  rw [render, check, h]
  rfl

theorem render_of_parse_error {d : Diagnostic} (h : Statement.parseAll code = .error d) :
    render settings env code = d.summary code := by
  rw [render, check, h]
  rfl

theorem someBroken_renders (vs : List Verdict) :
    SomeBroken (vs.map (Verdict.render code)) ↔ ∃ v ∈ vs, SomeBroken v.texts := by
  simp only [SomeBroken, List.mem_map, exists_exists_and_eq_and]
  exact exists_congr fun v => and_congr_right fun _ => v.broken_render code

theorem not_someBroken_verdicts (h : Statement.parseAll code = .ok ss) (hcode : ¬BreaksToken code)
    (henv : env.All Ty.Unbroken) : ∀ v ∈ judgeAll settings env ss, ¬SomeBroken v.texts := by
  obtain ⟨tokens, o, hlexes, hderives⟩ := Parser.derives_of_parse_eq_ok (s := .program) h
  have hallows : ∀ s ∈ ss, (SourceNode.statement s).Allows Ty.unbrokenness
      fun d => ¬SomeBroken d.fault.texts := by
    intro s hs
    obtain ⟨u, w, v, rfl, hw⟩ := (Start.laid hderives).exists_of_mem (List.mem_map_of_mem hs)
    exact hw.allows_unbrokenness fun t ht =>
      hlexes.not_broken hcode (List.mem_append_right u (List.mem_append_left v ht))
  intro v hv
  have hends := (uphold_judgeAll (I := Ty.unbrokenness) settings henv hallows v hv).2
  unfold Verdict.texts
  split
  · rename_i finding hfinding
    have hfound := hends.ok hfinding
    cases finding with
    | binding name t => exact someBroken_cons.not.mpr (not_or.mpr hfound)
    | value t => exact hfound
  · rename_i d hd
    exact hends.error hd

end Program

/-- The rows of a program are those of its verdicts, one after the other. There is one for each statement exactly
when no verdict mentions a broken text, and so whenever no token and no bound type does; a syntax error has one row
unless the token that it shows is broken. -/
theorem Program.rows_render (settings : Settings) (env : Env) (code : String) :
    (∀ ss, Statement.parseAll code = .ok ss → ss ≠ [] →
      (judgeAll settings env ss).map Verdict.statement = ss ∧
      rows (render settings env code) = ((judgeAll settings env ss).map (Verdict.render code)).flatMap rows ∧
      ((rows (render settings env code)).length = ss.length ↔
        ∀ v ∈ judgeAll settings env ss, ¬SomeBroken v.texts) ∧
      (¬BreaksToken code → env.All Ty.Unbroken →
        rows (render settings env code) = (judgeAll settings env ss).map (Verdict.render code))) ∧
    ∀ d, Statement.parseAll code = .error d →
      ((rows (render settings env code)).length = 1 ↔ ¬SomeBroken d.fault.texts) ∧
      (¬BreaksToken code → rows (render settings env code) = [d.summary code]) := by
  constructor
  · intro ss h hne
    have hstatements : (judgeAll settings env ss).map Verdict.statement = ss := statements_judgeAll ss
    have hverdicts : (judgeAll settings env ss).map (Verdict.render code) ≠ [] := by
      intro hnil
      rw [List.map_eq_nil_iff.mp hnil] at hstatements
      exact hne hstatements.symm
    have hlength : ((judgeAll settings env ss).map (Verdict.render code)).length = ss.length := by
      rw [List.length_map, ← List.length_map Verdict.statement, hstatements]
    have hunbroken : ¬SomeBroken ((judgeAll settings env ss).map (Verdict.render code)) ↔
        ∀ v ∈ judgeAll settings env ss, ¬SomeBroken v.texts := by
      rw [someBroken_renders]
      simp
    rw [render_of_parse_ok h, rows_intercalate hverdicts]
    refine ⟨hstatements, rfl, ?_, fun hcode henv => ?_⟩
    · rw [← hlength, length_flatMap_rows.2, hunbroken]
    · exact flatMap_rows (hunbroken.mpr (not_someBroken_verdicts h hcode henv))
  · intro d h
    rw [render_of_parse_error h]
    refine ⟨?_, fun hcode => rows_of_not_broken ?_⟩
    · rw [length_rows_eq_one_iff, Diagnostic.broken_summary]
    · rw [Diagnostic.broken_summary]
      exact (Parser.firstFault_of_parse (s := .program) h).not_someBroken hcode

/-- The program `let s = "x"; s();` -/
def Program.calledString : List Statement :=
  [.bind ⟨0, 12⟩ ⟨"s", ⟨4, 5⟩⟩ none (.literal ⟨8, 11⟩ (.string "x")),
    .eval ⟨13, 17⟩ (.call ⟨13, 16⟩ (.ident ⟨13, 14⟩ "s") [])]

theorem Program.rows_render_calledString :
    Statement.parseAll "let s = \"x\"; s();" = .ok calledString ∧ ¬BreaksToken "let s = \"x\"; s();" ∧
      rows (render {} .empty "let s = \"x\"; s();") =
        ["s: 'x'", "1:14~1:15: error: call expects function"] ∧
      Statement.parseAll "a \"\n\"" = .error (.located (.unexpectedToken "\"\n\"") ⟨2, 5⟩) ∧
      (rows (render {} .empty "a \"\n\"")).length ≠ 1 := by
  have hparse : Statement.parseAll "let s = \"x\"; s();" = .ok calledString := by with_unfolding_all rfl
  have hcode : ¬BreaksToken "let s = \"x\"; s();" := by decide +kernel
  have hrenders : (judgeAll {} .empty calledString).map (Verdict.render "let s = \"x\"; s();") =
      ["s: 'x'", "1:14~1:15: error: call expects function"] := by decide +kernel
  have hrows := ((rows_render {} .empty _).1 calledString hparse (List.cons_ne_nil _ _)).2.2.2 hcode
    (Env.all_empty _)
  have herror : Statement.parseAll "a \"\n\"" = .error (.located (.unexpectedToken "\"\n\"") ⟨2, 5⟩) := by
    with_unfolding_all rfl
  have hbroken : SomeBroken ["\"\n\""] := someBroken_singleton.mpr (by decide)
  have hlength := ((rows_render {} .empty _).2 _ herror).1
  exact ⟨hparse, hcode, hrows.trans hrenders, herror, fun hone => hlength.mp hone hbroken⟩

/-- A quoted text over two lines is one statement with two rows. -/
theorem Program.quoted_break_two_rows :
    Statement.parseAll "\"a\nb\";" = .ok [.eval ⟨0, 6⟩ (.literal ⟨0, 5⟩ (.string "a\nb"))] ∧
      rows (render {} .empty "\"a\nb\";") = ["'a", "b'"] := by
  constructor
  · with_unfolding_all rfl
  · decide +kernel

end Structura
