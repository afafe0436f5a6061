import Structura.Proofs.PrintedTypes
import Structura.Proofs.Unplaced

namespace Structura

theorem TypeExpr.renderAll_eq_map (ts : List TypeExpr) : renderAll ts = ts.map render := by
  induction ts with
  | nil => rfl
  | cons t ts ih => rw [renderAll, ih, List.map_cons]

theorem Signature.renderAll_eq_map (ss : List Signature) : renderAll ss = ss.map render := by
  induction ss with
  | nil => rfl
  | cons s ss ih => rw [renderAll, ih, List.map_cons]

theorem map_eq_map_of_forall₂ {α β γ : Type} {f : α → γ} {g : β → γ} {as : List α} {bs : List β}
    (h : List.Forall₂ (fun a b => f a = g b) as bs) : as.map f = bs.map g := by
  rw [← List.forall₂_eq_eq_eq, List.forall₂_map_left_iff, List.forall₂_map_right_iff]
  exact h

/-- Values whose text in the source has no escapes: strings of characters that stand for themselves and finite
numbers. -/
def Literal.Plain : Literal → Prop
  | .boolean _ => True
  | .number n => ∃ negative size, n = .finite negative size
  | .string s => ∀ c ∈ s.toList, Text.escape c = [c]

namespace SourceNode

def IsPlain : SourceNode → Prop
  | .expr (.literal _ value) | .type (.literal _ value) => value.Plain
  | _ => True

def IsNamed : SourceNode → Prop
  | .name n => Lexer.IsName n.text
  | _ => True

def Writable (root : SourceNode) : Prop := root.Throughout fun node => node.IsPlain ∧ node.IsNamed

variable {root node : SourceNode}

theorem Writable.self (h : root.Writable) : root.IsPlain ∧ root.IsNamed := h root .self

theorem Writable.children (h : root.Writable) : ∀ node ∈ root.children, node.Writable := (throughout_iff.mp h).2

/-- What was read can be written when its literals are plain. -/
theorem writable_of_derives {s : Grammar.Start} {code : String} {tokens : List Token} {o : Nat} {tree : s.Tree}
    (hlexes : Lexer.Lexes 0 code.toList tokens o []) (h : s.Derives tokens tree) (hroot : root ∈ s.nodes tree)
    (hplain : root.Throughout IsPlain) : root.Writable := by
  intro node hnode
  refine ⟨hplain node hnode, ?_⟩
  cases node with
  | name n =>
      obtain ⟨u, w, v, rfl, hoccupies⟩ := (Grammar.Start.laid h).exists_of_mem hroot
      obtain ⟨u', w', v', rfl, hname⟩ := hoccupies.of_contains hnode
      cases hname with
      | mk hmakes _ =>
          cases hmakes with
          | @name t ht => exact hlexes.isName t (by simp) ht
  | expr | type | statement => trivial

end SourceNode

/-- The token of a number has no sign. -/
theorem Binary64.ofDecimal_eq_finite {d : Decimal} {negative : Bool} {size : Magnitude}
    (h : ofDecimal false d = .finite negative size) : negative = false := by
  rw [ofDecimal_eq, ofQuotient] at h
  split at h
  · cases h
    rfl
  · cases h

theorem Text.flatMap_escape {cs : List Char} (h : ∀ c ∈ cs, escape c = [c]) : cs.flatMap escape = cs := by
  induction cs with
  | nil => rfl
  | cons c cs ih =>
      obtain ⟨hc, hcs⟩ := List.forall_mem_cons.mp h
      rw [List.flatMap_cons, hc, ih hcs, List.singleton_append]

theorem Token.Denotes.exists_size {token : Token} {n : Binary64} (h : token.Denotes (.number n))
    (hplain : (Literal.number n).Plain) : ∃ size, n = .finite false size := by
  obtain ⟨negative, size, rfl⟩ := hplain
  cases h with
  | number _ hnumber hvalue =>
      rw [Token.ofText?_number hnumber, Option.some_inj] at hvalue
      obtain rfl := Binary64.ofDecimal_eq_finite hvalue
      exact ⟨size, rfl⟩

/-- The text of a plain literal in the source is one token that stands for it. -/
theorem Literal.readAs_source {token : Token} {v : Literal} (h : token.Denotes v) (hplain : v.Plain) :
    Lexer.ReadAs v.source.toList fun w => ∃ token : Token, token.Denotes v ∧ w = [token] := by
  cases v with
  | boolean b => exact Ty.readAs_literal trivial
  | number n => exact Ty.readAs_literal (h.exists_size hplain)
  | string s =>
      have hsource : (Literal.string s).source.toList = '"' :: (s.toList ++ ['"']) := by
        rw [Literal.source, Text.quoted, String.toList_ofList, Text.flatMap_escape hplain]
        rfl
      have hpattern : Lexer.Pattern (some .doubleQuoted) (Literal.string s).source.toList := by
        rw [hsource]
        refine .doubleQuoted ?_
        rintro c hc rfl
        exact absurd (hplain '"' hc) (by decide)
      refine (Lexer.ReadAs.token hpattern (by simp)).imp ?_
      rintro w ⟨token, ht, htext, rfl⟩
      refine ⟨token, .doubleQuoted ht ?_, rfl⟩
      rw [htext, ← String.toList_inj, hsource]
      simp

theorem Literal.stops_sign_source {token : Token} {v : Literal} (h : token.Denotes v) (hplain : v.Plain)
    (rest : List Char) : Lexer.Stops .sign (v.source.toList ++ rest) := by
  cases v with
  | boolean b =>
      cases b with
      | false => exact .other rfl
      | true => exact .other rfl
  | number n =>
      obtain ⟨size, rfl⟩ := h.exists_size hplain
      have hsource : (Literal.number (.finite false size)).source = size.render := String.empty_append
      rw [hsource]
      exact Lexer.Pattern.stops_sign (.number size.ofText?_render.1) (by decide) rest
  | string s =>
      rw [Literal.source, Text.quoted, String.toList_ofList]
      exact .other rfl

open Lexer Grammar

def TypeExpr.Prints (t : TypeExpr) : Prop :=
  ReadAs t.render.toList fun w => ∃ t', DerivesType .primaryType w t' ∧ t'.unplaced = t.unplaced

def Signature.Prints (s : Signature) : Prop :=
  ReadAs s.render.toList fun w => ∃ s', DerivesType .signature w s' ∧ s'.unplaced = s.unplaced

namespace Signature

theorem prints_bare {name : Name} (h : IsName name.text) : (bare name).Prints := by
  refine (ReadAs.token h.1 fun _ => h).imp ?_
  rintro w ⟨n, hn, htext, rfl⟩
  refine ⟨_, DerivesType.bare hn, ?_⟩
  rw [unplaced, unplaced, Name.unplaced, Name.unplaced, Token.name, htext]

theorem prints_typed {name : Name} {type : TypeExpr} (h : IsName name.text) (htype : type.Prints) :
    (typed name type).Prints := by
  rw [Prints, render]
  refine (ReadAs.labelled h htype).imp ?_
  rintro w ⟨n, c, v, rfl, hn, htext, hc, t, ht, heq⟩
  refine ⟨_, DerivesType.typed hn hc (.union (.inter (.primary ht))), ?_⟩
  rw [unplaced, unplaced, heq, Name.unplaced, Name.unplaced, Token.name, htext]

end Signature

namespace TypeExpr

variable {span : Span}

theorem prints_of_word {t : TypeExpr} {terminal : Terminal} (hword : terminal.spelling? = some t.render)
    (h : ∀ token : Token, token.terminal = terminal →
      ∃ t', DerivesType .primaryType [token] t' ∧ t'.unplaced = t.unplaced) : t.Prints := by
  refine (ReadAs.spelled hword).imp ?_
  rintro w ⟨token, ht, rfl⟩
  exact h token ht

theorem prints_literal {token : Token} {v : Literal} (h : token.Denotes v) (hplain : v.Plain) :
    (literal span v).Prints := by
  refine (Literal.readAs_source h hplain).imp ?_
  rintro w ⟨token, hdenotes, rfl⟩
  exact ⟨_, DerivesType.literal hdenotes, rfl⟩

theorem prints_object {members : List Signature} (h : ∀ m ∈ members, m.Prints) :
    (object span members).Prints := by
  cases members with
  | nil =>
      have hopen := ReadAs.spelled (t := .openBrace) rfl
      have hclose := ReadAs.spelled (t := .closeBrace) rfl
      -- Nothing stands between two blanks here.
      have htext : (object span []).render.toList = "\x7b".toList ++ ' ' :: ([' '] ++ "\x7d".toList) := by
        simp [render, Signature.renderAll]
      rw [Prints, htext]
      refine (hopen.gapped [' '] (List.forall_mem_singleton.mpr (by decide)) hclose).imp ?_
      rintro w ⟨_, _, rfl, ⟨l, hl, rfl⟩, r, hr, rfl⟩
      exact ⟨_, DerivesType.object hl .noMembers hr, rfl⟩
  | cons m ms =>
      rw [Prints, render, Signature.renderAll_eq_map]
      refine (ReadAs.listed glues_semicolon (List.cons_ne_nil m ms) h).braced.imp ?_
      rintro w ⟨l, u, r, rfl, hl, hu, hr⟩
      obtain ⟨ms', hms, hall⟩ := hu.choose
      refine ⟨_, DerivesType.object hl (members_of_series (.inr hms) (.inl rfl)) hr, ?_⟩
      rw [unplaced, unplaced, Signature.unplacedAll_eq_map, Signature.unplacedAll_eq_map,
        map_eq_map_of_forall₂ hall]

theorem prints_function {params : List Signature} {result : TypeExpr} (h : ∀ p ∈ params, p.Prints)
    (hresult : result.Prints) : (function span params result).Prints := by
  have htext : (function span params result).render =
      "(" ++ ("(" ++ ", ".intercalate (params.map Signature.render) ++ ") => " ++ result.render) ++ ")" := by
    simp [render, Signature.renderAll_eq_map, ← String.toList_inj]
  rw [Prints, htext]
  refine (ReadAs.function h hresult).grouped.imp ?_
  rintro w ⟨l, _, r, rfl, hl, ⟨l', u, r', a, v, rfl, hl', hu, hr', ha, t, ht, heq⟩, hr⟩
  obtain ⟨ps, hps, hall⟩ := hu.choose
  have harrow := DerivesType.arrow hl' (params_of_series hps) hr' ha (.union (.inter (.primary ht)))
  refine ⟨_, DerivesType.group hl (.function harrow) hr, ?_⟩
  rw [unplaced, unplaced, Signature.unplacedAll_eq_map, Signature.unplacedAll_eq_map, heq,
    map_eq_map_of_forall₂ hall]

theorem two_le_length {first : TypeExpr} {rest : List TypeExpr} (h : rest ≠ []) : 2 ≤ (first :: rest).length :=
  Nat.succ_le_succ (List.length_pos_iff.mpr h)

theorem prints_union {first : TypeExpr} {rest : List TypeExpr} (hne : rest ≠ [])
    (h : ∀ t ∈ first :: rest, t.Prints) : (union span (first :: rest)).Prints := by
  have hmembers : ∀ t ∈ first :: rest, ReadAs t.render.toList
      fun w => ∃ t', DerivesType .interType w t' ∧ t'.unplaced = t.unplaced := by
    intro t ht
    refine (h t ht).imp ?_
    rintro w ⟨t', ht', heq⟩
    exact ⟨t', .primary ht', heq⟩
  rw [Prints, render, renderAll_eq_map]
  refine (ReadAs.signed signed_alternatives glues_bar (two_le_length hne) hmembers).grouped.imp ?_
  rintro w ⟨l, _, r, rfl, hl, ⟨u, v, t, ts, rfl, ht, hts, hall⟩, hr⟩
  refine ⟨_, DerivesType.group hl (.union (.alternatives ht hts)) hr, ?_⟩
  rw [unplaced, unplaced, unplacedAll_eq_map, unplacedAll_eq_map, map_eq_map_of_forall₂ hall]

theorem prints_inter {first : TypeExpr} {rest : List TypeExpr} (hne : rest ≠ [])
    (h : ∀ t ∈ first :: rest, t.Prints) : (inter span (first :: rest)).Prints := by
  rw [Prints, render, renderAll_eq_map]
  refine (ReadAs.signed signed_requirements glues_amp (two_le_length hne) h).grouped.imp ?_
  rintro w ⟨l, _, r, rfl, hl, ⟨u, v, t, ts, rfl, ht, hts, hall⟩, hr⟩
  refine ⟨_, DerivesType.group hl (.union (.inter (.requirements ht hts))) hr, ?_⟩
  rw [unplaced, unplaced, unplacedAll_eq_map, unplacedAll_eq_map, map_eq_map_of_forall₂ hall]

end TypeExpr

namespace Grammar

def TypeSymbol.Printed : (s : TypeSymbol) → s.Tree → Prop
  | .type, t | .functionType, t | .unionType, t | .interType, t | .primaryType, t => t.Prints
  | .alternatives, ts | .requirements, ts => ts ≠ [] ∧ ∀ t ∈ ts, t.Prints
  | .params, ps | .members, ps => ∀ p ∈ ps, p.Prints
  | .signature, p => p.Prints

theorem DerivesType.printed {s : TypeSymbol} {w : List Token} {t : s.Tree} (h : DerivesType s w t)
    (hnodes : ∀ node ∈ s.nodes t, node.Writable) : s.Printed t := by
  -- Along the derivation and not along the tree: unions and intersections have two members at least.
  have hchildren {node : SourceNode} (h : ∀ n ∈ [node], n.Writable) := (h node List.mem_cons_self).children
  induction h with
  | function _ ih | union _ ih | inter _ ih | primary _ ih | group _ _ _ ih => exact ih hnodes
  | arrow _ _ _ _ _ ihu ihv =>
      obtain ⟨hparams, hresult⟩ := List.forall_mem_append.mp (hchildren hnodes)
      exact TypeExpr.prints_function (ihu hparams) (ihv hresult)
  | alternatives _ _ ihu ihv =>
      obtain ⟨hfirst, hrest⟩ := List.forall_mem_cons.mp (hchildren hnodes)
      obtain ⟨hne, hall⟩ := ihv hrest
      exact TypeExpr.prints_union hne (List.forall_mem_cons.mpr ⟨ihu (List.forall_mem_singleton.mpr hfirst), hall⟩)
  | requirements _ _ ihu ihv =>
      obtain ⟨hfirst, hrest⟩ := List.forall_mem_cons.mp (hchildren hnodes)
      obtain ⟨hne, hall⟩ := ihv hrest
      exact TypeExpr.prints_inter hne (List.forall_mem_cons.mpr ⟨ihu (List.forall_mem_singleton.mpr hfirst), hall⟩)
  | lastAlternative _ _ ih | lastRequirement _ _ ih =>
      exact ⟨List.cons_ne_nil _ _, List.forall_mem_singleton.mpr (ih hnodes)⟩
  | alternative _ _ _ ihu ihv | requirement _ _ _ ihu ihv =>
      obtain ⟨hfirst, hrest⟩ := List.forall_mem_cons.mp hnodes
      have hprints := ihu (List.forall_mem_singleton.mpr hfirst)
      exact ⟨List.cons_ne_nil _ _, List.forall_mem_cons.mpr ⟨hprints, (ihv hrest).2⟩⟩
  | null _ => exact TypeExpr.prints_of_word rfl fun token ht => ⟨_, DerivesType.null ht, rfl⟩
  | boolean _ => exact TypeExpr.prints_of_word rfl fun token ht => ⟨_, DerivesType.boolean ht, rfl⟩
  | number _ => exact TypeExpr.prints_of_word rfl fun token ht => ⟨_, DerivesType.number ht, rfl⟩
  | string _ => exact TypeExpr.prints_of_word rfl fun token ht => ⟨_, DerivesType.string ht, rfl⟩
  | unknown _ => exact TypeExpr.prints_of_word rfl fun token ht => ⟨_, DerivesType.unknown ht, rfl⟩
  | never _ => exact TypeExpr.prints_of_word rfl fun token ht => ⟨_, DerivesType.never ht, rfl⟩
  | literal hdenotes =>
      exact TypeExpr.prints_literal hdenotes (hnodes _ List.mem_cons_self).self.1
  | object _ _ _ ih => exact TypeExpr.prints_object (ih (hchildren hnodes))
  | noParams | noMembers => exact fun _ hp => absurd hp List.not_mem_nil
  | lastParam _ ih | lastMember _ ih =>
      refine List.forall_mem_singleton.mpr (ih ?_)
      rwa [TypeSymbol.nodes, List.flatMap_singleton] at hnodes
  | param _ _ _ ihu ihv | member _ _ _ ihu ihv =>
      obtain ⟨hfirst, hrest⟩ := List.forall_mem_append.mp hnodes
      exact List.forall_mem_cons.mpr ⟨ihu hfirst, ihv hrest⟩
  | bare _ => exact Signature.prints_bare (hnodes _ List.mem_cons_self).self.2
  | typed _ _ _ ih =>
      obtain ⟨hname, htype⟩ := List.forall_mem_cons.mp hnodes
      exact Signature.prints_typed hname.self.2 (ih htype)

end Grammar

namespace TypeExpr

/-- The text of an annotation that was read is read as the same annotation, up to places. -/
theorem parse_render_of_parse {code : String} {t : TypeExpr} (h : TypeExpr.parse code = .ok t)
    (hplain : (SourceNode.type t).Throughout SourceNode.IsPlain) :
    ∃ t', TypeExpr.parse t.render = .ok t' ∧ t'.unplaced = t.unplaced := by
  obtain ⟨tokens, o, hlexes, hderives⟩ := Parser.derives_of_parse_eq_ok (s := .type) h
  have hwritable := SourceNode.writable_of_derives hlexes hderives List.mem_cons_self hplain
  have hprints : t.Prints := DerivesType.printed hderives (List.forall_mem_singleton.mpr hwritable)
  obtain ⟨tokens', o', hlexes', t', ht', heq⟩ := hprints.lexes 0 [] separated_nil
  rw [List.append_nil] at hlexes'
  exact ⟨t', Parser.parse_eq_ok_of_derives (s := .type) hlexes' (.union (.inter (.primary ht'))), heq⟩

def nestedParam (n : Binary64) : TypeExpr :=
  .union ⟨11, 27⟩
    [.literal ⟨11, 14⟩ (.string "a"), .union ⟨18, 26⟩ [.literal ⟨18, 19⟩ (.number n), .prim ⟨22, 26⟩ .null]]

def nested (n : Binary64) : TypeExpr :=
  .object ⟨0, 41⟩ [
    .typed ⟨"f", ⟨1, 2⟩⟩ (.function ⟨4, 37⟩ [.bare ⟨"x", ⟨5, 6⟩⟩, .typed ⟨"y", ⟨8, 9⟩⟩ (nestedParam n)]
      (.never ⟨32, 37⟩)),
    .bare ⟨"g", ⟨39, 40⟩⟩]

theorem parse_render_of_parse_nested :
    TypeExpr.parse "\x7bf: (x, y: \"a\" | (0 | null)) => never; g\x7d" = .ok (nested (.finite false .zero)) ∧
      (SourceNode.type (nested (.finite false .zero))).Throughout SourceNode.IsPlain ∧
        ∃ t, TypeExpr.parse "\x7b f: ((x, y: (\"a\" | (0 | null))) => never); g \x7d" = .ok t ∧
          t.unplaced = (nested (.finite false .zero)).unplaced := by
  have hzero : Binary64.ofDecimal false (.ofDigits ['0'] []) = .finite false .zero := by decide +kernel
  have hparse : TypeExpr.parse "\x7bf: (x, y: \"a\" | (0 | null)) => never; g\x7d" =
      .ok (nested (.finite false .zero)) := by
    rw [← hzero]
    with_unfolding_all rfl
  have hleaf {node : SourceNode} (hchildren : node.children = []) (h : node.IsPlain) :
      node.Throughout SourceNode.IsPlain :=
    SourceNode.throughout_iff.mpr ⟨h, by simp [hchildren]⟩
  have hname (name : Name) : (SourceNode.name name).Throughout SourceNode.IsPlain := hleaf rfl trivial
  have hstring : Literal.Plain (.string "a") := by
    intro c hc
    rw [List.mem_singleton.mp hc]
    decide
  have hparam : (SourceNode.type (nestedParam (.finite false .zero))).Throughout SourceNode.IsPlain := by
    refine SourceNode.throughout_iff.mpr ⟨trivial, List.forall_mem_cons.mpr ⟨hleaf rfl hstring, ?_⟩⟩
    refine List.forall_mem_singleton.mpr (SourceNode.throughout_iff.mpr ⟨trivial, List.forall_mem_cons.mpr ⟨?_, ?_⟩⟩)
    · exact hleaf rfl ⟨false, .zero, rfl⟩
    · exact List.forall_mem_singleton.mpr (hleaf rfl trivial)
  have hplain : (SourceNode.type (nested (.finite false .zero))).Throughout SourceNode.IsPlain := by
    refine SourceNode.throughout_iff.mpr ⟨trivial, List.forall_mem_cons.mpr ⟨hname _, ?_⟩⟩
    refine List.forall_mem_cons.mpr ⟨?_, List.forall_mem_singleton.mpr (hname _)⟩
    refine SourceNode.throughout_iff.mpr ⟨trivial, ?_⟩
    refine List.forall_mem_cons.mpr ⟨hname _, List.forall_mem_cons.mpr ⟨hname _, ?_⟩⟩
    exact List.forall_mem_cons.mpr ⟨hparam, List.forall_mem_singleton.mpr (hleaf rfl trivial)⟩
  have htext : (nested (.finite false .zero)).render =
      "\x7b f: ((x, y: (\"a\" | (0 | null))) => never); g \x7d" := by decide +kernel
  exact ⟨hparse, hplain, htext ▸ parse_render_of_parse hparse hplain⟩

end TypeExpr

end Structura
