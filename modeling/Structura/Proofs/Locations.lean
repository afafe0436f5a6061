import Structura.Proofs.NodePlaces
import Structura.Proofs.ParserExact
import Structura.Proofs.SourceSlices

namespace Structura

open Grammar

def Slice (code : String) (s : Span) (text : String) : Prop :=
  ∃ before after, code = before ++ (text ++ after) ∧ before.utf8ByteSize = s.start ∧
    before.utf8ByteSize + text.utf8ByteSize = s.stop

namespace SourceNode

def ReadsFrom (text : String) : SourceNode → Prop
  | .expr e => Expr.parse text = .ok (e.relative e.span.start)
  | .type t => TypeExpr.parse text = .ok (t.relative t.span.start)
  | .name n => text = n.text
  | .statement s => Statement.parseAll text = .ok [s.relative s.span.start]

def Inside (a b : SourceNode) : Prop := b.span.start ≤ a.span.start ∧ a.span.stop ≤ b.span.stop

def Before (a b : SourceNode) : Prop := a.span.stop ≤ b.span.start

end SourceNode

theorem Span.stop_ofTokens {w : List Token} (hw : w ≠ []) : (ofTokens w).stop = (w.getLast hw).span.stop := by
  change Parser.endOffset w = _
  rw [Parser.endOffset, List.getLast?_eq_some_getLast hw]

def Token.Ordered (w : List Token) : Prop :=
  (∀ t ∈ w, t.span.start ≤ t.span.stop) ∧ w.Pairwise fun a b => a.span.stop ≤ b.span.start

namespace Token.Ordered

variable {u v w : List Token}

theorem left (h : Ordered (u ++ v)) : Ordered u :=
  ⟨fun t ht => h.1 t (List.mem_append_left v ht), (List.pairwise_append.mp h.2).1⟩

theorem right (h : Ordered (u ++ v)) : Ordered v :=
  ⟨fun t ht => h.1 t (List.mem_append_right u ht), (List.pairwise_append.mp h.2).2.1⟩

theorem stop_le_start (h : Ordered (u ++ v)) (hu : u ≠ []) (hv : v ≠ []) :
    (Span.ofTokens u).stop ≤ (Span.ofTokens v).start := by
  obtain ⟨t, v, rfl⟩ := List.exists_cons_of_ne_nil hv
  rw [Span.stop_ofTokens hu]
  exact (List.pairwise_append.mp h.2).2.2 _ (List.getLast_mem hu) t (List.mem_cons_self ..)

theorem start_le_stop (h : Ordered w) (hw : w ≠ []) :
    (Span.ofTokens w).start ≤ (Span.ofTokens w).stop := by
  induction w with
  | nil => exact absurd rfl hw
  | cons t w ih =>
      have ht : t.span.start ≤ t.span.stop := h.1 t (List.mem_cons_self ..)
      by_cases hempty : w = []
      · subst hempty
        exact ht
      · have hbefore : t.span.stop ≤ (Span.ofTokens w).start :=
          stop_le_start (u := [t]) h (List.cons_ne_nil t []) hempty
        have hrest := ih (right (u := [t]) h) hempty
        rw [Span.ofTokens_cons hempty]
        exact Nat.le_trans ht (Nat.le_trans hbefore hrest)

/-- Tokens that stand among others have their place among them. -/
theorem inside (h : Ordered (u ++ (w ++ v))) (hw : w ≠ []) :
    (Span.ofTokens (u ++ (w ++ v))).start ≤ (Span.ofTokens w).start ∧
      (Span.ofTokens w).stop ≤ (Span.ofTokens (u ++ (w ++ v))).stop := by
  have hwv : w ++ v ≠ [] := by simp [hw]
  constructor
  · rw [← Span.start_ofTokens_append hw (v := v)]
    by_cases hu : u = []
    · subst hu
      exact Nat.le_refl _
    · rw [Span.start_ofTokens_append hu]
      exact Nat.le_trans (h.left.start_le_stop hu) (h.stop_le_start hu hwv)
  · rw [Span.stop_ofTokens_append hwv]
    by_cases hv : v = []
    · subst hv
      rw [List.append_nil]
    · rw [Span.stop_ofTokens_append hv]
      exact Nat.le_trans (h.right.stop_le_start hw hv) (h.right.right.start_le_stop hv)

end Token.Ordered

theorem Lexer.Lexes.tokens_ordered {o o' : Nat} {cs cs' : List Char} {w : List Token}
    (h : Lexes o cs w o' cs') : Token.Ordered w :=
  ⟨fun t ht => (h.ordered.1 t ht).2, h.ordered.2⟩

namespace Grammar

variable {node : SourceNode} {nodes : List SourceNode} {w : List Token}

theorem Makes.span_eq (h : Makes node w) : node.span = .ofTokens w := by
  cases h with
  | expr _ hspan => exact hspan
  | type _ hspan => exact hspan
  | name => rfl
  | statement _ hspan => exact hspan

theorem Makes.ne_nil (h : Makes node w) : w ≠ [] := by
  cases h with
  | expr he => exact he.ne_nil rfl
  | type ht => exact ht.ne_nil rfl
  | name => exact List.cons_ne_nil _ _
  | statement hst => cases hst <;> simp

theorem Occupies.makes (h : Occupies node w) : Makes node w := by
  cases h with
  | mk hmakes _ => exact hmakes

theorem Laid.pairwise_before (h : Laid Occupies nodes w) (hw : Token.Ordered w) :
    nodes.Pairwise SourceNode.Before := by
  induction h with
  | nil => exact .nil
  | @cons node nodes u w v hnode hrest ih =>
      refine List.pairwise_cons.mpr ⟨fun other hother => ?_, ih hw.right.right⟩
      obtain ⟨u', w', v', rfl, hw'⟩ := hrest.exists_of_mem hother
      have hne : w' ++ v' ≠ [] := by simp [hw'.makes.ne_nil]
      have hordered : Token.Ordered (w ++ u' ++ (w' ++ v')) := by
        rw [List.append_assoc]
        exact hw.right
      have hstop := (Token.Ordered.inside (u := []) hordered.left hnode.makes.ne_nil).2
      have hbefore := hordered.stop_le_start (by simp [hnode.makes.ne_nil]) hne
      rw [Span.start_ofTokens_append hw'.makes.ne_nil] at hbefore
      unfold SourceNode.Before
      rw [hnode.makes.span_eq, hw'.makes.span_eq]
      exact Nat.le_trans hstop hbefore

theorem Occupies.children_inside (h : Occupies node w) (hw : Token.Ordered w) :
    ∀ child ∈ node.children, child.Inside node := by
  intro child hchild
  cases h with
  | mk hmakes hchildren =>
      obtain ⟨u, w', v, rfl, hw'⟩ := hchildren.exists_of_mem hchild
      unfold SourceNode.Inside
      rw [hmakes.span_eq, hw'.makes.span_eq]
      exact hw.inside hw'.makes.ne_nil

/-- The tokens of a node, counted from its first byte, are read as the node. -/
theorem Makes.readsFrom {text : List Char} (h : Makes node w)
    (hbytes : (Span.ofTokens w).start + Lexer.bytes text = (Span.ofTokens w).stop)
    (htext : Lexer.Lexes 0 text (w.map (Token.relative (Span.ofTokens w).start)) (Lexer.bytes text) []) :
    node.ReadsFrom (String.ofList text) := by
  have hcode := htext
  rw [← String.toList_ofList (l := text)] at hcode
  cases h with
  | expr he hspan =>
      rw [← hspan] at hcode
      exact Parser.parse_eq_ok_of_derives (s := .expr) hcode he.relative
  | type ht hspan =>
      rw [← hspan] at hcode
      exact Parser.parse_eq_ok_of_derives (s := .type) hcode ht.relative
  | @name t ht =>
      obtain ⟨a, b, rfl, hstart, hstop⟩ := htext.text_of_token List.mem_cons_self
      change t.span.start - t.span.start = _ at hstart
      change t.span.stop - t.span.start = t.span.start - t.span.start + Lexer.bytes t.text.toList at hstop
      change t.span.start + Lexer.bytes (a ++ (t.text.toList ++ b)) = t.span.stop at hbytes
      rw [Lexer.bytes_append, Lexer.bytes_append] at hbytes
      have ha : a = [] := Lexer.eq_nil_of_bytes (by omega)
      have hb : b = [] := Lexer.eq_nil_of_bytes (by omega)
      subst ha hb
      change String.ofList ([] ++ (t.text.toList ++ [])) = t.text
      rw [List.nil_append, List.append_nil, String.ofList_toList]
  | statement hst hspan =>
      rw [← hspan] at hcode
      exact Parser.parse_eq_ok_of_derives (s := .program) hcode hst.relative.program

/-- The text at the place of a node. -/
theorem Occupies.exists_slice {code : String} {u v : List Token} {o : Nat} (h : Occupies node w)
    (hlexes : Lexer.Lexes 0 code.toList (u ++ (w ++ v)) o []) :
    ∃ text, Slice code node.span text ∧ node.ReadsFrom text := by
  obtain ⟨before, text, after, hcode, hbefore, hstop, htext⟩ := hlexes.slice h.makes.ne_nil
  refine ⟨String.ofList text, ⟨String.ofList before, String.ofList after, ?_, ?_, ?_⟩, ?_⟩
  · rw [← String.ofList_append, ← String.ofList_append, ← hcode, String.ofList_toList]
  · rw [← Lexer.bytes_eq_utf8ByteSize, hbefore, h.makes.span_eq]
  · rw [← Lexer.bytes_eq_utf8ByteSize, ← Lexer.bytes_eq_utf8ByteSize, hstop, h.makes.span_eq]
  · rw [hbefore] at hstop
    exact h.makes.readsFrom hstop htext

end Grammar

/-- Every node has the place of its own text, lies inside its parent and stands after its left
neighbours. -/
theorem locations_exact (s : Start) (code : String) (tree : s.Tree) (h : s.parse code = .ok tree) :
    (s.nodes tree).Pairwise SourceNode.Before ∧
    ∀ root ∈ s.nodes tree, ∀ node, root.Contains node →
      (∃ text, Slice code node.span text ∧ node.ReadsFrom text) ∧
      (∀ child ∈ node.children, child.Inside node) ∧ node.children.Pairwise SourceNode.Before := by
  obtain ⟨tokens, o, hlexes, hderives⟩ := Parser.derives_of_parse_eq_ok h
  have hordered := hlexes.tokens_ordered
  refine ⟨(Start.laid hderives).pairwise_before hordered, fun root hroot node hnode => ?_⟩
  obtain ⟨u, w, v, rfl, hw⟩ := (Start.laid hderives).exists_of_mem hroot
  obtain ⟨u', w', v', rfl, hw'⟩ := hw.of_contains hnode
  have hsplit : u ++ (u' ++ (w' ++ v') ++ v) = (u ++ u') ++ (w' ++ (v' ++ v)) := by simp
  rw [hsplit] at hlexes hordered
  refine ⟨hw'.exists_slice hlexes, hw'.children_inside hordered.right.left, ?_⟩
  cases hw' with
  | mk _ hchildren => exact hchildren.pairwise_before hordered.right.left

theorem locations_exact_group :
    Expr.parse "a + (b.c)" = .ok (.binary ⟨0, 9⟩ .add (.ident ⟨0, 1⟩ "a")
      (.member ⟨5, 8⟩ (.ident ⟨5, 6⟩ "b") ⟨"c", ⟨7, 8⟩⟩)) ∧
    ∃ text, Slice "a + (b.c)" ⟨5, 8⟩ text ∧
      Expr.parse text = .ok (.member ⟨0, 3⟩ (.ident ⟨0, 1⟩ "b") ⟨"c", ⟨2, 3⟩⟩) := by
  have hparse : Expr.parse "a + (b.c)" = .ok (.binary ⟨0, 9⟩ .add (.ident ⟨0, 1⟩ "a")
      (.member ⟨5, 8⟩ (.ident ⟨5, 6⟩ "b") ⟨"c", ⟨7, 8⟩⟩)) := by
    with_unfolding_all rfl
  obtain ⟨-, hnodes⟩ := locations_exact .expr "a + (b.c)" _ hparse
  have hmember := hnodes _ (List.mem_cons_self ..) _
    (.child .self (List.mem_cons_of_mem _ (List.mem_cons_self ..)))
  exact ⟨hparse, hmember.1⟩

end Structura
