import Structura.Proofs.Lexing
import Structura.Proofs.RelativePlaces

namespace Structura.Lexer

variable {o o' n : Nat} {cs cs' : List Char} {t : Token} {u v w : List Token}

/-- What has been read is read in the same way when nothing follows. -/
theorem Lexes.truncate (h : Lexes o cs w o' cs') :
    ∃ text, cs = text ++ cs' ∧ o' = o + bytes text ∧ Lexes o text w o' [] := by
  induction h with
  | stop o cs => exact ⟨[], rfl, rfl, .stop o []⟩
  | @skip o o' part rest rest' _ hlongest _ ih =>
      obtain ⟨text, rfl, rfl, hlexes⟩ := ih
      refine ⟨part ++ text, (List.append_assoc ..).symm, ?_, .skip hlongest.truncate hlexes⟩
      rw [bytes_append, Nat.add_assoc]
  | @token o o' kind part rest rest' _ hlongest _ ih =>
      obtain ⟨text, rfl, rfl, hlexes⟩ := ih
      refine ⟨part ++ text, (List.append_assoc ..).symm, ?_, .token hlongest.truncate hlexes⟩
      rw [bytes_append, Nat.add_assoc]

theorem Lexes.relative (h : Lexes o cs w o' cs') (hn : n ≤ o) :
    Lexes (o - n) cs (w.map (Token.relative n)) (o' - n) cs' := by
  induction h with
  | stop o cs => exact .stop _ _
  | skip hlongest _ ih =>
      apply Lexes.skip hlongest
      rw [← Nat.sub_add_comm hn]
      exact ih (Nat.le_add_right_of_le hn)
  | @token o _ _ text _ _ _ hlongest _ ih =>
      have hstop : o + bytes text - n = o - n + bytes text := Nat.sub_add_comm hn
      have hrest := ih (Nat.le_add_right_of_le hn)
      rw [hstop] at hrest
      have hall := Lexes.token hlongest hrest
      rw [← hstop] at hall
      exact hall

/-- The blank text before the first token. -/
theorem Lexes.start_at_token (h : Lexes o cs (t :: w) o' cs') :
    ∃ blank rest, cs = blank ++ rest ∧ t.span.start = o + bytes blank ∧
      Lexes (o + bytes blank) rest (t :: w) o' cs' := by
  generalize htokens : t :: w = tokens at h ⊢
  induction h with
  | stop => cases htokens
  | @skip o _ text _ _ _ _ _ ih =>
      obtain ⟨blank, rest, rfl, hstart, hlexes⟩ := ih htokens
      refine ⟨text ++ blank, rest, (List.append_assoc ..).symm, ?_, ?_⟩
      · rw [hstart, bytes_append, Nat.add_assoc]
      · rwa [bytes_append, ← Nat.add_assoc]
  | token hlongest hrest _ =>
      obtain ⟨rfl, rfl⟩ := List.cons.inj htokens
      exact ⟨[], _, rfl, rfl, .token hlongest hrest⟩

/-- Reading may stop at the end of the last token. -/
theorem Lexes.stop_at_token (h : Lexes o cs w o' cs') (hw : w ≠ []) :
    ∃ rest, Lexes o cs w (Span.ofTokens w).stop rest := by
  induction h with
  | stop => exact absurd rfl hw
  | skip hlongest _ ih =>
      obtain ⟨rest, hlexes⟩ := ih hw
      exact ⟨rest, .skip hlongest hlexes⟩
  | @token o _ kind text rest _ tokens hlongest _ ih =>
      by_cases htokens : tokens = []
      · subst htokens
        exact ⟨rest, .token hlongest (.stop _ _)⟩
      · obtain ⟨rest', hlexes⟩ := ih htokens
        rw [Span.stop_ofTokens_cons htokens]
        exact ⟨rest', .token hlongest hlexes⟩

/-- The text between two tokens of a text is read as the tokens between them. -/
theorem Lexes.slice (h : Lexes 0 cs (u ++ (w ++ v)) o' cs') (hw : w ≠ []) :
    ∃ before text after, cs = before ++ (text ++ after) ∧ bytes before = (Span.ofTokens w).start ∧
      bytes before + bytes text = (Span.ofTokens w).stop ∧
      Lexes 0 text (w.map (Token.relative (Span.ofTokens w).start)) (bytes text) [] := by
  obtain ⟨t, w', rfl⟩ := List.exists_cons_of_ne_nil hw
  obtain ⟨o₁, cs₁, hu, hrest⟩ := h.split_append
  obtain ⟨o₂, cs₂, hmiddle, -⟩ := hrest.split_append
  obtain ⟨first, rfl, rfl, -⟩ := hu.truncate
  obtain ⟨blank, cs₃, rfl, hstart, hlexes⟩ := hmiddle.start_at_token
  obtain ⟨after, htight⟩ := hlexes.stop_at_token hw
  obtain ⟨text, rfl, hstop, htext⟩ := htight.truncate
  have hbefore : bytes (first ++ blank) = (Span.ofTokens (t :: w')).start := by
    change _ = t.span.start
    rw [hstart, bytes_append, Nat.zero_add]
  refine ⟨first ++ blank, text, after, by rw [List.append_assoc], hbefore, ?_, ?_⟩
  · rw [hstop, bytes_append, Nat.zero_add]
  · have hrelative := htext.relative (n := (Span.ofTokens (t :: w')).start) (Nat.le_of_eq hstart)
    have hzero : 0 + bytes first + bytes blank - (Span.ofTokens (t :: w')).start = 0 := by
      rw [← hbefore, bytes_append]
      omega
    have hbytes : (Span.ofTokens (t :: w')).stop - (Span.ofTokens (t :: w')).start = bytes text := by
      rw [hstop, ← hbefore, bytes_append]
      omega
    rw [hzero, hbytes] at hrelative
    exact hrelative

/-- The text of a token, between the text before it and the text after it. -/
theorem Lexes.text_of_token (h : Lexes o cs w o' cs') (ht : t ∈ w) :
    ∃ a b, cs = a ++ (t.text.toList ++ b) ∧ t.span.start = o + bytes a ∧
      t.span.stop = t.span.start + bytes t.text.toList := by
  induction h with
  | stop => cases ht
  | @skip o _ text _ _ _ _ _ ih =>
      obtain ⟨a, b, rfl, hstart, hstop⟩ := ih ht
      refine ⟨text ++ a, b, (List.append_assoc ..).symm, ?_, hstop⟩
      rw [hstart, bytes_append, Nat.add_assoc]
  | @token o _ _ text rest _ _ _ _ ih =>
      rcases List.mem_cons.mp ht with rfl | ht
      · refine ⟨[], rest, ?_, rfl, ?_⟩
        · rw [String.toList_ofList]
          rfl
        · rw [String.toList_ofList]
      · obtain ⟨a, b, rfl, hstart, hstop⟩ := ih ht
        refine ⟨text ++ a, b, (List.append_assoc ..).symm, ?_, hstop⟩
        rw [hstart, bytes_append, Nat.add_assoc]

theorem eq_nil_of_bytes (h : bytes cs = 0) : cs = [] := by
  by_cases hcs : cs = []
  · exact hcs
  · exact absurd h (Nat.ne_of_gt (bytes_pos hcs))

/-- Tokens are not empty and stand one after the other. -/
theorem Lexes.ordered (h : Lexes o cs w o' cs') :
    (∀ t ∈ w, o ≤ t.span.start ∧ t.span.start ≤ t.span.stop) ∧
      w.Pairwise fun a b => a.span.stop ≤ b.span.start := by
  induction h with
  | stop => exact ⟨by simp, .nil⟩
  | skip _ _ ih =>
      refine ⟨fun t ht => ⟨?_, (ih.1 t ht).2⟩, ih.2⟩
      exact Nat.le_trans (Nat.le_add_right ..) (ih.1 t ht).1
  | token _ _ ih =>
      refine ⟨fun t ht => ?_, List.pairwise_cons.mpr ⟨fun t ht => (ih.1 t ht).1, ih.2⟩⟩
      rcases List.mem_cons.mp ht with rfl | ht
      · exact ⟨Nat.le_refl _, Nat.le_add_right ..⟩
      · exact ⟨Nat.le_trans (Nat.le_add_right ..) (ih.1 t ht).1, (ih.1 t ht).2⟩

end Structura.Lexer
