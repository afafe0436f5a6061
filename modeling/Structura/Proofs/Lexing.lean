import Structura.Proofs.Lexemes

namespace Structura.Lexer

theorem bytes_foldl (cs : List Char) (n : Nat) :
    cs.foldl (fun size c => size + c.utf8Size) n = n + bytes cs := by
  induction cs generalizing n with
  | nil => rfl
  | cons c cs ih =>
      rw [bytes, List.foldl_cons, List.foldl_cons, ih, ih]
      omega

theorem bytes_append (cs ds : List Char) : bytes (cs ++ ds) = bytes cs + bytes ds := by
  rw [bytes, List.foldl_append, bytes_foldl]
  rfl

theorem bytes_cons (c : Char) (cs : List Char) : bytes (c :: cs) = c.utf8Size + bytes cs := by
  rw [bytes, List.foldl_cons, Nat.zero_add, bytes_foldl]

theorem bytes_pos {cs : List Char} (h : cs ≠ []) : 0 < bytes cs := by
  obtain ⟨c, cs, rfl⟩ := List.exists_cons_of_ne_nil h
  rw [bytes_cons]
  exact Nat.add_pos_left (Char.utf8Size_pos c) _

theorem bytes_eq_utf8ByteSize (cs : List Char) : bytes cs = (String.ofList cs).utf8ByteSize := by
  induction cs with
  | nil => rfl
  | cons c cs ih =>
      rw [bytes_cons, ih, String.ofList_cons, String.utf8ByteSize_append, String.utf8ByteSize_singleton]

variable {c : Char} {cs : List Char}

theorem split_cons {l : Lexeme} (h : lexeme? c cs = some l) (o : Nat) :
    split lexeme? o (c :: cs) =
      (split lexeme? (o + bytes (c :: cs.take l.more)) (cs.drop l.more)).cons l.terminal
        (c :: cs.take l.more) o := by
  rw [split, h]

theorem lexeme?_blank (hc : Text.isBlank c = true) : lexeme? c cs = some ⟨none, 0⟩ := by
  rw [lexeme?, if_pos hc]

/-- Blank text is dropped one character at a time. -/
theorem split_blank {run rest : List Char} (h : ∀ d ∈ run, Text.isBlank d = true) (o : Nat) :
    split lexeme? o (run ++ rest) = split lexeme? (o + bytes run) rest := by
  induction run generalizing o with
  | nil => rfl
  | cons d run ih =>
      rw [List.cons_append, split_cons (lexeme?_blank (h d List.mem_cons_self))]
      change split lexeme? (o + bytes [d]) (run ++ rest) = _
      rw [ih (fun e he => h e (List.mem_cons_of_mem d he)), Nat.add_assoc, ← bytes_append]
      rfl

def Front (c : Char) (cs : List Char) : Prop :=
  (lexeme? c cs = none ∧ Stuck (c :: cs)) ∨
    ∃ kind text rest, c :: cs = text ++ rest ∧ Longest kind text rest ∧
      ∀ o, split lexeme? o (c :: cs) = (split lexeme? (o + bytes text) rest).cons kind text o

theorem front_of_longest {l : Lexeme} (h : lexeme? c cs = some l)
    (hlongest : Longest l.terminal (c :: cs.take l.more) (cs.drop l.more)) : Front c cs := by
  refine .inr ⟨_, _, _, ?_, hlongest, split_cons h⟩
  rw [List.cons_append, List.take_append_drop]

theorem front_blank (hc : Text.isBlank c = true) : Front c cs := by
  have hblank : ∀ d ∈ c :: cs.takeWhile Text.isBlank, Text.isBlank d = true :=
    List.forall_mem_cons.mpr ⟨hc, fun d hd => List.mem_takeWhile_imp hd⟩
  have hsplit : c :: cs = c :: cs.takeWhile Text.isBlank ++ cs.dropWhile Text.isBlank := by
    rw [List.cons_append, List.takeWhile_append_dropWhile]
  refine .inr ⟨_, _, _, hsplit, longest_blank hc, fun o => ?_⟩
  rw [hsplit, split_blank hblank]
  rfl

theorem isBlank_of_isLineEnd {d : Char} (h : isLineEnd d = true) : Text.isBlank d = true := by
  rcases Bool.or_eq_true_iff.mp h with h | h
  · rw [beq_iff_eq.mp h]
    decide
  · rw [beq_iff_eq.mp h]
    decide

theorem front_string {terminal : Terminal} {q : Char} {k : Class} (hk : classOf q = k)
    (hlexeme : lexeme? q cs = string? terminal q cs)
    (hpattern : ∀ {body : List Char}, (∀ d ∈ body, d ≠ q) →
      Pattern (some terminal) (q :: (body ++ [q])))
    (hstarts : ∀ {kind : Option Terminal} {tail : List Char}, Starts q tail kind k →
      kind = some terminal ∧ ∃ body, (∀ d ∈ body, d ≠ q) ∧ tail = body ++ [q]) : Front q cs := by
  rcases string?_cases terminal q cs with ⟨hnone, hopen⟩ | ⟨more, body, hsome, hbody, htake⟩
  · refine .inl ⟨hlexeme.trans hnone, stuck_of_starts hk ?_⟩
    intro kind tail after heq hs
    obtain ⟨-, body, hbody, rfl⟩ := hstarts hs
    exact hopen body after hbody heq
  · apply front_of_longest (hlexeme.trans hsome)
    change Longest (some terminal) (q :: cs.take more) (cs.drop more)
    rw [htake]
    apply longest_of_starts hk (hpattern hbody)
    · intro other tail after hs heq
      obtain ⟨-, body', hbody', rfl⟩ := hstarts hs
      exact length_quoted hbody hbody' heq
    · intro other hs
      exact .inl (hstarts hs).1

theorem front_comment (hcs : cs.head? = some '/') : Front '/' cs := by
  have hlexeme : lexeme? '/' cs = some ⟨none, (cs.takeWhile (!isLineEnd ·)).length⟩ := by
    rw [lexeme?, if_neg (by decide), if_neg (by decide), if_neg (by decide), if_neg (by decide),
      if_neg (by decide), comment?, if_pos ⟨rfl, hcs⟩, Option.some_or]
  have hends : ∀ d ∈ (cs.dropWhile (!isLineEnd ·)).takeWhile isLineEnd, Text.isBlank d = true :=
    fun d hd => isBlank_of_isLineEnd (List.mem_takeWhile_imp hd)
  refine .inr ⟨_, _, _, ?_, longest_comment hcs, fun o => ?_⟩
  · rw [List.cons_append, List.append_assoc, List.takeWhile_append_dropWhile,
      List.takeWhile_append_dropWhile]
  · rw [split_cons hlexeme]
    change split lexeme? (o + bytes ('/' :: cs.take _)) (cs.drop _) = split lexeme? _ _
    rw [take_takeWhile, drop_takeWhile]
    generalize cs.takeWhile (!isLineEnd ·) = body
    generalize cs.dropWhile (!isLineEnd ·) = after at hends ⊢
    calc split lexeme? (o + bytes ('/' :: body)) after
        = split lexeme? (o + bytes ('/' :: body)) (after.takeWhile isLineEnd ++ after.dropWhile isLineEnd) :=
          by rw [List.takeWhile_append_dropWhile]
      _ = split lexeme? (o + bytes ('/' :: body) + bytes (after.takeWhile isLineEnd))
            (after.dropWhile isLineEnd) := split_blank hends _
      _ = _ := by rw [Nat.add_assoc, ← bytes_append, List.cons_append]

/-- The first characters that only signs may have, or comments. -/
theorem lexeme?_other (hclass : classOf c = .slash ∨ classOf c = .sign) :
    lexeme? c cs = (comment? c cs).or (sign? (c :: cs)) := by
  have hblank : ¬Text.isBlank c = true := by
    intro h
    rw [classOf_blank h] at hclass
    simp at hclass
  have hname : ¬isNameStart c = true := by
    intro h
    rw [classOf_name h] at hclass
    simp at hclass
  have hdigit : ¬c.isDigit = true := by
    intro h
    rw [classOf_digit h] at hclass
    simp at hclass
  have hdouble : c ≠ '"' := by
    rintro rfl
    revert hclass
    decide
  have hsingle : c ≠ '\x27' := by
    rintro rfl
    revert hclass
    decide
  rw [lexeme?, if_neg hblank, if_neg hname, if_neg hdigit, if_neg hdouble, if_neg hsingle]

theorem front_slash (hcs : cs.head? ≠ some '/') : Front '/' cs := by
  have hnone : lexeme? '/' cs = none := by
    rw [lexeme?_other (.inl (by decide)), comment?, if_neg (fun h => hcs h.2), Option.none_or]
    cases hsign : sign? ('/' :: cs) with
    | none => rfl
    | some l => exact absurd (longest_sign hsign).1 (by decide)
  refine .inl ⟨hnone, stuck_of_starts (k := .slash) (by decide) ?_⟩
  rintro kind tail after rfl ⟨-, body, ends, -, -, rfl⟩
  exact hcs rfl

theorem front_sign (hclass : classOf c = .sign) : Front c cs := by
  have hc : c ≠ '/' := by
    rintro rfl
    revert hclass
    decide
  have hlexeme : lexeme? c cs = sign? (c :: cs) := by
    rw [lexeme?_other (.inr hclass), comment?, if_neg (fun h => hc h.1), Option.none_or]
  cases hsign : sign? (c :: cs) with
  | none =>
      refine .inl ⟨hlexeme.trans hsign, stuck_of_starts hclass ?_⟩
      rintro kind tail after rfl ⟨t, ht, -, hword⟩
      apply sign?_eq_none hsign ht hword
      rw [String.toList_ofList]
      exact ⟨after, rfl⟩
  | some l =>
      obtain ⟨-, t, hl, hlongest⟩ := longest_sign hsign
      apply front_of_longest (hlexeme.trans hsign)
      rwa [hl]

theorem front_name (hc : isNameStart c = true) : Front c cs := by
  have hblank : ¬Text.isBlank c = true := by
    intro h
    have := (classOf_name hc).symm.trans (classOf_blank h)
    cases this
  have hlexeme : lexeme? c cs =
      some ⟨some (terminalOfName (c :: cs.take (cs.takeWhile isNamePart).length)),
        (cs.takeWhile isNamePart).length⟩ := by
    rw [lexeme?, if_neg hblank, if_pos hc]
  apply front_of_longest hlexeme
  simp only [take_takeWhile, drop_takeWhile]
  exact longest_name hc

theorem front (c : Char) (cs : List Char) : Front c cs := by
  by_cases hblank : Text.isBlank c = true
  · exact front_blank hblank
  by_cases hname : isNameStart c = true
  · exact front_name hname
  by_cases hdigit : c.isDigit = true
  · have hlexeme : lexeme? c cs = some ⟨some .number, numberTail cs⟩ := by
      rw [lexeme?, if_neg hblank, if_neg hname, if_pos hdigit]
    exact front_of_longest hlexeme (longest_number hdigit)
  by_cases hdouble : c = '"'
  · subst hdouble
    refine front_string (k := .doubleQuote) (by decide) ?_ .doubleQuoted id
    rw [lexeme?, if_neg hblank, if_neg hname, if_neg hdigit, if_pos rfl]
  by_cases hsingle : c = '\x27'
  · subst hsingle
    refine front_string (k := .singleQuote) (by decide) ?_ .singleQuoted id
    rw [lexeme?, if_neg hblank, if_neg hname, if_neg hdigit, if_neg hdouble, if_pos rfl]
  by_cases hslash : c = '/'
  · subst hslash
    by_cases hcs : cs.head? = some '/'
    · exact front_comment hcs
    · exact front_slash hcs
  · apply front_sign
    rw [classOf, if_neg hblank, if_neg hname, if_neg hdigit, if_neg hdouble, if_neg hsingle,
      if_neg hslash]

theorem Longest.not_stuck {kind : Option Terminal} {text rest : List Char}
    (h : Longest kind text rest) : ¬Stuck (text ++ rest) :=
  fun hstuck => h.ne_nil (hstuck kind text rest h.pattern rfl)

theorem split_longest {kind : Option Terminal} {text rest : List Char} (h : Longest kind text rest)
    (o : Nat) :
    split lexeme? o (text ++ rest) = (split lexeme? (o + bytes text) rest).cons kind text o := by
  obtain ⟨c, cs, hcs⟩ : ∃ c cs, text ++ rest = c :: cs :=
    List.exists_cons_of_ne_nil (List.append_ne_nil_of_left_ne_nil h.ne_nil rest)
  rcases front c cs with ⟨-, hstuck⟩ | ⟨kind', text', rest', heq, hlongest, hsplit⟩
  · exact absurd (hcs ▸ hstuck) h.not_stuck
  · obtain ⟨rfl, rfl, rfl⟩ := h.unique hlongest (hcs.trans heq)
    rw [hcs]
    exact hsplit o

theorem split_stuck (h : Stuck (c :: cs)) (o : Nat) :
    split lexeme? o (c :: cs) = ⟨[], some o⟩ := by
  rcases front c cs with ⟨hnone, -⟩ | ⟨kind, text, rest, heq, hlongest, -⟩
  · rw [split, hnone]
  · rw [heq] at h
    exact absurd h hlongest.not_stuck

/-- The tokens that have been read when, of the characters `cs` at byte `o`, the characters `cs'` at
byte `o'` are left. -/
inductive Lexes : Nat → List Char → List Token → Nat → List Char → Prop
  | stop (o : Nat) (cs : List Char) : Lexes o cs [] o cs
  | skip {o o' : Nat} {text rest rest' : List Char} {tokens : List Token} :
      Longest none text rest → Lexes (o + bytes text) rest tokens o' rest' →
      Lexes o (text ++ rest) tokens o' rest'
  | token {o o' : Nat} {t : Terminal} {text rest rest' : List Char} {tokens : List Token} :
      Longest (some t) text rest → Lexes (o + bytes text) rest tokens o' rest' →
      Lexes o (text ++ rest) (⟨t, String.ofList text, ⟨o, o + bytes text⟩⟩ :: tokens) o' rest'

theorem Lexes.split_eq {o o' : Nat} {cs cs' : List Char} {tokens : List Token}
    (h : Lexes o cs tokens o' cs') :
    split lexeme? o cs = ⟨tokens ++ (split lexeme? o' cs').tokens, (split lexeme? o' cs').invalid⟩ := by
  induction h with
  | stop o cs => rfl
  | skip hlongest _ ih =>
      rw [split_longest hlongest, ih]
      rfl
  | token hlongest _ ih =>
      rw [split_longest hlongest, ih]
      rfl

/-- Reading some tokens is reading the first of them and then the others. -/
theorem Lexes.split_append {o o' : Nat} {cs cs' : List Char} {u v : List Token}
    (h : Lexes o cs (u ++ v) o' cs') :
    ∃ o₁ cs₁, Lexes o cs u o₁ cs₁ ∧ Lexes o₁ cs₁ v o' cs' := by
  generalize htokens : u ++ v = tokens at h
  induction h generalizing u with
  | stop o cs =>
      obtain ⟨rfl, rfl⟩ := List.append_eq_nil_iff.mp htokens
      exact ⟨o, cs, .stop o cs, .stop o cs⟩
  | skip hlongest _ ih =>
      obtain ⟨o₁, cs₁, hu, hv⟩ := ih htokens
      exact ⟨o₁, cs₁, .skip hlongest hu, hv⟩
  | @token o _ _ text rest _ _ hlongest hrest ih =>
      cases u with
      | nil =>
          subst htokens
          exact ⟨o, text ++ rest, .stop _ _, .token hlongest hrest⟩
      | cons t u =>
          obtain ⟨rfl, hothers⟩ := List.cons.inj htokens
          obtain ⟨o₁, cs₁, hu, hv⟩ := ih hothers
          exact ⟨o₁, cs₁, .token hlongest hu, hv⟩

/-- Every text can be read up to its end or up to a place where no pattern stands. -/
theorem exists_lexes (o : Nat) (cs : List Char) :
    ∃ tokens o' cs', Lexes o cs tokens o' cs' ∧ (cs' = [] ∨ Stuck cs') := by
  induction hn : cs.length using Nat.strong_induction_on generalizing o cs with
  | _ n ih =>
      subst hn
      cases cs with
      | nil => exact ⟨[], o, [], .stop o [], .inl rfl⟩
      | cons c cs =>
          rcases front c cs with ⟨-, hstuck⟩ | ⟨kind, text, rest, heq, hlongest, -⟩
          · exact ⟨[], o, c :: cs, .stop o _, .inr hstuck⟩
          · have hlt : rest.length < (c :: cs).length := by
              rw [heq, List.length_append]
              have := List.length_pos_iff.mpr hlongest.ne_nil
              omega
            obtain ⟨tokens, o', cs', hlexes, hend⟩ := ih rest.length hlt (o + bytes text) rest rfl
            rw [heq]
            cases kind with
            | none => exact ⟨tokens, o', cs', .skip hlongest hlexes, hend⟩
            | some t => exact ⟨_ :: tokens, o', cs', .token hlongest hlexes, hend⟩

end Structura.Lexer
