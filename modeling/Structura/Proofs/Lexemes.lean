import Mathlib.Data.List.TakeWhile
import Structura.Token.Lexer

namespace Structura.Lexer

inductive IsNumber : List Char → Prop
  | whole {ds : List Char} : ds ≠ [] → (∀ d ∈ ds, d.isDigit = true) → IsNumber ds
  | fraction {ds es : List Char} : ds ≠ [] → (∀ d ∈ ds, d.isDigit = true) → es ≠ [] →
      (∀ d ∈ es, d.isDigit = true) → IsNumber (ds ++ '.' :: es)

/-- The texts of every terminal and, with no terminal, the texts that separate tokens. -/
inductive Pattern : Option Terminal → List Char → Prop
  | spelled {t : Terminal} {word : String} : t.spelling? = some word → Pattern (some t) word.toList
  | doubleQuoted {cs : List Char} : (∀ c ∈ cs, c ≠ '"') →
      Pattern (some .doubleQuoted) ('"' :: (cs ++ ['"']))
  | singleQuoted {cs : List Char} : (∀ c ∈ cs, c ≠ '\x27') →
      Pattern (some .singleQuoted) ('\x27' :: (cs ++ ['\x27']))
  | number {cs : List Char} : IsNumber cs → Pattern (some .number) cs
  | name {c : Char} {cs : List Char} : isNameStart c = true → (∀ d ∈ cs, isNamePart d = true) →
      Pattern (some .identifier) (c :: cs)
  | blank {cs : List Char} : (∀ c ∈ cs, Text.isBlank c = true) → Pattern none cs
  | comment {cs ends : List Char} : (∀ c ∈ cs, isLineEnd c = false) → (∀ c ∈ ends, isLineEnd c = true) →
      Pattern none ('/' :: '/' :: (cs ++ ends))

def IsSpelled (kind : Option Terminal) : Prop := ∃ t, kind = some t ∧ t.spelling?.isSome = true

structure Longest (kind : Option Terminal) (text rest : List Char) : Prop where
  pattern : Pattern kind text
  ne_nil : text ≠ []
  longest : ∀ (other : Option Terminal) (text' rest' : List Char), Pattern other text' →
    text' ++ rest' = text ++ rest → text'.length ≤ text.length
  preferred : ∀ other : Option Terminal, Pattern other text →
    other = kind ∨ IsSpelled kind ∧ ¬IsSpelled other

def Stuck (cs : List Char) : Prop :=
  ∀ (kind : Option Terminal) (text rest : List Char), Pattern kind text → cs = text ++ rest → text = []

/-- A text that is taken stays so when less follows. -/
theorem Longest.truncate {kind : Option Terminal} {text rest rest' : List Char}
    (h : Longest kind text (rest ++ rest')) : Longest kind text rest := by
  refine ⟨h.pattern, h.ne_nil, fun other text' tail hp heq => ?_, h.preferred⟩
  apply h.longest other text' (tail ++ rest') hp
  rw [← List.append_assoc, heq, List.append_assoc]

theorem Longest.unique {kind kind' : Option Terminal} {text text' rest rest' : List Char}
    (h : Longest kind text rest) (h' : Longest kind' text' rest')
    (heq : text ++ rest = text' ++ rest') : kind = kind' ∧ text = text' ∧ rest = rest' := by
  have hlen : text.length = text'.length :=
    Nat.le_antisymm (h'.longest _ _ _ h.pattern heq) (h.longest _ _ _ h'.pattern heq.symm)
  obtain ⟨rfl, rfl⟩ := List.append_inj heq hlen
  refine ⟨?_, rfl, rfl⟩
  rcases h.preferred _ h'.pattern with rfl | ⟨-, hn⟩
  · rfl
  · rcases h'.preferred _ h.pattern with rfl | ⟨hs', -⟩
    · rfl
    · exact absurd hs' hn

theorem isNameStart_iff {c : Char} : isNameStart c = true ↔
    (65 ≤ c.toNat ∧ c.toNat ≤ 90) ∨ (97 ≤ c.toNat ∧ c.toNat ≤ 122) ∨ c.toNat = 95 ∨ c.toNat = 36 := by
  delta isNameStart Char.isAlpha Char.isUpper Char.isLower
  simp only [Bool.or_eq_true, Bool.and_eq_true, decide_eq_true_eq, beq_iff_eq, ge_iff_le,
    UInt32.le_iff_toNat_le, ← Char.toNat_inj, Char.toNat_val, Char.reduceVal, UInt32.reduceToNat,
    Char.reduceToNat]
  omega

theorem isDigit_iff {c : Char} : c.isDigit = true ↔ 48 ≤ c.toNat ∧ c.toNat ≤ 57 := by
  simp only [Char.isDigit, Bool.and_eq_true, decide_eq_true_eq, ge_iff_le, UInt32.le_iff_toNat_le,
    Char.toNat_val, Char.reduceVal, UInt32.reduceToNat]

theorem toNat_of_isBlank {c : Char} (h : Text.isBlank c = true) : c.toNat ≤ 32 ∨ 133 ≤ c.toNat := by
  simp only [Text.isBlank, Bool.or_eq_true, Bool.and_eq_true, decide_eq_true_eq, beq_iff_eq] at h
  omega

inductive Class where
  | blank
  | name
  | digit
  | doubleQuote
  | singleQuote
  | slash
  | sign
deriving DecidableEq

def classOf (c : Char) : Class :=
  if Text.isBlank c then .blank
  else if isNameStart c then .name
  else if c.isDigit then .digit
  else if c = '"' then .doubleQuote
  else if c = '\x27' then .singleQuote
  else if c = '/' then .slash
  else .sign

theorem classOf_blank {c : Char} (h : Text.isBlank c = true) : classOf c = .blank := by
  rw [classOf, if_pos h]

theorem classOf_name {c : Char} (h : isNameStart c = true) : classOf c = .name := by
  have hblank : ¬Text.isBlank c = true := by
    intro hb
    have := toNat_of_isBlank hb
    have := isNameStart_iff.mp h
    omega
  rw [classOf, if_neg hblank, if_pos h]

theorem classOf_digit {c : Char} (h : c.isDigit = true) : classOf c = .digit := by
  have hrange := isDigit_iff.mp h
  have hblank : ¬Text.isBlank c = true := by
    intro hb
    have := toNat_of_isBlank hb
    omega
  have hname : ¬isNameStart c = true := by
    rw [isNameStart_iff]
    omega
  rw [classOf, if_neg hblank, if_neg hname, if_pos h]

def signStarts : List Char :=
  ['!', '&', '(', ')', '+', ',', '.', ':', ';', '=', '[', ']', '\x7b', '|', '\x7d']

theorem classOf_signStart : ∀ c ∈ signStarts, classOf c = .sign := by
  have hall : signStarts.all (classOf · == .sign) = true := by decide
  intro c hc
  exact beq_iff_eq.mp (List.all_eq_true.mp hall c hc)

/-- A word is written with the characters of names, and a sign with others. -/
theorem spelling_cases {t : Terminal} {word : String} (h : t.spelling? = some word) :
    (t ∈ words ∧ ∃ c cs, word.toList = c :: cs ∧ isNameStart c = true ∧ ∀ d ∈ cs, isNamePart d = true) ∨
      (t ∈ signs ∧ ∃ c cs, word.toList = c :: cs ∧ c ∈ signStarts) := by
  cases t with
  | doubleQuoted | singleQuoted | number | identifier => cases h
  | asWord | booleanWord | declareWord | falseWord | letWord | neverWord | nullWord | numberWord
  | stringWord | trueWord | typeofWord | unknownWord =>
      cases h
      exact .inl ⟨by decide, _, _, rfl, by decide, List.all_eq_true.mp (by decide)⟩
  | _ =>
      cases h
      exact .inr ⟨by decide, _, _, rfl, by decide⟩

def Starts (c : Char) (cs : List Char) (kind : Option Terminal) : Class → Prop
  | .blank => kind = none ∧ ∀ d ∈ cs, Text.isBlank d = true
  | .name => (∀ d ∈ cs, isNamePart d = true) ∧
      (kind = some .identifier ∨ ∃ t ∈ words, kind = some t ∧ t.spelling? = some (String.ofList (c :: cs)))
  | .digit => kind = some .number ∧ IsNumber (c :: cs)
  | .doubleQuote => kind = some .doubleQuoted ∧ ∃ body, (∀ d ∈ body, d ≠ '"') ∧ cs = body ++ ['"']
  | .singleQuote =>
      kind = some .singleQuoted ∧ ∃ body, (∀ d ∈ body, d ≠ '\x27') ∧ cs = body ++ ['\x27']
  | .slash => kind = none ∧ ∃ body ends, (∀ d ∈ body, isLineEnd d = false) ∧
      (∀ d ∈ ends, isLineEnd d = true) ∧ cs = '/' :: (body ++ ends)
  | .sign => ∃ t ∈ signs, kind = some t ∧ t.spelling? = some (String.ofList (c :: cs))

theorem IsNumber.isDigit {c : Char} {cs : List Char} (h : IsNumber (c :: cs)) : c.isDigit = true := by
  generalize htext : c :: cs = text at h
  cases h with
  | whole _ hds => exact hds c (htext ▸ List.mem_cons_self)
  | @fraction ds es hne hds _ _ =>
      cases ds with
      | nil => exact absurd rfl hne
      | cons d ds =>
          obtain ⟨rfl, -⟩ := List.cons.inj htext
          exact hds c List.mem_cons_self

theorem Pattern.starts {kind : Option Terminal} {c : Char} {cs : List Char}
    (h : Pattern kind (c :: cs)) : Starts c cs kind (classOf c) := by
  generalize htext : c :: cs = text at h
  cases h with
  | @spelled t word hword =>
      have hofList : word = String.ofList (c :: cs) := by rw [htext, String.ofList_toList]
      rcases spelling_cases hword with ⟨ht, d, ds, hd, hstart, hparts⟩ | ⟨ht, d, ds, hd, hsign⟩
      · obtain ⟨rfl, rfl⟩ := List.cons.inj (htext.trans hd)
        rw [classOf_name hstart]
        exact ⟨hparts, .inr ⟨t, ht, rfl, hofList ▸ hword⟩⟩
      · obtain ⟨rfl, rfl⟩ := List.cons.inj (htext.trans hd)
        rw [classOf_signStart c hsign]
        exact ⟨t, ht, rfl, hofList ▸ hword⟩
  | @doubleQuoted body hbody =>
      obtain ⟨rfl, rfl⟩ := List.cons.inj htext
      exact ⟨rfl, body, hbody, rfl⟩
  | @singleQuoted body hbody =>
      obtain ⟨rfl, rfl⟩ := List.cons.inj htext
      exact ⟨rfl, body, hbody, rfl⟩
  | number hnumber =>
      subst htext
      rw [classOf_digit hnumber.isDigit]
      exact ⟨rfl, hnumber⟩
  | name hstart hparts =>
      obtain ⟨rfl, rfl⟩ := List.cons.inj htext
      rw [classOf_name hstart]
      exact ⟨hparts, .inl rfl⟩
  | blank hblank =>
      subst htext
      rw [classOf_blank (hblank c List.mem_cons_self)]
      exact ⟨rfl, fun d hd => hblank d (List.mem_cons_of_mem c hd)⟩
  | @comment body ends hbody hends =>
      obtain ⟨rfl, rfl⟩ := List.cons.inj htext
      exact ⟨rfl, body, ends, hbody, hends, rfl⟩

section

variable {p : Char → Bool} {c : Char} {cs : List Char}

theorem take_takeWhile : cs.take (cs.takeWhile p).length = cs.takeWhile p :=
  (List.prefix_iff_eq_take.mp (List.takeWhile_prefix p)).symm

theorem drop_takeWhile : cs.drop (cs.takeWhile p).length = cs.dropWhile p := by
  have h := @List.drop_left _ (cs.takeWhile p) (cs.dropWhile p)
  rwa [List.takeWhile_append_dropWhile] at h

theorem length_le_takeWhile {tail after : List Char} (hall : ∀ d ∈ tail, p d = true)
    (heq : tail ++ after = cs) : tail.length ≤ (cs.takeWhile p).length := by
  rw [← heq, List.takeWhile_append_of_pos hall, List.length_append]
  exact Nat.le_add_right _ _

/-- Only the patterns for the first character of a text matter. -/
theorem longest_of_starts {kind : Option Terminal} {rest : List Char} {k : Class}
    (hk : classOf c = k) (hp : Pattern kind (c :: cs))
    (hlen : ∀ (other : Option Terminal) (tail after : List Char), Starts c tail other k →
      tail ++ after = cs ++ rest → tail.length ≤ cs.length)
    (hpref : ∀ other, Starts c cs other k → other = kind ∨ IsSpelled kind ∧ ¬IsSpelled other) :
    Longest kind (c :: cs) rest := by
  subst hk
  refine ⟨hp, List.cons_ne_nil c cs, ?_, fun other ho => hpref other ho.starts⟩
  intro other text after ho heq
  cases text with
  | nil => exact Nat.zero_le _
  | cons d tail =>
      obtain ⟨rfl, htail⟩ := List.cons.inj heq
      exact Nat.succ_le_succ (hlen other tail after ho.starts htail)

theorem stuck_of_starts {k : Class} (hk : classOf c = k)
    (h : ∀ (kind : Option Terminal) (tail after : List Char), cs = tail ++ after →
      ¬Starts c tail kind k) : Stuck (c :: cs) := by
  subst hk
  intro kind text rest hp heq
  cases text with
  | nil => rfl
  | cons d tail =>
      obtain ⟨rfl, htail⟩ := List.cons.inj heq
      exact absurd hp.starts (h kind tail rest htail)

theorem longest_blank (hc : Text.isBlank c = true) :
    Longest none (c :: cs.takeWhile Text.isBlank) (cs.dropWhile Text.isBlank) := by
  have hblank : ∀ d ∈ cs.takeWhile Text.isBlank, Text.isBlank d = true :=
    fun d hd => List.mem_takeWhile_imp hd
  apply longest_of_starts (classOf_blank hc)
  · exact .blank (List.forall_mem_cons.mpr ⟨hc, hblank⟩)
  · rintro other tail after ⟨-, htail⟩ heq
    exact length_le_takeWhile htail (heq.trans List.takeWhile_append_dropWhile)
  · rintro other ⟨hother, -⟩
    exact .inl hother

theorem terminalOfName_eq {t : Terminal} (ht : t ∈ words) {name : List Char}
    (h : t.spelling? = some (String.ofList name)) : terminalOfName name = t := by
  have hunique : ∀ a ∈ words, ∀ b ∈ words, a.spelling? = b.spelling? → a = b := by decide
  rw [terminalOfName]
  cases hfind : words.find? fun t => t.spelling? == some (String.ofList name) with
  | none =>
      have := List.find?_eq_none.mp hfind t ht
      exact absurd (beq_iff_eq.mpr h) this
  | some a =>
      have ha := List.find?_some hfind
      exact hunique a (List.mem_of_find?_eq_some hfind) t ht ((beq_iff_eq.mp ha).trans h.symm)

theorem terminalOfName_cases (name : List Char) :
    terminalOfName name = .identifier ∨ (terminalOfName name).spelling? = some (String.ofList name) := by
  rw [terminalOfName]
  cases hfind : words.find? fun t => t.spelling? == some (String.ofList name) with
  | none => exact .inl rfl
  | some a =>
      have ha := List.find?_some hfind
      exact .inr (beq_iff_eq.mp ha)

theorem longest_name (hc : isNameStart c = true) :
    Longest (some (terminalOfName (c :: cs.takeWhile isNamePart))) (c :: cs.takeWhile isNamePart)
      (cs.dropWhile isNamePart) := by
  have hparts : ∀ d ∈ cs.takeWhile isNamePart, isNamePart d = true :=
    fun d hd => List.mem_takeWhile_imp hd
  apply longest_of_starts (classOf_name hc)
  · rcases terminalOfName_cases (c :: cs.takeWhile isNamePart) with h | h
    · rw [h]
      exact .name hc hparts
    · have hp := Pattern.spelled h
      rwa [String.toList_ofList] at hp
  · rintro other tail after ⟨htail, -⟩ heq
    exact length_le_takeWhile htail (heq.trans List.takeWhile_append_dropWhile)
  · rintro other ⟨-, rfl | ⟨t, ht, rfl, hword⟩⟩
    · rcases terminalOfName_cases (c :: cs.takeWhile isNamePart) with h | h
      · exact .inl (congrArg some h).symm
      · refine .inr ⟨⟨_, rfl, by rw [h]; rfl⟩, ?_⟩
        rintro ⟨t, ht, hspelled⟩
        cases ht
        cases hspelled
    · exact .inl (congrArg some (terminalOfName_eq ht hword)).symm

theorem isDigit_of_mem_takeWhile {d : Char} (h : d ∈ cs.takeWhile Char.isDigit) : d.isDigit = true :=
  List.mem_takeWhile_imp h

/-- The tail of a number ends with its digits, or with the digits after a point. -/
theorem numberTail_cases (cs : List Char) :
    (cs.take (numberTail cs) = cs.takeWhile Char.isDigit) ∨
      ∃ es, es ≠ [] ∧ (∀ e ∈ es, e.isDigit = true) ∧
        cs.take (numberTail cs) = cs.takeWhile Char.isDigit ++ '.' :: es := by
  have hsplit := List.take_append_drop (cs.takeWhile Char.isDigit).length cs
  rw [take_takeWhile] at hsplit
  unfold numberTail
  simp only
  split
  · rename_i d rest hdrop
    split
    · rename_i hd
      right
      refine ⟨d :: rest.takeWhile Char.isDigit, List.cons_ne_nil _ _, ?_, ?_⟩
      · exact List.forall_mem_cons.mpr ⟨hd, fun e he => isDigit_of_mem_takeWhile he⟩
      · rw [hdrop] at hsplit
        refine (congrArg (List.take _) hsplit.symm).trans ?_
        rw [Nat.add_assoc, List.take_length_add_append, Nat.add_comm, List.take_succ_cons,
          List.take_succ_cons, take_takeWhile]
    · exact .inl take_takeWhile
  · exact .inl take_takeWhile

theorem isNumber_numberTail (hc : c.isDigit = true) : IsNumber (c :: cs.take (numberTail cs)) := by
  have hdigits : ∀ d ∈ c :: cs.takeWhile Char.isDigit, d.isDigit = true :=
    List.forall_mem_cons.mpr ⟨hc, fun d hd => isDigit_of_mem_takeWhile hd⟩
  rcases numberTail_cases cs with h | ⟨es, hne, hes, h⟩
  · rw [h]
    exact .whole (List.cons_ne_nil _ _) hdigits
  · rw [h]
    exact .fraction (List.cons_ne_nil _ _) hdigits hne hes

theorem length_takeWhile_le_numberTail (cs : List Char) :
    (cs.takeWhile Char.isDigit).length ≤ numberTail cs := by
  unfold numberTail
  simp only
  split
  · split
    · omega
    · exact Nat.le_refl _
  · exact Nat.le_refl _

theorem length_le_numberTail {tail after : List Char} (h : IsNumber (c :: tail))
    (heq : tail ++ after = cs) : tail.length ≤ numberTail cs := by
  generalize htext : c :: tail = text at h
  cases h with
  | whole _ hds =>
      subst htext
      have htail : ∀ d ∈ tail, d.isDigit = true := fun d hd => hds d (List.mem_cons_of_mem c hd)
      exact Nat.le_trans (length_le_takeWhile htail heq) (length_takeWhile_le_numberTail cs)
  | @fraction ds es hne hds hes hdigits =>
      obtain ⟨d, ds, rfl⟩ := List.exists_cons_of_ne_nil hne
      obtain ⟨e, es, rfl⟩ := List.exists_cons_of_ne_nil hes
      rw [List.cons_append] at htext
      obtain ⟨rfl, rfl⟩ := List.cons.inj htext
      have hds' : ∀ x ∈ ds, x.isDigit = true := fun x hx => hds x (List.mem_cons_of_mem c hx)
      have hwhole : cs.takeWhile Char.isDigit = ds := by
        rw [← heq, List.append_assoc, List.takeWhile_append_of_pos hds']
        exact List.append_nil ds
      have hdrop : cs.drop ds.length = '.' :: e :: (es ++ after) := by
        rw [← heq, List.append_assoc, List.drop_left]
        rfl
      have hes' : es.length ≤ ((es ++ after).takeWhile Char.isDigit).length :=
        length_le_takeWhile (fun x hx => hdigits x (List.mem_cons_of_mem e hx)) rfl
      unfold numberTail
      simp only [hwhole, hdrop, hdigits e List.mem_cons_self, if_true, List.length_append,
        List.length_cons]
      omega

theorem longest_number (hc : c.isDigit = true) :
    Longest (some .number) (c :: cs.take (numberTail cs)) (cs.drop (numberTail cs)) := by
  apply longest_of_starts (classOf_digit hc)
  · exact .number (isNumber_numberTail hc)
  · rintro other tail after ⟨-, hnumber⟩ heq
    rw [List.take_append_drop] at heq
    have hlen : tail.length ≤ cs.length := heq ▸ by simp
    rw [List.length_take]
    exact Nat.le_min.mpr ⟨length_le_numberTail hnumber heq, hlen⟩
  · rintro other ⟨rfl, -⟩
    exact .inl rfl

variable {q : Char}

theorem takeWhile_quoted {body after : List Char} (hbody : ∀ d ∈ body, d ≠ q) :
    (body ++ q :: after).takeWhile (· != q) = body := by
  rw [List.takeWhile_append_of_pos fun d hd => bne_iff_ne.mpr (hbody d hd), List.takeWhile_cons,
    bne_self_eq_false]
  exact List.append_nil body

theorem take_quoted (h : (cs.takeWhile (· != q)).length < cs.length) :
    cs.take ((cs.takeWhile (· != q)).length + 1) = cs.takeWhile (· != q) ++ [q] := by
  have hsplit : cs.takeWhile (· != q) ++ cs.dropWhile (· != q) = cs := List.takeWhile_append_dropWhile
  have hhead := List.head?_dropWhile_not (· != q) cs
  cases hdrop : cs.dropWhile (· != q) with
  | nil =>
      rw [hdrop, List.append_nil] at hsplit
      exact absurd (congrArg List.length hsplit) (Nat.ne_of_lt h)
  | cons d rest =>
      rw [hdrop] at hsplit hhead
      obtain rfl : d = q := by simpa using hhead
      refine (congrArg (List.take _) hsplit.symm).trans ?_
      rw [List.take_length_add_append]
      rfl

theorem string?_cases (terminal : Terminal) (q : Char) (cs : List Char) :
    (string? terminal q cs = none ∧
        ∀ body after, (∀ d ∈ body, d ≠ q) → cs ≠ body ++ [q] ++ after) ∨
      ∃ more body, string? terminal q cs = some ⟨some terminal, more⟩ ∧ (∀ d ∈ body, d ≠ q) ∧
        cs.take more = body ++ [q] := by
  unfold string?
  simp only
  split
  · rename_i h
    refine .inr ⟨_, cs.takeWhile (· != q), rfl, ?_, take_quoted h⟩
    intro d hd
    exact bne_iff_ne.mp (List.mem_takeWhile_imp (p := (· != q)) hd)
  · rename_i h
    refine .inl ⟨rfl, ?_⟩
    rintro body after hbody rfl
    rw [List.append_assoc, List.singleton_append, takeWhile_quoted hbody, List.length_append] at h
    exact h (Nat.lt_add_of_pos_right (Nat.succ_pos _))

/-- Two quoted texts at the same place are the same text. -/
theorem length_quoted {body body' after after' : List Char} (hbody : ∀ d ∈ body, d ≠ q)
    (hbody' : ∀ d ∈ body', d ≠ q) (heq : body' ++ [q] ++ after' = body ++ [q] ++ after) :
    (body' ++ [q]).length ≤ (body ++ [q]).length := by
  have h := congrArg (List.takeWhile (· != q)) heq
  rw [List.append_assoc, List.append_assoc, List.singleton_append, List.singleton_append,
    takeWhile_quoted hbody, takeWhile_quoted hbody'] at h
  rw [h]

theorem longest_comment (hcs : cs.head? = some '/') :
    Longest none
      ('/' :: (cs.takeWhile (!isLineEnd ·) ++ (cs.dropWhile (!isLineEnd ·)).takeWhile isLineEnd))
      ((cs.dropWhile (!isLineEnd ·)).dropWhile isLineEnd) := by
  obtain ⟨cs, rfl⟩ : ∃ tail, cs = '/' :: tail := by
    cases cs with
    | nil => cases hcs
    | cons d tail => exact ⟨tail, by rw [Option.some.inj hcs]⟩
  have hslash : (!isLineEnd '/') = true := by decide
  apply longest_of_starts (k := .slash) (by decide)
  · rw [List.takeWhile_cons_of_pos (p := (!isLineEnd ·)) hslash]
    refine .comment (fun d hd => ?_) (fun d hd => List.mem_takeWhile_imp hd)
    exact Bool.not_eq_true' _ ▸ List.mem_takeWhile_imp (p := (!isLineEnd ·)) hd
  · rintro other tail after ⟨-, body, ends, hbody, hends, rfl⟩ heq
    rw [List.append_assoc, List.takeWhile_append_dropWhile, List.takeWhile_append_dropWhile] at heq
    have hbody' : ∀ d ∈ '/' :: body, (!isLineEnd d) = true := by
      intro d hd
      rcases List.mem_cons.mp hd with rfl | hd
      · exact hslash
      · rw [hbody d hd, Bool.not_false]
    rw [← heq, List.length_append]
    cases ends with
    | nil =>
        rw [List.append_nil]
        exact Nat.le_trans (length_le_takeWhile hbody' rfl) (Nat.le_add_right _ _)
    | cons e ends =>
        -- The comment stops at its first line end, so both have the same body.
        have he : ¬(!isLineEnd e) = true := by
          rw [hends e List.mem_cons_self]
          decide
        have hlist : '/' :: (body ++ e :: ends) ++ after = '/' :: body ++ e :: (ends ++ after) := by
          simp
        have htake : ('/' :: body ++ e :: (ends ++ after)).takeWhile (!isLineEnd ·) = '/' :: body := by
          rw [List.takeWhile_append_of_pos hbody', List.takeWhile_cons_of_neg (p := (!isLineEnd ·)) he,
            List.append_nil]
        have hdrop : ('/' :: body ++ e :: (ends ++ after)).dropWhile (!isLineEnd ·) =
            e :: ends ++ after := by
          rw [List.dropWhile_append_of_pos hbody', List.dropWhile_cons_of_neg (p := (!isLineEnd ·)) he]
          rfl
        rw [hlist, htake, hdrop, List.takeWhile_append_of_pos hends]
        simp only [List.length_cons, List.length_append]
        omega
  · rintro other ⟨rfl, -⟩
    exact .inl rfl

/-- A sign stands in front of its own beginnings. -/
theorem signs_pairwise : signs.Pairwise fun a b =>
    ¬(a.spelling?.getD "").toList <+: (b.spelling?.getD "").toList := by decide

theorem spelling?_injective : ∀ a ∈ signs, ∀ b ∈ signs, a.spelling? = b.spelling? → a = b := by decide

theorem sign?_eq_none (h : sign? cs = none) {t : Terminal} (ht : t ∈ signs) {word : String}
    (hword : t.spelling? = some word) : ¬word.toList <+: cs := by
  have hnone := List.findSome?_eq_none_iff.mp h t ht
  rw [hword, Option.bind_some] at hnone
  intro hprefix
  rw [if_pos (List.isPrefixOf_iff_prefix.mpr hprefix)] at hnone
  cases hnone

theorem sign?_eq_some {l : Lexeme} (h : sign? cs = some l) :
    ∃ t ∈ signs, ∃ word, t.spelling? = some word ∧ word.toList <+: cs ∧ l = ⟨some t, word.length - 1⟩ ∧
      ∀ t' ∈ signs, ∀ word', t'.spelling? = some word' → word'.toList <+: cs →
        word'.toList.length ≤ word.toList.length := by
  obtain ⟨before, t, after, hsigns, hfound, hbefore⟩ := List.findSome?_eq_some_iff.mp h
  have ht : t ∈ signs := by rw [hsigns]; simp
  obtain ⟨word, hword, hl⟩ := Option.bind_eq_some_iff.mp hfound
  have hprefix : word.toList <+: cs := by
    by_contra hnot
    rw [if_neg (mt List.isPrefixOf_iff_prefix.mp hnot)] at hl
    cases hl
  rw [if_pos (List.isPrefixOf_iff_prefix.mpr hprefix)] at hl
  refine ⟨t, ht, word, hword, hprefix, (Option.some.inj hl).symm, ?_⟩
  intro t' ht' word' hword' hprefix'
  rw [hsigns] at ht'
  rcases List.mem_append.mp ht' with hearlier | hlater
  · have hnone := hbefore t' hearlier
    rw [hword', Option.bind_some, if_pos (List.isPrefixOf_iff_prefix.mpr hprefix')] at hnone
    cases hnone
  · rcases List.mem_cons.mp hlater with rfl | hlater
    · rw [Option.some.inj (hword'.symm.trans hword)]
    · have hpair := signs_pairwise
      rw [hsigns] at hpair
      have hnot := List.rel_of_pairwise_cons (List.pairwise_append.mp hpair).2.1 hlater
      rw [hword, hword'] at hnot
      by_contra hlen
      exact hnot (List.prefix_of_prefix_length_le hprefix hprefix' (Nat.le_of_lt (Nat.lt_of_not_le hlen)))

theorem longest_sign {l : Lexeme} (h : sign? (c :: cs) = some l) :
    classOf c = .sign ∧ ∃ t, l.terminal = some t ∧
      Longest (some t) (c :: cs.take l.more) (cs.drop l.more) := by
  obtain ⟨t, ht, word, hword, hprefix, rfl, hmax⟩ := sign?_eq_some h
  obtain ⟨d, ds, hd, hsign⟩ : ∃ d ds, word.toList = d :: ds ∧ d ∈ signStarts := by
    rcases spelling_cases hword with ⟨hw, -⟩ | ⟨-, hsign⟩
    · have hapart : ∀ t ∈ words, t ∉ signs := by decide
      exact absurd ht (hapart t hw)
    · exact hsign
  rw [hd] at hprefix hmax
  obtain ⟨rfl, hds⟩ := List.cons_prefix_cons.mp hprefix
  have hclass := classOf_signStart d hsign
  have hmore : word.length - 1 = ds.length := by
    rw [← String.length_toList, hd]
    rfl
  have hofList : word = String.ofList (d :: ds) := by rw [← hd, String.ofList_toList]
  obtain ⟨rest, rfl⟩ := hds
  refine ⟨hclass, t, rfl, ?_⟩
  simp only [hmore]
  rw [List.take_left, List.drop_left]
  apply longest_of_starts hclass
  · have hp := Pattern.spelled hword
    rwa [hd] at hp
  · rintro other tail after ⟨t', ht', rfl, hword'⟩ heq
    have hle := hmax t' ht' _ hword'
    rw [String.toList_ofList] at hle
    exact Nat.le_of_succ_le_succ (hle (List.cons_prefix_cons.mpr ⟨rfl, after, heq⟩))
  · rintro other ⟨t', ht', rfl, hword'⟩
    have hsame : t' = t := spelling?_injective t' ht' t ht (by rw [hword', hword, hofList])
    exact .inl (congrArg some hsame)

end

end Structura.Lexer
