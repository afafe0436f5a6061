import Mathlib.Data.List.Forall2
import Structura.Proofs.Grammar
import Structura.Proofs.Lexing

namespace Structura.Lexer

variable {c : Char} {cs rest : List Char} {t : Terminal}

/-- The characters with which a token goes on, by the kind of its first character. A string ends with its
own quote. -/
def goesOn : Class → Char → Bool
  | .name, c => isNamePart c
  | .digit, c => c.isDigit || c == '.'
  | .sign, c => ['.', '=', '&', '>', '|'].contains c
  | _, _ => false

/-- What follows cannot belong to a token of this kind. A point in front of a name belongs to neither a
number nor another sign. -/
inductive Stops (k : Class) : List Char → Prop
  | nil : Stops k []
  | other {c : Char} {cs : List Char} : goesOn k c = false → Stops k (c :: cs)
  | point {c : Char} {cs : List Char} : isNameStart c = true → Stops k ('.' :: c :: cs)

def Separated (cs : List Char) : Prop := ∀ k, Stops k cs

def separates (c : Char) : Bool := !(isNamePart c || ['.', '=', '&', '>', '|'].contains c)

theorem separated_nil : Separated [] := fun _ => .nil

theorem isNamePart_of_isDigit (h : c.isDigit = true) : isNamePart c = true := by
  rw [isNamePart, Char.isAlphanum, h, Bool.or_true, Bool.true_or, Bool.true_or]

theorem goesOn_of_separates (h : separates c = true) (k : Class) : goesOn k c = false := by
  obtain ⟨hname, hsign⟩ : isNamePart c = false ∧ ['.', '=', '&', '>', '|'].contains c = false := by
    rwa [separates, Bool.not_eq_true', Bool.or_eq_false_iff] at h
  cases k with
  | name => exact hname
  | sign => exact hsign
  | digit =>
      rw [goesOn, Bool.or_eq_false_iff]
      constructor
      · rw [← Bool.not_eq_true]
        intro hdigit
        rw [isNamePart_of_isDigit hdigit] at hname
        cases hname
      · rw [beq_eq_false_iff_ne]
        rintro rfl
        cases hsign
  | blank | doubleQuote | singleQuote | slash => rfl

theorem separated_cons (h : separates c = true) : Separated (c :: cs) :=
  fun k => .other (goesOn_of_separates h k)

theorem separated_point (h : isNameStart c = true) : Separated ('.' :: c :: cs) := fun _ => .point h

theorem IsNumber.all_goesOn {text : List Char} (h : IsNumber text) : ∀ d ∈ text, goesOn .digit d = true := by
  intro d hd
  cases h with
  | whole _ hdigits => exact Bool.or_eq_true_iff.mpr (.inl (hdigits d hd))
  | fraction _ hdigits _ hdigits' =>
      rcases List.mem_append.mp hd with hd | hd
      · exact Bool.or_eq_true_iff.mpr (.inl (hdigits d hd))
      · rcases List.mem_cons.mp hd with rfl | hd
        · rfl
        · exact Bool.or_eq_true_iff.mpr (.inl (hdigits' d hd))

/-- A number ends with a digit. -/
theorem IsNumber.not_point {text : List Char} (h : IsNumber (text ++ ['.'])) : False := by
  generalize htext : text ++ ['.'] = all at h
  cases h with
  | whole _ hdigits => exact absurd (hdigits '.' (by simp [← htext])) (by decide)
  | @fraction ds es _ _ hne hdigits =>
      obtain ⟨front, last, rfl⟩ := (List.eq_nil_or_concat es).resolve_left hne
      rw [List.concat_eq_append, ← List.cons_append, ← List.append_assoc] at htext
      obtain ⟨-, hlast⟩ := List.append_inj' htext rfl
      cases hlast
      exact absurd (hdigits '.' (by simp)) (by decide)

theorem goesOn_of_sign : ∀ t ∈ signs, ∀ d ∈ (t.spelling?.getD "").toList.tail, goesOn .sign d = true := by
  have hall : ∀ t ∈ signs, (t.spelling?.getD "").toList.tail.all (goesOn .sign ·) = true := by decide
  intro t ht d hd
  exact List.all_eq_true.mp (hall t ht) d hd

theorem sign_not_point : ∀ t ∈ signs, ∀ u ∈ signs,
    (u.spelling?.getD "").toList ≠ (t.spelling?.getD "").toList ++ ['.'] := by
  decide

theorem Starts.all_goesOn {kind : Option Terminal} {k : Class} (h : Starts c cs kind k)
    (hk : k = .name ∨ k = .digit ∨ k = .sign) : ∀ d ∈ cs, goesOn k d = true := by
  intro d hd
  rcases hk with rfl | rfl | rfl
  · exact h.1 d hd
  · exact h.2.all_goesOn d (List.mem_cons_of_mem c hd)
  · obtain ⟨t, ht, -, hword⟩ := h
    have hsign := goesOn_of_sign t ht
    rw [hword] at hsign
    simp only [Option.getD_some, String.toList_ofList, List.tail_cons] at hsign
    exact hsign d hd

/-- No token is another one with a point after it. -/
theorem Starts.not_point {kind other : Option Terminal} {k : Class} (h : Starts c cs kind k)
    (hother : Starts c (cs ++ ['.']) other k) (hk : k = .name ∨ k = .digit ∨ k = .sign) : False := by
  rcases hk with rfl | rfl | rfl
  · exact absurd (hother.1 '.' (by simp)) (by decide)
  · have hnumber : IsNumber ((c :: cs) ++ ['.']) := hother.2
    exact hnumber.not_point
  · obtain ⟨t, ht, -, hword⟩ := h
    obtain ⟨u, hu, -, hword'⟩ := hother
    apply sign_not_point t ht u hu
    simp [hword, hword']

theorem classOf_of_goesOn_sign (h : goesOn .sign c = true) : classOf c = .sign := by
  have hall : ['.', '=', '&', '>', '|'].all (fun c => decide (classOf c = .sign)) = true := by decide
  exact of_decide_eq_true (List.all_eq_true.mp hall c (List.contains_iff_mem.mp h))

theorem goesOn_of_isNameStart {k : Class} (h : isNameStart c = true) (hk : k = .digit ∨ k = .sign) :
    goesOn k c = false := by
  have hclass := classOf_name h
  rw [← Bool.not_eq_true]
  intro hgoesOn
  rcases hk with rfl | rfl
  · rcases Bool.or_eq_true_iff.mp hgoesOn with hdigit | hpoint
    · rw [classOf_digit hdigit] at hclass
      cases hclass
    · rw [beq_iff_eq.mp hpoint] at h
      cases h
  · rw [classOf_of_goesOn_sign hgoesOn] at hclass
    cases hclass

/-- No token goes on past a place where its kind stops. -/
theorem Stops.not_goesOn {kind other : Option Terminal} {k : Class} {d : Char} {more after : List Char}
    (hrest : Stops k rest) (h : Starts c cs kind k) (hother : Starts c (cs ++ d :: more) other k)
    (hk : k = .name ∨ k = .digit ∨ k = .sign) (heq : rest = d :: more ++ after)
    (hmore : ∀ e ∈ d :: more, goesOn k e = true) : False := by
  have hd := hmore d List.mem_cons_self
  cases hrest with
  | nil => cases heq
  | other hstop =>
      obtain ⟨rfl, -⟩ := List.cons.inj heq
      rw [hstop] at hd
      cases hd
  | @point e _ hname =>
      obtain ⟨rfl, htail⟩ := List.cons.inj heq
      rcases more with _ | ⟨e', more⟩
      · exact h.not_point hother hk
      · obtain ⟨rfl, -⟩ := List.cons.inj htail
        have he := hmore e (List.mem_cons_of_mem _ List.mem_cons_self)
        rcases hk with rfl | hk
        · exact absurd hd (by decide)
        · rw [goesOn_of_isNameStart hname hk] at he
          cases he

/-- No pattern with the same first character goes past the place where a token stops. -/
theorem Starts.length_le {k : Class} {other : Option Terminal} {tail after : List Char}
    (h : Starts c cs (some t) k) (hother : Starts c tail other k) (hrest : Stops k rest)
    (heq : tail ++ after = cs ++ rest) : tail.length ≤ cs.length := by
  have hends (hk : k = .name ∨ k = .digit ∨ k = .sign) : tail.length ≤ cs.length := by
    rcases List.append_eq_append_iff.mp heq with ⟨more, rfl, -⟩ | ⟨more, rfl, hmore⟩
    · rw [List.length_append]
      exact Nat.le_add_right _ _
    · have hmore' : ∀ d ∈ more, goesOn k d = true :=
        fun d hd => hother.all_goesOn hk d (List.mem_append_right cs hd)
      rcases more with _ | ⟨d, more⟩
      · simp
      · exact (hrest.not_goesOn h hother hk hmore hmore').elim
  cases k with
  | blank | slash => cases h.1
  | name => exact hends (.inl rfl)
  | digit => exact hends (.inr (.inl rfl))
  | sign => exact hends (.inr (.inr rfl))
  | doubleQuote | singleQuote =>
      obtain ⟨-, body, hbody, rfl⟩ := h
      obtain ⟨-, body', hbody', rfl⟩ := hother
      exact length_quoted hbody hbody' heq

/-- No other pattern with the same text is preferred, unless the text of a name is a word. -/
theorem Starts.preferred {k : Class} {other : Option Terminal} (h : Starts c cs (some t) k)
    (hname : t = .identifier → ∀ u : Terminal, u.spelling? ≠ some (String.ofList (c :: cs)))
    (hother : Starts c cs other k) : other = some t ∨ IsSpelled (some t) ∧ ¬IsSpelled other := by
  cases k with
  | blank | slash => cases h.1
  | digit | doubleQuote | singleQuote => exact .inl (hother.1.trans h.1.symm)
  | sign =>
      obtain ⟨u, hu, rfl, hword⟩ := hother
      obtain ⟨v, hv, ht, hword'⟩ := h
      rw [ht, spelling?_injective u hu v hv (hword.trans hword'.symm)]
      exact .inl rfl
  | name =>
      rcases hother.2 with rfl | ⟨u, hu, rfl, hword⟩
      · rcases h.2 with ht | ⟨v, -, ht, hword⟩
        · exact .inl ht.symm
        · refine .inr ⟨⟨v, ht, by rw [hword]; rfl⟩, ?_⟩
          rintro ⟨_, hidentifier, hspelled⟩
          cases hidentifier
          cases hspelled
      · rcases h.2 with ht | ⟨v, hv, ht, hword'⟩
        · exact absurd hword (hname (Option.some.inj ht) u)
        · rw [ht, ← terminalOfName_eq hu hword, ← terminalOfName_eq hv hword']
          exact .inl rfl

theorem Pattern.exists_cons {text : List Char} (h : Pattern (some t) text) :
    ∃ c cs, text = c :: cs ∧ Text.isBlank c = false := by
  have hne : text ≠ [] := by
    cases h with
    | spelled hword =>
        rcases spelling_cases hword with ⟨-, c, cs, hcs, -⟩ | ⟨-, c, cs, hcs, -⟩
        · exact hcs ▸ List.cons_ne_nil c cs
        · exact hcs ▸ List.cons_ne_nil c cs
    | number hnumber =>
        cases hnumber with
        | whole hne _ => exact hne
        | fraction hne _ _ _ => exact List.append_ne_nil_of_left_ne_nil hne _
    | doubleQuoted _ | singleQuoted _ | name _ _ => exact List.cons_ne_nil _ _
  obtain ⟨c, cs, rfl⟩ := List.exists_cons_of_ne_nil hne
  refine ⟨c, cs, rfl, ?_⟩
  rw [← Bool.not_eq_true]
  intro hblank
  have hstarts := h.starts
  rw [classOf_blank hblank] at hstarts
  cases hstarts.1

def IsName (text : String) : Prop :=
  Pattern (some .identifier) text.toList ∧ ∀ t : Terminal, t.spelling? ≠ some text

theorem isName_ofList (hc : isNameStart c = true) (hcs : cs.all isNamePart = true)
    (hwords : ∀ t ∈ Terminal.all, t.spelling? ≠ some (String.ofList (c :: cs))) :
    IsName (String.ofList (c :: cs)) := by
  refine ⟨?_, fun t => hwords t (by cases t <;> decide)⟩
  rw [String.toList_ofList]
  exact .name hc (List.all_eq_true.mp hcs)

theorem IsName.separated_point {text : String} (h : IsName text) (rest : List Char) :
    Separated (".".toList ++ text.toList ++ rest) := by
  have hpattern := h.1
  generalize text.toList = cs at hpattern
  cases hpattern with
  | spelled hword => cases hword
  | name hc _ => exact Lexer.separated_point hc

/-- A token is read as a name only where it is no word. -/
theorem Lexes.isName {o o' : Nat} {cs cs' : List Char} {tokens : List Token} (h : Lexes o cs tokens o' cs') :
    ∀ t ∈ tokens, t.terminal = .identifier → IsName t.text := by
  induction h with
  | stop => simp
  | skip _ _ ih => exact ih
  | @token _ _ t text _ _ _ hlongest _ ih =>
      intro token htoken hname
      rcases List.mem_cons.mp htoken with rfl | htoken
      · obtain rfl : t = .identifier := hname
        refine ⟨?_, fun u hu => ?_⟩
        · rw [String.toList_ofList]
          exact hlongest.pattern
        · have hpattern := Pattern.spelled hu
          rw [String.toList_ofList] at hpattern
          rcases hlongest.preferred _ hpattern with heq | ⟨⟨v, hv, hspelled⟩, -⟩
          · cases heq
            cases hu
          · cases hv
            cases hspelled
      · exact ih token htoken hname

theorem words_not_signs : ∀ t ∈ words, t ∉ signs := by decide

/-- What is printed for a token is taken for it. -/
theorem longest_of_stops {text : String} (htext : text.toList = c :: cs)
    (hp : Pattern (some t) text.toList) (hname : t = .identifier → IsName text)
    (hrest : Stops (classOf c) rest) : Longest (some t) text.toList rest := by
  have hofList : text = String.ofList (c :: cs) := by rw [← htext, String.ofList_toList]
  rw [htext] at hp ⊢
  apply longest_of_starts rfl hp
  · intro other tail after hother heq
    exact hp.starts.length_le hother hrest heq
  · intro other hother
    exact hp.starts.preferred (fun ht => hofList ▸ (hname ht).2) hother

theorem longest_of_separated {text : String} (hp : Pattern (some t) text.toList)
    (hname : t = .identifier → IsName text) (hrest : Separated rest) :
    Longest (some t) text.toList rest := by
  obtain ⟨c, cs, htext, -⟩ := hp.exists_cons
  exact longest_of_stops htext hp hname (hrest _)

/-- A sign needs no separator, only something else than the rest of another sign. -/
theorem longest_sign_of_stops {word : String} (ht : t ∈ signs) (hword : t.spelling? = some word)
    (hrest : Stops .sign rest) : Longest (some t) word.toList rest := by
  rcases spelling_cases hword with ⟨hwords, -⟩ | ⟨-, c, cs, htext, hc⟩
  · exact absurd ht (words_not_signs t hwords)
  · apply longest_of_stops htext (.spelled hword)
    · rintro rfl
      cases hword
    · rwa [classOf_signStart c hc]

/-- No sign goes on with a token that is no sign itself. -/
theorem Pattern.stops_sign {text : List Char} (h : Pattern (some t) text) (ht : t ∉ signs) (rest : List Char) :
    Stops .sign (text ++ rest) := by
  obtain ⟨c, cs, rfl, -⟩ := h.exists_cons
  refine .other (Bool.eq_false_iff.mpr fun hgoesOn => ht ?_)
  have hstarts := h.starts
  rw [classOf_of_goesOn_sign hgoesOn] at hstarts
  obtain ⟨u, hu, heq, -⟩ := hstarts
  cases heq
  exact hu

def openers : List Terminal := [.openParen, .openBracket, .openBrace]

theorem eq_of_opener : ∀ t ∈ openers, ∀ u ∈ signs,
    (u.spelling?.bind fun word => word.toList.head?) = (t.spelling?.bind fun word => word.toList.head?) →
      u = t := by
  decide

theorem mem_signs_of_opener : ∀ t ∈ openers, t ∈ signs := by decide

/-- No other sign starts with an opener. -/
theorem longest_opener {word : String} (ht : t ∈ openers) (hword : t.spelling? = some word) :
    Longest (some t) word.toList rest := by
  rcases spelling_cases hword with ⟨hwords, -⟩ | ⟨-, c, cs, htext, hc⟩
  · exact absurd (mem_signs_of_opener t ht) (words_not_signs t hwords)
  · have hpattern := Pattern.spelled hword
    have hother {other : Option Terminal} {tail : List Char} (h : Starts c tail other .sign) :
        other = some t ∧ tail = cs := by
      obtain ⟨u, hu, rfl, hu'⟩ := h
      obtain rfl := eq_of_opener t ht u hu (by simp [hu', hword, htext])
      rw [hword, Option.some_inj, ← String.toList_inj, htext, String.toList_ofList] at hu'
      exact ⟨rfl, (List.cons.inj hu').2.symm⟩
    rw [htext] at hpattern ⊢
    apply longest_of_starts (classOf_signStart c hc) hpattern
    · rintro other tail after h -
      exact (hother h).2 ▸ Nat.le_refl _
    · intro other h
      exact .inl (hother h).1

theorem Lexes.append {o o₁ o' : Nat} {cs cs₁ cs' : List Char} {u v : List Token}
    (h : Lexes o cs u o₁ cs₁) (h' : Lexes o₁ cs₁ v o' cs') : Lexes o cs (u ++ v) o' cs' := by
  induction h with
  | stop o cs => exact h'
  | skip hlongest _ ih => exact .skip hlongest (ih h')
  | token hlongest _ ih => exact .token hlongest (ih h')

/-- Wherever a separator or nothing follows, the text is read as tokens with the property. -/
structure ReadAs (text : List Char) (good : List Token → Prop) : Prop where
  starts : ∃ c cs, text = c :: cs ∧ Text.isBlank c = false
  lexes : ∀ (o : Nat) (rest : List Char), Separated rest →
    ∃ tokens o', Lexes o (text ++ rest) tokens o' rest ∧ good tokens

def Both (good good' : List Token → Prop) (w : List Token) : Prop :=
  ∃ u v, w = u ++ v ∧ good u ∧ good' v

namespace ReadAs

variable {text text' : List Char} {good good' : List Token → Prop}

theorem imp (h : ReadAs text good) (himp : ∀ w, good w → good' w) : ReadAs text good' := by
  refine ⟨h.starts, fun o rest hrest => ?_⟩
  obtain ⟨w, o', hlexes, hw⟩ := h.lexes o rest hrest
  exact ⟨w, o', hlexes, himp w hw⟩

theorem token {text : String} (hp : Pattern (some t) text.toList) (hname : t = .identifier → IsName text) :
    ReadAs text.toList fun w => ∃ token : Token, token.terminal = t ∧ token.text = text ∧ w = [token] := by
  refine ⟨hp.exists_cons, fun o rest hrest => ?_⟩
  exact ⟨_, _, .token (longest_of_separated hp hname hrest) (.stop _ _), _, rfl, String.ofList_toList, rfl⟩

/-- A word or sign. -/
theorem spelled {word : String} (h : t.spelling? = some word) :
    ReadAs word.toList fun w => ∃ token : Token, token.terminal = t ∧ w = [token] := by
  have hname : t = .identifier → IsName word := by
    rintro rfl
    cases h
  refine (token (.spelled h) hname).imp ?_
  rintro w ⟨token, ht, -, rfl⟩
  exact ⟨token, ht, rfl⟩

theorem append (h : ReadAs text good) (h' : ReadAs text' good') (hsep : ∀ rest, Separated (text' ++ rest)) :
    ReadAs (text ++ text') (Both good good') := by
  refine ⟨?_, fun o rest hrest => ?_⟩
  · obtain ⟨c, cs, rfl, hc⟩ := h.starts
    exact ⟨c, cs ++ text', rfl, hc⟩
  · obtain ⟨u, o₁, hu, hgood⟩ := h.lexes o (text' ++ rest) (hsep rest)
    obtain ⟨v, o', hv, hgood'⟩ := h'.lexes o₁ rest hrest
    rw [List.append_assoc]
    exact ⟨u ++ v, o', hu.append hv, u, v, rfl, hgood, hgood'⟩

theorem gapped (h : ReadAs text good) (gap : List Char) (hgap : ∀ d ∈ gap, Text.isBlank d = true)
    (h' : ReadAs text' good') : ReadAs (text ++ ' ' :: (gap ++ text')) (Both good good') := by
  refine ⟨?_, fun o rest hrest => ?_⟩
  · obtain ⟨c, cs, rfl, hc⟩ := h.starts
    exact ⟨c, cs ++ ' ' :: (gap ++ text'), rfl, hc⟩
  · obtain ⟨c, cs, htext, hc⟩ := h'.starts
    -- The second text does not start with a blank, so the gap is all that is skipped.
    have hblank : Longest none (' ' :: gap) (text' ++ rest) := by
      have hlongest := @longest_blank ' ' (gap ++ (text' ++ rest)) (by decide)
      rw [List.takeWhile_append_of_pos hgap, List.dropWhile_append_of_pos hgap, htext, List.cons_append,
        List.takeWhile_cons, List.dropWhile_cons, hc] at hlongest
      rw [htext]
      simpa using hlongest
    obtain ⟨u, o₁, hu, hgood⟩ := h.lexes o (' ' :: (gap ++ (text' ++ rest))) (separated_cons (by decide))
    obtain ⟨v, o', hv, hgood'⟩ := h'.lexes (o₁ + bytes (' ' :: gap)) rest hrest
    rw [List.append_assoc, List.cons_append, List.append_assoc]
    exact ⟨u ++ v, o', hu.append (.skip hblank hv), u, v, rfl, hgood, hgood'⟩

theorem spaced (h : ReadAs text good) (h' : ReadAs text' good') :
    ReadAs (text ++ ' ' :: text') (Both good good') :=
  h.gapped [] (by simp) h'

/-- A sign directly in front of a text. -/
theorem prefixed {word : String} (hword : t.spelling? = some word) (h : ReadAs text good)
    (hlongest : ∀ rest, Longest (some t) word.toList (text ++ rest)) :
    ReadAs (word.toList ++ text) fun w => ∃ (s : Token) (v : List Token), w = s :: v ∧ s.terminal = t ∧ good v := by
  refine ⟨?_, fun o rest hrest => ?_⟩
  · obtain ⟨c, cs, hcs, hc⟩ := (Pattern.spelled hword).exists_cons
    exact ⟨c, cs ++ text, by rw [hcs, List.cons_append], hc⟩
  · obtain ⟨v, o', hv, hgood⟩ := h.lexes (o + bytes word.toList) rest hrest
    rw [List.append_assoc]
    exact ⟨_, o', .token (hlongest rest) hv, _, v, rfl, rfl, hgood⟩

theorem opened {word : String} (ht : t ∈ openers) (hword : t.spelling? = some word) (h : ReadAs text good) :
    ReadAs (word.toList ++ text) fun w => ∃ (s : Token) (v : List Token), w = s :: v ∧ s.terminal = t ∧ good v :=
  h.prefixed hword fun _ => longest_opener ht hword

/-- A sign directly behind a text. -/
theorem closed {word : String} (h : ReadAs text good) (hword : t.spelling? = some word)
    (hsep : ∀ rest, Separated (word.toList ++ rest)) :
    ReadAs (text ++ word.toList) fun w => ∃ (u : List Token) (s : Token), w = u ++ [s] ∧ good u ∧ s.terminal = t := by
  refine (h.append (spelled hword) hsep).imp ?_
  rintro w ⟨u, _, rfl, hu, s, hs, rfl⟩
  exact ⟨u, s, rfl, hu, hs⟩

theorem grouped {text : String} (h : ReadAs text.toList good) :
    ReadAs ("(" ++ text ++ ")").toList fun w => ∃ (l : Token) (u : List Token) (r : Token),
      w = l :: (u ++ [r]) ∧ l.terminal = .openParen ∧ good u ∧ r.terminal = .closeParen := by
  have hclosed := h.closed (t := .closeParen) rfl fun rest => separated_cons (by decide)
  have htext : ("(" ++ text ++ ")").toList = "(".toList ++ (text.toList ++ ")".toList) := by simp
  rw [htext]
  refine (hclosed.opened (t := .openParen) (by decide) rfl).imp ?_
  rintro w ⟨l, _, rfl, hl, u, r, rfl, hu, hr⟩
  exact ⟨l, u, r, rfl, hl, hu, hr⟩

theorem braced {text : String} (h : ReadAs text.toList good) :
    ReadAs ("\x7b " ++ text ++ " \x7d").toList fun w => ∃ (l : Token) (u : List Token) (r : Token),
      w = l :: (u ++ [r]) ∧ l.terminal = .openBrace ∧ good u ∧ r.terminal = .closeBrace := by
  have hclosed := h.spaced (spelled (t := .closeBrace) rfl)
  have htext : ("\x7b " ++ text ++ " \x7d").toList =
      "\x7b".toList ++ ' ' :: (text.toList ++ ' ' :: "\x7d".toList) := by simp
  rw [htext]
  refine ((spelled (t := .openBrace) rfl).spaced hclosed).imp ?_
  rintro w ⟨_, _, rfl, ⟨l, hl, rfl⟩, u, _, rfl, hu, r, hr, rfl⟩
  exact ⟨l, u, r, rfl, hl, hu, hr⟩

/-- A name with a colon, in front of a text. -/
theorem labelled {name text : String} (hname : IsName name) (h : ReadAs text.toList good) :
    ReadAs (name ++ ": " ++ text).toList fun w => ∃ (n c : Token) (v : List Token),
      w = n :: c :: v ∧ n.terminal = .identifier ∧ n.text = name ∧ c.terminal = .colon ∧ good v := by
  have hcolon := (spelled (t := .colon) rfl).spaced h
  have htext : (name ++ ": " ++ text).toList = name.toList ++ (":".toList ++ ' ' :: text.toList) := by simp
  rw [htext]
  refine ((token hname.1 fun _ => hname).append hcolon fun rest => separated_cons (by decide)).imp ?_
  rintro w ⟨_, _, rfl, ⟨n, hn, hntext, rfl⟩, _, v, rfl, ⟨c, hc, rfl⟩, hv⟩
  exact ⟨n, c, v, rfl, hn, hntext, hc, hv⟩

end ReadAs

inductive Listed {α : Type} (item : List Token → α → Prop) (sign : Terminal) :
    List Token → List α → Prop
  | one {u : List Token} {a : α} : item u a → Listed item sign u [a]
  | cons {s : Token} {u v : List Token} {a : α} {as : List α} : item u a → s.terminal = sign →
      Listed item sign v as → Listed item sign (u ++ s :: v) (a :: as)

def Series {α : Type} (item : List Token → α → Prop) (sign : Terminal) (w : List Token) (as : List α) : Prop :=
  as = [] ∧ w = [] ∨ Listed item sign w as

structure Signed {α : Type} (sign : Terminal) (one : List Token → α → Prop)
    (many : List Token → List α → Prop) : Prop where
  last : ∀ {s : Token} {u : List Token} {a : α}, s.terminal = sign → one u a → many (s :: u) [a]
  more : ∀ {s : Token} {u v : List Token} {a : α} {as : List α}, s.terminal = sign →
    one u a → many v as → many (s :: (u ++ v)) (a :: as)

def Glues (glue : String) (sign : Terminal) : Prop :=
  ∀ {text text' : List Char} {good good' : List Token → Prop}, ReadAs text good → ReadAs text' good' →
    ReadAs (text ++ (glue.toList ++ text')) fun w =>
      ∃ u s v, w = u ++ s :: v ∧ good u ∧ s.terminal = sign ∧ good' v

theorem glues_behind {sign : Terminal} {word glue : String} (hword : sign.spelling? = some word)
    (hglue : glue.toList = word.toList ++ [' ']) (hsep : ∀ rest, Separated (word.toList ++ rest)) :
    Glues glue sign := by
  intro text text' good good' h h'
  have hbehind := (ReadAs.spelled hword).spaced h'
  have htext : text ++ (glue.toList ++ text') = text ++ (word.toList ++ ' ' :: text') := by simp [hglue]
  rw [htext]
  refine (h.append hbehind fun rest => ?_).imp ?_
  · rw [List.append_assoc]
    exact hsep _
  · rintro w ⟨u, _, rfl, hu, _, v, rfl, ⟨s, hs, rfl⟩, hv⟩
    exact ⟨u, s, v, rfl, hu, hs, hv⟩

theorem glues_between {sign : Terminal} {word glue : String} (hword : sign.spelling? = some word)
    (hglue : glue.toList = ' ' :: (word.toList ++ [' '])) : Glues glue sign := by
  intro text text' good good' h h'
  have htext : text ++ (glue.toList ++ text') = text ++ ' ' :: (word.toList ++ ' ' :: text') := by simp [hglue]
  rw [htext]
  refine (h.spaced ((ReadAs.spelled hword).spaced h')).imp ?_
  rintro w ⟨u, _, rfl, hu, _, v, rfl, ⟨s, hs, rfl⟩, hv⟩
  exact ⟨u, s, v, rfl, hu, hs, hv⟩

theorem glues_comma : Glues ", " .comma :=
  glues_behind (rfl : Terminal.comma.spelling? = some ",") (by decide) fun _ => separated_cons (by decide)

theorem glues_semicolon : Glues "; " .semicolon :=
  glues_behind (rfl : Terminal.semicolon.spelling? = some ";") (by decide) fun _ => separated_cons (by decide)

theorem glues_bar : Glues " | " .bar :=
  glues_between (rfl : Terminal.bar.spelling? = some "|") (by decide)

theorem glues_amp : Glues " & " .amp :=
  glues_between (rfl : Terminal.amp.spelling? = some "&") (by decide)

theorem glues_as : Glues " as " .asWord :=
  glues_between (rfl : Terminal.asWord.spelling? = some "as") (by decide)

theorem ReadAs.glued {text text' glue : String} {sign : Terminal} {good good' : List Token → Prop}
    (h : ReadAs text.toList good) (hglue : Glues glue sign) (h' : ReadAs text'.toList good') :
    ReadAs (text ++ glue ++ text').toList fun w =>
      ∃ u s v, w = u ++ s :: v ∧ good u ∧ s.terminal = sign ∧ good' v := by
  have htext : (text ++ glue ++ text').toList = text.toList ++ (glue.toList ++ text'.toList) := by simp
  rw [htext]
  exact hglue h h'

section

variable {α β : Type} {item : List Token → α → Prop} {sign : Terminal} {w : List Token} {a : α} {as : List α}

theorem ReadAs.listed {glue : String} (hglue : Glues glue sign) {shown : α → String} (hne : as ≠ [])
    (h : ∀ a ∈ as, ReadAs (shown a).toList (item · a)) :
    ReadAs (glue.intercalate (as.map shown)).toList (Listed item sign · as) := by
  induction as with
  | nil => exact absurd rfl hne
  | cons a as ih =>
      have ha := h a List.mem_cons_self
      cases as with
      | nil => exact ha.imp fun _ => .one
      | cons b as =>
          have hrest := ih (List.cons_ne_nil b as) fun c hc => h c (List.mem_cons_of_mem a hc)
          have htext : (glue.intercalate ((a :: b :: as).map shown)).toList =
              (shown a).toList ++ (glue.toList ++ (glue.intercalate ((b :: as).map shown)).toList) := by
            simp [String.toList_intercalate]
          rw [htext]
          refine (hglue ha hrest).imp ?_
          rintro w ⟨u, s, v, rfl, hu, hs, hv⟩
          exact .cons hu hs hv

theorem Listed.choose {item : List Token → β → Prop} {R : β → α → Prop}
    (h : Listed (fun w a => ∃ b, item w b ∧ R b a) sign w as) :
    ∃ bs, Listed item sign w bs ∧ List.Forall₂ R bs as := by
  induction h with
  | one hu =>
      obtain ⟨b, hb, hR⟩ := hu
      exact ⟨[b], .one hb, .cons hR .nil⟩
  | cons hu hs _ ih =>
      obtain ⟨b, hb, hR⟩ := hu
      obtain ⟨bs, hbs, hall⟩ := ih
      exact ⟨b :: bs, .cons hb hs hbs, .cons hR hall⟩

/-- The text of a list and of what follows it. -/
theorem ReadAs.series {glue : String} (hglue : Glues glue sign) {shown : α → String}
    (h : ∀ a ∈ as, ReadAs (shown a).toList (item · a)) {text : List Char} {good : List Token → Prop}
    (htext : ReadAs text good) (hsep : ∀ rest, Separated (text ++ rest)) :
    ReadAs ((glue.intercalate (as.map shown)).toList ++ text) (Both (Series item sign · as) good) := by
  cases as with
  | nil =>
      refine htext.imp fun w hw => ?_
      exact ⟨[], w, rfl, .inl ⟨rfl, rfl⟩, hw⟩
  | cons a as =>
      refine ((ReadAs.listed hglue (List.cons_ne_nil a as) h).append htext hsep).imp ?_
      rintro w ⟨u, v, rfl, hu, hv⟩
      exact ⟨u, v, rfl, .inr hu, hv⟩

theorem Series.choose {item : List Token → β → Prop} {R : β → α → Prop}
    (h : Series (fun w a => ∃ b, item w b ∧ R b a) sign w as) :
    ∃ bs, Series item sign w bs ∧ List.Forall₂ R bs as := by
  rcases h with ⟨rfl, rfl⟩ | h
  · exact ⟨[], .inl ⟨rfl, rfl⟩, .nil⟩
  · obtain ⟨bs, hbs, hall⟩ := h.choose
    exact ⟨bs, .inr hbs, hall⟩

theorem Series.imp {item' : List Token → α → Prop} (h : Series item sign w as)
    (himp : ∀ a ∈ as, ∀ w, item w a → item' w a) : Series item' sign w as := by
  rcases h with ⟨rfl, rfl⟩ | h
  · exact .inl ⟨rfl, rfl⟩
  · refine .inr ?_
    induction h with
    | one hu => exact .one (himp _ List.mem_cons_self _ hu)
    | cons hu hs _ ih =>
        obtain ⟨hfirst, hrest⟩ := List.forall_mem_cons.mp himp
        exact .cons (hfirst _ hu) hs (ih hrest)

theorem Listed.signed {many : List Token → List α → Prop} (hsigned : Signed sign item many) {s : Token}
    (hs : s.terminal = sign) (h : Listed item sign w as) : many (s :: w) as := by
  induction h generalizing s with
  | one hu => exact hsigned.last hs hu
  | cons hu hs' _ ih => exact hsigned.more hs hu (ih hs')

/-- The first element, and the others with their signs. -/
theorem Listed.first {many : List Token → List α → Prop} (hsigned : Signed sign item many)
    (h : Listed item sign w (a :: as)) (hne : as ≠ []) : ∃ u v, w = u ++ v ∧ item u a ∧ many v as := by
  cases h with
  | one => exact absurd rfl hne
  | cons hu hs hv => exact ⟨_, _, rfl, hu, hv.signed hsigned hs⟩

/-- The text of at least two elements is read as a first one and others with their signs. -/
theorem ReadAs.signed {one : List Token → β → Prop} {many : List Token → List β → Prop} {R : β → α → Prop}
    (hsigned : Signed sign one many) {glue : String} (hglue : Glues glue sign) {shown : α → String}
    (htwo : 2 ≤ as.length) (h : ∀ a ∈ as, ReadAs (shown a).toList fun w => ∃ b, one w b ∧ R b a) :
    ReadAs (glue.intercalate (as.map shown)).toList
      fun w => ∃ u v b bs, w = u ++ v ∧ one u b ∧ many v bs ∧ List.Forall₂ R (b :: bs) as := by
  have hne : as ≠ [] := List.ne_nil_of_length_pos (Nat.lt_of_lt_of_le Nat.zero_lt_two htwo)
  refine (ReadAs.listed hglue hne h).imp ?_
  intro w hw
  obtain ⟨bs, hbs, hall⟩ := hw.choose
  rw [← hall.length_eq] at htwo
  obtain ⟨b, bs, rfl⟩ := List.exists_cons_of_length_pos (Nat.lt_of_lt_of_le Nat.zero_lt_two htwo)
  have hrest : bs ≠ [] := List.ne_nil_of_length_pos (Nat.le_of_succ_le_succ htwo)
  obtain ⟨u, v, rfl, hb, hbs⟩ := hbs.first hsigned hrest
  exact ⟨u, v, b, bs, rfl, hb, hbs, hall⟩

/-- The text of a function. -/
theorem ReadAs.function {shown : α → String} (hparams : ∀ a ∈ as, ReadAs (shown a).toList (item · a))
    {result : String} {good : List Token → Prop} (hresult : ReadAs result.toList good) :
    ReadAs ("(" ++ ", ".intercalate (as.map shown) ++ ") => " ++ result).toList fun w =>
      ∃ l u r a v, w = l :: (u ++ r :: a :: v) ∧ l.terminal = .openParen ∧ Series item .comma u as ∧
        r.terminal = .closeParen ∧ a.terminal = .arrow ∧ good v := by
  have harrow := (spelled (t := .closeParen) rfl).spaced ((spelled (t := .arrow) rfl).spaced hresult)
  have hlist := ReadAs.series glues_comma hparams harrow fun rest => separated_cons (by decide)
  have htext : ("(" ++ ", ".intercalate (as.map shown) ++ ") => " ++ result).toList =
      "(".toList ++ ((", ".intercalate (as.map shown)).toList ++
        (")".toList ++ ' ' :: ("=>".toList ++ ' ' :: result.toList))) := by
    simp
  rw [htext]
  refine (hlist.opened (t := .openParen) (by decide) rfl).imp ?_
  rintro w ⟨l, _, rfl, hl, u, _, rfl, hu, _, _, rfl, ⟨r, hr, rfl⟩, _, v, rfl, ⟨a, ha, rfl⟩, hv⟩
  exact ⟨l, u, r, a, v, rfl, hl, hu, hr, ha, hv⟩

end

end Structura.Lexer

namespace Structura.Grammar

open Lexer

variable {sign : Terminal} {w : List Token} {ps : List Signature}

theorem members_of_series (h : Series (DerivesType .signature) sign w ps)
    (hsign : sign = .semicolon ∨ sign = .comma) : DerivesType .members w ps := by
  rcases h with ⟨rfl, rfl⟩ | h
  · exact .noMembers
  · induction h with
    | one hu => exact .lastMember hu
    | cons hu hs _ ih => exact .member hu (hs ▸ hsign) ih

theorem params_of_series (h : Series (DerivesType .signature) .comma w ps) : DerivesType .params w ps := by
  rcases h with ⟨rfl, rfl⟩ | h
  · exact .noParams
  · induction h with
    | one hu => exact .lastParam hu
    | cons hu hs _ ih => exact .param hu hs ih

theorem signed_alternatives : Signed .bar (DerivesType .interType) (DerivesType .alternatives) :=
  ⟨.lastAlternative, .alternative⟩

theorem signed_requirements : Signed .amp (DerivesType .primaryType) (DerivesType .requirements) :=
  ⟨.lastRequirement, .requirement⟩

theorem signed_moreParams : Signed .comma (DerivesType .signature) (DerivesExpr .moreParams) := by
  refine ⟨fun hs hu => ?_, .moreParams⟩
  have hmore := DerivesExpr.moreParams hs hu .noMoreParams
  rwa [List.append_nil] at hmore

/-- Parameters of which the first has a type. -/
theorem arrowParams_of_series (h : Series (DerivesType .signature) .comma w ps)
    (hfirst : ∀ n rest, ps ≠ .bare n :: rest) : DerivesExpr .arrowParams w ps := by
  rcases h with ⟨rfl, rfl⟩ | h
  · exact .noParams
  · cases h with
    | one hu =>
        cases hu with
        | bare => exact absurd rfl (hfirst _ _)
        | typed hn hc hu =>
            have hparams := DerivesExpr.params hn hc hu .noMoreParams
            rwa [List.append_nil] at hparams
    | cons hu hs hv =>
        cases hu with
        | bare => exact absurd rfl (hfirst _ _)
        | typed hn hc hu => exact .params hn hc hu (hv.signed signed_moreParams hs)

theorem arguments_of_series {es : List Expr} (h : Series (DerivesExpr .expr) .comma w es) :
    DerivesExpr .arguments w es := by
  rcases h with ⟨rfl, rfl⟩ | h
  · exact .noArguments
  · induction h with
    | one hu => exact .lastArgument hu
    | cons hu hs _ ih => exact .argument hu hs ih

theorem properties_of_series {ps : List Property} (h : Series (DerivesExpr .property) .comma w ps) :
    DerivesExpr .properties w ps := by
  rcases h with ⟨rfl, rfl⟩ | h
  · exact .noProperties
  · induction h with
    | one hu => exact .lastProperty hu
    | cons hu hs _ ih => exact .property hu hs ih

end Structura.Grammar
