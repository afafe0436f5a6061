import Structura.Proofs.ExprRuns

/-!
Input that is not yet complete. The frames on the stack and the focus stand for the tokens that have been
read: a frame holds what has been read of a production up to the symbol that it waits for, and becomes a
tree of the grammar when what it waits for and the tokens after it have been read.
-/

namespace Structura

open Grammar

def UnaryOp.terminal : UnaryOp → Terminal
  | .not => .not
  | .typeof => .typeofWord

def BinaryOp.terminal : BinaryOp → Terminal
  | .equal => .equal
  | .notEqual => .notEqual
  | .add => .plus

def LogicalOp.terminal : LogicalOp → Terminal
  | .and => .both
  | .or => .either

namespace Parser

variable {w u v : List Token} {t : Token}

def Rank.Derives : Rank → List Token → Expr → Prop
  | .name => fun w e => ∃ t : Token, t.terminal = .identifier ∧ w = [t] ∧ e = .ident t.span t.text
  | .chain => DerivesExpr .chain
  | .unary => DerivesExpr .unary
  | .additive => DerivesExpr .additive
  | .relational => DerivesExpr .relational
  | .equality => DerivesExpr .equality
  | .conjunction => DerivesExpr .conjunction
  | .disjunction => DerivesExpr .disjunction
  | .whole => DerivesExpr .expr

def Rank.next : Rank → Rank
  | .name => .chain
  | .chain => .unary
  | .unary => .additive
  | .additive => .relational
  | .relational => .equality
  | .equality => .conjunction
  | .conjunction => .disjunction
  | .disjunction => .whole
  | .whole => .whole

theorem Rank.Derives.next {r : Rank} {e : Expr} (h : r.Derives w e) : r.next.Derives w e := by
  cases r with
  | name =>
      obtain ⟨t, ht, rfl, rfl⟩ := h
      exact DerivesExpr.primary (.ident ht)
  | chain => exact DerivesExpr.chain h
  | unary => exact DerivesExpr.unary h
  | additive => exact DerivesExpr.additive h
  | relational => exact DerivesExpr.relational h
  | equality => exact DerivesExpr.equality h
  | conjunction => exact DerivesExpr.conjunction h
  | disjunction => exact DerivesExpr.disjunction h
  | whole => exact h

theorem Rank.level_next {r : Rank} (h : r.level < Rank.whole.level) : r.next.level = r.level + 1 := by
  cases r with
  | whole => exact absurd h (Nat.lt_irrefl _)
  | _ => rfl

theorem Rank.level_injective {q r : Rank} (h : q.level = r.level) : q = r := by
  revert h
  cases q <;> cases r <;> decide

theorem Rank.Derives.mono {q r : Rank} {e : Expr} (h : q.Derives w e) (hr : q ≤ r) :
    r.Derives w e := by
  obtain ⟨n, hn⟩ := Nat.exists_eq_add_of_le (show q.level ≤ r.level from hr)
  induction n generalizing q with
  | zero => rwa [Rank.level_injective hn]
  | succ n ih =>
      have hlt : q.level < Rank.whole.level := by
        have := Rank.le_whole r
        change r.level ≤ Rank.whole.level at this
        omega
      have hnext : r.level = q.next.level + n := by
        rw [Rank.level_next hlt]
        omega
      apply ih h.next
      · change q.next.level ≤ r.level
        omega
      · exact hnext

inductive TypeForm where
  | primary
  | inter
  | whole

def TypeForm.Derives : TypeForm → List Token → TypeExpr → Prop
  | .primary => DerivesType .primaryType
  | .inter => DerivesType .interType
  | .whole => DerivesType .type

theorem TypeForm.derives_inter {form : TypeForm} {e : TypeExpr} (h : DerivesType .interType w e)
    (hform : form ≠ .primary) : form.Derives w e := by
  cases form with
  | primary => exact absurd rfl hform
  | inter => exact h
  | whole => exact .union (.inter h)

theorem TypeForm.derives_primary {form : TypeForm} {e : TypeExpr} (h : DerivesType .primaryType w e) :
    form.Derives w e := by
  cases form with
  | primary => exact h
  | inter => exact .primary h
  | whole => exact .union (.inter (.primary h))

structure Part.Reads {α : Type} (p : Part α) (derives : List Token → α → Prop) (w : List Token) :
    Prop where
  span : p.span = .ofTokens w
  tree : derives w p.tree

/-- Elements that have been read, each with the sign after it; the latest is first. -/
inductive Items {α : Type} (item : List Token → α → Prop) (separator : Terminal → Prop) :
    List Token → List α → Prop
  | nil : Items item separator [] []
  | add {w u : List Token} {t : Token} {before : List α} {a : α} : Items item separator w before →
      item u a → separator t.terminal → Items item separator (w ++ (u ++ [t])) (a :: before)

theorem Items.ne_nil {α : Type} {item : List Token → α → Prop} {separator : Terminal → Prop}
    {before : List α} (h : Items item separator w before) (hne : before ≠ []) : w ≠ [] := by
  cases h with
  | nil => exact absurd rfl hne
  | add => simp

/-- What comes after elements makes a longer list, if one element with its sign does so. -/
theorem Items.close {α : Type} {item : List Token → α → Prop} {separator : Terminal → Prop}
    {P : List Token → List α → Prop} {before as : List α} (h : Items item separator w before)
    (hcons : ∀ u t v a as, item u a → separator (Token.terminal t) → P v as →
      P (u ++ t :: v) (a :: as))
    (hv : P v as) : P (w ++ v) (before.reverse ++ as) := by
  induction h generalizing v as with
  | nil => exact hv
  | add _ hu ht ih =>
      have := ih (hcons _ _ _ _ _ hu ht hv)
      simpa using this

theorem Items.properties {before ps : List Property}
    (h : Items (DerivesExpr .property) (· = .comma) w before) (hv : DerivesExpr .properties v ps) :
    DerivesExpr .properties (w ++ v) (before.reverse ++ ps) :=
  h.close (P := DerivesExpr .properties) (fun _ _ _ _ _ hu ht hv => .property hu ht hv) hv

theorem Items.arguments {before es : List Expr} (h : Items (DerivesExpr .expr) (· = .comma) w before)
    (hv : DerivesExpr .arguments v es) : DerivesExpr .arguments (w ++ v) (before.reverse ++ es) :=
  h.close (P := DerivesExpr .arguments) (fun _ _ _ _ _ hu ht hv => .argument hu ht hv) hv

theorem Items.members {before ms : List Signature}
    (h : Items (DerivesType .signature) (fun t => t = .semicolon ∨ t = .comma) w before)
    (hv : DerivesType .members v ms) : DerivesType .members (w ++ v) (before.reverse ++ ms) :=
  h.close (P := DerivesType .members) (fun _ _ _ _ _ hu ht hv => .member hu ht hv) hv

theorem Items.params {before ps : List Signature}
    (h : Items (DerivesType .signature) (· = .comma) w before)
    (hv : DerivesType .params v ps) : DerivesType .params (w ++ v) (before.reverse ++ ps) :=
  h.close (P := DerivesType .params) (fun _ _ _ _ _ hu ht hv => .param hu ht hv) hv

def Led {α : Type} (item : List Token → α → Prop) (others : List Token → List α → Prop) (w : List Token)
    (as : List α) : Prop :=
  ∃ u v b bs, w = u ++ v ∧ as = b :: bs ∧ item u b ∧ others v bs

theorem Items.led {α : Type} {item : List Token → α → Prop} {separator : Terminal → Prop}
    {others : List Token → List α → Prop} {before as : List α} (h : Items item separator w before)
    (hcons : ∀ t u v a as, separator (Token.terminal t) → item u a → others v as →
      others (t :: (u ++ v)) (a :: as))
    (hv : Led item others v as) : Led item others (w ++ v) (before.reverse ++ as) := by
  refine h.close (P := Led item others) ?_ hv
  rintro u t _ a _ hu ht ⟨u', v', b, bs, rfl, rfl, hb, hothers⟩
  exact ⟨u, t :: (u' ++ v'), a, b :: bs, rfl, rfl, hu, hcons t u' v' b bs ht hb hothers⟩

/-- Where the grammar has at least one more element, there is one. -/
theorem Items.led_last {α : Type} {item : List Token → α → Prop} {separator : Terminal → Prop}
    {others : List Token → List α → Prop} {before : List α} {a : α}
    (h : Items item separator w before) (hne : before ≠ [])
    (hlast : ∀ t u a, separator (Token.terminal t) → item u a → others (t :: u) [a])
    (hcons : ∀ t u v a as, separator (Token.terminal t) → item u a → others v as →
      others (t :: (u ++ v)) (a :: as))
    (hv : item v a) : Led item others (w ++ v) (before.reverse ++ [a]) := by
  have hall : Led item (fun v as => v = [] ∧ as = [] ∨ others v as) (w ++ v) (before.reverse ++ [a]) := by
    refine h.led ?_ ⟨v, [], a, [], (List.append_nil v).symm, rfl, hv, .inl ⟨rfl, rfl⟩⟩
    rintro t u _ b _ ht hu (⟨rfl, rfl⟩ | hothers)
    · rw [List.append_nil]
      exact .inr (hlast t u b ht hu)
    · exact .inr (hcons t u _ b _ ht hu hothers)
  obtain ⟨u, v', b, bs, hw, hbs, hu, ⟨-, rfl⟩ | hothers⟩ := hall
  · have hlength := congrArg List.length hbs
    have hpos := List.length_pos_iff.mpr hne
    rw [List.length_append, List.length_reverse, List.length_singleton, List.length_singleton] at hlength
    omega
  · exact ⟨u, v', b, bs, hw, hbs, hu, hothers⟩

theorem Items.union {before : List TypeExpr} {e : TypeExpr}
    (h : Items (DerivesType .interType) (· = .bar) w before) (hne : before ≠ [])
    (hv : DerivesType .interType v e) :
    DerivesType .unionType (w ++ v) (.union (.ofTokens (w ++ v)) (before.reverse ++ [e])) := by
  have hled : Led (DerivesType .interType) (DerivesType .alternatives) (w ++ v) (before.reverse ++ [e]) :=
    h.led_last hne (fun _ _ _ ht hu => .lastAlternative ht hu)
      (fun _ _ _ _ _ ht hu hv => .alternative ht hu hv) hv
  obtain ⟨u, v', b, bs, hw, hbs, hu, hothers⟩ := hled
  rw [hw, hbs]
  exact .alternatives hu hothers

theorem Items.inter {before : List TypeExpr} {e : TypeExpr}
    (h : Items (DerivesType .primaryType) (· = .amp) w before) (hne : before ≠ [])
    (hv : DerivesType .primaryType v e) :
    DerivesType .interType (w ++ v) (.inter (.ofTokens (w ++ v)) (before.reverse ++ [e])) := by
  have hled : Led (DerivesType .primaryType) (DerivesType .requirements) (w ++ v) (before.reverse ++ [e]) :=
    h.led_last hne (fun _ _ _ ht hu => .lastRequirement ht hu)
      (fun _ _ _ _ _ ht hu hv => .requirement ht hu hv) hv
  obtain ⟨u, v', b, bs, hw, hbs, hu, hothers⟩ := hled
  rw [hw, hbs]
  exact .requirements hu hothers

def Owner.Derives : Owner → List Token → List Signature → Prop
  | .function => DerivesExpr .arrowParams
  | .functionType => DerivesType .params

def Owner.Admits : Owner → List Signature → Prop
  | .function, .bare _ :: _ => False
  | _, _ => True

theorem Owner.Admits.append {owner : Owner} {ps qs : List Signature} (h : owner.Admits ps)
    (hne : ps ≠ []) : owner.Admits (ps ++ qs) := by
  obtain ⟨p, ps, rfl⟩ := List.exists_cons_of_ne_nil hne
  cases owner with
  | functionType => exact trivial
  | function =>
      cases p with
      | bare name => exact h
      | typed name type => exact trivial

inductive Params.Open : Params → List Token → Prop
  | mk {owner : Owner} {l : Token} {v : List Token} {before : List Signature} :
      l.terminal = .openParen → Items (DerivesType .signature) (· = .comma) v before →
      Params.Open ⟨owner, l.span.start, before⟩ (l :: v)

inductive Params.Closed : Params → List Token → Prop
  | mk {owner : Owner} {l r : Token} {v : List Token} {before : List Signature} :
      l.terminal = .openParen → owner.Derives v before.reverse → r.terminal = .closeParen →
      Params.Closed ⟨owner, l.span.start, before⟩ (l :: (v ++ [r]))

theorem Params.Open.add {params : Params} {p : Signature} (h : params.Open w)
    (hu : DerivesType .signature u p) (ht : t.terminal = .comma) :
    (params.add p).Open (w ++ (u ++ [t])) := by
  obtain ⟨hl, hv⟩ := h
  exact .mk hl (hv.add hu ht)

theorem Items.arrowParams {before : List Signature} {p : Signature}
    (h : Items (DerivesType .signature) (· = .comma) w before) (hu : DerivesType .signature u p)
    (hfirst : Owner.function.Admits (before.reverse ++ [p])) :
    DerivesExpr .arrowParams (w ++ u) (before.reverse ++ [p]) := by
  have hled : Led (DerivesType .signature) (DerivesExpr .moreParams) (w ++ u) (before.reverse ++ [p]) :=
    h.led (fun _ _ _ _ _ ht hu hv => .moreParams ht hu hv)
      ⟨u, [], p, [], (List.append_nil u).symm, rfl, hu, .noMoreParams⟩
  obtain ⟨v, v', q, qs, hw, hqs, hv, hmore⟩ := hled
  rw [hqs] at hfirst
  rw [hw, hqs]
  cases hv with
  | bare => exact hfirst.elim
  | typed hn hc htype => exact .params hn hc htype hmore

theorem Params.Open.close {params : Params} {p : Signature} (h : params.Open w)
    (hu : DerivesType .signature u p) (hfirst : params.owner.Admits (params.before.reverse ++ [p]))
    (ht : t.terminal = .closeParen) : (params.add p).Closed (w ++ (u ++ [t])) := by
  obtain @⟨owner, l, v, before, hl, hv⟩ := h
  have hall : owner.Derives (v ++ u) (before.reverse ++ [p]) := by
    cases owner with
    | function => exact hv.arrowParams hu hfirst
    | functionType => exact hv.params (.lastParam hu)
  rw [← List.reverse_cons] at hall
  have hclosed := Params.Closed.mk hl hall ht
  rw [List.append_assoc] at hclosed
  exact hclosed

/-- What has to be read as a whole: an expression of at most some rank, a type of some form, or a
statement. -/
inductive Goal where
  | expr (r : Rank)
  | type (form : TypeForm)
  | statement

def Owner.goal : Owner → Goal
  | .function => .expr .whole
  | .functionType => .type .whole

def Rank.ofBinary : BinaryOp → Rank
  | .add => .additive
  | _ => .equality

def Rank.ofLogical : LogicalOp → Rank
  | .and => .conjunction
  | .or => .disjunction

def Frame.awaits : Frame → Goal
  | .unary _ _ | .binary .add _ => .expr .unary
  | .binary _ _ => .expr .relational
  | .logical .and _ => .expr .equality
  | .logical .or _ => .expr .conjunction
  | .body _ _ | .group _ _ | .index _ | .argument _ _ | .field _ _ _ | .spread _ _ | .value _ _ _
  | .statement _ => .expr .whole
  | .ascription _ | .result _ _ | .typeGroup _ _ | .memberType _ _ _ | .paramType _ _ | .declared _ _
  | .annotated _ _ => .type .whole
  | .union _ _ => .type .inter
  | .inter _ _ => .type .primary

def awaited (start : Goal) : List Frame → Goal
  | [] => start
  | f :: _ => f.awaits

/-- A frame has read the beginning of what has to be read. A statement that starts with its value has its
start at `o`. -/
inductive Opens (o : Nat) : Frame → Goal → List Token → Prop
  | unary {op : UnaryOp} {t : Token} {r : Rank} : t.terminal = op.terminal → .unary ≤ r →
      Opens o (.unary t.span.start op) (.expr r) [t]
  | binary {op : BinaryOp} {left : Part Expr} {u : List Token} {t : Token} {r : Rank} :
      left.Reads (Rank.ofBinary op).Derives u → t.terminal = op.terminal → Rank.ofBinary op ≤ r →
      Opens o (.binary op left) (.expr r) (u ++ [t])
  | logical {op : LogicalOp} {left : Part Expr} {u : List Token} {t : Token} {r : Rank} :
      left.Reads (Rank.ofLogical op).Derives u → t.terminal = op.terminal → Rank.ofLogical op ≤ r →
      Opens o (.logical op left) (.expr r) (u ++ [t])
  | bareBody {n a : Token} : n.terminal = .identifier → a.terminal = .arrow →
      Opens o (.body n.span.start [.bare n.name]) (.expr .whole) [n, a]
  | body {params : Params} {u : List Token} {a : Token} : params.owner = .function → params.Closed u →
      a.terminal = .arrow → Opens o (.body params.start params.before.reverse) (.expr .whole) (u ++ [a])
  | group {mayOpenParams : Bool} {l : Token} {r : Rank} : l.terminal = .openParen → .chain ≤ r →
      (mayOpenParams = true → r = .whole) → Opens o (.group l.span.start mayOpenParams) (.expr r) [l]
  | index {object : Part Expr} {u : List Token} {l : Token} {r : Rank} :
      object.Reads Rank.chain.Derives u → l.terminal = .openBracket → .chain ≤ r →
      Opens o (.index object) (.expr r) (u ++ [l])
  | argument {callee : Part Expr} {before : List Expr} {u v : List Token} {l : Token} {r : Rank} :
      callee.Reads Rank.chain.Derives u → l.terminal = .openParen →
      Items (DerivesExpr .expr) (· = .comma) v before → .chain ≤ r →
      Opens o (.argument callee before) (.expr r) (u ++ l :: v)
  | field {before : List Property} {l n c : Token} {v : List Token} {r : Rank} :
      l.terminal = .openBrace → Items (DerivesExpr .property) (· = .comma) v before →
      n.terminal = .identifier → c.terminal = .colon → .chain ≤ r →
      Opens o (.field l.span.start before n.name) (.expr r) (l :: (v ++ [n, c]))
  | spread {before : List Property} {l t : Token} {v : List Token} {r : Rank} :
      l.terminal = .openBrace → Items (DerivesExpr .property) (· = .comma) v before →
      t.terminal = .ellipsis → .chain ≤ r →
      Opens o (.spread l.span.start before) (.expr r) (l :: (v ++ [t]))
  | ascription {subject : Part Expr} {u : List Token} {t : Token} {r : Rank} :
      subject.Reads Rank.relational.Derives u → t.terminal = .asWord → .relational ≤ r →
      Opens o (.ascription subject) (.expr r) (u ++ [t])
  | union {before : List TypeExpr} {w : List Token} :
      Items (DerivesType .interType) (· = .bar) w before → before ≠ [] →
      Opens o (.union (Span.ofTokens w).start before) (.type .whole) w
  | inter {before : List TypeExpr} {w : List Token} {form : TypeForm} :
      Items (DerivesType .primaryType) (· = .amp) w before → before ≠ [] → form ≠ .primary →
      Opens o (.inter (Span.ofTokens w).start before) (.type form) w
  | result {params : Params} {u : List Token} {a : Token} : params.owner = .functionType →
      params.Closed u → a.terminal = .arrow →
      Opens o (.result params.start params.before.reverse) (.type .whole) (u ++ [a])
  | typeGroup {mayOpenParams : Bool} {l : Token} {form : TypeForm} : l.terminal = .openParen →
      (mayOpenParams = true → form = .whole) →
      Opens o (.typeGroup l.span.start mayOpenParams) (.type form) [l]
  | memberType {before : List Signature} {l n c : Token} {v : List Token} {form : TypeForm} :
      l.terminal = .openBrace →
      Items (DerivesType .signature) (fun t => t = .semicolon ∨ t = .comma) v before →
      n.terminal = .identifier → c.terminal = .colon →
      Opens o (.memberType l.span.start before n.name) (.type form) (l :: (v ++ [n, c]))
  | paramType {params : Params} {goal : Goal} {u : List Token} {n c : Token} : params.owner.goal = goal →
      params.Open u → (∀ type, params.owner.Admits (params.before.reverse ++ [.typed n.name type])) →
      n.terminal = .identifier → c.terminal = .colon →
      Opens o (.paramType params n.name) goal (u ++ [n, c])
  | declared {d n c : Token} : d.terminal = .declareWord → n.terminal = .identifier →
      c.terminal = .colon → Opens o (.declared d.span.start n.name) .statement [d, n, c]
  | annotated {l n c : Token} : l.terminal = .letWord → n.terminal = .identifier →
      c.terminal = .colon → Opens o (.annotated l.span.start n.name) .statement [l, n, c]
  | value {l n a : Token} : l.terminal = .letWord → n.terminal = .identifier → a.terminal = .assign →
      Opens o (.value l.span.start n.name none) .statement [l, n, a]
  | typedValue {type : TypeExpr} {l n c a : Token} {u : List Token} : l.terminal = .letWord →
      n.terminal = .identifier → c.terminal = .colon → DerivesType .type u type →
      a.terminal = .assign →
      Opens o (.value l.span.start n.name (some type)) .statement (l :: n :: c :: (u ++ [a]))
  | statement : Opens o (.statement o) .statement []

inductive StackReads (o : Nat) (start : Goal) : List Frame → List Token → Prop
  | nil : StackReads o start [] []
  | cons {f : Frame} {rest : List Frame} {u v : List Token} : StackReads o start rest u →
      Opens o f (awaited start rest) v → StackReads o start (f :: rest) (u ++ v)

inductive FocusReads : Goal → Focus → List Token → Prop
  | operand {r : Rank} : FocusReads (.expr r) .operand []
  | expr {q r : Rank} {e : Part Expr} {w : List Token} : e.Reads q.Derives w → q ≤ r →
      FocusReads (.expr r) (.expr q e) w
  | property {before : List Property} {l : Token} {v : List Token} {r : Rank} :
      l.terminal = .openBrace → Items (DerivesExpr .property) (· = .comma) v before → .chain ≤ r →
      FocusReads (.expr r) (.property l.span.start before) (l :: v)
  | propertyColon {before : List Property} {l n : Token} {v : List Token} {r : Rank} :
      l.terminal = .openBrace → Items (DerivesExpr .property) (· = .comma) v before →
      n.terminal = .identifier → .chain ≤ r →
      FocusReads (.expr r) (.propertyColon l.span.start before n.name) (l :: (v ++ [n]))
  | memberName {object : Part Expr} {u : List Token} {d : Token} {r : Rank} :
      object.Reads Rank.chain.Derives u → d.terminal = .dot → .chain ≤ r →
      FocusReads (.expr r) (.memberName object) (u ++ [d])
  | paramName {params : Params} {goal : Goal} {w : List Token} : params.owner.goal = goal →
      params.Open w → (∀ p, params.owner.Admits (params.before.reverse ++ [p])) →
      FocusReads goal (.paramName params) w
  | paramEnd {params : Params} {goal : Goal} {u : List Token} {n : Token} : params.owner.goal = goal →
      params.Open u → (∀ p, params.owner.Admits (params.before.reverse ++ [p])) →
      n.terminal = .identifier → FocusReads goal (.paramEnd params n.name) (u ++ [n])
  | arrow {params : Params} {goal : Goal} {w : List Token} : params.owner.goal = goal →
      params.Closed w → FocusReads goal (.arrow params) w
  | type {form : TypeForm} : FocusReads (.type form) .type []
  | typed {p : Part TypeExpr} {form : TypeForm} {w : List Token} :
      p.Reads (DerivesType .primaryType) w → FocusReads (.type form) (.typed false p) w
  | completed {p : Part TypeExpr} {w : List Token} : p.Reads (DerivesType .type) w →
      FocusReads (.type .whole) (.typed true p) w
  | member {before : List Signature} {l : Token} {v : List Token} {form : TypeForm} :
      l.terminal = .openBrace →
      Items (DerivesType .signature) (fun t => t = .semicolon ∨ t = .comma) v before →
      FocusReads (.type form) (.member l.span.start before) (l :: v)
  | memberEnd {before : List Signature} {l n : Token} {v : List Token} {form : TypeForm} :
      l.terminal = .openBrace →
      Items (DerivesType .signature) (fun t => t = .semicolon ∨ t = .comma) v before →
      n.terminal = .identifier →
      FocusReads (.type form) (.memberEnd l.span.start before n.name) (l :: (v ++ [n]))
  | statement : FocusReads .statement .statement []
  | declareName {d : Token} : d.terminal = .declareWord →
      FocusReads .statement (.declareName d.span.start) [d]
  | declareColon {d n : Token} : d.terminal = .declareWord → n.terminal = .identifier →
      FocusReads .statement (.declareColon d.span.start n.name) [d, n]
  | letName {l : Token} : l.terminal = .letWord → FocusReads .statement (.letName l.span.start) [l]
  | letEnd {l n : Token} : l.terminal = .letWord → n.terminal = .identifier →
      FocusReads .statement (.letEnd l.span.start n.name) [l, n]

/-- The stack and the focus stand for the tokens `w`. -/
def Pending (o : Nat) (start : Goal) (stack : List Frame) (focus : Focus) (w : List Token) : Prop :=
  ∃ u v, w = u ++ v ∧ StackReads o start stack u ∧ FocusReads (awaited start stack) focus v

section

variable {o : Nat} {f : Frame} {goal : Goal} {q r : Rank} {e e' : Part Expr} {tree : Expr} {type : TypeExpr}

theorem Part.Reads.extend {α β : Type} {p : Part α} {derives : List Token → α → Prop}
    {derives' : List Token → β → Prop} {start : Nat} {node : Span → α → β} (h : p.Reads derives v)
    (hv : v ≠ []) (hstart : (Span.ofTokens (u ++ v)).start = start)
    (htree : derives' (u ++ v) (node (.ofTokens (u ++ v)) p.tree)) :
    (p.extend start node).Reads derives' (u ++ v) := by
  have hspan : (⟨start, p.span.stop⟩ : Span) = .ofTokens (u ++ v) := by
    rw [h.span, ← Span.stop_ofTokens_append hv, ← hstart]
  constructor
  · exact hspan
  · change derives' (u ++ v) (node ⟨start, p.span.stop⟩ p.tree)
    rwa [hspan]

theorem Rank.Derives.ne_nil (h : r.Derives w tree) : w ≠ [] :=
  DerivesExpr.ne_nil (s := .expr) (h.mono (Rank.le_whole r)) rfl

theorem Part.Reads.start_eq {left : Part Expr} (h : left.Reads r.Derives u) :
    (Span.ofTokens (u ++ v)).start = left.span.start := by
  rw [h.span, Span.start_ofTokens_append h.tree.ne_nil]

/-- A sign with its left operand, before its right one. -/
theorem Part.Reads.operator {left : Part Expr} {s : Rank} (node : Span → Expr → Expr → Expr)
    (hleft : left.Reads q.Derives u) (he : e.Reads s.Derives v)
    (htree : ∀ left right, q.Derives u left → s.Derives v right →
      q.Derives (u ++ t :: v) (node (.ofTokens (u ++ t :: v)) left right)) :
    (e.extend left.span.start fun span right => node span left.tree right).Reads q.Derives
      (u ++ [t] ++ v) := by
  apply he.extend he.tree.ne_nil
  · rw [List.append_assoc]
    exact hleft.start_eq
  · rw [List.append_assoc]
    exact htree _ _ hleft.tree he.tree

/-- A frame that waits for its last operand makes an expression with it. -/
theorem Opens.complete (h : Opens o f goal u) (hc : f.complete? e = some (q, e'))
    (hr : f.awaits = .expr r) (he : e.Reads r.Derives v) : FocusReads goal (.expr q e') (u ++ v) := by
  cases h with
  | @unary op t _ ht hle =>
      cases hr
      cases hc
      refine .expr (he.extend he.tree.ne_nil rfl ?_) hle
      cases op with
      | not => exact .not ht he.tree
      | typeof => exact .typeof ht he.tree
  | @binary op left u t _ hleft ht hle =>
      cases op with
      | add =>
          cases hr
          cases hc
          exact .expr (hleft.operator (q := .additive) (.binary · .add · ·) he
            fun _ _ hu hv => .add hu ht hv) hle
      | equal =>
          cases hr
          cases hc
          exact .expr (hleft.operator (q := .equality) (.binary · .equal · ·) he
            fun _ _ hu hv => .equal hu ht hv) hle
      | notEqual =>
          cases hr
          cases hc
          exact .expr (hleft.operator (q := .equality) (.binary · .notEqual · ·) he
            fun _ _ hu hv => .notEqual hu ht hv) hle
  | @logical op left u t _ hleft ht hle =>
      cases op with
      | and =>
          cases hr
          cases hc
          exact .expr (hleft.operator (q := .conjunction) (.logical · .and · ·) he
            fun _ _ hu hv => .and hu ht hv) hle
      | or =>
          cases hr
          cases hc
          exact .expr (hleft.operator (q := .disjunction) (.logical · .or · ·) he
            fun _ _ hu hv => .or hu ht hv) hle
  | bareBody hn ha =>
      cases hr
      cases hc
      exact .expr (he.extend he.tree.ne_nil rfl (.arrow (.bareFunction hn ha he.tree))) (Rank.le_refl _)
  | @body params u a howner hclosed ha =>
      cases hr
      cases hc
      obtain @⟨_, l, m, w, before, hl, hw, hm⟩ := hclosed
      cases howner
      refine .expr (he.extend he.tree.ne_nil rfl ?_) (Rank.le_refl _)
      have hall : l :: (w ++ [m]) ++ [a] ++ v = l :: (w ++ m :: a :: v) := by simp
      rw [hall]
      exact .arrow (.function hl hw hm ha he.tree)
  | _ => cases hc

theorem Part.Reads.close {α β : Type} {p : Part α} {derives : List Token → α → Prop}
    {derives' : List Token → β → Prop} {node : Span → α → β} (h : p.Reads derives u) (hu : u ≠ [])
    (htree : derives' (u ++ (v ++ [t])) (node (.ofTokens (u ++ (v ++ [t]))) p.tree)) :
    (p.close t node).Reads derives' (u ++ (v ++ [t])) := by
  have hspan : (⟨p.span.start, t.span.stop⟩ : Span) = .ofTokens (u ++ (v ++ [t])) := by
    rw [h.span, Span.ofTokens_append hu (by simp), Span.stop_ofTokens_append (List.cons_ne_nil t [])]
    rfl
  constructor
  · exact hspan
  · change derives' _ (node ⟨p.span.start, t.span.stop⟩ p.tree)
    rwa [hspan]

theorem Opens.close_group {start : Nat} {may : Bool} (h : Opens o (.group start may) goal u)
    (hv : DerivesExpr .expr v tree) (ht : t.terminal = .closeParen) :
    FocusReads goal (.expr .chain ⟨⟨start, t.span.stop⟩, tree⟩) (u ++ (v ++ [t])) := by
  cases h with
  | group hl hle _ => exact .expr ⟨Span.ofTokens_delimited.symm, .primary (.group hl hv ht)⟩ hle

theorem Opens.close_index {object : Part Expr} (h : Opens o (.index object) goal u)
    (hv : DerivesExpr .expr v tree) (ht : t.terminal = .closeBracket) :
    FocusReads goal (.expr .chain (object.close t (.computed · · tree))) (u ++ (v ++ [t])) := by
  cases h with
  | index hobject hl hle =>
      rw [List.append_assoc]
      exact .expr (hobject.close (v := _ :: v) hobject.tree.ne_nil (.computed hobject.tree hl hv ht)) hle

theorem Opens.close_arguments {callee : Part Expr} {before es : List Expr}
    (h : Opens o (.argument callee before) goal u) (hv : DerivesExpr .arguments v es)
    (ht : t.terminal = .closeParen) :
    FocusReads goal (call callee (es.reverse ++ before) t) (u ++ (v ++ [t])) := by
  cases h with
  | @argument _ _ u w l _ hcallee hl hw hle =>
      have hall : u ++ l :: w ++ (v ++ [t]) = u ++ (l :: (w ++ v) ++ [t]) := by simp
      rw [hall, call, List.reverse_append, List.reverse_reverse]
      exact .expr (hcallee.close hcallee.tree.ne_nil (.call hcallee.tree hl (hw.arguments hv) ht)) hle

theorem Opens.next_argument {callee : Part Expr} {before : List Expr}
    (h : Opens o (.argument callee before) goal u) (hv : DerivesExpr .expr v tree)
    (ht : t.terminal = .comma) : Opens o (.argument callee (tree :: before)) goal (u ++ (v ++ [t])) := by
  cases h with
  | argument hcallee hl hw hle =>
      rw [List.append_assoc]
      exact .argument hcallee hl (hw.add hv ht) hle

/-- The properties between the braces of an object. -/
theorem Items.object {before ps : List Property} {l : Token}
    (h : Items (DerivesExpr .property) (· = .comma) w before) (hl : l.terminal = .openBrace)
    (hv : DerivesExpr .properties v ps) (ht : t.terminal = .closeBrace) :
    Part.Reads ⟨⟨l.span.start, t.span.stop⟩,
        .object ⟨l.span.start, t.span.stop⟩ (ps.reverse ++ before).reverse⟩ Rank.chain.Derives
      (l :: (w ++ (v ++ [t]))) := by
  rw [← List.append_assoc, List.reverse_append, List.reverse_reverse]
  refine ⟨Span.ofTokens_delimited.symm, ?_⟩
  rw [← Span.ofTokens_delimited (u := w ++ v)]
  exact .primary (.object hl (h.properties hv) ht)

theorem Opens.close_field {start : Nat} {before : List Property} {name : Name}
    (h : Opens o (.field start before name) goal u) (hv : DerivesExpr .expr v tree)
    (ht : t.terminal = .closeBrace) :
    FocusReads goal (.expr .chain ⟨⟨start, t.span.stop⟩,
      .object ⟨start, t.span.stop⟩ (Property.field name tree :: before).reverse⟩) (u ++ (v ++ [t])) := by
  cases h with
  | field hl hw hn hc hle =>
      rw [List.cons_append, List.append_assoc]
      exact .expr (hw.object hl (.lastProperty (.field hn hc hv)) ht) hle

theorem Opens.next_property {start : Nat} {before : List Property} {name : Name}
    (h : Opens o (.field start before name) goal u) (hv : DerivesExpr .expr v tree)
    (ht : t.terminal = .comma) :
    FocusReads goal (.property start (.field name tree :: before)) (u ++ (v ++ [t])) := by
  cases h with
  | field hl hw hn hc hle =>
      rw [List.cons_append, List.append_assoc]
      exact .property hl (hw.add (.field hn hc hv) ht) hle

theorem Opens.next_of_spread {start : Nat} {before : List Property}
    (h : Opens o (.spread start before) goal u) (hv : DerivesExpr .expr v tree)
    (ht : t.terminal = .comma) :
    FocusReads goal (.property start (.spread tree :: before)) (u ++ (v ++ [t])) := by
  cases h with
  | spread hl hw hs hle =>
      rw [List.cons_append, List.append_assoc]
      exact .property hl (hw.add (.spread hs hv) ht) hle

theorem Opens.close_spread {start : Nat} {before : List Property}
    (h : Opens o (.spread start before) goal u) (hv : DerivesExpr .expr v tree)
    (ht : t.terminal = .closeBrace) :
    FocusReads goal (.expr .chain ⟨⟨start, t.span.stop⟩,
      .object ⟨start, t.span.stop⟩ (Property.spread tree :: before).reverse⟩) (u ++ (v ++ [t])) := by
  cases h with
  | spread hl hw hs hle =>
      rw [List.cons_append, List.append_assoc]
      exact .expr (hw.object hl (.lastProperty (.spread hs hv)) ht) hle

theorem Opens.close_typeGroup {start : Nat} {may : Bool} (h : Opens o (.typeGroup start may) goal u)
    (hv : DerivesType .type v type) (ht : t.terminal = .closeParen) :
    FocusReads goal (.typed false ⟨⟨start, t.span.stop⟩, type⟩) (u ++ (v ++ [t])) := by
  cases h with
  | typeGroup hl _ => exact .typed ⟨Span.ofTokens_delimited.symm, .group hl hv ht⟩

/-- The members between the braces of an object type. -/
theorem Items.objectType {before ms : List Signature} {l : Token} {form : TypeForm}
    (h : Items (DerivesType .signature) (fun t => t = .semicolon ∨ t = .comma) w before)
    (hl : l.terminal = .openBrace) (hv : DerivesType .members v ms) (ht : t.terminal = .closeBrace) :
    FocusReads (.type form) (objectType l.span.start (ms.reverse ++ before) t)
      (l :: (w ++ (v ++ [t]))) := by
  rw [← List.append_assoc, Parser.objectType, List.reverse_append, List.reverse_reverse]
  refine .typed ⟨Span.ofTokens_delimited.symm, ?_⟩
  rw [← Span.ofTokens_delimited (u := w ++ v)]
  exact .object hl (h.members hv) ht

theorem Opens.close_memberType {start : Nat} {before : List Signature} {name : Name}
    (h : Opens o (.memberType start before name) goal u) (hv : DerivesType .type v type)
    (ht : t.terminal = .closeBrace) :
    FocusReads goal (objectType start (.typed name type :: before) t) (u ++ (v ++ [t])) := by
  cases h with
  | memberType hl hw hn hc =>
      rw [List.cons_append, List.append_assoc]
      exact hw.objectType hl (.lastMember (.typed hn hc hv)) ht

theorem Opens.next_member {start : Nat} {before : List Signature} {name : Name}
    (h : Opens o (.memberType start before name) goal u) (hv : DerivesType .type v type)
    (ht : t.terminal = .semicolon ∨ t.terminal = .comma) :
    FocusReads goal (.member start (.typed name type :: before)) (u ++ (v ++ [t])) := by
  cases h with
  | memberType hl hw hn hc =>
      rw [List.cons_append, List.append_assoc]
      exact .member hl (hw.add (.typed hn hc hv) ht)

/-- Parameters after the first may be of any kind. -/
theorem Params.admits_add {params : Params} {p q : Signature}
    (h : params.owner.Admits (params.before.reverse ++ [p])) :
    (params.add p).owner.Admits ((params.add p).before.reverse ++ [q]) := by
  change params.owner.Admits ((p :: params.before).reverse ++ [q])
  rw [List.reverse_cons]
  exact h.append (by simp)

theorem Opens.next_param {params : Params} {name : Name} (h : Opens o (.paramType params name) goal u)
    (hv : DerivesType .type v type) (ht : t.terminal = .comma) :
    FocusReads goal (.paramName (params.add (.typed name type))) (u ++ (v ++ [t])) := by
  cases h with
  | paramType hgoal hopen hfirst hn hc =>
      rw [List.append_assoc]
      exact .paramName hgoal (hopen.add (.typed hn hc hv) ht) fun _ => Params.admits_add (hfirst type)

theorem Opens.close_paramType {params : Params} {name : Name} (h : Opens o (.paramType params name) goal u)
    (hv : DerivesType .type v type) (ht : t.terminal = .closeParen) :
    FocusReads goal (.arrow (params.add (.typed name type))) (u ++ (v ++ [t])) := by
  cases h with
  | paramType hgoal hopen hfirst hn hc =>
      rw [List.append_assoc]
      exact .arrow hgoal (hopen.close (.typed hn hc hv) (hfirst type) ht)

/-- A type that waits for its last part is a type with it. -/
theorem Opens.complete_inter {start : Nat} {before : List TypeExpr} {p : Part TypeExpr}
    (h : Opens o (.inter start before) goal u) (hp : p.Reads (DerivesType .primaryType) v) :
    ∃ form, goal = .type form ∧ form ≠ .primary ∧
      (p.extend start fun span last => .inter span (last :: before).reverse).Reads
        (DerivesType .interType) (u ++ v) := by
  cases h with
  | @inter _ _ form hu hne hform =>
      refine ⟨form, rfl, hform, hp.extend (hp.tree.ne_nil rfl)
        (Span.start_ofTokens_append (hu.ne_nil hne)) ?_⟩
      rw [List.reverse_cons]
      exact hu.inter hne hp.tree

theorem Opens.complete_union {start : Nat} {before : List TypeExpr} {p : Part TypeExpr}
    (h : Opens o (.union start before) goal u) (hp : p.Reads (DerivesType .interType) v) :
    goal = .type .whole ∧ (p.extend start fun span last => .union span (last :: before).reverse).Reads
      (DerivesType .type) (u ++ v) := by
  cases h with
  | union hu hne =>
      refine ⟨rfl, hp.extend (hp.tree.ne_nil rfl) (Span.start_ofTokens_append (hu.ne_nil hne)) ?_⟩
      rw [List.reverse_cons]
      exact .union (hu.union hne hp.tree)

theorem Opens.complete_result {start : Nat} {params : List Signature} {p : Part TypeExpr}
    (h : Opens o (.result start params) goal u) (hp : p.Reads (DerivesType .type) v) :
    goal = .type .whole ∧ (p.extend start (.function · params ·)).Reads (DerivesType .type) (u ++ v) := by
  cases h with
  | @result params u a howner hclosed ha =>
      obtain @⟨_, l, m, w, before, hl, hw, hm⟩ := hclosed
      cases howner
      have hall : l :: (w ++ [m]) ++ [a] ++ v = l :: (w ++ m :: a :: v) := by simp
      refine ⟨rfl, hp.extend (hp.tree.ne_nil rfl) rfl ?_⟩
      rw [hall]
      exact .function (.arrow hl hw hm ha hp.tree)

end

end Parser

end Structura
