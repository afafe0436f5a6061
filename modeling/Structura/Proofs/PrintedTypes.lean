import Structura.Judgment.Convert
import Structura.Proofs.NumberText
import Structura.Proofs.ParserExact
import Structura.Proofs.PrintedText
import Structura.Proofs.Successes

namespace Structura

def Literal.Readable : Literal → Prop
  | .boolean _ => True
  | .number n => ∃ size, n = .finite false size
  | .string s => '\x27' ∉ s.toList

namespace Ty

/-- Types without functions, with names for properties and with literals that can be read. -/
inductive Readable : Ty → Prop
  | never : Readable .never
  | unknown : Readable .unknown
  | prim (p : Primitive) : Readable (.prim p)
  | literal {v : Literal} (value : v.Readable) : Readable (.literal v)
  | object {ps : List (String × Ty)} (names : ∀ p ∈ ps, Lexer.IsName p.1)
      (types : ∀ p ∈ ps, Readable p.2) : Readable (.object ps)
  | union {ts : List Ty} (members : ∀ t ∈ ts, Readable t) : Readable (.union ts)
  | inter {ts : List Ty} (members : ∀ t ∈ ts, Readable t) : Readable (.inter ts)

mutual

def height : Ty → Nat
  | .object ps => heightOfProperties ps + 1
  | .function params result => max (heightOfAll params) result.height + 1
  | .union members => heightOfAll members + 1
  | .inter members => heightOfAll members + 1
  | _ => 1

def heightOfAll : List Ty → Nat
  | [] => 0
  | t :: ts => max t.height (heightOfAll ts)

def heightOfProperties : List (String × Ty) → Nat
  | [] => 0
  | (_, t) :: ps => max t.height (heightOfProperties ps)

end

end Ty

/-- Where there is room for the height of the type, the annotation is converted to it. -/
def TypeExpr.Converts (e : TypeExpr) (t : Ty) : Prop :=
  ∀ cx : Context, cx.depth + t.height ≤ cx.settings.maxDepth → 1 ≤ cx.settings.maxBranches →
    (e.convert cx).result = .ok t

def Signature.Converts (m : Signature) (p : String × Ty) : Prop :=
  ∃ name e, m = .typed name e ∧ name.text = p.1 ∧ e.Converts p.2

namespace TypeExpr

open Traced Context

theorem convertAll_eq_ok {es : List TypeExpr} {ts : List Ty} (h : List.Forall₂ Converts es ts)
    {cx : Context} (hdepth : cx.depth + Ty.heightOfAll ts ≤ cx.settings.maxDepth)
    (hbranches : 1 ≤ cx.settings.maxBranches) : (convertAll es cx).result = .ok ts := by
  induction h with
  | nil => rfl
  | @cons e t es ts he _ ih =>
      rw [Ty.heightOfAll] at hdepth
      rw [convertAll, bind_eq_ok]
      refine ⟨t, he cx (by omega) hbranches, ?_⟩
      rw [bind_eq_ok]
      exact ⟨ts, ih (by omega), rfl⟩

theorem convertMembers_eq_ok {ms : List Signature} {ps : List (String × Ty)}
    (h : List.Forall₂ Signature.Converts ms ps) (hnames : (ps.map Prod.fst).Nodup) {cx : Context}
    (hdepth : cx.depth + Ty.heightOfProperties ps ≤ cx.settings.maxDepth)
    (hbranches : 1 ≤ cx.settings.maxBranches) {seen : List String} (hseen : ∀ p ∈ ps, p.1 ∉ seen) :
    (Signature.convertMembers ms cx seen).result = .ok ps := by
  induction h generalizing seen with
  | nil => rfl
  | @cons m p ms ps hm _ ih =>
      obtain ⟨name, e, rfl, hname, he⟩ := hm
      obtain ⟨hfresh, hnames⟩ := List.nodup_cons.mp hnames
      rw [Ty.heightOfProperties] at hdepth
      rw [Signature.convertMembers, hname, if_neg (by simpa using hseen p List.mem_cons_self), bind_eq_ok]
      refine ⟨p.2, he cx (by omega) hbranches, ?_⟩
      rw [bind_eq_ok]
      refine ⟨ps, ih hnames (by omega) ?_, rfl⟩
      intro q hq
      rw [List.mem_cons, not_or]
      refine ⟨?_, hseen q (List.mem_cons_of_mem p hq)⟩
      intro heq
      exact hfresh (heq ▸ List.mem_map_of_mem hq)

variable {span : Span}

/-- An annotation without parts needs one level. -/
theorem converts_leaf {e : TypeExpr} {t : Ty} (hheight : t.height = 1)
    (h : ∀ cx : Context, e.convert cx = cx.judge e.span .convert (.typeExpr e) .type fun _ => pure t) :
    e.Converts t := by
  intro cx hdepth _
  rw [hheight] at hdepth
  rw [h cx, judge_eq_ok]
  exact ⟨hdepth, rfl⟩

theorem converts_prim (p : Primitive) : (TypeExpr.prim span p).Converts (.prim p) :=
  converts_leaf rfl fun cx => by rw [convert]

theorem converts_unknown : (TypeExpr.unknown span).Converts .unknown :=
  converts_leaf rfl fun cx => by rw [convert]

theorem converts_never : (TypeExpr.never span).Converts .never :=
  converts_leaf rfl fun cx => by rw [convert]

theorem converts_literal (v : Literal) : (TypeExpr.literal span v).Converts (.literal v) :=
  converts_leaf rfl fun cx => by rw [convert]

theorem converts_object {ms : List Signature} {ps : List (String × Ty)}
    (h : List.Forall₂ Signature.Converts ms ps) (hnames : (ps.map Prod.fst).Nodup) :
    (TypeExpr.object span ms).Converts (.object ps) := by
  intro cx hdepth hbranches
  rw [Ty.height] at hdepth
  rw [convert, judge_eq_ok]
  refine ⟨by omega, ?_⟩
  rw [bind_eq_ok]
  refine ⟨ps, convertMembers_eq_ok h hnames ?_ ?_ ?_, congrArg result (object_eq_pure hnames)⟩
  · simp only
    omega
  · exact hbranches
  · intro p _
    exact List.not_mem_nil

theorem converts_union {es : List TypeExpr} {ts : List Ty} (h : List.Forall₂ Converts es ts)
    (hcanonical : Ty.Canonical (.union ts)) : (TypeExpr.union span es).Converts (.union ts) := by
  intro cx hdepth hbranches
  rw [Ty.height] at hdepth
  rw [convert, judge_eq_ok]
  refine ⟨by omega, ?_⟩
  rw [map_eq_ok]
  exact ⟨ts, convertAll_eq_ok h (by simp only; omega) hbranches, Ty.join_eq_union hcanonical⟩

/-- Members that are no unions leave one choice. -/
theorem distributionSize_of_canonical {ts : List Ty} (h : Ty.Canonical (.inter ts)) :
    Ty.distributionSize ts = 1 := by
  have hbasic := h.not_isInter_isUnion
  have hone : ∀ n ∈ ts.map fun t => t.branches.length, n = 1 := by
    intro n hn
    obtain ⟨t, ht, rfl⟩ := List.mem_map.mp hn
    rw [Ty.branches_of_not_isUnion (hbasic t ht).2]
    rfl
  rw [Ty.distributionSize, Ty.flatMap_factors fun t ht => (hbasic t ht).1]
  generalize ts.map (fun t => t.branches.length) = ns at hone
  induction ns with
  | nil => rfl
  | cons n ns ih =>
      obtain rfl := hone n List.mem_cons_self
      exact ih fun m hm => hone m (List.mem_cons_of_mem _ hm)

theorem converts_inter {es : List TypeExpr} {ts : List Ty} (h : List.Forall₂ Converts es ts)
    (hcanonical : Ty.Canonical (.inter ts)) : (TypeExpr.inter span es).Converts (.inter ts) := by
  intro cx hdepth hbranches
  rw [Ty.height] at hdepth
  rw [convert, judge_eq_ok]
  refine ⟨by omega, ?_⟩
  rw [bind_eq_ok]
  refine ⟨ts, convertAll_eq_ok h (by simp only; omega) hbranches, ?_⟩
  rw [counted_eq_ok, distributionSize_of_canonical hcanonical, Ty.meet_eq_inter hcanonical]
  exact ⟨hbranches, rfl⟩

end TypeExpr

namespace Ty

open Lexer Grammar

def Derives : Ty → List Token → TypeExpr → Prop
  | .union _ => DerivesType .unionType
  | .inter _ => DerivesType .interType
  | _ => DerivesType .primaryType

section

variable {t : Ty} {w : List Token} {e : TypeExpr}

theorem Derives.primary (h : t.Derives w e) (hunion : t.isUnion = false) (hinter : t.isInter = false) :
    DerivesType .primaryType w e := by
  cases t with
  | union => cases hunion
  | inter => cases hinter
  | _ => exact h

theorem Derives.inter (h : t.Derives w e) (hunion : t.isUnion = false) : DerivesType .interType w e := by
  cases t with
  | union => cases hunion
  | inter => exact h
  | _ => exact .primary h

theorem Derives.type (h : t.Derives w e) : DerivesType .type w e := by
  cases hunion : t.isUnion with
  | false => exact .union (.inter (h.inter hunion))
  | true =>
      cases t with
      | union => exact .union h
      | _ => cases hunion

end

def Prints (t : Ty) : Prop := ReadAs t.render.toList fun w => ∃ e, t.Derives w e ∧ e.Converts t

theorem prints_of_word {t : Ty} {terminal : Terminal} (hword : terminal.spelling? = some t.render)
    (h : ∀ token : Token, token.terminal = terminal → ∃ e, t.Derives [token] e ∧ e.Converts t) :
    t.Prints := by
  refine (ReadAs.spelled hword).imp ?_
  rintro w ⟨token, ht, rfl⟩
  exact h token ht

theorem prints_prim (p : Primitive) : (prim p).Prints := by
  cases p with
  | null => exact prints_of_word rfl fun token ht => ⟨_, DerivesType.null ht, TypeExpr.converts_prim _⟩
  | boolean => exact prints_of_word rfl fun token ht => ⟨_, DerivesType.boolean ht, TypeExpr.converts_prim _⟩
  | number => exact prints_of_word rfl fun token ht => ⟨_, DerivesType.number ht, TypeExpr.converts_prim _⟩
  | string => exact prints_of_word rfl fun token ht => ⟨_, DerivesType.string ht, TypeExpr.converts_prim _⟩

/-- The text of a literal is one token that stands for it. -/
theorem readAs_literal {v : Literal} (h : v.Readable) :
    ReadAs v.render.toList fun w => ∃ token : Token, token.Denotes v ∧ w = [token] := by
  cases v with
  | boolean b =>
      cases b with
      | false =>
          refine (ReadAs.spelled (t := .falseWord) rfl).imp ?_
          rintro w ⟨token, ht, rfl⟩
          exact ⟨token, .falseWord ht, rfl⟩
      | true =>
          refine (ReadAs.spelled (t := .trueWord) rfl).imp ?_
          rintro w ⟨token, ht, rfl⟩
          exact ⟨token, .trueWord ht, rfl⟩
  | number n =>
      obtain ⟨size, rfl⟩ := h
      have hrender : (Literal.number (.finite false size)).render = size.render := String.empty_append
      obtain ⟨hnumber, hvalue⟩ := size.ofText?_render
      rw [hrender]
      refine (ReadAs.token (t := .number) (.number hnumber) (by simp)).imp ?_
      rintro w ⟨token, ht, htext, rfl⟩
      exact ⟨token, .number ht (htext ▸ hnumber) (htext ▸ hvalue), rfl⟩
  | string s =>
      have hrender : (Literal.string s).render.toList = '\x27' :: (s.toList ++ ['\x27']) := by
        simp [Literal.render]
      have hpattern : Pattern (some .singleQuoted) (Literal.string s).render.toList := by
        rw [hrender]
        exact .singleQuoted fun c hc heq => h (heq ▸ hc)
      refine (ReadAs.token hpattern (by simp)).imp ?_
      rintro w ⟨token, ht, htext, rfl⟩
      exact ⟨token, .singleQuoted ht htext, rfl⟩

theorem prints_literal {v : Literal} (h : v.Readable) : (literal v).Prints := by
  refine (readAs_literal h).imp ?_
  rintro w ⟨token, hdenotes, rfl⟩
  exact ⟨_, DerivesType.literal hdenotes, TypeExpr.converts_literal v⟩

theorem readAs_property {name : String} {t : Ty} (hname : IsName name) (ht : t.Prints) :
    ReadAs (name ++ ": " ++ t.render).toList
      fun w => ∃ m, DerivesType .signature w m ∧ m.Converts (name, t) := by
  refine (ReadAs.labelled hname ht).imp ?_
  rintro w ⟨n, c, v, rfl, hn, hntext, hc, e, he, hconverts⟩
  exact ⟨.typed n.name e, .typed hn hc he.type, n.name, e, rfl, hntext, hconverts⟩

theorem renderProperties_eq (ps : List (String × Ty)) :
    renderProperties ps = ps.map fun p => p.1 ++ ": " ++ p.2.render := by
  induction ps with
  | nil => rfl
  | cons p ps ih => rw [renderProperties, ih, List.map_cons]

theorem readAs_members {ps : List (String × Ty)} (hne : ps ≠ [])
    (h : ∀ p ∈ ps, IsName p.1 ∧ p.2.Prints) :
    ReadAs (", ".intercalate (renderProperties ps)).toList
      fun w => ∃ ms, DerivesType .members w ms ∧ List.Forall₂ Signature.Converts ms ps := by
  rw [renderProperties_eq]
  refine (ReadAs.listed glues_comma hne fun p hp => readAs_property (h p hp).1 (h p hp).2).imp ?_
  intro w hw
  obtain ⟨ms, hms, hall⟩ := hw.choose
  exact ⟨ms, members_of_series (.inr hms) (.inr rfl), hall⟩

theorem prints_object {ps : List (String × Ty)} (hnames : (ps.map Prod.fst).Nodup)
    (h : ∀ p ∈ ps, IsName p.1 ∧ p.2.Prints) : (object ps).Prints := by
  cases ps with
  | nil =>
      have hopen := ReadAs.spelled (t := .openBrace) rfl
      have hclose := ReadAs.spelled (t := .closeBrace) rfl
      refine (hopen.append hclose fun rest => separated_cons (by decide)).imp ?_
      rintro w ⟨_, _, rfl, ⟨l, hl, rfl⟩, r, hr, rfl⟩
      exact ⟨_, DerivesType.object hl .noMembers hr, TypeExpr.converts_object .nil hnames⟩
  | cons p ps =>
      rw [Prints, render]
      refine (readAs_members (List.cons_ne_nil p ps) h).braced.imp ?_
      rintro w ⟨l, u, r, rfl, hl, ⟨ms, hms, hall⟩, hr⟩
      exact ⟨_, DerivesType.object hl hms hr, TypeExpr.converts_object hall hnames⟩

theorem renderBranches_eq {ts : List Ty} (h : ∀ t ∈ ts, t.isFunction = false) :
    renderBranches ts = ts.map render := by
  induction ts with
  | nil => rfl
  | cons t ts ih =>
      rw [renderBranches, h t List.mem_cons_self, ih fun t ht => h t (List.mem_cons_of_mem _ ht)]
      rfl

theorem renderFactors_eq {ts : List Ty} (h : ∀ t ∈ ts, t.isFunction = false ∧ t.isUnion = false) :
    renderFactors ts = ts.map render := by
  induction ts with
  | nil => rfl
  | cons t ts ih =>
      obtain ⟨hfunction, hunion⟩ := h t List.mem_cons_self
      rw [renderFactors, hfunction, hunion, ih fun t ht => h t (List.mem_cons_of_mem _ ht)]
      rfl

theorem Readable.not_isFunction {t : Ty} (h : t.Readable) : t.isFunction = false := by
  cases h <;> rfl

theorem prints_union {ts : List Ty} (hcanonical : Canonical (.union ts))
    (hfunction : ∀ t ∈ ts, t.isFunction = false) (h : ∀ t ∈ ts, t.Prints) : (union ts).Prints := by
  have htwo : 2 ≤ ts.length := by
    cases hcanonical with
    | union two => exact two
  have hmembers : ∀ t ∈ ts, ReadAs t.render.toList
      fun w => ∃ e, DerivesType .interType w e ∧ e.Converts t := by
    intro t ht
    refine (h t ht).imp ?_
    rintro w ⟨e, he, hconverts⟩
    exact ⟨e, he.inter (hcanonical.of_mem_branches ht).2, hconverts⟩
  have hall := ReadAs.signed signed_alternatives glues_bar htwo hmembers
  rw [Prints, render, renderBranches_eq hfunction]
  refine hall.imp ?_
  rintro w ⟨u, v, e, es, rfl, he, hes, hall⟩
  exact ⟨_, DerivesType.alternatives he hes, TypeExpr.converts_union hall hcanonical⟩

theorem prints_inter {ts : List Ty} (hcanonical : Canonical (.inter ts))
    (hfunction : ∀ t ∈ ts, t.isFunction = false) (h : ∀ t ∈ ts, t.Prints) : (inter ts).Prints := by
  have htwo : 2 ≤ ts.length := by
    cases hcanonical with
    | inter two => exact two
  have hbasic : ∀ t ∈ ts, t.isInter = false ∧ t.isUnion = false := hcanonical.not_isInter_isUnion
  have hmembers : ∀ t ∈ ts, ReadAs t.render.toList
      fun w => ∃ e, DerivesType .primaryType w e ∧ e.Converts t := by
    intro t ht
    refine (h t ht).imp ?_
    rintro w ⟨e, he, hconverts⟩
    exact ⟨e, he.primary (hbasic t ht).2 (hbasic t ht).1, hconverts⟩
  have hall := ReadAs.signed signed_requirements glues_amp htwo hmembers
  rw [Prints, render, renderFactors_eq fun t ht => ⟨hfunction t ht, (hbasic t ht).2⟩]
  refine hall.imp ?_
  rintro w ⟨u, v, e, es, rfl, he, hes, hall⟩
  exact ⟨_, DerivesType.requirements he hes, TypeExpr.converts_inter hall hcanonical⟩

theorem prints_of_canonical {t : Ty} (hcanonical : Canonical t) (h : t.Readable) : t.Prints := by
  induction hcanonical with
  | never => exact prints_of_word rfl fun token ht => ⟨_, DerivesType.never ht, TypeExpr.converts_never⟩
  | unknown =>
      exact prints_of_word rfl fun token ht => ⟨_, DerivesType.unknown ht, TypeExpr.converts_unknown⟩
  | prim p => exact prints_prim p
  | literal v =>
      cases h with
      | literal hvalue => exact prints_literal hvalue
  | object names _ ih =>
      cases h with
      | object hnames htypes => exact prints_object names fun p hp => ⟨hnames p hp, ih p hp (htypes p hp)⟩
  | function => cases h
  | union two members alternatives apart ih =>
      cases h with
      | union hmembers =>
          exact prints_union (.union two members alternatives apart)
            (fun t ht => (hmembers t ht).not_isFunction) fun t ht => ih t ht (hmembers t ht)
  | inter two members alike apart compatible ih =>
      cases h with
      | inter hmembers =>
          exact prints_inter (.inter two members alike apart compatible)
            (fun t ht => (hmembers t ht).not_isFunction) fun t ht => ih t ht (hmembers t ht)

/-- The text of a reachable type is read as an annotation of it, which gives exactly that type when it is
converted with room for its height. -/
theorem parse_render_converts {t : Ty} (hreachable : Reachable t) (h : t.Readable) :
    ∃ e, TypeExpr.parse t.render = .ok e ∧
      ∀ cx : Context, cx.depth + t.height ≤ cx.settings.maxDepth → 1 ≤ cx.settings.maxBranches →
        (e.convert cx).result = .ok t := by
  have hprints := prints_of_canonical (reachable_iff_canonical.mp hreachable) h
  obtain ⟨tokens, o, hlexes, e, he, hconverts⟩ := hprints.lexes 0 [] separated_nil
  rw [List.append_nil] at hlexes
  exact ⟨e, Parser.parse_eq_ok_of_derives (s := .type) hlexes he.type, hconverts⟩

def assortedMembers : List Ty :=
  [.inter [.object [("x", .number)], .object [("y", .literal (.boolean true))]],
   .literal (.number (.finite false .zero)), .literal (.string "a \"//\" b"), .null]

def assorted : Ty := .object [("left", .union assortedMembers), ("$right", .object [])]

theorem parse_render_converts_assorted :
    Reachable assorted ∧ assorted.Readable ∧ ∃ e, TypeExpr.parse
        "\x7b left: \x7b x: number \x7d & \x7b y: true \x7d | 0 | 'a \"//\" b' | null, $right: \x7b\x7d \x7d" =
          .ok e ∧
      (e.convert (.top .empty ⟨.singleton, 5, 1⟩ e.span)).result = .ok assorted := by
  have hinter : Canonical (.inter [.object [("x", .number)], .object [("y", .literal (.boolean true))]]) := by
    refine .inter (by decide) ?_ (.inl (by decide)) ?_ ?_
    · simp only [List.forall_mem_cons]
      exact ⟨.object (by decide) (by simp [Canonical.prim]),
        .object (by decide) (by simp [Canonical.literal]), by simp⟩
    · unfold Apart
      decide +kernel
    · unfold Compatible
      decide +kernel
  have hunion : Canonical (.union assortedMembers) := by
    refine .union (by decide) ?_ (by decide) ?_
    · simp [assortedMembers, hinter, Canonical.literal, Canonical.prim]
    · unfold Apart
      decide +kernel
  have hempty : Canonical (.object []) := .object (by decide) (by simp)
  have hleft : IsName "left" := @isName_ofList 'l' ['e', 'f', 't'] (by decide) (by decide) (by decide)
  have hright : IsName "$right" :=
    @isName_ofList '$' ['r', 'i', 'g', 'h', 't'] (by decide) (by decide) (by decide)
  have hx : IsName "x" := @isName_ofList 'x' [] (by decide) (by decide) (by decide)
  have hy : IsName "y" := @isName_ofList 'y' [] (by decide) (by decide) (by decide)
  have hreadable : Readable (.union assortedMembers) := by
    have htrue : Literal.Readable (.boolean true) := trivial
    have hzero : Literal.Readable (.number (.finite false .zero)) := ⟨.zero, rfl⟩
    have hstring : Literal.Readable (.string "a \"//\" b") := by
      unfold Literal.Readable
      decide
    refine .union (List.forall_mem_cons.mpr ⟨.inter ?_, ?_⟩)
    · simp [Readable.object, Readable.prim, Readable.literal, hx, hy, htrue]
    · simp [Readable.literal, Readable.prim, hzero, hstring]
  have hreachable : Reachable assorted :=
    reachable_iff_canonical.mpr (.object (by decide) (by simp [hunion, hempty]))
  have hassorted : assorted.Readable :=
    .object (by simp [hleft, hright]) (by simp [hreadable, Readable.object])
  obtain ⟨e, hparse, hconvert⟩ := parse_render_converts hreachable hassorted
  exact ⟨hreachable, hassorted, e, hparse, hconvert _ (Nat.le_refl 5) (Nat.le_refl 1)⟩

end Ty

end Structura
