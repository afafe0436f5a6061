import Structura.Program
import Structura.Proofs.NumberText

namespace Structura

namespace Text

def Broken (text : String) : Prop := '\n' ∈ text.toList

instance : DecidablePred Broken := fun text => inferInstanceAs (Decidable ('\n' ∈ text.toList))

def SomeBroken (texts : List String) : Prop := ∃ text ∈ texts, Broken text

def rows (text : String) : List String := (text.toList.splitOn '\n').map String.ofList

variable {a b : String} {xs ys : List String}

theorem broken_append : Broken (a ++ b) ↔ Broken a ∨ Broken b := by
  rw [Broken, String.toList_append, List.mem_append]
  rfl

theorem broken_after (ha : ¬Broken a) : Broken (a ++ b) ↔ Broken b := by
  rw [broken_append, or_iff_right ha]

theorem broken_before (hb : ¬Broken b) : Broken (a ++ b) ↔ Broken a := by
  rw [broken_append, or_iff_left hb]

theorem someBroken_cons : SomeBroken (a :: xs) ↔ Broken a ∨ SomeBroken xs := by simp [SomeBroken]

theorem someBroken_append : SomeBroken (xs ++ ys) ↔ SomeBroken xs ∨ SomeBroken ys := by
  simp [SomeBroken, or_and_right, exists_or]

theorem not_someBroken_nil : ¬SomeBroken [] := by simp [SomeBroken]

theorem someBroken_singleton : SomeBroken [a] ↔ Broken a := by simp [SomeBroken]

theorem not_someBroken : ¬SomeBroken xs ↔ ∀ x ∈ xs, ¬Broken x := by simp [SomeBroken]

theorem broken_intercalate (ha : ¬Broken a) : Broken (a.intercalate xs) ↔ SomeBroken xs := by
  induction xs with
  | nil =>
      rw [String.intercalate_nil]
      exact iff_of_false (by decide) not_someBroken_nil
  | cons x xs ih =>
      cases xs with
      | nil => rw [String.intercalate_singleton, someBroken_singleton]
      | cons y ys =>
          rw [String.intercalate_cons_cons, broken_append, broken_before ha, ih, someBroken_cons (a := x)]

theorem not_broken_of_isDigit {cs : List Char} (h : ∀ c ∈ cs, c.isDigit = true) :
    ¬Broken (String.ofList cs) := by
  intro hfeed
  rw [Broken, String.toList_ofList] at hfeed
  exact absurd (h '\n' hfeed) (by decide)

theorem not_broken_toString (n : Nat) : ¬Broken (toString n) := by
  rw [Nat.toString_eq_ofList_toDigits]
  exact not_broken_of_isDigit fun c hc => Decimal.isDigit_of_mem_toDigits hc

theorem rows_of_not_broken (h : ¬Broken a) : rows a = [a] := by
  rw [rows, List.splitOn_eq_singleton h, List.map_singleton, String.ofList_toList]

theorem one_le_length_rows (a : String) : 1 ≤ (rows a).length := by
  rw [rows, List.length_map]
  exact List.length_pos_iff.mpr (List.splitOn_ne_nil '\n' a.toList)

theorem length_rows_eq_one_iff : (rows a).length = 1 ↔ ¬Broken a := by
  refine ⟨fun h hfeed => ?_, fun h => by rw [rows_of_not_broken h]; rfl⟩
  obtain ⟨before, after, hsplit⟩ := List.append_of_mem hfeed
  have hbefore := List.length_pos_iff.mpr (List.splitOn_ne_nil '\n' before)
  have hafter := List.length_pos_iff.mpr (List.splitOn_ne_nil '\n' after)
  rw [rows, hsplit, List.splitOn_append_cons_self, List.length_map, List.length_append] at h
  omega

theorem rows_intercalate (h : xs ≠ []) : rows ("\n".intercalate xs) = xs.flatMap rows := by
  induction xs with
  | nil => exact absurd rfl h
  | cons x xs ih =>
      cases xs with
      | nil => simp
      | cons y ys =>
          have hfeed : (x ++ "\n" ++ "\n".intercalate (y :: ys)).toList =
              x.toList ++ '\n' :: ("\n".intercalate (y :: ys)).toList := by simp
          rw [List.flatMap_cons, ← ih (List.cons_ne_nil y ys), String.intercalate_cons_cons, rows, hfeed,
            List.splitOn_append_cons_self, List.map_append]
          rfl

/-- Texts have at least a row each, and one row each only if none of them is broken. -/
theorem length_flatMap_rows :
    xs.length ≤ (xs.flatMap rows).length ∧
      ((xs.flatMap rows).length = xs.length ↔ ¬SomeBroken xs) := by
  induction xs with
  | nil => exact ⟨Nat.le_refl 0, iff_of_true rfl not_someBroken_nil⟩
  | cons x xs ih =>
      have hx := one_le_length_rows x
      rw [List.flatMap_cons, List.length_append, List.length_cons, someBroken_cons, not_or, ← ih.2,
        ← length_rows_eq_one_iff]
      omega

theorem flatMap_rows (h : ¬SomeBroken xs) : xs.flatMap rows = xs := by
  induction xs with
  | nil => rfl
  | cons x xs ih =>
      obtain ⟨hx, hxs⟩ := not_or.mp (someBroken_cons.not.mp h)
      rw [List.flatMap_cons, rows_of_not_broken hx, ih hxs, List.singleton_append]

end Text

open Text

theorem Binary64.not_broken_render (n : Binary64) : ¬Broken n.render := by
  have hsign (negative : Bool) : ¬Broken (sign negative) := by cases negative <;> decide
  cases n with
  | nan => decide
  | infinity negative =>
      rw [render, broken_after (hsign negative)]
      decide
  | finite negative m =>
      rw [render, broken_after (hsign negative)]
      exact m.ofText?_render.1.lineFeed_notMem

theorem Primitive.not_broken_render (p : Primitive) : ¬Broken p.render := by cases p <;> decide

namespace Ty

mutual

def texts : Ty → List String
  | .literal (.string s) => [s]
  | .object properties => textsOfProperties properties
  | .function params result => textsAll params ++ result.texts
  | .union members => textsAll members
  | .inter members => textsAll members
  | _ => []

def textsAll : List Ty → List String
  | [] => []
  | t :: ts => t.texts ++ textsAll ts

def textsOfProperties : List (String × Ty) → List String
  | [] => []
  | (name, t) :: ps => name :: (t.texts ++ textsOfProperties ps)

end

theorem broken_parenthesize {needed : Bool} {text : String} :
    Broken (parenthesize needed text) ↔ Broken text := by
  rw [parenthesize]
  split
  · rw [broken_before (by decide), broken_after (by decide)]
  · rfl

mutual

/-- A type is shown on one line exactly when no text in it is broken. -/
theorem broken_render (t : Ty) : Broken t.render ↔ SomeBroken t.texts := by
  match t with
  | .never => exact iff_of_false (by decide) not_someBroken_nil
  | .unknown => exact iff_of_false (by decide) not_someBroken_nil
  | .prim p => exact iff_of_false p.not_broken_render not_someBroken_nil
  | .literal (.boolean b) => exact iff_of_false (by cases b <;> decide) not_someBroken_nil
  | .literal (.number n) => exact iff_of_false n.not_broken_render not_someBroken_nil
  | .literal (.string s) =>
      rw [render, Literal.render, broken_before (by decide), broken_after (by decide), texts,
        someBroken_singleton]
  | .object [] => exact iff_of_false (by decide) not_someBroken_nil
  | .object (p :: ps) =>
      rw [render, broken_before (by decide), broken_after (by decide), broken_intercalate (by decide),
        broken_renderProperties, texts]
  | .function params result =>
      rw [render, broken_append, broken_before (b := ") => ") (by decide), broken_after (by decide),
        broken_intercalate (by decide), broken_renderAll, broken_render result, texts, someBroken_append]
  | .union members => rw [render, broken_intercalate (by decide), broken_renderBranches, texts]
  | .inter members => rw [render, broken_intercalate (by decide), broken_renderFactors, texts]

theorem broken_renderAll (ts : List Ty) :
    SomeBroken (renderAll ts) ↔ SomeBroken (textsAll ts) := by
  match ts with
  | [] => rfl
  | t :: ts =>
      rw [renderAll, textsAll, someBroken_cons, someBroken_append, broken_render t,
        broken_renderAll ts]

theorem broken_renderBranches (ts : List Ty) :
    SomeBroken (renderBranches ts) ↔ SomeBroken (textsAll ts) := by
  match ts with
  | [] => rfl
  | t :: ts =>
      rw [renderBranches, textsAll, someBroken_cons, someBroken_append, broken_parenthesize,
        broken_render t, broken_renderBranches ts]

theorem broken_renderFactors (ts : List Ty) :
    SomeBroken (renderFactors ts) ↔ SomeBroken (textsAll ts) := by
  match ts with
  | [] => rfl
  | t :: ts =>
      rw [renderFactors, textsAll, someBroken_cons, someBroken_append, broken_parenthesize,
        broken_render t, broken_renderFactors ts]

theorem broken_renderProperties (ps : List (String × Ty)) :
    SomeBroken (renderProperties ps) ↔ SomeBroken (textsOfProperties ps) := by
  match ps with
  | [] => rfl
  | (name, t) :: ps =>
      rw [renderProperties, textsOfProperties, someBroken_cons, someBroken_cons,
        someBroken_append, broken_append, broken_before (b := ": ") (by decide), broken_render t,
        broken_renderProperties ps, or_assoc]

end

end Ty

theorem Terminal.not_broken_label (t : Terminal) : ¬Broken t.label := by
  cases t <;> simp [Broken, label, spelling?]

namespace Fault

def texts : Fault → List String
  | .unexpectedToken text => [text]
  | .unbound name | .duplicateProperty name | .noSuchProperty name | .untypedParam name
  | .missingProperty name | .extraProperty name | .untypedSignature name => [name]
  | .mismatch expected actual => expected.texts ++ actual.texts
  | .reported _ message => [message]
  | _ => []

theorem broken_message (f : Fault) : Broken f.message ↔ SomeBroken f.texts := by
  have hdigits (n : Nat) : '\n' ∉ Nat.toDigits 10 n :=
    fun hfeed => absurd (Decimal.isDigit_of_mem_toDigits hfeed) (by decide)
  cases f with
  | unexpectedEnd expected =>
      have hexpected : ¬SomeBroken (expected.map Terminal.label) := by
        simp [SomeBroken, Terminal.not_broken_label]
      have hmessage : (unexpectedEnd expected).message =
          "unrecognized eof, expected one of " ++ ", ".intercalate (expected.map Terminal.label) := by
        simp [message]
      rw [hmessage, broken_after (by decide), broken_intercalate (by decide)]
      exact iff_of_false hexpected not_someBroken_nil
  | mismatch expected actual =>
      have hrender (t : Ty) : '\n' ∈ t.render.toList ↔ SomeBroken t.texts := t.broken_render
      simp [Broken, message, texts, hrender, someBroken_append]
  | _ => simp [Broken, message, texts, hdigits, someBroken_singleton, not_someBroken_nil]

end Fault

theorem Point.not_broken_render (p : Point) : ¬Broken p.render := by
  rw [render, broken_before (not_broken_toString _), broken_after (not_broken_toString _)]
  decide

theorem Region.not_broken_render (r : Region) : ¬Broken r.render := by
  rw [render]
  split
  · exact r.start.not_broken_render
  · rw [broken_before r.stop.not_broken_render, broken_after r.start.not_broken_render]
    decide

theorem Diagnostic.broken_summary (code : String) (d : Diagnostic) :
    Broken (d.summary code) ↔ SomeBroken d.fault.texts := by
  have hkind : ¬Broken d.kind.render := by cases d.kind <;> decide
  have htext : Broken (d.kind.render ++ ": " ++ d.message) ↔ SomeBroken d.fault.texts := by
    rw [String.append_assoc, broken_after hkind, broken_after (by decide), message, Fault.broken_message]
  rw [summary]
  split
  · rename_i place hplace
    have hplace : ¬Broken place := by
      rw [place?, Option.map_eq_some_iff] at hplace
      obtain ⟨s, -, rfl⟩ := hplace
      exact (s.locate code).not_broken_render
    rw [String.append_assoc, broken_after hplace, broken_after (by decide), htext]
  · exact htext

def Finding.texts : Finding → List String
  | .binding name t => name :: t.texts
  | .value t => t.texts

theorem Finding.broken_render (f : Finding) : Broken f.render ↔ SomeBroken f.texts := by
  cases f with
  | binding name t =>
      rw [render, broken_append, broken_before (b := ": ") (by decide), Ty.broken_render, texts,
        someBroken_cons]
  | value t => exact t.broken_render

def Verdict.texts (v : Verdict) : List String :=
  match v.outcome.result with
  | .ok finding => finding.texts
  | .error d => d.fault.texts

theorem Verdict.broken_render (code : String) (v : Verdict) :
    Broken (v.render code) ↔ SomeBroken v.texts := by
  unfold render texts
  cases v.outcome.result with
  | ok finding => exact finding.broken_render
  | error d => exact Diagnostic.broken_summary code _

end Structura
