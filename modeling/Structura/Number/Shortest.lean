import Structura.Number.Decimal

namespace Structura

namespace Magnitude

def place (m : Magnitude) : Int :=
  if one ≤ m.units then (Nat.toDigits 10 (m.units / one)).length
  else 1 - ((Nat.toDigits 10 ((one - 1) / m.units)).length : Int)

def scaled (m : Magnitude) (step : Int) : Nat × Nat :=
  if step ≥ 0 then (m.units, one * Nat.pow 10 step.toNat)
  else (m.units * Nat.pow 10 (-step).toNat, one)

def readsBack (m : Magnitude) (d : Decimal) : Bool :=
  Binary64.ofDecimal false d == .finite false m

/-- The nearer of the two neighbours with `digits` digits that read back, the upper one when both
are equally near. -/
def withDigits? (m : Magnitude) (digits : Nat) : Option Decimal :=
  let step := m.place - digits
  let (num, den) := m.scaled step
  let lower : Decimal := ⟨num / den, step⟩
  let upper : Decimal := ⟨num / den + 1, step⟩
  match m.readsBack lower, m.readsBack upper with
  | true, true => if 2 * (num % den) < den then some lower else some upper
  | true, false => some lower
  | false, true => some upper
  | false, false => none

def exact (m : Magnitude) : Decimal :=
  ⟨m.units * Nat.pow 5 Number.unitPlaces, -(Number.unitPlaces : Int)⟩

def shortest (m : Magnitude) : Decimal :=
  (((List.range 17).findSome? fun i => m.withDigits? (i + 1)).getD m.exact).reduce

def render (m : Magnitude) : String :=
  if m.units = 0 then "0" else m.shortest.render

end Magnitude

namespace Binary64

def sign (negative : Bool) : String := if negative then "-" else ""

def render : Binary64 → String
  | .nan => "NaN"
  | .infinity s => sign s ++ "inf"
  | .finite s m => sign s ++ m.render

end Binary64

end Structura
