import Structura.Number.Rounding

/-!
Double precision numbers, held exactly. A finite number is a sign and a whole number of units, one
unit being the smallest positive number `2 ^ (-1074)`; of the units only 53 leading bits may carry
information, and the number stays below `2 ^ 1024`.
-/

namespace Structura

@[irreducible] def Number.unitPlaces : Nat := 1074

@[irreducible] def Number.largePlaces : Nat := 1024

def Number.limit : Nat := Nat.pow 2 (largePlaces + unitPlaces)

theorem Number.limit_pos : 0 < limit := Nat.two_pow_pos _

/-- The size of a finite number, in units of `2 ^ (-1074)`. -/
structure Magnitude where
  units : Nat
  short : Number.Short units
  bounded : units < Number.limit
deriving DecidableEq

inductive Binary64 where
  | nan
  | infinity (negative : Bool)
  | finite (negative : Bool) (size : Magnitude)
deriving DecidableEq

namespace Magnitude

def zero : Magnitude := ⟨0, by decide, Number.limit_pos⟩

def one : Nat := Nat.pow 2 Number.unitPlaces

def round? (num den : Nat) : Option Magnitude :=
  let units := Number.roundShort num den
  if h : units < Number.limit then some ⟨units, Number.short_roundShort num den, h⟩ else none

end Magnitude

namespace Binary64

instance : Inhabited Binary64 := ⟨.finite false .zero⟩

def ofQuotient (negative : Bool) (num den : Nat) : Binary64 :=
  match Magnitude.round? num den with
  | some size => .finite negative size
  | none => .infinity negative

def signed (negative : Bool) (size : Magnitude) : Int :=
  if negative then -(size.units : Int) else size.units

/-- The sum, rounded once. A sum of zero is negative only when both operands are. -/
def add : Binary64 → Binary64 → Binary64
  | .nan, _ => .nan
  | _, .nan => .nan
  | .infinity s, .infinity t => if s = t then .infinity s else .nan
  | .infinity s, .finite _ _ => .infinity s
  | .finite _ _, .infinity t => .infinity t
  | .finite s a, .finite t b =>
      let sum := signed s a + signed t b
      if sum = 0 then .finite (s && t) .zero
      else ofQuotient (decide (sum < 0)) sum.natAbs 1

instance : Add Binary64 := ⟨add⟩

def isNaN : Binary64 → Bool
  | .nan => true
  | _ => false

def isZero : Binary64 → Bool
  | .finite _ size => size.units == 0
  | _ => false

/-- Numeric equality: the two zeros are equal and `nan` differs from itself. -/
def numericEq : Binary64 → Binary64 → Bool
  | .infinity s, .infinity t => s == t
  | .finite s a, .finite t b => a.units == b.units && (s == t || a.units == 0)
  | _, _ => false

end Binary64

end Structura
