import Structura.Number.Decimal

namespace Structura

namespace Number

def splitSign : List Char → Bool × List Char
  | '-' :: rest => (true, rest)
  | '+' :: rest => (false, rest)
  | cs => (false, cs)

def exponent? : List Char → Option Int
  | [] => some 0
  | c :: rest =>
      if c = 'e' ∨ c = 'E' then
        let (negative, digits) := splitSign rest
        if digits ≠ [] ∧ digits.all Char.isDigit then
          let n : Int := Decimal.natOfDigits digits
          some (if negative then -n else n)
        else none
      else none

def decimal? (cs : List Char) : Option Decimal :=
  let whole := cs.takeWhile Char.isDigit
  let rest := cs.dropWhile Char.isDigit
  let (fraction, tail) := match rest with
    | '.' :: more => (more.takeWhile Char.isDigit, more.dropWhile Char.isDigit)
    | _ => ([], rest)
  if whole = [] ∧ fraction = [] then none
  else
    (exponent? tail).map fun e =>
      let d := Decimal.ofDigits whole fraction
      -- Farther than this from the digits the exponent no longer changes the double.
      let reach : Int := (whole.length + fraction.length + 400 : Nat)
      ⟨d.coefficient, d.exponent + max (-reach) (min reach e)⟩

end Number

def Binary64.ofText? (text : String) : Option Binary64 :=
  let (negative, body) := Number.splitSign text.toList
  let word := String.ofList (body.map Char.toLower)
  if word = "inf" ∨ word = "infinity" then some (.infinity negative)
  else if word = "nan" then some .nan
  else (Number.decimal? body).map (ofDecimal negative)

end Structura
