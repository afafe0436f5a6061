namespace Structura

structure FileName where
  stem : String
  ext : String
deriving DecidableEq, Repr, Inhabited

namespace FileName

def pieces (separator : Char) : List Char → List (List Char)
  | [] => [[]]
  | c :: cs =>
      let rest := pieces separator cs
      if c = separator then [] :: rest
      else
        match rest with
        | [] => [[c]]
        | piece :: more => (c :: piece) :: more

/-- The last component of a path. Empty components and components that stay in place do not count,
and a path that ends by going up has none. -/
def lastComponent? (path : String) : Option (List Char) :=
  match ((pieces '/' path.toList).filter fun p => p ≠ [] ∧ p ≠ ['.']).getLast? with
  | some name => if name = ['.', '.'] then none else some name
  | none => none

/-- Splits a name at its last dot. Without a dot everything is extension. -/
def split (name : List Char) : FileName :=
  let ext := (name.reverse.takeWhile (· ≠ '.')).reverse
  ⟨String.ofList (name.take (name.length - ext.length - 1)), String.ofList ext⟩

def ofPath (path : String) : FileName := split ((lastComponent? path).getD [])

end FileName

end Structura
