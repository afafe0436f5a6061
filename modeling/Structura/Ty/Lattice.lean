import Structura.Ty.Disjoint
import Structura.Ty.Subtype

namespace Structura.Ty

/-- Drops every member that another one covers. Of members that cover each other the first stays. -/
def uncovered {α : Type} (covers : α → α → Bool) (xs : List α) : List α :=
  let numbered := xs.zipIdx
  (numbered.filter fun (x, i) =>
    numbered.all fun (y, j) => i == j || !covers y x || (covers x y && i < j)).map Prod.fst

def mostGeneral (ts : List Ty) : List Ty := uncovered (fun u t => isSubtype t u) ts

def mostSpecific (ts : List Ty) : List Ty := uncovered isSubtype ts

def join (ts : List Ty) : Ty :=
  match mostGeneral (ts.flatMap branches) with
  | [] => .never
  | [t] => t
  | members => .union members

def somePair {α : Type} (related : α → α → Bool) : List α → Bool
  | [] => false
  | x :: xs => xs.any (related x) || somePair related xs

def meetConcrete (ts : List Ty) : Ty :=
  let ts := ts.flatMap factors
  if somePair disjoint ts then .never
  else
    match mostSpecific ts with
    | [] => .unknown
    | [t] => t
    | members => .inter members

/-- All ways of taking one element of every list, the last list running fastest. -/
def choices {α : Type} : List (List α) → List (List α)
  | [] => [[]]
  | xs :: rest =>
      let tails := choices rest
      xs.flatMap fun x => tails.map (x :: ·)

def meet (ts : List Ty) : Ty :=
  match ts.flatMap factors with
  | [] => .unknown
  | ts => join ((choices (ts.map branches)).map meetConcrete)

def largestCount : Nat := Nat.pow 2 64 - 1

def distributionSize (ts : List Ty) : Nat :=
  ((ts.flatMap factors).map fun t => t.branches.length).foldl
    (fun size n => min (size * n) largestCount) 1

end Structura.Ty
