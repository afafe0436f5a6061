namespace Structura

def firstRepeat? {α : Type} (name : α → String) (seen : List String) : List α → Option α
  | [] => none
  | x :: xs =>
      if seen.contains (name x) then some x else firstRepeat? name (name x :: seen) xs

end Structura
