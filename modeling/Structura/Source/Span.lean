import Structura.Text.Lines

/-!
Places in a source text. A `Span` holds byte offsets into the UTF-8 text; a `Point` holds a line
and a column, both counted from zero and both in bytes.
-/

namespace Structura

structure Span where
  start : Nat
  stop : Nat
deriving DecidableEq, Repr, Inhabited

structure Point where
  line : Nat
  column : Nat
deriving DecidableEq, Repr, Inhabited

structure Region where
  start : Point
  stop : Point
deriving DecidableEq, Repr, Inhabited

namespace Span

def ofOffset (offset : Nat) : Span := ⟨offset, offset⟩

def cover (a b : Span) : Span := ⟨min a.start b.start, max a.stop b.stop⟩

end Span

namespace Point

/-- Finds an offset among lines that start at line `line`. Every line takes its own bytes and one
more for its break; an offset beyond the last line falls back to the origin. -/
def find (line : Nat) : List String → Nat → Point
  | [], _ => ⟨0, 0⟩
  | text :: rest, offset =>
      if offset < text.utf8ByteSize + 1 then ⟨line, offset⟩
      else find (line + 1) rest (offset - (text.utf8ByteSize + 1))

def ofOffset (code : String) (offset : Nat) : Point := find 0 (Text.lines code) offset

/-- People count lines and columns from one. -/
def render (p : Point) : String := toString (p.line + 1) ++ ":" ++ toString (p.column + 1)

end Point

namespace Region

def render (r : Region) : String :=
  if r.start = r.stop then r.start.render else r.start.render ++ "~" ++ r.stop.render

end Region

def Span.locate (code : String) (s : Span) : Region :=
  ⟨Point.ofOffset code s.start, Point.ofOffset code s.stop⟩

end Structura
