import Structura.Text.Blank
import Structura.Token

/-!
Splitting a text into tokens. The longest lexeme wins at every place, and a reserved word wins over
a name of the same letters. White space and comments, which run to the end of the line, separate
tokens and are dropped.
-/

namespace Structura

namespace Lexer

def isNameStart (c : Char) : Bool := c.isAlpha || c == '_' || c == '$'

def isNamePart (c : Char) : Bool := c.isAlphanum || c == '_' || c == '$'

def isLineEnd (c : Char) : Bool := c == '\n' || c == '\r'

def words : List Terminal :=
  [.asWord, .booleanWord, .declareWord, .falseWord, .letWord, .neverWord, .nullWord, .numberWord,
   .stringWord, .trueWord, .typeofWord, .unknownWord]

/-- Signs, with every sign in front of its own beginnings. -/
def signs : List Terminal :=
  [.notEqual, .ellipsis, .equal, .both, .arrow, .either, .not, .amp, .openParen, .closeParen, .plus,
   .comma, .dot, .colon, .semicolon, .assign, .openBracket, .closeBracket, .openBrace, .bar,
   .closeBrace]

def terminalOfName (name : List Char) : Terminal :=
  (words.find? fun t => t.spelling? == some (String.ofList name)).getD .identifier

/-- What stands at the front of a text: a token, or blank text that belongs to none, and how many
characters it has after the first. -/
structure Lexeme where
  terminal : Option Terminal
  more : Nat
deriving DecidableEq, Repr

def numberTail (cs : List Char) : Nat :=
  let whole := (cs.takeWhile Char.isDigit).length
  match cs.drop whole with
  | '.' :: d :: rest =>
      if d.isDigit then whole + 2 + (rest.takeWhile Char.isDigit).length else whole
  | _ => whole

def string? (terminal : Terminal) (quote : Char) (cs : List Char) : Option Lexeme :=
  let body := (cs.takeWhile (· != quote)).length
  if body < cs.length then some ⟨some terminal, body + 1⟩ else none

def sign? (cs : List Char) : Option Lexeme :=
  signs.findSome? fun t =>
    t.spelling?.bind fun word =>
      if word.toList.isPrefixOf cs then some ⟨some t, word.length - 1⟩ else none

def comment? (c : Char) (cs : List Char) : Option Lexeme :=
  if c = '/' ∧ cs.head? = some '/' then some ⟨none, (cs.takeWhile (!isLineEnd ·)).length⟩ else none

def lexeme? (c : Char) (cs : List Char) : Option Lexeme :=
  if Text.isBlank c then some ⟨none, 0⟩
  else if isNameStart c then
    let more := (cs.takeWhile isNamePart).length
    some ⟨some (terminalOfName (c :: cs.take more)), more⟩
  else if c.isDigit then some ⟨some .number, numberTail cs⟩
  else if c = '"' then string? .doubleQuoted c cs
  else if c = '\x27' then string? .singleQuoted c cs
  else (comment? c cs).or (sign? (c :: cs))

def bytes (cs : List Char) : Nat := cs.foldl (fun size c => size + c.utf8Size) 0

structure Lexed where
  tokens : List Token
  invalid : Option Nat
deriving DecidableEq, Repr

def Lexed.cons (l : Lexed) (terminal : Option Terminal) (text : List Char) (offset : Nat) : Lexed :=
  match terminal with
  | some t => { l with tokens := ⟨t, String.ofList text, ⟨offset, offset + bytes text⟩⟩ :: l.tokens }
  | none => l

def split (front? : Char → List Char → Option Lexeme) (offset : Nat) : List Char → Lexed
  | [] => ⟨[], none⟩
  | c :: cs =>
      match front? c cs with
      | none => ⟨[], some offset⟩
      | some ⟨terminal, more⟩ =>
          let text := c :: cs.take more
          (split front? (offset + bytes text) (cs.drop more)).cons terminal text offset
termination_by cs => cs.length
decreasing_by
  simp only [List.length_cons, List.length_drop]
  omega

end Lexer

def Token.ofText (code : String) : Lexer.Lexed := Lexer.split Lexer.lexeme? 0 code.toList

end Structura
