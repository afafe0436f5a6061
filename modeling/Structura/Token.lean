import Structura.Source.Span

namespace Structura

inductive Terminal where
  | not
  | notEqual
  | amp
  | both
  | openParen
  | closeParen
  | plus
  | comma
  | dot
  | ellipsis
  | colon
  | semicolon
  | assign
  | equal
  | arrow
  | openBracket
  | closeBracket
  | asWord
  | booleanWord
  | declareWord
  | falseWord
  | letWord
  | neverWord
  | nullWord
  | numberWord
  | stringWord
  | trueWord
  | typeofWord
  | unknownWord
  | openBrace
  | bar
  | either
  | closeBrace
  | doubleQuoted
  | singleQuoted
  | number
  | identifier
deriving DecidableEq, Repr, Inhabited

namespace Terminal

/-- Every terminal, in the order in which they are listed to the user. -/
def all : List Terminal :=
  [.not, .notEqual, .amp, .both, .openParen, .closeParen, .plus, .comma, .dot, .ellipsis, .colon,
   .semicolon, .assign, .equal, .arrow, .openBracket, .closeBracket, .asWord, .booleanWord,
   .declareWord, .falseWord, .letWord, .neverWord, .nullWord, .numberWord, .stringWord, .trueWord,
   .typeofWord, .unknownWord, .openBrace, .bar, .either, .closeBrace, .doubleQuoted, .singleQuoted,
   .number, .identifier]

def spelling? : Terminal → Option String
  | .not => some "!"
  | .notEqual => some "!=="
  | .amp => some "&"
  | .both => some "&&"
  | .openParen => some "("
  | .closeParen => some ")"
  | .plus => some "+"
  | .comma => some ","
  | .dot => some "."
  | .ellipsis => some "..."
  | .colon => some ":"
  | .semicolon => some ";"
  | .assign => some "="
  | .equal => some "==="
  | .arrow => some "=>"
  | .openBracket => some "["
  | .closeBracket => some "]"
  | .asWord => some "as"
  | .booleanWord => some "boolean"
  | .declareWord => some "declare"
  | .falseWord => some "false"
  | .letWord => some "let"
  | .neverWord => some "never"
  | .nullWord => some "null"
  | .numberWord => some "number"
  | .stringWord => some "string"
  | .trueWord => some "true"
  | .typeofWord => some "typeof"
  | .unknownWord => some "unknown"
  | .openBrace => some "\x7b"
  | .bar => some "|"
  | .either => some "||"
  | .closeBrace => some "\x7d"
  | .doubleQuoted => none
  | .singleQuoted => none
  | .number => none
  | .identifier => none

/-- How a terminal is listed to the user. An open class is shown by its pattern. -/
def label (t : Terminal) : String :=
  match t.spelling? with
  | some word => "\"" ++ word ++ "\""
  | none =>
      match t with
      | .doubleQuoted => "r#\"\\\"[^\\\"]*\\\"\"#"
      | .singleQuoted => "r#\"'[^']*'\"#"
      | .number => "r#\"[0-9]+(\\\\.[0-9]+)?\"#"
      | _ => "r#\"[a-zA-Z_$][a-zA-Z0-9_$]*\"#"

end Terminal

structure Token where
  terminal : Terminal
  text : String
  span : Span
deriving DecidableEq, Repr, Inhabited

end Structura
