import Structura.Diagnostic.Fault

namespace Structura

structure Diagnostic where
  fault : Fault
  span : Option Span

namespace Diagnostic

def located (fault : Fault) (span : Span) : Diagnostic := ⟨fault, some span⟩

def kind (d : Diagnostic) : FaultKind := d.fault.kind

def message (d : Diagnostic) : String := d.fault.message

def place? (code : String) (d : Diagnostic) : Option String :=
  d.span.map fun s => (s.locate code).render

def summary (code : String) (d : Diagnostic) : String :=
  let text := d.kind.render ++ ": " ++ d.message
  match d.place? code with
  | some place => place ++ ": " ++ text
  | none => text

def margin (text : String) : String :=
  String.ofList (List.replicate (3 - text.length) ' ') ++ text ++ " "

def excerpt (first : Nat) : List String → String
  | [] => ""
  | line :: rest => margin (toString (first + 1)) ++ "│ " ++ line ++ "\n" ++ excerpt (first + 1) rest

/-- Marks under a part of one line. They cannot be drawn when the part ends before it starts; an
empty part gets one mark. -/
def underline? (start stop : Nat) : Option String :=
  if stop < start then none
  else
    some (margin "" ++ "│ " ++ String.ofList (List.replicate start ' ')
      ++ String.ofList (List.replicate (max (stop - start) 1) '^') ++ "\n")

/-- The diagnostic as shown to a user: the message, the file, the lines it concerns and, when these
are one line, marks under the faulty part. There is no report when the marks cannot be drawn. -/
def report? (code file : String) (d : Diagnostic) : Option String :=
  let header := "\n[" ++ d.kind.render ++ "]: " ++ d.message ++ "\n\n"
  match d.span with
  | none => some (header ++ margin "" ++ "┌─> " ++ file ++ "\n")
  | some span =>
      let ⟨start, stop⟩ := span.locate code
      let top := margin "" ++ "┌─> " ++ file ++ ":" ++ start.render ++ "\n" ++ margin "" ++ "│\n"
      let shown := ((Text.lines code).drop start.line).take (stop.line + 1 - start.line)
      let marks? := if start.line = stop.line then underline? start.column stop.column else some ""
      marks?.map fun marks =>
        header ++ top ++ excerpt start.line shown ++ marks ++ margin "" ++ "│\n"

end Diagnostic

end Structura
