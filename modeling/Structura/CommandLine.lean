import Structura.CommandLine.Help
import Structura.Program

namespace Structura.CommandLine

structure Options where
  widenLiterals : Bool := false
  maxDepth : Option Nat := none
  maxBranches : Option Nat := none
  trace : Bool := false
deriving DecidableEq, Repr, Inhabited

inductive Command where
  | check (path : String)
  | synth (code : String)
  | subtype (lower upper : String)
deriving DecidableEq, Repr, Inhabited

inductive Request where
  | run (settings : Settings) (trace : Bool) (command : Command)
  | version
  | help (topic : Topic)
deriving DecidableEq, Repr, Inhabited

/-- A count below `2 ^ 64` in decimal digits, with an optional plus. -/
def count? (text : String) : Option Nat :=
  let digits := match text.toList with
    | '+' :: rest => rest
    | cs => cs
  let n := Decimal.natOfDigits digits
  if digits ≠ [] ∧ digits.all Char.isDigit ∧ n < Nat.pow 2 64 then some n else none

/-- What an argument is. A dash on its own is a value. -/
inductive Argument where
  | separator
  | long (name : String) (value : Option String)
  | short (letter : Char)
  | value (text : String)
deriving DecidableEq, Repr

def Argument.ofText (text : String) : Argument :=
  match text.toList with
  | ['-', '-'] => .separator
  | '-' :: '-' :: rest =>
      let name := String.ofList (rest.takeWhile (· ≠ '='))
      match rest.dropWhile (· ≠ '=') with
      | [] => .long name none
      | _ :: given => .long name (some (String.ofList given))
  | '-' :: c :: _ => .short c
  | _ => .value text

def flag (name : String) (o : Options) : Option Options :=
  if name = "widen-literals" ∧ !o.widenLiterals then some { o with widenLiterals := true }
  else if name = "trace" ∧ !o.trace then some { o with trace := true }
  else none

def setting (name value : String) (o : Options) : Option Options :=
  match name, o.maxDepth, o.maxBranches, count? value with
  | "max-depth", none, _, some n => some { o with maxDepth := some n }
  | "max-branches", _, none, some n => some { o with maxBranches := some n }
  | _, _, _, _ => none

def takesValue (name : String) : Bool := name = "max-depth" || name = "max-branches"

def option? (name : String) (value : Option String) (o : Options) :
    Option (Options × Option String) :=
  match takesValue name, value with
  | true, some v => (setting name v o).map (·, none)
  | true, none => some (o, some name)
  | false, none => (flag name o).map (·, none)
  | false, some _ => none

def optionValue? (name arg : String) (o : Options) : Option Options :=
  match Argument.ofText arg with
  | .value v => setting name v o
  | _ => none

inductive Given where
  | values (options : Options) (values : List String)
  | help

/-- Reads what follows a command that takes `arity` values. `values` holds the values so far, the
latest first; `pending` is an option whose value comes next. -/
def readGiven (arity : Nat) (o : Options) (values : List String) (pending : Option String) :
    List String → Option Given
  | [] => if pending.isSome then none else some (.values o values.reverse)
  | arg :: rest =>
      match pending, Argument.ofText arg with
      | some name, _ =>
          match optionValue? name arg o with
          | some o => readGiven arity o values none rest
          | none => none
      | none, .separator => some (.values o (values.reverse ++ rest))
      | none, .value v =>
          if values.length < arity then readGiven arity o (v :: values) none rest else none
      | none, .short c => if c = 'h' then some .help else none
      | none, .long "help" none => some .help
      | none, .long name value =>
          match option? name value o with
          | some (o, pending) => readGiven arity o values pending rest
          | none => none

def command? (name : String) (values : List String) : Option Command :=
  match name, values with
  | "check", [path] => if path = "" then none else some (.check path)
  | "synth", [code] => some (.synth code)
  | "subtype", [lower, upper] => some (.subtype lower upper)
  | _, _ => none

/-- Options after a command win over those before it. -/
def settings (before after : Options) : Settings :=
  let standard : Settings := {}
  { literals := if before.widenLiterals || after.widenLiterals then .primitive else .singleton
    maxDepth := (after.maxDepth.or before.maxDepth).getD standard.maxDepth
    maxBranches := (after.maxBranches.or before.maxBranches).getD standard.maxBranches }

def arity? (name : String) : Option Nat :=
  match name with
  | "check" => some 1
  | "synth" => some 1
  | "subtype" => some 2
  | _ => none

def readCommand (before : Options) (name : String) (args : List String) : Option Request :=
  match (arity? name).bind fun arity => readGiven arity {} [] none args with
  | some (.values after values) =>
      (command? name values).map (.run (settings before after) (before.trace || after.trace))
  | some .help => (Topic.ofName? name).map .help
  | none => none

/-- What `help` followed by these arguments asks for: all of them name a command, and commands have
no commands of their own. -/
def readHelp : List String → Option Request
  | [] => some (.help .program)
  | [name] => (Topic.ofName? name).map .help
  | _ => none

def readTop (o : Options) (pending : Option String) : List String → Option Request
  | [] => none
  | arg :: rest =>
      match pending, Argument.ofText arg with
      | some name, _ =>
          match optionValue? name arg o with
          | some o => readTop o none rest
          | none => none
      | none, .separator => none
      | none, .value "help" => readHelp rest
      | none, .value name => readCommand o name rest
      | none, .short c =>
          if c = 'V' then some .version else if c = 'h' then some (.help .program) else none
      | none, .long "version" none => some .version
      | none, .long "help" none => some (.help .program)
      | none, .long name value =>
          match option? name value o with
          | some (o, pending) => readTop o pending rest
          | none => none

def Request.ofArgs? (args : List String) : Option Request := readTop {} none args

inductive ReadFailure where
  | missing
  | directory
  | notDirectory
  | nameTooLong
  | denied
  | notText
deriving DecidableEq, Repr, Inhabited

def ReadFailure.render : ReadFailure → String
  | .missing => "No such file or directory (os error 2)"
  | .directory => "Is a directory (os error 21)"
  | .notDirectory => "Not a directory (os error 20)"
  | .nameTooLong => "File name too long (os error 36)"
  | .denied => "Permission denied (os error 13)"
  | .notText => "stream did not contain valid UTF-8"

structure Result where
  exit : Nat
  stdout : String
  stderr : String
deriving DecidableEq, Repr, Inhabited

/-- The exit code of a command that broke off because a report could not be drawn. -/
def brokenOff : Nat := 101

def unlines (lines : List String) : String := String.join (lines.map (· ++ "\n"))

def failWith (stdout log : String) (reports? : Option (List String)) : Result :=
  match reports? with
  | some reports => ⟨1, stdout, log ++ unlines reports⟩
  | none => ⟨brokenOff, stdout, log⟩

def failWithReport (log code file : String) (d : Diagnostic) : Result :=
  failWith "" log ((d.report? code file).map ([·]))

def runCheck (settings : Settings) (log : List String → String) (path code : String) : Result :=
  match Program.check settings .empty code with
  | .error d => failWithReport "" code path d
  | .ok verdicts =>
      let stdout := unlines ((verdicts.filterMap Verdict.finding?).map Finding.render)
      let log := log (verdicts.flatMap Verdict.traceLines)
      if (Program.failures verdicts).isEmpty then ⟨0, stdout, log⟩
      else failWith stdout log (Program.reports? code path verdicts)

def runSynth (settings : Settings) (log : List String → String) (code : String) : Result :=
  match Expr.parse code with
  | .error d => failWithReport "" code "<expr>" d
  | .ok e =>
      let t := e.synth (.top .empty settings ⟨0, 0⟩)
      let log := log t.lines
      match t.result with
      | .ok t => ⟨0, t.render ++ "\n", log⟩
      | .error d => failWithReport log code "<expr>" d

def readType (settings : Settings) (log : List String → String) (code : String) :
    Except Result (Ty × String) :=
  match TypeExpr.parse code with
  | .error d => .error (failWithReport "" code "<type>" d)
  | .ok e =>
      let t := e.convert (.top .empty settings ⟨0, 0⟩)
      let log := log t.lines
      match t.result with
      | .ok t => .ok (t, log)
      | .error d => .error (failWithReport log code "<type>" d)

def runSubtype (settings : Settings) (log : List String → String) (lower upper : String) :
    Result :=
  match readType settings log lower with
  | .error r => r
  | .ok (s, first) =>
      match readType settings log upper with
      | .error r => { r with stderr := first ++ r.stderr }
      | .ok (t, second) => ⟨0, renderBool (s.isSubtype t) ++ "\n", first ++ second⟩

def Command.run (settings : Settings) (trace : Bool) (read : String → Except ReadFailure String)
    (command : Command) : Result :=
  let log (lines : List String) : String := if trace then unlines lines else ""
  match command with
  | .check path =>
      match read path with
      | .ok code => runCheck settings log path code
      | .error why => ⟨1, "", .join ["cannot read '", path, "': ", why.render, "\n"]⟩
  | .synth code => runSynth settings log code
  | .subtype lower upper => runSubtype settings log lower upper

def run (read : String → Except ReadFailure String) (args : List String) : Result :=
  match Request.ofArgs? args with
  | some (.run settings trace command) => command.run settings trace read
  | some .version => ⟨0, "subty 0.1.0\n", ""⟩
  | some (.help topic) => ⟨0, unlines topic.lines, ""⟩
  | none => ⟨2, "", unlines Topic.hint⟩

end Structura.CommandLine
