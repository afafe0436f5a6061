namespace Structura.CommandLine

inductive Topic where
  | program
  | check
  | synth
  | subtype
  | help
deriving DecidableEq, Repr, Inhabited

namespace Topic

def ofName? (name : String) : Option Topic :=
  match name with
  | "check" => some .check
  | "synth" => some .synth
  | "subtype" => some .subtype
  | "help" => some .help
  | _ => none

def about : Topic → String
  | .program => "A structural type checker"
  | .check => "Check every statement of a file"
  | .synth => "Synthesize the type of an expression"
  | .subtype => "Decide if the first type is a subtype of the second"
  | .help => "Print this message or the help of the given subcommand(s)"

def usage : Topic → String
  | .program => "Usage: subty [OPTIONS] <COMMAND>"
  | .check => "Usage: subty check [OPTIONS] <FILE>"
  | .synth => "Usage: subty synth [OPTIONS] <EXPR>"
  | .subtype => "Usage: subty subtype [OPTIONS] <FST> <SND>"
  | .help => "Usage: subty help [COMMAND]..."

def parts : Topic → List String
  | .program =>
      ["Commands:",
       "  check    " ++ about .check,
       "  synth    " ++ about .synth,
       "  subtype  " ++ about .subtype,
       "  help     " ++ about .help]
  | .check => ["Arguments:", "  <FILE>  "]
  | .synth => ["Arguments:", "  <EXPR>  "]
  | .subtype => ["Arguments:", "  <FST>  ", "  <SND>  "]
  | .help => ["Arguments:", "  [COMMAND]...  Print help for the subcommand(s)"]

def sharedOptions : List String :=
  ["      --widen-literals",
   "          Type literals as their primitive type instead of a singleton",
   "      --max-depth <MAX_DEPTH>",
   "          Maximum nesting of expressions being checked [default: 128]",
   "      --max-branches <MAX_BRANCHES>",
   "          Maximum number of union branches one operation may visit [default: 4096]",
   "      --trace",
   "          Log every judgment of the checker to stderr",
   "  -h, --help",
   "          Print help"]

def options : Topic → List String
  | .program => "Options:" :: sharedOptions ++ ["  -V, --version", "          Print version"]
  | .help => []
  | _ => "Options:" :: sharedOptions

def lines (t : Topic) : List String :=
  let sections := [[t.about], [t.usage], t.parts, t.options].filter (!·.isEmpty)
  [""].intercalate sections

def hint : List String := [usage .program, "", "For more information, try '--help'."]

end Topic

end Structura.CommandLine
