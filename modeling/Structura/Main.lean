import Structura.CommandLine

namespace Structura.CommandLine

def ReadFailure.ofError : IO.Error → ReadFailure
  | .inappropriateType _ _ details =>
      if details = "not a directory" then .notDirectory else .directory
  | .invalidArgument .. => .nameTooLong
  | .permissionDenied .. => .denied
  | .userError _ => .notText
  | _ => .missing

def readSource (path : String) : IO (Except ReadFailure String) := do
  try
    return .ok (← IO.FS.readFile path)
  catch e =>
    return .error (.ofError e)

def Request.path? : Request → Option String
  | .run _ _ (.check path) => some path
  | _ => none

end Structura.CommandLine

open Structura.CommandLine in
def main (args : List String) : IO UInt32 := do
  let source ← match (Request.ofArgs? args).bind Request.path? with
    | some path => readSource path
    | none => pure (.error .missing)
  let result := run (fun _ => source) args
  IO.print result.stdout
  IO.eprint result.stderr
  return result.exit.toUInt32
