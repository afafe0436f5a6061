import Structura.Token
import Structura.Ty

namespace Structura

/-- Whose fault it is: the text cannot be read, the program is ill typed, or the program uses a form
that has no rule. -/
inductive FaultKind where
  | malformed
  | illTyped
  | unsupported
deriving DecidableEq, Repr, Inhabited

def FaultKind.render : FaultKind → String
  | .malformed => "syntax error"
  | .illTyped => "error"
  | .unsupported => "bug"

inductive Fault where
  | invalidToken
  | unexpectedToken (text : String)
  | unexpectedEnd (expected : List Terminal)
  | unbound (name : String)
  | duplicateProperty (name : String)
  | memberOfNonObject
  | noSuchProperty (name : String)
  | callOfNonFunction
  | wrongArity (expected given : Nat)
  | addOfNonNumber
  | untypedParam (name : String)
  | mismatch (expected actual : Ty)
  | missingProperty (name : String)
  | extraProperty (name : String)
  | tooDeep (limit : Nat)
  | tooManyBranches (count limit : Nat)
  | computedMember
  | spreadProperty
  | untypedSignature (name : String)
  | addOfOtherValues
  /-- A fault found by a rule from outside the library. -/
  | reported (kind : FaultKind) (message : String)

namespace Fault

def kind : Fault → FaultKind
  | .invalidToken => .malformed
  | .unexpectedToken _ => .malformed
  | .unexpectedEnd _ => .malformed
  | .unbound _ => .illTyped
  | .duplicateProperty _ => .illTyped
  | .memberOfNonObject => .illTyped
  | .noSuchProperty _ => .illTyped
  | .callOfNonFunction => .illTyped
  | .wrongArity _ _ => .illTyped
  | .addOfNonNumber => .illTyped
  | .untypedParam _ => .illTyped
  | .mismatch _ _ => .illTyped
  | .missingProperty _ => .illTyped
  | .extraProperty _ => .illTyped
  | .tooDeep _ => .illTyped
  | .tooManyBranches _ _ => .illTyped
  | .computedMember => .unsupported
  | .spreadProperty => .unsupported
  | .untypedSignature _ => .unsupported
  | .addOfOtherValues => .unsupported
  | .reported kind _ => kind

def message : Fault → String
  | .invalidToken => "invalid token"
  | .unexpectedToken text => .join ["unrecognized token '", text, "'"]
  | .unexpectedEnd expected =>
      .join ["unrecognized eof, expected one of ", ", ".intercalate (expected.map Terminal.label)]
  | .unbound name => .join ["unbound identifier '", name, "'"]
  | .duplicateProperty name => .join ["duplicate property ", name]
  | .memberOfNonObject => ". expects object"
  | .noSuchProperty name => .join ["no such property ", name]
  | .callOfNonFunction => "call expects function"
  | .wrongArity expected given =>
      .join ["expected ", toString expected, " args, got ", toString given, " args"]
  | .addOfNonNumber => "+ expects numbers"
  | .untypedParam name => .join ["type required for '", name, "'"]
  | .mismatch expected actual => .join ["expected ", expected.render, ", got ", actual.render]
  | .missingProperty name => .join ["missing property ", name]
  | .extraProperty name => .join ["extra property ", name]
  | .tooDeep limit => .join ["expression nesting exceeds ", toString limit]
  | .tooManyBranches count limit =>
      .join ["too many union branches (", toString count, " > ", toString limit, ")"]
  | .computedMember => "unimplemented computed member access"
  | .spreadProperty => "unimplemented spread property"
  | .untypedSignature name => .join ["expected type for ", name]
  | .addOfOtherValues => "unexpected value"
  | .reported _ message => message

end Fault

end Structura
