import Structura.Ty

namespace Structura

/-- Every name is bound at most once; a later binding replaces an earlier one. -/
structure Env where
  bindings : List (String × Ty)
deriving Inhabited

namespace Env

def empty : Env := ⟨[]⟩

def get? (env : Env) (name : String) : Option Ty := env.bindings.lookup name

def set (env : Env) (name : String) (t : Ty) : Env :=
  ⟨(name, t) :: env.bindings.filter (·.1 != name)⟩

def size (env : Env) : Nat := env.bindings.length

def isEmpty (env : Env) : Bool := env.bindings.isEmpty

def ofList (bindings : List (String × Ty)) : Env :=
  bindings.foldl (fun env (name, t) => env.set name t) empty

end Env

end Structura
