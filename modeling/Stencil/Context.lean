import Stencil.Error
import Stencil.Value

/-! The variables that the host gives to a render. -/
namespace Stencil

structure Context where
  bindings : Dict Value

namespace Context

def empty : Context := ⟨[]⟩

def insert (c : Context) (name : String) (value : Value) : Context :=
  ⟨Dict.insert c.bindings name value⟩

def get? (c : Context) (name : String) : Option Value := Dict.get? c.bindings name

def contains (c : Context) (name : String) : Bool := Dict.contains c.bindings name

/-- One variable per entry; of a repeated name the last value counts. -/
def ofEntries (entries : List (String × Value)) : Context := ⟨Dict.ofList entries⟩

/-- Only mappings make a context. -/
def ofValue (v : Value) : Except Error Context :=
  match v with
  | .mapping entries => .ok (ofEntries entries)
  | v => .error (.evaluation (.contextNotObject v.kind))

end Context
end Stencil
