import Stencil.Template

/-! A registry keeps compiled templates under references. -/
namespace Stencil

structure Registry where
  /-- The settings for templates that are compiled on saving. -/
  config : Config
  templates : Dict Template

namespace Registry

def empty (config : Config) : Registry := ⟨config, []⟩

/-- Puts a template under a reference, in place of the one that was there. -/
def insert (r : Registry) (reference : String) (t : Template) : Registry :=
  { r with templates := Dict.insert r.templates reference t }

/-- Compiles and inserts. Nothing changes if the source does not compile. -/
def save (r : Registry) (reference source : String) : Except Error Template × Registry :=
  match Template.compile source r.config with
  | .ok t => (.ok t, r.insert reference t)
  | .error e => (.error e, r)

def load (r : Registry) (reference : String) : Except Error Template :=
  match Dict.get? r.templates reference with
  | some t => .ok t
  | none => .error (.templateNotFound reference)

/-- Takes out what is under a reference. -/
def remove (r : Registry) (reference : String) : Option Template × Registry :=
  (Dict.get? r.templates reference, { r with templates := Dict.erase r.templates reference })

def contains (r : Registry) (reference : String) : Bool := Dict.contains r.templates reference

def size (r : Registry) : Nat := r.templates.length

def isEmpty (r : Registry) : Bool := r.templates.isEmpty

def render {σ : Type} (r : Registry) (reference : String) (context : Context) (host : Host σ) :
    Action σ String := fun state =>
  match r.load reference with
  | .ok t => t.render context host state
  | .error e => (.error e, state)

end Registry
end Stencil
