import Stencil.Eval.Render
import Stencil.Node.Assembly

/-! Templates: a compiled forest and the settings it was compiled with. -/
namespace Stencil

structure Template where
  nodes : List Node
  config : Config
deriving BEq

namespace Template

def compile (source : String) (config : Config) : Except Error Template :=
  (Node.ofSource source config).map (⟨·, config⟩)

/-- Renders with other settings than those of compiling. The host's state is kept also when the
render fails. -/
def renderWith {σ : Type} (t : Template) (context : Context) (config : Config) (host : Host σ) :
    Action σ String := fun state =>
  let (result, e) := (Env.mk context config host).render t.nodes (.initial state)
  (result, e.memory.host)

def render {σ : Type} (t : Template) (context : Context) (host : Host σ) : Action σ String :=
  t.renderWith context t.config host

end Template
end Stencil
