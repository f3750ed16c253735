import Stencil.Filter.Apply
import Stencil.Host
import Stencil.Operator

/-! Evaluating expressions. It reads variables and calls the host, and changes nothing but the host's
state and the memory of resolved callables. -/
namespace Stencil

/-- What stays fixed during a render. -/
structure Env (σ : Type) where
  context : Context
  config : Config
  host : Host σ

/-- What evaluation changes. -/
structure Memory (σ : Type) where
  /-- The results of context callables whose bare names have been evaluated. -/
  resolved : Dict Value
  host : σ

/-- Local variables, one dictionary per scope, innermost first. -/
abbrev Scopes := List (Dict Value)

namespace Scopes

def get? (scopes : Scopes) (name : String) : Option Value := scopes.findSome? (Dict.get? · name)

/-- Binds in the innermost scope. -/
def bind : Scopes → String → Value → Scopes
  | [], _, _ => []
  | scope :: outer, name, value => Dict.insert scope name value :: outer

/-- Overwrites the innermost binding of `name`, if there is one. -/
def overwrite? : Scopes → String → Value → Option Scopes
  | [], _, _ => none
  | scope :: outer, name, value =>
    if Dict.contains scope name then some (Dict.insert scope name value :: outer)
    else (overwrite? outer name value).map (scope :: ·)

/-- Overwrites the innermost binding of `name`, or binds it in the innermost scope. -/
def assign (scopes : Scopes) (name : String) (value : Value) : Scopes :=
  (overwrite? scopes name value).getD (bind scopes name value)

end Scopes

variable {σ : Type}

namespace Env

def call (env : Env σ) (f : Callable) (args : List Value) : Action (Memory σ) Value := fun m =>
  let (result, host) := env.host.call f args m.host
  (result, { m with host })

/-- A callable is called without arguments; other values stand for themselves. -/
def resolve (env : Env σ) : Value → Action (Memory σ) Value
  | .callable f => env.call f []
  | v => pure v

/-- A callable of the context is called once; what it gave is remembered under its name. -/
def resolveOnce (env : Env σ) (name : String) : Value → Action (Memory σ) Value
  | .callable f => fun m =>
    match Dict.get? m.resolved name with
    | some v => (.ok v, m)
    | none =>
      (do
        let v ← env.call f []
        modify fun m => { m with resolved := Dict.insert m.resolved name v }
        return v : Action (Memory σ) Value) m
  | v => pure v

/-- A bare name: a local variable, a variable of the context, or null. -/
def evalName (env : Env σ) (scopes : Scopes) (name : String) : Action (Memory σ) Value :=
  match scopes.get? name with
  | some v => env.resolve v
  | none =>
    match env.context.get? name with
    | some v => env.resolveOnce name v
    | none => pure .null

/-- What a name with arguments calls, if it is bound to a callable. -/
def callable? (env : Env σ) (scopes : Scopes) (name : String) : Option Callable :=
  match (scopes.get? name).orElse fun _ => env.context.get? name with
  | some (.callable f) => some f
  | _ => none

def filter (env : Env σ) (name : String) (input : Value) (args : List Value) :
    Action (Memory σ) Value := fun m =>
  (Filter.applyNamed name input args env.config env.host.now env.host.checksCounts, m)

/-- Calls a callable of that name; otherwise the filter of that name takes the first argument. -/
def callNamed (env : Env σ) (scopes : Scopes) (name : String) (args : List Value) :
    Action (Memory σ) Value :=
  match env.callable? scopes name with
  | some f => env.call f args
  | none => env.filter name (args.head?.getD .null) args.tail

/-- What an object holds under a key; null if there is nothing. -/
def member (env : Env σ) (object key : Value) : Action (Memory σ) Value :=
  match object.get? key with
  | some v => env.resolve v
  | none => pure .null

mutual

def eval (env : Env σ) (scopes : Scopes) : Expr → Action (Memory σ) Value
  | .literal v => pure v.toValue
  | .variable name => env.evalName scopes name
  | .binary op left right => do
    let a ← eval env scopes left
    match op.shortcut? a with
    | some v => pure v
    | none =>
      let b ← eval env scopes right
      pure (op.apply a b)
  | .unary op operand => do
    let v ← eval env scopes operand
    pure (op.apply v)
  | .array items => do
    let values ← evalItems env scopes items
    pure (.array values)
  | .mapping entries => do
    let values ← evalEntries env scopes [] entries
    pure (.mapping values)
  | .member object key _ => do
    let o ← eval env scopes object
    let k ← eval env scopes key
    env.member o k
  | .filter input name args => do
    let v ← eval env scopes input
    let values ← evalItems env scopes args
    env.filter name v values
  | .call name args => do
    let values ← evalItems env scopes args
    env.callNamed scopes name values
  | .conditional test whenTrue whenFalse => do
    let v ← eval env scopes test
    if v.isTruthy then eval env scopes whenTrue else eval env scopes whenFalse

/-- Items from left to right. -/
def evalItems (env : Env σ) (scopes : Scopes) : List Expr → Action (Memory σ) (List Value)
  | [] => pure []
  | item :: items => do
    let v ← eval env scopes item
    let vs ← evalItems env scopes items
    pure (v :: vs)

/-- Inserts entries into `d` from left to right, each key before its value. -/
def evalEntries (env : Env σ) (scopes : Scopes) (d : Dict Value) :
    List (Expr × Expr) → Action (Memory σ) (Dict Value)
  | [] => pure d
  | (key, value) :: entries => do
    let k ← eval env scopes key
    let v ← eval env scopes value
    evalEntries env scopes (Dict.insert d k.text v) entries

end

end Env
end Stencil
