import Mathlib.Data.List.Forall2
import Mathlib.Order.BooleanAlgebra.Set
import Stencil.Eval.Render
import Stencil.Proofs.Action

/-! What rendering leaves of the scopes. A name is assigned to its innermost binding, so a scope
keeps the names that it binds away from the scopes around it. -/
namespace Stencil

variable {σ α β : Type}

namespace Node

mutual

/-- The names that a node assigns, in the blocks inside it as well. -/
def assigned : Node → List String
  | .text _ | .output _ => []
  | .set name _ => [name]
  | .capture name body => name :: assignedIn body
  | .loop _ _ _ body otherwise => assignedIn body ++ assignedInOtherwise otherwise
  | .branch branches otherwise => assignedInBranches branches ++ assignedInOtherwise otherwise

def assignedIn : List Node → List String
  | [] => []
  | node :: nodes => assigned node ++ assignedIn nodes

def assignedInOtherwise : Option (List Node) → List String
  | none => []
  | some body => assignedIn body

def assignedInBranches : List (Expr × List Node) → List String
  | [] => []
  | (_, body) :: branches => assignedIn body ++ assignedInBranches branches

end

end Node

/-- `after` binds what `before` binds; only names of the set may have other values. -/
structure Dict.Overwritten (names : Set String) (before after : Dict Value) : Prop where
  keys : Dict.keys after = Dict.keys before
  get? : ∀ name ∉ names, Dict.get? after name = Dict.get? before name

namespace Scopes

variable {names more : Set String} {scope scope' : Dict Value} {scopes scopes' scopes'' : Scopes}
  {name : String} {value : Value}

def bound (scope : Dict Value) : Set String := {name | name ∈ Dict.keys scope}

/-- Every scope is overwritten. What a scope binds does not change in the scopes around it. -/
inductive Overwritten : Set String → Scopes → Scopes → Prop
  | nil {names : Set String} : Overwritten names [] []
  | cons {names : Set String} {scope scope' : Dict Value} {scopes scopes' : Scopes} :
      Dict.Overwritten names scope scope' → Overwritten (names \ bound scope) scopes scopes' →
      Overwritten names (scope :: scopes) (scope' :: scopes')

/-- The same, but the innermost scope may bind further names. -/
inductive Extended (names : Set String) : Scopes → Scopes → Prop
  | nil : Extended names [] []
  | cons {scope scope' : Dict Value} {scopes scopes' : Scopes} :
      bound scope ⊆ bound scope' →
      (∀ name ∉ names, Dict.get? scope' name = Dict.get? scope name) →
      Overwritten (names \ bound scope) scopes scopes' →
      Extended names (scope :: scopes) (scope' :: scopes')

theorem Overwritten.refl (names : Set String) (scopes : Scopes) :
    Overwritten names scopes scopes := by
  induction scopes generalizing names with
  | nil => exact .nil
  | cons scope scopes ih => exact .cons ⟨rfl, fun _ _ => rfl⟩ (ih _)

theorem Overwritten.mono (overwritten : Overwritten names scopes scopes') (le : names ⊆ more) :
    Overwritten more scopes scopes' := by
  induction overwritten generalizing more with
  | nil => exact .nil
  | cons first _ ih =>
    refine .cons ⟨first.keys, fun name outside => ?_⟩ (ih (Set.sdiff_subset_sdiff_left le))
    exact first.get? name fun inside => outside (le inside)

theorem Overwritten.trans (first : Overwritten names scopes scopes')
    (second : Overwritten names scopes' scopes'') : Overwritten names scopes scopes'' := by
  induction first generalizing scopes'' with
  | nil => exact second
  | cons inner _ ih =>
    cases second with
    | cons inner' outer' =>
      simp only [bound, inner.keys] at outer'
      refine .cons ⟨inner'.keys.trans inner.keys, fun name outside => ?_⟩ (ih outer')
      exact (inner'.get? name outside).trans (inner.get? name outside)

theorem Extended.refl (names : Set String) (scopes : Scopes) : Extended names scopes scopes := by
  cases scopes with
  | nil => exact .nil
  | cons scope scopes => exact .cons subset_rfl (fun _ _ => rfl) (.refl _ _)

theorem Extended.mono (extended : Extended names scopes scopes') (le : names ⊆ more) :
    Extended more scopes scopes' := by
  cases extended with
  | nil => exact .nil
  | cons keys get? outer =>
    refine .cons keys (fun name outside => ?_) (outer.mono (Set.sdiff_subset_sdiff_left le))
    exact get? name fun inside => outside (le inside)

theorem Extended.trans (first : Extended names scopes scopes')
    (second : Extended names scopes' scopes'') : Extended names scopes scopes'' := by
  cases first with
  | nil => exact second
  | cons keys get? outer =>
    cases second with
    | cons keys' get?' outer' =>
      refine .cons (keys.trans keys') (fun name outside => ?_) (outer.trans (outer'.mono ?_))
      · exact (get?' name outside).trans (get? name outside)
      · exact Set.sdiff_subset_sdiff_right keys

theorem Overwritten.extended (overwritten : Overwritten names scopes scopes') :
    Extended names scopes scopes' := by
  cases overwritten with
  | nil => exact .nil
  | cons inner outer =>
    refine .cons (fun name inside => ?_) inner.get? outer
    rwa [bound, inner.keys]

/-- Without its innermost scope, the rest is overwritten outside of what that scope binds. -/
theorem Extended.tail (extended : Extended names (scope :: scopes) scopes') :
    Overwritten (names \ bound scope) scopes scopes'.tail := by
  cases extended with
  | cons _ _ outer => exact outer

theorem Overwritten.length_eq (overwritten : Overwritten names scopes scopes') :
    scopes'.length = scopes.length := by
  induction overwritten with
  | nil => rfl
  | cons _ _ ih => rw [List.length_cons, List.length_cons, ih]

theorem Extended.length_eq (extended : Extended names scopes scopes') :
    scopes'.length = scopes.length := by
  cases extended with
  | nil => rfl
  | cons _ _ outer => rw [List.length_cons, List.length_cons, outer.length_eq]

theorem Overwritten.forall₂ (overwritten : Overwritten names scopes scopes') :
    List.Forall₂ (Dict.Overwritten names) scopes scopes' := by
  induction overwritten with
  | nil => exact .nil
  | cons inner _ ih =>
    refine .cons inner (ih.imp fun _ _ outer => ⟨outer.keys, fun name outside => ?_⟩)
    exact outer.get? name fun inside => outside inside.1

instance : IsPreorder Scopes (Overwritten names) where
  refl := .refl names
  trans _ _ _ := .trans

instance : IsPreorder Scopes (Extended names) where
  refl := .refl names
  trans _ _ _ := .trans

theorem overwritten_of_overwrite? (found : overwrite? scopes name value = some scopes') :
    Overwritten {name} scopes scopes' := by
  induction scopes generalizing scopes' with
  | nil => cases found
  | cons scope scopes ih =>
    rw [overwrite?] at found
    split at found
    · next binds =>
      cases found
      have inside : name ∈ Dict.keys scope := Dict.contains_iff.1 binds
      refine .cons ⟨?_, fun other ne => ?_⟩ (.refl _ _)
      · rw [Dict.keys_insert, if_pos inside]
      · exact Dict.get?_insert_of_ne scope value ne
    · next binds =>
      obtain ⟨outer, inner, rfl⟩ := Option.map_eq_some_iff.1 found
      have outside : name ∉ Dict.keys scope := fun inside => binds (Dict.contains_iff.2 inside)
      refine .cons ⟨rfl, fun _ _ => rfl⟩ ((ih inner).mono ?_)
      rintro _ rfl
      exact ⟨rfl, outside⟩

theorem extended_bind (scopes : Scopes) (name : String) (value : Value) :
    Extended {name} scopes (bind scopes name value) := by
  cases scopes with
  | nil => exact .nil
  | cons scope scopes =>
    refine .cons (fun other inside => ?_) (fun other ne => ?_) (.refl _ _)
    · change other ∈ Dict.keys (Dict.insert scope name value)
      rw [Dict.keys_insert]
      split
      · exact inside
      · exact List.mem_append_left _ inside
    · exact Dict.get?_insert_of_ne scope value ne

theorem extended_assign (scopes : Scopes) (name : String) (value : Value) :
    Extended {name} scopes (assign scopes name value) := by
  rw [assign]
  cases found : overwrite? scopes name value with
  | none => exact extended_bind scopes name value
  | some scopes' => exact (overwritten_of_overwrite? found).extended

end Scopes

open Scopes

/-- The depth is what it was, and the scopes are related. -/
structure Evaluator.Keeps (R : Scopes → Scopes → Prop) (s t : Evaluator σ) : Prop where
  depth : t.depth = s.depth
  scopes : R s.scopes t.scopes

open Evaluator

namespace Action

variable {R : Scopes → Scopes → Prop} {names : Set String} {x : Action (Evaluator σ) α}

theorem Maintains.extends {names more : List String}
    (maintains : x.Maintains (Keeps (Extended {name | name ∈ names}))) (le : names ⊆ more) :
    x.Maintains (Keeps (Extended {name | name ∈ more})) :=
  maintains.mono fun _ _ kept => ⟨kept.depth, kept.scopes.mono fun _ inside => le inside⟩

/-- A scope takes the assignments to the names it binds; the scopes around it get the others. -/
theorem Maintains.inScope (body : x.Maintains (Keeps (Extended names))) (scope : Dict Value) :
    (Env.inScope scope x).Maintains (Keeps (Overwritten (names \ bound scope))) := by
  intro s
  have inner := body { s with scopes := scope :: s.scopes }
  exact ⟨inner.depth, inner.scopes.tail⟩

theorem Maintains.deeper [IsPreorder Scopes R] (body : x.Maintains (Keeps R)) (env : Env σ) :
    (env.deeper x).Maintains (Keeps R) := by
  intro s
  rw [Env.deeper]
  split
  · exact ⟨rfl, refl s.scopes⟩
  · have inner := body { s with depth := s.depth + 1 }
    refine ⟨?_, inner.scopes⟩
    change (x { s with depth := s.depth + 1 }).2.depth - 1 = s.depth
    rw [inner.depth, Nat.add_sub_cancel]

end Action

namespace Env

open Stencil.Action

variable {R : Scopes → Scopes → Prop} {names : Set String} {env : Env σ}

/-- The names that a loop binds in the scope of every iteration. -/
def loopNames (key : Option String) (value : String) : List String := key.toList ++ [value, "loop"]

theorem bound_loopScope (key : Option String) (value : String) (index length : Nat)
    (item : Value × Value) :
    bound (loopScope key value index length item) = {name | name ∈ loopNames key value} := by
  have bound_insert (scope : Dict Value) (name : String) (v : Value) :
      bound (Dict.insert scope name v) = insert name (bound scope) := by
    ext other
    simp only [bound, Dict.keys_insert, Set.mem_ofPred_eq, Set.mem_insert_iff]
    split <;> grind
  have bound_nil : bound [] = ∅ := by simp [bound, Dict.keys]
  ext other
  cases key <;> simp [loopScope, loopNames, bound_insert, bound_nil] <;> tauto

variable [IsPreorder Scopes R]

instance : IsPreorder (Evaluator σ) (Keeps R) where
  refl s := ⟨rfl, refl s.scopes⟩
  trans _ _ _ first second :=
    ⟨second.depth.trans first.depth, IsTrans.trans _ _ _ first.scopes second.scopes⟩

theorem evaluate_keeps (e : Expr) : (env.evaluate e).Maintains (Keeps R) :=
  fun s => ⟨rfl, refl s.scopes⟩

theorem beginIteration_keeps : env.beginIteration.Maintains (Keeps R) := by
  intro s
  rw [beginIteration]
  split
  · exact ⟨rfl, refl s.scopes⟩
  · exact ⟨rfl, refl s.scopes⟩

theorem assign_keeps (name : String) (value : Value) :
    (assign (σ := σ) name value).Maintains (Keeps (Extended {other | other ∈ [name]})) := by
  intro s
  refine ⟨rfl, (extended_assign s.scopes name value).mono ?_⟩
  simp

theorem forEach_keeps (env : Env σ) (key : Option String) (value : String) (length : Nat)
    {body : Action (Evaluator σ) String} (keeps : body.Maintains (Keeps (Extended names)))
    (index : Nat) (rendered : String) (items : List (Value × Value)) :
    (env.forEach key value length body index rendered items).Maintains
      (Keeps (Overwritten (names \ {name | name ∈ loopNames key value}))) := by
  induction items generalizing index rendered with
  | nil => exact maintains_pure rendered
  | cons item items ih =>
    have iteration := keeps.inScope (loopScope key value index length item)
    rw [bound_loopScope] at iteration
    rw [forEach]
    exact beginIteration_keeps.bind fun _ => iteration.bind fun text => ih _ _

mutual

theorem renderNode_keeps (env : Env σ) : ∀ node : Node,
    (env.renderNode node).Maintains (Keeps (Extended {name | name ∈ node.assigned}))
  | .text s => maintains_pure s
  | .output e => (evaluate_keeps e).bind fun v => maintains_pure v.text
  | .set name e => by
    rw [Node.assigned]
    exact (evaluate_keeps e).bind fun v => (assign_keeps name v).bind fun _ => maintains_pure ""
  | .capture name body => by
    have inside := (renderNodes_keeps env body).deeper env
    rw [Node.assigned]
    refine (inside.extends (by simp)).bind fun text => ?_
    exact ((assign_keeps name _).extends (by simp)).bind fun _ => maintains_pure ""
  | .loop key value iterable body otherwise => by
    have inside := (renderNodes_keeps env body).deeper env
    have last := renderOtherwise_keeps env otherwise
    rw [Node.assigned]
    refine (evaluate_keeps iterable).bind fun v => ?_
    split
    · exact last.extends (by simp)
    · have all := forEach_keeps env key value v.iterated.length inside 0 "" v.iterated
      refine all.mono fun _ _ kept => ⟨kept.depth, kept.scopes.extended.mono ?_⟩
      intro name assigned
      exact List.mem_append_left _ assigned.1
  | .branch branches otherwise => by
    have first := renderBranches_keeps env branches
    have last := renderOtherwise_keeps env otherwise
    rw [Node.assigned]
    refine (first.extends (by simp)).bind fun found => ?_
    cases found with
    | none => exact last.extends (by simp)
    | some text => exact maintains_pure text

theorem renderNodes_keeps (env : Env σ) : ∀ nodes : List Node,
    (env.renderNodes nodes).Maintains (Keeps (Extended {name | name ∈ Node.assignedIn nodes}))
  | [] => maintains_pure ""
  | node :: nodes => by
    have first := renderNode_keeps env node
    have others := renderNodes_keeps env nodes
    rw [Node.assignedIn]
    refine (first.extends (by simp)).bind fun text => ?_
    exact (others.extends (by simp)).bind fun rest => maintains_pure (text ++ rest)

theorem renderOtherwise_keeps (env : Env σ) : ∀ otherwise : Option (List Node),
    (env.renderOtherwise otherwise).Maintains
      (Keeps (Extended {name | name ∈ Node.assignedInOtherwise otherwise}))
  | none => maintains_pure ""
  | some body => (renderNodes_keeps env body).deeper env

theorem renderBranches_keeps (env : Env σ) : ∀ branches : List (Expr × List Node),
    (env.renderBranches branches).Maintains
      (Keeps (Extended {name | name ∈ Node.assignedInBranches branches}))
  | [] => maintains_pure none
  | (condition, body) :: branches => by
    have first := (renderNodes_keeps env body).deeper env
    have others := renderBranches_keeps env branches
    rw [Node.assignedInBranches]
    refine (evaluate_keeps condition).bind fun v => ?_
    split
    · exact (first.extends (by simp)).bind fun text => maintains_pure (some text)
    · exact others.extends (by simp)

end

theorem renderNode_loop {key : Option String} {value : String} {iterable : Expr}
    {body : List Node} {otherwise : Option (List Node)} {s : Evaluator σ} {v : Value}
    (evaluated : (env.evaluate iterable s).1 = .ok v) (nonempty : v.iterated ≠ []) :
    env.renderNode (.loop key value iterable body otherwise) s =
      env.forEach key value v.iterated.length (env.deeper (env.renderNodes body)) 0 "" v.iterated
        (env.evaluate iterable s).2 := by
  obtain ⟨t, gives⟩ := fst_eq_ok_iff.1 evaluated
  unfold Gives at gives
  rw [renderNode, bind_apply, gives]
  cases items : v.iterated with
  | nil => contradiction
  | cons item items => simp only [items]

/-- What a loop leaves of a scope around it. -/
structure KeptByLoop (names assigned : List String) (before after : Dict Value) : Prop where
  keys : Dict.keys after = Dict.keys before
  loopNames : ∀ name ∈ names, Dict.get? after name = Dict.get? before name
  assigned : ∀ name, Dict.get? after name ≠ Dict.get? before name →
    name ∈ Dict.keys before ∧ name ∈ assigned

/-- A render ends with as many scopes as it began with and at the same depth. A loop that has
something to iterate leaves in the scopes around it every name bound and no other one; its own
variables have the values they had there, and only names that its body assigns may have others. -/
theorem render_restores_scopes (env : Env σ) :
    (∀ (nodes : List Node) (s : Evaluator σ),
      (env.render nodes s).2.scopes.length = s.scopes.length ∧
        (env.render nodes s).2.depth = s.depth) ∧
    (∀ (key : Option String) (value : String) (iterable : Expr) (body : List Node)
      (otherwise : Option (List Node)) (s : Evaluator σ) (v : Value),
      (env.evaluate iterable s).1 = .ok v → v.iterated ≠ [] →
        List.Forall₂ (KeptByLoop (loopNames key value) (Node.assignedIn body)) s.scopes
          (env.renderNode (.loop key value iterable body otherwise) s).2.scopes) := by
  constructor
  · intro nodes s
    have kept := (renderNodes_keeps env nodes).deeper env s
    exact ⟨kept.scopes.length_eq, kept.depth⟩
  · intro key value iterable body otherwise s v evaluated nonempty
    have inside := (renderNodes_keeps env body).deeper env
    have all := forEach_keeps env key value v.iterated.length inside 0 "" v.iterated
    rw [renderNode_loop evaluated nonempty]
    have kept := (all (env.evaluate iterable s).2).scopes.forall₂
    refine kept.imp fun before after overwritten => ⟨overwritten.keys, ?_, ?_⟩
    · intro name isLoopName
      exact overwritten.get? name fun outside => outside.2 isLoopName
    · intro name changed
      constructor
      · by_contra unbound
        have unbound_after : name ∉ Dict.keys after := by rwa [overwritten.keys]
        rw [Dict.get?_eq_none_iff.2 unbound, Dict.get?_eq_none_iff.2 unbound_after] at changed
        exact changed rfl
      · by_contra other
        exact changed (overwritten.get? name fun inside => other inside.1)

/-- The body sets its own variable and one from outside, and then fails. -/
theorem render_restores_scopes_of_failing_loop :
    let env : Env Nat := ⟨⟨[("xs", .array [.null])]⟩, {}, .counting⟩
    let body : List Node :=
      [.set "x" (.literal (.bool true)), .set "y" (.variable "x"), .output (.call "none" [])]
    let s : Evaluator Nat := ⟨[[("x", .string "outer"), ("y", .null)]], 0, 0, ⟨[], 0⟩⟩
    (env.renderNode (.loop none "x" (.variable "xs") body none) s).1 =
        .error (.unknownFilter "none") ∧
      List.Forall₂ (KeptByLoop ["x", "loop"] ["x", "y"]) s.scopes
        (env.renderNode (.loop none "x" (.variable "xs") body none) s).2.scopes := by
  intro env body s
  refine ⟨rfl, ?_⟩
  exact (render_restores_scopes env).2 none "x" (.variable "xs") body none s (.array [.null]) rfl
    (by simp [Value.iterated])

end Env
end Stencil
