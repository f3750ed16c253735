import Stencil.Proofs.Eval.Scopes
import Stencil.Proofs.Filter.Merge

/-! The keys of a collection: they are as many as its length says, they look up what a loop goes
through, in that order, and nothing else looks up anything. -/
namespace Stencil

namespace Dict

variable {α : Type} {d : Dict α}

/-- Where no key comes twice, each finds the value that stands in its place. -/
theorem map_get?_keys (distinct : Distinct d) : (keys d).map (get? d) = (values d).map some := by
  rw [keys, values, List.map_map, List.map_map]
  exact List.map_congr_left fun e member => (get?_eq_some_iff distinct).2 member

end Dict

namespace Value

variable {x : Value} {items : List Value} {key : String}

/-- A collection: an array that fits into memory, or a mapping that has no key twice. -/
inductive IsKeyed : Value → Prop
  | array {items : List Value} (few : items.length < 2 ^ 64) : IsKeyed (.array items)
  | mapping {entries : Dict Value} (distinct : Dict.Distinct entries) :
      IsKeyed (.mapping entries)

theorem nodup_places (n : Nat) : (places n).Nodup := by
  refine List.Nodup.map (fun i j same => ?_) List.nodup_range
  rw [← ofDigits_repr i, same, ofDigits_repr]

theorem keys_asMapping_array (items : List Value) :
    Dict.keys (asMapping (.array items)) = places items.length := by
  simp [asMapping, Dict.keys, List.map_fst_zip, places]

theorem values_asMapping_array (items : List Value) :
    Dict.values (asMapping (.array items)) = items := by
  simp [asMapping, Dict.values, List.map_snd_zip, places]

theorem mem_asMapping_array {item : Value} :
    (key, item) ∈ asMapping (.array items) ↔ ∃ i, key = Nat.repr i ∧ items[i]? = some item := by
  simp only [asMapping, List.mem_iff_getElem?, List.getElem?_zip_eq_some, places, List.getElem?_map,
    Option.map_eq_some_iff]
  refine exists_congr fun i => and_congr_left fun found => ?_
  obtain ⟨inside, -⟩ := List.getElem?_eq_some_iff.1 found
  simp [List.getElem?_range inside, eq_comm]

namespace IsKeyed

theorem distinct (collection : x.IsKeyed) : Dict.Distinct x.asMapping := by
  cases collection with
  | array few =>
    rw [Dict.Distinct, keys_asMapping_array]
    exact nodup_places _
  | mapping distinct => exact distinct

/-- A string addresses an item of an array exactly if it is the canonical decimal of its place. -/
theorem get?_string (collection : x.IsKeyed) (key : String) :
    x.get? (.string key) = Dict.get? x.asMapping key := by
  cases collection with
  | @array items few =>
    have distinct := (IsKeyed.array few).distinct
    apply Option.ext
    intro item
    change (integerKey? key).bind (items[·]?) = some item ↔ _
    rw [Dict.get?_eq_some_iff distinct, mem_asMapping_array, Option.bind_eq_some_iff]
    refine exists_congr fun i => and_congr_left fun found => ?_
    obtain ⟨inside, -⟩ := List.getElem?_eq_some_iff.1 found
    rw [integerKey?_eq_some_iff, and_iff_left (inside.trans few)]
  | mapping distinct => rfl

theorem keys_eq (collection : x.IsKeyed) :
    x.keys = .ok (.array ((Dict.keys x.asMapping).map .string)) := by
  cases collection with
  | array few => rw [keys_asMapping_array, places, List.map_map]; rfl
  | mapping distinct => rfl

theorem length?_eq (collection : x.IsKeyed) :
    x.length? = some (Dict.keys x.asMapping).length := by
  cases collection with
  | array few => simp [keys_asMapping_array, places, length?]
  | mapping distinct => simp [asMapping, Dict.keys, length?]

theorem values_eq (collection : x.IsKeyed) :
    Dict.values x.asMapping = x.iterated.map Prod.snd := by
  cases collection with
  | array few => simp [values_asMapping_array, iterated, Function.comp_def]
  | mapping distinct => simp [asMapping, Dict.values, iterated, Function.comp_def]

end IsKeyed

/-- `ks` lists what can be looked up in `x`, in the order in which a loop goes through it. -/
structure Enumerates (ks : List String) (x : Value) : Prop where
  length : x.length? = some ks.length
  distinct : ks.Nodup
  items : (ks.map fun key => x.get? (.string key)) = x.iterated.map fun item => some item.2
  present (key : String) : (x.get? (.string key)).isSome = true ↔ key ∈ ks

theorem IsKeyed.enumerates (collection : x.IsKeyed) :
    Enumerates (Dict.keys x.asMapping) x where
  length := collection.length?_eq
  distinct := collection.distinct
  items := by
    simp only [collection.get?_string]
    rw [Dict.map_get?_keys collection.distinct, collection.values_eq, List.map_map]
    rfl
  present key := by
    rw [collection.get?_string]
    exact Dict.contains_iff

end Value

namespace Env

variable {σ : Type} {env : Env σ}

/-- Runs `body` in one scope after the other, each time as an iteration, and puts the texts after
`rendered`. -/
def eachScope (env : Env σ) (body : Action (Evaluator σ) String) :
    String → List (Dict Value) → Action (Evaluator σ) String
  | rendered, [] => pure rendered
  | rendered, scope :: scopes => do
    env.beginIteration
    let text ← inScope scope body
    eachScope env body (rendered ++ text) scopes

theorem forEach_eq_eachScope (key : Option String) (value : String) (length : Nat)
    (body : Action (Evaluator σ) String) (index : Nat) (rendered : String)
    (items : List (Value × Value)) :
    env.forEach key value length body index rendered items =
      env.eachScope body rendered
        ((items.zipIdx index).map fun item => loopScope key value item.2 length item.1) := by
  induction items generalizing index rendered with
  | nil => rfl
  | cons item items ih =>
    rw [forEach]
    simp only [ih, List.zipIdx_cons, List.map_cons, eachScope]

theorem get?_loopScope {value : String} (other : value ≠ "loop") (key : Option String)
    (index length : Nat) (item : Value × Value) :
    Dict.get? (loopScope key value index length item) value = some item.2 := by
  unfold loopScope
  rw [Dict.get?_insert_of_ne _ _ other, Dict.get?_insert_self]

/-- A loop, iteration by iteration. The body runs in a state with one scope more, and in the scopes of
that state the name of the values stands for what is found; after it the scope is dropped. -/
inductive Iterates (env : Env σ) (value : String) (body : Action (Evaluator σ) String) :
    List (Option Value) → String → Evaluator σ → Except Error String → Evaluator σ → Prop
  | done (rendered : String) (s : Evaluator σ) : Iterates env value body [] rendered s (.ok rendered) s
  | refused {found : Option Value} {more : List (Option Value)} {rendered : String}
      {s t : Evaluator σ} {e : Error} :
      env.beginIteration s = (.error e, t) →
      Iterates env value body (found :: more) rendered s (.error e) t
  | failed {found : Option Value} {more : List (Option Value)} {rendered : String}
      {s t u : Evaluator σ} {scope : Dict Value} {e : Error} :
      env.beginIteration s = (.ok (), t) → Scopes.get? (scope :: t.scopes) value = found →
      body { t with scopes := scope :: t.scopes } = (.error e, u) →
      Iterates env value body (found :: more) rendered s (.error e) { u with scopes := u.scopes.tail }
  | passed {found : Option Value} {more : List (Option Value)} {rendered text : String}
      {s t u v : Evaluator σ} {scope : Dict Value} {result : Except Error String} :
      env.beginIteration s = (.ok (), t) → Scopes.get? (scope :: t.scopes) value = found →
      body { t with scopes := scope :: t.scopes } = (.ok text, u) →
      Iterates env value body more (rendered ++ text) { u with scopes := u.scopes.tail } result v →
      Iterates env value body (found :: more) rendered s result v

theorem iterates_eachScope {value : String} {body : Action (Evaluator σ) String}
    {items : List Value} {scopes : List (Dict Value)}
    (bound : scopes.map (Dict.get? · value) = items.map some) (rendered : String)
    (s : Evaluator σ) :
    Iterates env value body (items.map some) rendered s (env.eachScope body rendered scopes s).1
      (env.eachScope body rendered scopes s).2 := by
  induction items generalizing scopes rendered s with
  | nil =>
    obtain rfl : scopes = [] := by simpa using bound
    exact .done rendered s
  | cons item items ih =>
    cases scopes with
    | nil => cases bound
    | cons scope scopes =>
      obtain ⟨entry, bound⟩ := List.cons_eq_cons.1 bound
      have found (outer : Scopes) : Scopes.get? (scope :: outer) value = some item := by
        rw [Scopes.get?, List.findSome?_cons, show Dict.get? scope value = some item from entry]
      rw [eachScope, Action.bind_apply]
      rcases begun : env.beginIteration s with ⟨_ | _, t⟩
      · exact .refused begun
      dsimp only
      rw [Action.bind_apply, inScope]
      rcases ran : body { t with scopes := scope :: t.scopes } with ⟨_ | text, u⟩
      · exact .failed begun (found t.scopes) ran
      · exact .passed begun (found t.scopes) ran (ih bound (rendered ++ text) _)

/-- The `keys` of a collection are as many different strings as it is long; each of them looks up the
item at its place in every loop over the collection, which binds it to the name of its values, and no
other string looks up anything. -/
theorem keys_address_items (x : Value) (collection : x.IsKeyed) (args : List Value)
    (config : Config) (now : Instant) :
    ∃ ks : List String,
      Filter.apply .keys x args config now = .ok (.array (ks.map .string)) ∧
      Filter.apply .length x args config now = .ok (.ofNat ks.length) ∧
      Value.Enumerates ks x ∧
      (∀ items, x = .array items → ∀ key ∈ ["01", "+1", "-0", " 1"], x.get? (.string key) = none) ∧
      ∀ (σ : Type) (env : Env σ) (key : Option String) (value : String) (iterable : Expr)
        (body : List Node) (otherwise : Option (List Node)) (s t : Evaluator σ),
        env.evaluate iterable s = (.ok x, t) → ks ≠ [] → value ≠ "loop" →
        ∃ scopes : List (Dict Value),
          env.renderNode (.loop key value iterable body otherwise) s =
            env.eachScope (env.deeper (env.renderNodes body)) "" scopes t ∧
          scopes.map (Dict.get? · value) = (ks.map fun key => x.get? (.string key)) ∧
          Iterates env value (env.deeper (env.renderNodes body))
            (ks.map fun key => x.get? (.string key)) "" t
            (env.renderNode (.loop key value iterable body otherwise) s).1
            (env.renderNode (.loop key value iterable body otherwise) s).2 := by
  have enumerates := collection.enumerates
  refine ⟨Dict.keys x.asMapping, collection.keys_eq, ?_, enumerates, ?_, ?_⟩
  · change x.length = _
    rw [Value.length, enumerates.length]
  · rintro items rfl key odd
    have canonical : Value.integerKey? key = none := by
      simp only [List.mem_cons, List.not_mem_nil, or_false] at odd
      rcases odd with rfl | rfl | rfl | rfl <;> decide
    rw [Value.get?, Value.index?, canonical]
    rfl
  · intro σ env key value iterable body otherwise s t evaluated nonempty other
    have some_item : x.iterated ≠ [] := by
      intro none
      have items := enumerates.items
      rw [none] at items
      exact nonempty (by simpa using items)
    rw [renderNode_loop (congrArg Prod.fst evaluated) some_item, evaluated, forEach_eq_eachScope]
    have bound : (x.iterated.zipIdx.map fun item =>
        loopScope key value item.2 x.iterated.length item.1).map (Dict.get? · value) =
        (x.iterated.map Prod.snd).map some := by
      rw [List.map_map, List.map_map]
      calc x.iterated.zipIdx.map _
        _ = (x.iterated.zipIdx.map Prod.fst).map fun item => some item.2 := by
          rw [List.map_map]
          exact List.map_congr_left fun _ _ => get?_loopScope other key _ _ _
        _ = x.iterated.map (some ∘ Prod.snd) := by rw [List.zipIdx_map_fst]; rfl
    have items := enumerates.items.trans (List.map_map (f := Prod.snd) (g := some)).symm
    rw [items]
    exact ⟨_, rfl, bound, iterates_eachScope bound "" t⟩

/-- A loop over two items. -/
theorem keys_address_items_of_pair :
    let x : Value := .array [.null, .bool true]
    let env : Env Nat := ⟨⟨[("xs", x)]⟩, {}, .counting⟩
    let body : List Node := [.output (.variable "v")]
    ∃ (ks : List String) (scopes : List (Dict Value)),
      Filter.apply .keys x [] {} ⟨0, 0⟩ = .ok (.array (ks.map .string)) ∧ ks.length = 2 ∧
      x.get? (.string "01") = none ∧
      env.renderNode (.loop none "v" (.variable "xs") body none) (.initial 0) =
        env.eachScope (env.deeper (env.renderNodes body)) "" scopes (.initial 0) ∧
      scopes.map (Dict.get? · "v") = (ks.map fun key => x.get? (.string key)) ∧
      Iterates env "v" (env.deeper (env.renderNodes body))
        (ks.map fun key => x.get? (.string key)) "" (.initial 0)
        (env.renderNode (.loop none "v" (.variable "xs") body none) (.initial 0)).1
        (env.renderNode (.loop none "v" (.variable "xs") body none) (.initial 0)).2 := by
  intro x env body
  obtain ⟨ks, keys, -, enumerates, odd, loops⟩ :=
    keys_address_items x (.array (by decide)) [] {} ⟨0, 0⟩
  have two : ks.length = 2 := (Option.some.inj enumerates.length).symm
  have nonempty : ks ≠ [] := by
    rintro rfl
    cases two
  obtain ⟨scopes, runs, bound, iterates⟩ := loops Nat env none "v" (.variable "xs") body none (.initial 0)
    (.initial 0) rfl nonempty (by decide)
  exact ⟨ks, scopes, keys, two, odd _ rfl _ (by simp), runs, bound, iterates⟩

end Env
end Stencil
