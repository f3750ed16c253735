import Mathlib.Data.Finset.Card
import Mathlib.Data.List.Induction
import Stencil.Proofs.Action
import Stencil.Registry

/-! What a registry answers, said from all that was asked of it before: a reference stands for the
template that was put there last, if that has not been taken out since. Requests that fail leave no
trace. -/
namespace Stencil.Registry

variable {σ : Type} {config : Config} {r : Registry} {reference other : String} {t u : Template}

/-- What can be asked of a registry. A render brings its variables and its host along, and the state
that the host is in by then, whatever has happened to the host since the request before. -/
inductive Request (σ : Type)
  | save (reference source : String)
  | insert (reference : String) (t : Template)
  | load (reference : String)
  | remove (reference : String)
  | contains (reference : String)
  | size
  | render (reference : String) (context : Context) (host : Host σ) (state : σ)

inductive Answer (σ : Type)
  | template (result : Except Error Template)
  | inserted
  | removed (found : Option Template)
  | contained (found : Bool)
  | count (size : Nat)
  | text (result : Except Error String) (state : σ)

def Answer.IsFailure : Answer σ → Prop
  | .template result => ∃ e, result = .error e
  | .text result _ => ∃ e, result = .error e
  | _ => False

/-- The answer to a request, and the registry after it. -/
def ask (r : Registry) : Request σ → Answer σ × Registry
  | .save reference source => (r.save reference source).map .template id
  | .insert reference t => (.inserted, r.insert reference t)
  | .load reference => (.template (r.load reference), r)
  | .remove reference => (r.remove reference).map .removed id
  | .contains reference => (.contained (r.contains reference), r)
  | .size => (.count r.size, r)
  | .render reference context host state =>
    let (result, state) := r.render reference context host state
    (.text result state, r)

def answers (r : Registry) : List (Request σ) → List (Answer σ)
  | [] => []
  | request :: later => (r.ask request).1 :: answers (r.ask request).2 later

/-- The registry after a sequence of requests. -/
def after (r : Registry) (history : List (Request σ)) : Registry :=
  history.foldl (fun r request => (r.ask request).2) r

/-- The request puts the template under the reference. A source that is saved is compiled with the
settings of the registry; a template that is inserted has settings of its own. -/
inductive Stores (config : Config) : Request σ → String → Template → Prop
  | save {reference source : String} {nodes : List Node}
      (compiled : Node.ofSource source config = .ok nodes) :
      Stores config (.save reference source) reference ⟨nodes, config⟩
  | insert (reference : String) (t : Template) : Stores config (.insert reference t) reference t

/-- The request puts a template under the reference or takes out what is there. -/
def Changes (config : Config) (request : Request σ) (reference : String) : Prop :=
  request = .remove reference ∨ ∃ t, Stores config request reference t

/-- The template was put under the reference, and nothing has changed there since. -/
def Latest (config : Config) (history : List (Request σ)) (reference : String) (t : Template) :
    Prop :=
  ∃ before request later, history = before ++ request :: later ∧ Stores config request reference t ∧
    ∀ next ∈ later, ¬ Changes config next reference

variable {request : Request σ} {history : List (Request σ)}

/-- A request stores at most one template. -/
theorem Stores.iff (stores : Stores config request other u) :
    Stores config request reference t ↔ other = reference ∧ u = t := by
  constructor
  · intro stores'
    cases stores with
    | save compiled =>
      cases stores' with
      | save compiled' =>
        rw [compiled] at compiled'
        cases compiled'
        exact ⟨rfl, rfl⟩
    | insert =>
      cases stores'
      exact ⟨rfl, rfl⟩
  · rintro ⟨rfl, rfl⟩
    exact stores

theorem latest_concat_iff : Latest config (history ++ [request]) reference t ↔
    Stores config request reference t ∨
      ¬ Changes config request reference ∧ Latest config history reference t := by
  constructor
  · rintro ⟨before, stored, later, split, stores, unchanged⟩
    -- The last request is the one that stored the template, or it comes after that one.
    rcases List.eq_nil_or_concat later with rfl | ⟨later, last, rfl⟩
    · obtain ⟨-, same⟩ := List.append_inj' split rfl
      cases same
      exact .inl stores
    · have split : history ++ [request] = (before ++ stored :: later) ++ [last] := by
        simpa using split
      obtain ⟨rfl, same⟩ := List.append_inj' split rfl
      cases same
      exact .inr ⟨unchanged request (by simp), before, stored, later, rfl, stores,
        fun next member => unchanged next (by simp [member])⟩
  · rintro (stores | ⟨unchanged, before, stored, later, rfl, stores, others⟩)
    · exact ⟨history, request, [], rfl, stores, by simp⟩
    · refine ⟨before, stored, later ++ [request], by simp, stores, fun next member => ?_⟩
      rcases List.mem_append.1 member with earlier | last
      · exact others next earlier
      · rwa [List.mem_singleton.1 last]

theorem load_eq_ok_iff : r.load reference = .ok t ↔ Dict.get? r.templates reference = some t := by
  unfold load
  cases Dict.get? r.templates reference <;> simp

theorem load_eq_error (absent : ∀ t, r.load reference ≠ .ok t) :
    r.load reference = .error (.templateNotFound reference) := by
  simp only [ne_eq, load_eq_ok_iff] at absent
  rw [load, Option.eq_none_iff_forall_not_mem.2 absent]

theorem load_insert_iff : (r.insert other u).load reference = .ok t ↔
    other = reference ∧ u = t ∨ other ≠ reference ∧ r.load reference = .ok t := by
  rw [load_eq_ok_iff, load_eq_ok_iff, insert]
  by_cases same : other = reference
  · subst same
    simp [Dict.get?_insert_self]
  · simp [Dict.get?_insert_of_ne _ _ (Ne.symm same), same]

theorem load_remove_iff : (r.remove other).2.load reference = .ok t ↔
    other ≠ reference ∧ r.load reference = .ok t := by
  rw [load_eq_ok_iff, load_eq_ok_iff, remove]
  by_cases same : other = reference
  · subst same
    simp [Dict.get?_erase_self]
  · simp [Dict.get?_erase_of_ne _ (Ne.symm same), same]

/-- All that a request can do: nothing, as when it fails, or store a template, or take one out. -/
theorem ask_cases (r : Registry) (request : Request σ) :
    (r.ask request).2 = r ∧ (∀ reference, ¬ Changes r.config request reference) ∨
      (∃ reference t, Stores r.config request reference t ∧
        (r.ask request).2 = r.insert reference t ∧ ¬ (r.ask request).1.IsFailure) ∨
      ∃ reference, request = .remove reference ∧ (r.ask request).2 = (r.remove reference).2 ∧
        ¬ (r.ask request).1.IsFailure := by
  cases request with
  | save other source =>
    cases compiled : Node.ofSource source r.config with
    | error e =>
      refine .inl ⟨by simp [ask, save, Template.compile, compiled, Except.map], ?_⟩
      rintro reference (removes | ⟨t, ⟨compiled'⟩⟩)
      · cases removes
      · cases compiled.symm.trans compiled'
    | ok nodes =>
      refine .inr (.inl ⟨other, _, .save compiled, ?_⟩)
      simp [ask, save, Template.compile, compiled, Except.map, Answer.IsFailure]
  | insert other u => exact .inr (.inl ⟨other, u, .insert other u, rfl, id⟩)
  | remove other => exact .inr (.inr ⟨other, rfl, rfl, id⟩)
  | load | contains | size | render =>
    refine .inl ⟨rfl, ?_⟩
    rintro reference (removes | ⟨t, stores⟩)
    · cases removes
    · cases stores

/-- A request stores its template, takes one out, or leaves what the reference stands for. -/
theorem load_ask_iff (r : Registry) (request : Request σ) :
    (r.ask request).2.load reference = .ok t ↔
      Stores r.config request reference t ∨
        ¬ Changes r.config request reference ∧ r.load reference = .ok t := by
  obtain ⟨kept, unchanged⟩ | ⟨other, u, stores, stored, -⟩ | ⟨other, rfl, removed, -⟩ :=
    r.ask_cases request
  · have nothing : ¬ Stores r.config request reference t := fun stores =>
      unchanged reference (.inr ⟨t, stores⟩)
    simp [kept, unchanged, nothing]
  · have kind : request ≠ .remove reference := by cases stores <;> nofun
    simp only [stored, load_insert_iff, Changes, stores.iff, kind, false_or]
    by_cases same : other = reference <;> simp [same]
  · have nothing (t : Template) : ¬ Stores r.config (.remove other : Request σ) reference t := nofun
    simp [removed, load_remove_iff, Changes, nothing]

theorem config_ask (r : Registry) (request : Request σ) : (r.ask request).2.config = r.config := by
  obtain ⟨kept, -⟩ | ⟨other, u, -, stored, -⟩ | ⟨other, -, removed, -⟩ := r.ask_cases request
  · rw [kept]
  · rw [stored, insert]
  · rw [removed, remove]

theorem distinct_ask (distinct : Dict.Distinct r.templates) (request : Request σ) :
    Dict.Distinct (r.ask request).2.templates := by
  obtain ⟨kept, -⟩ | ⟨other, u, -, stored, -⟩ | ⟨other, -, removed, -⟩ := r.ask_cases request
  · rwa [kept]
  · rw [stored]
    exact Dict.distinct_insert distinct other u
  · rw [removed]
    exact Dict.distinct_erase distinct other

/-- What fails leaves the registry as it is. -/
theorem ask_of_isFailure (failed : (r.ask request).1.IsFailure) : (r.ask request).2 = r := by
  obtain ⟨kept, -⟩ | ⟨other, u, -, -, succeeded⟩ | ⟨other, -, -, succeeded⟩ := r.ask_cases request
  · exact kept
  · exact absurd failed succeeded
  · exact absurd failed succeeded

theorem after_concat (r : Registry) (history : List (Request σ)) (request : Request σ) :
    r.after (history ++ [request]) = ((r.after history).ask request).2 :=
  List.foldl_concat _ _ _ _

theorem config_after (r : Registry) (history : List (Request σ)) :
    (r.after history).config = r.config := by
  induction history using List.reverseRecOn with
  | nil => rfl
  | append_singleton history request ih => rw [after_concat, config_ask, ih]

theorem distinct_after (config : Config) (history : List (Request σ)) :
    Dict.Distinct ((empty config).after history).templates := by
  induction history using List.reverseRecOn with
  | nil => exact List.nodup_nil
  | append_singleton history request ih =>
    rw [after_concat]
    exact distinct_ask ih request

theorem load_after_iff (config : Config) (history : List (Request σ)) :
    ((empty config).after history).load reference = .ok t ↔ Latest config history reference t := by
  induction history using List.reverseRecOn with
  | nil =>
    constructor
    · nofun
    · rintro ⟨before, stored, later, split, -⟩
      simp at split
  | append_singleton history request ih =>
    rw [after_concat, load_ask_iff, config_after, ih, latest_concat_iff]
    rfl

theorem exists_load_iff : (∃ t, r.load reference = .ok t) ↔ r.contains reference = true := by
  simp only [load_eq_ok_iff, contains, Dict.contains, Option.isSome_iff_exists]

theorem size_eq_card (distinct : Dict.Distinct r.templates) :
    ∃ references : Finset String,
      (∀ reference, reference ∈ references ↔ ∃ t, r.load reference = .ok t) ∧
        r.size = references.card := by
  refine ⟨(Dict.keys r.templates).toFinset, fun reference => ?_, ?_⟩
  · rw [List.mem_toFinset, exists_load_iff, contains, Dict.contains_iff]
  · rw [List.toFinset_card_of_nodup distinct, Dict.keys, List.length_map, size]

theorem Latest.config_eq (latest : Latest config history reference t) :
    t.config = config ∨ .insert reference t ∈ history := by
  obtain ⟨before, stored, later, rfl, stores, -⟩ := latest
  cases stores with
  | save => exact .inl rfl
  | insert => exact .inr (by simp)

theorem save_fst (r : Registry) (reference source : String) :
    (r.save reference source).1 = Template.compile source r.config := by
  unfold save
  split <;> simp_all

theorem answers_append (r : Registry) (history later : List (Request σ)) :
    r.answers (history ++ later) = r.answers history ++ (r.after history).answers later := by
  induction history generalizing r with
  | nil => rfl
  | cons request history ih => exact congrArg _ (ih (r.ask request).2)

/-- After any requests a reference stands for the template that was put there last, unless it was
taken out since. A saved template has the settings of the registry, an inserted one its own, and it
is rendered with those. What fails changes none of the answers that follow. -/
theorem history_law (config : Config) (history : List (Request σ)) :
    let r := (empty config).after history
    (∀ reference t, r.load reference = .ok t ↔ Latest config history reference t) ∧
      (∀ reference, (∀ t, ¬ Latest config history reference t) →
        r.load reference = .error (.templateNotFound reference)) ∧
      (∃ references : Finset String,
        (∀ reference, reference ∈ references ↔ ∃ t, r.load reference = .ok t) ∧
          r.size = references.card) ∧
      (∀ reference, r.contains reference = true ↔ ∃ t, r.load reference = .ok t) ∧
      (∀ reference source, (r.save reference source).1 = Template.compile source config) ∧
      (∀ reference t, Latest config history reference t →
        t.config = config ∨ .insert reference t ∈ history) ∧
      (∀ reference context (host : Host σ) state, r.render reference context host state =
        match r.load reference with
        | .ok t => t.renderWith context t.config host state
        | .error e => (.error e, state)) ∧
      ∀ request : Request σ, (r.ask request).1.IsFailure → ∀ later, ∃ rest,
        (empty config).answers (history ++ later) = (empty config).answers history ++ rest ∧
          (empty config).answers (history ++ request :: later) =
            (empty config).answers history ++ (r.ask request).1 :: rest := by
  intro r
  have latest_iff (reference t) : r.load reference = .ok t ↔ Latest config history reference t :=
    load_after_iff config history
  have settings : r.config = config := config_after (empty config) history
  refine ⟨latest_iff, ?_, size_eq_card (distinct_after config history),
    fun reference => exists_load_iff.symm, ?_, fun reference t => Latest.config_eq,
    fun reference context host state => rfl, ?_⟩
  · intro reference absent
    exact load_eq_error fun t found => absent t ((latest_iff reference t).1 found)
  · intro reference source
    rw [save_fst, settings]
  · intro request failed later
    refine ⟨r.answers later, answers_append _ _ _, ?_⟩
    have same : (r.ask request).2 = r := ask_of_isFailure failed
    rw [answers_append]
    change _ ++ (r.ask request).1 :: (r.ask request).2.answers later = _
    rw [same]

/-- A source that does not compile leaves the template that was saved before it. -/
theorem history_law_of_failed_save :
    let history : List (Request Unit) := [.save "t" "a", .insert "u" ⟨[], {}⟩, .remove "u"]
    let r := (empty {}).after history
    r.load "t" = .ok ⟨[.text "a"], {}⟩ ∧ r.load "u" = .error (.templateNotFound "u") ∧
      ∃ rest, (empty {}).answers (history ++ [.load "t"]) = (empty {}).answers history ++ rest ∧
        (empty {}).answers (history ++ [.save "t" "\x7b\x7b", .load "t"]) =
          (empty {}).answers history ++ (r.ask (.save "t" "\x7b\x7b")).1 :: rest := by
  intro history r
  obtain ⟨latest_iff, absent, -, -, saves, -, -, failing⟩ := history_law {} history
  refine ⟨(latest_iff "t" _).2 ?_, absent "u" fun t latest => ?_,
    failing (.save "t" "\x7b\x7b") ?_ [.load "t"]⟩
  · have compiled : Node.ofSource "a" {} = .ok [.text "a"] := by cbv
    refine ⟨[], _, _, rfl, .save compiled, ?_⟩
    rintro next member (rfl | ⟨t, stores⟩)
    · simp at member
    · cases stores <;> simp at member
  · have removed : Latest {} ([.save "t" "a", .insert "u" ⟨[], {}⟩] ++ [.remove "u"]) "u" t :=
      latest
    obtain stores | ⟨unchanged, -⟩ := latest_concat_iff.1 removed
    · cases stores
    · exact unchanged (.inl rfl)
  · have failed : Template.compile "\x7b\x7b" {} = .error (.lex (.unterminatedTag .output) 0) := by
      cbv
    exact ⟨_, (saves "t" "\x7b\x7b").trans failed⟩

end Stencil.Registry
