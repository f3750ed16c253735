import Stencil.Filter.Apply
import Stencil.Proofs.Action

/-! Filters fail for reasons of their own: with a value that does not suit them, or with a date, a zone
or a timestamp that names none. If counts are checked, they give what they give otherwise, or stop
with the overflow of a count. -/
namespace Stencil

/-- A reason for which filters fail. -/
inductive EvalFault.IsOfFilter : EvalFault → Prop
  | unsuitable (filter : Filter) (got : Kind) : IsOfFilter (.unsuitable filter got)
  | unsuitableArgument (filter : Filter) (got : Kind) : IsOfFilter (.unsuitableArgument filter got)
  | unknownZone (text : String) : IsOfFilter (.unknownZone text)
  | unknownDate (text : String) : IsOfFilter (.unknownDate text)
  | infiniteTimestamp : IsOfFilter .infiniteTimestamp
  | timestampOutOfRange (milliseconds : Number) : IsOfFilter (.timestampOutOfRange milliseconds)

/-- The error of a filter that fails. -/
def Error.IsOfFilter (e : Error) : Prop := ∃ fault, e = .evaluation fault ∧ fault.IsOfFilter

/-- What ends a filter: an error of its own or, if counts are checked, an overflow. -/
def Error.EndsFilter (checked : Bool) (e : Error) : Prop :=
  e.IsOfFilter ∨ checked = true ∧ e = .overflow

/-- `x` is what `y` is, or the overflow of a count. -/
def OrOverflows {α : Type} (x y : Except Error α) : Prop := x = y ∨ x = .error .overflow

theorem OrOverflows.refl {α : Type} (x : Except Error α) : OrOverflows x x := .inl rfl

theorem OrOverflows.bind {α β : Type} {x y : Except Error α} {f g : α → Except Error β}
    (first : OrOverflows x y) (next : ∀ a, OrOverflows (f a) (g a)) :
    OrOverflows (x >>= f) (y >>= g) := by
  rcases first with rfl | rfl
  · cases x with
    | ok a => exact next a
    | error e => exact .inl rfl
  · exact .inr rfl

theorem failsOnly_fault {α : Type} {fault : EvalFault} (known : fault.IsOfFilter) :
    FailsOnly Error.IsOfFilter (.error (.evaluation fault) : Except Error α) :=
  failsOnly_error ⟨fault, rfl, known⟩

namespace Value

variable (v input : Value) (args : List Value)

theorem unsuitable_failsOnly (filter : Filter) : FailsOnly Error.IsOfFilter (v.unsuitable filter) :=
  failsOnly_fault (.unsuitable filter v.kind)

theorem increment_failsOnly (checked : Bool) (n : UInt64) :
    FailsOnly (Error.EndsFilter checked) (increment checked n) := by
  unfold increment
  split
  · next stops => exact failsOnly_error (.inr ⟨(Bool.and_eq_true_iff.1 stops).1, rfl⟩)
  · exact failsOnly_ok _

theorem nextKey_failsOnly (checked : Bool) (d : Dict Value) :
    FailsOnly (Error.EndsFilter checked) (nextKey checked d) := by
  unfold nextKey
  split
  · exact increment_failsOnly checked _
  · exact failsOnly_ok _

theorem appendFrom_failsOnly (checked : Bool) (d : Dict Value) (next : UInt64)
    (items : List Value) : FailsOnly (Error.EndsFilter checked) (appendFrom checked d next items) := by
  induction items generalizing d next with
  | nil => exact failsOnly_ok d
  | cons item items ih => exact (increment_failsOnly checked next).bind fun next => ih _ next

theorem merge_failsOnly (checked : Bool) :
    FailsOnly (Error.EndsFilter checked) (input.merge args checked) := by
  have fault {α : Type} {fault : EvalFault} (known : fault.IsOfFilter) :
      FailsOnly (Error.EndsFilter checked) (.error (.evaluation fault) : Except Error α) :=
    (failsOnly_fault known).mono fun _ => .inl
  have base : FailsOnly (Error.EndsFilter checked) input.mergeBase := by
    cases input with
    | array | mapping | null => exact failsOnly_ok _
    | _ => exact fault (.unsuitable _ _)
  have step (d : Dict Value) (arg : Value) :
      FailsOnly (Error.EndsFilter checked) (mergeOne checked d arg) := by
    cases arg with
    | array items =>
      exact (nextKey_failsOnly checked d).bind fun next => appendFrom_failsOnly checked d next items
    | mapping | null => exact failsOnly_ok _
    | _ => exact fault (.unsuitableArgument _ _)
  have steps (d : Dict Value) :
      FailsOnly (Error.EndsFilter checked) (args.foldlM (mergeOne checked) d) := by
    induction args generalizing d with
    | nil => exact failsOnly_ok d
    | cons arg args ih =>
      rw [List.foldlM_cons]
      exact (step d arg).bind ih
  exact base.bind fun d => (steps d).bind fun _ => failsOnly_ok _

theorem increment_orOverflows (n : UInt64) :
    OrOverflows (increment true n) (increment false n) := by
  unfold increment
  split
  · exact .inr rfl
  · exact .inl rfl

theorem mergeOne_orOverflows (d : Dict Value) (arg : Value) :
    OrOverflows (mergeOne true d arg) (mergeOne false d arg) := by
  have next : OrOverflows (nextKey true d) (nextKey false d) := by
    unfold nextKey
    split
    · exact increment_orOverflows _
    · exact .refl _
  have appended (items : List Value) (d : Dict Value) (next : UInt64) :
      OrOverflows (appendFrom true d next items) (appendFrom false d next items) := by
    induction items generalizing d next with
    | nil => exact .refl _
    | cons item items ih => exact (increment_orOverflows next).bind fun next => ih _ next
  cases arg with
  | array items => exact next.bind (appended items d)
  | _ => exact .refl _

theorem merge_orOverflows : OrOverflows (input.merge args true) (input.merge args false) := by
  have steps (d : Dict Value) :
      OrOverflows (args.foldlM (mergeOne true) d) (args.foldlM (mergeOne false) d) := by
    induction args generalizing d with
    | nil => exact .refl _
    | cons arg args ih =>
      rw [List.foldlM_cons, List.foldlM_cons]
      exact (mergeOne_orOverflows d arg).bind ih
  exact (OrOverflows.refl input.mergeBase).bind fun d => (steps d).bind fun _ => .refl _

theorem instantOfNumber_failsOnly (n : Number) : FailsOnly Error.IsOfFilter (instantOfNumber n) := by
  unfold instantOfNumber
  split
  · exact failsOnly_fault .infiniteTimestamp
  · dsimp only
    split
    · exact failsOnly_ok _
    · exact failsOnly_fault (.timestampOutOfRange n)

theorem toInstant_failsOnly (zone : Zone) (now : Instant) :
    FailsOnly Error.IsOfFilter (v.toInstant zone now) := by
  unfold toInstant
  split
  · exact failsOnly_ok _
  · exact instantOfNumber_failsOnly _
  · split
    · exact instantOfNumber_failsOnly _
    · split
      · exact failsOnly_ok _
      · exact failsOnly_fault (.unknownDate _)
  · exact failsOnly_fault (.unsuitable _ _)

theorem formatDate_failsOnly (format zone : Option String) (config : Config) (now : Instant) :
    FailsOnly Error.IsOfFilter (v.formatDate format zone config now) := by
  -- Both ways to choose the zone go on like this.
  have after (shown : Zone) : FailsOnly Error.IsOfFilter (v.toInstant config.timezone now >>=
      fun instant => pure ((Moment.mk instant shown).format (format.getD Moment.defaultFormat))) :=
    (v.toInstant_failsOnly _ _).bind fun _ => failsOnly_ok _
  unfold formatDate
  split
  · exact after config.timezone
  · split
    · next zone _ => exact after zone
    · exact failsOnly_fault (.unknownZone _)

end Value

namespace Filter

theorem apply_failsOnly (filter : Filter) (input : Value) (args : List Value) (config : Config)
    (now : Instant) (checked : Bool) :
    FailsOnly (Error.EndsFilter checked) (filter.apply input args config now checked) := by
  cases filter with
  | sort | keys =>
    cases input with
    | array | mapping => exact failsOnly_ok _
    | _ => exact (Value.unsuitable_failsOnly _ _).mono fun _ => .inl
  | reverse =>
    cases input with
    | array | mapping | string => exact failsOnly_ok _
    | _ => exact (Value.unsuitable_failsOnly _ _).mono fun _ => .inl
  | length =>
    unfold apply Value.length
    dsimp only
    split
    · exact failsOnly_ok _
    · exact (Value.unsuitable_failsOnly _ _).mono fun _ => .inl
  | merge => exact input.merge_failsOnly args checked
  | date => exact ((input.formatDate_failsOnly _ _ config now).map).mono fun _ => .inl
  | _ => exact failsOnly_ok _

/-- A filter that is applied by its name fails as filters do, or because nobody knows the name. -/
theorem applyNamed_failsOnly (name : String) (input : Value) (args : List Value) (config : Config)
    (now : Instant) (checked : Bool) :
    FailsOnly (fun e => e = .unknownFilter name ∨ e.EndsFilter checked)
      (applyNamed name input args config now checked) := by
  unfold applyNamed
  split
  · exact (apply_failsOnly _ _ _ _ _ _).mono fun _ => .inr
  · exact failsOnly_error (.inl rfl)

theorem applyNamed_ne_tooDeep (name : String) (input : Value) (args : List Value) (config : Config)
    (now : Instant) (checked : Bool) (limit : Nat) :
    applyNamed name input args config now checked ≠ .error (.evaluation (.tooDeep limit)) := by
  intro failed
  rcases applyNamed_failsOnly _ _ _ _ _ _ failed with other | ⟨_, same, known⟩ | ⟨_, other⟩
  · cases other
  · cases same
    cases known
  · cases other

/-- Checking the counts changes nothing but that an overflow stops the filter. -/
theorem applyNamed_orOverflows (name : String) (input : Value) (args : List Value)
    (config : Config) (now : Instant) :
    OrOverflows (applyNamed name input args config now true)
      (applyNamed name input args config now false) := by
  unfold applyNamed
  split
  · next filter _ =>
    cases filter with
    | merge => exact input.merge_orOverflows args
    | _ => exact .refl _
  · exact .refl _

end Filter
end Stencil
