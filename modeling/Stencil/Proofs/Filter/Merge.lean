import Stencil.Proofs.Filter.Failure
import Stencil.Proofs.Value.IntegerKey

/-! Merging is a fold over the arguments. It can be said with no counter: every item of an array goes
under the key that is fresh when its turn comes. So items never meet an entry that is there, and it
does not matter whether arguments are merged in one call or in several. -/
namespace Stencil

namespace Value

variable {d d' : Dict Value} {n : Nat} {item input arg : Value} {items args : List Value}

/-- The item goes under the key that is fresh now. -/
def appendItem (d : Dict Value) (item : Value) : Dict Value :=
  Dict.insert d (Nat.repr (freshKey d)) item

/-- The entries of a mapping overwrite or come last; the items of an array come last. -/
def mergeInto (d : Dict Value) : Value → Dict Value
  | .mapping entries => entries.foldl (fun d e => Dict.insert d e.1 e.2) d
  | .array items => items.foldl appendItem d
  | _ => d

/-- A value as a mapping. The keys of an array are the places of its items. -/
def asMapping : Value → Dict Value
  | .mapping entries => entries
  | .array items => (places items.length).zip items
  | _ => []

def mergeFold (input : Value) (args : List Value) : Dict Value := args.foldl mergeInto input.asMapping

theorem mergeFold_append (input : Value) (as bs : List Value) :
    input.mergeFold (as ++ bs) = bs.foldl mergeInto (input.mergeFold as) :=
  List.foldl_append

/-- What may be merged. -/
def IsMergeable : Value → Prop
  | .mapping _ | .array _ | .null => True
  | _ => False

theorem keys_subset_insert (d : Dict Value) (key : String) (v : Value) :
    Dict.keys d ⊆ Dict.keys (Dict.insert d key v) := by
  intro k member
  rw [Dict.keys_insert]
  split
  · exact member
  · exact List.mem_append_left _ member

theorem keys_subset_foldl {α : Type} {f : Dict Value → α → Dict Value}
    (step : ∀ d a, Dict.keys d ⊆ Dict.keys (f d a)) (as : List α) (d : Dict Value) :
    Dict.keys d ⊆ Dict.keys (as.foldl f d) := by
  induction as generalizing d with
  | nil => exact List.Subset.refl _
  | cons a as ih => exact List.Subset.trans (step d a) (ih (f d a))

theorem keys_subset_appendItem (d : Dict Value) (item : Value) :
    Dict.keys d ⊆ Dict.keys (appendItem d item) :=
  keys_subset_insert d _ item

theorem keys_subset_mergeInto (d : Dict Value) (arg : Value) :
    Dict.keys d ⊆ Dict.keys (mergeInto d arg) := by
  cases arg with
  | mapping entries => exact keys_subset_foldl (fun d e => keys_subset_insert d e.1 e.2) entries d
  | array items => exact keys_subset_foldl keys_subset_appendItem items d
  | _ => exact List.Subset.refl _

/-- Below the largest machine word, counts are checked or not to the same effect. -/
theorem increment_of_lt {n : Nat} (room : n + 1 < 2 ^ 64) (checked : Bool) :
    increment checked (.ofNat n) = .ok (.ofNat (n + 1)) := by
  have word : (UInt64.ofNat n).toNat = n := UInt64.toNat_ofNat_of_lt' (Nat.lt_of_succ_lt room)
  have inside : n + 1 ≠ UInt64.size := by
    change n + 1 ≠ 2 ^ 64
    omega
  rw [increment, word, if_neg (by simp [inside]), UInt64.ofNat_add]
  rfl

theorem increment_of_last {n : Nat} (last : n + 1 = 2 ^ 64) :
    increment true (.ofNat n) = .error .overflow := by
  obtain rfl : n = 2 ^ 64 - 1 := by omega
  rfl

/-- The counter of an array argument starts at the fresh key. -/
theorem nextKey_eq (room : freshKey d < 2 ^ 64) (checked : Bool) :
    nextKey checked d = .ok (.ofNat (freshKey d)) := by
  unfold freshKey at room ⊢
  cases largest : largestKey? d with
  | none =>
    unfold largestKey? at largest
    rw [nextKey, largest]
    rfl
  | some n =>
    rw [largest] at room
    unfold largestKey? at largest
    rw [nextKey, largest]
    exact increment_of_lt room checked

theorem appendItem_eq (room : LeavesRoom d) (item : Value) :
    appendItem d item = d ++ [(Nat.repr (freshKey d), item)] :=
  Dict.insert_of_notMem item (freshKey_notMem room.freshKey_lt)

theorem keys_appendItem (room : LeavesRoom d) (item : Value) :
    Dict.keys (appendItem d item) = Dict.keys d ++ [Nat.repr (freshKey d)] := by
  simp [appendItem_eq room, Dict.keys]

theorem freshKey_appendItem (room : LeavesRoom d) (item : Value) :
    freshKey (appendItem d item) = freshKey d + 1 := by
  have has_iff (m : Nat) : HasIntegerKey (appendItem d item) m ↔
      HasIntegerKey d m ∨ m = freshKey d := by
    have last : integerKey? (Nat.repr (freshKey d)) = some (freshKey d) :=
      integerKey?_eq_some_iff.2 ⟨rfl, room.freshKey_lt⟩
    rw [← mem_integerKeys_iff, keys_appendItem room, List.filterMap_append, List.mem_append,
      mem_integerKeys_iff]
    simp [last]
  refine eq_of_forall_ge_iff fun n => ?_
  simp only [freshKey_le_iff, has_iff, Nat.succ_le_iff]
  constructor
  · exact fun all => all _ (.inr rfl)
  · rintro above m (has | rfl)
    · exact (freshKey_le_iff.1 le_rfl m has).trans above
    · exact above

/-- What an array adds to `d` comes behind all that is there: every item once, under a new key. -/
structure Adds (d : Dict Value) (items : List Value) (added : Dict Value) : Prop where
  whole : items.foldl appendItem d = d ++ added
  values : Dict.values added = items
  distinct : Dict.Distinct added
  new : ∀ key ∈ Dict.keys added, key ∉ Dict.keys d

theorem exists_adds (room : LeavesRoom (items.foldl appendItem d)) : ∃ added, Adds d items added := by
  induction items generalizing d with
  | nil => exact ⟨[], by simp, rfl, List.nodup_nil, by simp [Dict.keys]⟩
  | cons item items ih =>
    have room' : LeavesRoom d := room.of_subset
      (keys_subset_foldl keys_subset_appendItem (item :: items) d)
    have fresh := freshKey_notMem room'.freshKey_lt
    obtain ⟨added, whole, values, distinct, new⟩ := ih room
    have behind (key) (member : key ∈ Dict.keys added) :
        key ∉ Dict.keys d ∧ key ≠ Nat.repr (freshKey d) := by
      simpa [keys_appendItem room'] using new key member
    refine ⟨(Nat.repr (freshKey d), item) :: added, ?_, ?_, ?_, ?_⟩
    · rw [List.foldl_cons, whole, appendItem_eq room', List.append_assoc, List.singleton_append]
    · simpa [Dict.values] using values
    · exact List.nodup_cons.2 ⟨fun member => (behind _ member).2 rfl, distinct⟩
    · intro key member
      rcases List.mem_cons.1 member with rfl | member
      · exact fresh
      · exact (behind key member).1

/-- The counter keeps up with the fresh key. -/
theorem appendFrom_eq (room : LeavesRoom (items.foldl appendItem d)) (checked : Bool) :
    appendFrom checked d (.ofNat (freshKey d)) items = .ok (items.foldl appendItem d) := by
  induction items generalizing d with
  | nil => rfl
  | cons item items ih =>
    have room' : LeavesRoom d := room.of_subset
      (keys_subset_foldl keys_subset_appendItem (item :: items) d)
    have next : LeavesRoom (appendItem d item) := room.of_subset
      (keys_subset_foldl keys_subset_appendItem items (appendItem d item))
    have fresh := freshKey_appendItem room' item
    have small : freshKey d + 1 < 2 ^ 64 := fresh ▸ next.freshKey_lt
    rw [appendFrom, UInt64.toNat_ofNat_of_lt' room'.freshKey_lt, increment_of_lt small, ← fresh]
    exact ih room

theorem mergeOne_eq (mergeable : arg.IsMergeable) (room : LeavesRoom (mergeInto d arg))
    (checked : Bool) : mergeOne checked d arg = .ok (mergeInto d arg) := by
  cases arg with
  | array items =>
    have room' : LeavesRoom d := room.of_subset (keys_subset_mergeInto d (.array items))
    rw [mergeOne, nextKey_eq room'.freshKey_lt]
    exact appendFrom_eq room checked
  | mapping | null => rfl
  | _ => cases mergeable

theorem foldlM_mergeOne_eq (mergeable : ∀ arg ∈ args, arg.IsMergeable)
    (room : LeavesRoom (args.foldl mergeInto d)) (checked : Bool) :
    args.foldlM (mergeOne checked) d = .ok (args.foldl mergeInto d) := by
  induction args generalizing d with
  | nil => rfl
  | cons arg args ih =>
    have first : LeavesRoom (mergeInto d arg) := room.of_subset
      (keys_subset_foldl keys_subset_mergeInto args (mergeInto d arg))
    rw [List.foldlM_cons, mergeOne_eq (mergeable arg List.mem_cons_self) first checked]
    exact ih (fun arg member => mergeable arg (List.mem_cons_of_mem _ member)) room

theorem indexed_eq (items : List Value) : indexed items = (places items.length).zip items :=
  List.ext_getElem (by simp [indexed, places]) fun i _ _ => by simp [indexed, places]

theorem mergeBase_eq (mergeable : input.IsMergeable) : mergeBase input = .ok input.asMapping := by
  cases input with
  | array items => rw [mergeBase, indexed_eq, asMapping]
  | mapping | null => rfl
  | _ => cases mergeable

theorem ofMerged_of_keys (places : Dict.keys d = places d.length) (small : d.length ≤ 2 ^ 64) :
    ofMerged d = .array (Dict.values d) := by
  rw [ofMerged, places, if_pos (all_integerKey?_places small)]

theorem ofMerged_of_keys_ne (others : Dict.keys d ≠ places d.length) :
    ofMerged d = .mapping d := by
  refine if_neg fun numbered => others ?_
  simpa [Dict.keys] using keys_eq_places numbered

/-- Nothing is lost when a result is merged again. -/
theorem mergeBase_ofMerged (d : Dict Value) : mergeBase (ofMerged d) = .ok d := by
  unfold ofMerged
  split
  · next numbered =>
    have keys : Dict.keys d = places d.length := by
      simpa [Dict.keys] using keys_eq_places numbered
    have length : (Dict.values d).length = d.length := by simp [Dict.values]
    rw [mergeBase, indexed_eq, length, ← keys]
    exact congrArg _ (List.zip_of_prod rfl rfl).symm
  · rfl

theorem merge_eq (mergeable : input.IsMergeable) (others : ∀ arg ∈ args, arg.IsMergeable)
    (room : LeavesRoom (input.mergeFold args)) (checked : Bool) :
    input.merge args checked = .ok (ofMerged (input.mergeFold args)) := by
  have folded := foldlM_mergeOne_eq others room checked
  rw [merge, mergeBase_eq mergeable]
  change (args.foldlM (mergeOne checked) input.asMapping >>= fun d => pure (ofMerged d)) = _
  rw [folded]
  rfl

theorem merge_append (input : Value) (as bs : List Value) (checked : Bool) :
    input.merge (as ++ bs) checked =
      input.merge as checked >>= fun merged => merged.merge bs checked := by
  simp only [merge, List.foldlM_append, bind_assoc, pure_bind, mergeBase_ofMerged]
  refine bind_congr fun start => bind_congr fun d => ?_
  rfl

theorem nextKey_overflows (full : 2 ^ 64 ≤ freshKey d) : nextKey true d = .error .overflow := by
  unfold freshKey at full
  cases largest : largestKey? d with
  | none =>
    rw [largest] at full
    exact absurd full (by decide)
  | some n =>
    rw [largest] at full
    have small : n < 2 ^ 64 := (largestKey?_eq_some_iff.1 largest).1.2
    unfold largestKey? at largest
    rw [nextKey, largest]
    exact increment_of_last (Nat.le_antisymm small full)

/-- Behind the last item the counter takes one more step. -/
theorem appendFrom_overflows_iff (small : n < 2 ^ 64) :
    appendFrom true d (.ofNat n) items = .error .overflow ↔ 2 ^ 64 ≤ n + items.length := by
  induction items generalizing d n with
  | nil => exact iff_of_false nofun (Nat.not_le.2 small)
  | cons item items ih =>
    rw [appendFrom, List.length_cons]
    rcases Nat.lt_or_eq_of_le (Nat.succ_le_of_lt small) with inside | last
    · rw [increment_of_lt inside]
      exact (ih inside).trans (by rw [Nat.succ_add_eq_add_succ])
    · rw [increment_of_last last]
      exact iff_of_true rfl (by omega)

theorem mergeOne_overflows_iff :
    mergeOne true d arg = .error .overflow ↔
      ∃ items, arg = .array items ∧ 2 ^ 64 ≤ freshKey d + items.length := by
  cases arg with
  | array items =>
    simp only [array.injEq, exists_eq_left']
    rw [mergeOne]
    rcases Nat.lt_or_ge (freshKey d) (2 ^ 64) with small | full
    · rw [nextKey_eq small]
      exact appendFrom_overflows_iff small
    · rw [nextKey_overflows full]
      exact iff_of_true rfl (by omega)
  | mapping | null => exact iff_of_false nofun (by rintro ⟨_, ⟨⟩, _⟩)
  | _ => exact iff_of_false nofun (by rintro ⟨_, ⟨⟩, _⟩)

theorem foldlM_mergeOne_overflows_iff :
    args.foldlM (mergeOne true) d = .error .overflow ↔
      ∃ before items after d', args = before ++ .array items :: after ∧
        before.foldlM (mergeOne true) d = .ok d' ∧ 2 ^ 64 ≤ freshKey d' + items.length := by
  induction args generalizing d with
  | nil => exact iff_of_false nofun (by simp)
  | cons arg args ih =>
    rw [List.foldlM_cons, bind_eq_error_iff, mergeOne_overflows_iff]
    constructor
    · rintro (⟨items, rfl, full⟩ | ⟨d', merged, full⟩)
      · exact ⟨[], items, args, d, rfl, rfl, full⟩
      · obtain ⟨before, items, after, last, rfl, folded, full⟩ := ih.1 full
        refine ⟨arg :: before, items, after, last, rfl, ?_, full⟩
        rw [List.foldlM_cons, merged]
        exact folded
    · rintro ⟨_ | ⟨first, before⟩, items, after, last, split, folded, full⟩
      · obtain ⟨rfl, rfl⟩ := List.cons_eq_cons.1 split
        cases folded
        exact .inl ⟨items, rfl, full⟩
      · obtain ⟨rfl, rfl⟩ := List.cons_eq_cons.1 split
        rw [List.foldlM_cons, bind_eq_ok_iff] at folded
        obtain ⟨d', merged, folded⟩ := folded
        exact .inr ⟨d', merged, ih.2 ⟨before, items, after, last, rfl, folded, full⟩⟩

theorem exists_evaluation_of_merge {e : Error} (failed : input.merge args = .error e) :
    ∃ fault, e = .evaluation fault := by
  rcases input.merge_failsOnly args false failed with ⟨fault, same, -⟩ | ⟨checked, -⟩
  · exact ⟨fault, same⟩
  · cases checked

/-- What the arguments so far have made, when the next one is an array. -/
theorem exists_adds_of_array {before after : List Value}
    (room : LeavesRoom (input.mergeFold (before ++ .array items :: after))) :
    ∃ added, Adds (input.mergeFold before) items added := by
  apply exists_adds
  refine room.of_subset ?_
  rw [mergeFold_append, List.foldl_cons]
  exact keys_subset_foldl keys_subset_mergeInto after _

end Value

namespace Filter

open Value

variable {input : Value} {args : List Value}

/-- Merging arrays, mappings and nulls is the fold that asks for a fresh key before every item, as
long as the integer keys do not run out. What an array adds comes behind all that is there, under keys
of its own, one for every item. The result is an array exactly if the keys are the places of its
items. -/
theorem merge_folds (input : Value) (args : List Value) (config : Config) (now : Instant)
    (mergeable : input.IsMergeable) (others : ∀ arg ∈ args, arg.IsMergeable)
    (room : LeavesRoom (input.mergeFold args)) :
    (∃ v, apply .merge input args config now = .ok v ∧
      let merged := input.mergeFold args
      ((∃ items, v = .array items) ↔ Dict.keys merged = places merged.length) ∧
      (∀ items, v = .array items → items = Dict.values merged) ∧
      (Dict.keys merged ≠ places merged.length → v = .mapping merged)) ∧
    ∀ before items after, args = before ++ .array items :: after →
      let d := input.mergeFold before
      ∃ added, input.mergeFold (before ++ [.array items]) = d ++ added ∧
        Dict.values added = items ∧ Dict.Distinct added ∧
        ∀ key ∈ Dict.keys added, key ∉ Dict.keys d := by
  constructor
  · refine ⟨_, merge_eq mergeable others room false, ?_⟩
    intro merged
    by_cases keys : Dict.keys merged = places merged.length
    · rw [ofMerged_of_keys keys (room.length_le keys)]
      exact ⟨iff_of_true ⟨_, rfl⟩ keys, fun items same => (Value.array.inj same).symm,
        fun other => absurd keys other⟩
    · rw [ofMerged_of_keys_ne keys]
      exact ⟨iff_of_false nofun keys, nofun, fun _ => rfl⟩
  · rintro before items after rfl d
    obtain ⟨added, adds⟩ := exists_adds_of_array room
    refine ⟨added, ?_, adds.values, adds.distinct, adds.new⟩
    rw [mergeFold_append]
    exact adds.whole

/-- The next integer key after `1` is `2`, and `01` is a text. -/
theorem merge_folds_of_lookalike :
    let input : Value := .mapping [("1", .null), ("01", .null)]
    let args : List Value := [.array [.bool true], .mapping [("1", .bool false)], .null]
    let merged : Dict Value := [("1", .bool false), ("01", .null), ("2", .bool true)]
    LeavesRoom (input.mergeFold args) ∧ apply .merge input args {} ⟨0, 0⟩ = .ok (.mapping merged) := by
  intro input args merged
  have fresh : freshKey [("1", null), ("01", null)] = 2 := by decide +kernel
  have two : Nat.repr 2 = "2" := by decide
  have fold : input.mergeFold args = merged := by
    simp [mergeFold, mergeInto, asMapping, appendItem, fresh, two, Dict.insert, input, args, merged]
  have integers : (Dict.keys merged).filterMap integerKey? = [1, 2] := by decide +kernel
  have room : LeavesRoom (input.mergeFold args) := by
    intro n has
    rw [fold, ← mem_integerKeys_iff, integers] at has
    rcases List.mem_cons.1 has with rfl | has
    · decide
    · obtain rfl : n = 2 := by simpa using has
      decide
  obtain ⟨⟨v, done, -, -, mapping⟩, -⟩ :=
    merge_folds input args {} ⟨0, 0⟩ trivial (by simp [args, IsMergeable]) room
  rw [fold] at mapping
  rw [done, mapping (by decide)]
  exact ⟨room, rfl⟩

/-- If counts are checked, merging stops exactly where the keys for the items of an array would go on
past the largest machine word. -/
theorem merge_overflows_iff (input : Value) (args : List Value) (config : Config) (now : Instant) :
    apply .merge input args config now true = .error .overflow ↔
      ∃ start before items after d, mergeBase input = .ok start ∧
        args = before ++ .array items :: after ∧ before.foldlM (mergeOne true) start = .ok d ∧
        2 ^ 64 ≤ freshKey d + items.length := by
  change input.merge args true = _ ↔ _
  rw [Value.merge, bind_eq_error_iff]
  constructor
  · rintro (failed | ⟨start, base, failed⟩)
    · cases input <;> cases failed
    · rcases bind_eq_error_iff.1 failed with failed | ⟨_, _, failed⟩
      · obtain ⟨before, items, after, d, split, folded, full⟩ := foldlM_mergeOne_overflows_iff.1 failed
        exact ⟨start, before, items, after, d, base, split, folded, full⟩
      · cases failed
  · rintro ⟨start, before, items, after, d, base, split, folded, full⟩
    have failed := foldlM_mergeOne_overflows_iff.2 ⟨before, items, after, d, split, folded, full⟩
    exact .inr ⟨start, base, bind_eq_error_iff.2 (.inl failed)⟩

/-- Where the keys leave room, checking the counts changes nothing. -/
theorem merge_checked (config : Config) (now : Instant) (mergeable : input.IsMergeable)
    (others : ∀ arg ∈ args, arg.IsMergeable) (room : LeavesRoom (input.mergeFold args)) :
    apply .merge input args config now true = apply .merge input args config now :=
  (merge_eq mergeable others room true).trans (merge_eq mergeable others room false).symm

/-- The key of one item behind the largest one is zero, or there is none. -/
example : let input : Value := .mapping [("18446744073709551615", .null)]
    apply .merge input [.array [.null]] {} ⟨0, 0⟩ =
      .ok (.mapping [("18446744073709551615", .null), ("0", .null)]) ∧
    apply .merge input [.array [.null]] {} ⟨0, 0⟩ true = .error .overflow :=
  ⟨rfl, rfl⟩

/-- Arguments merged in one call or in several give the same value, or the same error, and the errors
are all errors of evaluation. -/
theorem merge_splits (input : Value) (as bs : List Value) (config : Config) (now : Instant) :
    apply .merge input (as ++ bs) config now =
        (apply .merge input as config now >>= fun merged => apply .merge merged bs config now) ∧
      ∀ args e, apply .merge input args config now = .error e → ∃ fault, e = .evaluation fault :=
  ⟨merge_append input as bs false, fun _ _ => exists_evaluation_of_merge⟩

/-- A boolean fails in whichever call it stands. -/
theorem merge_splits_of_boolean :
    ∃ fault, apply .merge .null ([.null] ++ [.bool true]) {} ⟨0, 0⟩ = .error (.evaluation fault) ∧
      (apply .merge .null [.null] {} ⟨0, 0⟩ >>= fun merged =>
        apply .merge merged [.bool true] {} ⟨0, 0⟩) = .error (.evaluation fault) := by
  obtain ⟨same, evaluation⟩ := merge_splits .null [.null] [.bool true] {} ⟨0, 0⟩
  obtain ⟨fault, failed⟩ := evaluation ([.null] ++ [.bool true]) _ rfl
  have whole : apply .merge .null ([.null] ++ [.bool true]) {} ⟨0, 0⟩ = .error (.evaluation fault) := by
    rw [← failed]
    rfl
  exact ⟨fault, whole, same ▸ whole⟩

end Filter
end Stencil
