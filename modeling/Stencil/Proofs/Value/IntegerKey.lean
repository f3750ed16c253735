import Mathlib
import Stencil.Value

/-! Keys that are canonical decimals: the largest of them, the one behind it, and when a mapping has the
keys of an array. -/
namespace Stencil

namespace Value

variable {d d' : Dict Value} {n : Nat}

theorem ofDigits_repr (n : Nat) : Text.ofDigits (Nat.repr n).toList = n := by
  rw [Nat.toList_repr]
  exact Nat.ofDigitChars_ten_toDigits

theorem integerKey?_eq_some_iff {key : String} {n : Nat} :
    integerKey? key = some n ↔ key = Nat.repr n ∧ n < 2 ^ 64 := by
  simp only [integerKey?, Bool.and_eq_true, decide_eq_true_eq, Option.ite_none_right_eq_some,
    Option.some.injEq]
  constructor
  · rintro ⟨⟨canonical, small⟩, rfl⟩
    exact ⟨canonical.symm, small⟩
  · rintro ⟨rfl, small⟩
    rw [ofDigits_repr]
    exact ⟨⟨rfl, small⟩, rfl⟩

/-- Keys from `2 ^ 64` on are no integer keys. -/
def HasIntegerKey (d : Dict Value) (n : Nat) : Prop := Nat.repr n ∈ Dict.keys d ∧ n < 2 ^ 64

def largestKey? (d : Dict Value) : Option Nat := ((Dict.keys d).filterMap integerKey?).max?

theorem mem_integerKeys_iff :
    n ∈ (Dict.keys d).filterMap integerKey? ↔ HasIntegerKey d n := by
  simp only [List.mem_filterMap, integerKey?_eq_some_iff]
  constructor
  · rintro ⟨key, member, rfl, small⟩
    exact ⟨member, small⟩
  · rintro ⟨member, small⟩
    exact ⟨_, member, rfl, small⟩

theorem largestKey?_eq_some_iff :
    largestKey? d = some n ↔ HasIntegerKey d n ∧ ∀ m, HasIntegerKey d m → m ≤ n := by
  simp only [largestKey?, List.max?_eq_some_iff, mem_integerKeys_iff]

theorem largestKey?_eq_none_iff : largestKey? d = none ↔ ∀ n, ¬ HasIntegerKey d n := by
  simp only [largestKey?, List.max?_eq_none_iff, List.eq_nil_iff_forall_not_mem,
    mem_integerKeys_iff]

/-- One plus the largest integer key, and zero if there is none. -/
def freshKey (d : Dict Value) : Nat :=
  match largestKey? d with
  | some n => n + 1
  | none => 0

theorem freshKey_le_iff : freshKey d ≤ n ↔ ∀ m, HasIntegerKey d m → m < n := by
  unfold freshKey
  cases largest : largestKey? d with
  | none =>
    have none := largestKey?_eq_none_iff.1 largest
    exact iff_of_true (Nat.zero_le n) fun m has => absurd has (none m)
  | some k =>
    obtain ⟨has, greatest⟩ := largestKey?_eq_some_iff.1 largest
    exact ⟨fun le m has' => (greatest m has').trans_lt le, fun all => all k has⟩

theorem freshKey_notMem (small : freshKey d < 2 ^ 64) : Nat.repr (freshKey d) ∉ Dict.keys d :=
  fun member => Nat.lt_irrefl _ (freshKey_le_iff.1 le_rfl _ ⟨member, small⟩)

/-- No integer key reaches the last one, so there is always another one. -/
def LeavesRoom (d : Dict Value) : Prop := ∀ n, HasIntegerKey d n → n < 2 ^ 64 - 1

theorem LeavesRoom.of_subset (room : LeavesRoom d') (subset : Dict.keys d ⊆ Dict.keys d') :
    LeavesRoom d :=
  fun n has => room n ⟨subset has.1, has.2⟩

theorem LeavesRoom.freshKey_lt (room : LeavesRoom d) : freshKey d < 2 ^ 64 :=
  (freshKey_le_iff.2 room).trans_lt (by decide)

/-- The keys `0` to `n - 1`. -/
def places (n : Nat) : List String := (List.range n).map Nat.repr

theorem keys_eq_places {keys : List String}
    (inOrder : (keys.zipIdx.all fun (key, i) => integerKey? key == some i) = true) :
    keys = places keys.length := by
  have canonical (i : Nat) (key : String) (found : keys[i]? = some key) : key = Nat.repr i := by
    have member : (key, i) ∈ keys.zipIdx := List.mem_zipIdx_iff_getElem?.2 found
    have index := List.all_eq_true.1 inOrder (key, i) member
    exact (integerKey?_eq_some_iff.1 (beq_iff_eq.1 index)).1
  refine List.ext_getElem (by simp [places]) fun i inside _ => ?_
  rw [canonical i keys[i] (List.getElem?_eq_getElem inside)]
  simp [places]

theorem all_integerKey?_places {n : Nat} (small : n ≤ 2 ^ 64) :
    ((places n).zipIdx.all fun (key, i) => integerKey? key == some i) = true := by
  rw [List.all_eq_true]
  rintro ⟨key, i⟩ member
  have found : (places n)[i]? = some key := List.mem_zipIdx_iff_getElem?.1 member
  obtain ⟨inside, rfl⟩ : i < n ∧ Nat.repr i = key := by
    simpa [places, List.getElem?_eq_some_iff, and_assoc] using found
  exact beq_iff_eq.2 (integerKey?_eq_some_iff.2 ⟨rfl, inside.trans_le small⟩)

theorem LeavesRoom.length_le (room : LeavesRoom d) (keys : Dict.keys d = places d.length) :
    d.length ≤ 2 ^ 64 := by
  by_contra long
  have last : Nat.repr (2 ^ 64 - 1) ∈ Dict.keys d := by
    rw [keys]
    exact List.mem_map_of_mem (List.mem_range.2 (by omega))
  exact Nat.lt_irrefl _ (room _ ⟨last, by decide⟩)

end Value

end Stencil
