/-! Dictionaries keep their entries in the order in which the keys first came. -/
namespace Stencil

abbrev Dict (α : Type) := List (String × α)

namespace Dict

variable {α : Type}

def get? : Dict α → String → Option α
  | [], _ => none
  | (k, a) :: d, key => if k = key then some a else get? d key

def contains (d : Dict α) (key : String) : Bool := (get? d key).isSome

/-- A new key comes last; a key that is there keeps its place and takes the new value. -/
def insert : Dict α → String → α → Dict α
  | [], key, value => [(key, value)]
  | (k, a) :: d, key, value => if k = key then (k, value) :: d else (k, a) :: insert d key value

def erase (d : Dict α) (key : String) : Dict α := d.filter (·.1 ≠ key)

def keys (d : Dict α) : List String := d.map Prod.fst

def values (d : Dict α) : List α := d.map Prod.snd

/-- Every key stands in one place. -/
def Distinct (d : Dict α) : Prop := (keys d).Nodup

/-- Inserts the entries of `more` one after the other. -/
def insertAll (d : Dict α) (more : List (String × α)) : Dict α :=
  more.foldl (fun d (key, value) => insert d key value) d

def ofList (entries : List (String × α)) : Dict α := insertAll [] entries

@[simp] theorem get?_nil (key : String) : get? ([] : Dict α) key = none := rfl

theorem get?_insert_self (d : Dict α) (key : String) (value : α) :
    get? (insert d key value) key = some value := by
  induction d with
  | nil => simp [insert, get?]
  | cons e d ih =>
    unfold insert
    split <;> simp_all [get?]

theorem get?_insert_of_ne (d : Dict α) {key other : String} (value : α) (h : other ≠ key) :
    get? (insert d key value) other = get? d other := by
  induction d with
  | nil => simp [insert, get?, Ne.symm h]
  | cons e d ih =>
    unfold insert
    split
    · simp_all [get?, Ne.symm h]
    · simp [get?, ih]

theorem get?_eq_none_iff {d : Dict α} {key : String} : get? d key = none ↔ key ∉ keys d := by
  induction d with
  | nil => simp [keys]
  | cons e d ih =>
    simp only [keys] at ih ⊢
    unfold get?
    split
    · simp_all
    · next hne => simp [ih, Ne.symm hne]

theorem mem_of_get?_eq_some {d : Dict α} {key : String} {a : α} (found : get? d key = some a) :
    (key, a) ∈ d := by
  induction d with
  | nil => cases found
  | cons e d ih =>
    unfold get? at found
    split at found
    · next same =>
      obtain rfl := same
      cases found
      exact List.mem_cons_self
    · exact List.mem_cons_of_mem _ (ih found)

/-- Where no key comes twice, every entry is found. -/
theorem get?_eq_some_iff {d : Dict α} (distinct : Distinct d) {key : String} {a : α} :
    get? d key = some a ↔ (key, a) ∈ d := by
  refine ⟨mem_of_get?_eq_some, fun member => ?_⟩
  induction d with
  | nil => cases member
  | cons e d ih =>
    obtain ⟨new, rest⟩ : e.1 ∉ keys d ∧ Distinct d := List.nodup_cons.1 distinct
    unfold get?
    rcases List.mem_cons.1 member with rfl | later
    · exact if_pos rfl
    · have other : e.1 ≠ key := fun same => new (List.mem_map.2 ⟨_, later, same.symm⟩)
      rw [if_neg other]
      exact ih rest later

theorem contains_iff {d : Dict α} {key : String} : contains d key = true ↔ key ∈ keys d := by
  rw [contains, Option.isSome_iff_ne_none, Ne, get?_eq_none_iff, Decidable.not_not]

theorem keys_insert (d : Dict α) (key : String) (value : α) :
    keys (insert d key value) = if key ∈ keys d then keys d else keys d ++ [key] := by
  induction d with
  | nil => simp [insert, keys]
  | cons e d ih =>
    simp only [keys] at ih ⊢
    unfold insert
    split
    · simp_all
    · next hne =>
      by_cases hk : key ∈ d.map Prod.fst <;> simp_all [eq_comm]

theorem distinct_insert {d : Dict α} (h : Distinct d) (key : String) (value : α) :
    Distinct (insert d key value) := by
  unfold Distinct at h ⊢
  rw [keys_insert]
  split
  · exact h
  · next hk => exact List.nodup_append.2 ⟨h, by simp, fun a ha b hb => by simp_all; grind⟩

theorem Distinct.perm {d d' : Dict α} (distinct : Distinct d) (perm : d.Perm d') : Distinct d' :=
  (perm.map Prod.fst).nodup_iff.1 distinct

theorem insert_of_notMem {d : Dict α} {key : String} (value : α) (new : key ∉ keys d) :
    insert d key value = d ++ [(key, value)] := by
  induction d with
  | nil => rfl
  | cons e d ih =>
    obtain ⟨first, later⟩ : key ≠ e.1 ∧ key ∉ keys d := by simpa [keys] using new
    rw [insert, if_neg (Ne.symm first), ih later, List.cons_append]

theorem insertAll_of_distinct {d more : Dict α} (distinct : Distinct (d ++ more)) :
    insertAll d more = d ++ more := by
  induction more generalizing d with
  | nil => simp [insertAll]
  | cons e more ih =>
    have new : e.1 ∉ keys d := by
      have apart := (List.nodup_append.1 (by simpa [Distinct, keys] using distinct)).2.2
      exact fun member => apart e.1 member e.1 (by simp) rfl
    have rest : Distinct ((d ++ [e]) ++ more) := by simpa using distinct
    have step : insertAll d (e :: more) = insertAll (insert d e.1 e.2) more := rfl
    rw [step, insert_of_notMem e.2 new, ih rest, List.append_assoc]
    rfl

theorem get?_erase_self (d : Dict α) (key : String) : get? (erase d key) key = none :=
  get?_eq_none_iff.2 (by simp [erase, keys])

theorem get?_erase_of_ne (d : Dict α) {key other : String} (h : other ≠ key) :
    get? (erase d key) other = get? d other := by
  induction d with
  | nil => rfl
  | cons e d ih =>
    by_cases same : e.1 = key
    · have erased : erase (e :: d) key = erase d key := by simp [erase, same]
      rw [erased, ih, get?, if_neg (same ▸ Ne.symm h)]
    · have kept : erase (e :: d) key = e :: erase d key := by simp [erase, same]
      rw [kept, get?, get?, ih]

theorem distinct_erase {d : Dict α} (h : Distinct d) (key : String) : Distinct (erase d key) :=
  h.sublist (List.filter_sublist.map Prod.fst)

/-- Entries with distinct keys stay as they are. -/
theorem ofList_of_distinct {d : Dict α} (distinct : Distinct d) : ofList d = d :=
  insertAll_of_distinct distinct

end Dict
end Stencil
