import Mathlib.Data.List.Perm.Subperm
import Stencil.Proofs.Value.Nested
import Stencil.Value.Compare

/-! Both equalities of values are symmetric, and a value equals itself unless it has NaN inside. The
structural one does not see in which order entries stand. -/
namespace Stencil

namespace Number

variable {a b : Number}

theorem equal_iff : a.equal b = true ↔
    a.isUnordered = false ∧ b.isUnordered = false ∧ a.key = b.key := by
  unfold equal compare?
  cases a.isUnordered <;> cases b.isUnordered <;> simp

theorem equal_comm (a b : Number) : a.equal b = b.equal a := by
  rw [Bool.eq_iff_iff, equal_iff, equal_iff]
  constructor <;> exact fun ⟨left, right, keys⟩ => ⟨right, left, keys.symm⟩

theorem equal_self_iff : a.equal a = true ↔ a.isUnordered = false := by
  simp [equal_iff]

end Number

namespace Value

variable {a b v w : Value} {as bs cs : List Value} {es fs : List (String × Value)}

theorem sameItems_comm (comm : ∀ a ∈ as, ∀ b ∈ bs, same a b = same b a) :
    sameItems as bs = sameItems bs as := by
  induction as generalizing bs with
  | nil => cases bs <;> rfl
  | cons a as ih =>
    cases bs with
    | nil => rfl
    | cons b bs =>
      have rest : sameItems as bs = sameItems bs as := ih fun x hx y hy =>
        comm x (List.mem_cons_of_mem a hx) y (List.mem_cons_of_mem b hy)
      rw [sameItems, sameItems, comm a List.mem_cons_self b List.mem_cons_self, rest]

theorem sameItems_self_iff : sameItems as as = true ↔ ∀ a ∈ as, same a a = true := by
  induction as with
  | nil => simp [sameItems]
  | cons a as ih => rw [sameItems, Bool.and_eq_true, ih, List.forall_mem_cons]

theorem allIn_eq_all : allIn es fs = es.all fun e => (Dict.get? fs e.1).any (same e.2) := by
  induction es with
  | nil => rfl
  | cons e es ih =>
    rw [allIn, ih, List.all_cons]
    cases Dict.get? fs e.1 <;> rfl

theorem same_mapping_iff : same (.mapping es) (.mapping fs) = true ↔
    es.length = fs.length ∧ ∀ e ∈ es, ∃ b, Dict.get? fs e.1 = some b ∧ same e.2 b = true := by
  simp only [same, allIn_eq_all, Bool.and_eq_true, beq_iff_eq, List.all_eq_true, Option.any_eq_true]

/-- Where no key comes twice, the entries of one mapping cannot all be found in another one of the
same length and leave out one of that. -/
theorem same_mapping_symm (distinct : Dict.Distinct es) (distinct' : Dict.Distinct fs)
    (symm : ∀ e ∈ es, ∀ f ∈ fs, same e.2 f.2 = true → same f.2 e.2 = true)
    (equal : same (.mapping es) (.mapping fs) = true) :
    same (.mapping fs) (.mapping es) = true := by
  obtain ⟨length, found⟩ := same_mapping_iff.1 equal
  have subset : Dict.keys es ⊆ Dict.keys fs := by
    intro key member
    obtain ⟨e, inside, rfl⟩ := List.mem_map.1 member
    obtain ⟨b, lookup, -⟩ := found e inside
    exact List.mem_map.2 ⟨_, Dict.mem_of_get?_eq_some lookup, rfl⟩
  have perm : (Dict.keys es).Perm (Dict.keys fs) :=
    (List.subperm_of_subset distinct subset).perm_of_length_le (by simp [Dict.keys, length])
  refine same_mapping_iff.2 ⟨length.symm, fun f member => ?_⟩
  obtain ⟨e, inside, key⟩ := List.mem_map.1 (perm.mem_iff.2 (List.mem_map_of_mem member))
  obtain ⟨b, lookup, equal⟩ := found e inside
  have lookup' : Dict.get? fs f.1 = some f.2 := (Dict.get?_eq_some_iff distinct').2 member
  rw [key, lookup'] at lookup
  cases lookup
  exact ⟨e.2, key ▸ (Dict.get?_eq_some_iff distinct).2 inside, symm e inside f member equal⟩

theorem same_comm (distinct : a.HasDistinctKeys) (distinct' : b.HasDistinctKeys) :
    same a b = same b a := by
  induction a generalizing b with
  | null => cases b <;> rfl
  | bool | string | callable => cases b <;> simp [same, Bool.beq_comm]
  | number n => cases b <;> simp [same, Number.equal_comm n]
  | array as ih =>
    cases b with
    | array bs =>
      rw [hasDistinctKeys_array] at distinct distinct'
      exact sameItems_comm fun a ha b hb => ih a ha (distinct a ha) (distinct' b hb)
    | _ => rfl
  | mapping es ih =>
    cases b with
    | mapping fs =>
      obtain ⟨keys, inside⟩ := hasDistinctKeys_mapping.1 distinct
      obtain ⟨keys', inside'⟩ := hasDistinctKeys_mapping.1 distinct'
      have comm (e) (he : e ∈ es) (f) (hf : f ∈ fs) : same e.2 f.2 = same f.2 e.2 :=
        ih e he (inside e he) (inside' f hf)
      rw [Bool.eq_iff_iff]
      constructor
      · exact same_mapping_symm keys keys' fun e he f hf equal => comm e he f hf ▸ equal
      · exact same_mapping_symm keys' keys fun f hf e he equal => (comm e he f hf).symm ▸ equal
    | _ => rfl

theorem same_self_iff (distinct : a.HasDistinctKeys) : same a a = true ↔ a.IsFreeOfNaN := by
  induction a with
  | null | bool | string | callable =>
    exact iff_of_true (by simp [same]) (everywhere_iff.2 ⟨trivial, trivial⟩)
  | number n => rw [isFreeOfNaN_number, same, Number.equal_self_iff]
  | array as ih =>
    rw [hasDistinctKeys_array] at distinct
    rw [isFreeOfNaN_array, same, sameItems_self_iff]
    exact forall₂_congr fun a member => ih a member (distinct a member)
  | mapping es ih =>
    obtain ⟨keys, inside⟩ := hasDistinctKeys_mapping.1 distinct
    rw [isFreeOfNaN_mapping, same_mapping_iff, and_iff_right rfl]
    refine forall₂_congr fun e member => ?_
    rw [(Dict.get?_eq_some_iff keys).2 member, ← ih e member (inside e member)]
    simp

/-- `w` is `v` with the entries of its mappings, at any depth, in another order. -/
inductive Reordered : Value → Value → Prop
  | refl (v : Value) : Reordered v v
  | trans {u v w : Value} (first : Reordered u v) (second : Reordered v w) : Reordered u w
  | entries {es fs : List (String × Value)} (perm : es.Perm fs) :
      Reordered (.mapping es) (.mapping fs)
  | item {v w : Value} (as bs : List Value) (inside : Reordered v w) :
      Reordered (.array (as ++ v :: bs)) (.array (as ++ w :: bs))
  | entry {v w : Value} (es fs : List (String × Value)) (key : String) (inside : Reordered v w) :
      Reordered (.mapping (es ++ (key, v) :: fs)) (.mapping (es ++ (key, w) :: fs))

theorem Reordered.hasDistinctKeys (reordered : Reordered v w) (distinct : v.HasDistinctKeys) :
    w.HasDistinctKeys := by
  induction reordered with
  | refl => exact distinct
  | trans _ _ first second => exact second (first distinct)
  | entries perm =>
    rw [hasDistinctKeys_mapping] at distinct ⊢
    exact ⟨distinct.1.perm perm, fun e member => distinct.2 e (perm.mem_iff.2 member)⟩
  | item as bs _ ih =>
    simp only [hasDistinctKeys_array, List.forall_mem_append, List.forall_mem_cons] at distinct ⊢
    exact ⟨distinct.1, ih distinct.2.1, distinct.2.2⟩
  | entry es fs key _ ih =>
    simp only [hasDistinctKeys_mapping, List.forall_mem_append, List.forall_mem_cons] at distinct ⊢
    refine ⟨?_, distinct.2.1, ih distinct.2.2.1, distinct.2.2.2⟩
    simpa [Dict.Distinct, Dict.keys] using distinct.1

theorem sameItems_replace (alike : ∀ c, same v c = same w c) :
    sameItems (as ++ v :: bs) cs = sameItems (as ++ w :: bs) cs := by
  induction as generalizing cs with
  | nil => cases cs <;> simp [sameItems, alike]
  | cons a as ih => cases cs <;> simp [sameItems, ih]

theorem Reordered.same_left (reordered : Reordered v w) (c : Value) : same v c = same w c := by
  induction reordered generalizing c with
  | refl => rfl
  | trans _ _ first second => rw [first, second]
  | entries perm => cases c <;> simp [same, allIn_eq_all, perm.length_eq, perm.all_eq]
  | item as bs _ ih => cases c <;> simp [same, sameItems_replace ih]
  | entry es fs key _ ih =>
    have alike := funext ih
    cases c <;> simp [same, allIn_eq_all, alike]

theorem Reordered.same_eq (left : Reordered a v) (right : Reordered b w)
    (distinct : a.HasDistinctKeys) (distinct' : b.HasDistinctKeys) : same a b = same v w := by
  calc same a b = same v b := left.same_left b
    _ = same b v := same_comm (left.hasDistinctKeys distinct) distinct'
    _ = same w v := right.same_left v
    _ = same v w := same_comm (right.hasDistinctKeys distinct') (left.hasDistinctKeys distinct)

def boolAsNumber : Value → Value
  | .bool b => .number (.ofNat b.toNat)
  | v => v

/-- What loose equality comes to for every two kinds: the same either way round. -/
def equalByKind (a b : Value) : Bool :=
  match a.boolAsNumber, b.boolAsNumber with
  | .null, .null => true
  | .number x, .number y => x.equal y
  | .string s, .string t => s == t
  | .number x, .string t => x.equal (numberOfText t)
  | .string s, .number y => (numberOfText s).equal y
  | .callable f, .callable g => f == g
  | .array as, .array bs => same (.array as) (.array bs)
  | .mapping as, .mapping bs => same (.mapping as) (.mapping bs)
  | .array as, .number y => (numberOfText (text (.array as))).equal y
  | .mapping as, .number y => (numberOfText (text (.mapping as))).equal y
  | .array as, .string t => text (.array as) == t
  | .mapping as, .string t => text (.mapping as) == t
  | .number x, .array bs => x.equal (numberOfText (text (.array bs)))
  | .number x, .mapping bs => x.equal (numberOfText (text (.mapping bs)))
  | .string s, .array bs => s == text (.array bs)
  | .string s, .mapping bs => s == text (.mapping bs)
  | _, _ => false

theorem looseEqual_eq_equalByKind (a b : Value) : looseEqual a b = equalByKind a b := by
  cases a <;> cases b <;>
    simp only [looseEqual, equalByKind, boolAsNumber, toNumber, same]
  case bool.bool a b => cases a <;> cases b <;> decide

theorem looseEqual_comm (distinct : a.HasDistinctKeys) (distinct' : b.HasDistinctKeys) :
    looseEqual a b = looseEqual b a := by
  have collections := same_comm distinct distinct'
  rw [looseEqual_eq_equalByKind, looseEqual_eq_equalByKind]
  cases a <;> cases b
  case array.array | mapping.mapping => exact collections
  all_goals simp only [equalByKind, boolAsNumber]
  case string.string | string.array | string.mapping | array.string | mapping.string |
      callable.callable => exact Bool.beq_comm
  -- All other kinds that can be equal meet on numbers.
  all_goals exact Number.equal_comm _ _

theorem looseEqual_self_iff (distinct : a.HasDistinctKeys) :
    looseEqual a a = true ↔ a.IsFreeOfNaN := by
  rw [looseEqual_eq_equalByKind]
  cases a with
  | array | mapping => exact same_self_iff distinct
  | number n => exact Number.equal_self_iff.trans isFreeOfNaN_number.symm
  | bool b =>
    refine iff_of_true (Number.equal_self_iff.2 ?_) (everywhere_iff.2 ⟨trivial, trivial⟩)
    cases b <;> decide
  | null | string | callable =>
    exact iff_of_true (by simp [equalByKind, boolAsNumber]) (everywhere_iff.2 ⟨trivial, trivial⟩)

/-- An array or a mapping. -/
def IsCollection : Value → Prop
  | .array _ | .mapping _ => True
  | _ => False

theorem looseEqual_of_collections (left : a.IsCollection) (right : b.IsCollection) :
    looseEqual a b = same a b := by
  cases a <;> cases left <;> cases b <;> cases right <;> simp only [looseEqual]

/-- Values of which no mapping has a key twice are loosely equal one way round as the other, and
equal to themselves exactly if they have no NaN inside. Collections are compared by their structure,
which is symmetric as well and does not see in which order entries, at any depth, stand. -/
theorem looseEqual_symmetric :
    (∀ a b : Value, a.HasDistinctKeys → b.HasDistinctKeys → looseEqual a b = looseEqual b a) ∧
      (∀ a : Value, a.HasDistinctKeys → (looseEqual a a = true ↔ a.IsFreeOfNaN)) ∧
      (∀ a b : Value, a.IsCollection → b.IsCollection → looseEqual a b = same a b) ∧
      (∀ a b : Value, a.HasDistinctKeys → b.HasDistinctKeys → same a b = same b a) ∧
      ∀ a b v w : Value, Reordered a v → Reordered b w → a.HasDistinctKeys → b.HasDistinctKeys →
        same a b = same v w :=
  ⟨fun _ _ => looseEqual_comm, fun _ => looseEqual_self_iff, fun _ _ => looseEqual_of_collections,
    fun _ _ => same_comm, fun _ _ _ _ => Reordered.same_eq⟩

/-- The entries of a mapping inside an array may stand either way round. -/
theorem looseEqual_symmetric_of_entries :
    let x : String × Value := ("x", .number (.ofNat 1))
    let y : String × Value := ("y", .bool true)
    let a : Value := .array [.mapping [x, y]]
    let b : Value := .array [.mapping [y, x]]
    looseEqual a b = true ∧ same b a = true ∧ looseEqual a (.string "1,true") = true := by
  intro x y a b
  obtain ⟨comm, self, collections, comm', reorder⟩ := looseEqual_symmetric
  have one : x.2.HasDistinctKeys := everywhere_iff.2 ⟨trivial, trivial⟩
  have truth : y.2.HasDistinctKeys := everywhere_iff.2 ⟨trivial, trivial⟩
  have text : (string "1,true").HasDistinctKeys := everywhere_iff.2 ⟨trivial, trivial⟩
  have distinct : a.HasDistinctKeys := by
    simp [a, Dict.Distinct, Dict.keys, one, truth, x, y]
  have distinct' : b.HasDistinctKeys := by
    simp [b, Dict.Distinct, Dict.keys, one, truth, x, y]
  have free : a.IsFreeOfNaN := by
    have one : x.2.IsFreeOfNaN := isFreeOfNaN_number.2 (by decide)
    have truth : y.2.IsFreeOfNaN := everywhere_iff.2 ⟨trivial, trivial⟩
    simp [a, one, truth]
  have swapped : Reordered b a := .item [] [] (.entries (.swap x y []))
  have equal : same a b = true := by
    rw [reorder a b a a (.refl a) swapped distinct distinct', ← collections a a trivial trivial]
    exact (self a distinct).2 free
  refine ⟨(collections a b trivial trivial).trans equal, ?_, ?_⟩
  · rw [comm' b a distinct' distinct, equal]
  · rw [comm a _ distinct text, looseEqual_eq_equalByKind]
    rfl

end Value
end Stencil
