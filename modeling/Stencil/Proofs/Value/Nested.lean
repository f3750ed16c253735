import Stencil.Value

/-! Values inside values: induction over arrays and mappings, and what holds of a value at every
depth. -/
namespace Stencil

namespace Value

/-- What holds of a collection if it holds of everything in it holds of all values. -/
@[elab_as_elim, induction_eliminator]
theorem nested_induction {motive : Value → Prop} (null : motive .null)
    (bool : ∀ b, motive (.bool b)) (number : ∀ n, motive (.number n))
    (string : ∀ s, motive (.string s))
    (array : ∀ items, (∀ v ∈ items, motive v) → motive (.array items))
    (mapping : ∀ entries, (∀ e ∈ entries, motive e.2) → motive (.mapping entries))
    (callable : ∀ f, motive (.callable f)) (v : Value) : motive v :=
  @Value.rec motive (fun items => ∀ v ∈ items, motive v)
    (fun entries => ∀ e ∈ entries, motive e.2) (fun e => motive e.2)
    null bool number string array mapping callable
    (List.forall_mem_nil _) (fun _ _ first rest => List.forall_mem_cons.2 ⟨first, rest⟩)
    (List.forall_mem_nil _) (fun _ _ first rest => List.forall_mem_cons.2 ⟨first, rest⟩)
    (fun _ _ value => value) v

/-- `w` is `v`, or it stands in it at some depth. -/
inductive Within (w : Value) : Value → Prop
  | self : Within w w
  | item {items : List Value} {v : Value} (member : v ∈ items) (within : Within w v) :
      Within w (.array items)
  | entry {entries : List (String × Value)} {e : String × Value} (member : e ∈ entries)
      (within : Within w e.2) : Within w (.mapping entries)

/-- `p` holds of the value and of everything in it. -/
def Everywhere (p : Value → Prop) (v : Value) : Prop := ∀ w, Within w v → p w

variable {p : Value → Prop} {v : Value} {items : List Value} {entries : List (String × Value)}

theorem everywhere_iff : Everywhere p v ↔ p v ∧
    match v with
    | .array items => ∀ w ∈ items, Everywhere p w
    | .mapping entries => ∀ e ∈ entries, Everywhere p e.2
    | _ => True := by
  constructor
  · intro all
    refine ⟨all v .self, ?_⟩
    split
    · exact fun w member u within => all u (.item member within)
    · exact fun e member u within => all u (.entry member within)
    · trivial
  · rintro ⟨here, inside⟩ w within
    cases within with
    | self => exact here
    | item member within => exact inside _ member w within
    | entry member within => exact inside _ member w within

/-- No key comes twice in any mapping of the value. -/
def HasDistinctKeys : Value → Prop := Everywhere fun
  | .mapping entries => Dict.Distinct entries
  | _ => True

@[simp] theorem hasDistinctKeys_array :
    (array items).HasDistinctKeys ↔ ∀ v ∈ items, v.HasDistinctKeys :=
  everywhere_iff.trans (iff_of_eq (true_and _))

@[simp] theorem hasDistinctKeys_mapping :
    (mapping entries).HasDistinctKeys ↔
      Dict.Distinct entries ∧ ∀ e ∈ entries, e.2.HasDistinctKeys :=
  everywhere_iff

/-- No number of the value is NaN. -/
def IsFreeOfNaN : Value → Prop := Everywhere fun
  | .number n => n.isUnordered = false
  | _ => True

@[simp] theorem isFreeOfNaN_number {n : Number} :
    (number n).IsFreeOfNaN ↔ n.isUnordered = false :=
  everywhere_iff.trans (iff_of_eq (and_true _))

@[simp] theorem isFreeOfNaN_array :
    (array items).IsFreeOfNaN ↔ ∀ v ∈ items, v.IsFreeOfNaN :=
  everywhere_iff.trans (iff_of_eq (true_and _))

@[simp] theorem isFreeOfNaN_mapping :
    (mapping entries).IsFreeOfNaN ↔ ∀ e ∈ entries, e.2.IsFreeOfNaN :=
  everywhere_iff.trans (iff_of_eq (true_and _))

end Value
end Stencil
