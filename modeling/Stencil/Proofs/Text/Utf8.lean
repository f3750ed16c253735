import Stencil.Text.Basic

/-! Texts as bytes in UTF-8, and slices of them. A byte of a character that is not ASCII is none of an
ASCII character. -/
namespace Stencil.Text

variable {c m : Char} {cs ds : List Char} {b : UInt8}

def encode (cs : List Char) : List UInt8 := cs.flatMap String.utf8EncodeChar

@[simp] theorem encode_nil : encode [] = [] := rfl

@[simp] theorem encode_cons : encode (c :: cs) = String.utf8EncodeChar c ++ encode cs := rfl

@[simp] theorem encode_append : encode (cs ++ ds) = encode cs ++ encode ds := by simp [encode]

@[simp] theorem length_encode (cs : List Char) : (encode cs).length = byteLength cs := by
  induction cs with
  | nil => rfl
  | cons c cs ih => simp [ih]

/-- The bytes of a string. -/
def bytes (t : String) : List UInt8 := t.toByteArray.data.toList

theorem bytes_ofList (cs : List Char) : bytes (String.ofList cs) = encode cs := by
  simp [bytes, encode, List.utf8Encode]

theorem utf8ByteSize_ofList (cs : List Char) :
    (String.ofList cs).utf8ByteSize = byteLength cs := by
  induction cs with
  | nil => rfl
  | cons c cs ih => simp [String.ofList_cons, ih]

theorem byteLength_toList (t : String) : byteLength t.toList = t.utf8ByteSize := by
  rw [← utf8ByteSize_ofList, String.ofList_toList]

def IsAscii (c : Char) : Prop := c.toNat < 128

instance : DecidablePred IsAscii := fun c => inferInstanceAs (Decidable (c.toNat < 128))

/-- The only byte of an ASCII character. -/
def byte (c : Char) : UInt8 := c.toUInt8

theorem utf8EncodeChar_of_isAscii (ascii : IsAscii c) : String.utf8EncodeChar c = [byte c] := by
  refine String.utf8EncodeChar_eq_singleton (Char.utf8Size_eq_one_iff.2 ?_)
  exact UInt32.le_iff_toNat_le.2 (Nat.le_of_lt_succ ascii)

theorem toNat_ofNat_of_lt {n : Nat} (lt : n < 256) : (UInt8.ofNat n).toNat = n :=
  Nat.mod_eq_of_lt lt

theorem le_of_mem_utf8EncodeChar (wide : ¬ IsAscii c) (member : b ∈ String.utf8EncodeChar c) :
    128 ≤ b := by
  refine UInt8.le_iff_toNat_le.2 (show 128 ≤ b.toNat from ?_)
  have large : ¬ c.val.toNat ≤ 127 := fun le => wide (Nat.lt_succ_of_le le)
  unfold String.utf8EncodeChar at member
  rw [if_neg large] at member
  split at member
  · simp only [List.mem_cons, List.not_mem_nil, or_false] at member
    rcases member with rfl | rfl <;> rw [toNat_ofNat_of_lt (by omega)] <;> omega
  · split at member
    · simp only [List.mem_cons, List.not_mem_nil, or_false] at member
      rcases member with rfl | rfl | rfl <;> rw [toNat_ofNat_of_lt (by omega)] <;> omega
    · simp only [List.mem_cons, List.not_mem_nil, or_false] at member
      rcases member with rfl | rfl | rfl | rfl <;> rw [toNat_ofNat_of_lt (by omega)] <;> omega

theorem toNat_byte (ascii : IsAscii c) : (byte c).toNat = c.toNat :=
  Nat.mod_eq_of_lt (Nat.lt_trans ascii (by decide))

theorem byte_lt (ascii : IsAscii c) : byte c < 128 :=
  UInt8.lt_iff_toNat_lt.2 (toNat_byte ascii ▸ ascii)

theorem byte_inj (first : IsAscii c) (second : IsAscii m) : byte c = byte m ↔ c = m := by
  constructor
  · intro same
    have values := congrArg UInt8.toNat same
    rw [toNat_byte first, toNat_byte second] at values
    exact Char.ext (UInt32.toNat_inj.1 values)
  · rintro rfl
    rfl

/-- The first byte tells an ASCII character from all others, and the bytes behind it are none of an
ASCII character. -/
theorem exists_first_byte (c : Char) : ∃ b high, String.utf8EncodeChar c = b :: high ∧
    (∀ m, IsAscii m → (b = byte m ↔ c = m)) ∧ ∀ h ∈ high, 128 ≤ h := by
  by_cases narrow : IsAscii c
  · exact ⟨byte c, [], utf8EncodeChar_of_isAscii narrow, fun m ascii => byte_inj narrow ascii, by simp⟩
  · obtain ⟨b, high, whole⟩ := List.exists_cons_of_length_pos (l := String.utf8EncodeChar c)
      (by simpa using c.utf8Size_pos)
    have wide {h : UInt8} (member : h ∈ b :: high) : 128 ≤ h :=
      le_of_mem_utf8EncodeChar narrow (whole ▸ member)
    refine ⟨b, high, whole, fun m ascii => ⟨?_, ?_⟩, fun h member => wide (by simp [member])⟩
    · rintro rfl
      exact absurd (byte_lt ascii) (UInt8.not_lt.2 (wide (by simp)))
    · rintro rfl
      exact absurd ascii narrow

/-- `t[a..b]`: both ends must be in bounds, in order and between characters. -/
def slice? (t : String) (a b : Nat) : Option String :=
  if h : a ≤ b ∧ (⟨a⟩ : String.Pos.Raw).IsValid t ∧ (⟨b⟩ : String.Pos.Raw).IsValid t then
    some (t.extract (t.pos ⟨a⟩ h.2.1) (t.pos ⟨b⟩ h.2.2))
  else none

theorem slice?_append (p q r : String) :
    slice? (p ++ q ++ r) p.utf8ByteSize (p.utf8ByteSize + q.utf8ByteSize) = some q := by
  have start : (⟨p.utf8ByteSize⟩ : String.Pos.Raw).IsValid (p ++ q ++ r) :=
    String.Pos.Raw.isValid_iff_exists_append.2 ⟨p, q ++ r, String.append_assoc, rfl⟩
  have stop : (⟨p.utf8ByteSize + q.utf8ByteSize⟩ : String.Pos.Raw).IsValid (p ++ q ++ r) :=
    String.Pos.Raw.isValid_iff_exists_append.2 ⟨p ++ q, r, rfl, by simp [String.Pos.Raw.ext_iff]⟩
  rw [slice?, dif_pos ⟨Nat.le_add_right _ _, start, stop⟩]
  refine congrArg some (String.toByteArray_inj.1 ?_)
  rw [String.toByteArray_extract, String.toByteArray_append, String.toByteArray_append,
    ByteArray.append_assoc]
  change (p.toByteArray ++ (q.toByteArray ++ r.toByteArray)).extract (p.utf8ByteSize + 0)
    (p.utf8ByteSize + q.utf8ByteSize) = q.toByteArray
  rw [ByteArray.extract_append_size_add' String.size_toByteArray.symm]
  exact ByteArray.extract_append_eq_left String.size_toByteArray.symm

theorem slice?_ofList (ps qs rs : List Char) :
    slice? (String.ofList (ps ++ qs ++ rs)) (byteLength ps) (byteLength ps + byteLength qs) =
      some (String.ofList qs) := by
  rw [← utf8ByteSize_ofList, ← utf8ByteSize_ofList, String.ofList_append, String.ofList_append]
  exact slice?_append _ _ _

/-- The slice of everything behind `ps`. -/
theorem slice?_rest (ps qs : List Char) :
    slice? (String.ofList (ps ++ qs)) (byteLength ps) (String.ofList (ps ++ qs)).utf8ByteSize =
      some (String.ofList qs) := by
  have whole := slice?_ofList ps qs []
  rwa [List.append_nil, ← byteLength_append, ← utf8ByteSize_ofList (ps ++ qs)] at whole

/-- Byte `p` lies in front of a character of `cs` or at its end, where `cs` starts at byte `start`. -/
def Between (cs : List Char) (start p : Nat) : Prop :=
  ∃ before after, cs = before ++ after ∧ p = start + byteLength before

namespace Between

variable {source : String} {start position : Nat}

theorem first (cs : List Char) (start : Nat) : Between cs start start := ⟨[], cs, rfl, rfl⟩

theorem last (cs : List Char) (start : Nat) : Between cs start (start + byteLength cs) :=
  ⟨cs, [], (List.append_nil cs).symm, rfl⟩

theorem append (front behind : List Char)
    (between : Between cs (start + byteLength front) position) :
    Between (front ++ cs ++ behind) start position := by
  obtain ⟨before, after, rfl, rfl⟩ := between
  exact ⟨front ++ before, after ++ behind, by simp, by rw [byteLength_append, Nat.add_assoc]⟩

theorem behind (front : List Char) (between : Between cs (start + byteLength front) position) :
    Between (front ++ cs) start position := by
  simpa using between.append front []

theorem bounds (between : Between cs start position) :
    start ≤ position ∧ position ≤ start + byteLength cs := by
  obtain ⟨before, after, rfl, rfl⟩ := between
  rw [byteLength_append]
  omega

theorem isValid (between : Between source.toList 0 position) :
    (⟨position⟩ : String.Pos.Raw).IsValid source := by
  obtain ⟨before, after, whole, rfl⟩ := between
  refine String.Pos.Raw.isValid_iff_exists_append.2 ⟨String.ofList before, String.ofList after, ?_, ?_⟩
  · rw [← String.ofList_append, ← whole, String.ofList_toList]
  · exact String.Pos.Raw.ext ((Nat.zero_add _).trans (utf8ByteSize_ofList before).symm)

end Between

end Stencil.Text
