import Stencil.Text.Class

/-! Texts as lists of characters: their length in UTF-8 bytes, trimming, and digits. -/
namespace Stencil.Text

/-- Length in UTF-8. Positions are measured with it. -/
def byteLength (cs : List Char) : Nat := cs.foldr (fun c n => c.utf8Size + n) 0

@[simp] theorem byteLength_nil : byteLength [] = 0 := rfl

@[simp] theorem byteLength_cons (c : Char) (cs : List Char) :
    byteLength (c :: cs) = c.utf8Size + byteLength cs := rfl

@[simp] theorem byteLength_append (a b : List Char) :
    byteLength (a ++ b) = byteLength a + byteLength b := by
  induction a with
  | nil => simp
  | cons c a ih => simp [ih, Nat.add_assoc]

theorem byteLength_pos {cs : List Char} (nonempty : cs ≠ []) : 0 < byteLength cs := by
  obtain ⟨c, cs, rfl⟩ := List.exists_cons_of_ne_nil nonempty
  have := c.utf8Size_pos
  rw [byteLength_cons]
  omega

def trimLeft (cs : List Char) : List Char := cs.dropWhile isSpace

/-- `cs` without the white space at both ends. -/
def trim (cs : List Char) : List Char := (trimLeft (trimLeft cs).reverse).reverse

def digitValue (c : Char) : Nat := c.toNat - '0'.toNat

/-- The number that decimal digits write; no digits write zero. -/
def ofDigits (cs : List Char) : Nat := cs.foldl (fun n c => 10 * n + digitValue c) 0

/-- A number in decimal, with zeros in front up to `width` digits. -/
def padded (width n : Nat) : String :=
  let digits := Nat.repr n
  String.ofList (List.replicate (width - digits.length) '0') ++ digits

/-- ASCII letters become capitals; other characters stay. -/
def asciiUpper (s : String) : String := String.ofList (s.toList.map Char.toUpper)

def asciiLower (s : String) : String := String.ofList (s.toList.map Char.toLower)

/-- `parts` one after the other with `separator` between them. -/
def join (separator : String) : List String → String
  | [] => ""
  | part :: parts => parts.foldl (fun text next => text ++ separator ++ next) part

end Stencil.Text
