import Stencil.Error

/-! Segments: a template cut into plain text and the insides of its tags. Closing delimiters count
only outside string literals, and in output tags only where the braces are balanced. -/
namespace Stencil

inductive Segment.Kind
  | text
  | tag (tag : Tag)
deriving DecidableEq, Repr

/-- A piece of the template, without delimiters, and the byte offset where it starts. -/
structure Segment where
  kind : Segment.Kind
  source : String
  position : Nat
deriving DecidableEq, Repr

def Tag.ofOpenMark? : Char → Option Tag
  | '{' => some .output
  | '%' => some .logic
  | '#' => some .comment
  | _ => none

theorem Tag.eq_openMark_of_ofOpenMark? {c : Char} {t : Tag} (h : ofOpenMark? c = some t) :
    c = t.openMark := by
  unfold ofOpenMark? at h
  split at h <;> simp at h <;> subst h <;> rfl

namespace Segment

/-- The text before the first opening delimiter, the tag that it opens, and what follows it. -/
def findOpen : List Char → List Char × Option (Tag × List Char)
  | [] => ([], none)
  | [c] => ([c], none)
  | c :: mark :: cs =>
    match if c = '{' then Tag.ofOpenMark? mark else none with
    | some tag => ([], some (tag, cs))
    | none =>
      let (before, found) := findOpen (mark :: cs)
      (c :: before, found)

theorem eq_append_of_findOpen {cs before rest : List Char} {tag : Tag}
    (h : findOpen cs = (before, some (tag, rest))) :
    cs = before ++ '{' :: tag.openMark :: rest := by
  fun_induction findOpen cs generalizing before with
  | case1 => simp at h
  | case2 => simp at h
  | case3 c mark cs t ht =>
    simp only [Prod.mk.injEq, Option.some.injEq] at h
    obtain ⟨rfl, rfl, rfl⟩ := h
    split at ht
    · next hc => simp [hc, Tag.eq_openMark_of_ofOpenMark? ht]
    · contradiction
  | case4 c mark cs _ front found heq ih =>
    simp only [Prod.mk.injEq] at h
    obtain ⟨rfl, rfl⟩ := h
    simp [ih heq]

/-- What a scan has passed is put back in front of the inside it finds. -/
def pass (passed : List Char) (found : Except Error (List Char × List Char)) :
    Except Error (List Char × List Char) :=
  found.map fun (inside, rest) => (passed ++ inside, rest)

/-- What follows the closing delimiter of `tag`, if that comes next. -/
def afterClose? (tag : Tag) : List Char → Option (List Char)
  | c :: '}' :: rest => if c = tag.closeMark then some rest else none
  | _ => none

theorem eq_of_afterClose? {tag : Tag} {cs rest : List Char} (h : afterClose? tag cs = some rest) :
    cs = tag.closeMark :: '}' :: rest := by
  unfold afterClose? at h
  split at h
  · simp_all
  · contradiction

/-- Splits at the closing delimiter of `tag`, which was opened at `openAt`. `quote` is the string
literal that the scan is in and where it began; `braces` counts the open ones. A backslash in a
string literal hides the character behind it. -/
def findClose (tag : Tag) (openAt : Nat) (quote : Option (Quote × Nat)) (braces position : Nat) :
    List Char → Except Error (List Char × List Char)
  | [] => .error <| match quote with
    | some (_, start) => .lex .unterminatedString start
    | none => .lex (.unterminatedTag tag) openAt
  | c :: cs =>
    let next := position + c.utf8Size
    match quote with
    | some (q, start) =>
      if c = '\\' then
        match cs with
        | [] => .error (.lex .unterminatedString start)
        | d :: ds => pass [c, d] (findClose tag openAt quote braces (next + d.utf8Size) ds)
      else
        pass [c] (findClose tag openAt (if c = q.char then none else quote) braces next cs)
    | none =>
      if tag = .output && c = '{' then
        pass [c] (findClose tag openAt none (braces + 1) next cs)
      else if tag = .output && c = '}' && 0 < braces then
        pass [c] (findClose tag openAt none (braces - 1) next cs)
      else
        match afterClose? tag (c :: cs) with
        | some rest => .ok ([], rest)
        | none =>
          let opened := if tag = .comment then none else (Quote.ofChar? c).map (·, position)
          pass [c] (findClose tag openAt opened braces next cs)

theorem pass_eq_ok {passed inside rest : List Char} {r : Except Error (List Char × List Char)}
    (h : pass passed r = .ok (inside, rest)) :
    ∃ after, inside = passed ++ after ∧ r = .ok (after, rest) := by
  cases r with
  | error => simp [pass, Except.map] at h
  | ok found =>
    simp only [pass, Except.map, Except.ok.injEq, Prod.mk.injEq] at h
    exact ⟨found.1, h.1.symm, by rw [← h.2]⟩

theorem eq_append_of_findClose {tag : Tag} {openAt : Nat} {quote : Option (Quote × Nat)}
    {braces position : Nat} {cs inside rest : List Char}
    (h : findClose tag openAt quote braces position cs = .ok (inside, rest)) :
    cs = inside ++ tag.closeMark :: '}' :: rest := by
  fun_induction findClose tag openAt quote braces position cs generalizing inside with
  | case1 => simp at h
  | case2 => simp at h
  | case7 _ _ _ _ _ _ _ hclose =>
    simp only [Except.ok.injEq, Prod.mk.injEq] at h
    obtain ⟨rfl, rfl⟩ := h
    exact eq_of_afterClose? hclose
  | _ =>
    obtain ⟨after, rfl, h⟩ := pass_eq_ok h
    simp_all

/-- One line break at the front, and what follows it. -/
def lineBreak : List Char → List Char × List Char
  | '\n' :: cs => (['\n'], cs)
  | '\r' :: '\n' :: cs => (['\r', '\n'], cs)
  | cs => ([], cs)

theorem lineBreak_append (cs : List Char) : (lineBreak cs).1 ++ (lineBreak cs).2 = cs := by
  unfold lineBreak
  split <;> rfl

/-- Is a line break dropped after this tag? -/
def trims (trimBlocks : Bool) (tag : Tag) : Bool := trimBlocks && tag == .logic

def dropped (trimBlocks : Bool) (tag : Tag) (cs : List Char) : List Char × List Char :=
  if trims trimBlocks tag then lineBreak cs else ([], cs)

theorem dropped_append (trimBlocks : Bool) (tag : Tag) (cs : List Char) :
    (dropped trimBlocks tag cs).1 ++ (dropped trimBlocks tag cs).2 = cs := by
  unfold dropped
  split
  · exact lineBreak_append cs
  · rfl

/-- Text makes a segment unless it is empty. -/
def ofText (position : Nat) (cs : List Char) : List Segment :=
  if cs.isEmpty then [] else [⟨.text, String.ofList cs, position⟩]

/-- Cuts the rest of a template, which starts at byte `position`. -/
def splitChars (trimBlocks : Bool) (position : Nat) (cs : List Char) :
    Except Error (List Segment) :=
  match _hopen : findOpen cs with
  | (before, none) => .ok (ofText position before)
  | (before, some (tag, inner)) =>
    let openAt := position + Text.byteLength before
    match hclose : findClose tag openAt none 0 (openAt + 2) inner with
    | .error e => .error e
    | .ok (inside, after) =>
      let closed := openAt + 2 + Text.byteLength inside + 2
      let rest := dropped trimBlocks tag after
      (splitChars trimBlocks (closed + Text.byteLength rest.1) rest.2).map fun segments =>
        ofText position before ++ ⟨.tag tag, String.ofList inside, openAt + 2⟩ :: segments
termination_by cs.length
decreasing_by
  have whole := congrArg List.length (eq_append_of_findOpen _hopen)
  have inner := congrArg List.length (eq_append_of_findClose hclose)
  have rest := congrArg List.length (dropped_append trimBlocks tag after)
  simp only [List.length_append, List.length_cons] at whole inner rest
  omega

/-- Cuts a template into segments. With `trimBlocks` a line break directly after a logic tag is
dropped. -/
def split (template : String) (trimBlocks : Bool) : Except Error (List Segment) :=
  splitChars trimBlocks 0 template.toList

end Segment
end Stencil
