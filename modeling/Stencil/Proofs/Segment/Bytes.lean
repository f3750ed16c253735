import Stencil.Proofs.Action
import Stencil.Proofs.Segment.Lossless

/-! Templates cut by their bytes. The scan for a closing delimiter takes one byte at a time, and two
at a backslash, which may end inside a character; what is cut out are slices of the template, and none
of them ends inside a character. -/
namespace Stencil.ByteScan

open Text

/-- The byte offsets of the opening braces, if the characters begin at byte `i`. -/
def braceOffsets : Nat → List Char → List Nat
  | _, [] => []
  | i, c :: cs =>
    if c = '\x7b' then i :: braceOffsets (i + c.utf8Size) cs else braceOffsets (i + c.utf8Size) cs

/-- The tag that a brace with this byte behind it opens. -/
def tagOf? (b : UInt8) : Option Tag :=
  if b = byte '\x7b' then some .output
  else if b = byte '%' then some .logic
  else if b = byte '#' then some .comment
  else none

/-- Where the first opening delimiter begins, and its tag. -/
def findOpen (rest : String) : Option (Nat × Tag) :=
  (braceOffsets 0 rest.toList).findSome? fun i =>
    ((bytes rest)[i + 1]?.bind tagOf?).map fun tag => (i, tag)

/-- Where the closing delimiter of `tag` begins, from byte `i` on. -/
def findClose (bs : List UInt8) (tag : Tag) (openAt : Nat) (quote : Option (UInt8 × Nat))
    (braces i : Nat) : Except Error Nat :=
  match _next : bs[i]? with
  | none => .error <| match quote with
    | some (_, start) => .lex .unterminatedString start
    | none => .lex (.unterminatedTag tag) openAt
  | some b =>
    match quote with
    | some (q, start) =>
      if b = byte '\\' then findClose bs tag openAt quote braces (i + 2)
      else findClose bs tag openAt (if b = q then none else some (q, start)) braces (i + 1)
    | none =>
      if tag = .output && b = byte '\x7b' then findClose bs tag openAt none (braces + 1) (i + 1)
      else if tag = .output && b = byte '\x7d' && 0 < braces then
        findClose bs tag openAt none (braces - 1) (i + 1)
      else if (bytes tag.close).isPrefixOf (bs.drop i) then .ok i
      else
        let opened := if tag ≠ .comment && (b = byte '"' || b = byte '\'') then some (b, i) else none
        findClose bs tag openAt opened braces (i + 1)
termination_by bs.length - i
decreasing_by all_goals have := (List.getElem?_eq_some_iff.1 _next).1; omega

theorem le_of_findClose {bs : List UInt8} {tag : Tag} {openAt braces i stop : Nat}
    {quote : Option (UInt8 × Nat)} (found : findClose bs tag openAt quote braces i = .ok stop) :
    i ≤ stop := by
  fun_induction findClose bs tag openAt quote braces i with
  | case1 => cases found
  | case6 =>
    cases found
    exact Nat.le_refl _
  | _ =>
    rename_i ih
    have := ih found
    omega

/-- How many bytes of a line break stand at the front. -/
def lineBreakSize (after : String) : Nat :=
  if after.toList.head? = some '\n' then 1
  else if ['\r', '\n'].isPrefixOf after.toList then 2
  else 0

/-- The text before an opening delimiter, if there is any. -/
def textBefore? (rest : String) (cursor offset : Nat) : Option (List Segment) :=
  if 0 < offset then (slice? rest 0 offset).map fun text => [⟨.text, text, cursor⟩] else some []

/-- How many bytes are dropped behind a tag. -/
def dropped? (t : String) (trimBlocks : Bool) (tag : Tag) (after : Nat) : Option Nat :=
  if trimBlocks && tag == .logic then (slice? t after t.utf8ByteSize).map lineBreakSize else some 0

/-- Cuts the template from byte `cursor` on. There is no result if one of the slices cannot be
taken. -/
def cut (t : String) (trimBlocks : Bool) (cursor : Nat) :
    Option (Except Error (List Segment)) :=
  if cursor < t.utf8ByteSize then do
    let rest ← slice? t cursor t.utf8ByteSize
    match findOpen rest with
    | none => return .ok [⟨.text, rest, cursor⟩]
    | some (offset, tag) =>
      let before ← textBefore? rest cursor offset
      let openAt := cursor + offset
      let start := openAt + 2
      match found : findClose (bytes t) tag openAt none 0 start with
      | .error e => return .error e
      | .ok stop =>
        let inside ← slice? t start stop
        let after := stop + 2
        let dropped ← dropped? t trimBlocks tag after
        let others ← cut t trimBlocks (after + dropped)
        return others.map fun segments => before ++ ⟨.tag tag, inside, start⟩ :: segments
  else some (.ok [])
termination_by t.utf8ByteSize - cursor
decreasing_by
  have := le_of_findClose found
  omega

variable {bs : List UInt8} {openAt braces i : Nat} {b : UInt8} {c d : Char} {cs ds : List Char}
  {tag : Tag} {quote : Option (Quote × Nat)}

theorem bytes_close (tag : Tag) : bytes tag.close = [byte tag.closeMark, byte '\x7d'] := by
  rw [Tag.close, bytes_ofList]
  cases tag <;> rfl

theorem isAscii_closeMark (tag : Tag) : IsAscii tag.closeMark := by cases tag <;> decide

theorem isAscii_quote (q : Quote) : IsAscii q.char := by cases q <;> decide

/-- The scan is in this string literal. -/
def byteQuote (quote : Option (Quote × Nat)) : Option (UInt8 × Nat) :=
  quote.map fun (q, start) => (byte q.char, start)

theorem findClose_of_next {quote : Option (UInt8 × Nat)} (next : bs[i]? = some b) :
    findClose bs tag openAt quote braces i =
      match quote with
      | some (q, start) =>
        if b = byte '\\' then findClose bs tag openAt quote braces (i + 2)
        else findClose bs tag openAt (if b = q then none else some (q, start)) braces (i + 1)
      | none =>
        if tag = .output && b = byte '\x7b' then findClose bs tag openAt none (braces + 1) (i + 1)
        else if tag = .output && b = byte '\x7d' && 0 < braces then
          findClose bs tag openAt none (braces - 1) (i + 1)
        else if (bytes tag.close).isPrefixOf (bs.drop i) then .ok i
        else findClose bs tag openAt
          (if tag ≠ .comment && (b = byte '"' || b = byte '\'') then some (b, i) else none)
          braces (i + 1) := by
  conv => lhs; rw [findClose.eq_def]
  split
  · next ended => rw [next] at ended; cases ended
  · next found =>
    obtain rfl := Option.some.inj (next.symm.trans found)
    cases quote <;> rfl

/-- Bytes of characters that are not ASCII are passed over. -/
theorem findClose_skip {high rest : List UInt8} (wide : ∀ h ∈ high, 128 ≤ h)
    (at_i : bs.drop i = high ++ rest) :
    findClose bs tag openAt (byteQuote quote) braces i =
      findClose bs tag openAt (byteQuote quote) braces (i + high.length) := by
  induction high generalizing i with
  | nil => rfl
  | cons b high ih =>
    have next : bs[i]? = some b := by rw [← List.head?_drop, at_i]; rfl
    have apart {m : Char} (ascii : IsAscii m) : b ≠ byte m := by
      rintro rfl
      exact absurd (byte_lt ascii) (UInt8.not_lt.2 (wide _ (by simp)))
    have later : bs.drop (i + 1) = high ++ rest := by
      rw [← List.drop_drop, at_i]
      rfl
    have step : findClose bs tag openAt (byteQuote quote) braces i =
        findClose bs tag openAt (byteQuote quote) braces (i + 1) := by
      rw [findClose_of_next next]
      cases quote with
      | none =>
        have no_close : (bytes tag.close).isPrefixOf (bs.drop i) = false := by
          simp [at_i, bytes_close, List.isPrefixOf, (apart (isAscii_closeMark tag)).symm]
        have left : b ≠ byte '\x7b' := apart (by decide)
        have right : b ≠ byte '\x7d' := apart (by decide)
        have single : b ≠ byte '\'' := apart (by decide)
        have double : b ≠ byte '"' := apart (by decide)
        simp [byteQuote, left, right, single, double, no_close]
      | some q =>
        have escape : b ≠ byte '\\' := apart (by decide)
        simp [byteQuote, escape, apart (isAscii_quote q.1)]
    rw [step, ih (fun h member => wide h (by simp [member])) later, List.length_cons]
    congr 1
    omega

/-- The next character by its first byte. The scan goes on at once behind the other bytes. -/
theorem exists_next (at_i : bs.drop i = encode (c :: cs)) :
    ∃ b, bs[i]? = some b ∧ (∀ m, IsAscii m → (b = byte m ↔ c = m)) ∧
      bs.drop (i + c.utf8Size) = encode cs ∧
      ∀ tag openAt quote braces, findClose bs tag openAt (byteQuote quote) braces (i + 1) =
        findClose bs tag openAt (byteQuote quote) braces (i + c.utf8Size) := by
  obtain ⟨b, high, whole, first, wide⟩ := exists_first_byte c
  have size : high.length + 1 = c.utf8Size := by
    rw [← String.length_utf8EncodeChar, whole, List.length_cons]
  rw [encode_cons, whole] at at_i
  have behind : bs.drop (i + 1) = high ++ encode cs := by
    rw [← List.drop_drop, at_i]
    rfl
  refine ⟨b, ?_, first, ?_, fun tag openAt quote braces => ?_⟩
  · rw [← List.head?_drop, at_i]
    rfl
  · rw [← size, Nat.add_comm high.length, ← Nat.add_assoc, ← List.drop_drop, behind, List.drop_left]
  · rw [findClose_skip wide behind, ← size, Nat.add_assoc, Nat.add_comm 1]

theorem map_pass {j : Nat} {passed : List Char} (size : i + byteLength passed = j)
    (found : Except Error (List Char × List Char)) :
    (Segment.pass passed found).map (fun f => i + byteLength f.1) =
      found.map fun f => j + byteLength f.1 := by
  subst size
  cases found <;> simp [Segment.pass, Except.map, Nat.add_assoc]

theorem isPrefixOf_close (at_i : bs.drop i = encode cs) :
    (bytes tag.close).isPrefixOf (bs.drop i) = (Segment.afterClose? tag cs).isSome := by
  rw [at_i, bytes_close]
  cases cs with
  | nil => rfl
  | cons c cs =>
    by_cases marked : c = tag.closeMark
    · subst marked
      rw [encode_cons, utf8EncodeChar_of_isAscii (isAscii_closeMark tag)]
      cases cs with
      | nil => simp [List.isPrefixOf, Segment.afterClose?]
      | cons d cs =>
        obtain ⟨b, high, whole, first, -⟩ := exists_first_byte d
        by_cases brace : d = '\x7d'
        · subst brace
          simp [whole, List.isPrefixOf, (first '\x7d' (by decide)).2 rfl, Segment.afterClose?]
        · have apart : byte '\x7d' ≠ b := fun same => brace ((first _ (by decide)).1 same.symm)
          rw [Segment.afterClose?_eq_none (.inr (by simpa using brace))]
          simp [whole, List.isPrefixOf, apart]
    · obtain ⟨b, high, whole, first, -⟩ := exists_first_byte c
      have apart : byte tag.closeMark ≠ b := fun same =>
        marked ((first _ (isAscii_closeMark tag)).1 same.symm)
      rw [Segment.afterClose?_eq_none (.inl marked)]
      simp [whole, List.isPrefixOf, apart]

/-- Outside comments a quote begins a string literal. -/
theorem byteQuote_opened (first : ∀ m, IsAscii m → (b = byte m ↔ c = m)) :
    byteQuote (if tag = .comment then none else (Quote.ofChar? c).map (·, i)) =
      if tag ≠ .comment && (c = '"' || c = '\'') then some (b, i) else none := by
  by_cases comment : tag = .comment
  · simp [comment, byteQuote]
  · by_cases single : c = '\''
    · obtain rfl := (first '\'' (by decide)).2 single
      subst single
      simp [comment, byteQuote, Quote.ofChar?, Quote.char]
    · by_cases double : c = '"'
      · obtain rfl := (first '"' (by decide)).2 double
        subst double
        simp [comment, byteQuote, Quote.ofChar?, Quote.char]
      · simp [comment, byteQuote, Quote.ofChar?, single, double]

/-- The scan of the bytes finds the closing delimiter where the scan of the characters does. -/
theorem findClose_eq (tag : Tag) (openAt : Nat) (quote : Option (Quote × Nat)) (braces : Nat)
    (at_i : bs.drop i = encode cs) :
    findClose bs tag openAt (byteQuote quote) braces i =
      (Segment.findClose tag openAt quote braces i cs).map fun found => i + byteLength found.1 := by
  fun_induction Segment.findClose tag openAt quote braces i cs with
  | case1 quote braces i =>
    have ended : bs[i]? = none := by rw [← List.head?_drop, at_i]; rfl
    rw [findClose.eq_def]
    split
    · cases quote <;> rfl
    · next found => rw [ended] at found; cases found
  | case2 braces i q start =>
    have next : bs[i]? = some (byte '\\') := by rw [← List.head?_drop, at_i]; rfl
    have ended : bs[i + 2]? = none := by
      rw [← List.head?_drop, ← List.drop_drop, at_i]
      rfl
    rw [findClose_of_next next]
    simp only [byteQuote, Option.map_some, if_true]
    rw [findClose.eq_def]
    split
    · rfl
    · next found => rw [ended] at found; cases found
  | case3 braces i q start d ds later =>
    rename_i ih
    have next : bs[i]? = some (byte '\\') := by rw [← List.head?_drop, at_i]; rfl
    obtain ⟨-, -, -, hidden, -⟩ := exists_next at_i
    obtain ⟨-, -, -, behind, skip⟩ := exists_next hidden
    rw [map_pass (j := later + d.utf8Size) (by simp [later, Nat.add_assoc]), ← ih behind,
      findClose_of_next next]
    simp only [byteQuote, Option.map_some, if_true]
    exact skip tag openAt (some (q, start)) braces
  | case4 braces i c cs later q start escape =>
    rename_i ih
    obtain ⟨b, next, first, behind, skip⟩ := exists_next at_i
    rw [map_pass (j := later) rfl, ← ih behind, findClose_of_next next, ← skip]
    simp only [byteQuote, Option.map_some, first _ (isAscii_quote q), first '\\' (by decide),
      if_neg escape]
    split <;> rfl
  | case5 braces i c cs later opens =>
    rename_i ih
    obtain ⟨b, next, first, behind, skip⟩ := exists_next at_i
    rw [map_pass (j := later) rfl, ← ih behind, findClose_of_next next, ← skip]
    simp only [byteQuote, Option.map_none, first '\x7b' (by decide), if_pos opens]
  | case6 braces i c cs later no_open closes =>
    rename_i ih
    obtain ⟨b, next, first, behind, skip⟩ := exists_next at_i
    rw [map_pass (j := later) rfl, ← ih behind, findClose_of_next next, ← skip]
    simp only [byteQuote, Option.map_none, first '\x7b' (by decide), first '\x7d' (by decide),
      if_neg no_open, if_pos closes]
  | case7 braces i c cs no_open no_close rest found =>
    obtain ⟨b, next, first, -, -⟩ := exists_next at_i
    rw [findClose_of_next next]
    simp only [byteQuote, Option.map_none, first '\x7b' (by decide), first '\x7d' (by decide),
      if_neg no_open, if_neg no_close, isPrefixOf_close at_i, found]
    rfl
  | case8 braces i c cs later no_open no_close not_found opened =>
    rename_i ih
    obtain ⟨b, next, first, behind, skip⟩ := exists_next at_i
    rw [map_pass (j := later) rfl, ← ih behind, findClose_of_next next, ← skip]
    simp only [byteQuote, Option.map_none, first '\x7b' (by decide), first '\x7d' (by decide),
      first '"' (by decide), first '\'' (by decide),
      if_neg no_open, if_neg no_close, isPrefixOf_close at_i, not_found]
    rw [← byteQuote_opened first]
    rfl

theorem tagOf?_of_first (first : ∀ m, IsAscii m → (b = byte m ↔ c = m)) :
    tagOf? b = Tag.ofOpenMark? c := by
  simp only [tagOf?, first '\x7b' (by decide), first '%' (by decide), first '#' (by decide)]
  split
  · next output =>
    subst output
    rfl
  split
  · next logic =>
    subst logic
    rfl
  split
  · next comment =>
    subst comment
    rfl
  · unfold Tag.ofOpenMark?
    split <;> first | contradiction | rfl

theorem bind_tagOf?_behind_brace (at_i : bs.drop i = encode ('\x7b' :: cs)) :
    bs[i + 1]?.bind tagOf? = cs.head?.bind Tag.ofOpenMark? := by
  have behind : bs.drop (i + 1) = encode cs := by
    obtain ⟨-, -, -, behind, -⟩ := exists_next at_i
    exact behind
  cases cs with
  | nil =>
    rw [← List.head?_drop, behind]
    rfl
  | cons mark cs =>
    obtain ⟨b, next, first, -⟩ := exists_next behind
    rw [next]
    exact tagOf?_of_first first

theorem findSome?_braceOffsets (at_i : bs.drop i = encode cs) :
    (braceOffsets i cs).findSome? (fun j => (bs[j + 1]?.bind tagOf?).map fun tag => (j, tag)) =
      (Segment.findOpen cs).2.map fun found => (i + byteLength (Segment.findOpen cs).1, found.1) := by
  fun_induction Segment.findOpen cs generalizing i with
  | case1 => rfl
  | case2 c =>
    by_cases brace : c = '\x7b'
    · subst brace
      rw [braceOffsets, if_pos rfl, List.findSome?_cons, bind_tagOf?_behind_brace at_i]
      rfl
    · simp [braceOffsets, brace]
  | case3 c mark cs tag opens =>
    split at opens
    · next brace =>
      subst brace
      rw [braceOffsets, if_pos rfl, List.findSome?_cons, bind_tagOf?_behind_brace at_i]
      simp [opens]
    · cases opens
  | case4 c mark cs no_tag before found whole ih =>
    obtain ⟨-, -, -, behind, -⟩ := exists_next at_i
    have rest := ih behind
    rw [whole] at rest
    simp only [byteLength_cons, ← Nat.add_assoc]
    by_cases brace : c = '\x7b'
    · subst brace
      rw [if_pos rfl] at no_tag
      rw [braceOffsets, if_pos rfl, List.findSome?_cons, bind_tagOf?_behind_brace at_i]
      simpa [no_tag] using rest
    · rw [braceOffsets, if_neg brace]
      exact rest

theorem findOpen_eq (cs : List Char) :
    findOpen (String.ofList cs) =
      (Segment.findOpen cs).2.map fun found => (byteLength (Segment.findOpen cs).1, found.1) := by
  have at_start : (bytes (String.ofList cs)).drop 0 = encode cs := bytes_ofList cs
  simpa [findOpen] using findSome?_braceOffsets at_start

theorem lineBreakSize_eq (cs : List Char) :
    lineBreakSize (String.ofList cs) = byteLength (Segment.lineBreak cs).1 := by
  unfold Segment.lineBreak
  split
  · simp [lineBreakSize]
    rfl
  · simp [lineBreakSize]
    rfl
  · next no_break no_return =>
    rw [lineBreakSize, String.toList_ofList, if_neg, if_neg]
    · rfl
    · rw [List.isPrefixOf_iff_prefix]
      rintro ⟨rest, whole⟩
      exact no_return rest whole.symm
    · intro head
      obtain ⟨rest, whole⟩ := List.head?_eq_some_iff.1 head
      exact no_break rest whole

theorem drop_bytes (ps cs : List Char) :
    (bytes (String.ofList (ps ++ cs))).drop (byteLength ps) = encode cs := by
  rw [bytes_ofList, encode_append, List.drop_left' (length_encode ps)]

theorem textBefore?_eq (ps qs : List Char) (cursor : Nat) :
    textBefore? (String.ofList (ps ++ qs)) cursor (byteLength ps) =
      some (Segment.ofText cursor ps) := by
  cases ps with
  | nil => rfl
  | cons c ps =>
    have slice := slice?_ofList [] (c :: ps) qs
    rw [List.nil_append, byteLength_nil, Nat.zero_add] at slice
    have positive : 0 < byteLength (c :: ps) := by
      have := c.utf8Size_pos
      rw [byteLength_cons]
      omega
    rw [textBefore?, if_pos positive, slice]
    rfl

theorem dropped?_eq (trimBlocks : Bool) (tag : Tag) (ps qs : List Char) :
    dropped? (String.ofList (ps ++ qs)) trimBlocks tag (byteLength ps) =
      some (byteLength (Segment.dropped trimBlocks tag qs).1) := by
  rw [dropped?, Segment.dropped, Segment.trims, slice?_rest]
  split
  · rw [Option.map_some, lineBreakSize_eq]
  · rfl

/-- The cut at a tag, as far as its end is found. -/
theorem cut_of_open {t rest : String} {trimBlocks : Bool} {cursor offset : Nat}
    {before : List Segment} (inside : cursor < t.utf8ByteSize)
    (slice : slice? t cursor t.utf8ByteSize = some rest) (opens : findOpen rest = some (offset, tag))
    (text : textBefore? rest cursor offset = some before) :
    cut t trimBlocks cursor =
      match findClose (bytes t) tag (cursor + offset) none 0 (cursor + offset + 2) with
      | .error e => some (.error e)
      | .ok stop => do
        let inside ← slice? t (cursor + offset + 2) stop
        let dropped ← dropped? t trimBlocks tag (stop + 2)
        let others ← cut t trimBlocks (stop + 2 + dropped)
        return others.map fun segments =>
          before ++ ⟨.tag tag, inside, cursor + offset + 2⟩ :: segments := by
  conv => lhs; rw [cut.eq_def]
  rw [if_pos inside, slice]
  simp only [Option.bind_eq_bind, Option.bind_some, opens, text]
  split
  · next failed => rw [failed]; rfl
  · next found => rw [found]

/-- What is found of the first tag behind the characters `ps`. -/
theorem cut_of_findOpen {trimBlocks : Bool} {ps before inner : List Char}
    (opens : Segment.findOpen cs = (before, some (tag, inner))) :
    cut (String.ofList (ps ++ cs)) trimBlocks (byteLength ps) =
      match Segment.findClose tag (byteLength ps + byteLength before) none 0
        (byteLength ps + byteLength before + 2) inner with
      | .error e => some (.error e)
      | .ok (inside, after) => do
        let skipped := byteLength (Segment.dropped trimBlocks tag after).1
        let others ← cut (String.ofList (ps ++ cs)) trimBlocks
          (byteLength ps + byteLength before + 2 + byteLength inside + 2 + skipped)
        return others.map fun segments => Segment.ofText (byteLength ps) before ++
          ⟨.tag tag, String.ofList inside, byteLength ps + byteLength before + 2⟩ :: segments := by
  have whole := Segment.eq_append_of_findOpen opens
  have size : byteLength ['\x7b', tag.openMark] = 2 := by cases tag <;> rfl
  have opens' : findOpen (String.ofList cs) = some (byteLength before, tag) := by
    rw [findOpen_eq, opens]
    rfl
  have text : textBefore? (String.ofList cs) (byteLength ps) (byteLength before) =
      some (Segment.ofText (byteLength ps) before) := by
    rw [whole]
    exact textBefore?_eq before _ _
  have head : ps ++ cs = (ps ++ before ++ ['\x7b', tag.openMark]) ++ inner := by simp [whole]
  have start : byteLength (ps ++ before ++ ['\x7b', tag.openMark]) =
      byteLength ps + byteLength before + 2 := by
    rw [byteLength_append, byteLength_append, size]
  have room : byteLength ps < (String.ofList (ps ++ cs)).utf8ByteSize := by
    rw [utf8ByteSize_ofList, head, byteLength_append, start]
    omega
  have inside_bytes : (bytes (String.ofList (ps ++ cs))).drop
      (byteLength ps + byteLength before + 2) = encode inner := by
    rw [head, ← start]
    exact drop_bytes _ _
  have scan := findClose_eq tag (byteLength ps + byteLength before) none 0 inside_bytes
  rw [show byteQuote none = none from rfl] at scan
  rw [cut_of_open room (slice?_rest ps cs) opens' text, scan]
  cases found : Segment.findClose tag (byteLength ps + byteLength before) none 0
    (byteLength ps + byteLength before + 2) inner with
  | error e => rfl
  | ok result =>
    obtain ⟨inside, after⟩ := result
    have closes := Segment.eq_append_of_findClose found
    have closing : byteLength [tag.closeMark, '\x7d'] = 2 := by cases tag <;> rfl
    have slice : slice? (String.ofList (ps ++ cs)) (byteLength ps + byteLength before + 2)
        (byteLength ps + byteLength before + 2 + byteLength inside) = some (String.ofList inside) := by
      rw [head, closes, ← start, ← List.append_assoc]
      exact slice?_ofList _ _ _
    have tail : ps ++ cs = (ps ++ before ++ ['\x7b', tag.openMark] ++ inside ++
        [tag.closeMark, '\x7d']) ++ after := by
      simp [whole, closes]
    have stop : byteLength (ps ++ before ++ ['\x7b', tag.openMark] ++ inside ++
        [tag.closeMark, '\x7d']) = byteLength ps + byteLength before + 2 + byteLength inside + 2 := by
      rw [byteLength_append, byteLength_append, start, closing]
    have dropped : dropped? (String.ofList (ps ++ cs)) trimBlocks tag
        (byteLength ps + byteLength before + 2 + byteLength inside + 2) =
          some (byteLength (Segment.dropped trimBlocks tag after).1) := by
      rw [tail, ← stop]
      exact dropped?_eq _ _ _ _
    simp only [Except.map, slice, dropped, Option.bind_eq_bind, Option.bind_some]

theorem cut_eq_splitChars (trimBlocks : Bool) (ps cs : List Char) :
    cut (String.ofList (ps ++ cs)) trimBlocks (byteLength ps) =
      some (Segment.splitChars trimBlocks (byteLength ps) cs) := by
  generalize at_cursor : byteLength ps = cursor
  fun_induction Segment.splitChars trimBlocks cursor cs generalizing ps with
  | case1 cursor cs before opens =>
    subst at_cursor
    obtain ⟨rfl, -⟩ := Segment.isText_of_findOpen_none opens
    have opens' : findOpen (String.ofList before) = none := by rw [findOpen_eq, opens]; rfl
    rw [cut.eq_def, slice?_rest, utf8ByteSize_ofList, byteLength_append]
    cases before with
    | nil => simp [Segment.ofText]
    | cons c before =>
      have inside : byteLength ps < byteLength ps + byteLength (c :: before) := by
        have := byteLength_pos (List.cons_ne_nil c before)
        omega
      rw [if_pos inside]
      simp only [Option.bind_eq_bind, Option.bind_some, opens']
      rfl
  | case2 cursor cs before tag inner opens openAt e =>
    rename_i failed
    subst at_cursor
    rw [cut_of_findOpen opens, failed]
  | case3 cursor cs before tag inner opens openAt inside after found closed rest =>
    rename_i ih
    subst at_cursor
    rw [cut_of_findOpen opens, found]
    have size : byteLength ['\x7b', tag.openMark] = 2 := by cases tag <;> rfl
    have closing : byteLength [tag.closeMark, '\x7d'] = 2 := by cases tag <;> rfl
    have later := ih (ps ++ before ++ ['\x7b', tag.openMark] ++ inside ++ [tag.closeMark, '\x7d'] ++ rest.1)
      (by simp only [byteLength_append, size, closing]; rfl)
    have whole : ps ++ before ++ ['\x7b', tag.openMark] ++ inside ++ [tag.closeMark, '\x7d'] ++ rest.1 ++
        rest.2 = ps ++ cs := by
      rw [Segment.eq_append_of_findOpen opens, Segment.eq_append_of_findClose found,
        ← Segment.dropped_append trimBlocks tag after]
      simp [rest]
    rw [whole] at later
    change Option.bind (cut (String.ofList (ps ++ cs)) trimBlocks (closed + byteLength rest.1)) _ = _
    rw [later]
    rfl

theorem cut_eq_split (t : String) (trimBlocks : Bool) :
    cut t trimBlocks 0 = some (Segment.split t trimBlocks) := by
  simpa [Segment.split] using cut_eq_splitChars trimBlocks [] t.toList

end Stencil.ByteScan
