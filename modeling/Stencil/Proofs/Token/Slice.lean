import Stencil.Proofs.Text.Utf8
import Stencil.Proofs.Token.Reading

/-! The tokens of a text cut it into slices, and each slice is read on its own as the token that it
begins with. A lexer that has come to the end or to a fault stays there. -/
namespace Stencil

namespace Text

variable {c : Char}

/-- Ranges without a common code point hold no common character. -/
theorem inRanges_of_disjoint {ranges others : List (Nat × Nat)}
    (disjoint : ∀ r ∈ ranges, ∀ s ∈ others, r.2 < s.1 ∨ s.2 < r.1)
    (member : inRanges ranges c) : inRanges others c = false := by
  obtain ⟨r, first, holds⟩ := List.any_eq_true.1 member
  refine List.any_eq_false.2 fun s second holds' => ?_
  have apart := disjoint r first s second
  simp only [Bool.and_eq_true, decide_eq_true_eq] at holds holds'
  omega

theorem le_toNat_of_isAlphanum (part : c.isAlphanum) : 48 ≤ c.toNat := by
  simp only [Char.isAlphanum, Char.isAlpha, Char.isUpper, Char.isLower, Char.isDigit,
    Bool.or_eq_true, Bool.and_eq_true, decide_eq_true_eq] at part
  obtain (⟨low, -⟩ | ⟨low, -⟩) | ⟨low, -⟩ := part
  · exact Nat.le_trans (by decide) (show 65 ≤ c.toNat from low)
  · exact Nat.le_trans (by decide) (show 97 ≤ c.toNat from low)
  · exact low

theorem isSpace_of_isLetterOrDigit (part : isLetterOrDigit c) : isSpace c = false := by
  unfold isLetterOrDigit at part
  split at part
  · next ascii =>
    have low := le_toNat_of_isAlphanum part
    simp [isSpace, inRanges, whiteSpaceRanges]
    omega
  · rcases Bool.or_eq_true_iff.1 part with letter | digit
    · exact inRanges_of_disjoint (by decide +kernel) letter
    · exact inRanges_of_disjoint (by decide +kernel) digit

end Text

variable {afterDot : Bool} {c : Char} {cs rest blank word tail : List Char} {lexeme : Lexeme}

theorem isSpace_of_isNamePart (part : isNamePart c) : Text.isSpace c = false := by
  rcases Bool.or_eq_true_iff.1 part with letter | underscore
  · exact Text.isSpace_of_isLetterOrDigit letter
  · rw [beq_iff_eq.1 underscore]
    decide

theorem isSpace_of_isNumberPart (part : isNumberPart c) : Text.isSpace c = false := by
  rcases Bool.or_eq_true_iff.1 part with digit | mark
  · exact Number.isSpace_of_isDigit digit
  · simp only [List.contains_eq_mem, decide_eq_true_eq, List.mem_cons, List.not_mem_nil,
      or_false] at mark
    rcases mark with rfl | rfl | rfl | rfl | rfl <;> decide

theorem isSpace_of_ofPair? {d : Char} {s : Symbol} (pair : Symbol.ofPair? d c = some s) :
    Text.isSpace c = false := by
  unfold Symbol.ofPair? at pair
  split at pair <;> first | decide | cases pair

theorem apart_of_blank (blank : ∀ c ∈ cs, Text.isSpace c) : Apart cs := by
  have space {c : Char} (first : c ∈ cs.head?) : Text.isSpace c ≠ false := by
    simp [blank c (List.mem_of_mem_head? first)]
  constructor
  · exact fun c first => Bool.eq_false_iff.2 fun part => space first (isSpace_of_isNamePart part)
  · exact fun c first => Bool.eq_false_iff.2 fun part => space first (isSpace_of_isNumberPart part)
  · exact fun c first d => Option.eq_none_iff_forall_ne_some.2 fun s pair =>
      space first (isSpace_of_ofPair? pair)

namespace Numeral

theorem fractionSpan_alone (cs : List Char) (marked : BeginsExponent tail) :
    fractionSpan ((fractionSpan cs).1 ++ tail) = ((fractionSpan cs).1, tail) := by
  have no_point : fractionSpan tail = ([], tail) := by
    unfold fractionSpan
    split
    · rcases marked '.' rfl with mark | mark <;> cases mark
    · rfl
  generalize found : fractionSpan cs = span
  unfold fractionSpan at found
  split at found
  · next ds =>
    split at found
    · next none =>
      subst found
      exact no_point
    · next some =>
      subst found
      obtain ⟨taken, dropped⟩ := (digits_takeWhile ds).span marked.not_digit
      simp [fractionSpan, taken, dropped, some]
  · subst found
    exact no_point

theorem signSpan_alone {ds : List Char} (digits : Digits ds) (cs : List Char) :
    signSpan ((signSpan cs).1 ++ ds) = ((signSpan cs).1, ds) := by
  have no_sign : signSpan ds = ([], ds) := by
    unfold signSpan
    split
    · cases digits '+' (by simp)
    · cases digits '-' (by simp)
    · rfl
  generalize found : signSpan cs = span
  unfold signSpan at found
  split at found <;> subst found
  · rfl
  · rfl
  · exact no_sign

theorem exponentSpan_alone (cs : List Char) :
    exponentSpan (exponentSpan cs).1 = ((exponentSpan cs).1, []) := by
  generalize found : exponentSpan cs = span
  unfold exponentSpan at found
  split at found
  · subst found
    rfl
  · next mark cs =>
    simp only at found
    split at found
    · next valid =>
      subst found
      have digits := digits_takeWhile (signSpan cs).2
      have ends : ∀ c ∈ ([] : List Char).head?, c.isDigit = false := by simp
      obtain ⟨taken, dropped⟩ := digits.span ends
      rw [List.append_nil] at taken dropped
      simp only [List.cons_append, exponentSpan, signSpan_alone digits, taken, dropped, valid, if_true]
    · subst found
      rfl

/-- A number literal is read again from what it is written as, also where no dot stands before it. -/
theorem numberSpan_alone (afterDot : Bool) (cs : List Char) :
    numberSpan false (numberSpan afterDot cs).1 = ((numberSpan afterDot cs).1, []) := by
  have digits := digits_takeWhile cs
  unfold numberSpan
  generalize cs.takeWhile Char.isDigit = whole at digits ⊢
  generalize cs.dropWhile Char.isDigit = behind
  cases afterDot with
  | true =>
    have ends : ∀ c ∈ ([] : List Char).head?, c.isDigit = false := by simp
    obtain ⟨taken, dropped⟩ := digits.span ends
    rw [List.append_nil] at taken dropped
    simp [taken, dropped, fractionSpan, exponentSpan]
  | false =>
    have marked := beginsExponent_exponentSpan (fractionSpan behind).2
    obtain ⟨taken, dropped⟩ := digits.span (not_digit_fractionSpan behind marked)
    simp [taken, dropped, fractionSpan_alone behind marked, exponentSpan_alone]

end Numeral

theorem readString?_alone {quote : Quote} {body : StringBody}
    (read : readString? quote cs = some (body, rest)) :
    readString? quote body.written = some (body, []) := by
  fun_induction readString? quote cs generalizing body with
  | case1 => cases read
  | case2 =>
    cases read
    exact readString?_quote quote []
  | case3 => cases read
  | case4 d ds _ ih =>
    obtain ⟨⟨found, behind⟩, inner, whole⟩ := Option.map_eq_some_iff.1 read
    cases whole
    simp only [List.cons_append, List.nil_append, readString?_escape, ih inner]
    rfl
  | case5 c cs no_quote no_escape ih =>
    obtain ⟨⟨found, behind⟩, inner, whole⟩ := Option.map_eq_some_iff.1 read
    cases whole
    simp only [List.cons_append, List.nil_append, readString?_plain no_quote no_escape, ih inner]
    rfl

theorem readSymbol?_alone {s : Symbol} (read : readSymbol? c cs = some (s, c :: word, rest)) :
    readSymbol? c word = some (s, c :: word, []) := by
  cases cs with
  | nil =>
    obtain ⟨s, single, whole⟩ := Option.map_eq_some_iff.1 read
    cases whole
    simp [readSymbol?, single]
  | cons d cs =>
    simp only [readSymbol?] at read
    split at read
    · next s pair =>
      cases read
      simp [readSymbol?, pair]
    · obtain ⟨s, single, whole⟩ := Option.map_eq_some_iff.1 read
      cases whole
      simp [readSymbol?, single]

/-- A text without a symbol at the front has none when it is cut short. -/
theorem readSymbol?_of_append (unread : readSymbol? c (cs ++ rest) = none) :
    readSymbol? c cs = none := by
  cases cs with
  | nil =>
    cases rest with
    | nil => exact unread
    | cons d rest =>
      simp only [List.nil_append, readSymbol?] at unread
      split at unread
      · cases unread
      · simpa [readSymbol?] using unread
  | cons d cs =>
    simp only [List.cons_append, readSymbol?] at unread ⊢
    split at unread
    · cases unread
    · next pair => simpa [pair] using unread

/-- A token is read again from what it is written as. -/
theorem readToken_alone {t : Token} (read : readToken afterDot c cs = .ok (⟨t, c :: word⟩, rest)) :
    readToken false c word = .ok (⟨t, c :: word⟩, []) := by
  obtain rfl : word ++ rest = cs := by simpa using (readToken_append read).1
  unfold readToken at read ⊢
  cases symbol : readSymbol? c (word ++ rest) with
  | some found =>
    simp only [symbol] at read
    obtain ⟨s, written, behind⟩ := found
    cases read
    rw [readSymbol?_alone symbol]
  | none =>
    simp only [symbol] at read
    simp only [readSymbol?_of_append symbol]
    cases quoted : Quote.ofChar? c with
    | some quote =>
      simp only [quoted] at read ⊢
      unfold readQuoted at read ⊢
      split at read
      · next body behind found =>
        cases read
        rw [readString?_alone found]
      · cases read
    | none =>
      simp only [quoted] at read ⊢
      by_cases digit : c.isDigit
      · simp only [digit, if_true] at read ⊢
        split at read
        · next decimal valid =>
          simp only [Except.ok.injEq, Prod.mk.injEq, Lexeme.mk.injEq] at read
          obtain ⟨⟨rfl, written⟩, -⟩ := read
          have again := Numeral.numberSpan_alone afterDot (c :: (word ++ rest))
          rw [written] at again valid
          simp [again, valid]
        · cases read
      · simp only [digit] at read ⊢
        by_cases name : isNameStart c
        · simp only [name, if_true] at read ⊢
          simp only [Bool.false_eq_true, if_false, Except.ok.injEq, Prod.mk.injEq, Lexeme.mk.injEq,
            List.cons.injEq, true_and] at read
          obtain ⟨⟨rfl, written⟩, -⟩ := read
          have part : ∀ x ∈ word, isNamePart x := by
            rw [← written]
            exact fun x member => List.all_eq_true.1 List.all_takeWhile x member
          rw [List.takeWhile_eq_self_iff.2 part, List.dropWhile_eq_nil_iff.2 part, written]
          simp
        · simp [name] at read

theorem readToken_error_congr {fault : LexFault} (failed : readToken afterDot c cs = .error fault)
    (afterDot' : Bool) : readToken afterDot' c cs = .error fault := by
  unfold readToken at failed ⊢
  cases symbol : readSymbol? c cs with
  | some found =>
    simp only [symbol] at failed
    cases failed
  | none =>
    simp only [symbol] at failed ⊢
    cases quoted : Quote.ofChar? c with
    | some quote => simpa only [quoted] using failed
    | none =>
      simp only [quoted] at failed ⊢
      by_cases digit : c.isDigit
      · obtain ⟨decimal, valid⟩ := Numeral.exists_ofChars?_numberSpan digit afterDot cs
        simp [digit, valid] at failed
      · simp only [digit] at failed ⊢
        exact failed

namespace Lexer

variable {l m : Lexer} {t : Token} {p : Nat} {ts : List Placed} {placed : Placed}

/-- What a call can do: it passes white space and comes to the end, to a token, or to a text in front of
which it stays. -/
theorem next_cases (l : Lexer) : ∃ blank rest, l.rest = blank ++ rest ∧
    (∀ c ∈ blank, Text.isSpace c) ∧
    (rest = [] ∧ l.next = (.ok none, ⟨[], l.position + Text.byteLength blank, false⟩) ∨
      ∃ c cs, rest = c :: cs ∧ Text.isSpace c = false ∧
        ((∃ lexeme behind, readToken l.afterDot c cs = .ok (lexeme, behind) ∧
            l.next = (.ok (some ⟨lexeme.token, l.position + Text.byteLength blank⟩),
              ⟨behind, l.position + Text.byteLength blank + Text.byteLength lexeme.written,
                lexeme.token.isDot⟩)) ∨
          ∃ fault, readToken l.afterDot c cs = .error fault ∧
            l.next = (.error (.lex fault (l.position + Text.byteLength blank)),
              ⟨c :: cs, l.position + Text.byteLength blank, false⟩))) := by
  refine ⟨l.rest.takeWhile Text.isSpace, l.rest.dropWhile Text.isSpace,
    List.takeWhile_append_dropWhile.symm,
    fun c member => List.all_eq_true.1 List.all_takeWhile c member, ?_⟩
  unfold next skipSpace
  cases rest : l.rest.dropWhile Text.isSpace with
  | nil => exact .inl ⟨rfl, rfl⟩
  | cons c cs =>
    have visible : Text.isSpace c = false := by
      have first := List.head?_dropWhile_not Text.isSpace l.rest
      simpa [rest] using first
    refine .inr ⟨c, cs, rfl, visible, ?_⟩
    cases read : readToken l.afterDot c cs with
    | ok found => exact .inl ⟨found.1, found.2, rfl, by simp only [read]; rfl⟩
    | error fault => exact .inr ⟨fault, rfl, by simp only [read]⟩

/-- A call that fails stays in front of the text that it cannot read. -/
theorem exists_of_next_error {e : Error} (failed : l.next = (.error e, m)) :
    ∃ c cs position fault, Text.isSpace c = false ∧ readToken l.afterDot c cs = .error fault ∧
      e = .lex fault position ∧ m = ⟨c :: cs, position, false⟩ := by
  obtain ⟨blank, rest, -, -, ⟨-, ended⟩ |
    ⟨c, cs, -, visible, ⟨_, _, -, token⟩ | ⟨fault, read, error⟩⟩⟩ := l.next_cases
  · rw [ended] at failed
    cases failed
  · rw [token] at failed
    cases failed
  · rw [error] at failed
    cases failed
    exact ⟨c, cs, _, fault, visible, read, rfl, rfl⟩

/-- A lexer that has failed fails again, at the same place. -/
theorem next_of_error {e : Error} (failed : l.next = (.error e, m)) : m.next = (.error e, m) := by
  obtain ⟨c, cs, position, fault, visible, read, rfl, rfl⟩ := exists_of_next_error failed
  simp [next, skipSpace, visible, readToken_error_congr read false]

/-- A number literal is never at fault. -/
theorem fault_of_next {e : Error} (failed : l.next = (.error e, m)) :
    ∃ fault position, e = .lex fault position ∧ ∀ text, fault ≠ .invalidNumber text := by
  obtain ⟨c, cs, position, fault, -, read, rfl, -⟩ := exists_of_next_error failed
  refine ⟨fault, position, rfl, ?_⟩
  rcases readToken_error read with ⟨quote, -, -, rfl⟩ | rfl <;> nofun

theorem next_of_none (ended : l.next = (.ok none, m)) : m.next = (.ok none, m) := by
  obtain ⟨blank, rest, -, -, ⟨-, none⟩ | ⟨c, cs, -, -, ⟨_, _, -, token⟩ | ⟨fault, -, error⟩⟩⟩ :=
    l.next_cases
  · rw [none] at ended
    cases ended
    rfl
  · rw [token] at ended
    cases ended
  · rw [error] at ended
    cases ended

/-- The lexer after `n` calls. -/
def after (l : Lexer) : Nat → Lexer
  | 0 => l
  | n + 1 => (l.after n).next.2

/-- What the call behind the first `n` answers. -/
def answer (l : Lexer) (n : Nat) : Except Error (Option Placed) := (l.after n).next.1

/-- A lexer that a call does not change answers alike from then on. -/
theorem answer_of_stays {result : Except Error (Option Placed)} {k n : Nat}
    (given : l.answer k = result)
    (stays : ∀ m, (l.after k).next = (result, m) → m.next = (result, m)) (le : k ≤ n) :
    l.answer n = result := by
  obtain ⟨m, next⟩ : ∃ m, (l.after k).next = (result, m) := ⟨_, Prod.ext given rfl⟩
  obtain ⟨d, rfl⟩ := Nat.exists_eq_add_of_le le
  suffices later : l.after (k + d) = l.after k ∨ l.after (k + d) = m by
    rcases later with same | same
    · rw [answer, same, next]
    · rw [answer, same, stays m next]
  induction d with
  | zero => exact .inl rfl
  | succ d ih =>
    rw [← Nat.add_assoc]
    rcases ih (Nat.le_add_right k d) with same | same
    · exact .inr (by rw [after, same, next])
    · exact .inr (by rw [after, same, stays m next])

/-- The characters begin with the token `t`, and read on their own they are that token: it is passed,
and only white space is left. -/
structure IsSlice (t : Token) (cs : List Char) : Prop where
  visible : ∀ c ∈ cs.head?, Text.isSpace c = false
  nonempty : cs ≠ []
  passed : ∀ p, ∃ more, next ⟨cs, p, false⟩ = (.ok (some ⟨t, p⟩), more) ∧
    ∀ c ∈ more.rest, Text.isSpace c

theorem tokens_of_blank {afterDot : Bool} (blank : ∀ c ∈ cs, Text.isSpace c) (p : Nat) :
    Lexer.tokens ⟨cs, p, afterDot⟩ = .ok [] := by
  induction cs generalizing p with
  | nil => exact tokens_of_next_none rfl
  | cons c cs ih =>
    rw [tokens_congr (next_space (blank c (by simp)))]
    exact ih (fun c member => blank c (by simp [member])) _

theorem IsSlice.tokens (slice : IsSlice t cs) (p : Nat) :
    Lexer.tokens ⟨cs, p, false⟩ = .ok [⟨t, p⟩] := by
  obtain ⟨more, next, blank⟩ := slice.passed p
  rw [tokens_of_next_some next, tokens_of_blank blank]
  rfl

theorem isSlice_of_readToken (visible : Text.isSpace c = false)
    (read : readToken afterDot c cs = .ok (lexeme, rest)) (space : ∀ c ∈ blank, Text.isSpace c) :
    IsSlice lexeme.token (lexeme.written ++ blank) := by
  obtain ⟨whole, nonempty⟩ := readToken_append read
  obtain ⟨t, written⟩ := lexeme
  obtain ⟨d, word, rfl⟩ := List.exists_cons_of_ne_nil nonempty
  obtain ⟨rfl, -⟩ := List.cons.inj whole
  have again : readToken false d (word ++ blank) = .ok (⟨t, d :: word⟩, blank) :=
    readToken_apart (readToken_alone read) (apart_of_blank space)
  refine ⟨by simpa using visible, by simp, fun p => ⟨_, next_token visible again, space⟩⟩

/-- The characters from byte `p` on are slices, one for each token, and each of them stands where its
token does. -/
inductive Sliced : Nat → List Char → List Placed → Prop
  | nil {p : Nat} : Sliced p [] []
  | cons {p : Nat} {t : Token} {slice cs : List Char} {ts : List Placed} :
      IsSlice t slice → Sliced (p + Text.byteLength slice) cs ts →
      Sliced p (slice ++ cs) (⟨t, p⟩ :: ts)

theorem exists_sliced (read : l.tokens = .ok ts) : ∃ blank cs, l.rest = blank ++ cs ∧
    (∀ c ∈ blank, Text.isSpace c) ∧ Sliced (l.position + Text.byteLength blank) cs ts := by
  -- From token to token; the white space in front of the next token goes to the slice before it.
  induction size : l.rest.length using Nat.strongRecOn generalizing l ts with
  | ind n ih =>
    subst size
    obtain ⟨blank, rest, whole, space, ⟨rfl, ended⟩ |
      ⟨c, cs, rfl, visible, ⟨lexeme, behind, token, next⟩ | ⟨fault, -, error⟩⟩⟩ := l.next_cases
    · rw [tokens_of_next_none ended] at read
      cases read
      exact ⟨blank, [], whole, space, .nil⟩
    · rw [tokens_of_next_some next] at read
      obtain ⟨others, later, rfl⟩ := map_eq_ok_iff.1 read
      obtain ⟨gap, tail, split, between, sliced⟩ := ih _ (length_next next) later rfl
      obtain rfl : behind = gap ++ tail := split
      have slice := isSlice_of_readToken visible token between
      rw [Nat.add_assoc _ _ (Text.byteLength gap), ← Text.byteLength_append] at sliced
      have written := (readToken_append token).1
      rw [← List.append_assoc] at written
      exact ⟨blank, c :: cs, whole, space, written ▸ .cons slice sliced⟩
    · rw [tokens_of_next_error error] at read
      cases read

theorem Sliced.start (sliced : Sliced p cs ts) :
    ts[0]?.elim (p + Text.byteLength cs) Placed.position = p := by
  cases sliced <;> rfl

theorem Sliced.le (sliced : Sliced p cs ts) (member : placed ∈ ts) : p ≤ placed.position := by
  induction sliced with
  | nil => cases member
  | cons slice _ ih =>
    rcases List.mem_cons.1 member with rfl | member
    · exact Nat.le_refl _
    · exact Nat.le_trans (Nat.le_add_right _ _) (ih member)

theorem Sliced.increasing (sliced : Sliced p cs ts) :
    ts.Pairwise fun first second => first.position < second.position := by
  induction sliced with
  | nil => exact .nil
  | cons slice rest ih =>
    refine .cons (fun placed member => ?_) ih
    have later := rest.le member
    have positive := Text.byteLength_pos slice.nonempty
    exact Nat.lt_of_lt_of_le (Nat.lt_add_of_pos_right positive) later

/-- A slice goes from its token to the next one, or to the end. -/
theorem Sliced.exists_slice {i : Nat} (sliced : Sliced p cs ts) (token : ts[i]? = some placed) :
    ∃ before slice behind, cs = before ++ slice ++ behind ∧ IsSlice placed.token slice ∧
      placed.position = p + Text.byteLength before ∧
      ts[i + 1]?.elim (p + Text.byteLength cs) Placed.position =
        placed.position + Text.byteLength slice := by
  induction sliced generalizing i with
  | nil => cases token
  | @cons p t slice cs ts isSlice rest ih =>
    cases i with
    | zero =>
      cases token
      refine ⟨[], slice, cs, rfl, isSlice, rfl, ?_⟩
      rw [Text.byteLength_append, ← Nat.add_assoc]
      exact rest.start
    | succ i =>
      obtain ⟨before, found, behind, rfl, isSlice', place, stop⟩ := ih token
      refine ⟨slice ++ before, found, behind, by simp, isSlice', ?_, ?_⟩
      · rw [place, Text.byteLength_append, Nat.add_assoc]
      · rw [← stop, Text.byteLength_append, ← Nat.add_assoc]
        rfl

end Lexer

variable {source : String} {offset : Nat} {tokens : List Placed}

/-- What a source is cut into by its tokens: white space, and a slice for each of them. -/
theorem exists_slices (read : tokenize source offset = .ok tokens) :
    ∃ blank cs, source.toList = blank ++ cs ∧ (∀ c ∈ blank, Text.isSpace c) ∧
      Lexer.Sliced (offset + Text.byteLength blank) cs tokens ∧
      offset + source.utf8ByteSize = offset + Text.byteLength blank + Text.byteLength cs := by
  obtain ⟨blank, cs, whole, space, sliced⟩ := Lexer.exists_sliced (l := .ofSource source offset) read
  change source.toList = blank ++ cs at whole
  refine ⟨blank, cs, whole, space, sliced, ?_⟩
  rw [← String.ofList_toList (s := source), whole, Text.utf8ByteSize_ofList, Text.byteLength_append,
    Nat.add_assoc]

/-- The tokens of a source stand one behind the other, each at a character that is no white space; in
front of the first one is only white space. The slice from a token to the next one, or to the end, is
that token when it is read on its own, and the token is followed by white space only. A lexer that has
failed answers with the same error from then on, and never for a number literal; at the end it stays at
the end. -/
theorem tokenize_slices (source : String) (offset : Nat) :
    (∀ tokens, tokenize source offset = .ok tokens →
      let start (i : Nat) := tokens[i]?.elim (offset + source.utf8ByteSize) Placed.position - offset
      tokens.Pairwise (fun first second => first.position < second.position) ∧
      (∀ placed ∈ tokens, ∃ before c behind, source.toList = before ++ c :: behind ∧
        placed.position = offset + Text.byteLength before ∧ Text.isSpace c = false) ∧
      (∃ blank, Text.slice? source 0 (start 0) = some blank ∧ ∀ c ∈ blank.toList, Text.isSpace c) ∧
      ∀ i placed, tokens[i]? = some placed → ∃ slice,
        Text.slice? source (start i) (start (i + 1)) = some slice ∧
        ∀ position, tokenize slice position = .ok [⟨placed.token, position⟩] ∧
          ∃ more, (Lexer.ofSource slice position).next = (.ok (some ⟨placed.token, position⟩), more) ∧
            ∀ c ∈ more.rest, Text.isSpace c) ∧
    let lexer := Lexer.ofSource source offset
    (∀ k e, lexer.answer k = .error e →
      (∃ fault position, e = .lex fault position ∧ ∀ text, fault ≠ .invalidNumber text) ∧
      ∀ n, k ≤ n → lexer.answer n = .error e) ∧
    ∀ k, lexer.answer k = .ok none → ∀ n, k ≤ n → lexer.answer n = .ok none := by
  refine ⟨fun tokens read => ?_, fun k e failed => ⟨?_, fun n le => ?_⟩, fun k ended n le => ?_⟩
  · intro start
    obtain ⟨blank, cs, whole, space, sliced, stop⟩ := exists_slices read
    obtain rfl : source = String.ofList (blank ++ cs) := by rw [← whole, String.ofList_toList]
    have first : start 0 = 0 + Text.byteLength blank := by
      simp only [start, stop, sliced.start]
      omega
    refine ⟨sliced.increasing, fun placed member => ?_, ⟨String.ofList blank, ?_, by simpa using space⟩,
      fun i placed token => ?_⟩
    · obtain ⟨i, token⟩ := List.mem_iff_getElem?.1 member
      obtain ⟨before, slice, behind, rfl, isSlice, place, -⟩ := sliced.exists_slice token
      obtain ⟨c, slice, rfl⟩ := List.exists_cons_of_ne_nil isSlice.nonempty
      refine ⟨blank ++ before, c, slice ++ behind, by simp, ?_, isSlice.visible c rfl⟩
      rw [place, Text.byteLength_append, Nat.add_assoc]
    · rw [first]
      exact Text.slice?_ofList [] blank cs
    · obtain ⟨before, slice, behind, rfl, isSlice, place, next⟩ := sliced.exists_slice token
      have from_token : start i = Text.byteLength (blank ++ before) := by
        simp only [start, token, Option.elim_some, place, Text.byteLength_append]
        omega
      have to_next : start (i + 1) = Text.byteLength (blank ++ before) + Text.byteLength slice := by
        simp only [start, stop]
        rw [next, place, Text.byteLength_append]
        omega
      refine ⟨String.ofList slice, ?_, fun position => ⟨?_, ?_⟩⟩
      · rw [from_token, to_next]
        simpa using Text.slice?_ofList (blank ++ before) slice behind
      · rw [tokenize, Lexer.ofSource, String.toList_ofList]
        exact isSlice.tokens position
      · rw [Lexer.ofSource, String.toList_ofList]
        exact isSlice.passed position
  · exact Lexer.fault_of_next (Prod.ext failed rfl)
  · exact Lexer.answer_of_stays failed (fun m next => Lexer.next_of_error next) le
  · exact Lexer.answer_of_stays ended (fun m next => Lexer.next_of_none next) le

/-- Behind a dot only the digits are a number, and the slice of the key is read alike without the
dot. -/
theorem tokenize_slices_of_digit_key :
    let one : Token := .number (Decimal.toNumber false ⟨1, 0⟩)
    tokenize "a.1e5" 3 =
        .ok [⟨.name "a", 3⟩, ⟨.symbol .dot, 4⟩, ⟨one, 5⟩, ⟨.name "e5", 6⟩] ∧
      (∃ slice, Text.slice? "a.1e5" 2 3 = some slice ∧ tokenize slice 0 = .ok [⟨one, 0⟩]) ∧
      ∀ n, 1 ≤ n → (Lexer.ofSource "a $" 0).answer n = .error (.lex (.unexpected '$') 2) := by
  intro one
  have read : tokenize "a.1e5" 3 =
      .ok [⟨.name "a", 3⟩, ⟨.symbol .dot, 4⟩, ⟨one, 5⟩, ⟨.name "e5", 6⟩] := by
    have tokens : (tokenize "a.1e5" 3).toOption =
        some [⟨.name "a", 3⟩, ⟨.symbol .dot, 4⟩, ⟨one, 5⟩, ⟨.name "e5", 6⟩] := by decide +kernel
    cases result : tokenize "a.1e5" 3 with
    | error e => simp [result, Except.toOption] at tokens
    | ok found => simpa [result, Except.toOption] using tokens
  have failed : (Lexer.ofSource "a $" 0).answer 1 = .error (.lex (.unexpected '$') 2) := rfl
  obtain ⟨slice, key, alone⟩ := ((tokenize_slices "a.1e5" 3).1 _ read).2.2.2 2 ⟨one, 5⟩ rfl
  exact ⟨read, ⟨slice, key, (alone 0).1⟩, ((tokenize_slices "a $" 0).2.1 1 _ failed).2⟩

end Stencil
