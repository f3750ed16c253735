import Stencil.Proofs.Expr.Grammar
import Stencil.Proofs.Expr.Print
import Stencil.Proofs.Token.Separated

/-! A printed expression is written as the grammar has it, so it is read back as it was. -/
namespace Stencil

variable {afterDot : Bool} {cs ds : List Char} {ts us : List Token}

theorem readString?_escaped (c : Char) (cs : List Char) :
    readString? .double (escaped c ++ cs) =
      (readString? .double cs).map (StringBody.cons c (escaped c)) := by
  unfold escaped
  split
  · next special =>
    have same : unescape c = c := by rcases special with rfl | rfl <;> rfl
    rw [List.cons_append, List.singleton_append, readString?_escape, same]
  · next plain =>
    rw [not_or] at plain
    exact readString?_plain plain.2 plain.1 cs

theorem readString?_quoted (content rest : List Char) :
    readString? .double (content.flatMap escaped ++ '"' :: rest) =
      some (⟨content, content.flatMap escaped ++ ['"']⟩, rest) := by
  induction content with
  | nil => exact readString?_quote .double rest
  | cons c content ih =>
    rw [List.flatMap_cons, List.append_assoc, readString?_escaped, ih]
    simp [StringBody.cons]

theorem spells_quoted (s : String) (afterDot : Bool) :
    Spells afterDot (quoted s).toList [.string s .double] := by
  have chars : (quoted s).toList = '"' :: (s.toList.flatMap escaped ++ ['"']) := by simp [quoted]
  have body := readString?_quoted s.toList []
  have no_symbol (cs : List Char) : readSymbol? '"' cs = none := by
    cases cs <;> simp [readSymbol?, Symbol.ofChar?, Symbol.ofPair?]
  have read : readToken afterDot '"' (s.toList.flatMap escaped ++ ['"']) =
      .ok (⟨.string s .double, (quoted s).toList⟩, []) := by
    simp [readToken, no_symbol, Quote.ofChar?, readQuoted, body, Quote.char, chars]
  rw [chars]
  exact .token (by decide) read .nil

theorem BinaryOp.spells_symbol (op : BinaryOp) :
    Spells false op.symbol.text.toList [.symbol op.symbol] := by
  cases op <;> exact spells_of_map_tokenize (by cbv)

theorem UnaryOp.spells_symbol (op : UnaryOp) :
    Spells false op.symbol.text.toList [.symbol op.symbol] := by
  cases op <;> exact spells_of_map_tokenize (by cbv)

theorem Spells.grouped {s : String} (spells : Spells false s.toList ts) (rest : Spells false ds us) :
    Spells afterDot ((Stencil.grouped s).toList ++ ds)
      (.symbol .openParen :: ts ++ .symbol .closeParen :: us) := by
  have whole : Spells afterDot ('(' :: s.toList ++ ')' :: ds)
      (.symbol .openParen :: ts ++ .symbol .closeParen :: us) :=
    spells.bracketed (by decide) rfl (by decide) rfl rest
  simpa [Stencil.grouped] using whole

theorem Spells.grouped_end {s : String} (spells : Spells false s.toList ts) :
    Spells afterDot (Stencil.grouped s).toList
      (.symbol .openParen :: ts ++ [.symbol .closeParen]) := by
  have whole : Spells afterDot ((Stencil.grouped s).toList ++ [])
      (.symbol .openParen :: ts ++ [.symbol .closeParen]) := spells.grouped .nil
  simpa using whole

theorem separated_grouped (s : String) : Separated (grouped s).toList := by
  have first : Separated ('(' :: (s.toList ++ [')'])) := separated_cons (by decide)
  simpa [grouped] using first

/-- What a call is written as, and a filter behind its input. -/
theorem IsName.spells_call {x s : String} (name : IsName x) (args : Spells false s.toList ts) :
    Spells false (x ++ grouped s).toList
      (.name x :: .symbol .openParen :: ts ++ [.symbol .closeParen]) := by
  simpa using (name.spells false).append args.grouped_end (separated_grouped s)

namespace Grammar

variable {p : Phrase} {tree : p.Tree} {l r o k v test x y : Expr} {s t u : String} {name : String}
  {args : List Expr} {a b c m n : Nat}

/-- The characters write a phrase that stands for `tree` and nests at most `n` levels deep. -/
def Denotes (p : Phrase) (cs : List Char) (tree : p.Tree) (n : Nat) : Prop :=
  ∃ ts, Spells false cs ts ∧ ∃ m ≤ n, Derives p ts tree m

theorem Denotes.mono (denotes : Denotes p cs tree m) (le : m ≤ n) : Denotes p cs tree n := by
  obtain ⟨ts, spells, a, bound, derived⟩ := denotes
  exact ⟨ts, spells, a, bound.trans le, derived⟩

theorem denotes_literal {value : Literal} (writable : value.IsWritable) :
    Denotes .expression value.print.toList (.literal value) 1 := by
  obtain ⟨t, spells, isLiteral⟩ :
      ∃ t, Spells false value.print.toList [t] ∧ IsLiteral t value := by
    cases value with
    | null => exact ⟨_, spells_of_map_tokenize (by cbv), .null⟩
    | bool b =>
      cases b with
      | false => exact ⟨_, spells_of_map_tokenize (by cbv), .false⟩
      | true => exact ⟨_, spells_of_map_tokenize (by cbv), .true⟩
    | number n => exact ⟨_, Number.spells_text writable, .number n⟩
    | string s => exact ⟨_, spells_quoted s false, .string s .double⟩
  exact ⟨_, spells, 1, le_rfl, Derives.whole (.bare (.literal isLiteral))⟩

theorem denotes_variable (isName : IsName name) :
    Denotes .expression name.toList (.variable name) 1 :=
  ⟨_, isName.spells false, 1, le_rfl, Derives.whole (.bare (.name name))⟩

theorem Denotes.binary (op : BinaryOp) (left : Denotes .expression s.toList l a)
    (right : Denotes .expression t.toList r b) :
    Denotes .expression (grouped s ++ " " ++ op.symbol.text ++ " " ++ grouped t).toList
      (.binary op l r) (max a b + 1) := by
  obtain ⟨ts, spells_left, a', bound_left, derived_left⟩ := left
  obtain ⟨us, spells_right, b', bound_right, derived_right⟩ := right
  have no_dot : endsInDot false [.symbol op.symbol] = false := by cases op <;> rfl
  have behind := op.spells_symbol.space_append no_dot spells_right.grouped_end
  have whole : Spells false _ _ := spells_left.grouped behind.blank
  have member : .symbol op.symbol ∈ op.spellings := by
    cases op <;> simp [BinaryOp.spellings, BinaryOp.symbol]
  have positive := op.precedence_pos
  have low := op.precedence_lt
  have first : Derives (.chain op.precedence) _ l a' :=
    Derives.chain (.bare (.group derived_left)) (by omega)
  have second : Derives (.chain (op.precedence + 1)) _ r b' :=
    Derives.chain (.bare (.group derived_right)) low
  have derived := (Derives.binary first member second).looser positive (by omega)
  refine ⟨_, ?_, _, ?_, .plain derived⟩
  · simpa using whole
  · omega

theorem Denotes.unary (op : UnaryOp) (operand : Denotes .expression s.toList r n) :
    Denotes .expression (op.symbol.text ++ grouped s).toList (.unary op r) (n + 2) := by
  obtain ⟨ts, spells, m, bound, derived⟩ := operand
  have whole := op.spells_symbol.append spells.grouped_end (separated_grouped s)
  have member : .symbol op.symbol ∈ op.spellings := by
    cases op <;> simp [UnaryOp.spellings, UnaryOp.symbol]
  have inner : Derives .unary _ r m := .unsigned (.bare (.group derived))
  refine ⟨_, ?_, m + 2, by omega, .plain (.looser (by omega) le_rfl (.operand (.unary member inner)))⟩
  simpa using whole

theorem Denotes.dot (object : Denotes .expression s.toList o n) (isName : IsName name) :
    Denotes .expression (grouped s ++ ("." ++ name)).toList
      (.member o (.literal (.string name)) .dot) (n + 1) := by
  obtain ⟨ts, spells, m, bound, derived⟩ := object
  have key : Spells false ('.' :: name.toList) [.symbol .dot, .name name] :=
    .symbol (by simp [Symbol.ofPair?]) rfl (isName.spells true)
  have whole : Spells false _ _ := spells.grouped key
  refine ⟨_, ?_, m + 1, by omega, .whole (.dot (.bare (.group derived)) (.name name))⟩
  simpa using whole

theorem Denotes.bracket (object : Denotes .expression s.toList o a)
    (key : Denotes .expression t.toList k b) :
    Denotes .expression (grouped s ++ ("[" ++ t ++ "]")).toList (.member o k .bracket)
      (max a b + 1) := by
  obtain ⟨ts, spells, a', bound_object, derived⟩ := object
  obtain ⟨us, spells_key, b', bound_key, derived_key⟩ := key
  have inner : Spells false ('[' :: t.toList ++ [']'])
      (.symbol .openBracket :: us ++ [.symbol .closeBracket]) :=
    spells_key.bracketed (by decide) rfl (by decide) rfl .nil
  have whole : Spells false _ _ := spells.grouped inner
  refine ⟨_, ?_, max a' b' + 1, by omega, .whole (.bracket (.bare (.group derived)) derived_key)⟩
  simpa using whole

theorem Denotes.filter (input : Denotes .expression s.toList o a) (isName : IsName name)
    (list : Denotes (.list .expression) t.toList args b) :
    Denotes .expression (grouped s ++ " | " ++ name ++ grouped t).toList (.filter o name args)
      (max a b + 1) := by
  obtain ⟨ts, spells, a', bound_input, derived⟩ := input
  obtain ⟨us, spells_args, b', bound_args, derived_args⟩ := list
  have pipe : Spells false "|".toList [.symbol .pipe] := spells_of_map_tokenize (by cbv)
  have call := pipe.space_append rfl (isName.spells_call spells_args)
  have whole : Spells false _ _ := spells.grouped call.blank
  have suffixed : Derives .suffixed _ (.filter o name args) (max a' b') :=
    .filterWith (.bare (.group derived)) derived_args
  refine ⟨_, ?_, max a' b' + 1, by omega, suffixed.whole⟩
  simpa using whole

theorem Denotes.call (isName : IsName name) (list : Denotes (.list .expression) t.toList args n) :
    Denotes .expression (name ++ grouped t).toList (.call name args) (n + 1) := by
  obtain ⟨us, spells, m, bound, derived⟩ := list
  exact ⟨_, isName.spells_call spells, m + 1, by omega, Derives.whole (.bare (.call derived))⟩

theorem Denotes.array (list : Denotes (.list .expression) t.toList args n) :
    Denotes .expression ("[" ++ t ++ "]").toList (.array args) (n + 1) := by
  obtain ⟨us, spells, m, bound, derived⟩ := list
  have whole : Spells false ('[' :: t.toList ++ [']']) _ :=
    spells.bracketed (by decide) rfl (by decide) rfl .nil
  refine ⟨_, ?_, m + 1, by omega, Derives.whole (.bare (.array derived))⟩
  simpa using whole

theorem Denotes.mapping {entries : List (Expr × Expr)}
    (list : Denotes (.list .entry) t.toList entries n) :
    Denotes .expression ("\x7b" ++ t ++ "\x7d").toList (.mapping entries) (n + 1) := by
  obtain ⟨us, spells, m, bound, derived⟩ := list
  have whole : Spells false ('\x7b' :: t.toList ++ ['\x7d']) _ :=
    spells.bracketed (by decide) rfl (by decide) rfl .nil
  refine ⟨_, ?_, m + 1, by omega, Derives.whole (.bare (.mapping derived))⟩
  simpa using whole

theorem Denotes.conditional (first : Denotes .expression s.toList test a)
    (second : Denotes .expression t.toList x b) (third : Denotes .expression u.toList y c) :
    Denotes .expression
      (grouped s ++ " ? " ++ grouped t ++ " : " ++ grouped u).toList (.conditional test x y)
      (max a (max b c + 1) + 1) := by
  obtain ⟨ts, spells_test, a', bound_test, derived_test⟩ := first
  obtain ⟨us, spells_x, b', bound_x, derived_x⟩ := second
  obtain ⟨vs, spells_y, c', bound_y, derived_y⟩ := third
  have colon : Spells false ":".toList [.symbol .colon] := spells_of_map_tokenize (by cbv)
  have question : Spells false "?".toList [.symbol .question] := spells_of_map_tokenize (by cbv)
  have otherwise := colon.space_append rfl spells_y.grouped_end
  have arms := question.space_append rfl (spells_x.grouped otherwise.blank)
  have whole : Spells false _ _ := spells_test.grouped arms.blank
  have chain : Derives (.chain 1) _ test a' := Derives.chain (.bare (.group derived_test)) (by omega)
  have derived := Derives.conditional chain (Derives.whole (.bare (.group derived_x)))
    (Derives.whole (.bare (.group derived_y)))
  refine ⟨_, ?_, _, ?_, derived⟩
  · simpa using whole
  · omega

theorem Denotes.key (denotes : Denotes .expression k.print.toList k n) :
    Denotes .key (k.printKey k.print).toList k n := by
  by_cases string : ∃ s, k = .literal (.string s)
  · obtain ⟨s, rfl⟩ := string
    rw [Expr.printKey, Expr.print, Literal.print]
    exact ⟨_, spells_quoted s false, 0, by omega, .key (.string s .double)⟩
  · obtain ⟨ts, spells, m, bound, derived⟩ := denotes
    have text : k.printKey k.print = grouped k.print := by
      unfold Expr.printKey
      split
      · next s => exact absurd ⟨s, rfl⟩ string
      · rfl
    rw [text]
    exact ⟨_, spells.grouped_end, m, bound, .computedKey derived⟩

theorem Denotes.entry (key : Denotes .expression k.print.toList k n)
    (value : Denotes .expression v.print.toList v n) :
    Denotes .entry (Expr.printEntry (k, v)).toList (k, v) n := by
  obtain ⟨ts, spells_key, a, bound_key, derived_key⟩ := key.key
  obtain ⟨us, spells_value, b, bound_value, derived_value⟩ := value
  have whole := spells_key.separator (c := ':') (by decide) rfl spells_value.blank
  refine ⟨_, ?_, max a b, by omega, .entry derived_key derived_value⟩
  simpa [Expr.printEntry] using whole

theorem join_cons_cons (separator s t : String) (texts : List String) :
    Text.join separator (s :: t :: texts) = s ++ separator ++ Text.join separator (t :: texts) := by
  have grow (before text : String) (rest : List String) :
      rest.foldl (fun text next => text ++ separator ++ next) (before ++ text) =
        before ++ rest.foldl (fun text next => text ++ separator ++ next) text := by
    induction rest generalizing text with
    | nil => rfl
    | cons next rest ih => simpa [String.append_assoc] using ih (text ++ separator ++ next)
  exact grow (s ++ separator) t texts

theorem denotes_list {text : p.Tree → String} {items : List p.Tree}
    (each : ∀ item ∈ items, Denotes p (text item).toList item n) :
    Denotes (.list p) (Text.join ", " (items.map text)).toList items n := by
  induction items with
  | nil => exact ⟨[], .nil, 0, by omega, .nil⟩
  | cons first others ih =>
    obtain ⟨ts, spells, a, bound, derived⟩ := each first (by simp)
    cases others with
    | nil => exact ⟨ts, spells, a, bound, .last derived⟩
    | cons second others =>
      obtain ⟨us, spells_rest, b, bound_rest, derived_rest⟩ :=
        ih fun item member => each item (List.mem_cons_of_mem first member)
      have whole := spells.comma spells_rest
      refine ⟨_, ?_, max a b, by omega, .cons derived derived_rest⟩
      simpa [join_cons_cons] using whole

end Grammar

open Grammar

/-- A printed expression is written as the grammar has it. -/
theorem Expr.denotes_print {e : Expr} (printable : e.Printable) :
    Denotes .expression e.print.toList e e.nesting := by
  have list {es : List Expr}
      (each : ∀ e ∈ es, Denotes .expression e.print.toList e e.nesting) :
      Denotes (.list .expression) (Text.join ", " (printItems es)).toList es (nestingOfItems es) := by
    rw [printItems_eq_map]
    apply denotes_list
    intro e member
    exact (each e member).mono (nesting_le_nestingOfItems member)
  induction printable with
  | literal writable =>
    rw [print, nesting]
    exact denotes_literal writable
  | name isName =>
    rw [print, nesting]
    exact denotes_variable isName
  | binary op _ _ left right =>
    rw [print, nesting]
    exact left.binary op right
  | unary op _ operand =>
    rw [print, nesting]
    exact operand.unary op
  | array _ items =>
    rw [print, nesting]
    exact (list items).array
  | mapping _ _ keys values =>
    rw [print, nesting, printEntries_eq_map]
    apply Denotes.mapping
    apply denotes_list
    rintro ⟨k, v⟩ member
    have bound := nesting_le_nestingOfEntries member
    exact ((keys _ member).mono bound.1).entry ((values _ member).mono bound.2)
  | dot _ name object =>
    rw [print, nesting, printAccess]
    exact (object.dot name).mono (by omega)
  | bracket _ _ object key =>
    rw [print, nesting, printAccess]
    · exact object.bracket key
    · simp
  | filter _ name _ input args =>
    rw [print, nesting]
    exact input.filter name (list args)
  | call name _ args =>
    rw [print, nesting]
    exact Denotes.call name (list args)
  | conditional _ _ _ test whenTrue whenFalse =>
    rw [print, nesting]
    exact test.conditional whenTrue whenFalse

end Stencil
