import Stencil.Eval.Expr
import Stencil.Proofs.Expr.ReadBack
import Stencil.Proofs.Node.Tag
import Stencil.Proofs.Number.Natural
import Stencil.Proofs.Value.IntegerKey

/-! Access by a dot and by brackets: a number finds in a value what its text finds. -/
namespace Stencil

open Grammar

namespace Value

variable {v : Value} {n : Number} {k : Nat}

/-- Arrays up to this length have indices that are all different numbers. -/
def HasExactIndices (v : Value) : Prop := ∀ items, v = .array items → items.length < 2 ^ 53

/-- Below `2 ^ 53` a number and its text are the same index. -/
theorem natural?_iff_integerKey? (small : k < 2 ^ 53) :
    n.natural? = some k ↔ integerKey? n.text = some k := by
  rw [integerKey?_eq_some_iff]
  constructor
  · exact fun natural => ⟨Number.text_of_natural natural small, by omega⟩
  · exact fun ⟨text, _⟩ => Number.natural?_of_text text small

/-- A value holds under a number what it holds under the text of the number. -/
theorem get?_number_eq (exact : v.HasExactIndices) (n : Number) :
    v.get? (.number n) = v.get? (.string n.text) := by
  cases v with
  | array items =>
    apply Option.ext
    intro item
    change n.natural?.bind (items[·]?) = some item ↔ (integerKey? n.text).bind (items[·]?) = some item
    simp only [Option.bind_eq_some_iff]
    refine exists_congr fun k => and_congr_left fun found => natural?_iff_integerKey? ?_
    obtain ⟨inside, -⟩ := List.getElem?_eq_some_iff.1 found
    exact inside.trans (exact items rfl)
  | mapping entries => rfl
  | _ => rfl

end Value

/-- ASCII digits, at least one. -/
structure IsDigits (s : String) : Prop where
  nonempty : s.toList ≠ []
  digits : Numeral.Digits s.toList

/-- The number that digits write. -/
def Number.ofDigits (s : String) : Number := (Decimal.mk (Text.ofDigits s.toList) 0).toNumber false

variable {N M s : String} {afterDot : Bool} {c : Char} {cs tail : List Char} {ts us : List Token}
  {o e : Expr} {n k limit offset : Nat}

theorem ofChars?_digits (digits : IsDigits N) :
    Decimal.ofChars? N.toList = some ⟨Text.ofDigits N.toList, 0⟩ := by
  have valid : Numeral.Valid ⟨N.toList, [], none⟩ :=
    ⟨digits.nonempty, digits.digits, by simp [Numeral.Digits], by simp⟩
  have read := Numeral.ofChars?_numeral valid
  simpa [Numeral.chars, Numeral.fractionPart, Numeral.exponentPart, Numeral.decimal,
    Numeral.exponentValue] using read

/-- The lexer reads digits to their end: directly after a dot whatever follows, elsewhere if nothing
does. -/
theorem IsDigits.numberSpan (digits : IsDigits N)
    (ends : tail = [] ∨ afterDot = true ∧ ∀ c ∈ tail.head?, c.isDigit = false) :
    numberSpan afterDot (N.toList ++ tail) = (N.toList, tail) := by
  have stops : ∀ c ∈ tail.head?, c.isDigit = false := by
    rcases ends with rfl | ⟨-, stops⟩
    · simp
    · exact stops
  obtain ⟨taken, dropped⟩ := digits.digits.span stops
  simp only [Stencil.numberSpan, taken, dropped]
  rcases ends with rfl | ⟨rfl, -⟩
  · simp [fractionSpan, exponentSpan]
  · rfl

theorem IsDigits.spells_append (digits : IsDigits N)
    (ends : tail = [] ∨ afterDot = true ∧ ∀ c ∈ tail.head?, c.isDigit = false)
    (rest : Spells false tail us) :
    Spells afterDot (N.toList ++ tail) (.number (.ofDigits N) :: us) := by
  obtain ⟨c, cs, whole⟩ := List.exists_cons_of_ne_nil digits.nonempty
  have digit : c.isDigit := digits.digits c (by simp [whole])
  have span := digits.numberSpan ends
  have decimal := ofChars?_digits digits
  rw [whole, List.cons_append] at span ⊢
  rw [whole] at decimal
  have read := Number.readToken_of_isDigit digit span decimal
  rw [Number.ofDigits, whole]
  exact .token (Number.isSpace_of_isDigit digit) read rest

theorem IsDigits.spells (digits : IsDigits N) (afterDot : Bool) :
    Spells afterDot N.toList [.number (.ofDigits N)] := by
  have spells : Spells afterDot (N.toList ++ []) [.number (.ofDigits N)] :=
    digits.spells_append (.inl rfl) .nil
  rwa [List.append_nil] at spells

theorem Spells.dot (spells : Spells true cs ts) : Spells afterDot ('.' :: cs) (.symbol .dot :: ts) :=
  .symbol (fun _ => rfl) rfl spells

namespace Grammar

variable {x : Number}

theorem Denotes.reads (denotes : Denotes .expression s.toList e n) (bound : n ≤ limit) (offset : Nat) :
    Expr.ofSource s offset limit = .ok e := by
  obtain ⟨ts, spells, m, le, derived⟩ := denotes
  exact Expr.ofSource_of_spells spells derived (le.trans bound)

theorem denotes_of_ofSource (reads : Expr.ofSource s offset limit = .ok e) :
    Denotes .expression s.toList e limit := Expr.spells_of_ofSource reads

theorem Denotes.nesting_pos (denotes : Denotes .expression cs e n) : 0 < n := by
  obtain ⟨ts, -, m, le, derived⟩ := denotes
  exact (Parse.Derives.nesting_pos derived).trans_le le

theorem denotes_number (literal : Spells false N.toList [.number x]) :
    Denotes .expression N.toList (.literal (.number x)) 1 :=
  ⟨_, literal, 1, le_rfl, Derives.whole (.bare (.literal (.number x)))⟩

theorem Denotes.dotDigits (object : Denotes .expression s.toList o n) (digits : IsDigits N) :
    Denotes .expression (grouped s ++ ("." ++ N)).toList
      (.member o (.literal (.string (Number.ofDigits N).text)) .dot) (n + 1) := by
  obtain ⟨ts, spells, m, bound, derived⟩ := object
  have whole : Spells false _ _ := spells.grouped (digits.spells true).dot
  refine ⟨_, ?_, m + 1, by omega, .whole (.dot (.bare (.group derived)) (.number _))⟩
  simpa using whole

theorem Denotes.dotsDigits (object : Denotes .expression s.toList o n) (first : IsDigits N)
    (second : IsDigits M) :
    Denotes .expression (grouped s ++ ("." ++ N ++ ("." ++ M))).toList
      (.member (.member o (.literal (.string (Number.ofDigits N).text)) .dot)
        (.literal (.string (Number.ofDigits M).text)) .dot) (n + 1) := by
  obtain ⟨ts, spells, m, bound, derived⟩ := object
  have keys : Spells true (N.toList ++ '.' :: M.toList) _ :=
    first.spells_append (.inr ⟨rfl, by simp⟩) (second.spells true).dot
  have whole : Spells false _ _ := spells.grouped keys.dot
  refine ⟨_, ?_, m + 1, by omega,
    .whole (.dot (.dot (.bare (.group derived)) (.number _)) (.number _))⟩
  simpa using whole

/-- A number literal as the key of an entry, and the same literal as the key of a lookup. -/
theorem Denotes.entryLookup (value : Denotes .expression s.toList e n)
    (literal : Spells false N.toList [.number x]) :
    Denotes .expression ("\x7b" ++ N ++ ": " ++ s ++ "\x7d[" ++ N ++ "]").toList
      (.member (.mapping [(.literal (.string x.text), e)]) (.literal (.number x)) .bracket) (n + 1) := by
  have positive := value.nesting_pos
  obtain ⟨ts, spells, m, bound, derived⟩ := value
  have entry : Derives .entry ([.number x] ++ .symbol .colon :: ts) (.literal (.string x.text), e)
      (max 0 m) :=
    .entry (.key (.memberName (.number x))) derived
  have inside : Spells false (N.toList ++ ':' :: ' ' :: s.toList) _ :=
    literal.separator (by decide) rfl spells.blank
  have behind : Spells false ('[' :: N.toList ++ [']']) _ :=
    literal.bracketed (by decide) rfl (by decide) rfl .nil
  have whole : Spells false ('{' :: (N.toList ++ ':' :: ' ' :: s.toList) ++
      '}' :: ('[' :: N.toList ++ [']'])) _ :=
    inside.bracketed (by decide) rfl (by decide) rfl behind
  refine ⟨_, ?_, max (max 0 m) 1 + 1, by omega, .whole (.bracket (.bare (.mapping (.last entry)))
    (.whole (.bare (.literal (.number x)))))⟩
  simpa using whole

end Grammar

namespace Env

variable {σ : Type} (env : Env σ) (scopes : Scopes)

theorem eval_dot (object : Expr) (name : String) :
    env.eval scopes (.member object (.literal (.string name)) .dot) =
      (do let v ← env.eval scopes object; env.member v (.string name)) := by
  rw [eval]
  simp [eval, Literal.toValue]

theorem eval_bracket (object : Expr) (x : Number) :
    env.eval scopes (.member object (.literal (.number x)) .bracket) =
      (do let v ← env.eval scopes object; env.member v (.number x)) := by
  rw [eval]
  simp [eval, Literal.toValue]

theorem member_entry (v : Value) (x : Number) :
    env.member (.mapping [(x.text, v)]) (.number x) = env.resolve v := by
  have found : Value.get? (.mapping [(x.text, v)]) (.number x) = some v := by
    simp [Value.get?, Value.text, Dict.get?]
  rw [member, found]

theorem eval_entry (x : Number) :
    env.eval scopes
        (.member (.mapping [(.literal (.string x.text), e)]) (.literal (.number x)) .bracket) =
      (do let v ← env.eval scopes e; env.resolve v) := by
  rw [eval_bracket, eval]
  simp [evalEntries, eval, Literal.toValue, Value.text, Dict.insert, member_entry]

/-- Where the object has exact indices, the two accesses look up alike. -/
theorem eval_dot_eq_bracket {o : Expr} {m : Memory σ} (x : Number)
    (exact : ∀ v m', env.eval scopes o m = (.ok v, m') → v.HasExactIndices) :
    env.eval scopes (.member o (.literal (.string x.text)) .dot) m =
      env.eval scopes (.member o (.literal (.number x)) .bracket) m := by
  rw [eval_dot, eval_bracket, Action.bind_apply, Action.bind_apply]
  split
  · next v m' gives =>
    have same := Value.get?_number_eq (exact v m' gives) x
    rw [member, member, same]
  · rfl

/-- A value holds under a number what it holds under its text, `-0`, NaN and the infinities included.
So digits behind a dot look up what they look up between brackets, one dot after the other is one lookup
after the other, and an entry under a number literal is found under that literal. -/
theorem dot_and_bracket_agree :
    (∀ (v : Value) (x : Number), v.HasExactIndices → v.get? (.number x) = v.get? (.string x.text)) ∧
    (∀ (s N M : String) (start limit : Nat) (o : Expr), Expr.ofSource s start limit = .ok o →
      IsDigits N → IsDigits M →
      ∃ dot bracket chain : Expr,
        (∀ offset, Expr.ofSource ("(" ++ s ++ ")." ++ N) offset (limit + 1) = .ok dot ∧
          Expr.ofSource ("(" ++ s ++ ")[" ++ N ++ "]") offset (limit + 1) = .ok bracket ∧
          Expr.ofSource ("(" ++ s ++ ")." ++ N ++ "." ++ M) offset (limit + 1) = .ok chain) ∧
        ∀ (σ : Type) (env : Env σ) (scopes : Scopes),
          (env.eval scopes dot = do
            let v ← env.eval scopes o
            env.member v (.string (Number.ofDigits N).text)) ∧
          (env.eval scopes chain = do
            let w ← env.eval scopes dot
            env.member w (.string (Number.ofDigits M).text)) ∧
          ∀ m : Memory σ, (∀ v m', env.eval scopes o m = (.ok v, m') → v.HasExactIndices) →
            env.eval scopes dot m = env.eval scopes bracket m) ∧
    (∀ (s N : String) (x : Number) (start limit : Nat) (e : Expr),
      tokenize N 0 = .ok [⟨.number x, 0⟩] → Expr.ofSource s start limit = .ok e →
      ∃ lookup : Expr,
        (∀ offset, Expr.ofSource ("\x7b" ++ N ++ ": " ++ s ++ "\x7d[" ++ N ++ "]") offset (limit + 1) =
          .ok lookup) ∧
        ∀ (σ : Type) (env : Env σ) (scopes : Scopes), env.eval scopes lookup = do
          let v ← env.eval scopes e
          env.resolve v) := by
  refine ⟨fun v x exact => Value.get?_number_eq exact x, ?_, ?_⟩
  · intro s N M start limit o valid first second
    have object := denotes_of_ofSource valid
    have positive := object.nesting_pos
    have index := denotes_number (first.spells false)
    have dot_source : "(" ++ s ++ ")." ++ N = grouped s ++ ("." ++ N) := by
      simp [grouped, ← String.toList_inj]
    have bracket_source : "(" ++ s ++ ")[" ++ N ++ "]" = grouped s ++ ("[" ++ N ++ "]") := by
      simp [grouped, ← String.toList_inj]
    have chain_source : "(" ++ s ++ ")." ++ N ++ "." ++ M = grouped s ++ ("." ++ N ++ ("." ++ M)) := by
      simp [grouped, ← String.toList_inj]
    rw [chain_source, dot_source, bracket_source]
    refine ⟨_, _, _, fun offset => ⟨(object.dotDigits first).reads le_rfl offset,
      (object.bracket index).reads (by omega) offset,
      (object.dotsDigits first second).reads le_rfl offset⟩, fun σ env scopes => ⟨?_, ?_, ?_⟩⟩
    · exact eval_dot env scopes o _
    · exact eval_dot env scopes _ _
    · exact fun m exact => eval_dot_eq_bracket env scopes _ exact
  · intro s N x start limit e literal valid
    have value := denotes_of_ofSource valid
    exact ⟨_, (value.entryLookup (spells_of_tokenize literal)).reads le_rfl,
      fun σ env scopes => eval_entry env scopes x⟩

/-- The second item of an array. -/
theorem dot_and_bracket_agree_of_second :
    (Value.array [.null, .bool true]).get? (.string (Number.ofDigits "1").text) = some (.bool true) ∧
    ∃ dot bracket : Expr, Expr.ofSource "(xs).1" 0 2 = .ok dot ∧
      Expr.ofSource "(xs)[1]" 0 2 = .ok bracket ∧
      ∀ (env : Env Unit) (m : Memory Unit), (∀ v m', env.eval [] (.variable "xs") m = (.ok v, m') →
        v.HasExactIndices) → env.eval [] dot m = env.eval [] bracket m := by
  obtain ⟨values, accesses, -⟩ := dot_and_bracket_agree
  constructor
  · have few : (Value.array [.null, .bool true]).HasExactIndices := by
      rintro items ⟨⟩
      decide
    have second : (Number.ofDigits "1").natural? = some 1 := by decide +kernel
    rw [← values _ _ few, Value.get?, Value.index?, second]
    rfl
  · have digit : IsDigits "1" := ⟨by decide, by simp [Numeral.Digits]⟩
    obtain ⟨dot, bracket, chain, reads, evaluates⟩ :=
      accesses "xs" "1" "1" 0 1 (.variable "xs") (by cbv) digit digit
    exact ⟨dot, bracket, (reads 0).1, (reads 0).2.1, fun env => (evaluates Unit env []).2.2⟩

end Env

end Stencil
