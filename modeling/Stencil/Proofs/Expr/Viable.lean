import Stencil.Proofs.Expr.Loops

/-! The tokens in front of the one that a parser blames begin a phrase: for every place where a parser
can fail, here is a way to go on. -/
namespace Stencil

namespace Grammar

variable {p q : Phrase} {ts us : List Token} {tree : p.Tree} {n : Nat}

/-- Further tokens make `ts` a phrase `p`. -/
def Viable (p : Phrase) (ts : List Token) : Prop := ∃ us tree n, Derives p (ts ++ us) tree n

theorem Derives.viable (us : List Token) (derived : Derives p (ts ++ us) tree n) : Viable p ts :=
  ⟨us, tree, n, derived⟩

/-- What can be completed to a phrase can be completed to one around it. -/
theorem Viable.within (viable : Viable p ts) (before after : List Token)
    (derives : ∀ us tree n, Derives p us tree n →
      ∃ tree' n', Derives q (before ++ us ++ after) tree' n') : Viable q (before ++ ts) := by
  obtain ⟨us, tree, n, derived⟩ := viable
  obtain ⟨tree', n', whole⟩ := derives _ tree n derived
  exact ⟨us ++ after, tree', n', by simpa using whole⟩

/-- An expression to go on with where one is missing. -/
theorem derives_filler : Derives .expression [.name "x"] (.variable "x") 1 :=
  Derives.whole (.bare (.name "x"))

end Grammar

namespace Parse

open Stencil.Action Cursor Grammar

variable {β : Type} {room room' : Nat} {p : Phrase} {x y u v : Parse Expr} {c d : Cursor}
  {begun : List Token → Prop} {close : Symbol} {ts : List Token}

/-- `y` tracks `x`; both take nothing but phrases `p`, and where they fail the passed tokens begin
one. -/
structure Follows (room room' : Nat) (p : Phrase) (x y : Parse p.Tree) : Prop where
  sound : Sound room p x
  sound' : Sound room' p y
  tracks : ∀ c, Tracks (Viable p) x y c

theorem Follows.bind {x y : Parse p.Tree} (follows : Follows room room' p x y)
    {f g : p.Tree → Parse β} (start : ∀ ts, Viable p ts → begun ts)
    (next : ∀ tree d ts n, Derives p ts tree n → Passes c ts d →
      Tracks (fun us => begun (ts ++ us)) (f tree) (g tree) d) :
    Tracks begun (x >>= f) (y >>= g) c := by
  refine ((follows.tracks c).mono start).bind fun tree d ts given passes => ?_
  obtain ⟨us, n, derived, -, same⟩ := follows.sound given
  obtain rfl := passes.unique same
  exact next tree d ts n derived passes

/-- A phrase with a token `t` that has to stand behind it. -/
theorem Follows.bind_expect {x y : Parse p.Tree} (follows : Follows room room' p x y) (t : Token)
    {f g : p.Tree → Parse β} (start : ∀ ts, Viable p ts → begun ts)
    (next : ∀ tree d ts n, Derives p ts tree n → Passes c (ts ++ [t]) d →
      Tracks (fun us => begun (ts ++ t :: us)) (f tree) (g tree) d) :
    Tracks begun (x >>= fun tree => expect t >>= fun _ => f tree)
      (y >>= fun tree => expect t >>= fun _ => g tree) c := by
  refine follows.bind start fun tree d ts n derived passes => ?_
  have whole : Viable p (ts ++ []) := Derives.viable [] (by simpa using derived)
  refine tracks_expect_bind (fun _ => start _ whole) fun ahead => ?_
  exact next tree d.tail ts n derived (passes.append (.cons ahead .nil))

theorem tracks_wholeChain {p : Nat} {left : Expr} {n : Nat}
    (operand : Follows room room' (.chain (p + 1)) x y) (first : Derives (.chain p) ts left n) :
    Tracks (fun us => Viable (.chain p) (ts ++ us)) (wholeChain p x left) (wholeChain p y left)
      c := by
  induction size : c.rest.length using Nat.strongRecOn generalizing left ts n c with
  | ind size ih =>
    subst size
    cases found : operator? p c with
    | none =>
      have stops (z : Parse Expr) (c' : Cursor) (same : c'.next = c.next) :
          wholeChain p z left c' = (.ok left, c') :=
        wholeChain_of_none (by rw [operator?, same]; exact found)
      exact (tracks_pure left).of_next (stops x) (stops y)
    | some op =>
      obtain ⟨t, next, spells, rfl⟩ := operator?_eq_some_iff.1 found
      have step {z : Parse Expr} (forward : Forward z) (c' : Cursor) (same : c'.next = c.next) :
          wholeChain op.precedence z left c' = (advance >>= fun _ => z >>= fun right =>
            wholeChain op.precedence z (.binary op left right)) c' :=
        wholeChain_of_some forward (by rw [operator?, same]; exact found)
      refine Tracks.of_next (tracks_advance_bind next (operand.bind ?_ ?_))
        (step operand.sound.forward) (step operand.sound'.forward)
      · intro us viable
        have whole := viable.within (q := .chain op.precedence) (ts ++ [t]) []
          fun vs right k derived => ⟨_, _, by simpa using first.binary spells derived⟩
        simpa using whole
      · intro right d us k derived passes
        have := length_tail next
        have := passes.length
        have rest := ih d.rest.length (by omega) (first.binary spells derived) rfl
        exact rest.mono fun vs viable => by simpa using viable

theorem follows_chains (operand : Follows room room' .unary x y) {p k : Nat}
    (levels : p + k = 7) :
    Follows room room' (.chain p) (chains x (List.range' p k)) (chains y (List.range' p k)) where
  sound := sound_chains operand.sound levels
  sound' := sound_chains operand.sound' levels
  tracks := by
    induction k generalizing p with
    | zero =>
      intro c
      obtain rfl : p = 7 := levels
      exact (operand.tracks c).mono fun ts viable =>
        viable.within [] [] fun us tree n derived => ⟨tree, n, by simpa using .operand derived⟩
    | succ k ih =>
      intro c
      have tighter : Follows room room' (.chain (p + 1)) (chains x (List.range' (p + 1) k))
          (chains y (List.range' (p + 1) k)) :=
        ⟨sound_chains operand.sound (by omega), sound_chains operand.sound' (by omega),
          ih (by omega)⟩
      rw [List.range'_succ]
      refine tighter.bind ?_ ?_
      · exact fun ts viable => viable.within [] [] fun us tree n derived =>
          ⟨tree, n, by simpa using .tighter (by omega) derived⟩
      · exact fun left d ts n derived _ => tracks_wholeChain tighter (.tighter (by omega) derived)

theorem follows_climb (operand : Follows room room' .unary x y) :
    Follows room room' (.chain 1) (climb x 7 1) (climb y 7 1) := by
  rw [climb_eq_stratified operand.sound.forward (by omega) (by omega),
    climb_eq_stratified operand.sound'.forward (by omega) (by omega)]
  exact follows_chains operand (p := 1) (k := 6) rfl

theorem follows_conditional (operand : Follows room room' .unary x y)
    (expression : Follows room room' .expression u v) :
    Follows (room + 1) (room' + 1) .expression (conditional x u) (conditional y v) where
  sound := sound_conditional operand.sound expression.sound
  sound' := sound_conditional operand.sound' expression.sound'
  tracks := by
    intro c
    refine (follows_climb operand).bind ?_ fun e d ts n derived _ => ?_
    · exact fun ts viable =>
        viable.within [] [] fun us tree n derived => ⟨tree, n + 1, by simpa using .plain derived⟩
    refine tracks_accept_bind (fun question => ?_) fun _ => tracks_pure e
    refine expression.bind_expect (.symbol .colon) ?_ fun a m us k first _ => ?_
    · intro us viable
      have whole := viable.within (q := .expression) (ts ++ [.symbol .question])
        [.symbol .colon, .name "x"] fun vs a k first =>
          ⟨_, _, by simpa using Derives.conditional derived first derives_filler⟩
      simpa using whole
    refine expression.bind ?_ fun b m _ _ _ _ => tracks_pure _
    intro vs viable
    have whole := viable.within (q := .expression)
      (ts ++ .symbol .question :: us ++ [.symbol .colon]) [] fun ws b l second =>
        ⟨_, _, by simpa using Derives.conditional derived first second⟩
    simpa using whole

theorem list_of_close {α : Type} {item : Parse α} (next : c.next = some (.symbol close)) :
    list close item c = (.ok [], c.tail) :=
  gives_list_iff.2 ((gives_items_of_close next).2 ⟨rfl, rfl⟩)

theorem tracks_list {item item' : Parse p.Tree} (follows : Follows room room' p item item')
    (single : ∀ q, p ≠ .list q) (close : Symbol) (c : Cursor) :
    Tracks (Viable (.list p)) (list close item) (list close item') c := by
  have shrinks : Shrinks item := follows.sound.shrinks single
  have shrinks' : Shrinks item' := follows.sound'.shrinks single
  induction size : c.rest.length using Nat.strongRecOn generalizing c with
  | ind size ih =>
    subst size
    suffices step : Tracks (Viable (.list p)) (listStep close item (fun _ => list close item) ())
        (listStep close item' (fun _ => list close item') ()) c from
      step.of_next (fun c' _ => list_eq shrinks c') fun c' _ => list_eq shrinks' c'
    refine tracks_accept_bind (fun _ => tracks_pure []) fun _ => follows.bind ?_ ?_
    · exact fun ts viable =>
        viable.within [] [] fun us tree n derived => ⟨[tree], n, by simpa using .last derived⟩
    intro first d ts n derived passes
    have shorter : d.rest.length < c.rest.length := by
      obtain ⟨t, us, rfl, -⟩ := derived.exists_begins single
      have := passes.length
      rw [List.length_cons] at this
      omega
    refine tracks_accept_bind (fun comma => ?_) fun _ => tracks_isNext_bind ?_
    · have := length_tail comma
      refine ((ih d.tail.rest.length (by omega) d.tail rfl).mono ?_).bind
        fun trees m _ _ _ => tracks_pure (first :: trees)
      intro us viable
      have whole := viable.within (q := .list p) (ts ++ [.symbol .comma]) []
        fun vs trees k others => ⟨_, _, by simpa using Derives.cons derived others⟩
      simpa using whole
    · by_cases closes : d.next = some (.symbol close)
      · have stops (z : Parse p.Tree) (c' : Cursor) (same : c'.next = d.next) :
            (list close z >>= fun trees => pure (first :: trees)) c' =
              (advance >>= fun _ => pure [first]) c' := by
          rw [bind_apply, list_of_close (same.trans closes)]
          rfl
        rw [closes, beq_self_eq_true]
        exact Tracks.of_next (tracks_advance_bind closes (tracks_pure [first])) (stops item)
          (stops item')
      · rw [beq_false_of_ne closes]
        exact tracks_refusal (.expectedSeparator close)
          (Derives.viable [] (by simpa using Derives.last derived))
          (fun _ _ => rfl) fun _ _ => rfl

/-- A list with the symbol that closes it. -/
theorem tracks_list_bind {item item' : Parse p.Tree} (follows : Follows room room' p item item')
    (single : ∀ q, p ≠ .list q) {f g : List p.Tree → Parse β}
    (start : ∀ ts, Viable (.list p) ts → begun ts)
    (next : ∀ trees d ts n, Derives (.list p) ts trees n → Passes c (ts ++ [.symbol close]) d →
      Tracks (fun us => begun (ts ++ .symbol close :: us)) (f trees) (g trees) d) :
    Tracks begun (list close item >>= f) (list close item' >>= g) c := by
  refine ((tracks_list follows single close c).mono start).bind fun trees d ts given passes => ?_
  obtain ⟨m, ⟨us, n, derived, -, within⟩, closes, rfl⟩ := sound_list follows.sound given
  have whole := within.append (.cons closes .nil)
  obtain rfl := passes.unique whole
  simpa using next trees m.tail us n derived whole

theorem follows_key (expression : Follows room room' .expression x y) :
    Follows room room' .key (key x) (key y) where
  sound := sound_key expression.sound
  sound' := sound_key expression.sound'
  tracks := by
    intro c
    have refuse : Tracks (Viable .key) (fail .expectedKey : Parse Expr) (fail .expectedKey) c :=
      tracks_fail .expectedKey (Derives.viable _ (.key (.memberName (.name "x"))))
    have single (e : Expr) {t : Token} (next : c.next = some t) :
        Tracks (Viable .key) (advance >>= fun _ => pure e) (advance >>= fun _ => pure e) c :=
      tracks_advance_bind next (tracks_pure e)
    refine tracks_peek_bind ?_
    cases next : c.next with
    | none => exact refuse
    | some t =>
      cases t with
      | string content quote => exact single _ next
      | number n => exact single _ next
      | name x => exact single _ next
      | keyword k => exact refuse
      | symbol s =>
        by_cases opens : s = .openParen
        · subst opens
          refine tracks_advance_bind next (expression.bind_expect (.symbol .closeParen) ?_ ?_)
          · exact fun ts viable =>
              viable.within [.symbol .openParen] [.symbol .closeParen] fun us e n derived =>
                ⟨e, n, by simpa using .computedKey derived⟩
          · exact fun e d ts n _ _ => tracks_pure e
        · cases s <;> first | exact refuse | exact absurd rfl opens

theorem follows_entry (expression : Follows room room' .expression x y) :
    Follows room room' .entry (Parse.entry x) (Parse.entry y) where
  sound := sound_entry expression.sound
  sound' := sound_entry expression.sound'
  tracks := by
    intro c
    refine (follows_key expression).bind_expect (.symbol .colon) ?_ fun k d ts n first _ => ?_
    · exact fun ts viable => viable.within [] [.symbol .colon, .name "x"] fun us k n derived =>
        ⟨(k, .variable "x"), _, by simpa using derived.entry derives_filler⟩
    · refine expression.bind ?_ fun value d _ _ _ _ => tracks_pure (k, value)
      intro us viable
      have whole := viable.within (q := .entry) (ts ++ [.symbol .colon]) [] fun vs value j second =>
        ⟨(k, value), _, by simpa using first.entry second⟩
      simpa using whole

/-- What the parser of an operand does behind the token that it begins with. -/
def behind? (x : Parse Expr) : Token → Option (Parse Expr)
  | .number n => some (pure (.literal (.number n)))
  | .string content _ => some (pure (.literal (.string content)))
  | .keyword .true => some (pure (.literal (.bool true)))
  | .keyword .false => some (pure (.literal (.bool false)))
  | .keyword .null => some (pure (.literal .null))
  | .name name => some (accept (.symbol .openParen) >>= fun opens =>
      if opens then arguments x >>= fun args => pure (.call name args) else pure (.variable name))
  | .symbol .openParen => some (x >>= fun inner => expect (.symbol .closeParen) >>= fun _ =>
      pure inner)
  | .symbol .openBracket => some (list .closeBracket x >>= fun items => pure (.array items))
  | .symbol .openBrace => some (list .closeBrace (Parse.entry x) >>= fun entries =>
      pure (.mapping entries))
  | _ => none

theorem primary_of_behind {t : Token} {rest : Parse Expr} (next : c.next = some t)
    (begins : behind? x t = some rest) : primary x c = (advance >>= fun _ => rest) c := by
  obtain ⟨⟨token, position⟩, others, whole, rfl⟩ := exists_of_next next
  unfold primary
  simp only [whole]
  unfold behind? at begins
  dsimp only at begins
  split at begins <;> cases begins <;> rfl

theorem primary_fails (refused : c.next.bind (behind? x) = none) :
    (primary x).Fails c (c.error .expectedExpression) := by
  unfold Fails primary
  cases whole : c.rest with
  | nil => rfl
  | cons first others =>
    obtain ⟨token, position⟩ := first
    simp only [Cursor.next, whole, List.head?_cons, Option.map_some, Option.bind_some] at refused
    cases token with
    | keyword k => cases k <;> first | rfl | cases refused
    | symbol s => cases s <;> first | rfl | cases refused
    | _ => cases refused

theorem follows_primary (expression : Follows room room' .expression x y) :
    Follows room room' .primary (primary x) (primary y) where
  sound := sound_primary expression.sound
  sound' := sound_primary expression.sound'
  tracks := by
    intro c
    have refuse (refused : ∀ z, c.next.bind (behind? z) = none) :
        Tracks (Viable .primary) (primary x) (primary y) c := by
      refine tracks_refusal .expectedExpression (Derives.viable _ (.name "x"))
        (fun c' same => primary_fails ?_) fun c' same => primary_fails ?_
      · rw [same, refused]
      · rw [same, refused]
    have begin {t : Token} {rest rest' : Parse Expr} (next : c.next = some t)
        (tracks : Tracks (fun us => Viable .primary (t :: us)) rest rest' c.tail)
        (first : behind? x t = some rest) (second : behind? y t = some rest') :
        Tracks (Viable .primary) (primary x) (primary y) c :=
      (tracks_advance_bind next tracks).of_next
        (fun c' same => primary_of_behind (same.trans next) first)
        fun c' same => primary_of_behind (same.trans next) second
    cases next : c.next with
    | none => exact refuse fun z => by rw [next]; rfl
    | some t =>
      cases t with
      | number n => exact begin next (tracks_pure _) rfl rfl
      | string content quote => exact begin next (tracks_pure _) rfl rfl
      | keyword k =>
        cases k <;> first
          | exact begin next (tracks_pure _) rfl rfl
          | exact refuse fun z => by rw [next]; rfl
      | name name =>
        refine begin next (tracks_accept_bind (fun _ => ?_) fun _ => tracks_pure _) rfl rfl
        refine tracks_list_bind expression (by simp) ?_ fun args _ _ _ _ _ => tracks_pure _
        intro ts viable
        exact viable.within [.name name, .symbol .openParen] [.symbol .closeParen]
          fun us args n derived => ⟨_, _, by simpa using .call derived⟩
      | symbol s =>
        by_cases opens : s ∈ [Symbol.openParen, .openBracket, .openBrace]
        · simp only [List.mem_cons, List.not_mem_nil, or_false] at opens
          rcases opens with rfl | rfl | rfl
          · refine begin next (expression.bind_expect _ ?_ fun _ _ _ _ _ _ => tracks_pure _) rfl rfl
            exact fun ts viable => viable.within [.symbol .openParen] [.symbol .closeParen]
              fun us e n derived => ⟨_, _, by simpa using .group derived⟩
          · refine begin next (tracks_list_bind expression (by simp) ?_ fun _ _ _ _ _ _ =>
              tracks_pure _) rfl rfl
            exact fun ts viable => viable.within [.symbol .openBracket] [.symbol .closeBracket]
              fun us items n derived => ⟨_, _, by simpa using .array derived⟩
          · refine begin next (tracks_list_bind (follows_entry expression) (by simp) ?_
              fun _ _ _ _ _ _ => tracks_pure _) rfl rfl
            exact fun ts viable => viable.within [.symbol .openBrace] [.symbol .closeBrace]
              fun us entries n derived => ⟨_, _, by simpa using .mapping derived⟩
        · refine refuse fun z => ?_
          rw [next]
          cases s <;> first | rfl | exact absurd (by simp) opens

theorem memberName_fails (refused : ∀ t name, c.next = some t → ¬ IsMemberName t name) :
    memberName.Fails c (c.error .expectedAttribute) := by
  rw [memberName, fails_peek_bind_iff]
  split
  · next name next => exact absurd (.name name) (refused _ name next)
  · next n next => exact absurd (.number n) (refused _ n.text next)
  · rfl

theorem tracks_memberName_bind {f g : String → Parse β} (start : begun [])
    (rest : ∀ t name, c.next = some t → IsMemberName t name →
      Tracks (fun us => begun (t :: us)) (f name) (g name) c.tail) :
    Tracks begun (memberName >>= f) (memberName >>= g) c := by
  by_cases named : ∃ t name, c.next = some t ∧ IsMemberName t name
  · obtain ⟨t, name, next, isName⟩ := named
    have given (c' : Cursor) (same : c'.next = c.next) : memberName c' = (.ok name, c'.tail) :=
      gives_memberName_iff.2 ⟨t, same.trans next, isName, rfl⟩
    have after : Tracks begun (advance >>= fun _ => f name) (advance >>= fun _ => g name) c :=
      tracks_advance_bind next (rest t name next isName)
    refine after.of_next (fun c' same => ?_) fun c' same => ?_ <;>
      rw [bind_apply, given c' same] <;> rfl
  · have other (c' : Cursor) (same : c'.next = c.next) :
        memberName.Fails c' (c'.error .expectedAttribute) :=
      memberName_fails fun t name next isName => named ⟨t, name, same ▸ next, isName⟩
    refine tracks_refusal .expectedAttribute start (fun c' same => ?_) fun c' same => ?_
    · exact fails_bind_iff.2 (.inl (other c' same))
    · exact fails_bind_iff.2 (.inl (other c' same))

theorem tracks_wholeSuffixes {base : Expr} {n : Nat}
    (expression : Follows room room' .expression x y) (first : Derives .suffixed ts base n) :
    Tracks (fun us => Viable .suffixed (ts ++ us)) (wholeSuffixes x base) (wholeSuffixes y base)
      c := by
  have shrinks : Shrinks x := expression.sound.shrinks (by simp)
  have shrinks' : Shrinks y := expression.sound'.shrinks (by simp)
  induction size : c.rest.length using Nat.strongRecOn generalizing base ts n c with
  | ind size ih =>
    subst size
    -- Behind a suffix `us` the loop goes on with a longer phrase.
    have again {t : Token} {us : List Token} {e : Expr} {k : Nat} {d : Cursor}
        (derived : Derives .suffixed (ts ++ t :: us) e k) (passes : Passes c (t :: us) d) :
        Tracks (fun vs => Viable .suffixed (ts ++ t :: (us ++ vs))) (wholeSuffixes x e)
          (wholeSuffixes y e) d := by
      have := passes.length
      rw [List.length_cons] at this
      exact (ih d.rest.length (by omega) derived rfl).mono fun vs viable => by simpa using viable
    suffices step : Tracks (fun us => Viable .suffixed (ts ++ us))
        (suffixStep x (wholeSuffixes x) base) (suffixStep y (wholeSuffixes y) base) c from
      step.of_next (fun c' _ => wholeSuffixes_eq shrinks base c') fun c' _ =>
        wholeSuffixes_eq shrinks' base c'
    refine tracks_accept_bind (fun dot => ?_) fun _ => ?_
    · refine tracks_memberName_bind ?_ fun t name next isName => ?_
      · exact Derives.viable _ (by simpa using first.dot (.name "x"))
      · exact again (first.dot isName) (.cons dot (.cons next .nil))
    refine tracks_accept_bind (fun bracket => ?_) fun _ => ?_
    · refine expression.bind_expect (.symbol .closeBracket) ?_ fun k d us j second passes => ?_
      · intro us viable
        have whole := viable.within (q := .suffixed) (ts ++ [.symbol .openBracket])
          [.symbol .closeBracket] fun vs k j second =>
            ⟨_, _, by simpa using first.bracket second⟩
        simpa using whole
      · have rest := again (by simpa using first.bracket second) (.cons bracket passes)
        exact rest.mono fun vs viable => by simpa using viable
    refine tracks_accept_bind (fun pipe => ?_) fun _ => tracks_pure base
    refine tracks_expectName_bind .filter ?_ fun name next => ?_
    · exact Derives.viable _ (by simpa using first.filter (x := "x"))
    refine tracks_accept_bind (fun opens => ?_) fun _ => ?_
    · refine tracks_list_bind expression (by simp) ?_ fun args d us j second passes => ?_
      · intro us viable
        have whole := viable.within (q := .suffixed)
          (ts ++ [.symbol .pipe, .name name, .symbol .openParen]) [.symbol .closeParen]
            fun vs args j second => ⟨_, _, by simpa using first.filterWith second⟩
        simpa using whole
      · have rest := again (by simpa using first.filterWith (x := name) second)
          (.cons pipe (.cons next (.cons opens passes)))
        exact rest.mono fun vs viable => by simpa using viable
    · exact again first.filter (.cons pipe (.cons next .nil))

theorem suffixed_eq (x : Parse Expr) : suffixed x = primary x >>= wholeSuffixes x := by
  funext c
  refine bind_congr fun base m _ => ?_
  change (if m.next.any startsSuffix then wholeSuffixes x base else pure base : Parse Expr) m = _
  split
  · rfl
  · next ends =>
    exact ((gives_suffixes_of_none (Bool.not_eq_true _ ▸ ends)).2 ⟨rfl, rfl⟩).symm

theorem follows_suffixed (expression : Follows room room' .expression x y) :
    Follows room room' .suffixed (suffixed x) (suffixed y) where
  sound := sound_suffixed expression.sound
  sound' := sound_suffixed expression.sound'
  tracks := by
    intro c
    rw [suffixed_eq, suffixed_eq]
    refine (follows_primary expression).bind ?_ fun base d ts n derived _ => ?_
    · exact fun ts viable =>
        viable.within [] [] fun us e n derived => ⟨e, n, by simpa using .bare derived⟩
    · exact tracks_wholeSuffixes expression (.bare derived)

theorem tracks_operand (expression : Follows room room' .expression x y)
    (deeper : ∀ c, Tracks (Viable .unary) u v c) (c : Cursor) :
    Tracks (Viable .unary) (operand u x) (operand v y) c := by
  refine tracks_peek_bind ?_
  cases unary : c.next.bind UnaryOp.ofToken? with
  | none =>
    exact ((follows_suffixed expression).tracks c).mono fun ts viable =>
      viable.within [] [] fun us e n derived => ⟨e, n, by simpa using .unsigned derived⟩
  | some op =>
    obtain ⟨t, next, isOp⟩ := Option.bind_eq_some_iff.1 unary
    have spells := UnaryOp.ofToken?_eq_some_iff.1 isOp
    refine tracks_advance_bind next (((deeper c.tail).mono fun ts viable => ?_).bind
      fun e d ts _ _ => tracks_pure _)
    exact viable.within [t] [] fun us e n derived => ⟨_, _, by simpa using .unary spells derived⟩

theorem follows_nested {room room' : Nat} (le : room ≤ room') :
    Follows room room' .expression (nested room .expression) (nested room' .expression) ∧
      Follows room room' .unary (nested room .operand) (nested room' .operand) := by
  have sound := sound_nested
  induction room generalizing room' with
  | zero =>
    have expression : Follows 0 room' .expression tooDeep (nested room' .expression) :=
      ⟨(sound 0).1, (sound room').1, fun c => tracks_tooDeep _⟩
    refine ⟨expression, (sound 0).2, (sound room').2, fun c => ?_⟩
    cases room' with
    | zero => exact tracks_operand expression (fun c => tracks_tooDeep _) c
    | succ room' => exact tracks_operand expression (fun c => tracks_tooDeep _) c
  | succ room ih =>
    obtain ⟨room', rfl⟩ := Nat.exists_eq_add_one_of_ne_zero (by omega : room' ≠ 0)
    obtain ⟨inner, operand⟩ := ih (Nat.le_of_succ_le_succ le)
    have expression := follows_conditional operand inner
    exact ⟨expression, (sound _).2, (sound _).2, tracks_operand expression operand.tracks⟩

end Parse
end Stencil
