import Colloquy.Proofs.Token.Reading

/-!
# Texts that spell a token

`Spells` relates a kind of token to the texts that are read as it, and `EndsBefore` says which
characters may come next. Between two tokens, a scanner reads such a text to its end and emits the
token.
-/

namespace Colloquy

open List Bool

/-- What can be told of a token apart from its column. -/
abbrev Sight := TokenKind × String × Nat

/-- The kind, the text and the line of a token. -/
def Token.sight (t : Token) : Sight := (t.kind, t.text, t.line)

/-- The inside of a string: its quote only after a backslash, and each backslash before a
character. -/
inductive Quoted (quote : Char) : List Char → Prop where
  | nil :
    Quoted quote []
  | plain {c cs} :
    c ≠ quote →
    c ≠ '\\' →
    Quoted quote cs →
    Quoted quote (c :: cs)
  | escaped {c cs} :
    '\\' ≠ quote →
    Quoted quote cs →
    Quoted quote ('\\' :: c :: cs)

/-- The text is one way to write a token of the kind. -/
inductive Spells : TokenKind → List Char → Prop where
  | word {c cs} :
    Text.isWordStart c = true →
    (∀ x ∈ cs, Text.isWordChar x = true) →
    Spells (.ofWord (String.ofList (c :: cs))) (c :: cs)
  | whole {c cs} :
    (∀ x ∈ c :: cs, x.isDigit = true) →
    Spells (.number (Scanner.numberOf (c :: cs))) (c :: cs)
  | fraction {c cs d ds} :
    (∀ x ∈ c :: cs, x.isDigit = true) →
    (∀ x ∈ d :: ds, x.isDigit = true) →
    Spells (.number (Scanner.numberOf (c :: cs ++ '.' :: d :: ds))) (c :: cs ++ '.' :: d :: ds)
  | string {quote cs} :
    quote = '"' ∨ quote = '\'' →
    Quoted quote cs →
    Spells (.string (String.ofList cs)) (quote :: (cs ++ [quote]))
  | symbol {c sign} :
    Scanner.symbol? c = some sign →
    Spells (.symbol sign) [c]
  | pair {c sign} :
    Scanner.pairSymbol? c = some sign →
    Spells (.symbol sign) [c, '=']

lemma Spells.ne_nil {kind : TokenKind} {text : List Char} (h : Spells kind text) : text ≠ [] := by
  cases h <;> exact cons_ne_nil _ _

/-- A word that is not reserved. -/
def Text.isName (word : String) : Bool :=
  TokenKind.ofWord word = .identifier word && word.toList.head?.any isWordStart &&
    word.toList.all isWordChar

/-- The next character does not go on with a token of the kind. -/
def EndsBefore : TokenKind → Option Char → Prop
  | .number _, next => next.any (fun c => c.isDigit || c == '.') = false
  | .string _, _ => True
  | .symbol sign, next =>
    (sign = .less ∨ sign = .greater → next ≠ some '=') ∧ (sign = .slash → next ≠ some '/')
  | _, next => next.any Text.isWordChar = false

namespace Scanner

section Sights

variable {s s' : Scanner} {mode : Mode} {line : Nat} {blocks : List Nat} {seen : List Sight}
  {text rest : List Char}

/-- The line of a scanner, the widths of its blocks and its tokens, the last one first. -/
structure Shows (s : Scanner) (line : Nat) (blocks : List Nat) (seen : List Sight) : Prop where
  line : s.position.line = line
  blocks : s.blocks = blocks
  emitted : s.emitted.map Token.sight = seen

/-- A scanner reads the text in front of the rest, and this is known of it then. -/
def Reads (s : Scanner) (text rest : List Char) (mode : Mode) (line : Nat) (blocks : List Nat)
    (seen : List Sight) : Prop :=
  ∃ s' : Scanner, s'.mode = mode ∧ s'.Shows line blocks seen ∧
  s.readAll (text ++ rest) = s'.readAll rest

/-- A scanner reads the text as one token of this kind. -/
def Lexes (s : Scanner) (kind : TokenKind) (text rest : List Char) (line : Nat) (blocks : List Nat)
    (seen : List Sight) : Prop :=
  s.Reads text rest .between (line + text.count '\n') blocks
    ((kind, String.ofList text, line) :: seen)

lemma Reads.nil (hmode : s.mode = mode) (hs : s.Shows line blocks seen) :
    s.Reads [] rest mode line blocks seen :=
  ⟨s, hmode, hs, rfl⟩

lemma Reads.cons {c : Char} (hreact : s.react c (text ++ rest).head? = (none, s'))
    (h : (s'.past c (text ++ rest)).Reads text rest mode line blocks seen) :
    s.Reads (c :: text) rest mode line blocks seen := by
  obtain ⟨s'', hmode, hs, hread⟩ := h
  exact ⟨s'', hmode, hs, (readAll_cons hreact).trans hread⟩

lemma Reads.trans {more : List Char} {mode' : Mode} {line' : Nat} {blocks' : List Nat}
    {seen' : List Sight} (h : s.Reads text (more ++ rest) mode line blocks seen)
    (h' : ∀ s' : Scanner, s'.mode = mode → s'.Shows line blocks seen →
      s'.Reads more rest mode' line' blocks' seen') :
    s.Reads (text ++ more) rest mode' line' blocks' seen' := by
  obtain ⟨s', hmode, hs, hread⟩ := h
  obtain ⟨s'', hmode', hs', hread'⟩ := h' s' hmode hs
  refine ⟨s'', hmode', hs', ?_⟩
  rw [append_assoc, hread, hread']

end Sights

section Loops

variable {s : Scanner} {c : Char} {line : Nat} {blocks : List Nat} {seen : List Sight}
  {cs rest : List Char}

/-- A scanner inside a token waits, or emits it if the next character does not go on. -/
def holdOrEmit (goesOn : Char → Bool) (hold : List Char → Mode)
    (kind : List Char → TokenKind) (start : Position) (s : Scanner) (read : List Char)
    (next : Option Char) : Scanner :=
  if next.any goesOn then { s with mode := hold read }
  else { s with mode := .between }.emit (kind read.reverse) (String.ofList read.reverse) start

variable {goesOn : Char → Bool} {hold : List Char → Mode}
  {kind : List Char → TokenKind} {start : Position} (read : List Char)
  (hreact : ∀ (s : Scanner) x read next, x ∈ cs → s.mode = hold read →
    s.react x next = (none, holdOrEmit goesOn hold kind start s (x :: read) next))
  (hcs : ∀ x ∈ cs, goesOn x = true)

include hreact hcs

/-- Characters that go on with a token are all read. -/
lemma holdOrEmit_readAll (hs : (s.past c (cs ++ rest)).Shows line blocks seen) :
    ∃ s' c', (s'.past c' rest).Shows (line + cs.count '\n') blocks seen ∧
      ((holdOrEmit goesOn hold kind start s read (cs ++ rest).head?).past c
        (cs ++ rest)).readAll (cs ++ rest) =
        ((holdOrEmit goesOn hold kind start s' (cs.reverse ++ read) rest.head?).past
          c' rest).readAll rest := by
  induction cs generalizing s c read line with
  | nil => exact ⟨s, c, hs, rfl⟩
  | cons x cs ih =>
    have hx : (some x).any goesOn = true := hcs x mem_cons_self
    -- the scanner waits for the character, with the token still open
    let held : Scanner := { s with mode := hold read }.past c (x :: cs ++ rest)
    have hheld : (held.past x (cs ++ rest)).Shows (held.position.after x).line blocks seen :=
      ⟨rfl, hs.blocks, hs.emitted⟩
    obtain ⟨s', c', hs', hread⟩ := ih (x :: read)
      (fun s y read next hy => hreact s y read next (mem_cons_of_mem x hy))
      (fun y hy => hcs y (mem_cons_of_mem x hy)) hheld
    have hline : held.position.line = line := hs.line
    rw [line_after, hline] at hs'
    refine ⟨s', c', hs', ?_⟩
    have hwaits : holdOrEmit goesOn hold kind start s read (x :: cs ++ rest).head? =
        { s with mode := hold read } :=
      if_pos hx
    have hnext : held.react x (cs ++ rest).head? =
        (none, holdOrEmit goesOn hold kind start held (x :: read) (cs ++ rest).head?) :=
      hreact held x read _ mem_cons_self rfl
    rw [hwaits, reverse_cons, append_assoc]
    exact (readAll_cons hnext).trans hread

/-- The token is emitted before another character. -/
lemma holdOrEmit_reads (hend : rest.head?.any goesOn = false)
    (hs : (s.past c (cs ++ rest)).Shows line blocks seen) :
    ((holdOrEmit goesOn hold kind start s read (cs ++ rest).head?).past c
      (cs ++ rest)).Reads cs rest .between
      (line + cs.count '\n') blocks
      ((kind (read.reverse ++ cs), String.ofList (read.reverse ++ cs), start.line) :: seen) := by
  obtain ⟨s', c', hs', hread⟩ := holdOrEmit_readAll read hreact hcs hs
  have hemit : holdOrEmit goesOn hold kind start s' (cs.reverse ++ read) rest.head? =
      { s' with mode := .between }.emit (kind (read.reverse ++ cs))
      (String.ofList (read.reverse ++ cs)) start := by
    rw [holdOrEmit, hend, reverse_append, reverse_reverse]
    rfl
  rw [hemit] at hread
  have hshows : (({ s' with mode := .between }.emit (kind (read.reverse ++ cs))
      (String.ofList (read.reverse ++ cs)) start).past c' rest).Shows (line + cs.count '\n') blocks
      ((kind (read.reverse ++ cs), String.ofList (read.reverse ++ cs), start.line) :: seen) :=
    ⟨hs'.line, hs'.blocks, congrArg (List.cons _) hs'.emitted⟩
  exact ⟨_, rfl, hshows, hread⟩

/-- A token that goes on is held. -/
lemma holdOrEmit_holds (hnext : rest.head?.any goesOn = true)
    (hs : (s.past c (cs ++ rest)).Shows line blocks seen) :
    ((holdOrEmit goesOn hold kind start s read (cs ++ rest).head?).past c
      (cs ++ rest)).Reads cs rest
      (hold (cs.reverse ++ read)) (line + cs.count '\n') blocks seen := by
  obtain ⟨s', c', hs', hread⟩ := holdOrEmit_readAll read hreact hcs hs
  have hwaits : holdOrEmit goesOn hold kind start s' (cs.reverse ++ read) rest.head? =
      { s' with mode := hold (cs.reverse ++ read) } := if_pos hnext
  rw [hwaits] at hread
  have hshows : ({ s' with mode := hold (cs.reverse ++ read) }.past c' rest).Shows
      (line + cs.count '\n') blocks seen :=
    ⟨hs'.line, hs'.blocks, hs'.emitted⟩
  exact ⟨_, rfl, hshows, hread⟩

end Loops

section Lexemes

variable {s : Scanner} {c : Char} {line : Nat} {blocks : List Nat} {seen : List Sight}
  {cs rest read text : List Char} {next : Option Char} {start : Position} {kind : TokenKind}

lemma endsBefore_word {word : String} (h : EndsBefore (.ofWord word) next) :
    next.any Text.isWordChar = false := by
  unfold TokenKind.ofWord at h
  split at h
  · exact h
  split at h
  · exact h
  split at h <;> exact h

/-- No word begins with a digit. -/
lemma isWordStart_of_isDigit (h : c.isDigit = true) : Text.isWordStart c = false := by
  have hcode : 48 ≤ c.toNat ∧ c.toNat ≤ 57 := by
    simp only [Char.isDigit, and_eq_true, decide_eq_true_eq] at h
    exact h
  have halpha : c.isAlpha = false := by
    have hupper : ¬(65 ≤ c.toNat ∧ c.toNat ≤ 90) := by omega
    have hlower : (decide (97 ≤ c.toNat) && decide (c.toNat ≤ 122)) = false := by
      rw [decide_eq_false (by omega), Bool.false_and]
    exact or_eq_false_iff.2 ⟨decide_eq_false hupper, hlower⟩
  have hline : c ≠ '_' := by
    rintro rfl
    exact absurd hcode (by decide)
  simp only [Text.isWordStart, Text.isLetter, if_pos (show c.toNat < 128 by omega),
    halpha, Bool.false_or, beq_eq_false_iff_ne]
  exact hline

lemma react_between (hmode : s.mode = .between) : s.react c next = s.fresh c next := by
  unfold react
  rw [hmode]

lemma significant_of_class {p : Char → Bool} (hc : p c = true)
    (hp : [' ', '\t', '\r', '\n', '#', '/'].any p = false) : Significant c next := by
  have hne : ∀ x ∈ [' ', '\t', '\r', '\n', '#', '/'], c ≠ x := by
    rintro x hx rfl
    exact any_eq_false.1 hp c hx hc
  refine ⟨hne _ (by simp), hne _ (by simp), hne _ (by simp), hne _ (by simp), ?_⟩
  simp [beginsComment, hne '#' (by simp), hne '/' (by simp)]

/-- What a character outside blanks begins. -/
lemma fresh_significant (h : Significant c next) : s.fresh c next =
    if c = '"' ∨ c = '\'' then (none, { s with mode := .quoted s.position c [] })
    else if c.isDigit then (none, { s with mode := .between }.inWhole s.position [c] next)
    else if Text.isWordStart c then (none, { s with mode := .between }.inWord s.position [c] next)
    else
      match (if next = some '=' then pairSymbol? c else none) with
      | some sign => (none, { s with mode := .pair s.position c sign })
      | none =>
        match symbol? c with
        | some sign => (none, { s with mode := .between }.emit (.symbol sign) c.toString s.position)
        | none => (some ⟨.unexpectedCharacter c, s.position⟩, { s with mode := .between }) := by
  obtain ⟨hspace, htab, hreturn, hnewline, hcomment⟩ := h
  have hblank : ¬(c = ' ' ∨ c = '\t' ∨ c = '\r') := by
    rintro (h | h | h)
    · exact hspace h
    · exact htab h
    · exact hreturn h
  unfold fresh
  rw [if_neg hblank, if_neg hnewline, hcomment]
  rfl

lemma significant_word (hc : Text.isWordStart c = true) : Significant c next :=
  significant_of_class hc (by decide)

lemma fresh_word (hc : Text.isWordStart c = true) : s.fresh c next =
    (none, holdOrEmit Text.isWordChar (.word s.position)
      (fun cs => .ofWord (String.ofList cs)) s.position s [c] next) := by
  have hquote : ¬(c = '"' ∨ c = '\'') := by
    rintro (rfl | rfl) <;> exact absurd hc (by decide)
  have hdigit : ¬c.isDigit = true :=
    fun h => false_ne_true ((isWordStart_of_isDigit h).symm.trans hc)
  rw [fresh_significant (significant_word hc), if_neg hquote, if_neg hdigit, if_pos hc]
  rfl

lemma significant_digit (hc : c.isDigit = true) : Significant c next :=
  significant_of_class hc (by decide)

lemma fresh_digit (hc : c.isDigit = true) : s.fresh c next =
    (none, holdOrEmit (fun c => c.isDigit || c == '.')
      (.whole s.position) (fun cs => .number (numberOf cs)) s.position s
      [c] next) := by
  have hquote : ¬(c = '"' ∨ c = '\'') := by
    rintro (rfl | rfl) <;> exact absurd hc (by decide)
  rw [fresh_significant (significant_digit hc), if_neg hquote, if_pos hc]
  rfl

lemma reads_word (hmode : s.mode = .between) (hc : Text.isWordStart c = true)
    (hcs : ∀ x ∈ cs, Text.isWordChar x = true) (hend : rest.head?.any Text.isWordChar = false)
    (hs : s.Shows line blocks seen) :
    s.Lexes (.ofWord (String.ofList (c :: cs))) (c :: cs) rest line blocks seen := by
  refine .cons ((react_between hmode).trans (fresh_word hc)) ?_
  rw [← hs.line, ← line_after]
  refine holdOrEmit_reads [c] (fun s x read next _ hm => ?_) hcs hend ⟨rfl, hs.blocks, hs.emitted⟩
  unfold react
  rw [hm]
  rfl

lemma react_whole (hmode : s.mode = .whole start read) (hc : c.isDigit = true) : s.react c next =
      (none, holdOrEmit (fun c => c.isDigit || c == '.')
        (.whole start) (fun cs => .number (numberOf cs)) start s
        (c :: read) next) := by
  unfold react
  rw [hmode]
  dsimp only
  rw [if_pos hc]
  rfl

lemma goesOn_digit (hc : c.isDigit = true) : (c.isDigit || c == '.') = true := by
  rw [hc, Bool.true_or]

lemma reads_whole (hmode : s.mode = .between) (hcs : ∀ x ∈ c :: cs, x.isDigit = true)
    (hend : rest.head?.any (fun c => c.isDigit || c == '.') = false)
    (hs : s.Shows line blocks seen) :
    s.Lexes (.number (numberOf (c :: cs))) (c :: cs) rest line blocks seen := by
  obtain ⟨hc, hcs⟩ := forall_mem_cons.1 hcs
  refine .cons ((react_between hmode).trans (fresh_digit hc)) ?_
  rw [← hs.line, ← line_after]
  exact holdOrEmit_reads [c] (fun s x read next hx hm => react_whole hm (hcs x hx))
    (fun x hx => goesOn_digit (hcs x hx)) hend ⟨rfl, hs.blocks, hs.emitted⟩

lemma reads_digits (hmode : s.mode = .between) (hcs : ∀ x ∈ c :: cs, x.isDigit = true)
    (hpoint : rest.head? = some '.') (hs : s.Shows line blocks seen) :
    s.Reads (c :: cs) rest (.whole s.position (cs.reverse ++ [c]))
    (line + (c :: cs).count '\n') blocks seen := by
  obtain ⟨hc, hcs⟩ := forall_mem_cons.1 hcs
  refine .cons ((react_between hmode).trans (fresh_digit hc)) ?_
  rw [← hs.line, ← line_after]
  exact holdOrEmit_holds [c] (fun s x read next hx hm => react_whole hm (hcs x hx))
    (fun x hx => goesOn_digit (hcs x hx)) (by rw [hpoint]; rfl) ⟨rfl, hs.blocks, hs.emitted⟩

/-- A point before digits goes on with a number. -/
lemma reads_point (hmode : s.mode = .whole start read)
    (hcs : ∀ x ∈ c :: cs, x.isDigit = true) (hend : rest.head?.any Char.isDigit = false)
    (hs : s.Shows line blocks seen) :
    s.Reads ('.' :: c :: cs) rest .between (line + ('.' :: c :: cs).count '\n') blocks
      ((.number (numberOf (read.reverse ++ '.' :: c :: cs)),
      String.ofList (read.reverse ++ '.' :: c :: cs), start.line) :: seen) := by
  have hnext : (c :: cs ++ rest).head?.any Char.isDigit = true := hcs c mem_cons_self
  have hreact : s.react '.' (c :: cs ++ rest).head? =
      (none, holdOrEmit Char.isDigit (.fraction start)
        (fun cs => .number (numberOf cs)) start s ('.' :: read) (c :: cs ++ rest).head?) := by
    unfold react holdOrEmit
    rw [hmode, if_pos hnext]
    dsimp only
    rw [if_neg (by decide), if_pos hnext]
  refine .cons hreact ?_
  -- from the point on only digits go on with the number, so this is a loop of its own
  have hread : read.reverse ++ '.' :: c :: cs = ('.' :: read).reverse ++ c :: cs := by
    rw [reverse_cons, append_assoc]
    rfl
  rw [hread, ← hs.line, ← line_after]
  refine holdOrEmit_reads ('.' :: read) (fun s x read next _ hm => ?_) hcs hend
    ⟨rfl, hs.blocks, hs.emitted⟩
  unfold react
  rw [hm]
  rfl

/-- A number with a fraction is read. -/
lemma reads_fraction {d : Char} {ds : List Char} (hmode : s.mode = .between)
    (hcs : ∀ x ∈ c :: cs, x.isDigit = true) (hds : ∀ x ∈ d :: ds, x.isDigit = true)
    (hend : rest.head?.any (fun c => c.isDigit || c == '.') = false)
    (hs : s.Shows line blocks seen) :
    s.Lexes (.number (numberOf (c :: cs ++ '.' :: d :: ds)))
    (c :: cs ++ '.' :: d :: ds) rest line blocks seen := by
  have hdigits : rest.head?.any Char.isDigit = false := by
    cases h : rest.head? with
    | none => rfl
    | some x =>
      rw [h] at hend
      exact (or_eq_false_iff.1 hend).1
  refine .trans (reads_digits hmode hcs rfl hs) fun s' hmode' hs' => ?_
  have hread : (cs.reverse ++ [c]).reverse = c :: cs := by simp
  have hpoint := reads_point hmode' hds hdigits hs'
  rw [hread, hs.line] at hpoint
  rw [count_append, ← Nat.add_assoc]
  exact hpoint

/-- A string is read up to its quote. -/
lemma reads_quoted {quote : Char} (hmode : s.mode = .quoted start quote read)
    (hcs : Quoted quote cs) (hs : s.Shows line blocks seen) :
    s.Reads (cs ++ [quote]) rest .between (line + (cs ++ [quote]).count '\n') blocks
      ((.string (String.ofList (read.reverse ++ cs)),
      String.ofList (quote :: (read.reverse ++ cs ++ [quote])), start.line) :: seen) := by
  induction hcs generalizing s read line with
  | nil =>
    have hreact : s.react quote rest.head? =
        (none, { s with mode := .between }.emitString start quote read) := by
      unfold react
      rw [hmode]
      dsimp only
      rw [if_pos rfl]
    refine .cons hreact (.nil rfl ⟨?_, hs.blocks, ?_⟩)
    · have hline : (s.position.after quote).line + [].count '\n' =
        s.position.line + [quote].count '\n' := line_after
      rw [← hs.line]
      exact hline
    · rw [append_nil]
      exact congrArg (List.cons _) hs.emitted
  | @plain c cs hquote hslash _ ih =>
    have hreact : s.react c (cs ++ [quote] ++ rest).head? =
        (none, { s with mode := .quoted start quote (c :: read) }) := by
      unfold react
      rw [hmode]
      dsimp only
      rw [if_neg hquote, if_neg hslash]
    refine .cons hreact ?_
    rw [append_cons read.reverse, ← reverse_cons, ← hs.line, cons_append, ← line_after]
    exact ih rfl ⟨rfl, hs.blocks, hs.emitted⟩
  | @escaped c cs hquote _ ih =>
    have hslash : s.react '\\' (c :: (cs ++ [quote] ++ rest)).head? =
        (none, { s with mode := .escaped start quote ('\\' :: read) }) := by
      unfold react
      rw [hmode]
      dsimp only
      rw [if_neg hquote, if_pos rfl]
    have hread : read.reverse ++ '\\' :: c :: cs = (c :: '\\' :: read).reverse ++ cs := by simp
    refine .cons hslash (.cons rfl ?_)
    rw [hread, ← hs.line, cons_append, ← line_after, cons_append, ← line_after]
    exact ih rfl ⟨rfl, hs.blocks, hs.emitted⟩

/-- A string is read with both quotes. -/
lemma reads_string {quote : Char} (hmode : s.mode = .between) (hquote : quote = '"' ∨ quote = '\'')
    (hcs : Quoted quote cs) (hs : s.Shows line blocks seen) :
    s.Lexes (.string (String.ofList cs)) (quote :: (cs ++ [quote])) rest line blocks seen := by
  have hsig : Significant quote (cs ++ [quote] ++ rest).head? := by
    rcases hquote with rfl | rfl <;> exact ⟨by decide, by decide, by decide, by decide, rfl⟩
  have hfresh := fresh_significant (s := s) hsig
  rw [if_pos hquote] at hfresh
  refine .cons ((react_between hmode).trans hfresh) ?_
  rw [← hs.line, ← line_after]
  change Reads _ _ _ _ _ _ ((.string (String.ofList (List.reverse [] ++ cs)),
    String.ofList (quote :: (List.reverse [] ++ cs ++ [quote])), s.position.line) :: seen)
  exact reads_quoted rfl hcs ⟨rfl, hs.blocks, hs.emitted⟩

/-- A sign is emitted at once. -/
lemma fresh_symbol {sign : Symbol} (hc : symbol? c = some sign)
    (hend : EndsBefore (.symbol sign) next) :
    Significant c next ∧
      s.fresh c next =
        (none, { s with mode := .between }.emit (.symbol sign) c.toString s.position) := by
  obtain ⟨hequal, hslash⟩ := hend
  -- of the symbols with one character, two begin a longer one before `=`, and the slash begins a
  -- comment before another
  have hpair : (if next = some '=' then pairSymbol? c else none) = none := by
    split
    next hnext =>
      unfold symbol? at hc
      split at hc <;> cases hc
      case h_5 | h_6 => exact absurd hnext (hequal (by simp))
      all_goals rfl
    · rfl
  have hsig : Significant c next := by
    unfold symbol? at hc
    split at hc <;> cases hc
    case h_4 =>
      refine ⟨by decide, by decide, by decide, by decide, ?_⟩
      simpa [beginsComment] using hslash rfl
    all_goals exact ⟨by decide, by decide, by decide, by decide, rfl⟩
  have hclass : ¬(c = '"' ∨ c = '\'') ∧ ¬c.isDigit = true ∧ ¬Text.isWordStart c = true := by
    unfold symbol? at hc
    split at hc <;> cases hc
    all_goals decide
  refine ⟨hsig, ?_⟩
  rw [fresh_significant hsig, if_neg hclass.1, if_neg hclass.2.1, if_neg hclass.2.2, hpair, hc]

/-- A sign of two characters begins. -/
lemma fresh_pair {sign : Symbol} (hc : pairSymbol? c = some sign) : Significant c (some '=') ∧
    s.fresh c (some '=') = (none, { s with mode := .pair s.position c sign }) := by
  have hsig : Significant c (some '=') := by
    unfold pairSymbol? at hc
    split at hc <;> cases hc
    all_goals exact ⟨by decide, by decide, by decide, by decide, rfl⟩
  have hclass : ¬(c = '"' ∨ c = '\'') ∧ ¬c.isDigit = true ∧ ¬Text.isWordStart c = true := by
    unfold pairSymbol? at hc
    split at hc <;> cases hc
    all_goals decide
  refine ⟨hsig, ?_⟩
  rw [fresh_significant hsig, if_neg hclass.1, if_neg hclass.2.1, if_neg hclass.2.2, if_pos rfl, hc]

lemma reads_symbol {sign : Symbol} (hmode : s.mode = .between) (hc : symbol? c = some sign)
    (hend : EndsBefore (.symbol sign) rest.head?) (hs : s.Shows line blocks seen) :
    s.Lexes (.symbol sign) [c] rest line blocks seen := by
  have hline : (s.position.after c).line + [].count '\n' = s.position.line + [c].count '\n' :=
    line_after
  refine .cons ((react_between hmode).trans (fresh_symbol hc hend).2) (.nil rfl ?_)
  rw [← hs.line]
  exact ⟨hline, hs.blocks, congrArg (List.cons _) hs.emitted⟩

lemma reads_pair {sign : Symbol} (hmode : s.mode = .between) (hc : pairSymbol? c = some sign)
    (hs : s.Shows line blocks seen) :
    s.Lexes (.symbol sign) [c, '='] rest line blocks seen := by
  have hline : ((s.position.after c).after '=').line +
      [].count '\n' = s.position.line + [c, '='].count '\n' :=
    line_after.trans line_after
  refine .cons ((react_between hmode).trans (fresh_pair hc).2) (.cons rfl (.nil rfl ?_))
  rw [← hs.line]
  exact ⟨hline, hs.blocks, congrArg (List.cons _) hs.emitted⟩

/-- Every text that spells a token is read as it. -/
lemma reads_spelled (h : Spells kind text) (hend : EndsBefore kind rest.head?)
    (hmode : s.mode = .between) (hs : s.Shows line blocks seen) :
    s.Lexes kind text rest line blocks seen := by
  cases h with
  | word hc hcs => exact reads_word hmode hc hcs (endsBefore_word hend) hs
  | whole hcs => exact reads_whole hmode hcs hend hs
  | fraction hcs hds => exact reads_fraction hmode hcs hds hend hs
  | string hquote hcs => exact reads_string hmode hquote hcs hs
  | symbol hc => exact reads_symbol hmode hc hend hs
  | pair hc => exact reads_pair hmode hc hs

lemma significant_spelled (h : Spells kind text) (hend : EndsBefore kind rest.head?) :
    ∃ c cs, text = c :: cs ∧ Significant c (cs ++ rest).head? := by
  cases h with
  | word hc => exact ⟨_, _, rfl, significant_word hc⟩
  | whole hcs | fraction hcs => exact ⟨_, _, rfl, significant_digit (hcs _ mem_cons_self)⟩
  | string hquote =>
    refine ⟨_, _, rfl, ?_⟩
    rcases hquote with rfl | rfl <;> exact ⟨by decide, by decide, by decide, by decide, rfl⟩
  | symbol hc => exact ⟨_, _, rfl, (fresh_symbol (s := .start []) hc hend).1⟩
  | pair hc => exact ⟨_, _, rfl, (fresh_pair (s := .start []) hc).1⟩

end Lexemes

end Scanner

end Colloquy
