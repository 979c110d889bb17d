import Colloquy.Proofs.Token.Page

/-!
# How tokens are written

Each kind of token has one text, apart from numbers, for which the digits are given. It is spelled
by that text, and tokens written close to each other stay apart.
-/

namespace Colloquy

open Scanner List String Bool

/-- Whether a text is digits, and perhaps a point with more of them. -/
def Text.isPlainDigits (text : List Char) : Bool :=
  !(text.takeWhile Char.isDigit).isEmpty &&
    match text.dropWhile Char.isDigit with
    | [] => true
    | '.' :: digits => !digits.isEmpty && digits.all Char.isDigit
    | _ => false

namespace TokenKind

/-- The text of a kind of token; numbers have the given digits. -/
def written (digits : Float → String) : TokenKind → List Char
  | .number value => (digits value).toList
  | kind => kind.display.toList

/-- A kind whose text can be read back: names are not reserved, numbers have plain digits, and
strings neither quotes nor backslashes nor line breaks. -/
def Writable (digits : Float → String) : TokenKind → Prop
  | .identifier name => Text.isName name = true
  | .number value =>
    Text.isPlainDigits (digits value).toList = true ∧ Scanner.numberOf (digits value).toList = value
  | .string text => ∀ c ∈ text.toList, c ≠ '"' ∧ c ≠ '\\' ∧ c ≠ '\n'
  | .boolean _ | .keyword _ | .symbol _ => True
  | .newline | .indent | .dedent | .eof => False

instance {digits : Float → String} : ∀ kind : TokenKind, Decidable (kind.Writable digits)
  | .identifier name => inferInstanceAs (Decidable (Text.isName name = true))
  | .number _ => inferInstanceAs (Decidable (_ ∧ _))
  | .string text => List.decidableBAll _ text.toList
  | .boolean _ | .keyword _ | .symbol _ => isTrue trivial
  | .newline | .indent | .dedent | .eof => isFalse not_false

/-- The tokens to which the next one is written close. -/
def opensTight : TokenKind → Bool
  | .symbol .leftParen | .symbol .leftBracket | .symbol .leftBrace | .symbol .dot => true
  | _ => false

/-- The tokens that are written close to the one before them. -/
def closesTight : TokenKind → Bool
  | .symbol .rightParen | .symbol .rightBracket | .symbol
    .rightBrace | .symbol .comma | .symbol .colon => true
  | _ => false

/-- The tokens that are written close to a name before them. -/
def attaches : TokenKind → TokenKind → Bool
  | .identifier _, .symbol .leftParen | .identifier _,
  .symbol .leftBracket | .identifier _, .symbol .dot => true
  | _, _ => false

/-- Whether two tokens are written close to each other. -/
def hugs (a b : TokenKind) : Bool := a.opensTight || b.closesTight || attaches a b

end TokenKind

section Spelling

variable {digits : Float → String} {kind : TokenKind} {text : String}

/-- A word spells what it stands for. -/
lemma spells_word {word : String} (h : TokenKind.ofWord word = kind)
    (hstart : word.toList.head?.any Text.isWordStart = true)
    (hchars : word.toList.all Text.isWordChar = true) :
    Spells kind word.toList := by
  cases hword : word.toList with
  | nil =>
    rw [hword] at hstart
    cases hstart
  | cons c cs =>
    rw [hword] at hstart hchars
    have hspells : Spells (.ofWord (String.ofList (c :: cs))) (c :: cs) :=
      .word hstart fun x hx => all_eq_true.1 hchars x (mem_cons_of_mem c hx)
    rw [← hword, ofList_toList, h, hword] at hspells
    exact hspells

lemma spells_name {name : String} (h : Text.isName name = true) :
    Spells (.identifier name) name.toList := by
  unfold Text.isName at h
  rw [and_eq_true, and_eq_true, decide_eq_true_eq] at h
  exact spells_word h.1.1 h.1.2 h.2

lemma Keyword.mem_all (word : Keyword) : word ∈ Keyword.all := by cases word <;> decide

lemma Keyword.reserved : ∀ word ∈ Keyword.all, TokenKind.ofWord word.spelling = .keyword word ∧
    word.spelling.toList.head?.any Text.isWordStart = true ∧
      word.spelling.toList.all Text.isWordChar = true := by decide +kernel

lemma spells_keyword {word : Keyword} : Spells (.keyword word) word.spelling.toList := by
  obtain ⟨hword, hstart, hchars⟩ := Keyword.reserved word word.mem_all
  exact spells_word hword hstart hchars

lemma spells_boolean {flag : Bool} :
    Spells (.boolean flag) (TokenKind.booleanWord flag).toList := by
  cases flag <;> exact spells_word (by decide +kernel) (by decide +kernel) (by decide +kernel)

lemma spells_symbol {sign : Symbol} : Spells (.symbol sign) sign.spelling.toList := by
  cases sign with
  | equalEqual | notEqual | greaterEqual | lessEqual => exact .pair rfl
  | _ => exact .symbol rfl

/-- Plain digits spell their number. -/
lemma spells_plainDigits {text : List Char} (h : Text.isPlainDigits text = true) :
    Spells (.number (numberOf text)) text := by
  unfold Text.isPlainDigits at h
  rw [and_eq_true, not_eq_true'] at h
  have hdigits : ∀ x ∈ text.takeWhile Char.isDigit, x.isDigit = true :=
    fun x hx => mem_takeWhile_imp hx
  have htext := takeWhile_append_dropWhile (p := Char.isDigit) (l := text)
  obtain ⟨c, cs, hwhole⟩ := exists_cons_of_ne_nil (isEmpty_eq_false_iff.1 h.1)
  rw [hwhole] at hdigits htext
  obtain ⟨_, hrest⟩ := h
  split at hrest
  · rename_i hnil
    rw [hnil, append_nil] at htext
    rw [← htext]
    exact .whole hdigits
  · rename_i digits hpoint
    rw [and_eq_true, not_eq_true', all_eq_true] at hrest
    obtain ⟨d, ds, rfl⟩ := exists_cons_of_ne_nil (isEmpty_eq_false_iff.1 hrest.1)
    rw [hpoint] at htext
    rw [← htext]
    exact .fraction hdigits hrest.2
  · cases hrest

lemma quoted_of_plain {cs : List Char} (h : ∀ c ∈ cs, c ≠ '"' ∧ c ≠ '\\' ∧ c ≠ '\n') :
    Quoted '"' cs := by
  induction cs with
  | nil => exact .nil
  | cons c cs ih =>
    obtain ⟨⟨hquote, hslash, _⟩, hcs⟩ := forall_mem_cons.1 h
    exact .plain hquote hslash (ih hcs)

lemma spells_string (h : ∀ c ∈ text.toList, c ≠ '"' ∧ c ≠ '\\' ∧ c ≠ '\n') :
    Spells (.string text) ('"' :: (text.toList ++ ['"'])) := by
  have hspells := Spells.string (.inl rfl) (quoted_of_plain h)
  rw [ofList_toList] at hspells
  exact hspells

lemma written_string : (TokenKind.string text).written digits = '"' :: (text.toList ++ ['"']) := by
  simp [TokenKind.written, TokenKind.display, toList_append]

/-- What can be written is spelled by its text. -/
lemma TokenKind.Writable.spells (h : kind.Writable digits) : Spells kind (kind.written digits) := by
  cases kind with
  | identifier name => exact spells_name h
  | number value =>
    have hspells := spells_plainDigits h.1
    rw [h.2] at hspells
    exact hspells
  | string text =>
    rw [written_string]
    exact spells_string h
  | boolean flag => exact spells_boolean
  | keyword word => exact spells_keyword
  | symbol sign => exact spells_symbol
  | newline | indent | dedent | eof => exact h.elim

end Spelling

section Lines

variable {digits : Float → String} {kind : TokenKind}

lemma ne_newline_of_isDigit {c : Char} (h : c.isDigit = true) : c ≠ '\n' := by
  rintro rfl
  cases h

lemma ne_newline_of_isWordChar {c : Char} (h : Text.isWordChar c = true) : c ≠ '\n' := by
  rintro rfl
  exact absurd h (by decide)

/-- Only strings have line breaks. -/
lemma Spells.newline_notMem {text : List Char} (h : Spells kind text)
    (hkind : ∀ word, kind ≠ .string word) :
    '\n' ∉ text := by
  intro hmem
  cases h with
  | @word c cs hc hcs =>
    rcases mem_cons.1 hmem with hc' | hmem
    · exact ne_newline_of_isWordChar (Text.isWordChar_of_isWordStart hc) hc'.symm
    · exact ne_newline_of_isWordChar (hcs _ hmem) rfl
  | whole hcs => exact ne_newline_of_isDigit (hcs _ hmem) rfl
  | fraction hcs hds =>
    rcases mem_append.1 hmem with hmem | hmem
    · exact ne_newline_of_isDigit (hcs _ hmem) rfl
    rcases mem_cons.1 hmem with hpoint | hmem
    · exact absurd hpoint (by decide)
    · exact ne_newline_of_isDigit (hds _ hmem) rfl
  | string => exact hkind _ rfl
  | @symbol c sign hc =>
    obtain rfl := mem_singleton.1 hmem
    cases hc
  | @pair c sign hc =>
    rcases mem_cons.1 hmem with rfl | hmem
    · cases hc
    · exact absurd (mem_singleton.1 hmem) (by decide)

/-- What can be written has no line break. -/
lemma TokenKind.Writable.newline_notMem (h : kind.Writable digits) :
    '\n' ∉ kind.written digits := by
  cases kind with
  | string text =>
    rw [written_string]
    intro hmem
    rcases mem_cons.1 hmem with hquote | hmem
    · exact absurd hquote (by decide)
    rcases mem_append.1 hmem with hmem | hmem
    · exact (h _ hmem).2.2 rfl
    · exact absurd (mem_singleton.1 hmem) (by decide)
  | _ => exact h.spells.newline_notMem (by rintro _ ⟨⟩)

end Lines

section Closeness

variable {a b : TokenKind} {next : Option Char} {text : List Char} {sign : Symbol}

lemma ofWord_ne_symbol {word : String} : TokenKind.ofWord word ≠ .symbol sign := by
  unfold TokenKind.ofWord
  split
  · rintro ⟨⟩
  split
  · rintro ⟨⟩
  split <;> rintro ⟨⟩

/-- A symbol begins with its first character. -/
lemma Spells.head_symbol (h : Spells a text) (hkind : a = .symbol sign) :
    text.head? = sign.spelling.toList.head? := by
  cases h with
  | word => exact absurd hkind ofWord_ne_symbol
  | whole | fraction | string => cases hkind
  | symbol hc =>
    cases hkind
    unfold Scanner.symbol? at hc
    split at hc <;> cases hc <;> rfl
  | pair hc =>
    cases hkind
    unfold Scanner.pairSymbol? at hc
    split at hc <;> cases hc <;> rfl

lemma endsBefore_of_opensTight (h : a.opensTight = true) : EndsBefore a next := by
  unfold TokenKind.opensTight at h
  split at h
  case h_5 => cases h
  all_goals exact ⟨by simp, by simp⟩

/-- Every token ends before a closing sign. -/
lemma endsBefore_of_closesTight (hb : Spells b text) (h : b.closesTight = true) :
    EndsBefore a text.head? := by
  obtain ⟨c, hc, hmem⟩ : ∃ c, text.head? = some c ∧
      c ∈ [' ', '\n', ')', ']', '\x7d', ',', ':'] := by
    unfold TokenKind.closesTight at h
    split at h
    case h_6 => cases h
    all_goals exact ⟨_, hb.head_symbol rfl, by decide⟩
  rw [hc]
  exact endsBefore_separator hmem

lemma endsBefore_of_attaches (hb : Spells b text) (h : a.attaches b = true) :
    EndsBefore a text.head? := by
  unfold TokenKind.attaches at h
  split at h
  case h_4 => cases h
  all_goals
    rw [hb.head_symbol rfl]
    rfl

lemma separates_hugs : Separates TokenKind.hugs := by
  intro x y _ hy h
  unfold TokenKind.hugs at h
  rw [or_eq_true, or_eq_true] at h
  obtain (h | h) | h := h
  · exact endsBefore_of_opensTight h
  · exact endsBefore_of_closesTight hy h
  · exact endsBefore_of_attaches hy h

end Closeness

end Colloquy
