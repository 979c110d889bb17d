import Colloquy.Proofs.Token.Continuation
import Colloquy.Proofs.Token.Lexeme

/-!
# Pages

A page has lines of tokens, each behind four spaces for every level, and is split into the tokens
that `laid` gives: a line deeper than the one before opens a block, and one less deep closes some.
-/

namespace Colloquy

open List

/-- A token and one way to write it. -/
structure Lexeme where
  kind : TokenKind
  text : List Char

/-- A line of a page. -/
structure Line where
  level : Nat
  lexemes : List Lexeme

/-- What comes after a token: the others of its line, each behind a space unless it hugs the one
before. -/
def following (hugs : TokenKind → TokenKind → Bool) : TokenKind → List Lexeme → List Char
  | _, [] => []
  | kind, x :: xs =>
    (if hugs kind x.kind then [] else [' ']) ++ (x.text ++ following hugs x.kind xs)

/-- The tokens of a line as they are written. -/
def spaced (hugs : TokenKind → TokenKind → Bool) : List Lexeme → List Char
  | [] => []
  | x :: xs => x.text ++ following hugs x.kind xs

/-- The text of a line. -/
def Line.text (hugs : TokenKind → TokenKind → Bool) (l : Line) : List Char :=
  List.replicate (4 * l.level) ' ' ++ (spaced hugs l.lexemes ++ ['\n'])

/-- The text of a page. -/
def pageText (hugs : TokenKind → TokenKind → Bool) (page : List Line) : List Char :=
  page.flatMap (Line.text hugs)

/-- How many line breaks the tokens of a line hold. -/
def breaks : List Lexeme → Nat
  | [] => 0
  | x :: xs => x.text.count '\n' + breaks xs

/-- The tokens of a line that begins with this number. -/
def sights (n : Nat) : List Lexeme → List Sight
  | [] => []
  | x :: xs => (x.kind, String.ofList x.text, n) :: sights (n + x.text.count '\n') xs

/-- The layout in front of a line, after a line that is so deep. -/
def margin (depth level n : Nat) : List Sight :=
  if depth < level then [(.indent, "", n)] else List.replicate (depth - level) (.dedent, "", n)

/-- The tokens of a page from this line on, after one so deep. -/
def laid (depth n : Nat) : List Line → List Sight
  | [] => List.replicate depth (.dedent, "", n) ++ [(.eof, "", n)]
  | l :: page =>
    margin depth l.level n ++
      (sights n l.lexemes ++ (.newline, "\n", n + breaks l.lexemes) ::
        laid l.level (n + breaks l.lexemes + 1) page)

/-- A line that a scanner can read. -/
structure Line.Readable (l : Line) : Prop where
  ne_nil : l.lexemes ≠ []
  spells : ∀ x ∈ l.lexemes, Spells x.kind x.text

/-- No line is deeper by more than one than the line before it. -/
def Stepped : Nat → List Line → Prop
  | _, [] => True
  | depth, l :: page => l.level ≤ depth + 1 ∧ Stepped l.level page

/-- Two tokens that hug each other are not read as one. -/
def Separates (hugs : TokenKind → TokenKind → Bool) : Prop :=
  ∀ x y : Lexeme, Spells x.kind x.text → Spells y.kind y.text → hugs x.kind y.kind = true →
    EndsBefore x.kind y.text.head?

namespace Scanner

section Margins

variable {s : Scanner} {depth level line width : Nat} {blocks : List Nat}
  {seen : List Sight} {rest : List Char}

/-- The widths of so many blocks, each four spaces wider than the next. -/
def widths : Nat → List Nat
  | 0 => []
  | depth + 1 => 4 * (depth + 1) :: widths depth

lemma length_widths : (widths depth).length = depth := by
  induction depth with
  | zero => rfl
  | succ depth ih => rw [widths, length_cons, ih]

lemma headD_widths : (widths depth).headD 0 = 4 * depth := by cases depth <;> rfl

/-- A line at a level keeps the blocks up to it. -/
lemma widths_split (h : level ≤ depth) : (widths depth).dropWhile (4 * level < ·) = widths level ∧
    ((widths depth).takeWhile (4 * level < ·)).length = depth - level := by
  induction depth with
  | zero =>
    obtain rfl := Nat.le_zero.1 h
    exact ⟨rfl, rfl⟩
  | succ depth ih =>
    rcases Nat.lt_or_eq_of_le h with hlt | rfl
    · obtain ⟨hdrop, htake⟩ := ih (Nat.le_of_lt_succ hlt)
      have hwide : decide (4 * level < 4 * (depth + 1)) = true := decide_eq_true (by omega)
      rw [widths, dropWhile_cons_of_pos (p := (4 * level < ·)) hwide,
        takeWhile_cons_of_pos (p := (4 * level < ·)) hwide, length_cons, htake]
      exact ⟨hdrop, by omega⟩
    · have hwide : ¬decide (4 * (depth + 1) < 4 * (depth + 1)) = true := by simp
      rw [widths, dropWhile_cons_of_neg (p := (4 * (depth + 1) < ·)) hwide,
        takeWhile_cons_of_neg (p := (4 * (depth + 1) < ·)) hwide]
      exact ⟨rfl, (Nat.sub_self _).symm⟩

/-- A measured line shows its layout. -/
lemma Shows.measure (hs : s.Shows line (widths depth) seen) (h : level ≤ depth + 1) :
    (s.measure (4 * level)).Shows line (widths level)
    ((margin depth level line).reverse ++ seen) := by
  unfold Scanner.measure margin
  rw [hs.blocks, headD_widths]
  by_cases hlt : depth < level
  -- one block is opened at a time, which is why no line may be deeper by more than one
  · obtain rfl : level = depth + 1 := by omega
    rw [if_pos (by omega), if_pos hlt]
    refine ⟨hs.line, rfl, ?_⟩
    rw [reverse_singleton, singleton_append, ← hs.line]
    exact congrArg (List.cons _) hs.emitted
  · obtain ⟨hdrop, htake⟩ := widths_split (Nat.le_of_not_lt hlt)
    rw [if_neg (by omega), if_neg hlt, emitDedents_eq, htake, reverse_replicate]
    refine ⟨hs.line, hdrop, ?_⟩
    rw [map_append, map_replicate, ← hs.line]
    exact congrArg (List.append _) hs.emitted

/-- Spaces widen the margin. -/
lemma reads_spaces {n : Nat} (hmode : s.mode = .lineStart width) (hs : s.Shows line blocks seen) :
    s.Reads (List.replicate n ' ') rest (.lineStart (width + n)) line blocks seen := by
  induction n generalizing s width with
  | zero => exact .nil hmode hs
  | succ n ih =>
    have hreact : s.react ' ' (List.replicate n ' ' ++ rest).head? =
        (none, { s with mode := .lineStart (width + 1) }) := by
      unfold react
      rw [hmode]
      rfl
    rw [replicate_succ, Nat.add_comm n 1, ← Nat.add_assoc]
    exact .cons hreact (ih rfl ⟨hs.line, hs.blocks, hs.emitted⟩)

/-- The first character of a line is read with its layout. -/
lemma reads_measured {c : Char} {cs : List Char} {mode : Mode} {line' : Nat} {blocks' : List Nat}
    {seen' : List Sight} (hmode : s.mode = .lineStart width)
    (hsig : Significant c (cs ++ rest).head?)
    (h : { s.measure width with mode := .between }.Reads (c :: cs) rest mode line' blocks' seen') :
    s.Reads (c :: cs) rest mode line' blocks' seen' := by
  obtain ⟨hspace, htab, hreturn, hnewline, hcomment⟩ := hsig
  have hreact : s.react c (cs ++ rest).head? =
      { s.measure width with mode := .between }.react c (cs ++ rest).head? := by
    have hblank : ¬(c = '\n' ∨ c = '\r' ∨ beginsComment c (cs ++ rest).head? = true) := by
      rw [hcomment]
      simp [hnewline, hreturn]
    unfold react
    rw [hmode]
    dsimp only
    rw [if_neg hspace, if_neg htab, if_neg hblank]
    rfl
  obtain ⟨s', hmode', hs', hread⟩ := h
  exact ⟨s', hmode', hs', (readAll_congr hreact).trans hread⟩

end Margins

section Rows

variable {s : Scanner} {line : Nat} {blocks : List Nat} {seen : List Sight} {rest : List Char}
  {hugs : TokenKind → TokenKind → Bool} {xs : List Lexeme}

/-- Every token ends before a separator. -/
lemma endsBefore_separator {kind : TokenKind} {c : Char}
    (h : c ∈ [' ', '\n', ')', ']', '\x7d', ',', ':']) :
    EndsBefore kind (some c) := by
  have hclass : Text.isWordChar c = false ∧ c.isDigit = false ∧ c ≠ '.' ∧ c ≠ '=' ∧ c ≠ '/' := by
    simp only [mem_cons, not_mem_nil, or_false] at h
    rcases h with rfl | rfl | rfl | rfl | rfl | rfl | rfl <;> decide
  obtain ⟨hword, hdigit, hpoint, hequal, hslash⟩ := hclass
  cases kind with
  | number =>
    change (c.isDigit || c == '.') = false
    rw [hdigit, Bool.false_or, beq_eq_false_iff_ne]
    exact hpoint
  | string => trivial
  | symbol => exact ⟨fun _ h => hequal (Option.some.inj h), fun _ h => hslash (Option.some.inj h)⟩
  | _ => exact hword

lemma reads_space (hmode : s.mode = .between) (hs : s.Shows line blocks seen) :
    s.Reads [' '] rest .between line blocks seen :=
  .cons ((react_between hmode).trans rfl) (.nil rfl ⟨hs.line, hs.blocks, hs.emitted⟩)

lemma reads_newline (hmode : s.mode = .between) (hs : s.Shows line blocks seen) :
    s.Reads ['\n'] rest (.lineStart 0) (line + 1) blocks ((.newline, "\n", line) :: seen) := by
  refine .cons ((react_between hmode).trans rfl) (.nil rfl ?_)
  rw [← hs.line]
  exact ⟨rfl, hs.blocks, congrArg (List.cons _) hs.emitted⟩

/-- A token ends before what follows it. -/
lemma endsBefore_following {x : Lexeme} (rest : List Char) (hugging : Separates hugs)
    (hx : Spells x.kind x.text) (hxs : ∀ y ∈ xs, Spells y.kind y.text) :
    EndsBefore x.kind (following hugs x.kind xs ++ '\n' :: rest).head? := by
  cases xs with
  | nil => exact endsBefore_separator (by decide)
  | cons y ys =>
    have hy := hxs y mem_cons_self
    rw [following]
    split
    next h =>
      obtain ⟨c, cs, htext⟩ := exists_cons_of_ne_nil hy.ne_nil
      have hend := hugging x y hx hy h
      rw [htext] at hend ⊢
      exact hend
    · exact endsBefore_separator (by decide)

/-- A row of tokens is read. -/
lemma reads_spaced (hugging : Separates hugs) (hxs : ∀ x ∈ xs, Spells x.kind x.text)
    (hmode : s.mode = .between) (hs : s.Shows line blocks seen) :
    s.Reads (spaced hugs xs) ('\n' :: rest) .between (line + breaks xs) blocks
      ((sights line xs).reverse ++ seen) := by
  induction xs generalizing s line seen with
  | nil => exact .nil hmode hs
  | cons x xs ih =>
    obtain ⟨hx, hxs⟩ := forall_mem_cons.1 hxs
    have hend := endsBefore_following rest hugging hx hxs
    rw [spaced, breaks, ← Nat.add_assoc, sights, reverse_cons, append_assoc]
    refine .trans (reads_spelled hx hend hmode hs) fun s1 hmode1 hs1 => ?_
    cases xs with
    | nil => exact .nil hmode1 hs1
    | cons y ys =>
      rw [following]
      split
      · exact ih hxs hmode1 hs1
      · exact .trans (reads_space hmode1 hs1) fun s2 hmode2 hs2 => ih hxs hmode2 hs2

end Rows

section Pages

variable {s : Scanner} {depth line : Nat} {seen : List Sight} {rest : List Char}
  {hugs : TokenKind → TokenKind → Bool} {l : Line} {page : List Line}

lemma reads_row {blocks : List Nat} (rest : List Char) (hugging : Separates hugs) (hl : l.Readable)
    (hmode : s.mode = .between) (hs : s.Shows line blocks seen) :
    s.Reads (spaced hugs l.lexemes ++ ['\n']) rest (.lineStart 0)
    (line + breaks l.lexemes + 1) blocks
      ((.newline, "\n", line + breaks l.lexemes) :: ((sights line l.lexemes).reverse ++ seen)) :=
  .trans (reads_spaced hugging hl.spells hmode hs) fun _ hmode' hs' => reads_newline hmode' hs'

/-- A row begins with a significant character. -/
lemma significant_spaced (rest : List Char) (hugging : Separates hugs) (hl : l.Readable) :
    ∃ c cs, spaced hugs l.lexemes ++ ['\n'] = c :: cs ∧ Significant c (cs ++ rest).head? := by
  obtain ⟨x, xs, hlexemes⟩ := exists_cons_of_ne_nil hl.ne_nil
  have hspells := hl.spells
  rw [hlexemes] at hspells ⊢
  obtain ⟨hx, hspells⟩ := forall_mem_cons.1 hspells
  obtain ⟨c, cs, htext, hsig⟩ :=
    significant_spelled hx (endsBefore_following rest hugging hx hspells)
  refine ⟨c, cs ++ (following hugs x.kind xs ++ ['\n']), ?_, ?_⟩
  · rw [spaced, htext, append_assoc, cons_append]
  · rw [append_assoc, append_assoc]
    exact hsig

/-- A line is read with its layout. -/
lemma reads_line (rest : List Char) (hugging : Separates hugs) (hl : l.Readable)
    (hlevel : l.level ≤ depth + 1) (hmode : s.mode = .lineStart 0)
    (hs : s.Shows line (widths depth) seen) :
    s.Reads (l.text hugs) rest (.lineStart 0) (line + breaks l.lexemes + 1) (widths l.level)
      ((.newline, "\n", line + breaks l.lexemes) ::
        ((sights line l.lexemes).reverse ++ ((margin depth l.level line).reverse ++ seen))) := by
  refine .trans (reads_spaces hmode hs) fun s' hmode' hs' => ?_
  rw [Nat.zero_add] at hmode'
  -- the spaces count only once a token comes after them
  have hmeasured := hs'.measure hlevel
  obtain ⟨c, cs, htext, hsig⟩ := significant_spaced rest hugging hl
  have hbegun : { s'.measure (4 * l.level) with mode := .between }.Shows line (widths l.level)
      ((margin depth l.level line).reverse ++ seen) :=
    ⟨hmeasured.line, hmeasured.blocks, hmeasured.emitted⟩
  have hrow := reads_row rest hugging hl rfl hbegun
  rw [htext] at hrow ⊢
  exact reads_measured hmode' hsig hrow

/-- The lines of a page are read one after the other. -/
lemma reads_page (hugging : Separates hugs) (hpage : ∀ l ∈ page, l.Readable)
    (hstep : Stepped depth page) (hmode : s.mode = .lineStart 0)
    (hs : s.Shows line (widths depth) seen) :
    ∃ s' tokens, s.readAll (pageText hugs page) = (none, s') ∧ s'.finish.1 = .ok tokens ∧
      tokens.map Token.sight = seen.reverse ++ laid depth line page := by
  induction page generalizing s depth line seen with
  | nil =>
    refine ⟨{ s with unread := [] }, s.emitted.reverse ++ s.closing,
      rfl, finish_iff.2 ⟨?_, rfl⟩, ?_⟩
    · rw [hmode]
      rfl
    · rw [map_append, map_reverse, hs.emitted,
        closing, hs.blocks, length_widths, laid, map_append, map_replicate, ← hs.line]
      rfl
  | cons l page ih =>
    obtain ⟨hl, hpage⟩ := forall_mem_cons.1 hpage
    obtain ⟨hlevel, hstep⟩ := hstep
    obtain ⟨s1, hmode1, hs1, hread⟩ := reads_line (pageText hugs page) hugging hl hlevel hmode hs
    obtain ⟨s', tokens, hread', hfinish, htokens⟩ := ih hpage hstep hmode1 hs1
    refine ⟨s', tokens, ?_, hfinish, ?_⟩
    · rw [pageText, flatMap_cons]
      exact hread.trans hread'
    · rw [htokens, laid]
      simp

end Pages

end Scanner

open Scanner in
/-- A page is split into the tokens laid out on it. -/
lemma tokenize_page {hugs : TokenKind → TokenKind → Bool} {page : List Line}
    (hugging : Separates hugs) (hpage : ∀ l ∈ page, l.Readable) (hstep : Stepped 0 page)
    (hfirst : ∀ l ∈ page.head?, l.level = 0) :
    ∃ tokens, tokenize (String.ofList (pageText hugs page)) = .ok tokens ∧
    tokens.map Token.sight = laid 0 1 page := by
  obtain ⟨s', tokens, hread, hfinish, htokens⟩ : ∃ s' tokens,
      (start (pageText hugs page)).readAll (pageText hugs page) = (none, s') ∧
      s'.finish.1 = .ok tokens ∧ tokens.map Token.sight = laid 0 1 page := by
    cases page with
    | nil => exact ⟨_, _, rfl, rfl, rfl⟩
    | cons l page =>
      obtain ⟨hl, hpage⟩ := forall_mem_cons.1 hpage
      have hlevel : l.level = 0 := hfirst l rfl
      have htext : l.text hugs = spaced hugs l.lexemes ++ ['\n'] := by
        rw [Line.text, hlevel]
        rfl
      have hstart : (start (pageText hugs (l :: page))).Shows 1 (widths 0) [] := ⟨rfl, rfl, rfl⟩
      obtain ⟨s1, hmode1, hs1, hread⟩ := reads_row (pageText hugs page) hugging hl rfl hstart
      rw [← htext] at hread
      obtain ⟨s', tokens, hread', hfinish, htokens⟩ :=
        reads_page hugging hpage (hlevel ▸ hstep.2) hmode1 hs1
      refine ⟨s', tokens, hread.trans hread', hfinish, ?_⟩
      rw [htokens, laid, hlevel, margin]
      simp
  refine ⟨tokens, ?_, htokens⟩
  unfold tokenize
  rw [String.toList_ofList]
  exact tokenize_iff.2 ⟨s', hread, hfinish⟩

end Colloquy
