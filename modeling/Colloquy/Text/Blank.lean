/-!
# Blank characters

White space around typed text carries no meaning. A blank is a character with the Unicode property
White_Space.
-/

namespace Colloquy.Text

/-- A character with the property White_Space. -/
def isBlank (c : Char) : Bool :=
  let code := c.toNat
  (0x9 ≤ code && code ≤ 0xd) || code == 0x20 || code == 0x85 || code == 0xa0 || code == 0x1680 ||
    (0x2000 ≤ code && code ≤ 0x200a) || code == 0x2028 || code == 0x2029 || code == 0x202f ||
    code == 0x205f || code == 0x3000

/-- The characters between the leading and the trailing blanks. -/
def trim (text : List Char) : List Char :=
  ((text.dropWhile isBlank).reverse.dropWhile isBlank).reverse

/-- The maximal runs of characters that are not blank, in order. -/
def words (text : List Char) : List (List Char) :=
  let (last, done) := text.foldl
    (fun (word, done) c =>
      if isBlank c then ([], if word.isEmpty then done else word.reverse :: done)
      else (c :: word, done))
    (([], []) : List Char × List (List Char))
  (if last.isEmpty then done else last.reverse :: done).reverse

/-- Every blank that ASCII knows is a blank here. -/
theorem isBlank_of_isWhitespace {c : Char} (h : c.isWhitespace = true) : isBlank c = true := by
  simp only [Char.isWhitespace, Bool.or_eq_true, decide_eq_true_eq] at h
  rcases h with ((rfl | rfl) | rfl) | rfl <;> decide

end Colloquy.Text
