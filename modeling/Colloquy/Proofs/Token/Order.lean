import Colloquy.Proofs.Decimal.Sign
import Colloquy.Proofs.Token.Fidelity
import Colloquy.Proofs.Token.Penned
import Mathlib.Data.List.Chain

/-!
# The order of the tokens of a text

The lines of the tokens do not decrease, and increase over the end of a line; a block begins with a
token of a line; and a number is at most zero or above it. `Orderly` is what the grammar relies on.
-/

namespace Colloquy

open Scanner List

/-- Tokens as they stand in a text. -/
structure Orderly (row : List Token) : Prop where
  lines : row.Pairwise fun t u => t.line ≤ u.line ∧ (t.kind = .newline → t.line < u.line)
  blocks : row.IsChain fun t u => t.kind = .indent → u.kind.isPlain = true
  signs : ∀ t ∈ row, ∀ x, t.kind = .number x → x ≤ 0 ∨ 0 < x

lemma Orderly.suffix {front back : List Token} (h : Orderly (front ++ back)) : Orderly back where
  lines := (pairwise_append.mp h.lines).2.1
  blocks := h.blocks.right_of_append
  signs t ht := h.signs t (mem_append_right _ ht)

section Lines

variable {front rest : List Char} {tokens : List Token}

/-- Tokens stand no line before the front. -/
lemma Woven.line_ge (h : Woven front rest tokens) :
    ∀ t ∈ tokens, 1 + front.count '\n' ≤ t.line := by
  induction h with
  | nil => exact nofun
  | blank _ _ ih | comment _ _ _ _ ih =>
    intro t ht
    have := ih t ht
    rw [count_append] at this
    omega
  | token _ _ _ ih =>
    refine forall_mem_cons.mpr ⟨Nat.le_refl _, fun t ht => ?_⟩
    have := ih t ht
    rw [count_append] at this
    omega
  | mark _ _ ih => exact forall_mem_cons.mpr ⟨Nat.le_refl _, ih⟩

/-- Lines do not decrease, and increase over the end of one. -/
lemma Woven.lines (h : Woven front rest tokens)
    (hnewline : ∀ t ∈ tokens, t.kind = .newline → t.text = "\n") :
    tokens.Pairwise fun t u => t.line ≤ u.line ∧ (t.kind = .newline → t.line < u.line) := by
  induction h with
  | nil => exact .nil
  | blank _ _ ih | comment _ _ _ _ ih => exact ih hnewline
  | @token front rest tokens text kind _ _ h ih =>
    obtain ⟨htext, hnewline⟩ := forall_mem_cons.mp hnewline
    refine .cons (fun u hu => ?_) (ih hnewline)
    have hline : 1 + (front ++ text).count '\n' ≤ u.line := h.line_ge u hu
    rw [count_append] at hline
    change 1 + front.count '\n' ≤ u.line ∧ (kind = .newline → 1 + front.count '\n' < u.line)
    refine ⟨by omega, fun hk => ?_⟩
    have hbreak : text = ['\n'] := String.ofList_inj.mp (htext hk)
    rw [hbreak, count_singleton_self] at hline
    omega
  | @mark front rest tokens kind hmark h ih =>
    refine .cons (fun u hu => ⟨h.line_ge u hu, fun hk => ?_⟩) (ih (forall_mem_cons.mp hnewline).2)
    obtain rfl : kind = .newline := hk
    cases hmark

end Lines

section Blocks

variable {ts : List Token}

/-- No row ends with the beginning of a block. -/
lemma Lined.head_ne_indent (h : Lined ts) : ∀ t ∈ ts.head?, t.kind ≠ .indent := by
  have hplain {t : Token} (ht : t.kind.isPlain = true) : t.kind ≠ .indent := by
    intro hk
    rw [hk] at ht
    cases ht
  intro t ht
  cases h with
  | nil => cases ht
  | newline hk _ =>
    cases ht
    rw [hk]
    rintro ⟨⟩
  | plain hk _ =>
    cases ht
    exact hplain hk
  | margin hx _ _ _ =>
    cases ht
    exact hplain hx

/-- A token inside a line comes after the beginning of a block. -/
lemma Lined.blocks (h : Lined ts) :
    ts.IsChain fun u t => t.kind = .indent → u.kind.isPlain = true := by
  induction h with
  | nil => exact .nil
  | newline _ hts ih => exact ih.cons fun t ht hk => (hts.head_ne_indent t ht hk).elim
  | plain hx _ ih => exact ih.cons fun _ _ _ => hx
  | @margin x run t ts hx hrun ht hts ih =>
    have hchain : (run ++ t :: ts).IsChain fun u t => t.kind = .indent → u.kind.isPlain = true := by
      rcases hrun with ⟨i, _, rfl⟩ | hall
      · exact ih.cons fun u hu hk => (hts.head_ne_indent u hu hk).elim
      · clear hx
        induction run with
        | nil => exact ih
        | cons y run ihrun =>
          obtain ⟨_, hall⟩ := forall_mem_cons.mp hall
          refine (ihrun hall).cons fun u hu hk => ?_
          cases run with
          | nil =>
            cases hu
            cases hk.symm.trans ht
          | cons z run =>
            cases hu
            cases hk.symm.trans (hall _ mem_cons_self)
    exact hchain.cons fun _ _ _ => hx

end Blocks

section Texts

variable {source : String} {tokens : List Token} {kind : TokenKind} {text : List Char} {x : Float}

lemma ofWord_ne_number {word : String} : TokenKind.ofWord word ≠ .number x := by
  unfold TokenKind.ofWord
  split
  · rintro ⟨⟩
  split
  · rintro ⟨⟩
  split <;> rintro ⟨⟩

lemma Spells.sign (h : Spells kind text) (hk : kind = .number x) : x ≤ 0 ∨ 0 < x := by
  cases h with
  | word => exact absurd hk ofWord_ne_number
  | whole | fraction =>
    cases hk
    exact numberOf_le_or_lt
  | string | symbol | pair => cases hk

/-- The tokens of a text that can be read stand in order. -/
lemma tokenize_orderly (h : tokenize source = .ok tokens) : Orderly tokens := by
  have hwoven := tokenize_woven h
  obtain ⟨s, hread, hfinish⟩ := tokenize_iff.mp h
  obtain ⟨hstring, rfl⟩ := finish_iff.mp hfinish
  have hlined := emitted_lined hread hstring
  have hpenned := emitted_penned hread
  have hclosing : ∀ t ∈ s.closing, t.kind = .dedent ∨ t.kind = .eof := by
    intro t ht
    rcases mem_append.mp ht with ht | ht
    · rw [(mem_replicate.mp ht).2]
      exact .inl rfl
    · rw [mem_singleton.mp ht]
      exact .inr rfl
  refine ⟨hwoven.lines fun t ht hk => ?_, ?_, fun t ht x hk => ?_⟩
  · rcases mem_append.mp ht with ht | ht
    · exact (hpenned t (mem_reverse.mp ht)).newline hk
    · rcases hclosing t ht with hk' | hk' <;> cases hk.symm.trans hk'
  · have hends : s.closing.IsChain fun t u => t.kind = .indent → u.kind.isPlain = true := by
      apply List.Pairwise.isChain
      refine pairwise_of_forall_mem_list fun t ht u _ hk => ?_
      rcases hclosing t ht with hk' | hk' <;> cases hk.symm.trans hk'
    refine (isChain_reverse.mpr hlined.blocks).append hends fun t ht u _ hk => ?_
    rw [List.getLast?_reverse] at ht
    exact (hlined.head_ne_indent t ht hk).elim
  · rcases mem_append.mp ht with ht | ht
    · have hplain : t.kind.isPlain = true := by rw [hk]; rfl
      exact ((hpenned t (mem_reverse.mp ht)).plain hplain).sign hk
    · rcases hclosing t ht with hk' | hk' <;> cases hk.symm.trans hk'

end Texts

end Colloquy
