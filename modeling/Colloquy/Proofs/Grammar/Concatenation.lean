import Colloquy.Proofs.Token.Continuation
import Colloquy.Proofs.Grammar.Program

/-!
# Programs one after the other

A text with complete lines and one that begins at the margin make the statements of the first and
then those of the second. Their rows of tokens have a seam where the first text ends.
-/

namespace Colloquy

open Production Scanner List

section Rows

variable {m : Displacement} {rest : Option (List Token)} {c : Cursor}
  {tokens newlines us ts : List Token} {last t : Token}

lemma terminated_concat (h : last.kind = .eof) :
    Cursor.terminated (tokens ++ [last]) = tokens ++ [last] := by
  simp only [Cursor.terminated, List.getLast?_concat, h, if_true]

lemma Scanner.Complete.row_ofTokens (h : Complete tokens) :
    (Cursor.ofTokens tokens).row = tokens := by
  obtain ⟨inner, last, rfl, _, hlast, _⟩ := h
  unfold Cursor.ofTokens
  rw [terminated_concat hlast]
  cases inner <;> rfl

lemma depth_ofTokens : (Cursor.ofTokens tokens).depth = 0 := by
  unfold Cursor.ofTokens
  split <;> rfl

lemma row_pass_newlines {more : List Token} (hn : ∀ x ∈ newlines, x.kind = .newline)
    (ht : t.kind ≠ .newline) (hc : c.row = newlines ++ t :: more) :
    (c.pass [.newline]).row = t :: more := by
  have hend : TokenKind.eof ∉ [TokenKind.newline] := by decide
  obtain ⟨c', hrow, _, hpass⟩ := Cursor.pass_newlines hend rfl hn hc (cons_ne_nil t more)
  have hstop : c'.here.kind ≠ .newline := by
    rw [(List.cons.inj hrow).1]
    exact ht
  rw [hpass, Cursor.pass_of_not_contains (by simpa using hstop)]
  exact hrow

lemma Scanner.Proper.matches (h : Proper t) : t.Matches (· + m.lines) (t.moved m) :=
  ⟨rfl, rfl, rfl, h.word⟩

lemma Scanner.Complete.aligned (h : Complete tokens) :
    Aligned (· + m.lines) none tokens (tokens.map (Token.moved m)) := by
  obtain ⟨inner, last, rfl, hinner, hlast, htext⟩ := h
  induction inner with
  | nil =>
    refine .eof ⟨rfl, rfl, rfl, ?_⟩ hlast rfl
    rw [htext]
    nofun
  | cons t inner ih =>
    obtain ⟨ht, hinner⟩ := forall_mem_cons.mp hinner
    exact .cons ht.matches ht.ne_eof (ih hinner)

lemma across_replicate {n : Nat} {u : Token} (ht : t.kind = .dedent) (hu : u.kind = .dedent)
    (hlast : last.kind = .eof) :
    Across (some us) (List.replicate n t ++ [last]) (List.replicate n u ++ us) := by
  induction n with
  | zero => exact .eof hlast rfl
  | succ n ih => exact .dedent ht hu ih

lemma beyond_newlines (hn : ∀ x ∈ newlines, x.kind = .newline) (h : Across rest ts us) :
    Beyond rest ts (newlines ++ us) := by
  induction newlines with
  | nil => exact .across h
  | cons x newlines ih =>
    obtain ⟨hx, hn⟩ := forall_mem_cons.mp hn
    exact .newline hx (ih hn)

lemma aligned_append {inner : List Token} (hinner : ∀ t ∈ inner, Proper t) (ht : Proper t)
    (hk : t.kind = .newline) (h : Beyond rest ts us) :
    Aligned id rest (inner ++ t :: ts) (inner ++ t :: us) := by
  have hmatches {t : Token} (ht : Proper t) : t.Matches id t := ⟨rfl, rfl, rfl, ht.word⟩
  induction inner with
  | nil => exact .seam (hmatches ht) hk h
  | cons x inner ih =>
    obtain ⟨hx, hinner⟩ := forall_mem_cons.mp hinner
    exact .cons (hmatches hx) hx.ne_eof (ih hinner)

end Rows

section Texts

variable {source line : List Char} {tokens : List Token} {p : Program} {c : Cursor}

/-- A text is compiled by its scanner and its reader. -/
lemma compile_iff {source : String} : compile source = .ok p ↔ ∃ tokens c,
    (start source.toList).tokenize.1 = .ok tokens ∧
    program.run (.ofTokens tokens) = (.ok p, c) := by
  unfold compile readSource
  rw [show tokenize source = (start source.toList).tokenize.1 from rfl]
  rcases (start source.toList).tokenize.1 with e | tokens
  · exact ⟨nofun, nofun⟩
  · dsimp only
    rcases hrun : program.run (.ofTokens tokens) with ⟨e | q, c⟩
    · refine ⟨nofun, ?_⟩
      rintro ⟨_, c', htokens, h⟩
      cases htokens
      cases hrun.symm.trans h
    · refine ⟨fun h => ⟨tokens, c, rfl, ?_⟩, ?_⟩
      · cases h
        exact hrun
      · rintro ⟨_, c', htokens, h⟩
        cases htokens
        cases hrun.symm.trans h
        rfl

/-- A text with complete lines ends at the beginning of a line. -/
lemma tokenize_line (hsource : source = line ++ ['\n'])
    (h : (start source).tokenize.1 = .ok tokens) :
    ∃ before : Scanner, before.Sound ∧ before.mode = .lineStart 0 ∧
      before.position = Position.start.moved ⟨source.count '\n', source.length⟩ ∧
      (∃ t out, before.emitted = t :: out ∧ t.kind = .newline) ∧
      tokens = before.emitted.reverse ++ before.closing ∧
      ∀ rest, (start (source ++ rest)).readAll (source ++ rest) = before.readAll rest := by
  obtain ⟨before, hread, hfinish⟩ := tokenize_iff.mp h
  obtain ⟨hstring, htokens⟩ := finish_iff.mp hfinish
  obtain ⟨hline, hoffset⟩ := readAll_position (s := start source) trivial hread
  have hsound : before.Sound := readAll_sound (s := start source) trivial start_sound hread
  have hread' : (start source).readAll (line ++ ['\n']) = (none, before) := by
    rw [← hsource]
    exact hread
  obtain ⟨hmode, hcolumn, hemitted, hrest⟩ :=
    readAll_line (s := start source) trivial hread' hstring
  refine ⟨before, hsound, hmode, ?_, hemitted, htokens, fun rest => ?_⟩
  · calc
      before.position = ⟨before.position.line, before.position.column, before.position.offset⟩ :=
    rfl
      _ = Position.start.moved ⟨source.count '\n', source.length⟩ := by
        rw [hline, hcolumn, hoffset]
        rfl
  · rw [hsource, append_assoc]
    exact (readAll_unread (s := start source)).trans (hrest rest)

/-- The tokens of both texts are aligned with those of the first. -/
lemma Scanner.Follows.aligned {m : Displacement} {before : Scanner} {t : Token}
    {out both : List Token} (h : Follows m before tokens both) (hs : before.Sound)
    (hemitted : before.emitted = t :: out) (hk : t.kind = .newline) (hc : c.row = tokens) :
    ∃ r, Aligned id (some r) (before.emitted.reverse ++ before.closing) both ∧
      Aligned (· + m.lines) none (c.pass [.newline]).row r := by
  obtain @⟨newlines, rest, position, hn, hcomplete, hhead⟩ := h
  obtain ⟨x, more, hrest⟩ : ∃ x more, rest = x :: more := by
    obtain ⟨inner, last, rfl, _⟩ := hcomplete
    exact exists_cons_of_ne_nil (by simp)
  refine ⟨rest.map (Token.moved m), ?_, ?_⟩
  · have hacross : Across (some (rest.map (Token.moved m))) before.closing
        (before.dedents position ++ rest.map (Token.moved m)) := across_replicate rfl rfl rfl
    have hproper := hs.emitted
    rw [hemitted] at hproper ⊢
    obtain ⟨ht, hout⟩ := forall_mem_cons.mp hproper
    simp only [reverse_cons, append_assoc, cons_append, nil_append]
    refine aligned_append (fun t ht => hout t (mem_reverse.mp ht)) ht hk
      (beyond_newlines ?_ hacross)
    intro y hy
    obtain ⟨x, hx, rfl⟩ := mem_map.mp hy
    exact hn x hx
  · subst hrest
    rw [row_pass_newlines hn (hhead x rfl) hc]
    exact hcomplete.aligned

/-- Two programs make one, if the first has a line. -/
lemma compile_append_line {source₁ source₂ : String} {p₁ p₂ : Program}
    (hend : source₁.toList = line ++ ['\n']) (hstart : ∀ c, source₂.toList.head? = some c →
      c ≠ ' ' ∧ c ≠ '\t') (hreturn : '\r' ∉ source₂.toList)
    (h₁ : compile source₁ = .ok p₁) (h₂ : compile source₂ = .ok p₂) :
    compile (source₁ ++ source₂) =
      .ok ⟨p₁.body ++ p₂.body.map (Stmt.mapLine (· + source₁.toList.count '\n'))⟩ := by
  obtain ⟨tokens1, c1, htokens1, hrun1⟩ := compile_iff.mp h₁
  obtain ⟨tokens2, c2, htokens2, hrun2⟩ := compile_iff.mp h₂
  obtain ⟨before, hsound, hmode, hposition, ⟨t, out, hemitted, hk⟩, rfl, hrest⟩ :=
    tokenize_line hend htokens1
  obtain ⟨s, hread, hfinish⟩ := tokenize_iff.mp htokens2
  have hsound2 : s.Sound := readAll_sound (s := start source₂.toList) trivial start_sound hread
  have hcomplete : Complete tokens2 := (finish_iff.mp hfinish).2 ▸ hsound2.complete
  have hrow2 := hcomplete.row_ofTokens
  rcases readAll_follows hsound hmode hposition hreturn hstart hread hfinish with
    ⟨newlines, x, rest, rfl, hn, hx⟩ | ⟨s', both, hread', hfinish', hfollows⟩
  · -- an indented first line is not the start of a program
    have hrow := row_pass_newlines hn (by rw [hx]; nofun) hrow2
    have hhead := program_run_head hrun2
    rw [(List.cons.inj hrow).1, hx] at hhead
    exact absurd (by decide) hhead
  · have hsound' : s'.Sound := readAll_sound (by rw [hmode]; trivial) hsound hread'
    have hboth : Complete both := (finish_iff.mp hfinish').2 ▸ hsound'.complete
    obtain ⟨r, hseam, haligned⟩ := hfollows.aligned hsound hemitted hk hrow2
    rw [← hsound.complete.row_ofTokens, ← hboth.row_ofTokens] at hseam
    obtain ⟨d, hrun⟩ :=
      program_joins hrun1 hrun2 depth_ofTokens ⟨hseam, depth_ofTokens, depth_ofTokens⟩ haligned
    refine compile_iff.mpr ⟨both, d, tokenize_iff.mpr ⟨s', ?_, hfinish'⟩, hrun⟩
    rw [String.toList_append]
    exact (hrest _).trans hread'

lemma compile_empty : compile "" = .ok ⟨[]⟩ := rfl

end Texts

/-- A program that ends with a complete line and one that begins at the margin make one program:
the statements of the first and then those of the second, as many lines further down as the first
has. -/
theorem compile_append {source₁ source₂ : String} {p₁ p₂ : Program}
    (hend : ∀ c, source₁.toList.getLast? = some c → c = '\n')
    (hstart : ∀ c, source₂.toList.head? = some c → c ≠ ' ' ∧ c ≠ '\t')
    (hreturn : '\r' ∉ source₂.toList) (h₁ : compile source₁ = .ok p₁)
    (h₂ : compile source₂ = .ok p₂) :
    compile (source₁ ++ source₂) =
      .ok ⟨p₁.body ++ p₂.body.map (Stmt.mapLine (· + source₁.toList.count '\n'))⟩ := by
  rcases List.eq_nil_or_concat source₁.toList with hnil | ⟨line, last, hline⟩
  · obtain rfl : source₁ = "" := String.toList_eq_nil_iff.mp hnil
    obtain rfl : p₁ = ⟨[]⟩ := Except.ok.inj (h₁.symm.trans compile_empty)
    have hshift : p₂.body.map (Stmt.mapLine (· + "".toList.count '\n')) = p₂.body := by
      rw [← Stmt.mapLines_eq_map]
      exact Stmt.mapLines_id p₂.body
    rw [String.empty_append, h₂, hshift]
    rfl
  · rw [List.concat_eq_append] at hline
    obtain rfl : last = '\n' := hend last (by rw [hline]; exact List.getLast?_concat)
    exact compile_append_line hline hstart hreturn h₁ h₂

/-- A program whose only block is open at its end. -/
def greeting : String := "when program starts:\n    say \"hello\"\n"

/-- A program that begins with a comment and a blank line. -/
def farewell : String := "# later\n\nsay \"goodbye\"\n"

/-- The block of the greeting ends where the farewell begins, and lines are counted on. -/
theorem greeting_then_farewell : ∃ p₁ p₂, compile greeting = .ok p₁ ∧ compile farewell = .ok p₂ ∧
    p₁.body.map Stmt.line = [1] ∧ p₂.body.map Stmt.line = [3] ∧
    compile (greeting ++ farewell) = .ok ⟨p₁.body ++ p₂.body.map (Stmt.mapLine (· + 2))⟩ := by
  have hread₁ : (compile greeting).toOption.map (fun p => p.body.map Stmt.line) = some [1] := by
    decide +kernel
  have hread₂ : (compile farewell).toOption.map (fun p => p.body.map Stmt.line) = some [3] := by
    decide +kernel
  have hlast : greeting.toList.getLast? = some '\n' := by decide +kernel
  have hfirst : farewell.toList.head? = some '#' := by decide +kernel
  obtain ⟨p₁, h₁, hlines₁⟩ := exists_ok hread₁
  obtain ⟨p₂, h₂, hlines₂⟩ := exists_ok hread₂
  refine ⟨p₁, p₂, h₁, h₂, hlines₁, hlines₂, compile_append ?_ ?_ (by decide +kernel) h₁ h₂⟩
  · intro c hc
    exact (Option.some.inj (hlast.symm.trans hc)).symm
  · intro c hc
    rw [← Option.some.inj (hfirst.symm.trans hc)]
    decide

end Colloquy
