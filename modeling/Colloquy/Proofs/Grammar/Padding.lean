import Colloquy.Proofs.Grammar.Concatenation
import Colloquy.Proofs.Token.Trivia

/-!
# Blank lines and comments in a program

A row is `Padded` if it has more ends of lines after the end of a line than another. A reader passes
them all, so this is a seam with nothing across it. Blank lines and comments make no other
difference to a tree.
-/

namespace Colloquy

open Grammar Production Scanner List Cursor

/-- The second row has the same tokens, but maybe more ends of lines after the end of a line. -/
inductive Padded (f : Nat → Nat) : List Token → List Token → Prop where
  | cons {t u ts us} :
    t.Matches f u →
    t.kind ≠ .eof →
    t.kind ≠ .newline →
    Padded f ts us →
    Padded f (t :: ts) (u :: us)
  | newline {t u extra ts us} :
    t.Matches f u →
    t.kind = .newline →
    (∀ x ∈ extra, x.kind = .newline) →
    Padded f ts us →
    Padded f (t :: ts) (u :: (extra ++ us))
  | eof {t u} :
    t.Matches f u →
    t.kind = .eof →
    Padded f [t] [u]

/-- The second row begins with more ends of lines. -/
def Spaced (f : Nat → Nat) (ts us : List Token) : Prop :=
  ∃ extra us', us = extra ++ us' ∧ (∀ x ∈ extra, x.kind = .newline) ∧ Padded f ts us'

section Rows

variable {f : Nat → Nat} {ts us : List Token} {n : Nat} {c d : Cursor} {kinds : List TokenKind}

lemma Padded.ne_nil (h : Padded f ts us) : ts ≠ [] ∧ us ≠ [] := by
  cases h <;> exact ⟨cons_ne_nil _ _, cons_ne_nil _ _⟩

lemma Spaced.ne_nil (h : Spaced f ts us) : ts ≠ [] ∧ us ≠ [] := by
  obtain ⟨extra, us, rfl, _, h⟩ := h
  exact ⟨h.ne_nil.1, append_ne_nil_of_right_ne_nil extra h.ne_nil.2⟩

/-- Both readers pass tokens of these kinds to the same place. -/
lemma Padded.pass (hend : TokenKind.eof ∉ kinds) (hin : kinds.contains .newline = true)
    (h : Padded f ts us) (hc : c.row = ts) (hd : d.row = us) (hdepth : c.depth = n ∧ d.depth = n) :
    InRows (Padded f) n (c.pass kinds) (d.pass kinds) := by
  -- both readers stop at the same token or pass it together, and the second passes what is more
  induction h generalizing c d with
  | cons hm hne hn h ih =>
    obtain ⟨rfl, rfl⟩ := List.cons.inj hc
    obtain ⟨rfl, rfl⟩ := List.cons.inj hd
    have hk := hm.kind
    cases hcontains : kinds.contains c.here.kind with
    | false =>
      rw [pass_of_not_contains hcontains, pass_of_not_contains (hk ▸ hcontains)]
      exact ⟨.cons hm hne hn h, hdepth⟩
    | true =>
      rw [pass_of_contains hend hcontains, pass_of_contains (c := d) hend (hk ▸ hcontains)]
      refine ih (row_next hne h.ne_nil.1) (row_next (hk ▸ hne) h.ne_nil.2) ?_
      rw [depth_next, depth_next]
      exact hdepth
  | newline hm hnl hextra h ih =>
    obtain ⟨rfl, rfl⟩ := List.cons.inj hc
    obtain ⟨rfl, ha⟩ := List.cons.inj hd
    have hk := hm.kind.trans hnl
    have hne : c.here.kind ≠ .eof := by
      rw [hnl]
      rintro ⟨⟩
    have hahead : d.ahead ≠ [] := ha ▸ append_ne_nil_of_right_ne_nil _ h.ne_nil.2
    have hrow : d.next.row = _ := (row_next (hm.kind ▸ hne) hahead).trans ha
    obtain ⟨d', hrow', hdepth', hpass⟩ := pass_newlines hend hin hextra hrow h.ne_nil.2
    rw [pass_of_contains hend (hnl ▸ hin), pass_of_contains (c := d) hend (hk ▸ hin), hpass]
    refine ih (row_next hne h.ne_nil.1) hrow' ?_
    rw [depth_next, hdepth', depth_next]
    exact hdepth
  | eof hm he =>
    have hin : kinds.contains c.here.kind = false := by
      rw [(List.cons.inj hc).1, he]
      simpa using hend
    have hin' : kinds.contains d.here.kind = false := by
      rw [(List.cons.inj hd).1, hm.kind, ← (List.cons.inj hc).1]
      exact hin
    rw [pass_of_not_contains hin, pass_of_not_contains hin']
    refine ⟨?_, hdepth⟩
    rw [hc, hd]
    exact .eof hm he

lemma Spaced.pass (hend : TokenKind.eof ∉ kinds) (hin : kinds.contains .newline = true)
    (h : InRows (Spaced f) n c d) :
    InRows (Padded f) n (c.pass kinds) (d.pass kinds) := by
  obtain ⟨⟨extra, us, hrow, hextra, h⟩, hdepth⟩ := h
  obtain ⟨d', hrow', hdepth', hpass⟩ := pass_newlines hend hin hextra hrow h.ne_nil.2
  rw [hpass]
  exact h.pass hend hin rfl hrow' ⟨hdepth.1, hdepth'.trans hdepth.2⟩

lemma Padded.inv {t u : Token} (h : Padded f (t :: ts) (u :: us)) :
    t.Matches f u ∧ (t.kind ≠ .eof ∧ t.kind ≠ .newline ∧
      Padded f ts us ∨ t.kind = .newline ∧ Spaced f ts us ∨ t.kind = .eof) := by
  cases h with
  | cons hm hne hn h => exact ⟨hm, .inl ⟨hne, hn, h⟩⟩
  | newline hm hnl hextra h => exact ⟨hm, .inr (.inl ⟨hnl, _, _, rfl, hextra, h⟩)⟩
  | eof hm he => exact ⟨hm, .inr (.inr he)⟩

lemma Padded.spaced (h : Padded f ts us) : Spaced f ts us := ⟨[], us, rfl, forall_mem_nil _, h⟩

section Seam

variable (h : InRows (Padded f) n c d)

include h

lemma matches_of_padded : c.here.Matches f d.here := (Padded.inv h.1).1

lemma past_of_padded (hk : c.here.kind ≠ .newline) (he : c.here.kind ≠ .eof) :
    Ahead (InRows (Padded f) n) c d c.next d.next := by
  have hd : d.here.kind ≠ .eof := (matches_of_padded h).kind ▸ he
  rcases (Padded.inv h.1).2 with ⟨_, _, ha⟩ | ⟨hnl, _⟩ | heof
  · exact InRows.next he hd ha.ne_nil ha h.2
  · exact (hk hnl).elim
  · exact (he heof).elim

lemma newline_of_padded (hk : c.here.kind = .newline) :
    Ahead (InRows (Spaced f) n) c d c.next d.next := by
  have hc : c.here.kind ≠ .eof := by
    rw [hk]
    rintro ⟨⟩
  have hd : d.here.kind ≠ .eof := (matches_of_padded h).kind ▸ hc
  rcases (Padded.inv h.1).2 with ⟨_, hn, _⟩ | ⟨_, hs⟩ | heof
  · exact (hn hk).elim
  · exact InRows.next hc hd hs.ne_nil hs h.2
  · exact (hc heof).elim

end Seam

/-- Padded rows are a seam for statements. -/
lemma padded_seam :
    Seam f id (fun n _ => InRows (Padded f) n) (InRows (Spaced f)) (fun _ _ _ => False) where
  tandem n := by
    have hnext {c d : Cursor} (h : InRows (Padded f) n c d) (hp : c.here.kind.isPlain = true) :
        Ahead (InRows (Padded f) n) c d c.next d.next :=
      past_of_padded h (by rintro hk; rw [hk] at hp; cases hp)
      (by rintro hk; rw [hk] at hp; cases hp)
    exact Alike.tandem {
      kind := fun h => (matches_of_padded h).kind
      text := fun h => (matches_of_padded h).text
      line := fun h => (matches_of_padded h).line
      word := fun h hw => (hnext h ((matches_of_padded h).word hw)).along
      next := hnext
      layout := fun h =>
        .inr ⟨h.1.pass (by decide) (by decide) rfl rfl h.2,
        remaining_pass_le, remaining_pass_le⟩ }
  tallies h := (matches_of_padded h).tallies
  depth h := Nat.le_of_eq h.2.1.symm
  deeper h := h.deeper
  shallower h := h.shallower
  newline h hk := newline_of_padded h hk
  indent h hk := past_of_padded h (by rw [hk]; rintro ⟨⟩) (by rw [hk]; rintro ⟨⟩)
  dedent h hk := past_of_padded h (by rw [hk]; rintro ⟨⟩) (by rw [hk]; rintro ⟨⟩)
  loose_of_tight h := ⟨h.1.spaced, h.2⟩
  loose_of_across h := h.elim
  skip h :=
  ⟨.inl (Spaced.pass (by decide) (by decide) h), remaining_pass_le, remaining_pass_le⟩
  across_shallower h := h.elim
  across_kind h := h.elim
  across_else h := h.elim

lemma program_padded {p : Program} {c' : Cursor} (h : InRows (Padded f) 0 c d)
    (hrun : program.run c = (.ok p, c')) :
    ∃ d', program.run d = (.ok ⟨p.body.map (Stmt.mapLine f)⟩, d') := by
  refine program_crosses padded_seam permits_of_inRows ⟨h.1.spaced, h.2⟩ (fun hland hend => ?_) hrun
  exact (matches_of_padded (hland.resolve_right id)).kind.trans hend

end Rows

section Tokens

variable {f : Nat → Nat} {g : Token → Token} {front back ts us : List Token}

lemma Scanner.Complete.split (h : Complete (front ++ back)) (hback : back ≠ []) :
    (∀ t ∈ front, Proper t) ∧ Complete back := by
  obtain ⟨inner, last, htokens, hinner, hlast, htext⟩ := h
  obtain ⟨back, x, rfl⟩ := (eq_nil_or_concat' back).resolve_left hback
  rw [← append_assoc] at htokens
  obtain ⟨rfl, hx⟩ := append_inj' htokens rfl
  obtain rfl := singleton_inj.mp hx
  obtain ⟨hfront, hback⟩ := forall_mem_append.mp hinner
  exact ⟨hfront, back, x, rfl, hback, hlast, htext⟩

lemma Scanner.Complete.word (h : Complete ts) :
    ∀ t ∈ ts, t.text.toList.head?.any Text.isWordStart = true → t.kind.isPlain = true := by
  obtain ⟨inner, last, rfl, hinner, _, htext⟩ := h
  refine forall_mem_append.mpr ⟨fun t ht => (hinner t ht).word, forall_mem_singleton.mpr ?_⟩
  rw [htext]
  rintro ⟨⟩

/-- Tokens in front stay the same. -/
lemma Padded.append (hproper : ∀ t ∈ front, Proper t) (hm : ∀ t ∈ front, t.Matches f (g t))
    (h : Padded f ts us) :
    Padded f (front ++ ts) (front.map g ++ us) := by
  induction front with
  | nil => exact h
  | cons t front ih =>
    obtain ⟨ht, hproper⟩ := forall_mem_cons.mp hproper
    obtain ⟨htm, hm⟩ := forall_mem_cons.mp hm
    by_cases hk : t.kind = .newline
    · have hnewline : Padded f (t :: (front ++ ts)) (g t :: ([] ++ (front.map g ++ us))) :=
        .newline htm hk (forall_mem_nil _) (ih hproper hm)
      exact hnewline
    · exact .cons htm ht.ne_eof hk (ih hproper hm)

lemma Scanner.Complete.padded (h : Complete ts) (hm : ∀ t ∈ ts, t.Matches f (g t)) :
    Padded f ts (ts.map g) := by
  obtain ⟨inner, last, rfl, hinner, hlast, _⟩ := h
  obtain ⟨hm, hml⟩ := forall_mem_append.mp hm
  rw [map_append]
  exact Padded.append hinner hm (.eof (hml last (mem_singleton_self last)) hlast)

lemma Padded.behind (hproper : ∀ t ∈ front, Proper t) (hf : ∀ t ∈ front, f t.line = t.line)
    (h : Padded f ts us) :
    Padded f (front ++ ts) (front ++ us) := by
  have hm : ∀ t ∈ front, t.Matches f (id t) :=
    fun t ht => ⟨rfl, rfl, (hf t ht).symm, (hproper t ht).word⟩
  have happend := Padded.append hproper hm h
  rwa [map_id] at happend

/-- A row stays the same where lines are pushed down. -/
lemma padded_moved {extra rest : List Token} {position position' : Position} {m : Displacement}
    (h : Complete (front ++ lineBreak position :: rest)) (hfront : ∀ t ∈ front, f t.line = t.line)
    (hbreak : position'.line = f position.line) (hextra : ∀ x ∈ extra, x.kind = .newline)
    (hrest : ∀ t ∈ rest, t.line + m.lines = f t.line) :
    Padded f (front ++ lineBreak position :: rest)
    (front ++ lineBreak position' :: (extra ++ rest.map (Token.moved m))) := by
  obtain ⟨hproper, hback⟩ := h.split (cons_ne_nil _ _)
  have hne : rest ≠ [] := by
    rintro rfl
    obtain ⟨inner, last, hlast, _, hk, _⟩ := hback
    obtain ⟨_, hx⟩ := append_inj' (show [] ++ [lineBreak position] = inner ++ [last] from hlast) rfl
    rw [← singleton_inj.mp hx] at hk
    cases hk
  have hback : Complete ([lineBreak position] ++ rest) := hback
  obtain ⟨hnl, hrest'⟩ := hback.split hne
  have hm : (lineBreak position).Matches f (lineBreak position') :=
    ⟨rfl, rfl, hbreak, (hnl _ (mem_singleton_self _)).word⟩
  refine .behind hproper hfront (.newline hm rfl hextra (hrest'.padded fun t ht => ?_))
  exact ⟨rfl, rfl, hrest t ht, hrest'.word t ht⟩

end Tokens

section Texts

variable {source source' : String} {tokens tokens' : List Token} {p : Program} {f : Nat → Nat}

section

variable (h : compile source = .ok p)
  (htokens : tokenize source = .ok tokens)
  (htokens' : tokenize source' = .ok tokens')
include h htokens htokens'

/-- Padded rows have the same tree. -/
lemma compile_padded (hpadded : Padded f tokens tokens') :
    compile source' = .ok ⟨p.body.map (Stmt.mapLine f)⟩ := by
  obtain ⟨row, c, hrow, hrun⟩ := compile_iff.mp h
  obtain rfl : tokens = row := Except.ok.inj (htokens.symm.trans hrow)
  have hrows : InRows (Padded f) 0 (.ofTokens tokens) (.ofTokens tokens') := by
    refine ⟨?_, depth_ofTokens, depth_ofTokens⟩
    rw [(complete_of_tokenize htokens).row_ofTokens, (complete_of_tokenize htokens').row_ofTokens]
    exact hpadded
  obtain ⟨d, hrun'⟩ := program_padded hrows hrun
  exact compile_iff.mpr ⟨tokens', d, htokens', hrun'⟩

lemma compile_padded_id (hpadded : Padded id tokens tokens') : compile source' = .ok p := by
  rw [compile_padded h htokens htokens' hpadded, ← Stmt.mapLines_eq_map, Stmt.mapLines_id]

end

end Texts

/-- What a line becomes when another is put in below some line. -/
def pushedBelow (above line : Nat) : Nat := if line ≤ above then line else line + 1

section Trivia

variable {source : String} {p : Program} {before after text : List Char} {tokens : List Token}

section

variable (h : compile source = .ok p)
  (hsource : source.toList = before ++ '\n' :: after)
  (hout : ¬ InString source before.length)
include h hsource hout

/-- A blank line pushes down the lines below it. -/
lemma compile_blankLine (hline : IsBlankLine text) :
    compile (String.ofList (before ++ '\n' :: (text ++ '\n' :: after))) =
      .ok ⟨p.body.map (Stmt.mapLine (pushedBelow (1 + before.count '\n')))⟩ := by
  obtain ⟨tokens, _, htokens, _⟩ := compile_iff.mp h
  obtain ⟨front, rest, q, rfl, htokens'⟩ := tokenize_blankLine htokens hsource hout hline
  obtain ⟨_, hlines, hfront⟩ := pairwise_append.mp (tokenize_orderly htokens).lines
  have habove : ∀ t ∈ front, pushedBelow (1 + before.count '\n') t.line = t.line :=
    fun t ht => if_pos (hfront t ht _ mem_cons_self).1
  have hbelow : ∀ t ∈ rest, t.line + 1 = pushedBelow (1 + before.count '\n') t.line :=
    fun t ht => (if_neg (Nat.not_le.mpr (((pairwise_cons.mp hlines).1 t ht).2 rfl))).symm
  have hbreak :
      1 + before.count '\n' = pushedBelow (1 + before.count '\n') (1 + before.count '\n') :=
    (if_pos (Nat.le_refl _)).symm
  have hextra : ∀ x ∈ [lineBreak q], x.kind = .newline := forall_mem_singleton.mpr rfl
  exact compile_padded h htokens htokens'
    (padded_moved (complete_of_tokenize htokens) habove hbreak hextra hbelow)

/-- A comment changes nothing. -/
lemma compile_remark (hremark : IsRemark text) :
    compile (String.ofList (before ++ (text ++ '\n' :: after))) = .ok p := by
  obtain ⟨tokens, _, htokens, _⟩ := compile_iff.mp h
  obtain ⟨front, rest, q, hq, rfl, htokens'⟩ := tokenize_remark htokens hsource hout hremark
  refine compile_padded_id h htokens htokens' ?_
  exact padded_moved (complete_of_tokenize htokens) (fun _ _ => rfl) hq
    (forall_mem_nil _) (fun _ _ => rfl)

end

lemma compile_remark_end (h : compile source = .ok p) (hremark : IsRemark text) :
    compile (String.ofList (source.toList ++ text)) = .ok p := by
  obtain ⟨tokens, _, htokens, _⟩ := compile_iff.mp h
  obtain ⟨front, rest, q, hne, hlines, rfl, htokens'⟩ := tokenize_remark_end htokens hremark
  obtain ⟨hproper, hrest⟩ := (complete_of_tokenize htokens).split hne
  refine compile_padded_id h htokens htokens'
    (.behind hproper (fun _ _ => rfl) (hrest.padded fun t ht => ?_))
  exact ⟨rfl, rfl, (hlines t ht).symm, hrest.word t ht⟩

end Trivia

/-- In a program that can be read, a line of blanks and maybe a comment after a line break outside
strings only moves the lines below it down by one; a comment after blanks, before such a break or at
the end, changes nothing. -/
theorem compile_trivia {source : String} {p : Program} (h : compile source = .ok p) :
    (∀ before after, source.toList = before ++ '\n' :: after → ¬ InString source before.length →
      (∀ line, IsBlankLine line →
        compile (String.ofList (before ++ '\n' :: (line ++ '\n' :: after))) =
        .ok ⟨p.body.map (Stmt.mapLine (pushedBelow (1 + before.count '\n')))⟩) ∧
      ∀ remark, IsRemark remark →
      compile (String.ofList (before ++ (remark ++ '\n' :: after))) = .ok p) ∧
    ∀ remark, IsRemark remark → compile (String.ofList (source.toList ++ remark)) = .ok p := by
  refine ⟨fun before after hsource hout => ⟨fun line hline => ?_, fun remark hremark => ?_⟩,
    fun remark hremark => ?_⟩
  · exact compile_blankLine h hsource hout hline
  · exact compile_remark h hsource hout hremark
  · exact compile_remark_end h hremark

/-- A record over three lines, a string over two, two blocks, and no line break at the end. -/
def forked : String := "set r to \x7b\n    a: 1\n\x7d\nif x:\n    say 'a\nb'\nelse:\n    say 2"

/-- Lines with comments may stand inside the record and between the blocks, and comments behind the
condition and at the end; the line break inside the string is another matter. -/
theorem forked_trivia : InString forked 38 ∧ ∃ p, compile forked = .ok p ∧
    p.body.map Stmt.line = [1, 4] ∧
    compile "set r to \x7b\n\t# no\n    a: 1\n\x7d\nif x:\n    say 'a\nb'\nelse:\n    say 2" =
      .ok ⟨p.body.map (Stmt.mapLine (pushedBelow 1))⟩ ∧
    compile "set r to \x7b\n    a: 1\n\x7d\nif x:\n    say 'a\nb'\n // no\nelse:\n    say 2" =
      .ok ⟨p.body.map (Stmt.mapLine (pushedBelow 6))⟩ ∧
    compile "set r to \x7b\n    a: 1\n\x7d\nif x: // no\n    say 'a\nb'\nelse:\n    say 2" = .ok p ∧
    compile "set r to \x7b\n    a: 1\n\x7d\nif x:\n    say 'a\nb'\nelse:\n    say 2 // no" =
      .ok p := by
  have hread : (compile forked).toOption.map (fun p => p.body.map Stmt.line) = some [1, 4] := by
    decide +kernel
  obtain ⟨p, hp, hlines⟩ := exists_ok hread
  obtain ⟨hbreaks, hend⟩ := compile_trivia hp
  have hline : IsBlankLine "\t# no".toList :=
    ⟨['\t'], "# no".toList, by decide +kernel, List.forall_mem_singleton.mpr (.inr rfl),
    .inr (.inl (by decide +kernel)),
      by decide +kernel⟩
  have hremark : IsRemark " // no".toList :=
    ⟨[' '], "// no".toList, by decide +kernel, List.cons_ne_nil _ _,
    List.forall_mem_singleton.mpr (.inl rfl),
      .inr (by decide +kernel), by decide +kernel⟩
  have hrecord : forked.toList = "set r to \x7b".toList ++
      '\n' :: "    a: 1\n\x7d\nif x:\n    say 'a\nb'\nelse:\n    say 2".toList := by decide +kernel
  have hblock : forked.toList = "set r to \x7b\n    a: 1\n\x7d\nif x:\n    say 'a\nb'".toList ++
      '\n' :: "else:\n    say 2".toList := by decide +kernel
  have hcondition : forked.toList = "set r to \x7b\n    a: 1\n\x7d\nif x:".toList ++
      '\n' :: "    say 'a\nb'\nelse:\n    say 2".toList := by decide +kernel
  have hfirst := (hbreaks _ _ hrecord (by decide +kernel)).1 _ hline
  have hsecond := (hbreaks _ _ hblock (by decide +kernel)).1 _ hremark.isBlankLine
  have hthird := (hbreaks _ _ hcondition (by decide +kernel)).2 _ hremark
  rw [show 1 + "set r to \x7b".toList.count '\n' = 1 by decide +kernel] at hfirst
  rw [show 1 + "set r to \x7b\n    a: 1\n\x7d\nif x:\n    say 'a\nb'".toList.count '\n' =
    6 by decide +kernel] at hsecond
  refine ⟨by decide +kernel, p, hp, hlines, ?_, ?_, ?_, ?_⟩
  · exact (congrArg compile (by decide +kernel)).trans hfirst
  · exact (congrArg compile (by decide +kernel)).trans hsecond
  · exact (congrArg compile (by decide +kernel)).trans hthird
  · exact (congrArg compile (by decide +kernel)).trans (hend _ hremark)

end Colloquy
