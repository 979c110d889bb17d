import Colloquy.Proofs.Token.Page
import Colloquy.Proofs.Token.Penned

/-!
# The canonical text of a row of tokens

The tokens of a text are written again with one space between two of them and four in front of a
line for each open block. This canonical text has the same tokens: the text of a token spells it
(`Token.Penned`), and a line is as wide as its blocks are deep.
-/

namespace Colloquy

open Scanner List String

/-- What a token shows apart from its place. -/
def Token.face (t : Token) : TokenKind × String := (t.kind, t.text)

/-- A text that is being written, its open blocks, and whether its last line has no token. -/
structure Sheet where
  text : List Char
  depth : Nat
  fresh : Bool

namespace Sheet

/-- An empty sheet. -/
def blank : Sheet := ⟨[], 0, true⟩

/-- What stands in front of a token: a margin, or a space. -/
def lead (s : Sheet) : List Char := if s.fresh then List.replicate (4 * s.depth) ' ' else [' ']

/-- Writes one more token. Blocks are not written, but move the margin. -/
def add (s : Sheet) (t : Token) : Sheet :=
  match t.kind with
  | .newline => { s with text := s.text ++ ['\n'], fresh := true }
  | .indent => { s with depth := s.depth + 1 }
  | .dedent => { s with depth := s.depth - 1 }
  | .eof => s
  | _ => { s with text := s.text ++ (s.lead ++ t.text.toList), fresh := false }

end Sheet

/-- The canonical text of some tokens. -/
def canonicalText (tokens : List Token) : String :=
  String.ofList (tokens.foldl Sheet.add .blank).text

section Written

variable {d : Nat} {t x : Token} {run ts : List Token} {s : Sheet}

/-- The sheet with these tokens, the last one first. -/
def written (ts : List Token) : Sheet := ts.foldr (fun t s => s.add t) .blank

lemma written_cons : written (t :: ts) = (written ts).add t := rfl

lemma canonicalText_eq {tokens : List Token} :
    canonicalText tokens = String.ofList (written tokens.reverse).text := by
  rw [written, foldr_reverse]
  rfl

lemma Sheet.add_plain (h : t.kind.isPlain = true) :
    s.add t = ⟨s.text ++ (s.lead ++ t.text.toList), s.depth, false⟩ := by
  unfold Sheet.add
  cases hk : t.kind with
  | newline | indent | dedent | eof =>
    rw [hk] at h
    cases h
  | _ => rfl

lemma Sheet.add_newline (h : t.kind = .newline) : s.add t = ⟨s.text ++ ['\n'], s.depth, true⟩ := by
  unfold Sheet.add
  rw [h]

lemma Sheet.add_layout (h : t.kind.isPlain = false) (hn : t.kind ≠ .newline) :
    (s.add t).text = s.text ∧ (s.add t).fresh = s.fresh := by
  unfold Sheet.add
  cases hk : t.kind with
  | newline => exact (hn hk).elim
  | indent | dedent | eof => exact ⟨rfl, rfl⟩
  | _ =>
    rw [hk] at h
    cases h

lemma written_layout (ts : List Token) (h : ∀ t ∈ run, t.kind.isPlain = false ∧ t.kind ≠ .newline) :
    (written (run ++ ts)).text = (written ts).text ∧
    (written (run ++ ts)).fresh = (written ts).fresh := by
  induction run with
  | nil => exact ⟨rfl, rfl⟩
  | cons t run ih =>
    obtain ⟨⟨hp, hn⟩, hrun⟩ := forall_mem_cons.mp h
    obtain ⟨htext, hfresh⟩ := ih hrun
    obtain ⟨htext', hfresh'⟩ := Sheet.add_layout (s := written (run ++ ts)) hp hn
    exact ⟨htext'.trans htext, hfresh'.trans hfresh⟩

/-- The sheet has as many blocks open as the tokens. -/
lemma Nested.depth_written (h : Nested d ts) : (written ts).depth = d := by
  induction h with
  | nil => rfl
  | @other d t ts hi hd _ ih =>
    rw [written_cons, ← ih]
    unfold Sheet.add
    split
    case h_2 hk => exact (hi hk).elim
    case h_3 hk => exact (hd hk).elim
    all_goals rfl
  | indent hk _ ih =>
    rw [written_cons, Sheet.add, hk]
    exact congrArg Nat.succ ih
  | dedent hk _ ih =>
    rw [written_cons, Sheet.add, hk]
    exact congrArg Nat.pred ih

lemma IsMargin.layout (h : IsMargin run) :
    ∀ t ∈ run, t.kind.isPlain = false ∧ t.kind ≠ .newline := by
  intro t ht
  obtain ⟨i, hi, rfl⟩ | hall := h
  · obtain rfl := mem_singleton.mp ht
    rw [hi]
    exact ⟨rfl, by rintro ⟨⟩⟩
  · rw [hall t ht]
    exact ⟨rfl, by rintro ⟨⟩⟩

/-- Ends of blocks are counted. -/
lemma Nested.of_dedents (hrun : ∀ t ∈ run, t.kind = .dedent) (h : Nested d (run ++ ts)) :
    Nested (d + run.length) ts := by
  induction run generalizing d with
  | nil => exact h
  | cons t run ih =>
    obtain ⟨ht, hrun⟩ := forall_mem_cons.mp hrun
    cases h with
    | other _ hd _ => exact (hd ht).elim
    | indent hk _ => cases hk.symm.trans ht
    | dedent _ h =>
      rw [length_cons, ← Nat.succ_add_eq_add_succ]
      exact ih hrun h

/-- The layout of a line is told by the depths before and after it. -/
lemma Nested.of_margin (hrun : IsMargin run) (hp : ∀ t ∈ run, t.Penned)
    (h : Nested d (run ++ ts)) (n : Nat) :
    ∃ depth, Nested depth ts ∧ d ≤ depth + 1 ∧
      (margin depth d n).reverse.map (fun x => (x.1, x.2.1)) = run.map Token.face := by
  obtain ⟨i, hi, rfl⟩ | hall := hrun
  · cases h with
    | other hne _ _ => exact (hne hi).elim
    | dedent hk _ => cases hk.symm.trans hi
    | @indent depth _ _ _ h =>
      have htext : i.text = "" := (hp i (mem_singleton_self i)).layout (.inl hi)
      refine ⟨depth, h, Nat.le_refl _, ?_⟩
      rw [margin, if_pos (Nat.lt_succ_self depth), map_singleton, Token.face, hi, htext]
      rfl
  · refine ⟨d + run.length, h.of_dedents hall, by omega, ?_⟩
    have hface : ∀ t ∈ run, t.face = (.dedent, "") := by
      intro t ht
      rw [Token.face, hall t ht, (hp t ht).layout (.inr (hall t ht))]
    rw [margin, if_neg (by omega), Nat.add_sub_cancel_left,
      reverse_replicate, map_replicate, map_congr_left hface, map_const']

end Written

section Retracing

variable {source rest : List Char} {d line : Nat} {t x y : Token}
  {run ts : List Token} {s : Scanner} {blocks : List Nat} {seen : List Sight}

/-- What a scanner is amid after these tokens, the last one first. -/
def standing : List Token → Mode
  | [] => .between
  | t :: _ => if t.kind = .newline then .lineStart 0 else .between

lemma standing_not_holds : (standing ts).holds = false := by
  unfold standing
  split
  · rfl
  · split <;> rfl

lemma standing_plain (h : t.kind.isPlain = true) : standing (t :: ts) = .between := by
  apply if_neg
  intro hk
  rw [hk] at h
  cases h

/-- The sheet with these tokens is read as these tokens, before whatever may come. -/
def Retraces (source : List Char) (ts : List Token) : Prop :=
  ∀ rest : List Char, ((written ts).fresh = false → ∀ c ∈ rest.head?, c = ' ' ∨ c = '\n') →
    ∃ line seen, (start source).Reads (written ts).text rest
      (standing ts) line (widths (written ts).depth) seen ∧
      seen.map (fun x => (x.1, x.2.1)) = ts.map Token.face

/-- Every token ends before a blank or the end of a line. -/
lemma endsBefore_blank {kind : TokenKind} {next : Option Char}
    (h : ∀ c ∈ next, c = ' ' ∨ c = '\n') :
    EndsBefore kind next := by
  cases next with
  | none =>
    cases kind with
    | string => trivial
    | symbol => exact ⟨nofun, nofun⟩
    | _ => rfl
  | some c =>
    apply endsBefore_separator
    rcases h c rfl with rfl | rfl <;> decide

namespace Scanner

lemma reads_break (hmode : s.mode.holds = false) (hs : s.Shows line blocks seen) :
    s.Reads ['\n'] rest (.lineStart 0) (line + 1) blocks ((.newline, "\n", line) :: seen) := by
  refine .cons (react_newline_of_not_holds hmode) (.nil rfl ?_)
  rw [← hs.line]
  exact ⟨rfl, hs.blocks, congrArg (List.cons _) hs.emitted⟩

/-- The first token of a line is read behind its margin. -/
lemma reads_first {kind : TokenKind} {text : List Char} {depth : Nat} (h : Spells kind text)
    (hend : EndsBefore kind rest.head?) (hd : d ≤ depth + 1) (hmode : s.mode = .lineStart 0)
    (hs : s.Shows line (widths depth) seen) :
    s.Reads (List.replicate (4 * d) ' ' ++ text) rest .between (line + text.count '\n') (widths d)
      ((kind, String.ofList text, line) :: ((margin depth d line).reverse ++ seen)) := by
  refine .trans (reads_spaces hmode hs) fun s' hmode' hs' => ?_
  rw [Nat.zero_add] at hmode'
  have hmeasured := hs'.measure hd
  have hbegun : { s'.measure (4 * d) with mode := .between }.Shows line (widths d)
      ((margin depth d line).reverse ++ seen) :=
    ⟨hmeasured.line, hmeasured.blocks, hmeasured.emitted⟩
  have htoken := reads_spelled h hend rfl hbegun
  obtain ⟨c, cs, rfl, hsig⟩ := significant_spelled h hend
  exact reads_measured hmode' hsig htoken

end Scanner

lemma Retraces.nil : Retraces source [] := fun _ _ => ⟨1, [], .nil rfl ⟨rfl, rfl, rfl⟩, rfl⟩

lemma Retraces.newline (h : Retraces source ts) (ht : t.kind = .newline) (hp : t.Penned) :
    Retraces source (t :: ts) := by
  intro rest _
  obtain ⟨line, seen, hreads, hfaces⟩ :=
    h ('\n' :: rest) fun _ c hc => .inr (Option.some.inj hc).symm
  refine ⟨line + 1, (.newline, "\n", line) :: seen, ?_, ?_⟩
  · rw [written_cons, Sheet.add_newline ht, standing, if_pos ht]
    exact .trans hreads fun s' hmode hs => reads_break (hmode ▸ standing_not_holds) hs
  · rw [map_cons, map_cons, hfaces, Token.face, ht, hp.newline ht]

/-- A line is read again with its layout. -/
lemma Retraces.leading (h : Retraces source (t :: ts)) (ht : t.kind = .newline)
    (hx : x.kind.isPlain = true) (hrun : IsMargin run) (hd : Nested d (run ++ t :: ts))
    (hpx : x.Penned) (hpr : ∀ y ∈ run, y.Penned) :
    Retraces source (x :: (run ++ t :: ts)) := by
  intro rest hrest
  have hadd := Sheet.add_plain (s := written (run ++ t :: ts)) hx
  rw [written_cons, hadd] at hrest ⊢
  have hnewline := Sheet.add_newline (s := written ts) ht
  obtain ⟨line, seen, hreads, hfaces⟩ :=
    h (List.replicate (4 * d) ' ' ++ x.text.toList ++ rest) fun hfresh => by
      rw [written_cons, hnewline] at hfresh
      cases hfresh
  obtain ⟨depth, hdepth, hle, hmargin⟩ := hd.of_margin hrun hpr line
  obtain ⟨htext, hfresh⟩ := written_layout (t :: ts) hrun.layout
  rw [hdepth.depth_written, standing, if_pos ht] at hreads
  refine ⟨line + x.text.toList.count '\n',
    (x.kind, String.ofList x.text.toList, line) :: ((margin depth d line).reverse ++ seen), ?_, ?_⟩
  · rw [standing_plain hx]
    have hlead : (written (run ++ t :: ts)).lead = List.replicate (4 * d) ' ' := by
      rw [Sheet.lead, hfresh, written_cons, hnewline, if_pos rfl, hd.depth_written]
    dsimp only
    rw [htext, hlead, hd.depth_written]
    exact .trans hreads fun s' hmode hs =>
      reads_first (hpx.plain hx) (endsBefore_blank (hrest rfl)) hle hmode hs
  · rw [map_cons, map_append, map_cons, map_append, hmargin, hfaces, ofList_toList]
    rfl

/-- A token is read again behind another. -/
lemma Retraces.behind (h : Retraces source (y :: ts)) (hy : y.kind.isPlain = true)
    (hx : x.kind.isPlain = true) (hpx : x.Penned) : Retraces source (x :: y :: ts) := by
  intro rest hrest
  have hadd := Sheet.add_plain (s := written (y :: ts)) hx
  rw [written_cons, hadd] at hrest ⊢
  obtain ⟨line, seen, hreads, hfaces⟩ :=
    h ([' '] ++ x.text.toList ++ rest) fun _ c hc => .inl (Option.some.inj hc).symm
  rw [standing_plain hy] at hreads
  refine ⟨line + x.text.toList.count '\n',
    (x.kind, String.ofList x.text.toList, line) :: seen, ?_, ?_⟩
  · have hlead : (written (y :: ts)).lead = [' '] := by
      rw [Sheet.lead, written_cons, Sheet.add_plain hy]
      rfl
    rw [standing_plain hx]
    dsimp only
    rw [hlead]
    refine .trans hreads fun s' hmode hs => .trans (reads_space hmode hs) fun s'' hmode' hs' => ?_
    exact reads_spelled (hpx.plain hx) (endsBefore_blank (hrest rfl)) hmode' hs'
  · rw [map_cons, hfaces, ofList_toList]
    rfl

lemma Retraces.first (hx : x.kind.isPlain = true) (hpx : x.Penned) : Retraces source [x] := by
  intro rest hrest
  have hadd := Sheet.add_plain (s := written []) hx
  rw [written_cons, hadd] at hrest ⊢
  refine ⟨1 + x.text.toList.count '\n', [(x.kind, String.ofList x.text.toList, 1)], ?_, ?_⟩
  · rw [standing_plain hx]
    exact reads_spelled (hpx.plain hx) (endsBefore_blank (hrest rfl)) rfl ⟨rfl, rfl, rfl⟩
  · rw [ofList_toList]
    rfl

/-- All tokens are read again, by induction on them. -/
lemma Lined.retraces (source : List Char) (h : Lined ts) (hd : Nested d ts)
    (hp : ∀ t ∈ ts, t.Penned) : Retraces source ts := by
  induction h generalizing d with
  | nil => exact .nil
  | newline ht _ ih =>
    obtain ⟨hpt, hp⟩ := forall_mem_cons.mp hp
    obtain ⟨d', hd'⟩ := hd.suffix (suffix_cons _ _)
    exact (ih hd' hp).newline ht hpt
  | @plain x ts hx hl ih =>
    obtain ⟨hpx, hp⟩ := forall_mem_cons.mp hp
    obtain ⟨d', hd'⟩ := hd.suffix (suffix_cons _ _)
    have hts := ih hd' hp
    cases hl with
    | nil => exact .first hx hpx
    | newline ht _ =>
      have hrun : IsMargin [] := .inr (forall_mem_nil _)
      exact hts.leading ht hx hrun hd' hpx (forall_mem_nil _)
    | plain hy _ | margin hy _ _ _ => exact hts.behind hy hx hpx
  | margin hx hrun ht _ ih =>
    obtain ⟨hpx, hp⟩ := forall_mem_cons.mp hp
    obtain ⟨hpr, hp⟩ := forall_mem_append.mp hp
    obtain ⟨d1, hd1⟩ := hd.suffix (suffix_cons _ _)
    obtain ⟨d2, hd2⟩ := hd1.suffix (suffix_append _ _)
    exact (ih hd2 hp).leading ht hx hrun hd1 hpx hpr

end Retracing

section Canonical

variable {source : String} {tokens : List Token} {s : Scanner}

lemma text_closing :
    (written (s.emitted.reverse ++ s.closing).reverse).text = (written s.emitted).text := by
  rw [reverse_append, reverse_reverse]
  refine (written_layout _ fun t ht => ?_).1
  rw [closing, mem_reverse, mem_append, mem_singleton] at ht
  rcases ht with ht | rfl
  · rw [(mem_replicate.mp ht).2]
    exact ⟨rfl, by rintro ⟨⟩⟩
  · exact ⟨rfl, by rintro ⟨⟩⟩

lemma face_closing :
    s.closing.map Token.face = List.replicate s.blocks.length (.dedent, "") ++ [(.eof, "")] := by
  rw [closing, map_append, map_replicate]
  rfl

/-- The canonical text of the tokens of a text has tokens of the same kinds and texts. -/
theorem tokenize_canonicalText (h : tokenize source = .ok tokens) :
    ∃ again, tokenize (canonicalText tokens) = .ok again ∧
    again.map Token.face = tokens.map Token.face := by
  obtain ⟨s, hread, hfinish⟩ := tokenize_iff.mp h
  obtain ⟨hstring, rfl⟩ := finish_iff.mp hfinish
  have hnested : Nested s.blocks.length s.emitted :=
    (Scanning.readAll .start rfl hread).1.stacked.nested
  have hretraces :=
    (emitted_lined hread hstring).retraces (written s.emitted).text hnested (emitted_penned hread)
  obtain ⟨line, seen, ⟨s', hmode, hs, hread'⟩, hfaces⟩ := hretraces [] fun _ _ => nofun
  have hstring' : s'.mode.inString = false := by
    have hholds : s'.mode.holds = false := hmode ▸ standing_not_holds
    cases hm : s'.mode with
    | quoted | escaped =>
      rw [hm] at hholds
      cases hholds
    | _ => rfl
  refine ⟨s'.emitted.reverse ++ s'.closing, ?_, ?_⟩
  · rw [canonicalText_eq, text_closing]
    unfold tokenize
    rw [String.toList_ofList]
    rw [List.append_nil] at hread'
    refine tokenize_iff.mpr ⟨{ s' with unread := [] }, hread', finish_iff.mpr ⟨hstring', rfl⟩⟩
  · have hemitted : s'.emitted.map Token.face = s.emitted.map Token.face := by
      rw [← hfaces, ← hs.emitted, List.map_map]
      rfl
    have hblocks : s'.blocks.length = s.blocks.length := by
      rw [hs.blocks, length_widths, hnested.depth_written]
    rw [List.map_append, List.map_append, List.map_reverse,
      List.map_reverse, hemitted, face_closing, face_closing, hblocks]

/-- Tabs, a comment, a string over two lines, a line that begins with a carriage return and a width
between the margin and that of the block. -/
def rumpled : String := "  if a<=b : # why\n\t  say 'x\n  y'.z\n \r say 1.5 .q\n\n   say  2."

/-- The string keeps its lines, and the line with the return stays in the block. -/
theorem tokenize_canonicalText_rumpled : ∃ tokens again, tokenize rumpled = .ok tokens ∧
    canonicalText tokens = "if a <= b :\n    say 'x\n  y' . z\n    say 1.5 . q\n\nsay 2 ." ∧
    tokenize (canonicalText tokens) = .ok again ∧ again.map Token.face = tokens.map Token.face := by
  have hread : (tokenize rumpled).toOption.map canonicalText =
      some "if a <= b :\n    say 'x\n  y' . z\n    say 1.5 . q\n\nsay 2 ." := by decide +kernel
  obtain ⟨tokens, htokens, htext⟩ := exists_ok hread
  obtain ⟨again, hagain, hfaces⟩ := tokenize_canonicalText htokens
  exact ⟨tokens, again, htokens, htext, hagain, hfaces⟩

end Canonical

end Colloquy
