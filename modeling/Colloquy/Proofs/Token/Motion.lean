import Colloquy.Token.Scan
import Mathlib.Tactic.Lemma

/-!
# Scanning at another place

A scanner looks neither at where it is nor at the tokens that it has emitted. One that is `moved`,
further down in a text and after other tokens, does the same.
-/

namespace Colloquy

open List Option

variable {m : Displacement} {mode : Mode}

/-- How much further down a text something stands. -/
structure Displacement where
  lines : Nat
  offset : Nat

/-- The place so much further down. -/
def Position.moved (m : Displacement) (p : Position) : Position :=
  ⟨p.line + m.lines, p.column, p.offset + m.offset⟩

/-- The token so much further down. -/
def Token.moved (m : Displacement) (t : Token) : Token := { t with position := t.position.moved m }

/-- The mode so much further down. -/
def Mode.moved (m : Displacement) : Mode → Mode
  | .word start read => .word (start.moved m) read
  | .whole start read => .whole (start.moved m) read
  | .fraction start read => .fraction (start.moved m) read
  | .quoted start quote read => .quoted (start.moved m) quote read
  | .escaped start quote read => .escaped (start.moved m) quote read
  | .pair start first sign => .pair (start.moved m) first sign
  | .between => .between
  | .lineStart width => .lineStart width
  | .comment => .comment

/-- The token at another place. -/
def Token.placed (place : Position → Position) (t : Token) : Token :=
  { t with position := place t.position }

/-- The mode with another place in it. -/
def Mode.placed (place : Position → Position) : Mode → Mode
  | .word start read => .word (place start) read
  | .whole start read => .whole (place start) read
  | .fraction start read => .fraction (place start) read
  | .quoted start quote read => .quoted (place start) quote read
  | .escaped start quote read => .escaped (place start) quote read
  | .pair start first sign => .pair (place start) first sign
  | .between => .between
  | .lineStart width => .lineStart width
  | .comment => .comment

lemma Mode.moved_eq_placed : mode.moved m = mode.placed (Position.moved m) := by
  cases mode <;> rfl

/-- Whether only the margin of the line has been read. -/
def Mode.inMargin : Mode → Bool
  | .lineStart _ => true
  | _ => false

lemma Mode.inMargin_iff : mode.inMargin = true ↔ ∃ width, mode = .lineStart width := by
  cases mode with
  | lineStart width => exact ⟨fun _ => ⟨width, rfl⟩, fun _ => rfl⟩
  | _ => exact ⟨nofun, nofun⟩

/-- Whether a string has begun and not ended. -/
def Mode.inString : Mode → Bool
  | .quoted .. | .escaped .. => true
  | _ => false

lemma Mode.inString_moved : (mode.moved m).inString = mode.inString := by
  cases mode <;> rfl

/-- The error so much further down. -/
def ScanError.moved (m : Displacement) (e : ScanError) : ScanError :=
  { e with position := e.position.moved m }

/-- The error at another place. -/
def ScanError.placed (place : Position → Position) (e : ScanError) : ScanError :=
  { e with position := place e.position }

namespace Scanner

/-- The scanner so much further down, after other tokens and with other text to read. -/
def moved (m : Displacement) (before : List Token) (unread : List Char) (s : Scanner) :
    Scanner where
  unread := unread
  position := s.position.moved m
  mode := s.mode.moved m
  blocks := s.blocks
  emitted := s.emitted.map (Token.moved m) ++ before

/-- The scanner amid the same thing, but with other places, blocks, tokens and text to read. -/
def placed (place : Position → Position) (blocks : List Nat) (before : List Token)
    (unread : List Char) (s : Scanner) :
    Scanner where
  unread := unread
  position := place s.position
  mode := s.mode.placed place
  blocks := blocks
  emitted := s.emitted.map (Token.placed place) ++ before

/-- The outcome of a step of such a scanner. -/
def placedOutcome (place : Position → Position) (blocks : List Nat) (before : List Token)
    (unread : List Char) (r : Option ScanError × Scanner) : Option ScanError × Scanner :=
  (r.1.map (ScanError.placed place), r.2.placed place blocks before unread)

section Places

variable {place : Position → Position} {blocks : List Nat} {before : List Token}
  {u read : List Char} {s : Scanner} {c : Char} {next : Option Char} {start : Position}

lemma inWhole_placed : (s.placed place blocks before u).inWhole (place start) read next =
    (s.inWhole start read next).placed place blocks before u := by
  unfold inWhole
  split <;> rfl

lemma inWord_placed : (s.placed place blocks before u).inWord (place start) read next =
    (s.inWord start read next).placed place blocks before u := by
  unfold inWord
  split <;> rfl

lemma inFraction_placed : (s.placed place blocks before u).inFraction (place start) read next =
    (s.inFraction start read next).placed place blocks before u := by
  unfold inFraction
  split <;> rfl

/-- The same tokens begin at other places. -/
lemma fresh_placed :
    (s.placed place blocks before u).fresh c next =
      placedOutcome place blocks before u (s.fresh c next) := by
  unfold fresh
  split
  · rfl
  split
  · rfl
  split
  · rfl
  split
  · rfl
  split
  · exact congrArg (Prod.mk none) (inWhole_placed (s := { s with mode := .between }))
  split
  · exact congrArg (Prod.mk none) (inWord_placed (s := { s with mode := .between }))
  split
  · rfl
  split <;> rfl

/-- Nor does a step, except for the margin of a line. -/
lemma react_placed (hs : s.mode.inMargin = false) :
    (s.placed place blocks before u).react c next =
      placedOutcome place blocks before u (s.react c next) := by
  unfold react
  rw [show (s.placed place blocks before u).mode = s.mode.placed place from rfl]
  cases hmode : s.mode with
  | between => exact fresh_placed
  | lineStart width =>
    rw [hmode] at hs
    cases hs
  | comment =>
    simp only [Mode.placed]
    split
    · exact fresh_placed
    · simp only [placedOutcome, placed, hmode]
      rfl
  | word start read => exact congrArg (Prod.mk none) inWord_placed
  | whole start read =>
    simp only [Mode.placed]
    split
    · exact congrArg (Prod.mk none) inWhole_placed
    · split
      · rfl
      · exact fresh_placed (s := s.emitNumber start read)
  | fraction start read => exact congrArg (Prod.mk none) inFraction_placed
  | quoted start quote read =>
    simp only [Mode.placed]
    split
    · rfl
    · split <;> rfl
  | escaped start quote read => rfl
  | pair start first sign => rfl

lemma placed_emitted : { s with emitted := [] }.placed id s.blocks s.emitted s.unread = s := by
  have hmode : s.mode.placed id = s.mode := by cases s.mode <;> rfl
  simp only [placed, hmode]
  rfl

lemma fresh_emitted :
    s.fresh c next = placedOutcome id s.blocks s.emitted s.unread
      ({ s with emitted := [] }.fresh c next) := by
  rw [← fresh_placed, placed_emitted]

lemma react_emitted (hs : s.mode.inMargin = false) :
    s.react c next = placedOutcome id s.blocks s.emitted s.unread
      ({ s with emitted := [] }.react c next) := by
  rw [← react_placed (s := { s with emitted := [] }) hs, placed_emitted]

lemma blocks_fresh : (s.fresh c next).2.blocks = s.blocks := by
  rw [fresh_emitted]
  rfl

lemma blocks_react (hs : s.mode.inMargin = false) : (s.react c next).2.blocks = s.blocks := by
  rw [react_emitted hs]
  rfl

end Places

section Abreast

variable {place : Position → Position} {s s' t t' : Scanner} {c : Char} {next : Option Char}
  {r r' : Option ScanError × Scanner}

/-- Two scanners amid the same thing, at places that look alike. -/
structure Abreast (place : Position → Position) (s t : Scanner) : Prop where
  position : place t.position = place s.position
  mode : t.mode.placed place = s.mode.placed place

/-- Two scanners take a step together: they add the same tokens and keep their blocks. -/
structure Together (place : Position → Position) (s t s' t' : Scanner) : Prop where
  abreast : Abreast place s' t'
  blocks : s'.blocks = s.blocks ∧ t'.blocks = t.blocks
  emitted : ∃ out out', s'.emitted = out ++ s.emitted ∧ t'.emitted = out' ++ t.emitted ∧
    out'.map (Token.placed place) = out.map (Token.placed place)

/-- Outcomes that look alike are steps together. -/
lemma outcome_together (h : placedOutcome place [] [] [] r' = placedOutcome place [] [] [] r)
    (hs : placedOutcome id s.blocks s.emitted s.unread r = (none, s')) :
    ∃ t', placedOutcome id t.blocks t.emitted t.unread r' = (none, t') ∧
    Together place s t s' t' := by
  obtain ⟨e, r⟩ := r
  obtain ⟨e', r'⟩ := r'
  obtain ⟨he, rfl⟩ := Prod.mk.inj hs
  obtain rfl : e = none := map_eq_none_iff.mp he
  obtain ⟨he', hr⟩ := Prod.mk.inj h
  obtain rfl : e' = none := map_eq_none_iff.mp he'
  obtain ⟨_, hposition, hmode, _, hemitted⟩ := Scanner.mk.inj hr
  rw [append_nil, append_nil] at hemitted
  have hstay (mode : Mode) : (mode.placed id).placed place = mode.placed place := by
    cases mode <;> rfl
  refine ⟨_, rfl, ⟨hposition, ?_⟩, ⟨rfl, rfl⟩, r.emitted, r'.emitted, ?_, ?_, hemitted⟩
  · exact (hstay r'.mode).trans (hmode.trans (hstay r.mode).symm)
  · exact congrArg (· ++ s.emitted) (map_id r.emitted)
  · exact congrArg (· ++ t.emitted) (map_id r'.emitted)

lemma fresh_together (h : place t.position = place s.position) (hs : s.fresh c next = (none, s')) :
    ∃ t', t.fresh c next = (none, t') ∧ Together place s t s' t' := by
  rw [fresh_emitted] at hs ⊢
  refine outcome_together ?_ hs
  -- where a token may begin, it does not matter what the scanner is in the middle of
  change placedOutcome place [] [] [] ({ t with mode := .between, emitted := [] }.fresh c next) =
    placedOutcome place [] [] [] ({ s with mode := .between, emitted := [] }.fresh c next)
  rw [← fresh_placed, ← fresh_placed]
  simp only [placed, h]

lemma react_together (h : Abreast place s t) (hmargin : s.mode.inMargin = false)
    (hs : s.react c next = (none, s')) : ∃ t', t.react c next = (none, t') ∧
    Together place s t s' t' := by
  have hplaced {mode : Mode} : (mode.placed place).inMargin = mode.inMargin := by cases mode <;> rfl
  have hmargin' : t.mode.inMargin = false := by rw [← hplaced, h.mode, hplaced, hmargin]
  rw [react_emitted hmargin] at hs
  rw [react_emitted hmargin']
  refine outcome_together ?_ hs
  rw [← react_placed (s := { t with emitted := [] }) hmargin',
    ← react_placed (s := { s with emitted := [] }) hmargin]
  simp only [placed, h.position, h.mode]

end Abreast

section Steps

variable {m : Displacement} {before : List Token} {u text : List Char} {s : Scanner} {c : Char}
  {next : Option Char}

lemma emitDedents_moved {closed : List Nat} :
    (s.moved m before u).emitDedents closed = (s.emitDedents closed).moved m before u := by
  unfold emitDedents
  induction closed generalizing s with
  | nil => rfl
  | cons w closed ih => exact ih (s := s.emit .dedent "" s.position)

lemma measure_moved {width : Nat} :
    (s.moved m before u).measure width = (s.measure width).moved m before u := by
  unfold measure
  change (if s.blocks.headD 0 < width then _ else _) = _
  split
  · rfl
  · exact emitDedents_moved (s := { s with blocks := s.blocks.dropWhile (width < ·) })

/-- The outcome of a step so much further down. -/
def movedOutcome (m : Displacement) (before : List Token) (u : List Char)
    (r : Option ScanError × Scanner) :
    Option ScanError × Scanner :=
  (r.1.map (ScanError.moved m), r.2.moved m before u)

lemma moved_eq_placed : s.moved m before u = s.placed (Position.moved m) s.blocks before u := by
  simp only [moved, placed, Mode.moved_eq_placed]
  rfl

lemma movedOutcome_eq_placed {r : Option ScanError × Scanner} :
    movedOutcome m before u r = placedOutcome (Position.moved m) r.2.blocks before u r := by
  simp only [movedOutcome, placedOutcome, moved_eq_placed]
  rfl

lemma fresh_moved :
    (s.moved m before u).fresh c next = movedOutcome m before u (s.fresh c next) := by
  rw [moved_eq_placed, fresh_placed, movedOutcome_eq_placed, blocks_fresh]

lemma mode_moved : (s.moved m before u).mode = s.mode.moved m := rfl

/-- A step is the same further down. -/
lemma react_moved :
    (s.moved m before u).react c next = movedOutcome m before u (s.react c next) := by
  cases hs : s.mode.inMargin with
  | false => rw [moved_eq_placed, react_placed hs, movedOutcome_eq_placed, blocks_react hs]
  | true =>
    obtain ⟨width, hmode⟩ := Mode.inMargin_iff.mp hs
    unfold react
    rw [mode_moved, hmode]
    simp only [Mode.moved]
    split
    · rfl
    split
    · rfl
    split
    · exact fresh_moved
    · rw [measure_moved]
      exact fresh_moved

lemma after_moved {p : Position} : (p.moved m).after c = (p.after c).moved m := by
  unfold Position.after Position.moved
  split <;> simp only [Position.mk.injEq, true_and] <;> omega

lemma past_moved {rest : List Char} :
    (s.moved m before u).past c rest = (s.past c rest).moved m before rest := by
  simp only [past, moved, after_moved]

/-- So is a whole scan. -/
lemma readAll_moved :
    (s.moved m before u).readAll text =
      movedOutcome m before (s.readAll text).2.unread (s.readAll text) := by
  induction text generalizing s u with
  | nil => rfl
  | cons c rest ih =>
    unfold readAll
    rw [react_moved]
    rcases s.react c rest.head? with ⟨none | e, s'⟩
    · simp only [movedOutcome, map_none, past_moved]
      exact ih
    · simp only [movedOutcome, map_some, past_moved]
      rfl

lemma map_stay {tokens : List Token} : tokens.map (Token.moved ⟨0, 0⟩) = tokens := map_id tokens

lemma moved_stay {unread : List Char} :
    s.moved ⟨0, 0⟩ before unread = { s with unread := unread, emitted := s.emitted ++ before } := by
  obtain ⟨_, position, mode, blocks, emitted⟩ := s
  have hmode : mode.moved ⟨0, 0⟩ = mode := by cases mode <;> rfl
  simp only [moved, hmode, map_stay]
  rfl

lemma readAll_unread : { s with unread := u }.readAll text = s.readAll text := by
  have h : (s.moved ⟨0, 0⟩ [] u).readAll text = movedOutcome ⟨0, 0⟩ [] _ (s.readAll text) :=
    readAll_moved
  simp only [moved_stay, movedOutcome, append_nil] at h
  rw [h]
  rcases s.readAll text with ⟨_ | e, s'⟩ <;> rfl

end Steps

section Ends

variable {s : Scanner} {m : Displacement} {before tokens : List Token} {u : List Char}

lemma emitDedents_eq {closed : List Nat} : s.emitDedents closed =
    { s with emitted := List.replicate closed.length ⟨.dedent, "", s.position⟩ ++ s.emitted } := by
  unfold emitDedents
  induction closed generalizing s with
  | nil => rfl
  | cons w closed ih =>
    rw [foldl_cons, ih, length_cons, replicate_succ', append_assoc]
    rfl

/-- The tokens at the end of a text: the ends of its blocks, and the end itself. -/
def closing (s : Scanner) : List Token :=
  List.replicate s.blocks.length ⟨.dedent, "", s.position⟩ ++ [⟨.eof, "", s.position⟩]

/-- A scan ends well outside strings, with these tokens. -/
lemma finish_iff : s.finish.1 = .ok tokens ↔ s.mode.inString = false ∧
    tokens = s.emitted.reverse ++ s.closing := by
  have hclosed :
      (s.close.emit .eof "" s.position).emitted.reverse = s.emitted.reverse ++ s.closing := by
    simp [close, emitDedents_eq, emit, closing]
  unfold finish
  cases s.mode with
  | quoted | escaped => exact ⟨nofun, nofun⟩
  | _ =>
    rw [← hclosed]
    exact ⟨fun h => ⟨rfl, (Except.ok.inj h).symm⟩, fun h => congrArg Except.ok h.2.symm⟩

lemma finish_moved (h : s.finish.1 = .ok tokens) :
    (s.moved m before u).finish.1 = .ok (before.reverse ++ tokens.map (Token.moved m)) := by
  obtain ⟨hmode, rfl⟩ := finish_iff.mp h
  refine finish_iff.mpr ⟨?_, ?_⟩
  · rw [mode_moved, Mode.inString_moved]
    exact hmode
  · simp [closing, moved, Token.moved]

end Ends

end Scanner

end Colloquy
