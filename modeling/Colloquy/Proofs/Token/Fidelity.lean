import Colloquy.Proofs.Token.Continuation
import Mathlib.Data.List.Pairwise

/-!
# Tokens and the text they stand in

The tokens of a text stand in it one after the other, each at its place and with its own characters,
with blanks and comments between them. `Woven` says this from one place on; a scanner holds back
what it has read of a token (`Mode.Keeps`), and with each character it holds back one more or adds a
piece (`Weaves`).
-/

namespace Colloquy

open List Token

/-- The place behind some text: one line further for each line break, one column for each character
after the last. -/
def Position.behind (text : List Char) : Position :=
  ⟨1 + text.count '\n', 1 + (text.reverse.takeWhile (· != '\n')).length, text.length⟩

/-- A text begins with a comment. -/
def OpensComment (text : List Char) : Prop := ['#'] <+: text ∨ ['/', '/'] <+: text

/-- A comment between two offsets, up to the end of its line. -/
structure CommentAt (source : List Char) (start stop : Nat) : Prop where
  opens : OpensComment ((source.take stop).drop start)
  inline : '\n' ∉ (source.take stop).drop start
  ends : source[stop]? = none ∨ source[stop]? = some '\n'

/-- Whether tokens of this kind only mark a place. -/
def TokenKind.isMark : TokenKind → Bool
  | .indent | .dedent | .eof => true
  | _ => false

namespace Token

/-- The offset behind a token. -/
def stop (t : Token) : Nat := t.position.offset + t.text.toList.length

/-- The character at an offset belongs to a token. -/
def Covers (t : Token) (i : Nat) : Prop := t.position.offset ≤ i ∧ i < t.stop

end Token

/-- A comment around an offset, outside all tokens. -/
structure CommentAround (source : List Char) (tokens : List Token) (start stop i : Nat) : Prop where
  start_le : start ≤ i
  lt_stop : i < stop
  comment : CommentAt source start stop
  free : ∀ t ∈ tokens, ∀ j, start ≤ j → j < stop → ¬ t.Covers j

/-- Tokens stand in a text one behind the other, each with its characters and at its place, and only
blanks and comments are between them. -/
structure Faithful (source : List Char) (tokens : List Token) : Prop where
  ordered : tokens.Pairwise fun t u => t.stop ≤ u.position.offset
  written : ∀ t ∈ tokens, t.kind.isMark = false → t.position.offset < t.stop
  text : ∀ t ∈ tokens, (source.drop t.position.offset).take t.text.toList.length = t.text.toList
  gaps : ∀ i c, source[i]? = some c → (∀ t ∈ tokens, t.kind.isMark = false → ¬ t.Covers i) →
    c = ' ' ∨ c = '\t' ∨ c = '\r' ∨ ∃ start stop, CommentAround source tokens start stop i
  place : ∀ t ∈ tokens, t.position = .behind (source.take t.position.offset)

/-- The text behind a front is woven from tokens, blanks and comments. -/
inductive Woven : List Char → List Char → List Token → Prop where
  | nil {front} :
    Woven front [] []
  | blank {front rest tokens c} :
    c = ' ' ∨ c = '\t' ∨ c = '\r' →
    Woven (front ++ [c]) rest tokens →
    Woven front (c :: rest) tokens
  | comment {front rest tokens body} :
    OpensComment body →
    '\n' ∉ body →
    rest.head? = none ∨ rest.head? = some '\n' →
    Woven (front ++ body) rest tokens →
    Woven front (body ++ rest) tokens
  | token {front rest tokens text} {kind : TokenKind} :
    kind.isMark = false →
    text ≠ [] →
    Woven (front ++ text) rest tokens →
    Woven front (text ++ rest) (⟨kind, String.ofList text, .behind front⟩ :: tokens)
  | mark {front rest tokens} {kind : TokenKind} :
    kind.isMark = true →
    Woven front rest tokens →
    Woven front rest (⟨kind, "", .behind front⟩ :: tokens)

lemma Faithful.eq_of_covers {source : List Char} {tokens : List Token} {t u : Token} {i : Nat}
    (h : Faithful source tokens) (ht : t ∈ tokens) (hu : u ∈ tokens) (hti : t.Covers i)
    (hui : u.Covers i) : t = u := by
  have hpairs : tokens.Pairwise fun t u => t.Covers i → u.Covers i → t = u :=
    h.ordered.imp fun hle ht hu => absurd (Nat.lt_of_lt_of_le ht.2 hle) (Nat.not_lt.2 hu.1)
  have hflip : tokens.Pairwise (flip fun t u => t.Covers i → u.Covers i → t = u) :=
    hpairs.imp fun h hu ht => (h ht hu).symm
  exact hpairs.forall_of_forall_of_flip (fun _ _ _ _ => rfl) hflip ht hu hti hui

section Weaving

variable {front rest source : List Char} {tokens : List Token} {least i : Nat}

lemma Position.behind_concat {text : List Char} {c : Char} :
    Position.behind (text ++ [c]) = (Position.behind text).after c := by
  unfold Position.after Position.behind
  by_cases hc : c = '\n'
  · subst hc
    simp [Nat.add_assoc]
  · simp [hc, Nat.add_comm]

lemma Token.stop_ofList {kind : TokenKind} {text : List Char} {p : Position} :
    Token.stop ⟨kind, String.ofList text, p⟩ = p.offset + text.length := by
  simp [Token.stop]

section

variable (h : Woven front rest tokens)
include h

/-- Tokens stand behind the front. -/
lemma Woven.offset_le : ∀ t ∈ tokens, front.length ≤ t.position.offset := by
  induction h with
  | nil => exact fun _ h => nomatch h
  | blank _ _ ih | comment _ _ _ _ ih =>
    intro t ht
    have := ih t ht
    rw [length_append] at this
    omega
  | token _ _ _ ih =>
    refine forall_mem_cons.2 ⟨Nat.le_refl _, fun t ht => ?_⟩
    have := ih t ht
    rw [length_append] at this
    omega
  | mark _ _ ih => exact forall_mem_cons.2 ⟨Nat.le_refl _, ih⟩

/-- Tokens stand one behind the other. -/
lemma Woven.ordered : tokens.Pairwise fun t u => t.stop ≤ u.position.offset := by
  induction h with
  | nil => exact .nil
  | blank _ _ ih | comment _ _ _ _ ih => exact ih
  | token _ _ h ih =>
    refine .cons (fun u hu => ?_) ih
    have := h.offset_le u hu
    rw [length_append] at this
    rw [stop_ofList]
    exact this
  | mark _ h ih => exact .cons h.offset_le ih

lemma Woven.written : ∀ t ∈ tokens, t.kind.isMark = false → t.position.offset < t.stop := by
  induction h with
  | nil => exact fun _ h => nomatch h
  | blank _ _ ih | comment _ _ _ _ ih => exact ih
  | token _ hne _ ih =>
    refine forall_mem_cons.2 ⟨fun _ => ?_, ih⟩
    rw [stop_ofList]
    exact Nat.lt_add_of_pos_right (length_pos_iff.2 hne)
  | mark hk _ ih =>
    refine forall_mem_cons.2 ⟨fun hw => ?_, ih⟩
    cases hk.symm.trans hw

/-- Each token has its characters. -/
lemma Woven.text :
    ∀ t ∈ tokens, ((front ++ rest).drop t.position.offset).take t.text.toList.length =
      t.text.toList := by
  induction h with
  | nil => exact fun _ h => nomatch h
  | blank _ _ ih =>
    rw [append_cons]
    exact ih
  | comment _ _ _ _ ih =>
    rw [← append_assoc]
    exact ih
  | @token front rest tokens text kind _ _ _ ih =>
    refine forall_mem_cons.2 ⟨?_, ?_⟩
    · simp [Position.behind]
    · rw [← append_assoc]
      exact ih
  | mark _ _ ih => exact forall_mem_cons.2 ⟨rfl, ih⟩

/-- Each token is at its line and column. -/
lemma Woven.place :
    ∀ t ∈ tokens, t.position = .behind ((front ++ rest).take t.position.offset) := by
  have here {front rest : List Char} :
      Position.behind front = .behind ((front ++ rest).take (Position.behind front).offset) := by
    simp [Position.behind]
  induction h with
  | nil => exact fun _ h => nomatch h
  | blank _ _ ih =>
    rw [append_cons]
    exact ih
  | comment _ _ _ _ ih =>
    rw [← append_assoc]
    exact ih
  | token _ _ _ ih =>
    refine forall_mem_cons.2 ⟨here, ?_⟩
    rw [← append_assoc]
    exact ih
  | mark _ _ ih => exact forall_mem_cons.2 ⟨here, ih⟩

end

lemma CommentAt.of_append {body : List Char} (hopens : OpensComment body) (hinline : '\n' ∉ body)
    (hends : rest.head? = none ∨ rest.head? = some '\n') :
    CommentAt (front ++ (body ++ rest)) front.length (front.length + body.length) := by
  have hbody :
      ((front ++ (body ++ rest)).take (front.length + body.length)).drop front.length = body := by
    rw [← append_assoc, ← length_append, take_left, drop_left]
  have hnext : (front ++ (body ++ rest))[front.length + body.length]? = rest.head? := by
    rw [← append_assoc, ← length_append,
      List.getElem?_append_right (Nat.le_refl _), Nat.sub_self, List.head?_eq_getElem?]
  exact ⟨hbody.symm ▸ hopens, hbody.symm ▸ hinline, hnext.symm ▸ hends⟩

/-- A character outside tokens: a blank, or part of a comment behind some offset. -/
def Spare (source : List Char) (tokens : List Token) (least i : Nat) (c : Char) : Prop :=
  (c = ' ' ∨ c = '\t' ∨ c = '\r') ∨ ∃ start stop, least ≤ start ∧
  CommentAround source tokens start stop i

lemma Spare.mono {least' : Nat} {c : Char} (h : Spare source tokens least i c)
    (hle : least' ≤ least) : Spare source tokens least' i c := by
  rcases h with hb | ⟨start, stop, hstart, hc⟩
  · exact .inl hb
  · exact .inr ⟨start, stop, Nat.le_trans hle hstart, hc⟩

lemma Spare.cons {c : Char} {t : Token} (h : Spare source tokens least i c)
    (ht : t.stop ≤ least) : Spare source (t :: tokens) least i c := by
  rcases h with hb | ⟨start, stop, hstart, hc⟩
  · exact .inl hb
  · refine .inr ⟨start, stop, hstart, hc.start_le, hc.lt_stop,
      hc.comment, forall_mem_cons.2 ⟨?_, hc.free⟩⟩
    rintro j hj _ ⟨_, hstop⟩
    exact Nat.not_lt.2 (Nat.le_trans ht (Nat.le_trans hstart hj)) hstop

/-- What tokens leave out is blank, or belongs to a comment. -/
lemma Woven.gaps (h : Woven front rest tokens) {c : Char} (hi : front.length ≤ i)
    (hc : (front ++ rest)[i]? = some c)
    (hfree : ∀ t ∈ tokens, t.kind.isMark = false → ¬ t.Covers i) :
    Spare (front ++ rest) tokens front.length i c := by
  induction h with
  | nil =>
    rw [append_nil, List.getElem?_eq_none hi] at hc
    cases hc
  | @blank front rest tokens b hb _ ih =>
    by_cases hhere : i = front.length
    · subst hhere
      rw [List.getElem?_append_right (Nat.le_refl _), Nat.sub_self] at hc
      cases hc
      exact .inl hb
    · rw [append_cons] at hc ⊢
      have hlater : (front ++ [b]).length ≤ i := by
        rw [length_append, length_singleton]
        omega
      exact (ih hlater hc hfree).mono (length_append ▸ Nat.le_add_right _ _)
  | @comment front rest tokens body hopens hinline hends h ih =>
    by_cases hhere : i < front.length + body.length
    · refine .inr ⟨front.length, _, Nat.le_refl _, hi, hhere, .of_append hopens hinline hends, ?_⟩
      -- the tokens come behind the comment
      rintro t ht j _ hj ⟨hle, _⟩
      have hbehind := h.offset_le t ht
      rw [length_append] at hbehind
      omega
    · rw [← append_assoc] at hc ⊢
      have hlater : (front ++ body).length ≤ i := length_append ▸ Nat.le_of_not_lt hhere
      exact (ih hlater hc hfree).mono (length_append ▸ Nat.le_add_right _ _)
  | @token front rest tokens text kind hk _ _ ih =>
    obtain ⟨hself, hfree⟩ := forall_mem_cons.1 hfree
    have hlater : front.length + text.length ≤ i := by
      refine Nat.le_of_not_lt fun hlt => hself hk ⟨hi, ?_⟩
      rw [stop_ofList]
      exact hlt
    rw [← length_append] at hlater
    rw [← append_assoc] at hc ⊢
    refine ((ih hlater hc hfree).cons ?_).mono (length_append ▸ Nat.le_add_right _ _)
    rw [stop_ofList, length_append]
    exact Nat.le_refl _
  | @mark front rest tokens kind hk _ ih =>
    exact (ih hi hc (forall_mem_cons.1 hfree).2).cons (Nat.le_refl _)

lemma Woven.dedents (n : Nat) (h : Woven front rest tokens) :
    Woven front rest (List.replicate n ⟨.dedent, "", .behind front⟩ ++ tokens) := by
  induction n with
  | zero => exact h
  | succ n ih =>
    rw [replicate_succ, cons_append]
    exact .mark rfl ih

/-- A comment is woven in up to the end of its line. -/
lemma Woven.of_comment {held : List Char} (h : OpensComment (held ++ rest)) (hne : held ≠ [])
    (hinline : '\n' ∉ held) (hends : rest.head? = none ∨ rest.head? = some '\n')
    (hw : Woven (front ++ held) rest tokens) :
    Woven front (held ++ rest) tokens := by
  refine .comment ?_ hinline hends hw
  obtain ⟨x, held, rfl⟩ := exists_cons_of_ne_nil hne
  rcases h with h | h
  · exact .inl (cons_prefix_cons.2 ⟨(cons_prefix_cons.1 h).1, nil_prefix⟩)
  · obtain ⟨hx, h⟩ := cons_prefix_cons.1 h
    cases held with
    | nil =>
      -- the second slash would come after the end
      obtain ⟨more, hmore⟩ := h
      rw [← show '/' :: more = rest from hmore] at hends
      rcases hends with hends | hends <;> cases hends
    | cons y held =>
      refine .inr (cons_prefix_cons.2 ⟨hx, cons_prefix_cons.2 ⟨?_, nil_prefix⟩⟩)
      exact (cons_prefix_cons.1 h).1

/-- What is woven is faithful. -/
lemma Woven.faithful (h : Woven [] source tokens) : Faithful source tokens where
  ordered := h.ordered
  written := h.written
  text := h.text
  gaps := by
    intro i c hc hfree
    rcases h.gaps (Nat.zero_le i) hc hfree with (hb | hb | hb) | ⟨start, stop, _, hcomment⟩
    · exact .inl hb
    · exact .inr (.inl hb)
    · exact .inr (.inr (.inl hb))
    · exact .inr (.inr (.inr ⟨start, stop, hcomment⟩))
  place := h.place

end Weaving

/-- What a scanner keeps back behind a front: the comment or token that is under way. -/
def Mode.Keeps (front held rest : List Char) : Mode → Prop
  | .between | .lineStart _ => held = []
  | .comment => OpensComment (held ++ rest) ∧ held ≠ [] ∧ '\n' ∉ held
  | .word start read | .whole start read | .fraction start read =>
    start = .behind front ∧ held = read.reverse ∧ read ≠ []
  | .quoted start quote read | .escaped start quote read =>
    start = .behind front ∧ held = quote :: read.reverse
  | .pair start first _ => start = .behind front ∧ held = [first]

namespace Scanner

/-- A scanner has woven a text up to a front, and keeps back what follows. -/
structure Stands (s : Scanner) (front held rest : List Char) : Prop where
  position : s.position = .behind (front ++ held)
  keeps : s.mode.Keeps front held rest

/-- A scanner reads a character: what is woven from where it stands then is woven, together with the
tokens it emits, from where it stood before. -/
def Weaves (s s' : Scanner) (front held : List Char) (c : Char) (rest : List Char) : Prop :=
  ∃ out front' held', s'.emitted = out.reverse ++ s.emitted ∧
  front' ++ held' = front ++ held ++ [c] ∧
    s'.mode.Keeps front' held' rest ∧
    ∀ more, Woven front' (held' ++ rest) more → Woven front (held ++ c :: rest) (out ++ more)

section Scans

variable {s s' s'' : Scanner} {front held rest : List Char} {c : Char} {tokens : List Token}

lemma opensComment_iff : beginsComment c rest.head? = true ↔ OpensComment (c :: rest) := by
  unfold beginsComment OpensComment
  cases rest with
  | nil => simp [cons_prefix_cons, @eq_comm _ '#' c]
  | cons d rest => simp [cons_prefix_cons, @eq_comm _ '#' c, @eq_comm _ '/' c, @eq_comm _ '/' d]

lemma Weaves.hold (he : s'.emitted = s.emitted) (hk : s'.mode.Keeps front (held ++ [c]) rest) :
    s.Weaves s' front held c rest := by
  refine ⟨[], front, held ++ [c], he, (append_assoc _ _ _).symm, hk, fun more h => ?_⟩
  rw [append_assoc] at h
  exact h

/-- A token that ends is woven in. -/
lemma Weaves.token {t : Token} (he : s'.emitted = t :: s.emitted) (hm : s'.mode = .between)
    (hkind : t.kind.isMark = false) (hplace : t.position = .behind front)
    (htext : t.text.toList = held ++ [c]) :
    s.Weaves s' front held c rest := by
  obtain ⟨kind, text, position⟩ := t
  obtain rfl : text = String.ofList (held ++ [c]) :=
    String.ofList_toList.symm.trans (congrArg String.ofList htext)
  obtain rfl : position = .behind front := hplace
  refine ⟨[_], front ++ held ++ [c], [], he, append_nil _, ?_, fun more h => ?_⟩
  · rw [hm]
    rfl
  · rw [append_cons]
    rw [append_assoc] at h
    exact .token hkind (by simp) h

lemma Weaves.after (before : List Token) (he : s'.emitted = before.reverse ++ s.emitted)
    (hw : ∀ more, Woven (front ++ held) (c :: rest) more →
      Woven front (held ++ c :: rest) (before ++ more))
    (h : s'.Weaves s'' (front ++ held) [] c rest) : s.Weaves s'' front held c rest := by
  obtain ⟨out, front', held', hout, hfront, hk, hmore⟩ := h
  refine ⟨before ++ out, front', held', ?_, ?_, hk, fun more h => ?_⟩
  · rw [hout, he, reverse_append, append_assoc]
  · rw [hfront, append_nil]
  · rw [append_assoc]
    exact hw _ (hmore more h)

lemma isMark_ofWord {word : String} : (TokenKind.ofWord word).isMark = false := by
  unfold TokenKind.ofWord
  split
  · rfl
  split
  · rfl
  split <;> rfl

/-- A character where a token may begin is woven in. -/
lemma fresh_weaves (hp : s.position = .behind front) (h : s.fresh c rest.head? = (none, s')) :
    s.Weaves s' front [] c rest := by
  unfold fresh at h
  dsimp only at h
  split at h
  · rename_i hb
    cases h
    exact ⟨[], front ++ [c], [], rfl, by simp, rfl, fun more hw => .blank hb hw⟩
  split at h
  · rename_i hn
    subst hn
    cases h
    refine ⟨[⟨.newline, String.ofList ['\n'], .behind front⟩],
      front ++ ['\n'], [], ?_, by simp, rfl, fun more hw => ?_⟩
    · rw [hp]
      rfl
    · exact .token rfl (cons_ne_nil _ _) hw
  split at h
  · rename_i hnewline hc
    cases h
    refine .hold rfl ⟨opensComment_iff.1 hc, cons_ne_nil _ _, ?_⟩
    exact fun hm => hnewline (mem_singleton.1 hm).symm
  split at h
  · cases h
    exact .hold rfl ⟨hp, rfl⟩
  split at h
  · cases h
    unfold inWhole
    split
    · exact .hold rfl ⟨hp, rfl, cons_ne_nil _ _⟩
    · exact .token rfl rfl rfl hp (by simp)
  split at h
  · cases h
    unfold inWord
    split
    · exact .hold rfl ⟨hp, rfl, cons_ne_nil _ _⟩
    · exact .token rfl rfl isMark_ofWord hp (by simp)
  split at h
  · cases h
    exact .hold rfl ⟨hp, rfl⟩
  split at h
  · cases h
    exact .token rfl rfl rfl hp (by simp)
  · cases (Prod.mk.inj h).1

/-- Layout is woven in where the scanner stands. -/
lemma measure_marks (width : Nat) (hp : s.position = .behind front) :
    ∃ marks, (s.measure width).emitted = marks.reverse ++ s.emitted ∧
      ∀ rest more, Woven front rest more → Woven front rest (marks ++ more) := by
  unfold measure
  split
  · refine ⟨[⟨.indent, "", .behind front⟩], ?_, fun rest more h => .mark rfl h⟩
    rw [← hp]
    rfl
  · rw [emitDedents_eq, hp]
    refine ⟨List.replicate (s.blocks.takeWhile (width < ·)).length
      ⟨.dedent, "", .behind front⟩, ?_, ?_⟩
    · rw [reverse_replicate]
    · exact fun rest more h => h.dedents _

/-- So is one at the beginning of a line. -/
lemma lineStart_weaves {width : Nat} (hmode : s.mode = .lineStart width)
    (hp : s.position = .behind front) (h : s.react c rest.head? = (none, s')) :
    s.Weaves s' front [] c rest := by
  simp only [react, hmode] at h
  split at h
  · rename_i hc
    cases h
    exact ⟨[], front ++ [c], [], rfl, by simp, by rw [Mode.Keeps], fun more hw =>
      .blank (.inl hc) hw⟩
  split at h
  · rename_i hc
    cases h
    exact ⟨[], front ++ [c], [], rfl, by simp, by rw [Mode.Keeps], fun more hw =>
      .blank (.inr (.inl hc)) hw⟩
  split at h
  · exact fresh_weaves hp h
  · obtain ⟨marks, hmarks, hwoven⟩ := measure_marks width hp
    refine .after marks hmarks ?_ (fresh_weaves ?_ h)
    · rw [append_nil]
      exact hwoven _
    · rw [append_nil, measure_extends.position]
      exact hp

/-- So is one in a comment. -/
lemma comment_weaves (hmode : s.mode = .comment) (hs : s.Stands front held (c :: rest))
    (h : s.react c rest.head? = (none, s')) : s.Weaves s' front held c rest := by
  obtain ⟨hp, hk⟩ := hs
  rw [hmode] at hk
  obtain ⟨hopens, hne, hinline⟩ := hk
  simp only [react, hmode] at h
  split at h
  · rename_i hc
    subst hc
    exact .after [] rfl (fun more hw => .of_comment hopens hne hinline (.inr rfl) hw)
      (fresh_weaves hp h)
  · rename_i hc
    cases h
    refine .hold rfl ?_
    rw [hmode]
    refine ⟨?_, by simp, ?_⟩
    · rw [append_assoc]
      exact hopens
    · simp [hinline, Ne.symm hc]

/-- So is one in a number. -/
lemma whole_weaves {start : Position} {read : List Char} (hmode : s.mode = .whole start read)
    (hs : s.Stands front held (c :: rest)) (h : s.react c rest.head? = (none, s')) :
    s.Weaves s' front held c rest := by
  obtain ⟨hp, hk⟩ := hs
  rw [hmode] at hk
  obtain ⟨rfl, rfl, hne⟩ := hk
  simp only [react, hmode] at h
  split at h
  · cases h
    unfold inWhole
    split
    · exact .hold rfl ⟨rfl, by simp, cons_ne_nil _ _⟩
    · exact .token rfl rfl rfl rfl (by simp)
  split at h
  · cases h
    exact .hold rfl ⟨rfl, by simp, cons_ne_nil _ _⟩
  · -- the number has ended before the point
    have hweaves := fresh_weaves (s := s.emitNumber (.behind front) read) hp h
    refine .after [⟨.number (numberOf read.reverse), String.ofList read.reverse,
      .behind front⟩] rfl ?_ hweaves
    exact fun more hw => .token rfl (by simpa using hne) hw

/-- Each character is woven in or kept back. -/
lemma react_weaves (hs : s.Stands front held (c :: rest))
    (h : s.react c rest.head? = (none, s')) : s.Weaves s' front held c rest := by
  cases hmode : s.mode with
  | comment => exact comment_weaves hmode hs h
  | whole start read => exact whole_weaves hmode hs h
  | between =>
    obtain ⟨hp, hk⟩ := hs
    rw [hmode] at hk
    obtain rfl : held = [] := hk
    rw [append_nil] at hp
    simp only [react, hmode] at h
    exact fresh_weaves hp h
  | lineStart width =>
    obtain ⟨hp, hk⟩ := hs
    rw [hmode] at hk
    obtain rfl : held = [] := hk
    rw [append_nil] at hp
    exact lineStart_weaves hmode hp h
  | word start read =>
    rw [react, hmode] at h
    obtain ⟨rfl, rfl, hne⟩ := hmode ▸ hs.keeps
    cases h
    unfold inWord
    split
    · exact .hold rfl ⟨rfl, by simp, cons_ne_nil _ _⟩
    · exact .token rfl rfl isMark_ofWord rfl (by simp)
  | fraction start read =>
    rw [react, hmode] at h
    obtain ⟨rfl, rfl, hne⟩ := hmode ▸ hs.keeps
    cases h
    unfold inFraction
    split
    · exact .hold rfl ⟨rfl, by simp, cons_ne_nil _ _⟩
    · exact .token rfl rfl rfl rfl (by simp)
  | quoted start quote read =>
    simp only [react, hmode] at h
    obtain ⟨rfl, rfl⟩ := hmode ▸ hs.keeps
    split at h
    · rename_i hc
      subst hc
      cases h
      exact .token rfl rfl rfl rfl (by simp)
    split at h
    · cases h
      exact .hold rfl ⟨rfl, by simp⟩
    · cases h
      exact .hold rfl ⟨rfl, by simp⟩
  | escaped start quote read =>
    rw [react, hmode] at h
    obtain ⟨rfl, rfl⟩ := hmode ▸ hs.keeps
    cases h
    exact .hold rfl ⟨rfl, by simp⟩
  | pair start first sign =>
    rw [react, hmode] at h
    obtain ⟨rfl, rfl⟩ := hmode ▸ hs.keeps
    cases h
    exact .token rfl rfl rfl rfl (by simp)

/-- A text is woven from the tokens that a scan of it adds. -/
lemma readAll_woven {text : List Char} (hs : s.Stands front held text) (hf : s.mode.Fits text.head?)
    (h : s.readAll text = (none, s')) (hfinish : s'.finish.1 = .ok tokens) :
    ∃ out, tokens = s.emitted.reverse ++ out ∧ Woven front (held ++ text) out := by
  induction text generalizing s front held with
  | nil =>
    obtain ⟨_, rfl⟩ := Prod.mk.inj h
    obtain ⟨hstring, rfl⟩ := finish_iff.mp hfinish
    refine ⟨s.closing, rfl, ?_⟩
    have hclosing : Woven (front ++ held) [] s.closing := by
      unfold closing
      rw [hs.position]
      have heof : Woven (front ++ held) [] [⟨.eof, "", .behind (front ++ held)⟩] := .mark rfl .nil
      exact heof.dedents _
    have hk := hs.keeps
    cases hmode : s.mode with
    | between | lineStart =>
      rw [hmode] at hk
      obtain rfl : held = [] := hk
      rw [append_nil] at hclosing
      exact hclosing
    | comment =>
      rw [hmode] at hk
      obtain ⟨hopens, hne, hinline⟩ := hk
      exact .of_comment hopens hne hinline (.inl rfl) hclosing
    | _ =>
      -- a token that is still under way would go on after the end
      have hholds : s.mode.holds = false := not_holds_of_fits hf hstring
      rw [hmode] at hholds
      cases hholds
  | cons c rest ih =>
    obtain ⟨s1, hreact, h⟩ := readAll_cons_inv h
    have hr : s.Reacts c rest.head? (none, s1) := hreact ▸ react_reacts hf
    obtain ⟨out, front', held', hout, hfront, hkeeps, hmore⟩ := react_weaves hs hreact
    have hposition : (s1.past c rest).position = .behind (front' ++ held') := by
      rw [hfront, Position.behind_concat, ← hs.position, ← hr.extends.position]
      rfl
    obtain ⟨more, htokens, hwoven⟩ := ih (s := s1.past c rest) ⟨hposition, hkeeps⟩ hr.fits h
    refine ⟨out ++ more, ?_, hmore more hwoven⟩
    rw [htokens, ← append_assoc]
    change s1.emitted.reverse ++ more = _
    rw [hout, reverse_append, reverse_reverse]

end Scans

end Scanner

section Texts

variable {source : String} {tokens : List Token}

lemma tokenize_woven (h : tokenize source = .ok tokens) : Woven [] source.toList tokens := by
  obtain ⟨s, hread, hfinish⟩ := Scanner.tokenize_iff.mp h
  have hstart : (Scanner.start source.toList).Stands [] [] source.toList := ⟨rfl, rfl⟩
  obtain ⟨out, htokens, hwoven⟩ := Scanner.readAll_woven hstart trivial hread hfinish
  rw [htokens]
  exact hwoven

end Texts

/-- The tokens of a text stand in it one behind the other, without overlap, each with its characters
and at its line and column, and every character of none of them is blank or part of a comment. -/
theorem tokenize_faithful {source : String} {tokens : List Token}
    (h : tokenize source = .ok tokens) :
    Faithful source.toList tokens := (tokenize_woven h).faithful

/-- A string over two lines, comments of both kinds, a tab, and a number before a point. -/
def dappled : String := "say 'a\nb' // c\n# d\n\tset x.y to 3.z\r\n"

/-- Lines are counted inside the string, and the point is not part of the number. -/
theorem dappled_faithful : ∃ tokens, tokenize dappled = .ok tokens ∧
    (tokens.filter fun t => !t.kind.isMark).map (fun t =>
    (t.text, t.line, t.column, t.position.offset)) =
      [("say", 1, 1, 0), ("'a\nb'", 1, 5, 4), ("\n", 2, 8, 14),
      ("\n", 3, 4, 18), ("set", 4, 2, 20), ("x", 4, 6, 24),
        (".", 4, 7, 25), ("y", 4, 8, 26), ("to", 4, 10, 28),
        ("3", 4, 13, 31), (".", 4, 14, 32), ("z", 4, 15, 33), ("\n", 4, 17, 35)] ∧
    Faithful dappled.toList tokens := by
  have hread : (tokenize dappled).toOption.map (fun tokens =>
      (tokens.filter fun t => !t.kind.isMark).map fun t =>
      (t.text, t.line, t.column, t.position.offset)) =
      some [("say", 1, 1, 0), ("'a\nb'", 1, 5, 4), ("\n", 2, 8, 14),
      ("\n", 3, 4, 18), ("set", 4, 2, 20), ("x", 4, 6, 24),
        (".", 4, 7, 25), ("y", 4, 8, 26), ("to", 4, 10, 28),
        ("3", 4, 13, 31), (".", 4, 14, 32), ("z", 4, 15, 33),
        ("\n", 4, 17, 35)] := by decide +kernel
  obtain ⟨tokens, htokens, htexts⟩ := exists_ok hread
  exact ⟨tokens, htokens, htexts, tokenize_faithful htokens⟩

end Colloquy
