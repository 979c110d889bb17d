import Colloquy.Grammar.Statement
import Colloquy.Proofs.Grammar.Expression
import Colloquy.Proofs.Grammar.Yield

/-!
# What follows a phrase

An expression on a line of its own is read as the same one in front of other tokens, if no
expression of its level goes on there. Two readers of the phrase are in tandem, and after its last
token both are where the expression ends.
-/

namespace Colloquy

open Grammar Production List Cursor TokenKind

variable {m : Cursor} {ts : List Token}

/-- The words that arguments follow. -/
def TokenKind.opensArguments : TokenKind → Bool
  | .keyword .usingWord | .keyword .withWord => true
  | _ => false

/-- No expression of some level that the phrase can spell goes on here. -/
structure Follows (level : Nat) (phrase : List Token) (m : Cursor) : Prop where
  quits : m.Quits level
  list : (∃ t ∈ phrase, t.kind = .keyword .list) → m.Quiet
  arguments : (∃ t ∈ phrase, t.kind.opensArguments = true) → m.Quits 2 ∧ m.Quiet
  last : (∃ t ∈ phrase.getLast?, t.kind.opensArguments = true) →
  atArgumentBoundary m.here.kind = true

lemma Follows.of_quits {level : Nat} {phrase : List Token}
    (hquits : m.Quits level) (hquiet : m.Quiet)
    (hplain : ∀ t ∈ phrase, t.kind.opensArguments = false) : Follows level phrase m := by
  have hnone {t : Token} (ht : t ∈ phrase) : t.kind.opensArguments ≠ true := by
    rw [hplain t ht]
    exact Bool.false_ne_true
  refine ⟨hquits, fun _ => hquiet, ?_, ?_⟩
  · rintro ⟨t, ht, hopens⟩
    exact (hnone ht hopens).elim
  · rintro ⟨t, ht, hopens⟩
    exact (hnone (mem_of_getLast? ht) hopens).elim

/-- The kinds of tokens that lead to a phrase, stand in front of it and after it. -/
structure Wording where
  first : TokenKind
  front : List TokenKind
  back : List TokenKind

/-- The same tokens of a phrase remain in front of two places, some while a bracket is open. -/
def Sharing (phrase : List Token) (k m : Cursor) (s : Enclosure) (c d : Cursor) : Prop :=
  ∃ ts : List Token, ts <:+ phrase ∧ (s.enclosed = true → ts ≠ []) ∧
  c = k.before ts ∧ d = m.before ts

namespace Ending

variable {k : Ending}

lemma of_kind {P : TokenKind → Prop} (hline : P .newline) (hinput : P .eof) :
    P k.cursor.here.kind := by
  rcases k.isEnd with ⟨hk, _⟩ | ⟨hk, _⟩
  · rw [hk]
    exact hline
  · rw [hk]
    exact hinput

lemma stops : k.cursor.here.kind.stops = true :=
  of_kind (P := fun kind => kind.stops = true) rfl rfl

lemma not_isPlain : k.cursor.here.kind.isPlain = false :=
  of_kind (P := fun kind => kind.isPlain = false) rfl rfl

lemma atArgumentBoundary : Grammar.atArgumentBoundary k.cursor.here.kind = true :=
  of_kind (P := fun kind => Grammar.atArgumentBoundary kind = true) rfl rfl

end Ending

lemma TokenKind.ne_eof_of_isPlain {kind : TokenKind} (h : kind.isPlain = true) : kind ≠ .eof := by
  rintro rfl
  cases h

lemma Cursor.remaining_next_before_lt {o : Cursor} {t : Token} (h : t.kind ≠ .eof) :
    (o.before (t :: ts)).next.remaining < (o.before (t :: ts)).remaining := by
  rw [next_before h, remaining_before, remaining_before, length_cons]
  omega

namespace Sharing

variable {k : Ending} {m c d : Cursor} {s s' : Enclosure} {phrase ts : List Token}
  {t : Token} {level : Nat}

/-- Past a token both readers are on the way, or the first is gone. -/
lemma next (h : t :: ts <:+ phrase) (hne : t.kind ≠ .eof) :
    (k.cursor.before (t :: ts)).next.Gone (some k) s ∨
      Ahead (Sharing phrase k.cursor m s) (k.cursor.before (t :: ts)) (m.before (t :: ts))
        (k.cursor.before (t :: ts)).next (m.before (t :: ts)).next := by
  by_cases hlast : s.enclosed = true ∧ ts = []
  · obtain ⟨hs, rfl⟩ := hlast
    exact .inl ⟨k, rfl, .inr ⟨hs, next_before hne⟩⟩
  · have hrest : ts <:+ phrase := (suffix_cons t ts).trans h
    refine .inr ⟨⟨ts, hrest, fun hs hnil => hlast ⟨hs, hnil⟩, ?_, ?_⟩,
      remaining_next_before_lt hne, remaining_next_before_lt hne⟩
    · exact next_before hne
    · exact next_before hne

lemma past (h : Sharing phrase k.cursor m s c d) (hp : c.here.kind.isPlain = true) :
    c.next.Gone (some k) s' ∨ Ahead (Sharing phrase k.cursor m s') c d c.next d.next := by
  obtain ⟨ts, hts, _, rfl, rfl⟩ := h
  cases ts with
  | nil => cases Ending.not_isPlain.symm.trans hp
  | cons t ts => exact next hts (ne_eof_of_isPlain hp)

lemma cases (h : Sharing phrase k.cursor m s c d) :
    c.here = d.here ∨ c = k.cursor ∧ d = m ∧ s.enclosed = false := by
  obtain ⟨ts, hts, hs, rfl, rfl⟩ := h
  cases ts with
  | nil => exact .inr ⟨rfl, rfl, Bool.eq_false_iff.mpr fun he => hs he rfl⟩
  | cons t ts => exact .inl rfl

lemma tallies (h : c.here = d.here) : c.here.Tallies id id d.here :=
  ⟨by rw [h], by rw [h], by rw [h]⟩

lemma endsAt (hq : m.Quits level) : EndsAt id id (Sharing phrase k.cursor m) s level := by
  intro c d h
  rcases h.cases with heq | ⟨_, rfl, _⟩
  · exact .inl (tallies heq)
  · exact .inr hq

lemma quietAt (hq : m.Quiet) : QuietAt id id (Sharing phrase k.cursor m) s := by
  intro c d h
  rcases h.cases with heq | ⟨_, rfl, _⟩
  · exact .inl (tallies heq)
  · exact .inr hq

lemma mem (h : Sharing phrase k.cursor m s c d) (hp : c.here.kind.isPlain = true) :
    c.here ∈ phrase := by
  obtain ⟨ts, hts, _, rfl, rfl⟩ := h
  cases ts with
  | nil => cases Ending.not_isPlain.symm.trans hp
  | cons t ts => exact hts.mem mem_cons_self

/-- Both readers see the same token ahead, or the phrase ends. -/
lemma peek (h : Sharing phrase k.cursor m s c d) (hp : c.here.kind.isPlain = true) :
    c.next.here = d.next.here ∨ c.here ∈ phrase.getLast? ∧ c.next = k.cursor ∧ d.next = m := by
  obtain ⟨ts, hts, _, rfl, rfl⟩ := h
  cases ts with
  | nil => cases Ending.not_isPlain.symm.trans hp
  | cons t ts =>
    have hne : t.kind ≠ .eof := ne_eof_of_isPlain hp
    rw [next_before hne, next_before hne]
    cases ts with
    | nil =>
      obtain ⟨front, rfl⟩ := hts
      exact .inr ⟨List.getLast?_concat, rfl, rfl⟩
    | cons u us => exact .inl rfl

/-- A reader that skips layout between braces finds a token that the other finds, or the phrase is
over. -/
lemma lands (hs : s.enclosed = true) (hts : ts <:+ phrase) :
    Lands (some k) (Sharing phrase k.cursor m) s (k.cursor.before ts) (m.before ts) := by
  have hend : TokenKind.eof ∉ TokenKind.layout := by decide
  induction ts with
  | nil =>
    refine .inl (.inl ⟨k, rfl, ?_⟩)
    change (k.cursor.pass TokenKind.layout).remaining < _ ∨ _ ∧ k.cursor.pass TokenKind.layout = _
    rcases k.isEnd with ⟨hk, hmore⟩ | ⟨hk, _⟩
    · have hlt := remaining_next_lt (by rw [hk]; rintro ⟨⟩) hmore
      rw [pass_of_contains hend (by rw [hk]; rfl)]
      exact .inl (Nat.lt_of_le_of_lt remaining_pass_le hlt)
    · rw [pass_of_not_contains (by rw [hk]; rfl)]
      exact .inr ⟨hs, rfl⟩
  | cons t ts ih =>
    cases hin : TokenKind.layout.contains t.kind with
    | true =>
      have hne : t.kind ≠ .eof := by
        intro he
        rw [he] at hin
        cases hin
      rw [Lands, pass_of_contains (c := k.cursor.before (t :: ts)) hend hin,
        pass_of_contains (c := m.before (t :: ts)) hend hin,
        next_before hne, next_before hne]
      exact ih ((suffix_cons t ts).trans hts)
    | false =>
      rw [Lands, pass_of_not_contains (c := k.cursor.before (t :: ts)) hin,
        pass_of_not_contains (c := m.before (t :: ts)) hin]
      exact .inr ⟨⟨t :: ts, hts, fun _ => cons_ne_nil t ts, rfl, rfl⟩, rfl⟩

/-- A word is passed by both, or ends the phrase. -/
lemma word (h : Sharing phrase k.cursor m s c d)
    (hw : c.here.text.toList.head?.any Text.isWordStart = true) :
    c.next.Gone (some k) s ∨
      c.here.Tallies id id d.here ∧ Along (Sharing phrase k.cursor m s) c d c.next d.next := by
  obtain ⟨ts, hts, hs, rfl, rfl⟩ := h
  cases ts with
  | nil =>
    change k.cursor.here.text.toList.head?.any Text.isWordStart = true at hw
    rcases k.isEnd with ⟨hk, hmore⟩ | ⟨_, htext⟩
    · have hlt : k.cursor.next.remaining < k.cursor.remaining :=
        remaining_next_lt (by rw [hk]; rintro ⟨⟩) hmore
      exact .inl ⟨k, rfl, .inl hlt⟩
    · rw [htext] at hw
      cases hw
  | cons t ts =>
    by_cases he : t.kind = .eof
    · -- neither reader leaves the end of the input
      have hstay {o : Cursor} : (o.before (t :: ts)).next = o.before (t :: ts) := if_pos he
      refine .inr ⟨tallies rfl, ?_⟩
      rw [hstay, hstay]
      exact .refl ⟨t :: ts, hts, hs, rfl, rfl⟩
    · exact (next hts he).imp_right fun ha => ⟨tallies rfl, ha.along⟩

/-- A phrase is read in tandem in front of an end of a line and of another place where it ends. -/
lemma tandem (hm : Follows level phrase m) : Tandem id id (some k) (Sharing phrase k.cursor m) where
  halt h := by
    rcases h.cases with heq | ⟨rfl, rfl, hs⟩
    · exact .inl (tallies heq)
    · exact .inr ⟨k.stops, fun he => (Bool.false_ne_true (hs.symm.trans he)).elim⟩
  next h _ hp _ := h.past hp
  peek {s c d kind} h _ hs ht := by
    rcases h.peek (isPlain_of_isStep hs).1 with heq | ⟨_, hc, hd⟩
    · rw [heq]
    · have hne : kind.stops = false := not_stops_of_trails ht
      rw [hc, hd]
      refine iff_of_false (ne_of_stops k.stops hne) ?_
      rintro rfl
      cases hm.quits.1.symm.trans ht
  word h hw := h.word hw
  list h hk := quietAt (hm.list ⟨_, h.mem (hk ▸ rfl), hk⟩)
  natural {s c d} h hk := by
    have hopens : c.here.kind.opensArguments = true := by
      rcases hk with hk | hk <;> rw [hk] <;> rfl
    have hp : c.here.kind.isPlain = true := by
      rcases hk with hk | hk <;> rw [hk] <;> rfl
    obtain ⟨hquits, hquiet⟩ := hm.arguments ⟨_, h.mem hp, hopens⟩
    refine .inr ⟨endsAt hquits, quietAt hquiet, ?_⟩
    rcases h.peek hp with heq | ⟨hlast, hc, hd⟩
    · rw [heq]
    · rw [hc, hd, hm.last ⟨_, hlast, hopens⟩, k.atArgumentBoundary]
  comma h hk := (h.past (hk ▸ rfl)).imp_right fun ha => ⟨.inl ha.related, ha.left, ha.right⟩
  opens h hk := by
    obtain ⟨ts, hts, _, rfl, rfl⟩ := h
    cases ts with
    | nil =>
      have hstops := k.stops
      have hk : k.cursor.here.kind = .symbol .leftBrace := hk
      rw [hk] at hstops
      cases hstops
    | cons t ts =>
      have hne : t.kind ≠ .eof := by
        have hk : t.kind = .symbol .leftBrace := hk
        rw [hk]
        rintro ⟨⟩
      refine ⟨?_, remaining_next_before_lt hne, remaining_next_before_lt hne⟩
      rw [next_before hne, next_before hne]
      exact lands rfl ((suffix_cons t ts).trans hts)
  closes h hk _ := h.past (hk ▸ rfl)
  layout h := by
    obtain ⟨ts, hts, _, rfl, rfl⟩ := h
    exact lands rfl hts
  enter h := by
    obtain ⟨ts, hts, _, rfl, rfl⟩ := h
    cases ts with
    | nil => exact .inl ⟨k, rfl, .inr ⟨rfl, rfl⟩⟩
    | cons t ts => exact .inr ⟨t :: ts, hts, fun _ => cons_ne_nil t ts, rfl, rfl⟩
  leave h := by
    obtain ⟨ts, hts, hs, hc, hd⟩ := h
    exact ⟨ts, hts, fun _ => hs rfl, hc, hd⟩

lemma eq_right (h : Sharing phrase k.cursor m s k.cursor d) : d = m := by
  obtain ⟨ts, _, _, hk, rfl⟩ := h
  have hlength := congrArg Cursor.remaining hk
  rw [remaining_before] at hlength
  have hts : ts = [] := length_eq_zero_iff.mp (by omega)
  rw [hts]
  rfl

/-- A phrase is read to its end in front of other tokens. -/
lemma yields {p q : Production Expr} {e : Expr} (h : Yields p phrase e k.cursor)
    (hreads : Sharing phrase k.cursor m .top (k.cursor.before phrase) (m.before phrase) →
      Reads (Cursor.Lost (some k) .top) (Sharing phrase k.cursor m .top)
      (Expr.Like id id) p q (k.cursor.before phrase) (m.before phrase)) : Yields q phrase e m := by
  have hshared : Sharing phrase k.cursor m .top (k.cursor.before phrase) (m.before phrase) :=
    ⟨phrase, suffix_rfl, by rintro ⟨⟩, rfl, rfl⟩
  rcases hreads hshared e k.cursor h with hlost | ⟨e', d, hd, hlike, hnext⟩
  · -- the first reader has stopped at the end of its line
    rcases hlost with ⟨_, hk, hlt | ⟨hs, _⟩⟩ | ⟨hpos, _⟩
    · cases hk
      exact (Nat.lt_irrefl _ hlt).elim
    · cases hs
    · exact (Nat.lt_irrefl 0 hpos).elim
  · have he : e' = e := by rw [hlike.of_id, Expr.mapLine_id]
    rw [he, hnext.related.eq_right] at hd
    exact hd

end Sharing

/-- On a line of its own the phrase is read as this expression, with more rounds than tokens. -/
def Standalone (p : Nat → Production Expr) (phrase : List Token) (e : Expr) : Prop :=
  ∃ (tokens : Nat) (k : Ending), phrase.length + k.cursor.remaining < tokens ∧
  Yields (p tokens) phrase e k.cursor

namespace Standalone

variable {tokens room : Nat} {m : Cursor} {phrase : List Token} {e : Expr}

lemma room_before {more : Nat} {k : Ending} (h : phrase.length + k.cursor.remaining < tokens)
    (h' : phrase.length + m.remaining < more) :
    Room tokens more (k.cursor.before phrase) (m.before phrase) := by
  constructor
  · rw [remaining_before]
    exact h
  · rw [remaining_before]
    exact h'

lemma value (h : Standalone (Grammar.value · room) phrase e) (hm : Follows 0 phrase m)
    (htokens : phrase.length + m.remaining < tokens) :
    Yields (Grammar.value tokens room) phrase e m := by
  obtain ⟨rounds, k, hrounds, hk⟩ := h
  refine Sharing.yields hk fun hshared => ?_
  exact expressionAt_reads (Sharing.tandem hm) (Sharing.endsAt hm.quits) hshared
    (room_before hrounds htokens)

lemma exprAt {level : Level} (h : Standalone (Grammar.exprAt · level room) phrase e)
    (hm : Follows level.rank phrase m) (htokens : phrase.length + m.remaining < tokens) :
    Yields (Grammar.exprAt tokens level room) phrase e m := by
  obtain ⟨rounds, k, hrounds, hk⟩ := h
  refine Sharing.yields hk fun hshared => ?_
  exact (exprAt_tandem (Sharing.tandem hm) rounds tokens).reads level room
    (Sharing.endsAt hm.quits) hshared
    (room_before hrounds htokens)

lemma term
    (h : Standalone (fun tokens => Grammar.term tokens (Grammar.exprAt tokens) room) phrase e)
    (hm : Follows 3 phrase m) (htokens : phrase.length + m.remaining ≤ tokens) :
    Yields (Grammar.term tokens (Grammar.exprAt tokens) room) phrase e m := by
  obtain ⟨rounds, k, hrounds, hk⟩ := h
  refine Sharing.yields hk fun hshared => ?_
  exact term_reads (Sharing.tandem hm) (exprAt_tandem (Sharing.tandem hm) rounds tokens)
    (Sharing.endsAt hm.quits)
    hshared (room_before (Nat.lt_succ_of_lt hrounds) (Nat.lt_succ_of_le htokens))

lemma begins {p : Nat → Production Expr} (h : Standalone p phrase e)
    (hp : ∀ {tokens c}, beginsPhrase c.here.kind = false → Fails (p tokens) c) :
    ∃ t ts, phrase = t :: ts ∧ beginsPhrase t.kind = true := by
  obtain ⟨rounds, k, _, hk⟩ := h
  cases hbegins : beginsPhrase (k.cursor.before phrase).here.kind with
  | false => exact ((hp hbegins).absurd hk).elim
  | true =>
    cases phrase with
    | nil => cases (beginsPhrase_of_stops k.stops).symm.trans hbegins
    | cons t ts => exact ⟨t, ts, rfl, hbegins⟩

end Standalone

/-- A comparison is read as a value where expressions end. -/
lemma Grammar.value_yields_equality {rounds room : Nat} {e : Expr}
    (h : Yields (equality rounds (exprAt rounds) room) ts e m) (hm : m.Quits 0) :
    Yields (value (rounds + 1) (room + 1)) ts e m := by
  have hand : andOperator.run m = (.ok none, m) := by
    rw [andOperator, run_cursor, hm.seesAnd (by decide)]
    rfl
  have hor : orOperator.run m = (.ok none, m) :=
    orOperator_none (hm.joint_ne (by decide) (by decide))
  have hconjunction : Yields (conjunction rounds (exprAt rounds) room) ts e m := by
    rw [← append_nil ts]
    exact .bind h (.iterate_none (operatorRound_none hand))
  have hdisjunction : Yields (disjunction rounds (exprAt rounds) room) ts e m := by
    rw [← append_nil ts]
    exact .bind hconjunction (.iterate_none (operatorRound_none hor))
  exact .nested hdisjunction

end Colloquy
