import Colloquy.Proofs.Grammar.Settling

/-!
# Two readers in tandem

Two readers of expressions stand before the same tokens, and yet the rows may differ where no
expression goes on. `Tandem` says what a correspondence of cursors has to provide for expressions to
be read alike, and `EndsAt` at which levels they end where the rows part. It is indexed by the
`Enclosure` of the readers: only between braces is the layout skipped.
-/

namespace Colloquy

open Production Grammar Cursor TokenKind Option Bool

/-- The same word or sign, at lines that are sent to the same number. -/
structure Token.Tallies (f g : Nat → Nat) (t u : Token) : Prop where
  kind : u.kind = t.kind
  text : u.text = t.text
  line : f t.line = g u.line

namespace TokenKind

/-- The kinds of tokens at which every expression ends. -/
def stops : TokenKind → Bool
  | .newline | .indent | .dedent | .eof | .symbol .rightBrace => true
  | _ => false

/-- The kinds of tokens between which a record can be broken. -/
def isHinge : TokenKind → Bool
  | .symbol .comma | .symbol .leftBrace | .symbol .rightBrace => true
  | _ => false

/-- The kinds of tokens that two readers pass together. -/
def isStep (kind : TokenKind) : Bool := kind.isPlain && !kind.isHinge && !kind.stops

/-- The words that need the word before them to mean something. -/
def trails : TokenKind → Bool
  | .keyword .byWord | .keyword .of | .keyword .store => true
  | .keyword .equal | .keyword .more | .keyword .less => true
  | _ => false

/-- The kinds of tokens that a reader of some level looks for at an end. -/
def heeded (level : Nat) (kind : TokenKind) : Bool :=
  kind.trails || (joint kind).any (level ≤ ·) && kind ≠ .keyword .and

lemma not_stops_of_heeded {level : Nat} {kind : TokenKind} (h : kind.heeded level = true) :
    kind.stops = false := by
  unfold stops
  split <;> first | rfl | cases h

lemma not_stops_of_trails {kind : TokenKind} (h : kind.trails = true) : kind.stops = false := by
  unfold stops
  split <;> first | rfl | cases h

end TokenKind

/-- How many braces are open at a place, and whether any bracket is. -/
structure Enclosure where
  braces : Nat
  enclosed : Bool

namespace Enclosure

/-- Outside all brackets. -/
def top : Enclosure := ⟨0, false⟩

/-- Between brackets. -/
def inside (s : Enclosure) : Enclosure := ⟨s.braces, true⟩

/-- Between one more pair of braces. -/
def inBraces (s : Enclosure) : Enclosure := ⟨s.braces + 1, true⟩

end Enclosure

/-- A cursor at the end of a line or of the input. -/
structure Ending where
  cursor : Cursor
  isEnd : cursor.here.kind = .newline ∧ cursor.ahead ≠ [] ∨
  cursor.here.kind = .eof ∧ cursor.here.text = ""

namespace Cursor

variable {c c' : Cursor} {place : Option Ending} {s s' : Enclosure}
  {level n : Nat} {kind : TokenKind}

/-- A reader has passed the end of a phrase, or is there while a bracket is open. -/
def Gone (place : Option Ending) (s : Enclosure) (c : Cursor) : Prop :=
  ∃ k ∈ place, c.remaining < k.cursor.remaining ∨ s.enclosed = true ∧ c = k.cursor

/-- A reader is gone, or between braces where nothing can be read. -/
def Lost (place : Option Ending) (s : Enclosure) (c : Cursor) : Prop :=
  c.Gone place s ∨ 0 < s.braces ∧ c.Dead

/-- Every expression ends here, also before `and store`. -/
def Halts (c : Cursor) : Prop :=
  c.here.kind.stops = true ∨ c.here.kind = .keyword .and ∧ c.seesNext (.keyword .store) = true

/-- Every expression of some level ends here. -/
def Quits (level : Nat) (c : Cursor) : Prop :=
  c.here.kind.trails = false ∧
  (Stops level c.here.kind ∨ c.here.kind = .keyword .and ∧ seesAnd c = false)

/-- No further argument and no further element comes here. -/
def Quiet (c : Cursor) : Prop := c.here.kind ≠ .symbol .comma ∧ seesAnd c = false

section Losing

variable {α : Type} {p : Production α} {a : α}

lemma not_gone : ¬ c.Gone none s := by
  rintro ⟨k, hk, _⟩
  cases hk

lemma Gone.keep [hp : Walks p] (h : c.Gone place s) (hr : p.run c = (.ok a, c')) :
    c'.Gone place s := by
  obtain ⟨k, hk, hlt | ⟨hs, rfl⟩⟩ := h
  · exact ⟨k, hk, .inl (hp.remaining_lt hr hlt)⟩
  · rcases hp.onward hr with rfl | hlt
    · exact ⟨k, hk, .inr ⟨hs, rfl⟩⟩
    · exact ⟨k, hk, .inl hlt⟩

lemma Gone.leave [hp : Barred p] (h : c.Gone place s) (hr : p.run c = (.ok a, c')) :
    c'.Gone place s' := by
  obtain ⟨k, hk, hlt | ⟨_, rfl⟩⟩ := h
  · exact ⟨k, hk, .inl (hp.remaining_lt hr hlt)⟩
  · rcases k.isEnd with ⟨_, hmore⟩ | ⟨heof, _⟩
    · exact ⟨k, hk, .inl (hp.moves hmore hr)⟩
    · exact ((hp.fails (.inl heof)).absurd hr).elim

lemma Lost.keep [hp : Settled p] (h : c.Lost place s) (hr : p.run c = (.ok a, c')) :
    c'.Lost place s := by
  rcases h with hg | ⟨hs, hd⟩
  · exact .inl (hg.keep hr)
  · rw [hp.stuck hd hr]
    exact .inr ⟨hs, hd⟩

lemma Lost.leave [hp : Barred p] (h : c.Lost place s) (hr : p.run c = (.ok a, c')) :
    c'.Lost place s' := by
  rcases h with hg | ⟨_, hd⟩
  · exact .inl (hg.leave hr)
  · exact ((hp.fails hd).absurd hr).elim

lemma not_lost : ¬ c.Lost none .top := by
  rintro (h | ⟨h, _⟩)
  · exact not_gone h
  · exact Nat.lt_irrefl 0 h

end Losing

lemma joint_of_stops (h : kind.stops = true) : joint kind = none := by
  unfold TokenKind.stops at h
  split at h <;> first | rfl | cases h

lemma joint_ne_of_stops (h : c.here.kind.stops = true) : joint c.here.kind ≠ some n := by
  rw [joint_of_stops h]
  rintro ⟨⟩

lemma beginsPhrase_of_stops (h : kind.stops = true) : beginsPhrase kind = false := by
  unfold TokenKind.stops at h
  split at h <;> first | rfl | cases h

lemma ne_of_stops (h : c.here.kind.stops = true) (hk : kind.stops = false) :
    c.here.kind ≠ kind := by
  rintro rfl
  cases hk.symm.trans h

lemma seesAnd_of_stops (h : c.here.kind.stops = true) : seesAnd c = false := by
  rw [seesAnd, Cursor.sees, decide_eq_false (ne_of_stops h rfl), Bool.false_and]

lemma Halts.quits (h : c.Halts) : c.Quits level := by
  rcases h with hs | ⟨hk, hs⟩
  · refine ⟨?_, .inl (stops_of_joint_none (joint_of_stops hs))⟩
    cases ht : c.here.kind.trails with
    | false => rfl
    | true => cases (not_stops_of_trails ht).symm.trans hs
  · refine ⟨by rw [hk]; rfl, .inr ⟨hk, ?_⟩⟩
    rw [seesAnd, hs, Bool.not_true, Bool.and_false]

lemma Halts.quiet (h : c.Halts) : c.Quiet := by
  rcases h with hs | ⟨hk, hs⟩
  · exact ⟨ne_of_stops hs rfl, seesAnd_of_stops hs⟩
  · refine ⟨by rw [hk]; rintro ⟨⟩, ?_⟩
    rw [seesAnd, hs, Bool.not_true, Bool.and_false]

lemma Halts.ne (h : c.Halts) (hk : kind.stops = false) (ha : kind ≠ .keyword .and) :
    c.here.kind ≠ kind := by
  rcases h with hs | ⟨hand, _⟩
  · exact ne_of_stops hs hk
  · rw [hand]
    exact ha.symm

lemma Quits.mono (h : c.Quits level) (hle : level ≤ n) : c.Quits n :=
  ⟨h.1, h.2.imp_left fun hs => hs.mono hle⟩

lemma Quits.ne (h : c.Quits level) (hk : kind.heeded level = true) : c.here.kind ≠ kind := by
  rintro rfl
  simp only [TokenKind.heeded, or_eq_true, and_eq_true, any_eq_true, decide_eq_true_eq] at hk
  rcases hk with ht | ⟨⟨j, hj, hle⟩, hand⟩
  · cases h.1.symm.trans ht
  · rcases h.2 with hs | ⟨hk, _⟩
    · exact Nat.not_lt_of_le hle (hs j hj)
    · exact hand hk

lemma Quits.joint_ne (h : c.Quits level) (hle : level ≤ n) (hn : n ≠ 1) :
    joint c.here.kind ≠ some n := by
  intro hj
  rcases h.2 with hs | ⟨hand, _⟩
  · exact Nat.not_lt_of_le hle (hs n hj)
  · rw [hand] at hj
    exact hn (Option.some.inj hj).symm

lemma Quits.stops (h : c.Quits level) (hle : level ≤ n) (hn : 1 < n) : Stops n c.here.kind := by
  rcases h.2 with hs | ⟨hand, _⟩
  · exact hs.mono hle
  · intro j hj
    rw [hand] at hj
    cases hj
    exact hn

lemma Quits.seesAnd (h : c.Quits level) (hle : level ≤ 1) : seesAnd c = false := by
  rcases h.2 with hs | ⟨_, hand⟩
  · rw [Grammar.seesAnd, not_sees (joint_not (hs.mono hle)) rfl, Bool.false_and]
  · exact hand

end Cursor

section Relations

variable (f g : Nat → Nat) (place : Option Ending)
  (R : Enclosure → Cursor → Cursor → Prop) (s : Enclosure)

/-- Two readers stand before tokens of the same kind. -/
def Flush (c d : Cursor) : Prop := R s c d ∧ d.here.kind = c.here.kind

/-- Past the layout both stand before the same token, or the first is lost. -/
def Lands (c d : Cursor) : Prop :=
  (c.pass TokenKind.layout).Lost place s ∨ Flush R s (c.pass TokenKind.layout)
  (d.pass TokenKind.layout)

/-- Where the rows part, expressions of some level end in the second. -/
def EndsAt (level : Nat) : Prop :=
  ∀ ⦃c d : Cursor⦄, R s c d → c.here.Tallies f g d.here ∨ d.Quits level

/-- Where the rows part, no argument or element comes in the second. -/
def QuietAt : Prop := ∀ ⦃c d : Cursor⦄, R s c d → c.here.Tallies f g d.here ∨ d.Quiet

/-- A correspondence under which expressions are read alike, as far as they end where the rows
part. -/
structure Tandem : Prop where
  halt {s : Enclosure} {c d : Cursor} : R s c d →
    c.here.Tallies f g d.here ∨ c.here.kind.stops = true ∧ (s.enclosed = true → d.Halts)
  next {s : Enclosure} {c d : Cursor} : R s c d → d.here.kind = c.here.kind →
    c.here.kind.isPlain = true →
    c.here.kind.isHinge = false → c.next.Gone place s ∨ Ahead (R s) c d c.next d.next
  peek {s : Enclosure} {c d : Cursor} {kind : TokenKind} : R s c d → d.here.kind = c.here.kind →
    c.here.kind.isStep = true → kind.trails = true →
    (c.next.here.kind = kind ↔ d.next.here.kind = kind)
  word {s : Enclosure} {c d : Cursor} : R s c d →
  c.here.text.toList.head?.any Text.isWordStart = true →
    c.next.Gone place s ∨ c.here.Tallies f g d.here ∧ Along (R s) c d c.next d.next
  list {s : Enclosure} {c d : Cursor} : R s c d → c.here.kind = .keyword .list → QuietAt f g R s
  natural {s : Enclosure} {c d : Cursor} : R s c d → c.here.kind = .keyword .usingWord ∨
  c.here.kind = .keyword .withWord →
    c.next.Gone place s ∨ EndsAt f g R s 2 ∧ QuietAt f g R s ∧
      atArgumentBoundary d.next.here.kind = atArgumentBoundary c.next.here.kind
  comma {s : Enclosure} {c d : Cursor} : R s c d → c.here.kind = .symbol .comma →
    c.next.Gone place s ∨
      Ahead (fun c d => R s c d ∨ 0 < s.braces ∧ c.Heading ∧ Lands place R s c d) c d c.next d.next
  opens {s : Enclosure} {c d : Cursor} : R s c d → c.here.kind = .symbol .leftBrace →
    Ahead (Lands place R s.inBraces) c d c.next d.next
  closes {s : Enclosure} {c d : Cursor} : R s.inBraces c d → c.here.kind = .symbol .rightBrace →
    d.here.kind = .symbol .rightBrace → c.next.Gone place s ∨ Ahead (R s) c d c.next d.next
  layout {s : Enclosure} {c d : Cursor} : R s.inBraces c d → Lands place R s.inBraces c d
  enter {s : Enclosure} {c d : Cursor} : R s c d → c.Gone place s.inside ∨ R s.inside c d
  leave {s : Enclosure} {c d : Cursor} : R s.inside c d → R s c d

end Relations

lemma TokenKind.isPlain_of_isStep {kind : TokenKind} (h : kind.isStep = true) :
    kind.isPlain = true ∧ kind.isHinge = false ∧ kind.stops = false := by
  simp only [TokenKind.isStep, and_eq_true, not_eq_true'] at h
  exact ⟨h.1.1, h.1.2, h.2⟩

/-- Readers whose tokens differ in lines only are in tandem. -/
lemma Alike.tandem {f : Nat → Nat} {R : Cursor → Cursor → Prop} (h : Alike f R) :
    Tandem f id none fun _ => R := by
  have htallies {c d : Cursor} (hR : R c d) : c.here.Tallies f id d.here :=
    ⟨h.kind hR, h.text hR, (h.line hR).symm⟩
  have hlands {s : Enclosure} {c d : Cursor} (hR : R c d) :
      Lands none (fun _ => R) s.inBraces c d := by
    rcases h.layout hR with he | ha
    · exact .inl (.inr ⟨Nat.succ_pos _, .inl he⟩)
    · exact .inr ⟨ha.related, h.kind ha.related⟩
  have hnext {c d : Cursor} {kind : TokenKind} (hR : R c d)
    (hk : c.here.kind = kind) (hp : kind.isPlain = true) :
      Ahead R c d c.next d.next := h.next hR (hk ▸ hp)
  refine {
    halt := fun hR => .inl (htallies hR)
    next := fun hR _ hp _ => .inr (h.next hR hp)
    peek := fun hR _ hs _ => by rw [h.kind (h.next hR (isPlain_of_isStep hs).1).related]
    word := fun hR hw => .inr ⟨htallies hR, h.word hR hw⟩
    list := fun _ _ _ _ hR => .inl (htallies hR)
    natural :=
  fun hR hk => .inr ⟨fun _ _ hR => .inl (htallies hR), fun _ _ hR => .inl (htallies hR), ?_⟩
    comma :=
  fun hR hk => .inr ⟨.inl (hnext hR hk rfl).related, (hnext hR hk rfl).left,
    (hnext hR hk rfl).right⟩
    opens :=
  fun hR hk => ⟨hlands (hnext hR hk rfl).related, (hnext hR hk rfl).left, (hnext hR hk rfl).right⟩
    closes := fun hR hk _ => .inr (hnext hR hk rfl)
    layout := hlands
    enter := .inr
    leave := id }
  rcases hk with hk | hk
  · rw [h.kind (hnext hR hk rfl).related]
  · rw [h.kind (hnext hR hk rfl).related]

namespace Production

variable {α β γ ε σ τ : Type} {place : Option Ending} {s s' : Enclosure} {rel : α → β → Prop}
  {rel' : γ → ε → Prop} {post : α → Cursor → Cursor → Prop} {mid : γ → Cursor → Cursor → Prop}
  {lost : Cursor → Prop} {R : Cursor → Cursor → Prop} {c d : Cursor} {p : Production α}
  {q : Production β} {r : γ → Production α} {t : ε → Production β}

lemma Concurs.of_gone [Walks p]
    (hl : ∀ {c : Cursor}, c.Gone place s → lost c) (h : c.Gone place s) :
    Concurs lost rel post p q c d :=
  fun _ _ hr => .inl (hl (h.keep hr))

lemma Concurs.of_gone_leave [Barred p] (h : c.Gone place s) :
    Concurs (Lost place s') rel post p q c d := fun _ _ hr => .inl (.inl (h.leave hr))

lemma Concurs.and_then {p : Production γ} {q : Production ε}
    [∀ x, Settled (r x)] (h : Concurs (Lost place s) rel' mid p q c d)
    (hrest : ∀ x y c' d', rel' x y → mid x c' d' →
      Concurs (Lost place s) rel post (r x) (t y) c' d') :
    Concurs (Lost place s) rel post (p >>= r) (q >>= t) c d :=
  h.bind_lost (fun _ _ _ _ hl hr => hl.keep hr) hrest

lemma Concurs.and_leave {p : Production γ} {q : Production ε}
    [∀ x, Barred (r x)] (h : Concurs (Lost place s) rel' mid p q c d)
    (hrest : ∀ x y c' d', rel' x y → mid x c' d' →
      Concurs (Lost place s') rel post (r x) (t y) c' d') :
    Concurs (Lost place s') rel post (p >>= r) (q >>= t) c d :=
  h.bind_lost (fun _ _ _ _ hl hr => hl.leave hr) hrest

lemma Concurs.loop {rel : σ → τ → Prop} {step : σ → Production (Option σ)}
    {step' : τ → Production (Option τ)} {rounds rounds' : Nat} {x : σ} {y : τ}
    [∀ x, Settled (step x)] (hxy : rel x y) (hR : R c d) (hroom : Room rounds rounds' c d)
    (hstep : ∀ x y c' d', rel x y → Along R c d c' d' →
      Concurs (Lost place s) (Rel rel) (Round R R c' d') (step x) (step' y) c' d') :
    Passes (Lost place s) R rel (Production.iterate step rounds x)
    (Production.iterate step' rounds' y) c d :=
  .iterate_lost hxy hR hroom (fun _ _ _ _ hl hr => hl.keep hr) hstep

lemma Heads.concurs (h : Heads p) (hs : 0 < s.braces) (hc : c.Heading) :
    Concurs (Lost place s) rel post p q c d := by
  intro a c' hr
  rw [h hc hr]
  exact .inl (.inr ⟨hs, hc.dead⟩)

lemma Concurs.rest {rel : σ → τ → Prop} {p : Production (Option σ)} {q : Production (Option τ)}
    (hp : p.run c = (.ok none, c)) (hq : q.run d = (.ok none, d)) (h : R c d) :
    Concurs lost (Rel rel) (Round R R c d) p q c d :=
  .of_runs hp hq .none (.refl h)

end Production

namespace EndsAt

variable {f g : Nat → Nat} {R : Enclosure → Cursor → Cursor → Prop} {s : Enclosure} {m n : Nat}

lemma mono (h : EndsAt f g R s m) (hle : m ≤ n) : EndsAt f g R s n :=
  fun _ _ hR => (h hR).imp_right fun hd => hd.mono hle

end EndsAt

namespace Tandem

variable {α β : Type} {f g : Nat → Nat} {place : Option Ending}
  {R : Enclosure → Cursor → Cursor → Prop} {s : Enclosure} {level : Nat} {rel : α → β → Prop}
  {post : α → Cursor → Cursor → Prop} {lost : Cursor → Prop} {c d : Cursor} {kind next : TokenKind}
  (hT : Tandem f g place R)

include hT

lemma tallies (h : R s c d) (hk : c.here.kind.stops = false) : c.here.Tallies f g d.here := by
  rcases hT.halt h with ht | ⟨hs, _⟩
  · exact ht
  · cases hk.symm.trans hs

lemma ends (he : EndsAt f g R s level) (h : R s c d) :
    c.here.Tallies f g d.here ∨ c.here.kind.stops = true ∧ d.Quits level := by
  rcases hT.halt h with ht | ⟨hs, _⟩
  · exact .inl ht
  · exact (he h).imp_right fun hd => ⟨hs, hd⟩

lemma endsAt_enclosed (hs : s.enclosed = true) : EndsAt f g R s level :=
  fun _ _ h => (hT.halt h).imp_right fun hd => (hd.2 hs).quits

lemma kind_iff (he : EndsAt f g R s level) (h : R s c d) (hk : kind.heeded level = true) :
    c.here.kind = kind ↔ d.here.kind = kind := by
  rcases hT.ends he h with ht | ⟨hs, hd⟩
  · rw [ht.kind]
  · exact iff_of_false (ne_of_stops hs (not_stops_of_heeded hk)) (hd.ne hk)

lemma kind_iff_enclosed (hs : s.enclosed = true) (h : R s c d) (hk : kind.stops = false)
    (ha : kind ≠ .keyword .and) :
    c.here.kind = kind ↔ d.here.kind = kind := by
  rcases hT.halt h with ht | ⟨hc, hd⟩
  · rw [ht.kind]
  · exact iff_of_false (ne_of_stops hc hk) ((hd hs).ne hk ha)

lemma comma_iff (hq : QuietAt f g R s) (h : R s c d) :
    c.here.kind = .symbol .comma ↔ d.here.kind = .symbol .comma := by
  rcases hT.halt h with ht | ⟨hs, _⟩
  · rw [ht.kind]
  · rcases hq h with ht | hd
    · rw [ht.kind]
    · exact iff_of_false (ne_of_stops hs rfl) hd.1

lemma past (h : R s c d) (hk : c.here.kind = kind) (hs : kind.isStep = true) :
    c.next.Gone place s ∨ Ahead (R s) c d c.next d.next := by
  obtain ⟨hplain, hhinge, hstops⟩ := isPlain_of_isStep (hk ▸ hs)
  exact hT.next h (hT.tallies h hstops).kind hplain hhinge

lemma line (h : R s c d) (hk : c.here.kind = kind) (hs : kind.stops = false) :
    f c.here.line = g d.here.line :=
  (hT.tallies h (hk ▸ hs)).line

section Rules

variable (hl : ∀ {c : Cursor}, c.Gone place s → lost c) {r : Token → Production α}
  {t : Token → Production β} {what : String}

include hl

lemma take [∀ x, Walks (r x)] (h : R s c d) (hk : c.here.kind = kind) (hs : kind.isStep = true)
    (hrest : Ahead (R s) c d c.next d.next →
      Concurs lost rel post (r c.here) (t d.here) c.next d.next) :
    Concurs lost rel post (Production.take >>= r) (Production.take >>= t) c d := by
  rcases hT.past h hk hs with hg | ha
  · exact .take (.of_gone hl hg)
  · exact .take (hrest ha)

/-- Both readers accept a token, or neither. -/
lemma accept {r : Bool → Production α} {t : Bool → Production β} [∀ x, Walks (r x)] (h : R s c d)
    (hk : kind.isStep = true) (hiff : c.here.kind = kind ↔ d.here.kind = kind)
    (hyes : Ahead (R s) c d c.next d.next → Concurs lost rel post (r true) (t true) c.next d.next)
    (hno : c.here.kind ≠ kind → Concurs lost rel post (r false) (t false) c d) :
    Concurs lost rel post (Production.accept kind >>= r) (Production.accept kind >>= t) c d := by
  refine .accept hiff (fun hc => ?_) hno
  rcases hT.past h hc hk with hg | ha
  · exact .of_gone hl hg
  · exact hyes ha

/-- Both readers find the token they need, or the first is lost. -/
lemma require [∀ x, Walks (r x)] (h : R s c d) (hk : kind.isStep = true)
    (hyes : Ahead (R s) c d c.next d.next →
      Concurs lost rel post (r c.here) (t d.here) c.next d.next) :
    Concurs lost rel post (Production.require kind what >>= r)
    (Production.require kind what >>= t) c d := by
  have hstops := (isPlain_of_isStep hk).2.2
  refine .require (fun hc => (hT.tallies h (hc ▸ hstops)).kind.trans hc) fun hc => ?_
  rcases hT.past h hc hk with hg | ha
  · exact .of_gone hl hg
  · exact hyes ha

/-- Both readers find the same name. -/
lemma name_reads (h : R s c d) :
    Reads lost (R s) Eq (Production.name what) (Production.name what) c d := by
  intro a c' hr
  by_cases hk : ∃ word, c.here.kind = .identifier word
  · obtain ⟨word, hk⟩ := hk
    rw [run_name hk] at hr
    cases hr
    rcases hT.past h hk rfl with hg | ha
    · exact .inl (hl hg)
    · have hkind := (hT.tallies h (by rw [hk]; rfl)).kind
      exact .inr ⟨_, d.next, run_name (hkind.trans hk), rfl, ha⟩
  · rw [run_name_ne fun word hw => hk ⟨word, hw⟩] at hr
    cases hr

end Rules

lemma seesNext (h : R s c d) (hk : c.here.kind = kind) (hs : kind.isStep = true)
    (hn : next.trails = true) : d.seesNext next = c.seesNext next := by
  have hstops := (isPlain_of_isStep hs).2.2
  have hkind := (hT.tallies h (hk ▸ hstops)).kind
  have hc : c.here.kind ≠ .eof := by
    rw [hk]
    rintro rfl
    cases hstops
  rw [Cursor.seesNext, Cursor.seesNext, peek_one hc, peek_one (hkind ▸ hc)]
  exact decide_eq_decide.mpr (hT.peek h hkind (hk ▸ hs) hn).symm

lemma sees_and_seesNext (he : EndsAt f g R s level) (h : R s c d) (hk : kind.heeded level = true)
    (hs : kind.isStep = true) (hn : next.trails = true) :
    (d.sees kind && d.seesNext next) = (c.sees kind && c.seesNext next) := by
  have hsees : d.sees kind = c.sees kind := decide_eq_decide.mpr (hT.kind_iff he h hk).symm
  rw [hsees]
  by_cases hc : c.here.kind = kind
  · rw [hT.seesNext h hc hs hn]
  · simp [Cursor.sees, hc]

/-- Both readers see `and` between expressions, or neither. -/
lemma seesAnd_eq (h : R s c d) (hd : c.here.Tallies f g d.here ∨ seesAnd d = false) :
    seesAnd d = seesAnd c := by
  have htallied (ht : c.here.Tallies f g d.here) : seesAnd d = seesAnd c := by
    by_cases hk : c.here.kind = .keyword .and
    · rw [seesAnd, seesAnd, hT.seesNext h hk rfl rfl, Cursor.sees, Cursor.sees, ht.kind]
    · simp [seesAnd, Cursor.sees, ht.kind, hk]
  rcases hT.halt h with ht | ⟨hs, _⟩
  · exact htallied ht
  · rcases hd with ht | hd
    · exact htallied ht
    · rw [hd, seesAnd_of_stops hs]

end Tandem

end Colloquy
