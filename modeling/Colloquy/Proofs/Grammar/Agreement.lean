import Colloquy.Grammar.Cursor
import Colloquy.Proofs.Grammar.Lines
import Colloquy.Proofs.Token.Reading

/-!
# Productions that concur

`Production.Concurs` compares two productions at two cursors: where the first succeeds, so does the
second, with a related result. How the two rows of tokens correspond is left open.
-/

namespace Colloquy

open List Cursor

namespace Cursor

variable {kinds : List TokenKind} {c : Cursor}

/-- The first token that is of none of the given kinds, or the last one. -/
def passFrom (kinds : List TokenKind) (depth : Nat) : Token → List Token → Cursor
  | here, [] => ⟨here, [], depth⟩
  | here, token :: rest =>
    if kinds.contains here.kind then passFrom kinds depth token rest
    else ⟨here, token :: rest, depth⟩

/-- The cursor past all tokens of the given kinds here. -/
def pass (kinds : List TokenKind) (c : Cursor) : Cursor := passFrom kinds c.depth c.here c.ahead

lemma pass_of_contains (hend : TokenKind.eof ∉ kinds)
    (h : kinds.contains c.here.kind = true) : c.pass kinds = c.next.pass kinds := by
  obtain ⟨here, ahead, depth⟩ := c
  have hne : here.kind ≠ .eof := by
    intro he
    rw [he] at h
    exact hend (contains_iff_mem.1 h)
  cases ahead with
  | nil => simp only [next, hne, if_false]
  | cons token rest => simp only [pass, passFrom, next, hne, h, if_true, if_false]

lemma pass_of_not_contains (h : kinds.contains c.here.kind = false) : c.pass kinds = c := by
  obtain ⟨here, ahead, depth⟩ := c
  cases ahead with
  | nil => rfl
  | cons token rest => simp only [pass, passFrom, h, Bool.false_eq_true, if_false]

lemma depth_next : c.next.depth = c.depth := by
  unfold next
  split
  · rfl
  · split <;> rfl

lemma depth_pass : (c.pass kinds).depth = c.depth := by
  obtain ⟨here, ahead, depth⟩ := c
  unfold pass
  dsimp only
  induction ahead generalizing here with
  | nil => rfl
  | cons token rest ih =>
    unfold passFrom
    split
    · exact ih token
    · rfl

/-- No token of these kinds follows, unless the row is over. -/
lemma pass_stops (h : kinds.contains (c.pass kinds).here.kind = true) :
    (c.pass kinds).ahead = [] := by
  obtain ⟨here, ahead, depth⟩ := c
  unfold pass at h ⊢
  dsimp only at h ⊢
  induction ahead generalizing here with
  | nil => rfl
  | cons token rest ih =>
    unfold passFrom at h ⊢
    split at h
    · rename_i hk
      rw [if_pos hk]
      exact ih token h
    · rename_i hk
      exact (hk h).elim

lemma pass_of_ahead_nil (h : c.ahead = []) : c.pass kinds = c := by
  obtain ⟨here, ahead, depth⟩ := c
  cases h
  rfl

lemma ahead_next_nil (h : c.ahead = []) : c.next.ahead = [] := by
  unfold next
  rw [h]
  split <;> exact h

lemma remaining_pass_le : (c.pass kinds).remaining ≤ c.remaining := by
  obtain ⟨here, ahead, depth⟩ := c
  unfold pass
  dsimp only
  induction ahead generalizing here with
  | nil => exact Nat.le_refl _
  | cons token rest ih =>
    unfold passFrom
    split
    · exact Nat.le_succ_of_le (ih token)
    · exact Nat.le_refl _

lemma remaining_next_le : c.next.remaining ≤ c.remaining := by
  unfold next
  split
  · exact Nat.le_refl _
  · split
    · exact Nat.le_refl _
    · rename_i hahead
      simp only [remaining, hahead, length_cons]
      omega

lemma remaining_next_lt (hne : c.here.kind ≠ .eof) (ha : c.ahead ≠ []) :
    c.next.remaining < c.remaining := by
  obtain ⟨here, ahead, depth⟩ := c
  cases ahead with
  | nil => exact (ha rfl).elim
  | cons token rest =>
    simp only [next, hne, if_false, remaining, length_cons]
    omega

lemma peek_succ {distance : Nat} (hne : c.here.kind ≠ .eof) :
    c.peek (distance + 1) = c.next.peek distance := by
  obtain ⟨here, ahead, depth⟩ := c
  cases ahead with
  | nil =>
    cases distance with
    | zero => simp only [next, hne, if_false, peek, List.drop, List.getLastD]
    | succ distance => simp only [next, hne, if_false, peek, List.drop, drop_nil, List.getLastD]
  | cons token rest => simp only [next, hne, if_false, peek, drop_succ_cons, getLastD_cons]

lemma peek_one (hne : c.here.kind ≠ .eof) : c.peek 1 = c.next.here := peek_succ hne

end Cursor

namespace Production

variable {α β γ ε σ : Type}

section Runs

variable {kind : TokenKind} {what : String} {c : Cursor} {rounds : Nat} {kinds : List TokenKind}

lemma run_require (h : c.here.kind = kind) : run (require kind what) c = (.ok c.here, c.next) := by
  simp [run, require, Cursor.sees, h]

lemma run_require_ne (h : c.here.kind ≠ kind) :
    run (require kind what) c = (.error (c.mismatch what), c) := by
  simp [run, require, Cursor.sees, h]

lemma run_accept (h : c.here.kind = kind) : run (accept kind) c = (.ok true, c.next) := by
  simp [run, accept, Cursor.sees, h]

lemma run_accept_ne (h : c.here.kind ≠ kind) : run (accept kind) c = (.ok false, c) := by
  simp [run, accept, Cursor.sees, h]

lemma run_name {word : String} (h : c.here.kind = .identifier word) :
    run (name what) c = (.ok word, c.next) := by
  simp [run, name, h]

lemma run_name_ne (h : ∀ word, c.here.kind ≠ .identifier word) :
    run (name what) c = (.error (c.mismatch what), c) := by
  unfold run name
  split
  · rename_i word hk
    exact (h word hk).elim
  · rfl

lemma run_bind_ok {p : Production α} {r : α → Production β} {b : β} {c' : Cursor}
    (h : run (p >>= r) c = (.ok b, c')) : ∃ a c1, run p c = (.ok a, c1) ∧
    run (r a) c1 = (.ok b, c') := by
  rw [run_bind] at h
  split at h
  · rename_i a c1 hp
    exact ⟨a, c1, hp, h⟩
  · cases h

/-- One round of a loop, and the rest of it. -/
lemma run_iterate {step : σ → Production (Option σ)} {s : σ} : run (iterate step (rounds + 1) s) c =
      match run (step s) c with
      | (.ok none, c') => (.ok s, c')
      | (.ok (some s'), c') => run (iterate step rounds s') c'
      | (.error e, c') => (.error e, c') := by
  rw [iterate, run_bind]
  split
  · rename_i next c' hstep
    rw [hstep]
    cases next <;> rfl
  · rename_i e c' hstep
    rw [hstep]

lemma run_skipAll_succ : run (skipAll kinds (rounds + 1)) c =
      if kinds.contains c.here.kind then run (skipAll kinds rounds) c.next else (.ok (), c) := by
  unfold skipAll
  generalize hs : (fun _ : Unit => _ : Unit → Production (Option Unit)) = step
  have hstep : run (step ()) c = if kinds.contains c.here.kind then (.ok (some ()), c.next)
  else (.ok none, c) := by
    rw [← hs]
    change run (if kinds.contains c.here.kind then _ else _) c = _
    split <;> rfl
  rw [run_iterate, hstep]
  cases kinds.contains c.here.kind <;> rfl

/-- With enough rounds, all tokens of these kinds are passed. -/
lemma run_skipAll (hend : TokenKind.eof ∉ kinds) (h : c.remaining < rounds) :
    run (skipAll kinds rounds) c = (.ok (), c.pass kinds) := by
  induction rounds generalizing c with
  | zero => omega
  | succ rounds ih =>
    rw [run_skipAll_succ]
    cases hc : kinds.contains c.here.kind with
    | false =>
      rw [pass_of_not_contains hc]
      rfl
    | true =>
      rw [pass_of_contains hend hc, if_pos rfl]
      by_cases hlt : c.next.remaining < rounds
      · exact ih hlt
      · -- the last token is of one of these kinds, and the cursor stays there
        have hne : c.here.kind ≠ .eof := by
          intro he
          rw [he] at hc
          exact hend (contains_iff_mem.1 hc)
        cases ha : c.ahead with
        | cons token rest =>
          have := remaining_next_lt hne (by rw [ha]; nofun)
          omega
        | nil =>
          have hle := remaining_next_le (c := c)
          have hzero : c.remaining = 0 := by rw [Cursor.remaining, ha]; rfl
          obtain rfl : rounds = 0 := by omega
          rw [pass_of_ahead_nil (ahead_next_nil ha)]
          rfl

lemma run_skipAll_eof (hend : TokenKind.eof ∉ kinds) (h : c.here.kind = .eof) :
    run (skipAll kinds rounds) c = (.ok (), c) := by
  have hc : kinds.contains c.here.kind = false := by
    rw [h]
    simpa using hend
  cases rounds with
  | zero => rfl
  | succ rounds =>
    rw [run_skipAll_succ, hc]
    rfl

end Runs

section Failure

/-- A production does not succeed from a cursor. -/
def Fails (p : Production α) (c : Cursor) : Prop := ∃ e c', p.run c = (.error e, c')

variable {c c' : Cursor} {p : Production α} {r : α → Production β} {a : α}

lemma Fails.absurd (h : Fails p c) (hr : p.run c = (.ok a, c')) : False := by
  obtain ⟨e, c'', he⟩ := h
  rw [he] at hr
  cases hr

lemma Fails.bind (h : Fails p c) : Fails (p >>= r) c := by
  obtain ⟨e, c', he⟩ := h
  refine ⟨e, c', ?_⟩
  rw [run_bind, he]

lemma Fails.after (hp : p.run c = (.ok a, c')) (h : Fails (r a) c') : Fails (p >>= r) c := by
  obtain ⟨e, c'', he⟩ := h
  refine ⟨e, c'', ?_⟩
  rw [run_bind, hp]
  exact he

lemma Fails.require {kind : TokenKind} {what : String} (h : c.here.kind ≠ kind) :
    Fails (require kind what) c := ⟨_, _, run_require_ne h⟩

lemma Fails.nested {room : Nat} {inner : Nat → Production α} (h : ∀ less, Fails (inner less) c) :
    Fails (nested room inner) c := by
  cases room with
  | zero => exact ⟨_, _, rfl⟩
  | succ less => exact h less

end Failure

/-- Where one production succeeds, another succeeds from another cursor, with a related result and
related cursors; or the first is lost, where nothing more can succeed. -/
def Concurs (lost : Cursor → Prop) (rel : α → β → Prop)
    (post : α → Cursor → Cursor → Prop) (p : Production α) (q : Production β)
    (c d : Cursor) : Prop :=
  ∀ a c', p.run c = (.ok a, c') → lost c' ∨ ∃ b d', q.run d = (.ok b, d') ∧ rel a b ∧ post a c' d'

/-- No cursor is lost. -/
def never (_ : Cursor) : Prop := False

/-- A cursor at the end of the input is lost. -/
def ended (c : Cursor) : Prop := c.here.kind = .eof

section Rules

variable {lost : Cursor → Prop} {rel : α → β → Prop} {rel' : γ → ε → Prop}
  {post : α → Cursor → Cursor → Prop} {mid : γ → Cursor → Cursor → Prop} {c d c' : Cursor}
  {p : Production α} {q : Production β} {a : α} {b : β} {what : String} {r : γ → Production α}
  {t : ε → Production β} {kind : TokenKind}

lemma Concurs.of_runs {d' : Cursor}
    (hp : p.run c = (.ok a, c')) (hq : q.run d = (.ok b, d')) (hb : rel a b) (h : post a c' d') :
    Concurs lost rel post p q c d := by
  intro a' c'' hr
  cases hp.symm.trans hr
  exact .inr ⟨b, d', hq, hb, h⟩

lemma Concurs.pure (hb : rel a b) (h : post a c d) :
    Concurs lost rel post (Pure.pure a) (Pure.pure b) c d := of_runs rfl rfl hb h

lemma Concurs.of_fails (h : Fails p c) : Concurs lost rel post p q c d :=
  fun _ _ hr => (h.absurd hr).elim

lemma Concurs.of_error {e : SyntaxError}
    (h : p.run c = (.error e, c')) : Concurs lost rel post p q c d := of_fails ⟨e, c', h⟩

lemma Concurs.expected : Concurs lost rel post (expected what) q c d := of_error rfl

lemma Concurs.invalid {token : Token} {violation : Violation} :
    Concurs lost rel post (invalid token violation) q c d := of_error rfl

lemma Concurs.mono {post' : α → Cursor → Cursor → Prop}
    (h : Concurs lost rel post p q c d) (hp : ∀ a c' d', post a c' d' → post' a c' d') :
    Concurs lost rel post' p q c d := by
  intro a c' hr
  rcases h a c' hr with hl | ⟨b, d', hq, hb, hpost⟩
  · exact .inl hl
  · exact .inr ⟨b, d', hq, hb, hp a c' d' hpost⟩

/-- Productions in a row concur, and who is lost stays lost. -/
lemma Concurs.bind_lost {strayed : Cursor → Prop} {p : Production γ} {q : Production ε}
    (h : Concurs strayed rel' mid p q c d)
    (hlost : ∀ x c' a c'', strayed c' → (r x).run c' = (.ok a, c'') → lost c'')
    (hrest : ∀ x y c' d', rel' x y → mid x c' d' → Concurs lost rel post (r x) (t y) c' d') :
    Concurs lost rel post (p >>= r) (q >>= t) c d := by
  intro a c'' hr
  obtain ⟨x, c', hp, hr⟩ := run_bind_ok hr
  rcases h x c' hp with hl | ⟨y, d', hq, hxy, hmid⟩
  · exact .inl (hlost x c' a c'' hl hr)
  · rcases hrest x y c' d' hxy hmid a c'' hr with hl | ⟨b, d'', ht, hb, hpost⟩
    · exact .inl hl
    · refine .inr ⟨b, d'', ?_, hb, hpost⟩
      rw [run_bind, hq]
      exact ht

lemma Concurs.bind {p : Production γ} {q : Production ε} (h : Concurs never rel' mid p q c d)
    (hrest : ∀ x y c' d', rel' x y → mid x c' d' → Concurs lost rel post (r x) (t y) c' d') :
    Concurs lost rel post (p >>= r) (q >>= t) c d :=
  h.bind_lost (fun _ _ _ _ hl => hl.elim) hrest

lemma Concurs.pure_bind {x : γ} {y : ε} (h : Concurs lost rel post (r x) (t y) c d) :
    Concurs lost rel post (Pure.pure x >>= r) (Pure.pure y >>= t) c d := h

lemma Concurs.cursor {r : Cursor → Production α} {t : Cursor → Production β}
    (h : Concurs lost rel post (r c) (t d) c d) :
    Concurs lost rel post (cursor >>= r) (cursor >>= t) c d := h

lemma Concurs.take {r : Token → Production α} {t : Token → Production β}
    (h : Concurs lost rel post (r c.here) (t d.here) c.next d.next) :
    Concurs lost rel post (take >>= r) (take >>= t) c d := h

lemma Concurs.setDepth {change : Nat → Nat} {r : Unit → Production α} {t : Unit → Production β}
    (h : Concurs lost rel post (r ()) (t ()) { c with depth := change c.depth } { d with
      depth := change d.depth }) :
    Concurs lost rel post (setDepth change >>= r) (setDepth change >>= t) c d := h

/-- Both require the same kind. -/
lemma Concurs.require {r : Token → Production α} {t : Token → Production β}
    (hk : c.here.kind = kind → d.here.kind = kind)
    (h : c.here.kind = kind → Concurs lost rel post (r c.here) (t d.here) c.next d.next) :
    Concurs lost rel post (require kind what >>= r) (require kind what >>= t) c d := by
  intro a c' hr
  rw [run_bind] at hr
  by_cases hc : c.here.kind = kind
  · rw [run_require hc] at hr
    rw [run_bind, run_require (hk hc)]
    exact h hc a c' hr
  · rw [run_require_ne hc] at hr
    cases hr

/-- Both readers accept a token, or neither. -/
lemma Concurs.accept {r : Bool → Production α} {t : Bool → Production β}
    (hk : c.here.kind = kind ↔ d.here.kind = kind)
    (hyes : c.here.kind = kind → Concurs lost rel post (r true) (t true) c.next d.next)
    (hno : c.here.kind ≠ kind → Concurs lost rel post (r false) (t false) c d) :
    Concurs lost rel post (accept kind >>= r) (accept kind >>= t) c d := by
  intro a c' hr
  rw [run_bind] at hr
  by_cases hc : c.here.kind = kind
  · rw [run_accept hc] at hr
    rw [run_bind, run_accept (hk.1 hc)]
    exact hyes hc a c' hr
  · rw [run_accept_ne hc] at hr
    rw [run_bind, run_accept_ne (fun hd => hc (hk.2 hd))]
    exact hno hc a c' hr

lemma Concurs.nested {room : Nat} {inner : Nat → Production α} {inner' : Nat → Production β}
    (h : ∀ less, Concurs lost rel post (inner less) (inner' less) c d) :
    Concurs lost rel post (nested room inner) (nested room inner') c d := by
  cases room with
  | zero => exact .of_error rfl
  | succ less => exact h less

end Rules

end Production

section Motion

variable {R S : Cursor → Cursor → Prop} {c d c' d' c'' d'' : Cursor}

/-- Two cursors have come to related places, each past a token. -/
structure Ahead (R : Cursor → Cursor → Prop) (c d c' d' : Cursor) : Prop where
  related : R c' d'
  left : c'.remaining < c.remaining
  right : d'.remaining < d.remaining

/-- Two cursors have moved to related places, or stayed there. -/
structure Along (R : Cursor → Cursor → Prop) (c d c' d' : Cursor) : Prop where
  related : R c' d'
  left : c'.remaining ≤ c.remaining
  right : d'.remaining ≤ d.remaining

lemma Along.refl (h : R c d) : Along R c d c d := ⟨h, Nat.le_refl _, Nat.le_refl _⟩

lemma Ahead.along (h : Ahead R c d c' d') : Along R c d c' d' :=
  ⟨h.related, Nat.le_of_lt h.left, Nat.le_of_lt h.right⟩

lemma Along.trans (h : Along R c d c' d') (h' : Along S c' d' c'' d'') : Along S c d c'' d'' :=
  ⟨h'.related, Nat.le_trans h'.left h.left, Nat.le_trans h'.right h.right⟩

lemma Along.ahead (h : Along R c d c' d') (h' : Ahead S c' d' c'' d'') : Ahead S c d c'' d'' :=
  ⟨h'.related, Nat.lt_of_lt_of_le h'.left h.left, Nat.lt_of_lt_of_le h'.right h.right⟩

lemma Ahead.trans (h : Ahead R c d c' d') (h' : Along S c' d' c'' d'') : Ahead S c d c'' d'' :=
  ⟨h'.related, Nat.lt_of_le_of_lt h'.left h.left, Nat.lt_of_le_of_lt h'.right h.right⟩

lemma Ahead.ahead (h : Ahead R c d c' d') (h' : Ahead S c' d' c'' d'') : Ahead S c d c'' d'' :=
  h.trans h'.along

/-- Two cursors have fewer tokens left than two readers rounds. -/
structure Room (rounds rounds' : Nat) (c d : Cursor) : Prop where
  left : c.remaining < rounds
  right : d.remaining < rounds'

lemma Room.along {n n' : Nat} (h : Room n n' c d) (hm : Along R c d c' d') : Room n n' c' d' :=
  ⟨Nat.lt_of_le_of_lt hm.left h.left, Nat.lt_of_le_of_lt hm.right h.right⟩

lemma Room.ahead {n n' : Nat} (h : Room (n + 1) (n' + 1) c d) (hm : Ahead R c d c' d') :
    Room n n' c' d' :=
  ⟨Nat.lt_of_lt_of_le hm.left (Nat.le_of_lt_succ h.left),
  Nat.lt_of_lt_of_le hm.right (Nat.le_of_lt_succ h.right)⟩

end Motion

namespace Production

variable {α β σ τ : Type} {lost : Cursor → Prop} {R S : Cursor → Cursor → Prop} {c d : Cursor}

/-- Both productions read at least one token. -/
abbrev Reads (lost : Cursor → Prop) (R : Cursor → Cursor → Prop)
    (rel : α → β → Prop) (p : Production α) (q : Production β) (c d : Cursor) : Prop :=
  Concurs lost rel (fun _ => Ahead R c d) p q c d

/-- Both productions may leave their cursors where they are. -/
abbrev Passes (lost : Cursor → Prop) (R : Cursor → Cursor → Prop)
    (rel : α → β → Prop) (p : Production α) (q : Production β) (c d : Cursor) : Prop :=
  Concurs lost rel (fun _ => Along R c d) p q c d

section Loops

variable {rel : σ → τ → Prop} {step : σ → Production (Option σ)}
  {step' : τ → Production (Option τ)} {c' : Cursor} {rounds rounds' : Nat} {s : σ} {t : τ}

/-- A round of a loop: the loop ends, or both cursors have moved on. -/
def Round (R S : Cursor → Cursor → Prop) (c d : Cursor) : Option σ → Cursor → Cursor → Prop
  | none => Along S c d
  | some _ => Ahead R c d

lemma Round.of_ahead {d' : Cursor} (h : Ahead R c d c' d') : ∀ o : Option σ, Round R R c d o c' d'
  | none => h.along
  | some _ => h

/-- A loop does not recover. -/
lemma iterate_lost {a : σ} {c : Cursor}
    (hkeep : ∀ s c o c', lost c → (step s).run c = (.ok o, c') → lost c') (hl : lost c)
    (h : (iterate step rounds s).run c = (.ok a, c')) : lost c' := by
  induction rounds generalizing s c with
  | zero =>
    cases h
    exact hl
  | succ rounds ih =>
    rw [run_iterate] at h
    split at h
    · rename_i c1 hs
      have hl' := hkeep s c none c1 hl hs
      cases h
      exact hl'
    · rename_i s' c1 hs
      exact ih (hkeep s c (some s') c1 hl hs) h
    · cases h

/-- Loops concur when their rounds do, since every round moves both cursors. -/
lemma Concurs.iterate_lost (hst : rel s t) (hR : R c d)
    (hroom : Room rounds rounds' c d) (hkeep : ∀ s c o c', lost c →
      (step s).run c = (.ok o, c') → lost c')
    (hstep : ∀ s t c' d', rel s t → Along R c d c' d' →
      Concurs lost (Option.Rel rel) (Round R S c' d') (step s) (step' t) c' d') :
    Concurs lost rel (fun _ => Along S c d) (iterate step rounds s)
    (iterate step' rounds' t) c d := by
  induction rounds generalizing rounds' s t c d with
  | zero => exact (Nat.not_lt_zero _ hroom.left).elim
  | succ rounds ih =>
    cases rounds' with
    | zero => exact (Nat.not_lt_zero _ hroom.right).elim
    | succ rounds' =>
      intro a c'' hr
      rw [run_iterate] at hr
      split at hr
      · rename_i c' hs
        have hround := hstep s t c d hst (.refl hR) _ _ hs
        cases hr
        rcases hround with hl | ⟨o, d', hs', ho, hend⟩
        · exact .inl hl
        · cases ho
          refine .inr ⟨t, d', ?_, hst, hend⟩
          rw [run_iterate, hs']
      · rename_i s' c' hs
        rcases hstep s t c d hst (.refl hR) _ _ hs with hl | ⟨o, d', hs', ho, hmore⟩
        · exact .inl (Production.iterate_lost hkeep hl hr)
        · obtain @⟨_, t', hst'⟩ := ho
          have hmore : Ahead R c d c' d' := hmore
          have hnext := ih hst' hmore.related (hroom.ahead hmore)
            (fun s t x y hst hxy => hstep s t x y hst (hmore.along.trans hxy))
          rcases hnext a c'' hr with hl | ⟨b, d'', ht, hb, hend⟩
          · exact .inl hl
          · refine .inr ⟨b, d'', ?_, hb, hmore.along.trans hend⟩
            rw [run_iterate, hs']
            exact ht
      · cases hr

lemma Concurs.iterate (hst : rel s t) (hR : R c d) (hroom : Room rounds rounds' c d)
    (hstep : ∀ s t c' d', rel s t → Along R c d c' d' →
      Concurs never (Option.Rel rel) (Round R R c' d') (step s) (step' t) c' d') :
    Passes never R rel (iterate step rounds s) (iterate step' rounds' t) c d :=
  .iterate_lost hst hR hroom (fun _ _ _ _ hl => hl.elim) hstep

end Loops

end Production

/-- The kinds of tokens that make the layout of a text. -/
def TokenKind.layout : List TokenKind := [.newline, .indent, .dedent]

/-- A kind of tokens that stand inside the lines of a text. -/
class TokenKind.Plain (kind : TokenKind) : Prop where
  isPlain : kind.isPlain = true

instance {name : String} : (TokenKind.identifier name).Plain := ⟨rfl⟩

instance {value : Float} : (TokenKind.number value).Plain := ⟨rfl⟩

instance {text : String} : (TokenKind.string text).Plain := ⟨rfl⟩

instance {flag : Bool} : (TokenKind.boolean flag).Plain := ⟨rfl⟩

instance {word : Keyword} : (TokenKind.keyword word).Plain := ⟨rfl⟩

instance {sign : Symbol} : (TokenKind.symbol sign).Plain := ⟨rfl⟩

lemma TokenKind.Plain.ne_eof {kind : TokenKind} [hp : kind.Plain] : kind ≠ .eof := by
  rintro rfl
  cases hp.isPlain

/-- A correspondence under which expressions are read alike: the tokens here differ in their lines
only, and it is kept past words, tokens inside a line, and the layout unless the input ends. -/
structure Alike (f : Nat → Nat) (R : Cursor → Cursor → Prop) : Prop where
  kind {c d : Cursor} : R c d → d.here.kind = c.here.kind
  text {c d : Cursor} : R c d → d.here.text = c.here.text
  line {c d : Cursor} : R c d → d.here.line = f c.here.line
  word {c d : Cursor} : R c d → c.here.text.toList.head?.any Text.isWordStart = true →
  Along R c d c.next d.next
  next {c d : Cursor} : R c d → c.here.kind.isPlain = true → Ahead R c d c.next d.next
  layout {c d : Cursor} : R c d →
    (c.pass TokenKind.layout).here.kind = .eof ∨
    Along R c d (c.pass TokenKind.layout) (d.pass TokenKind.layout)

end Colloquy
