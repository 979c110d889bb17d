import Colloquy.Proofs.Grammar.Depth

/-!
# Progress of the reader

A reader moves forward only, whether it succeeds or fails, and does not pass the end of the input.
`Production.Steady` says so, and compares two productions that differ in how many rounds their loops
are allowed. Expressions are steady, and pass the token at which they begin.
-/

namespace Colloquy

open List

namespace Cursor

variable {o c c' : Cursor} {ts us : List Token} {line : Nat}

/-- The tokens between two cursors of a row, none of which ends the input. -/
def Between (passed : List Token) (o c : Cursor) : Prop :=
  o.row = passed ++ c.row ∧ ∀ t ∈ passed, t.kind ≠ .eof

/-- The second cursor is here or further on, with as many blocks open. -/
structure Onward (o c : Cursor) : Prop where
  closed : c.Closed
  path : ∃ passed, Between passed o c
  depth : c.depth = o.depth

/-- How many blocks begin among some tokens. -/
def indents (passed : List Token) : Nat := passed.countP fun t => t.kind = .indent

/-- The same after a failure: blocks that began on the way may be open. -/
structure Astray (o c : Cursor) : Prop where
  closed : c.Closed
  path : ∃ passed, Between passed o c ∧ c.depth ≤ o.depth + indents passed
  depth : o.depth ≤ c.depth

/-- A token of this line stands between two cursors. -/
def Crosses (o c : Cursor) (line : Nat) : Prop :=
  ∃ passed, Between passed o c ∧ ∃ t ∈ passed, t.line = line

lemma Between.nil : Between [] c c := ⟨rfl, nofun⟩

lemma Between.append (h : Between ts o c) (h' : Between us c c') : Between (ts ++ us) o c' := by
  refine ⟨?_, forall_mem_append.mpr ⟨h.2, h'.2⟩⟩
  rw [h.1, h'.1, append_assoc]

lemma Between.remaining (h : Between ts o c) : o.remaining = ts.length + c.remaining := by
  have hlength : o.row.length = (ts ++ c.row).length := congrArg List.length h.1
  rw [length_append] at hlength
  exact Nat.succ.inj hlength

lemma Closed.between_next (h : c.Closed) (hne : c.here.kind ≠ .eof) :
    Between [c.here] c c.next := by
  refine ⟨?_, forall_mem_singleton.mpr hne⟩
  rw [row_next hne (h.ahead_ne_nil hne)]
  rfl

lemma next_of_eof (h : c.here.kind = .eof) : c.next = c := if_pos h

lemma Onward.refl (h : c.Closed) : c.Onward c := ⟨h, ⟨[], .nil⟩, rfl⟩

lemma Onward.astray (h : o.Onward c) : o.Astray c := by
  obtain ⟨passed, hpassed⟩ := h.path
  exact ⟨h.closed, ⟨passed, hpassed, h.depth ▸ Nat.le_add_right _ _⟩, Nat.le_of_eq h.depth.symm⟩

lemma Onward.trans (h : o.Onward c) (h' : c.Onward c') : o.Onward c' := by
  obtain ⟨passed, hpassed⟩ := h.path
  obtain ⟨passed', hpassed'⟩ := h'.path
  exact ⟨h'.closed, ⟨_, hpassed.append hpassed'⟩, h'.depth.trans h.depth⟩

/-- Blocks that begin on two ways begin on both together. -/
lemma Astray.trans (h : o.Astray c) (h' : c.Astray c') : o.Astray c' := by
  obtain ⟨passed, hpassed, hle⟩ := h.path
  obtain ⟨passed', hpassed', hle'⟩ := h'.path
  refine ⟨h'.closed, ⟨_, hpassed.append hpassed', ?_⟩, Nat.le_trans h.depth h'.depth⟩
  rw [indents, countP_append]
  dsimp only [indents] at hle hle'
  omega

lemma Closed.onward_next (h : c.Closed) : c.Onward c.next := by
  by_cases hne : c.here.kind = .eof
  · rw [next_of_eof hne]
    exact .refl h
  · exact ⟨h.next, ⟨_, h.between_next hne⟩, depth_next⟩

lemma Onward.next (h : o.Onward c) : o.Onward c.next := h.trans h.closed.onward_next

lemma Closed.onward_reaches (h : o.Closed) (h' : o.Reaches c) : o.Onward c := by
  induction h' with
  | refl => exact .refl h
  | next _ ih => exact ih.next

lemma Onward.remaining_le (h : o.Onward c) : c.remaining ≤ o.remaining := by
  obtain ⟨passed, hpassed⟩ := h.path
  have := hpassed.remaining
  omega

lemma Crosses.remaining_lt (h : o.Crosses c line) : c.remaining < o.remaining := by
  obtain ⟨passed, hpassed, t, ht, _⟩ := h
  have := hpassed.remaining
  have := length_pos_of_mem ht
  omega

lemma Crosses.onward (h : o.Crosses c line) (h' : c.Onward c') : o.Crosses c' line := by
  obtain ⟨passed, hpassed, t, ht, hline⟩ := h
  obtain ⟨passed', hpassed'⟩ := h'.path
  exact ⟨_, hpassed.append hpassed', t, mem_append_left _ ht, hline⟩

lemma Onward.crosses (h : o.Onward c) (h' : c.Crosses c' line) : o.Crosses c' line := by
  obtain ⟨passed, hpassed⟩ := h.path
  obtain ⟨passed', hpassed', t, ht, hline⟩ := h'
  exact ⟨_, hpassed.append hpassed', t, mem_append_right _ ht, hline⟩

lemma Closed.crosses_next (h : c.Closed) (hne : c.here.kind ≠ .eof) :
    c.Crosses c.next c.here.line :=
  ⟨_, h.between_next hne, c.here, mem_singleton_self _, rfl⟩

/-- The input does not end before a token that is passed. -/
lemma not_eof_of_next (h : o.next.Crosses c line) : o.here.kind ≠ .eof := by
  intro heof
  rw [next_of_eof heof] at h
  obtain ⟨passed, ⟨hrow, hpassed⟩, t, ht, _⟩ := h
  obtain ⟨u, us, rfl⟩ := exists_cons_of_ne_nil (ne_nil_of_mem ht)
  obtain ⟨rfl, _⟩ := List.cons.inj hrow
  exact hpassed o.here mem_cons_self heof

lemma Closed.crosses_of_next (h : o.Closed) (h' : o.next.Crosses c line) :
    o.Crosses c o.here.line := by
  have hbetween := h.between_next (not_eof_of_next h')
  obtain ⟨passed, hpassed, _⟩ := h'
  exact ⟨_, hbetween.append hpassed, o.here, mem_cons_self, rfl⟩

/-- Passing tokens leads onward. -/
lemma Closed.onward_pass {kinds : List TokenKind} (hend : TokenKind.eof ∉ kinds) (h : c.Closed) :
    c.Onward (c.pass kinds) := by
  obtain ⟨here, ahead, depth⟩ := c
  unfold pass
  dsimp only
  induction ahead generalizing here with
  | nil => exact .refl h
  | cons token rest ih =>
    unfold passFrom
    split
    · rename_i hk
      have hne : here.kind ≠ .eof := by
        intro he
        rw [he] at hk
        exact hend (contains_iff_mem.mp hk)
      have hnext : Cursor.next ⟨here, token :: rest, depth⟩ = ⟨token, rest, depth⟩ := if_neg hne
      have honward := h.onward_next
      rw [hnext] at honward
      exact honward.trans (ih token honward.closed)
    · exact .refl h

end Cursor

namespace Production

variable {α β σ : Type} {o c : Cursor} {p q : Production α} {f g : α → Production β}
  {kind : TokenKind} {what : String} {post : β → Cursor → Prop}

/-- Two productions do the same from here. If they succeed, the condition holds, and if they fail,
they stop further on in the row. -/
structure Steady (o : Cursor) (p q : Production α) (c : Cursor)
    (post : α → Cursor → Prop) : Prop where
  same : q.run c = p.run c
  ok : ∀ a c', p.run c = (.ok a, c') → post a c'
  error : ∀ e c', p.run c = (.error e, c') → o.Astray c'

namespace Steady

variable {b : β} {c' : Cursor} {e : SyntaxError}

lemma of_ok {p q : Production β} (hp : p.run c = (.ok b, c')) (hq : q.run c = (.ok b, c'))
    (h : post b c') : Steady o p q c post := by
  refine ⟨hq.trans hp.symm, fun b' c'' hr => ?_, fun e c'' hr => ?_⟩
  · cases hp.symm.trans hr
    exact h
  · cases hp.symm.trans hr

lemma of_error {p q : Production β} (hp : p.run c = (.error e, c)) (hq : q.run c = (.error e, c))
    (h : o.Onward c) : Steady o p q c post := by
  refine ⟨hq.trans hp.symm, fun b c'' hr => ?_, fun e' c'' hr => ?_⟩
  · cases hp.symm.trans hr
  · cases hp.symm.trans hr
    exact h.astray

lemma pure (h : post b c) : Steady o (Pure.pure b) (Pure.pure b) c post := of_ok rfl rfl h

lemma expected (h : o.Onward c) :
    Steady o (Production.expected what) (Production.expected what) c post :=
  of_error rfl rfl h

lemma mono {p q : Production β} {post' : β → Cursor → Prop} (h : Steady o p q c post')
    (hpost : ∀ b c', post' b c' → post b c') : Steady o p q c post :=
  ⟨h.same, fun b c' hr => hpost b c' (h.ok b c' hr), h.error⟩

lemma since {p q : Production β} (h : Steady c p q c post) (ho : o.Onward c) :
    Steady o p q c post :=
  ⟨h.same, h.ok, fun e c' hr => ho.astray.trans (h.error e c' hr)⟩

/-- Steady productions in a row are steady. -/
lemma bind {mid : α → Cursor → Prop} (h : Steady o p q c mid)
    (hf : ∀ a c', mid a c' → Steady o (f a) (g a) c' post) :
    Steady o (p >>= f) (q >>= g) c post := by
  rcases hp : p.run c with ⟨e | a, c'⟩
  · have hq : q.run c = (.error e, c') := h.same.trans hp
    refine ⟨?_, ?_, ?_⟩
    · rw [run_bind, run_bind, hp, hq]
    · intro b c'' hr
      rw [run_bind, hp] at hr
      cases hr
    · intro e' c'' hr
      rw [run_bind, hp] at hr
      cases hr
      exact h.error e c' hp
  · have hq : q.run c = (.ok a, c') := h.same.trans hp
    have hrest := hf a c' (h.ok a c' hp)
    refine ⟨?_, ?_, ?_⟩
    · rw [run_bind, run_bind, hp, hq]
      exact hrest.same
    · intro b c'' hr
      rw [run_bind, hp] at hr
      exact hrest.ok b c'' hr
    · intro e c'' hr
      rw [run_bind, hp] at hr
      exact hrest.error e c'' hr

lemma cursor {f g : Cursor → Production β} (h : Steady o (f c) (g c) c post) :
    Steady o (Production.cursor >>= f) (Production.cursor >>= g) c post := ⟨h.same, h.ok, h.error⟩

lemma take {f g : Token → Production β} (h : Steady o (f c.here) (g c.here) c.next post) :
    Steady o (Production.take >>= f) (Production.take >>= g) c post := ⟨h.same, h.ok, h.error⟩

lemma bind_ok {a : α} (hp : p.run c = (.ok a, c')) (hq : q.run c = (.ok a, c'))
    (h : Steady o (f a) (g a) c' post) : Steady o (p >>= f) (q >>= g) c post := by
  have hfirst : Steady o p q c fun a' c'' => a' = a ∧ c'' = c' := of_ok hp hq ⟨rfl, rfl⟩
  refine hfirst.bind ?_
  rintro _ _ ⟨rfl, rfl⟩
  exact h

lemma bind_error (hp : p.run c = (.error e, c)) (hq : q.run c = (.error e, c)) (h : o.Onward c) :
    Steady o (p >>= f) (q >>= g) c post := by
  have hfirst : Steady o p q c fun _ _ => False := of_error hp hq h
  exact hfirst.bind fun _ _ hfalse => hfalse.elim

lemma require {f g : Token → Production β} (h : o.Onward c)
    (hyes : c.here.kind = kind → Steady o (f c.here) (g c.here) c.next post) :
    Steady o (Production.require kind what >>= f) (Production.require kind what >>= g) c post := by
  by_cases hk : c.here.kind = kind
  · exact bind_ok (run_require hk) (run_require hk) (hyes hk)
  · exact bind_error (run_require_ne hk) (run_require_ne hk) h

/-- Whether a token stands here is the same for both. -/
lemma accept {f g : Bool → Production β} (hyes : c.here.kind = kind →
    Steady o (f true) (g true) c.next post)
    (hno : c.here.kind ≠ kind → Steady o (f false) (g false) c post) :
    Steady o (Production.accept kind >>= f) (Production.accept kind >>= g) c post := by
  by_cases hk : c.here.kind = kind
  · exact bind_ok (run_accept hk) (run_accept hk) (hyes hk)
  · exact bind_ok (run_accept_ne hk) (run_accept_ne hk) (hno hk)

lemma name {f g : String → Production β} (h : o.Onward c)
    (hyes : ∀ word, c.here.kind = .identifier word → Steady o (f word) (g word) c.next post) :
    Steady o (Production.name what >>= f) (Production.name what >>= g) c post := by
  by_cases hk : ∃ word, c.here.kind = .identifier word
  · obtain ⟨word, hk⟩ := hk
    exact bind_ok (run_name hk) (run_name hk) (hyes word hk)
  · have hne : ∀ word, c.here.kind ≠ .identifier word := fun word hw => hk ⟨word, hw⟩
    exact bind_error (run_name_ne hne) (run_name_ne hne) h

lemma nested {room : Nat} {inner inner' : Nat → Production β} (h : o.Onward c)
    (hin : ∀ less, Steady o (inner less) (inner' less) c post) :
    Steady o (Production.nested room inner) (Production.nested room inner') c post := by
  cases room with
  | zero => exact of_error rfl rfl h
  | succ less => exact hin less

/-- A loop keeps what its rounds keep. A round that goes on has moved the cursor, so that neither
loop runs out of rounds. -/
lemma iterate {step step' : σ → Production (Option σ)} {n m : Nat} {s : σ}
    {I : σ → Cursor → Prop} (h : I s c) (hn : c.remaining < n) (hm : c.remaining < m)
    (hstep : ∀ s c, I s c → Steady o (step s) (step' s) c fun r c' =>
      I (r.getD s) c' ∧ (r.isSome = true → c'.remaining < c.remaining)) :
    Steady o (Production.iterate step n s) (Production.iterate step' m s) c I := by
  induction n generalizing m s c with
  | zero => omega
  | succ n ih =>
    cases m with
    | zero => omega
    | succ m =>
      refine bind (hstep s c h) fun r c' hr => ?_
      cases r with
      | none => exact pure hr.1
      | some s' =>
        have hlt := hr.2 rfl
        exact ih hr.1 (by omega) (by omega)

end Steady

/-- Both productions read an expression and pass a token of its line. -/
def Advances (p q : Production Expr) (c : Cursor) : Prop :=
  Steady c p q c fun e c' => c.Onward c' ∧ c.Crosses c' e.line

/-- Both productions read something, or nothing at all. -/
def Proceeds (p q : Production α) (c : Cursor) : Prop := Steady c p q c fun _ c' => c.Onward c'

/-- A reader on its way that has passed tokens of these lines, with fewer tokens left than two loops
are allowed rounds. -/
structure Amid (n m : Nat) (o : Cursor) (lines : List Nat) (c : Cursor) : Prop where
  onward : o.Onward c
  left : c.remaining < n
  right : c.remaining < m
  crosses : ∀ line ∈ lines, o.Crosses c line

/-- A reader that begins here. After its first token there are fewer left than rounds. -/
structure Outset (n m : Nat) (c : Cursor) : Prop where
  closed : c.Closed
  left : c.remaining ≤ n
  right : c.remaining ≤ m

section Places

variable {n m line : Nat} {lines : List Nat} {c' : Cursor}

lemma Amid.start (h : c.Closed) (hn : c.remaining < n) (hm : c.remaining < m) : Amid n m c [] c :=
  ⟨.refl h, hn, hm, nofun⟩

section

variable (h : Amid n m o lines c)
include h

lemma Amid.anew : Amid n m c [] c := .start h.onward.closed h.left h.right

lemma Amid.after (h' : c.Onward c') : Amid n m o lines c' where
  onward := h.onward.trans h'
  left := Nat.lt_of_le_of_lt h'.remaining_le h.left
  right := Nat.lt_of_le_of_lt h'.remaining_le h.right
  crosses line hl := (h.crosses line hl).onward h'

lemma Amid.step : Amid n m o lines c.next := h.after h.onward.closed.onward_next

lemma Amid.cross (h' : c.Onward c') (hl : c.Crosses c' line) : Amid n m o (line :: lines) c' :=
  ⟨(h.after h').onward, (h.after h').left, (h.after h').right,
    forall_mem_cons.mpr ⟨h.onward.crosses hl, (h.after h').crosses⟩⟩

lemma Amid.next (hne : c.here.kind ≠ .eof) : Amid n m o (c.here.line :: lines) c.next :=
  h.cross h.onward.closed.onward_next (h.onward.closed.crosses_next hne)

end

lemma Outset.cross (h : Outset n m c) (h' : c.Onward c') (hl : c.Crosses c' line) :
    Amid n m c [line] c' :=
  ⟨h', Nat.lt_of_lt_of_le hl.remaining_lt h.left, Nat.lt_of_lt_of_le hl.remaining_lt h.right,
    forall_mem_singleton.mpr hl⟩

lemma Outset.next (h : Outset n m c) (hne : c.here.kind ≠ .eof) : Amid n m c [c.here.line] c.next :=
  h.cross h.closed.onward_next (h.closed.crosses_next hne)

lemma Amid.outset (h : Amid n m o lines c) : Outset n m c :=
  ⟨h.onward.closed, Nat.le_of_lt h.left, Nat.le_of_lt h.right⟩

lemma Amid.remaining_lt (h : Amid n m o (line :: lines) c) : c.remaining < o.remaining :=
  (h.crosses line mem_cons_self).remaining_lt

lemma Amid.advances (h : Amid n m o (line :: lines) c) : o.Onward c ∧ o.Crosses c line :=
  ⟨h.onward, h.crosses line mem_cons_self⟩

lemma Amid.past [hp : kind.Plain] (h : Amid n m o lines c) (hk : c.here.kind = kind) :
    Amid n m o (c.here.line :: lines) c.next := h.next (hk ▸ TokenKind.Plain.ne_eof)

lemma Outset.past [hp : kind.Plain] (h : Outset n m c) (hk : c.here.kind = kind) :
    Amid n m c [c.here.line] c.next :=
  h.next (hk ▸ TokenKind.Plain.ne_eof)

end Places

section Steps

variable {n m : Nat} {lines : List Nat} {c' : Cursor} {s : σ} {e : Expr}

lemma Amid.accept [kind.Plain] {f g : Bool → Production β} (h : Amid n m o lines c)
    (hyes : Amid n m o (c.here.line :: lines) c.next → Steady o (f true) (g true) c.next post)
    (hno : Steady o (f false) (g false) c post) :
    Steady o (Production.accept kind >>= f) (Production.accept kind >>= g) c post :=
  .accept (fun hk => hyes (h.past hk)) fun _ => hno

lemma Amid.require [kind.Plain] {f g : Token → Production β} (h : Amid n m o lines c)
    (hyes : Amid n m o (c.here.line :: lines) c.next → Steady o (f c.here) (g c.here) c.next post) :
    Steady o (Production.require kind what >>= f) (Production.require kind what >>= g) c post :=
  .require h.onward fun hk => hyes (h.past hk)

lemma Amid.name {f g : String → Production β} (h : Amid n m o lines c)
    (hyes : ∀ word, Amid n m o (c.here.line :: lines) c.next →
      Steady o (f word) (g word) c.next post) :
    Steady o (Production.name what >>= f) (Production.name what >>= g) c post :=
  .name h.onward fun word hk => hyes word (h.past hk)

lemma Advances.bind {p q : Production Expr} {f g : Expr → Production β} (hp : Advances p q c)
    (h : Amid n m o lines c) (hf : ∀ e c', Amid n m o (e.line :: lines) c' →
      Steady o (f e) (g e) c' post) :
    Steady o (p >>= f) (q >>= g) c post :=
  .bind (hp.since h.onward) fun e c' he => hf e c' (h.cross he.1 he.2)

lemma Advances.first {p q : Production Expr} {f g : Expr → Production β}
    (hp : Advances p q c) (h : Outset n m c) (hf : ∀ e c', Amid n m c [e.line] c' →
      Steady c (f e) (g e) c' post) : Steady c (p >>= f) (q >>= g) c post :=
  .bind hp fun e c' he => hf e c' (h.cross he.1 he.2)

lemma Proceeds.bind (hp : Proceeds p q c) (h : Amid n m o lines c)
    (hf : ∀ a c', Amid n m o lines c' → Steady o (f a) (g a) c' post) :
    Steady o (p >>= f) (q >>= g) c post :=
  .bind (hp.since h.onward) fun a c' ha => hf a c' (h.after ha)

/-- A production that walks proceeds. -/
lemma Amid.proceeds [hp : Walks p] (h : Amid n m o lines c) : Proceeds p p c := by
  have honward := h.onward.closed.onward_reaches (hp.reaches c)
  refine ⟨rfl, fun a c' hr => ?_, fun e c' hr => ?_⟩ <;> rw [hr] at honward
  · exact honward
  · exact honward.astray

lemma Amid.skipAll {kinds : List TokenKind} (hend : TokenKind.eof ∉ kinds)
    (h : Amid n m o lines c) :
    Proceeds (skipAll kinds n) (skipAll kinds m) c :=
  .of_ok (run_skipAll hend h.left) (run_skipAll hend h.right) (h.onward.closed.onward_pass hend)

/-- A round has been made: if the loop goes on, a token has been passed. -/
def Tried (n m : Nat) (c : Cursor) (r : Option σ) (c' : Cursor) : Prop :=
  ∃ lines, Amid n m c lines c' ∧ (r.isSome = true → lines ≠ [])

lemma Tried.none (h : Amid n m c lines c') : Tried n m c (none : Option σ) c' := ⟨lines, h, nofun⟩

lemma Tried.some {line : Nat} (h : Amid n m c (line :: lines) c') : Tried n m c (some s) c' :=
  ⟨line :: lines, h, fun _ => cons_ne_nil _ _⟩

/-- A loop of such rounds goes onward. -/
lemma Amid.loop {step step' : σ → Production (Option σ)} (h : Amid n m o lines c)
    (hstep : ∀ s c, Amid n m c [] c → Steady c (step s) (step' s) c (Tried n m c)) :
    Steady o (iterate step n s) (iterate step' m s) c fun _ c' => Amid n m o lines c' := by
  refine .iterate (I := fun _ c' => Amid n m o lines c') h h.left h.right fun s c' h' => ?_
  have hround := hstep s c' h'.anew
  refine (hround.since h'.onward).mono fun r c'' hr => ?_
  obtain ⟨passed, hpassed, hsome⟩ := hr
  refine ⟨h'.after hpassed.onward, fun hr => ?_⟩
  obtain ⟨line, passed, rfl⟩ := exists_cons_of_ne_nil (hsome hr)
  exact hpassed.remaining_lt

/-- A round around an expression: if the loop goes on, a token of its line has been passed. -/
def Extended (c : Cursor) (r : Option Expr) (c' : Cursor) : Prop :=
  c.Onward c' ∧ ∀ e, r = some e → c.Crosses c' e.line

lemma Extended.none (h : c.Onward c') : Extended c none c' := ⟨h, nofun⟩

lemma Extended.some (h : Amid n m c lines c') (hl : e.line ∈ lines) : Extended c (some e) c' := by
  refine ⟨h.onward, ?_⟩
  rintro _ ⟨⟩
  exact h.crosses _ hl

/-- A loop of such rounds passes a token of the line of its expression. -/
lemma Amid.loop_expr {step step' : Expr → Production (Option Expr)} (h : Amid n m o [e.line] c)
    (hstep : ∀ e c, Amid n m c [] c → Steady c (step e) (step' e) c (Extended c)) :
    Steady o (iterate step n e) (iterate step' m e) c fun e c' => o.Onward c' ∧
    o.Crosses c' e.line := by
  refine (Steady.iterate (I := fun e c' => Amid n m o [e.line] c') h h.left h.right
    fun e c' h' => ?_).mono
    fun e c' h' => h'.advances
  have hround := hstep e c' h'.anew
  refine (hround.since h'.onward).mono fun r c'' hr => ?_
  cases r with
  | none => exact ⟨h'.after hr.1, nofun⟩
  | some e' =>
    have hline := hr.2 e' rfl
    refine ⟨⟨(h'.after hr.1).onward, (h'.after hr.1).left, (h'.after hr.1).right, ?_⟩,
      fun _ => hline.remaining_lt⟩
    exact forall_mem_singleton.mpr (h'.onward.crosses hline)

end Steps

end Production

namespace Grammar

open Production

variable {n m room : Nat} {I J : Inner} {o c : Cursor} {lines : List Nat}

/-- Inner expressions, for two readers with different numbers of rounds. -/
def InnerAdvances (n m : Nat) (I J : Inner) : Prop :=
  ∀ level room c, c.Closed → c.remaining < n → c.remaining < m →
  Advances (I level room) (J level room) c

lemma InnerAdvances.here (hI : InnerAdvances n m I J) (level : Level) (room : Nat)
    (h : Amid n m o lines c) :
    Advances (I level room) (J level room) c := hI level room c h.onward.closed h.left h.right

lemma InnerAdvances.nested (hI : InnerAdvances n m I J) (level : Level) (h : Amid n m o lines c) :
    Advances (nested room (I level)) (nested room (J level)) c :=
  .nested (.refl h.onward.closed) fun less => hI.here level less h

/-- One round of the loop that passes tokens. -/
def skipRound (kinds : List TokenKind) (_ : Unit) : Production (Option Unit) := do
  if kinds.contains (← cursor).here.kind then
    let _ ← take
    return some ()
  else return none

/-- A round that skips passes a token or ends. -/
lemma tried_skipRound {kinds : List TokenKind} {u : Unit} (hend : TokenKind.eof ∉ kinds)
    (h : Amid n m c [] c) :
    Steady c (skipRound kinds u) (skipRound kinds u) c (Tried n m c) := by
  refine .cursor ?_
  split
  · rename_i hk
    have hne : c.here.kind ≠ .eof := by
      intro he
      rw [he] at hk
      exact hend (contains_iff_mem.mp hk)
    exact .take (.pure (.some (h.next hne)))
  · exact .pure (.none h)

section Parts

variable (hI : InnerAdvances n m I J) {line : Nat}
include hI

lemma tried_commaRound {items : List Expr} (h : Amid n m c [] c) :
    Steady c (commaRound (innerExpression I room) items)
    (commaRound (innerExpression J room) items) c (Tried n m c) :=
  h.accept (fun h => (hI.nested .disjunction h).bind h fun _ _ h => .pure (.some h))
  (.pure (.none h))

lemma proceeds_commaSeparated (h : Amid n m o lines c) :
    Proceeds (commaSeparated n (innerExpression I room))
    (commaSeparated m (innerExpression J room)) c :=
  (hI.nested .disjunction h).bind h.anew fun _ _ h =>
  (h.loop fun _ _ h => tried_commaRound hI h).mono fun _ _ h => h.onward

lemma proceeds_parenthesized (h : Amid n m o lines c) :
    Proceeds (parenthesized n I room) (parenthesized m J room) c := by
  refine .cursor ?_
  split
  · exact h.anew.require fun h => .pure h.onward
  · exact (proceeds_commaSeparated hI h).bind h.anew fun args c' h =>
      h.require fun h => .pure h.onward

/-- A round of arguments passes its comma or `and`. -/
lemma tried_argumentRound {args : List Expr} (h : Amid n m c [] c) :
    Steady c (argumentRound I room args) (argumentRound J room args) c (Tried n m c) := by
  refine .cursor ?_
  split
  · rename_i hsees
    have hne : c.here.kind ≠ .eof := by
      intro he
      simp [seesAnd, Cursor.sees, he] at hsees
    have hnext := h.next hne
    exact .take ((hI.here .comparison room hnext).bind hnext fun _ _ h => .pure (.some h))
  · exact .pure (.none h)

lemma proceeds_naturalArguments (h : Amid n m o lines c) :
    Proceeds (naturalArguments n I room) (naturalArguments m J room) c := by
  refine .cursor ?_
  split
  · exact .pure h.anew.onward
  · exact (hI.here .comparison room h).bind h.anew fun _ _ h =>
      (h.loop fun _ _ h => tried_argumentRound hI h).mono
      fun _ _ h => h.onward

lemma advances_listElement (h : Amid n m o lines c) :
    Advances (listElement I room) (listElement J room) c := by
  refine .cursor ?_
  dsimp only
  split
  · rename_i hk
    exact .take (.pure (h.anew.past hk).advances)
  · exact hI.here .unary room h

/-- A round of elements passes its comma or `and`. -/
lemma tried_elementRound {elements : List Expr} (h : Amid n m c [] c) :
    Steady c (elementRound I room elements) (elementRound J room elements) c (Tried n m c) := by
  have helement {c' : Cursor} {line : Nat} {lines : List Nat} (h : Amid n m c (line :: lines) c') :
      Steady c (do return some (elements ++ [← listElement I room]))
      (do return some (elements ++ [← listElement J room]))
        c' (Tried n m c) := (advances_listElement hI h).bind h fun _ _ h => .pure (.some h)
  refine h.accept (fun h => h.accept (fun h => helement h) (helement h)) (.cursor ?_)
  split
  · rename_i hsees
    exact .take (helement (h.past (kind_of_seesAnd hsees)))
  · exact .pure (.none h)

lemma steady_spelledList (h : Amid n m o (line :: lines) c) :
    Steady o (spelledList n I room line) (spelledList m J room line) c fun e c' => o.Onward c' ∧
    o.Crosses c' e.line :=
  (advances_listElement hI h).bind h fun _ _ h =>
  .bind (h.loop fun _ _ h => tried_elementRound hI h)
    fun _ _ h => .pure ⟨h.onward, h.crosses line (by simp)⟩

/-- A field leads onward. -/
lemma proceeds_recordField (h : Amid n m o lines c) :
    Proceeds (recordField n I room) (recordField m J room) c := by
  have hvalue {o c : Cursor} {lines : List Nat} {key : String} (h : Amid n m o lines c) :
      Steady o (fieldValue n I room key) (fieldValue m J room key) c fun _ c' => o.Onward c' :=
    h.require fun h => (hI.nested .disjunction h).bind h fun e c' h =>
      (h.skipAll (by decide)).bind h fun _ c' h => .pure h.onward
  refine (h.skipAll (by decide)).bind h.anew fun _ c' h => .cursor ?_
  split
  · exact .take (hvalue h.step)
  · exact .take (hvalue h.step)
  · exact .expected h.onward

lemma tried_fieldRound {fields : List (String × Expr)} (h : Amid n m c [] c) :
    Steady c (fieldRound n I room fields) (fieldRound m J room fields) c (Tried n m c) :=
  h.accept (fun h => (proceeds_recordField hI h).bind h fun _ _ h => .pure (.some h))
  (.pure (.none h))

/-- A record passes a token of its line. -/
lemma steady_recordLiteral (h : Amid n m o (line :: lines) c) :
    Steady o (recordLiteral n I room line) (recordLiteral m J room line) c fun e c' =>
      o.Onward c' ∧ o.Crosses c' e.line := by
  have hclose {fields : List (String × Expr)} {c : Cursor} (h : Amid n m o (line :: lines) c) :
      Steady o (closedRecord n line fields) (closedRecord m line fields) c fun e c' =>
        o.Onward c' ∧ o.Crosses c' e.line :=
    (h.skipAll (by decide)).bind h fun _ c' h => h.require fun h =>
    .pure ⟨h.onward, h.crosses line (by simp)⟩
  refine (h.skipAll (by decide)).bind h fun _ c' h => .cursor ?_
  split
  · exact hclose h
  · exact (proceeds_recordField hI h).bind h fun _ _ h =>
      .bind (h.loop fun _ _ h => tried_fieldRound hI h)
      fun _ _ h => hclose h

lemma steady_lengthCall (h : Amid n m o (line :: lines) c) :
    Steady o (lengthCall n I room line) (lengthCall m J room line) c fun e c' => o.Onward c' ∧
    o.Crosses c' e.line := by
  refine h.accept (fun h => ?_) (h.accept (fun h => ?_) (.expected h.onward))
  · exact (hI.here .call room h).bind h fun e c' h => .pure ⟨h.onward, h.crosses line (by simp)⟩
  · exact (proceeds_parenthesized hI h).bind h fun args c' h =>
      .pure ⟨h.onward, h.crosses line (by simp)⟩

/-- An operand passes a token of its line. -/
lemma advances_primary (h : Outset n m c) : Advances (primary n I room) (primary m J room) c := by
  refine .cursor ?_
  dsimp only
  split
  any_goals
    rename_i hk
    exact .take (.pure (h.past hk).advances)
  · rename_i hk
    exact .take ((h.past hk).name fun _ h => .pure ⟨h.onward, h.crosses _ (by simp [Expr.line])⟩)
  · rename_i hk
    exact .take (steady_lengthCall hI (h.past hk))
  · rename_i hk
    split
    · exact .take (.take (steady_spelledList hI (h.past hk).step))
    · exact .expected (.refl h.closed)
  · -- the line of what stands between parentheses is that of a token of its own
    rename_i hk
    have hnext := h.past hk
    exact .take ((hI.nested .disjunction hnext).bind hnext fun e c' h => h.require fun h =>
      .pure ⟨h.onward, h.crosses _ (by simp [Expr.line])⟩)
  · rename_i hk
    have hnext := h.past hk
    refine .take (.cursor ?_)
    split
    · exact hnext.require fun h => .pure ⟨h.onward, h.crosses _ (by simp [Expr.line])⟩
    · exact (proceeds_commaSeparated hI hnext).bind hnext fun es c' h => h.require fun h =>
        .pure ⟨h.onward, h.crosses _ (by simp [Expr.line])⟩
  · rename_i hk
    exact .take (steady_recordLiteral hI (h.past hk))
  · exact .expected (.refl h.closed)

/-- A suffix passes a token of its line. -/
lemma extended_suffix {object : Expr} (h : Amid n m c [] c) :
    Steady c (suffix n I room object) (suffix m J room object) c (Extended c) := by
  have hnatural (hne : c.here.kind ≠ .eof) :
      Steady c (naturalCall n I room object) (naturalCall m J room object) c (Extended c) :=
    .take ((h.next hne).proceeds.bind (h.next hne) fun _ _ h =>
      (proceeds_naturalArguments hI h).bind h fun _ _ h => .pure (.some h (by simp [Expr.line])))
  refine .cursor ?_
  split
  · rename_i hk
    have hnext := h.past hk
    exact .take (hnext.proceeds.bind hnext fun _ _ h =>
      (proceeds_parenthesized hI h).bind h fun _ _ h => .pure (.some h (by simp [Expr.line])))
  · rename_i hk
    have hnext := h.past hk
    exact .take (hnext.proceeds.bind hnext fun _ _ h => .pure (.some h (by simp [Expr.line])))
  · rename_i hk
    have hnext := h.past hk
    exact .take ((hI.nested .disjunction hnext).bind hnext fun _ _ h => h.require fun h =>
      .pure (.some h (by simp [Expr.line])))
  · rename_i hk
    exact hnatural (by rw [hk]; rintro ⟨⟩)
  · rename_i hk
    exact hnatural (by rw [hk]; rintro ⟨⟩)
  · exact .pure (.none h.onward)

lemma advances_call (h : Outset n m c) : Advances (call n I room) (call m J room) c :=
  (advances_primary hI h).first h fun _ _ h' => h'.loop_expr fun _ _ h => extended_suffix hI h

/-- So does an operand with an operator in front. -/
lemma advances_unary (h : Outset n m c) : Advances (unary n I room) (unary m J room) c := by
  refine .cursor ?_
  split
  any_goals
    rename_i hk
    have hnext := h.past hk
    exact .take ((hI.nested .unary hnext).bind hnext fun e c' h =>
      .pure ⟨h.onward, h.crosses _ (by simp [Expr.line])⟩)
  · exact advances_call hI h

end Parts

section Operators

variable {operator : Production (Option (BinaryOp × Nat))} {operand operand' : Production Expr}

/-- An operator, if there is one, is read with a token of its line. -/
def Signals (operator : Production (Option (BinaryOp × Nat))) : Prop :=
  ∀ {n m : Nat} {c : Cursor}, Amid n m c [] c → Steady c operator operator c fun r c' =>
    c.Onward c' ∧ ∀ op line, r = some (op, line) → c.Crosses c' line

lemma Amid.signals {n m : Nat} {c c' : Cursor} {lines : List Nat} {op : BinaryOp} {line : Nat}
    (h : Amid n m c lines c') (hl : line ∈ lines) :
    c.Onward c' ∧ ∀ op' line', some (op, line) = some (op', line') → c.Crosses c' line' := by
  refine ⟨h.onward, ?_⟩
  rintro _ _ ⟨⟩
  exact h.crosses line hl

/-- An operator of products is read with its line. -/
lemma signals_factorOperator : Signals factorOperator := by
  intro n m c h
  refine .cursor ?_
  split
  any_goals
    rename_i hk
    exact .take (.pure (Amid.signals (h.past hk) (by simp)))
  · rename_i hk
    exact .take ((h.past hk).accept (fun h => .pure (Amid.signals h (by simp)))
      (.pure (Amid.signals (h.past hk) (by simp))))
  · exact .pure ⟨h.onward, by rintro _ _ ⟨⟩⟩

/-- One of sums, too. -/
lemma signals_termOperator : Signals termOperator := by
  intro n m c h
  refine .cursor ?_
  split
  any_goals
    rename_i hk
    exact .take (.pure (Amid.signals (h.past hk) (by simp)))
  · rename_i hk
    exact .take ((h.past hk).require fun h => .pure (Amid.signals h (by simp)))
  · exact .pure ⟨h.onward, by rintro _ _ ⟨⟩⟩

/-- One of comparisons, too. -/
lemma signals_comparisonOperator : Signals comparisonOperator := by
  intro n m c h
  refine .cursor ?_
  split
  · rename_i op hop
    have hne : c.here.kind ≠ .eof := by
      intro he
      rw [he] at hop
      cases hop
    exact .take (.pure (Amid.signals (h.next hne) (by simp)))
  · exact .pure ⟨h.onward, by rintro _ _ ⟨⟩⟩

lemma signals_andOperator : Signals andOperator := by
  intro n m c h
  refine .cursor ?_
  split
  · rename_i hsees
    exact .take (.pure (Amid.signals (h.past (kind_of_seesAnd hsees)) (by simp)))
  · exact .pure ⟨h.onward, by rintro _ _ ⟨⟩⟩

lemma signals_orOperator : Signals orOperator := by
  intro n m c h
  refine .cursor ?_
  split
  · rename_i hsees
    exact .take (.pure (Amid.signals (h.past (of_decide_eq_true hsees)) (by simp)))
  · exact .pure ⟨h.onward, by rintro _ _ ⟨⟩⟩

section

variable (hoperator : Signals operator) (hoperand : ∀ c, Outset n m c → Advances operand operand' c)
include hoperator hoperand

/-- An operator and its operand pass a token of its line. -/
lemma extended_operatorRound {left : Expr} (h : Amid n m c [] c) :
    Steady c (operatorRound operator operand left)
    (operatorRound operator operand' left) c (Extended c) := by
  refine .bind (hoperator h) fun r c' hr => ?_
  cases r with
  | none => exact .pure (.none hr.1)
  | some r =>
    obtain ⟨op, line⟩ := r
    have hop := h.cross hr.1 (hr.2 op line rfl)
    exact (hoperand c' hop.outset).bind hop fun _ _ h => .pure (.some h (by simp [Expr.line]))

lemma advances_leftAssociative (h : Outset n m c) :
    Advances (leftAssociative n operator operand) (leftAssociative m operator operand') c :=
  (hoperand c h).first h fun _ _ h => h.loop_expr fun _ _ h =>
  extended_operatorRound hoperator hoperand h

end

end Operators

section Levels

variable (hI : InnerAdvances n m I J)
include hI

lemma advances_factor (h : Outset n m c) : Advances (factor n I room) (factor m J room) c :=
  advances_leftAssociative signals_factorOperator (fun _ h => advances_unary hI h) h

lemma advances_term (h : Outset n m c) : Advances (term n I room) (term m J room) c :=
  advances_leftAssociative signals_termOperator (fun _ h => advances_factor hI h) h

lemma advances_comparison (h : Outset n m c) :
    Advances (comparison n I room) (comparison m J room) c :=
  advances_leftAssociative signals_comparisonOperator (fun _ h => advances_term hI h) h

/-- So does a comparison with `is`. -/
lemma extended_equalityRound {left : Expr} (h : Amid n m c [] c) :
    Steady c (equalityRound n I room left) (equalityRound m J room left) c (Extended c) := by
  refine .cursor ?_
  split
  · rename_i hsees
    have hnext := h.past (of_decide_eq_true hsees)
    refine .take (hnext.proceeds.bind hnext fun r c' h => ?_)
    cases r with
    | some op =>
      exact (advances_comparison hI h.outset).bind h fun _ _ h =>
        .pure (.some h (by simp [Expr.line]))
    | none =>
      exact (advances_comparison hI h.outset).bind h fun _ _ h => h.proceeds.bind h
        fun _ _ h => .pure (.some h (by simp [Expr.line]))
  · exact .pure (.none h.onward)

lemma advances_equality (h : Outset n m c) : Advances (equality n I room) (equality m J room) c :=
  (advances_comparison hI h).first h fun _ _ h => h.loop_expr fun _ _ h =>
  extended_equalityRound hI h

lemma advances_conjunction (h : Outset n m c) :
    Advances (conjunction n I room) (conjunction m J room) c :=
  advances_leftAssociative signals_andOperator (fun _ h => advances_equality hI h) h

lemma advances_disjunction (h : Outset n m c) :
    Advances (disjunction n I room) (disjunction m J room) c :=
  advances_leftAssociative signals_orOperator (fun _ h => advances_conjunction hI h) h

/-- Expressions of every level pass a token of their line. -/
lemma advances_atLevel {level : Level} (h : Outset n m c) :
    Advances (atLevel n I room level) (atLevel m J room level) c := by
  cases level with
  | disjunction => exact advances_disjunction hI h
  | comparison => exact advances_comparison hI h
  | unary => exact advances_unary hI h
  | call => exact advances_call hI h

end Levels

/-- Expressions with something else where the depth ends. -/
def exprFrom (base : Inner) : Nat → Inner
  | 0 => base
  | tokens + 1 => fun level room => atLevel tokens (exprFrom base tokens) room level

lemma exprAt_eq : exprAt n = exprFrom (fun _ _ => expected "expression") n := by
  induction n with
  | zero => rfl
  | succ n ih =>
    funext level room
    rw [exprFrom, ← ih]
    rfl

/-- What stands where the depth ends is never read. -/
lemma innerAdvances_exprFrom {base base' : Inner} :
    InnerAdvances n m (exprFrom base n) (exprFrom base' m) := by
  induction n generalizing m with
  | zero =>
    intro level room c hc hn hm
    omega
  | succ n ih =>
    intro level room c hc hn hm
    cases m with
    | zero => omega
    | succ m => exact advances_atLevel ih ⟨hc, Nat.le_of_lt_succ hn, Nat.le_of_lt_succ hm⟩

lemma innerAdvances_exprAt : InnerAdvances n m (exprAt n) (exprAt m) := by
  rw [exprAt_eq, exprAt_eq]
  exact innerAdvances_exprFrom

lemma advances_value (h : Amid n m o lines c) : Advances (value n room) (value m room) c :=
  innerAdvances_exprAt.nested .disjunction h

end Grammar

end Colloquy
