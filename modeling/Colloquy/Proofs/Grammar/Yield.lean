import Colloquy.Proofs.Grammar.Agreement

/-!
# What a production makes of a row of tokens

`Production.Yields p ts a k` says that `p` reads exactly the tokens `ts` in front of the cursor `k`,
and makes `a` of them.
-/

namespace Colloquy

open Cursor List

namespace Cursor

/-- The cursor at the first of some tokens in front of another. -/
def before (k : Cursor) : List Token → Cursor
  | [] => k
  | t :: ts => ⟨t, ts ++ k.here :: k.ahead, k.depth⟩

variable {k : Cursor} {t : Token} {ts us : List Token}

lemma before_append : k.before (ts ++ us) = (k.before us).before ts := by
  cases ts with
  | nil => rfl
  | cons t ts =>
    cases us with
    | nil => rw [append_nil]; rfl
    | cons u us => simp [before]

lemma next_before (h : t.kind ≠ .eof) : (k.before (t :: ts)).next = k.before ts := by
  cases ts with
  | nil | cons u us => simp [before, next, h]

lemma remaining_before : (k.before ts).remaining = ts.length + k.remaining := by
  cases ts with
  | nil => simp [before]
  | cons t ts =>
    simp only [before, remaining, length_append, length_cons]
    omega

lemma seesNext_before {kind : TokenKind} (h : t.kind ≠ .eof) :
    (k.before (t :: ts)).seesNext kind = (k.before ts).sees kind := by
  rw [seesNext, peek_one h, next_before h, sees]

end Cursor

/-- A kind of tokens other than the end of the input. -/
class TokenKind.Passable (kind : TokenKind) : Prop where
  ne_eof : kind ≠ .eof

instance {kind : TokenKind} [kind.Plain] : kind.Passable := ⟨TokenKind.Plain.ne_eof⟩

instance : TokenKind.newline.Passable := ⟨nofun⟩

instance : TokenKind.indent.Passable := ⟨nofun⟩

instance : TokenKind.dedent.Passable := ⟨nofun⟩

namespace Production

variable {α β σ : Type} {p : Production α} {a : α} {b : β} {k : Cursor} {t : Token}
  {ts us : List Token} {kind : TokenKind}

lemma run_cursor_bind {f : Cursor → Production α} : run (cursor >>= f) k = run (f k) k := rfl

/-- A production reads these tokens in front of a cursor and makes this of them. -/
def Yields (p : Production α) (ts : List Token) (a : α) (k : Cursor) : Prop :=
  p.run (k.before ts) = (.ok a, k)

lemma bind_assoc {γ : Type} {f : α → Production β} {g : β → Production γ} :
    p >>= f >>= g = p >>= fun a => f a >>= g := by
  funext c
  change Production.bind (Production.bind p f) g c =
    Production.bind p (fun a => Production.bind (f a) g) c
  unfold Production.bind
  rcases p c with ⟨_ | a, c'⟩ <;> rfl

namespace Yields

variable {f : α → Production β} {what word : String} {step : σ → Production (Option σ)}
  {rounds : Nat} {s : σ}

lemma pure : Yields (Pure.pure a) [] a k := rfl

lemma bind (h : Yields p ts a (k.before us)) (h' : Yields (f a) us b k) :
    Yields (p >>= f) (ts ++ us) b k := by
  unfold Yields at h h' ⊢
  rw [before_append, run_bind, h]
  exact h'

lemma map {f : α → β} (h : Yields p ts a k) :
    Yields (p >>= fun a => Pure.pure (f a)) ts (f a) k := by
  rw [← append_nil ts]
  exact bind h pure

lemma branch {q : Production α} {flag : Bool}
    (h : Yields (if flag then p else q) ts a (k.before us)) (h' : Yields (f a) us b k) :
    Yields (if flag then p >>= f else q >>= f) (ts ++ us) b k := by
  cases flag <;> exact h.bind h'

lemma still (h : p.run (k.before ts) = (.ok a, k.before ts)) (h' : Yields (f a) ts b k) :
    Yields (p >>= f) ts b k := by
  have hnil : Yields p [] a (k.before ts) := h
  exact hnil.bind h'

lemma cursor {f : Cursor → Production β} (h : Yields (f (k.before ts)) ts b k) :
    Yields (Production.cursor >>= f) ts b k := h

lemma take_one [hp : kind.Passable] (hk : t.kind = kind) : Yields Production.take [t] t k := by
  change (Except.ok t, Cursor.next _) = _
  rw [next_before (hk ▸ hp.ne_eof)]
  rfl

lemma take [kind.Passable] {f : Token → Production β} (hk : t.kind = kind)
    (h : Yields (f t) ts b k) :
    Yields (Production.take >>= f) (t :: ts) b k := (take_one hk).bind h

lemma require_one [hp : kind.Passable] (hk : t.kind = kind) :
    Yields (Production.require kind what) [t] t k := by
  unfold Yields
  rw [run_require hk, next_before (hk ▸ hp.ne_eof)]
  rfl

lemma require [kind.Passable] {f : Token → Production β} (hk : t.kind = kind)
    (h : Yields (f t) ts b k) : Yields (Production.require kind what >>= f) (t :: ts) b k :=
  (require_one hk).bind h

lemma accept [hp : kind.Passable] {f : Bool → Production β} (hk : t.kind = kind)
    (h : Yields (f true) ts b k) :
    Yields (Production.accept kind >>= f) (t :: ts) b k := by
  have hone : Yields (Production.accept kind) [t] true (k.before ts) := by
    unfold Yields
    rw [run_accept hk, next_before (hk ▸ hp.ne_eof)]
    rfl
  exact hone.bind h

lemma accept_ne {f : Bool → Production β} (hk : (k.before ts).here.kind ≠ kind)
    (h : Yields (f false) ts b k) :
    Yields (Production.accept kind >>= f) ts b k := still (run_accept_ne hk) h

lemma name_last (hk : t.kind = .identifier word) : Yields (Production.name what) [t] word k := by
  unfold Yields
  rw [run_name hk, next_before (by rw [hk]; rintro ⟨⟩)]
  rfl

lemma name {f : String → Production β} (hk : t.kind = .identifier word)
    (h : Yields (f word) ts b k) : Yields (Production.name what >>= f) (t :: ts) b k :=
  (name_last hk).bind h

lemma nested {room : Nat} {inner : Nat → Production α} (h : Yields (inner room) ts a k) :
    Yields (Production.nested (room + 1) inner) ts a k := h

lemma iterate_none (h : (step s).run k = (.ok none, k)) :
    Yields (iterate step rounds s) [] s k := by
  cases rounds with
  | zero => rfl
  | succ rounds =>
    change run (iterate step (rounds + 1) s) k = _
    rw [run_iterate, h]

/-- A loop reads a round and then the rest. -/
lemma iterate_some {s' s'' : σ} (h : Yields (step s) ts (some s') (k.before us))
    (h' : Yields (iterate step rounds s') us s'' k) :
    Yields (iterate step (rounds + 1) s) (ts ++ us) s'' k := by
  unfold Yields at h h' ⊢
  rw [before_append, run_iterate, h]
  exact h'

lemma skipAll {kinds : List TokenKind} {f : Unit → Production β}
    (hk : kinds.contains (k.before ts).here.kind = false) (h : Yields (f ()) ts b k) :
    Yields (Production.skipAll kinds rounds >>= f) ts b k := by
  refine still ?_ h
  cases rounds with
  | zero => rfl
  | succ rounds =>
    rw [run_skipAll_succ, hk]
    rfl

end Yields

end Production

end Colloquy
