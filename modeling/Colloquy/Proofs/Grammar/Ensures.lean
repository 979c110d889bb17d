import Colloquy.Proofs.Grammar.Seam

/-!
# What holds when a production succeeds

`Production.Ensures p c post` says that `post` holds of what `p` reads from `c` on and of the cursor
after it, if `p` succeeds.
-/

namespace Colloquy

namespace Production

variable {α β σ : Type} {p : Production α} {c : Cursor} {kind : TokenKind} {what : String}
  {post : β → Cursor → Prop}

/-- If the production succeeds here, its result and cursor are as stated. -/
def Ensures (p : Production α) (c : Cursor) (post : α → Cursor → Prop) : Prop :=
  ∀ a c', p.run c = (.ok a, c') → post a c'

namespace Ensures

variable {f : α → Production β}

lemma pure {b : β} (h : post b c) : Ensures (Pure.pure b) c post := by
  rintro _ _ ⟨⟩
  exact h

lemma mono {post' : β → Cursor → Prop} {p : Production β} (h : Ensures p c post')
    (hpost : ∀ b c', post' b c' → post b c') : Ensures p c post :=
  fun b c' hr => hpost b c' (h b c' hr)

lemma bind {mid : α → Cursor → Prop} (h : Ensures p c mid)
    (hf : ∀ a c', mid a c' → Ensures (f a) c' post) : Ensures (p >>= f) c post := by
  intro b c'' hr
  obtain ⟨a, c', hp, hr⟩ := run_bind_ok hr
  exact hf a c' (h a c' hp) b c'' hr

lemma skip (h : ∀ a c', Ensures (f a) c' post) : Ensures (p >>= f) c post :=
  bind (fun _ _ _ => trivial) fun a c' (_ : True) => h a c'

lemma expected : Ensures (Production.expected what) c post := by rintro _ _ ⟨⟩

lemma invalid {token : Token} {violation : Violation} :
    Ensures (Production.invalid token violation) c post := by
  rintro _ _ ⟨⟩

lemma cursor {f : Cursor → Production β} (h : Ensures (f c) c post) :
    Ensures (Production.cursor >>= f) c post := h

lemma take {f : Token → Production β} (h : Ensures (f c.here) c.next post) :
    Ensures (Production.take >>= f) c post := h

lemma setDepth {change : Nat → Nat} {f : Unit → Production β}
    (h : Ensures (f ()) { c with depth := change c.depth } post) :
    Ensures (Production.setDepth change >>= f) c post := h

/-- What holds after a required token. -/
lemma require {f : Token → Production β} (h : c.here.kind = kind → Ensures (f c.here) c.next post) :
    Ensures (Production.require kind what >>= f) c post := by
  by_cases hk : c.here.kind = kind
  · refine bind (fun a c' hr => ?_) (fun a c' (hmid : a = c.here ∧ c' = c.next) => ?_)
    · rw [run_require hk] at hr
      cases hr
      exact ⟨rfl, rfl⟩
    · rw [hmid.1, hmid.2]
      exact h hk
  · intro b c' hr
    rw [run_bind, run_require_ne hk] at hr
    cases hr

/-- What holds whether a token is accepted or not. -/
lemma accept {f : Bool → Production β} (htrue : c.here.kind = kind → Ensures (f true) c.next post)
    (hfalse : c.here.kind ≠ kind → Ensures (f false) c post) :
    Ensures (Production.accept kind >>= f) c post := by
  intro b c' hr
  by_cases hk : c.here.kind = kind
  · rw [run_bind, run_accept hk] at hr
    exact htrue hk b c' hr
  · rw [run_bind, run_accept_ne hk] at hr
    exact hfalse hk b c' hr

lemma name {f : String → Production β} (h : ∀ word, c.here.kind = .identifier word →
    Ensures (f word) c.next post) :
    Ensures (Production.name what >>= f) c post := by
  intro b c' hr
  by_cases hk : ∃ word, c.here.kind = .identifier word
  · obtain ⟨word, hword⟩ := hk
    rw [run_bind, run_name hword] at hr
    exact h word hword b c' hr
  · rw [run_bind, run_name_ne fun word hword => hk ⟨word, hword⟩] at hr
    cases hr

lemma nested {room : Nat} {inner : Nat → Production β}
    (h : ∀ less, room = less + 1 → Ensures (inner less) c post) :
    Ensures (Production.nested room inner) c post := by
  cases room with
  | zero => exact invalid
  | succ less => exact h less rfl

/-- A loop keeps what each of its rounds keeps. -/
lemma iterate {step : σ → Production (Option σ)} {rounds : Nat} {s : σ}
    {I : σ → Cursor → Prop} (h : I s c) (hstep : ∀ s c, I s c →
      Ensures (step s) c fun r c' => I (r.getD s) c') :
    Ensures (Production.iterate step rounds s) c I := by
  induction rounds generalizing s c with
  | zero => exact pure h
  | succ rounds ih =>
    refine bind (hstep s c h) fun r c' hr => ?_
    cases r with
    | none => exact pure hr
    | some s' => exact ih hr

end Ensures

end Production

end Colloquy
