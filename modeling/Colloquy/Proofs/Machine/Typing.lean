import Mathlib.Tactic.Lemma
import Colloquy.Machine.Step

/-!
# Typing of threads

A control is amid an expression, which comes to a value, or a row of statements, which comes to a
flow. Only the frame of a call turns statements into an expression. A thread is well typed if each
frame takes what the one above it comes to.
-/

namespace Colloquy

/-- The kinds of phrases. -/
inductive Phrase where
  | expression
  | statements
deriving DecidableEq

namespace Frame

/-- The kind of phrase whose outcome a frame waits for. -/
def takes : Frame → Phrase
  | .scope .. | .rest _ | .again .. | .nextItem .. | .mainLine _ => .statements
  | _ => .expression

/-- The kind of phrase that a frame goes on with. -/
def gives : Frame → Phrase
  | .leftOperand .. | .rightOperand .. | .operand .. | .object
    .. | .property .. | .argument .. | .element ..
  | .field .. | .scope .. => .expression
  | _ => .statements

/-- Whether a frame is the one of a call. -/
def isScope : Frame → Bool
  | .scope .. => true
  | _ => false

lemma isScope_of_gives {f : Frame} (ht : f.takes = .statements) (hg : f.gives = .expression) :
    f.isScope = true := by
  cases f <;> first | rfl | simp [takes, gives] at ht hg

end Frame

/-- The kind of phrase that a control is amid; a fault may be amid either. -/
def Control.phrase? : Control → Option Phrase
  | .eval _ | .value _ | .asking | .answered _ => some .expression
  | .block _ | .loop .. | .items .. | .flow _ => some .statements
  | .fault _ => none
  | .paused next => next.phrase?

/-- A control may be in the middle of a phrase of some kind. -/
def Control.Reads (c : Control) (p : Phrase) : Prop := ∀ q, c.phrase? = some q → q = p

/-- Each frame takes what the one above it comes to, from the first kind to the second. -/
inductive Linked : Phrase → List Frame → Phrase → Prop where
  | nil {p} :
    Linked p [] p
  | cons {f fs q} :
    Linked f.gives fs q →
    Linked f.takes (f :: fs) q

/-- A thread is in the middle of a phrase of some kind. -/
def Thread.Typed (t : Thread) (q : Phrase) : Prop := ∃ p, t.control.Reads p ∧ Linked p t.frames q

lemma Linked.cons_inv {f : Frame} {fs p q} (lk : Linked p (f :: fs) q) :
    p = f.takes ∧ Linked f.gives fs q := by
  cases lk with
  | cons lk => exact ⟨rfl, lk⟩

lemma Linked.append {new fs : List Frame} {p r q} (above : Linked p new r) (below : Linked r fs q) :
    Linked p (new ++ fs) q := by
  induction above with
  | nil => exact below
  | cons _ ih => exact .cons (ih below)

lemma Linked.nil_inv {p q} (lk : Linked p [] q) : p = q := by
  cases lk with
  | nil => rfl

/-- Statements in an expression are in a call. -/
lemma Linked.any_isScope {fs} (lk : Linked .statements fs .expression) :
    fs.any Frame.isScope = true := by
  generalize hp : Phrase.statements = p at lk
  generalize hq : Phrase.expression = q at lk
  induction lk with
  | nil =>
    subst hp
    cases hq
  | @cons f fs q lk ih =>
    rw [List.any_cons]
    cases hg : f.gives with
    | expression => rw [Frame.isScope_of_gives hp.symm hg, Bool.true_or]
    | statements => rw [ih hg.symm hq, Bool.or_true]

section Threads

variable {fs : List Frame} {q : Phrase} {c : Control}

lemma Control.Reads.of_phrase? {p} (hc : c.phrase? = some p) : c.Reads p := by
  intro p' hp'
  rw [hc] at hp'
  exact (Option.some.inj hp').symm

lemma Thread.Typed.of_phrase {p} (hc : c.phrase? = some p) (lk : Linked p fs q) :
    Thread.Typed ⟨c, fs⟩ q := ⟨p, .of_phrase? hc, lk⟩

lemma Thread.Typed.linked {p} (ty : Thread.Typed ⟨c, fs⟩ q) (hc : c.phrase? = some p) :
    Linked p fs q := by
  obtain ⟨p', hr, lk⟩ := ty
  rw [hr p hc]
  exact lk

end Threads

end Colloquy
