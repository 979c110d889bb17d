import Colloquy.Proofs.Machine.Backdrop
import Colloquy.Proofs.Machine.Inversion

/-!
# The caller's variables

`restored` is the footing, the local variables and the depth of calls, that comes back when frames
have been left. While an expression is evaluated it is always the one at the beginning
(`step_restored`).
-/

namespace Colloquy

/-- The local variables and the depth of calls. -/
abbrev Footing : Type := Table Value × Nat

/-- The footing of a state. -/
def State.footing (s : State) : Footing := (s.store.locals, s.depth)

/-- The footing that comes back when frames have been left. -/
def restored : List Frame → Footing → Footing
  | [], current => current
  | .scope saved depth _ :: fs, _ => restored fs (saved, depth)
  | _ :: fs, current => restored fs current

lemma restored_append {new fs : List Frame} {current : Footing}
    (h : new.any Frame.isScope = false) :
    restored (new ++ fs) current = restored fs current := by
  induction new with
  | nil => rfl
  | cons f new ih =>
    rw [List.any_cons, Bool.or_eq_false_iff] at h
    cases f with
    | scope saved depth detached => cases h.1
    | _ => exact ih h.2

lemma restored_of_any_isScope {fs : List Frame} {a b : Footing} (h : fs.any Frame.isScope = true) :
    restored fs a = restored fs b := by
  induction fs with
  | nil => cases h
  | cons f fs ih =>
    cases f with
    | scope saved depth detached => rfl
    | _ => exact ih h

namespace Thread

/-- A step amid an expression keeps what will come back. -/
lemma step_restored {t : Thread} {s : State} (ty : t.Typed .expression) :
    restored (t.step s).1.frames (t.step s).2.footing = restored t.frames s.footing := by
  have ty' : (t.step s).1.Typed .expression := step_typed ty
  have hc : Change s _ t (t.step s) := step_change ty
  generalize t.step s = r at ty' hc
  cases hc with
  | @work top c fs r p htop lk h =>
    rw [restored_append htop]
    -- a write comes from statements, and statements of an expression stand above the frame of a
    -- call
    have written {c' : Control} {new : List Frame} {current : Footing} (hnew : Spans p c' new)
        (hc' : c'.phrase? = some .statements) (hty : Thread.Typed ⟨c', new ++ fs⟩ .expression) :
        restored (new ++ fs) current = restored fs s.footing := by
      obtain ⟨_, _, hnone⟩ := hnew
      have hany := (hty.linked hc').any_isScope
      rw [List.any_append, hnone, Bool.false_or] at hany
      rw [restored_append hnone]
      exact restored_of_any_isScope hany
    cases h with
    | calm new hnew hcalm =>
      obtain ⟨_, _, hnone⟩ := hnew
      rw [restored_append hnone, State.footing, hcalm.store, hcalm.depth]
      rfl
    | assign new hnew hc' | remove new hnew hc' => exact written hnew hc' ty'
    | enter new _ _ hnew _ => exact restored_append hnew
  | linger => rfl
  | leave => rfl

end Thread

end Colloquy
