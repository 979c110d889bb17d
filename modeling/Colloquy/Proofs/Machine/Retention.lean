import Colloquy.Proofs.Machine.Blame
import Colloquy.Proofs.Machine.Scope

/-!
# Variables that stay

A local variable goes away only if a statement deletes it or ends a loop over items of its name
(`Stmt.clears`). Calls bring their caller's variables back, so a variable that is not cleared is
held through every step (`Thread.step_holds`).
-/

namespace Colloquy

open List Bool

mutual

/-- Whether a statement, or one inside it, takes a variable away. -/
def Stmt.clears (name : String) : Stmt → Bool
  | .delete target scope _ => decide (scope = .plain ∧ target = name)
  | .forEach item _ body _ => decide (item = name) || Stmt.anyClears name body
  | .event _ _ body _ | .function _ _ body _ | .whileLoop _ body _ => Stmt.anyClears name body
  | .ifElse _ thenBody elseBody _ => Stmt.anyClears name thenBody || Stmt.branchClears name elseBody
  | _ => false

/-- Whether one of some statements takes a local variable away. -/
def Stmt.anyClears (name : String) : List Stmt → Bool
  | [] => false
  | s :: body => s.clears name || Stmt.anyClears name body

/-- Whether a branch, if there is one, takes it away. -/
def Stmt.branchClears (name : String) : Option (List Stmt) → Bool
  | none => false
  | some body => Stmt.anyClears name body

end

/-- Whether a node takes a local variable away. -/
def Node.clears (name : String) : Node → Bool
  | .expr _ => false
  | .stmt s => s.clears name

section Clearing

variable {name : String} {body : List Stmt} {n m : Node}

lemma Stmt.clears_of_mem {s : Stmt} (h : Stmt.anyClears name body = false) (hs : s ∈ body) :
    s.clears name = false := by
  induction hs with
  | head => exact (or_eq_false_iff.1 h).1
  | tail _ _ ih => exact ih (or_eq_false_iff.1 h).2

lemma Node.clears_of_mem_map (h : Stmt.anyClears name body = false) (hm : m ∈ body.map Node.stmt) :
    m.clears name = false := by
  obtain ⟨s, hs, rfl⟩ := mem_map.1 hm
  exact Stmt.clears_of_mem h hs

/-- The parts of a node that clears nothing clear nothing. -/
lemma Node.clears_part (h : n.clears name = false) (hm : m ∈ n.parts) : m.clears name = false := by
  cases m with
  | expr e => rfl
  | stmt s =>
    cases n with
    | expr e => cases e <;> simp [Node.parts] at hm
    | stmt t =>
      cases t with
      | event name timer body line | function name params body line => exact clears_of_mem_map h hm
      | ifElse condition thenBody elseBody line =>
        obtain ⟨hthen, helse⟩ := or_eq_false_iff.1 h
        rcases mem_append.1 hm with hm | hm
        · rcases mem_cons.1 hm with hm | hm
          · cases hm
          · exact clears_of_mem_map hthen hm
        · cases elseBody with
          | none => cases hm
          | some body => exact clears_of_mem_map helse hm
      | whileLoop condition body line =>
        rcases mem_cons.1 hm with hm | hm
        · cases hm
        · exact clears_of_mem_map h hm
      | forEach item iterable body line =>
        rcases mem_cons.1 hm with hm | hm
        · cases hm
        · exact clears_of_mem_map (or_eq_false_iff.1 h).2 hm
      | giveBack value line => cases value <;> simp [Node.parts] at hm
      | _ => simp [Node.parts] at hm

lemma Occurs.clears (h : Occurs body n) (hb : Stmt.anyClears name body = false) :
    n.clears name = false := by
  induction h with
  | top hs => exact Stmt.clears_of_mem hb hs
  | part _ hm ih => exact Node.clears_part ih hm

lemma Occurs.forEach_ne {item : String} {iterable : Expr} {round : List Stmt} {line : Nat}
    (h : Occurs body (.stmt (.forEach item iterable round line)))
    (hb : Stmt.anyClears name body = false) :
    item ≠ name :=
  of_decide_eq_false (or_eq_false_iff.1 (h.clears hb)).1

end Clearing

lemma Under.eq_own {known : List Stmt → Prop} {own body : List Stmt} {fs : List Frame}
    (h : Under known own body fs) (hs : fs.any Frame.isScope = false) : body = own := by
  induction h with
  | base => rfl
  | frame _ _ ih => exact ih (or_eq_false_iff.1 hs).2
  | scope => cases hs

/-- A local variable is there once frames have been left. -/
def Held (name : String) (fs : List Frame) (s : State) : Prop :=
  ((restored fs s.footing).1.get? name).isSome = true

section Held

variable {name target : String} {fs : List Frame} {s s' : State} {scope : Scope}

lemma restored_eq {current : Footing} (h : fs.any Frame.isScope = false) :
    restored fs current = current := by
  have happ : restored (fs ++ []) current = restored [] current := restored_append h
  rwa [append_nil] at happ

/-- What keeps the local table keeps the variable. -/
lemma Held.change (h : Held name fs s) (hs : fs.any Frame.isScope = false →
    (s.store.locals.get? name).isSome = true → (s'.store.locals.get? name).isSome = true) :
    Held name fs s' := by
  unfold Held at h ⊢
  cases hany : fs.any Frame.isScope with
  | true =>
    rw [restored_of_any_isScope (b := s.footing) hany]
    exact h
  | false =>
    rw [restored_eq hany] at h ⊢
    exact hs hany h

lemma Held.of_store (h : Held name fs s) (hs : s'.store = s.store) : Held name fs s' := by
  apply h.change
  intro _ hget
  rw [hs]
  exact hget

/-- A write holds every variable. -/
lemma Held.assign {v : Value} (h : Held name fs s) : Held name fs (s.assign target scope v) := by
  apply h.change
  intro _ hget
  cases scope with
  | global => exact hget
  | plain =>
    change ((s.store.locals.insert target v).get? name).isSome = true
    by_cases htarget : name = target
    · rw [htarget, Table.get?_insert_self]
      rfl
    · rw [Table.get?_insert_of_ne _ _ htarget]
      exact hget

lemma Held.remove (h : Held name fs s)
    (hne : fs.any Frame.isScope = false → scope = .plain → target ≠ name) :
    Held name fs (s.remove target scope) := by
  apply h.change
  intro hany hget
  cases scope with
  | global => exact hget
  | plain =>
    change ((s.store.locals.erase target).get? name).isSome = true
    rw [Table.get?_erase_of_ne _ (hne hany rfl).symm]
    exact hget

end Held

namespace Thread

/-- A thread holds a local variable, perhaps that of a caller. -/
def Holds (name : String) (r : Thread × State) : Prop := Held name r.1.frames r.2

section Steps

variable {name : String} {known : List Stmt → Prop} {own body : List Stmt} {fs : List Frame}
  {s : State} {t : Thread}

/-- A call holds the variable of its caller. -/
lemma invoke_holds {function args line} (h : Held name fs s) :
    Holds name (invoke function args line fs s) := by
  unfold invoke
  split
  · rename_i b _
    have hc : s.Calm (b.call args s).2 := call_calm
    split
    all_goals
      rename_i hb
      rw [hb] at hc
      exact h.of_store hc.store
  · split
    · exact h
    · exact h

lemma evalArguments_holds {function done rest line} (h : Held name fs s) :
    Holds name (evalArguments function done rest line fs s) := by
  cases rest with
  | nil => exact invoke_holds h
  | cons e rest => exact h

lemma eval_holds {e : Expr} (h : Held name fs s) : Holds name (eval e fs s) := by
  cases e with
  | identifier name scope line =>
    simp only [eval]
    split <;> exact h
  | call function args line => exact evalArguments_holds h
  | list elements line => cases elements <;> exact h
  | record fields line => cases fields <;> exact h
  | _ => exact h

/-- So does a statement that does not clear it. -/
lemma start_holds {stmt : Stmt} (ho : fs.any Frame.isScope = false → stmt.clears name = false)
    (h : Held name fs s) :
    Holds name (start stmt fs s) := by
  cases stmt with
  | delete target scope line =>
    apply h.remove
    intro hany hscope htarget
    exact of_decide_eq_false (ho hany) ⟨hscope, htarget⟩
  | call function args line =>
    have hd : Held name (.discard :: fs) s := h
    exact evalArguments_holds hd
  | giveBack value line => cases value <;> exact h
  | _ => exact h

/-- Statements that do not take it away hold it. -/
lemma block_holds {row} (hw : Control.Within body (.block row))
    (ho : fs.any Frame.isScope = false → Stmt.anyClears name body = false) (h : Held name fs s) :
    Holds name (block row fs s) := by
  cases hw with
  | block hr =>
    cases row with
    | nil => exact h
    | cons stmt rest =>
      simp only [block]
      split
      · exact h
      · have hrest : Held name (.rest rest :: fs) s := h
        apply start_holds ?_ hrest
        intro hany
        exact (hr stmt mem_cons_self).clears (ho hany)

lemma items_holds {item left round} (hne : fs.any Frame.isScope = false → item ≠ name)
    (h : Held name fs s) :
    Holds name (items item left round fs s) := by
  cases left with
  | nil => exact h.remove fun hany _ => hne hany
  | cons v left =>
    simp only [items]
    split
    · exact h.remove fun hany _ => hne hany
    · exact h.assign

/-- So does every frame that is handed a value. -/
lemma give_holds {v frame} (h : Held name (frame :: fs) s) (hs : frame.isScope = false) :
    Holds name (give v frame fs s) := by
  cases frame with
  | leftOperand op right line =>
    simp only [give]
    split <;> exact h
  | argument function done rest line => exact evalArguments_holds h
  | element done rest | field done key rest => cases rest <;> exact h
  | assign target scope => exact Held.assign h
  | adjust how target scope line =>
    simp only [give, adjust]
    split
    · exact Held.assign h
    · exact h
  | test condition body | iterable item body line =>
    simp only [give]
    split <;> exact h
  | scope saved depth detached => cases hs
  | _ => exact h

lemma leave_holds {outcome onward : Control} {saved depth detached}
    (h : Held name (.scope saved depth detached :: fs) s) :
    Holds name (leave outcome onward saved depth detached fs s) := by
  cases detached <;> exact h

/-- So does every frame at the end of a row. -/
lemma finish_holds {f frame} (hf : Under known own body (frame :: fs))
    (hc : Stmt.anyClears name own = false) (h : Held name (frame :: fs) s) :
    Holds name (finish f frame fs s) := by
  cases frame with
  | scope saved depth detached => cases f <;> exact leave_holds h
  | nextItem item left round =>
    cases f with
    | done => exact h
    | gaveBack v =>
      apply Held.remove h
      intro hany _
      cases hf with
      | frame hw hf =>
        rw [hf.eq_own hany] at hw
        cases hw with | serves ho hs => cases hs with | nextItem => exact ho.forEach_ne hc
  | _ => cases f <;> exact h

lemma unwind_holds {f frame} (h : Held name (frame :: fs) s) :
    Holds name (unwind f frame fs s) := by
  cases frame with
  | scope saved depth detached => exact leave_holds h
  | _ => exact h

/-- Steps hold what a thread's own statements do not take away. -/
lemma step_holds {q : Phrase} (ty : t.Typed q) (hst : t.Stems known own body)
    (hc : Stmt.anyClears name own = false) (h : Held name t.frames s) : Holds name (t.step s) := by
  obtain ⟨control, frames⟩ := t
  obtain ⟨hw, hf⟩ := hst
  have hown : frames.any Frame.isScope = false → Stmt.anyClears name body = false := by
    intro hany
    rw [hf.eq_own hany]
    exact hc
  cases control with
  | eval e => exact eval_holds h
  | block row => exact block_holds hw hown h
  | loop condition round =>
    simp only [step]
    split <;> exact h
  | items item left round =>
    cases hw with | items ho => exact items_holds (fun hany => ho.forEach_ne (hown hany)) h
  | asking => exact h.of_store rfl
  | answered text | paused next => exact h
  | value v =>
    cases frames with
    | nil => exact h
    | cons frame frames =>
      apply give_holds h
      -- the frame of a call takes no values
      obtain ⟨htakes, _⟩ := (ty.linked rfl).cons_inv
      cases frame with
      | scope saved depth detached => cases htakes
      | _ => rfl
  | flow f =>
    cases frames with
    | nil => exact h
    | cons frame frames => exact finish_holds hf hc h
  | fault f =>
    cases frames with
    | nil => exact h
    | cons frame frames => exact unwind_holds h

end Steps

end Thread

end Colloquy
