import Colloquy.Proofs.Machine.Typing

/-!
# What a step of a thread does

`Change` lists everything that one step of a well-typed thread can do. Most steps work on top of
frames that they leave alone (`Onto`); the others leave a body. What holds after every step is
proved from this list.
-/

namespace Colloquy

open List

/-- Changes that leave tables and depth alone: none, talk with the host, or a stop. -/
inductive State.Calm (s : State) : State → Prop where
  | same :
    Calm s s
  | talk (h : Host) :
    Calm s { s with host := h }
  | stop (h : Host) :
    Calm s { s with host := h }.stop

/-- A control with new frames, none of a call, that are a phrase together. -/
inductive Spans (p : Phrase) (c : Control) (new : List Frame) : Prop where
  | intro {k} :
    c.Reads k →
    Linked k new p →
    new.any Frame.isScope = false →
    Spans p c new

/-- What a phrase comes to above frames that it leaves alone. -/
inductive Onto (s : State) (p : Phrase) (fs : List Frame) : Thread × State → Prop where
  | calm (new : List Frame) {c s'} :
    Spans p c new →
    s.Calm s' →
    Onto s p fs (⟨c, new ++ fs⟩, s')
  | assign (new : List Frame) {c name scope v} :
    Spans p c new →
    c.phrase? = some .statements →
    Onto s p fs (⟨c, new ++ fs⟩, s.assign name scope v)
  | remove (new : List Frame) {c name scope} :
    Spans p c new →
    c.phrase? = some .statements →
    Onto s p fs (⟨c, new ++ fs⟩, s.remove name scope)
  | enter (new : List Frame) {c locals detached} :
    c.Reads .statements →
    Linked .expression new p →
    new.any Frame.isScope = false →
    s.depth < s.maxDepth →
    Onto s p fs (⟨c, .scope s.store.locals s.depth detached :: (new ++ fs)⟩,
    s.withScope locals (s.depth + 1))

/-- Everything that a step can do to a thread. -/
inductive Change (s : State) (q : Phrase) : Thread → Thread × State → Prop where
  /-- It works on top of its frames, or of those below the topmost. -/
  | work (top : List Frame) {c fs r p} :
    top.any Frame.isScope = false →
    Linked p fs q →
    Onto s p fs r →
    Change s q ⟨c, top ++ fs⟩ r
  /-- It lets others go first after the body of a function. -/
  | linger {c c' fs saved depth} :
    c'.Reads .statements →
    Linked .expression fs q →
    Change s q ⟨c, .scope saved depth true :: fs⟩ (⟨c', .scope saved depth false :: fs⟩, s)
  /-- It leaves the body of a function. -/
  | leave {c c' fs saved depth} :
    c'.Reads .expression →
    Linked .expression fs q →
    Change s q ⟨c, .scope saved depth false :: fs⟩ (⟨c', fs⟩, s.withScope saved depth)

section Work

variable {s : State} {fs : List Frame} {p q : Phrase} {c : Control}

lemma Spans.here (hc : c.phrase? = some p) : Spans p c [] := .intro (.of_phrase? hc) .nil rfl

lemma Spans.under {f : Frame} {new : List Frame} (h : Spans f.takes c new)
    (hf : f.isScope = false) :
    Spans f.gives c (new ++ [f]) := by
  obtain ⟨hc, lk, hn⟩ := h
  exact ⟨hc, lk.append (.cons .nil), by simp [hn, hf]⟩

lemma Onto.turn (hc : c.phrase? = some p) : Onto s p fs (⟨c, fs⟩, s) := .calm [] (.here hc) .same

lemma Onto.fault {f : Fault} : Onto s p fs (⟨.fault f, fs⟩, s) :=
  .calm [] (.intro nofun .nil rfl) .same

lemma Onto.wrote {f : Flow} {name scope v} :
    Onto s .statements fs (⟨.flow f, fs⟩, s.assign name scope v) :=
  .assign [] (.here rfl) rfl

lemma Onto.removed {f : Flow} {name scope} :
    Onto s .statements fs (⟨.flow f, fs⟩, s.remove name scope) :=
  .remove [] (.here rfl) rfl

lemma Onto.push {f : Frame} (hg : f.gives = p) (hc : c.phrase? = some f.takes)
    (hf : f.isScope = false) :
    Onto s p fs (⟨c, f :: fs⟩, s) := by
  subst hg
  exact .calm [f] ((Spans.here hc).under hf) .same

/-- What is done above a frame is done below it too. -/
lemma Onto.under {f : Frame} {r} (hg : f.gives = p) (hf : f.isScope = false)
    (h : Onto s f.takes (f :: fs) r) :
    Onto s p fs r := by
  subst hg
  cases h with
  | calm new hn hc =>
    rw [append_cons]
    exact .calm _ (hn.under hf) hc
  | assign new hn hc =>
    rw [append_cons]
    exact .assign _ (hn.under hf) hc
  | remove new hn hc =>
    rw [append_cons]
    exact .remove _ (hn.under hf) hc
  | enter new hc lk hn hd =>
    rw [append_cons]
    exact .enter _ hc (lk.append (.cons .nil)) (by simp [hn, hf]) hd

namespace Thread

lemma draw_calm {args} : s.Calm (Builtin.draw args s).2 := by
  unfold Builtin.draw
  split
  · exact .same
  · dsimp only
    split
    all_goals exact .talk _

lemma call_calm {b : Builtin} {args} : s.Calm (b.call args s).2 := by
  cases b with
  | random => exact draw_calm
  | length => exact .same
  | terminate => exact .stop _
  | _ => exact .talk _

lemma callee?_depth {name count f} (h : callee? name count s = .ok f) : s.depth < s.maxDepth := by
  unfold callee? at h
  split at h
  · cases h
  · split at h
    · cases h
    · split at h
      · cases h
      · rename_i hd
        exact Nat.lt_of_not_le hd

lemma settle_onto {result : Except RunError Value} {line} :
    Onto s .expression fs (⟨settle result line, fs⟩, s) := by
  cases result with
  | ok v => exact .turn rfl
  | error e => exact .fault

/-- A call leaves the frames below it alone. -/
lemma invoke_onto {name args line} : Onto s .expression fs (invoke name args line fs s) := by
  unfold invoke
  split
  · rename_i b _
    have hc : s.Calm (b.call args s).2 := call_calm
    split
    all_goals
      rename_i hb
      rw [hb] at hc
    · exact .calm [] (.here rfl) hc
    · exact .calm [] (.here rfl) hc
    · exact .calm [] (.intro nofun .nil rfl) hc
  · split
    · rename_i f hf
      refine .enter [] (.of_phrase? ?_) .nil rfl (callee?_depth hf)
      split <;> rfl
    · exact .fault

lemma evalArguments_onto {function done rest line} :
    Onto s .expression fs (evalArguments function done rest line fs s) := by
  cases rest with
  | nil => exact invoke_onto
  | cons e rest => exact .push rfl rfl rfl

lemma evalElements_onto {done rest} : Onto s .expression fs (evalElements done rest fs, s) := by
  cases rest with
  | nil => exact .turn rfl
  | cons e rest => exact .push rfl rfl rfl

lemma evalFields_onto {done rest} : Onto s .expression fs (evalFields done rest fs, s) := by
  cases rest with
  | nil => exact .turn rfl
  | cons e rest => exact .push rfl rfl rfl

/-- So does an expression. -/
lemma eval_onto {e : Expr} : Onto s .expression fs (eval e fs s) := by
  cases e with
  | literal v line => exact .turn rfl
  | identifier name scope line =>
    simp only [eval]
    split
    · exact .turn rfl
    · exact .fault
  | call function args line => exact evalArguments_onto
  | list elements line => exact evalElements_onto
  | record fields line => exact evalFields_onto
  | _ => exact .push rfl rfl rfl

lemma start_onto {stmt : Stmt} : Onto s .statements fs (start stmt fs s) := by
  cases stmt with
  | event name timer body line | function name params body line => exact .turn rfl
  | delete target scope line => exact .removed
  | call function args line => exact .under (f := .discard) rfl rfl evalArguments_onto
  | whileLoop condition body line => exact .turn rfl
  | giveBack value line =>
    cases value with
    | none => exact .turn rfl
    | some value => exact .push rfl rfl rfl
  | _ => exact .push rfl rfl rfl

lemma block_onto {body} : Onto s .statements fs (block body fs s) := by
  cases body with
  | nil => exact .turn rfl
  | cons stmt rest =>
    simp only [block]
    split
    · exact .turn rfl
    · exact .under (f := .rest _) rfl rfl start_onto

lemma items_onto {item left body} : Onto s .statements fs (items item left body fs s) := by
  cases left with
  | nil => exact .removed
  | cons v left =>
    simp only [items]
    split
    · exact .removed
    · exact .assign [.nextItem item left body] (.under (f := .nextItem ..) (.here rfl) rfl) rfl

lemma adjust_onto {how target scope line amount} :
    Onto s .statements fs (adjust how target scope line amount fs s) := by
  unfold adjust
  split
  · exact .wrote
  · exact .fault

/-- So does a frame that is handed a value. -/
lemma give_onto {v frame} (ht : frame.takes = .expression) :
    Onto s frame.gives fs (give v frame fs s) := by
  cases frame with
  | leftOperand op right line =>
    simp only [give]
    split
    · exact .turn rfl
    · exact .push rfl rfl rfl
  | rightOperand op left line | operand op line => exact settle_onto
  | object property line => exact .push rfl rfl rfl
  | property object line => exact settle_onto
  | argument function done rest line => exact evalArguments_onto
  | element done rest => exact evalElements_onto
  | field done key rest => exact evalFields_onto
  | assign target scope => exact .wrote
  | adjust how target scope line => exact adjust_onto
  | discard | branch thenBody elseBody => exact .turn rfl
  | test condition body =>
    simp only [give]
    split
    · exact .push rfl rfl rfl
    · exact .turn rfl
  | iterable item body line =>
    simp only [give]
    split
    · exact .turn rfl
    · exact .fault
  | print endsLine => exact .calm [] (.here rfl) (.talk _)
  | giveBack => exact .turn rfl
  | _ => cases ht

lemma change_above {frame : Frame} {r} (hf : frame.isScope = false) (lk : Linked frame.gives fs q)
    (h : Onto s frame.gives fs r) : Change s q ⟨c, frame :: fs⟩ r := by
  refine .work [frame] ?_ lk h
  rw [any_cons, hf]
  rfl

lemma leave_change {outcome onward : Control} {saved depth detached}
    (ho : outcome.Reads .statements) (hn : onward.Reads .expression)
    (lk : Linked .expression fs q) :
    Change s q ⟨c, .scope saved depth detached :: fs⟩
      (leave outcome onward saved depth detached fs s) := by
  cases detached with
  | false => exact .leave hn lk
  | true => exact .linger ho lk

/-- A frame at the end of a row, or of a call. -/
lemma finish_change {f frame} (lk : Linked .statements (frame :: fs) q) :
    Change s q ⟨.flow f, frame :: fs⟩ (finish f frame fs s) := by
  obtain ⟨ht, lk⟩ := lk.cons_inv
  cases frame with
  | scope saved depth detached =>
    cases f <;> exact leave_change (.of_phrase? rfl) (.of_phrase? rfl) lk
  | nextItem item left body =>
    cases f with
    | done => exact change_above rfl lk (.turn rfl)
    | gaveBack v => exact change_above rfl lk .removed
  | rest body | again condition body
  | mainLine body => cases f <;> exact change_above rfl lk (.turn rfl)
  | _ => cases ht

lemma unwind_change {f frame} (lk : Linked frame.gives fs q) :
    Change s q ⟨.fault f, frame :: fs⟩ (unwind f frame fs s) := by
  cases frame with
  | scope saved depth detached => exact leave_change nofun nofun lk
  | _ => exact change_above rfl lk .fault

/-- A step does one of the things listed; no value meets the frame of a call. -/
lemma step_change {t : Thread} (ty : t.Typed q) : Change s q t (t.step s) := by
  obtain ⟨control, frames⟩ := t
  cases control with
  | eval e => exact .work [] rfl (ty.linked rfl) eval_onto
  | block body => exact .work [] rfl (ty.linked rfl) block_onto
  | loop condition body =>
    simp only [step]
    split
    · exact .work [] rfl (ty.linked rfl) (.turn rfl)
    · exact .work [] rfl (ty.linked rfl) (.push rfl rfl rfl)
  | items item left body => exact .work [] rfl (ty.linked rfl) items_onto
  | asking => exact .work [] rfl (ty.linked rfl) (.calm [] (.here rfl) (.talk _))
  | answered text => exact .work [] rfl (ty.linked rfl) (.turn rfl)
  | paused next =>
    obtain ⟨p, hp, lk⟩ := ty
    exact .work [] rfl lk (.calm [] (.intro hp .nil rfl) .same)
  | value v =>
    cases frames with
    | nil => exact .work [] rfl (ty.linked rfl) (.turn rfl)
    | cons frame frames =>
      obtain ⟨ht, lk⟩ := (ty.linked rfl).cons_inv
      refine change_above ?_ lk (give_onto ht.symm)
      cases frame with
      | scope saved depth detached => cases ht
      | _ => rfl
  | flow f =>
    cases frames with
    | nil => exact .work [] rfl (ty.linked rfl) (.turn rfl)
    | cons frame frames => exact finish_change (ty.linked rfl)
  | fault f =>
    obtain ⟨p, _, lk⟩ := ty
    cases frames with
    | nil => exact .work [] rfl lk .fault
    | cons frame frames => exact unwind_change lk.cons_inv.2

end Thread

end Work

section Consequences

variable {s s' : State} {q : Phrase} {t : Thread} {r : Thread × State}

lemma State.Calm.store (h : s.Calm s') : s'.store = s.store := by
  cases h <;> rfl

lemma State.Calm.depth (h : s.Calm s') : s'.depth = s.depth := by
  cases h <;> rfl

/-- A write to a variable leaves the declarations alone. -/
@[simp] lemma Store.withTable_functions (st : Store) (scope : Scope) (table : Table Value) :
    (st.withTable scope table).functions = st.functions := by
  cases scope <;> rfl

@[simp] lemma Store.withTable_events (st : Store) (scope : Scope) (table : Table Value) :
    (st.withTable scope table).events = st.events := by
  cases scope <;> rfl

lemma Spans.typed {c : Control} {new fs : List Frame} {p} (h : Spans p c new) (lk : Linked p fs q) :
    Thread.Typed ⟨c, new ++ fs⟩ q := by
  obtain ⟨hc, above, _⟩ := h
  exact ⟨_, hc, above.append lk⟩

lemma Change.typed (h : Change s q t r) : r.1.Typed q := by
  cases h with
  | work _ _ lk h =>
    cases h with
    | calm _ hn _ | assign _ hn _ | remove _ hn _ => exact hn.typed lk
    | enter _ hc above _ _ => exact ⟨_, hc, .cons (f := .scope ..) (above.append lk)⟩
  | linger hc lk => exact ⟨_, hc, .cons (f := .scope ..) lk⟩
  | leave hc lk => exact ⟨_, hc, lk⟩

lemma Thread.step_typed (ty : t.Typed q) : (t.step s).1.Typed q := (step_change ty).typed

lemma Change.declarations (h : Change s q t r) :
    r.2.store.functions = s.store.functions ∧ r.2.store.events = s.store.events := by
  cases h with
  | work _ _ _ h =>
    cases h with
    | calm _ _ hc => rw [hc.store]; exact ⟨rfl, rfl⟩
    | assign | remove => exact ⟨Store.withTable_functions .., Store.withTable_events ..⟩
    | enter => exact ⟨rfl, rfl⟩
  | linger | leave => exact ⟨rfl, rfl⟩

/-- A step leaves the lifecycle alone or stops everything. -/
lemma Change.lifecycle (h : Change s q t r) :
    (r.2.running = s.running ∧ r.2.halted = s.halted ∧ r.2.timers = s.timers) ∨
      (r.2.running = false ∧ r.2.halted = true ∧ r.2.timers = s.timers.cancelAll.2) := by
  cases h with
  | work _ _ _ h =>
    cases h with
    | calm _ _ hc =>
      cases hc with
      | same | talk _ => exact .inl ⟨rfl, rfl, rfl⟩
      | stop _ => exact .inr ⟨rfl, rfl, rfl⟩
    | assign | remove | enter => exact .inl ⟨rfl, rfl, rfl⟩
  | linger | leave => exact .inl ⟨rfl, rfl, rfl⟩

end Consequences

end Colloquy
