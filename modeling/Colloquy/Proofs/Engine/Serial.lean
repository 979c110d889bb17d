import Colloquy.Proofs.Engine.Solo
import Colloquy.Proofs.Engine.Progress

/-!
# Sequences run one after another

From a run one can read off cues for the machine that knows one sequence at a time
(`Engine.script`). On these it does and says what the sequences did in the run, in the same order
(`run_serial`). It is always where the engine is (`Mirrors`), because only the holder of the gate
has a sequence under way.
-/

namespace Colloquy

open List

/-- What is noted down about a run. -/
inductive Entry where
  /-- The sequence of a task does something. -/
  | deed (task : TaskId) (d : Deed)
  /-- A source text is refused with a message. -/
  | refusal (text : String)

namespace Entry

/-- What a sequence did. -/
def bySequence? : Entry → Option (TaskId × Deed)
  | deed task d => some (task, d)
  | refusal _ => none

/-- What was done. -/
def act : Entry → Deed
  | deed _ d => d
  | refusal text => .utter (.message .error ("Syntax Error: " ++ text))

end Entry

/-- The tasks of the cues that begin a sequence. -/
def begun (cues : List Cue) : List TaskId :=
  cues.filterMap fun
    | .begin task _ => some task
    | _ => none

/-- The tables without the declarations. -/
def Store.bare (st : Store) : Store := { st with functions := [], events := [] }

/-- The state without the declarations. -/
def State.bare (s : State) : State := { s with store := s.store.bare }

namespace Engine

/-- What a step of a task notes down. -/
def note (e : Engine) (id : TaskId) : List Entry :=
  match e.tasks[id]? with
  | none => []
  | some t =>
    match t.phase, t.work with
    | .fresh, .source text =>
      match compile text with
      | .ok _ => []
      | .error err => [.refusal err.message]
    | .queued, .program p =>
      if e.gate.holder = some id then (Body.main p).deeds.map (.deed id) else []
    | .active thread answerDue, _ =>
      match thread.outcome? with
      | some outcome => outcome.deeds.map (.deed id)
      | none =>
        if thread.isAnswered && e.now < answerDue then [] else (thread.deeds e.state).map (.deed id)
    | _, _ => []

/-- What an action notes down. -/
def notes (e : Engine) : Action → List Entry
  | .step id => e.note id
  | _ => []

/-- Everything that is noted down about a run. -/
def log (e : Engine) : List Action → List Entry
  | [] => []
  | a :: as => e.notes a ++ log (e.perform a) as

/-- The cues that a step of a task gives. -/
def cue (e : Engine) (id : TaskId) : List Cue :=
  match e.tasks[id]? with
  | none => []
  | some t =>
    match t.phase, t.work with
    | .fresh, .source text =>
      match compile text with
      | .ok _ => [.stop]
      | .error _ => []
    | .queued, w => if ((e.step id).thread? id).isSome then (w.body?.map (.begin id)).toList else []
    | .active thread answerDue, _ => if thread.isAnswered && e.now < answerDue then [] else [.step]
    | _, _ => []

/-- The cues that an action gives. -/
def cues (e : Engine) : Action → List Cue
  | .step id => e.cue id
  | .stop => [.stop]
  | .supply answers => [.supply answers]
  | .reseed seed => [.reseed seed]
  | _ => []

/-- The cues of a run. -/
def script (e : Engine) : List Action → List Cue
  | [] => []
  | a :: as => e.cues a ++ script (e.perform a) as

/-- The task that gets the gate by an action. -/
def admitted (e : Engine) (a : Action) : List TaskId :=
  if (e.perform a).gate.holder = e.gate.holder then [] else (e.perform a).gate.holder.toList

/-- The tasks in the order in which they get the gate. -/
def admissions (e : Engine) : List Action → List TaskId
  | [] => []
  | a :: as => e.admitted a ++ admissions (e.perform a) as

/-- A sequence is under way in an engine. -/
def Conducts (e : Engine) (q : Sequence) : Prop :=
  ∃ t, e.tasks[q.task]? = some t ∧ t.sequence? q.task = some q

end Engine

/-- The machine is where the engine is: alike in state, with the sequence behind the gate. -/
structure Engine.Mirrors (e : Engine) (m : Solo) : Prop where
  state : e.state.Alike m.state
  sequence : ∀ q, e.Conducts q ↔ m.sequence = some q

section Accounting

variable {s s1 s2 : State} {ds ds' : List Deed} {st : Store} {d : Deed}

lemma Coherent.append (h : Coherent st ds) (h' : Coherent (ds.foldl Deed.replay st) ds') :
    Coherent st (ds ++ ds') := by
  induction ds generalizing st with
  | nil => exact h'
  | cons d ds ih => exact ⟨h.1, ih h.2 h'⟩

lemma Accounts.append (h : Accounts s ds s1) (h' : Accounts s1 ds' s2) :
    Accounts s (ds ++ ds') s2 where
  found := h.found.append (h.store ▸ h'.found)
  store := by rw [h'.store, h.store, foldl_append]
  heard := by
    rw [h'.heard, h.heard, said, said, said, filterMap_append, reverse_append, append_assoc]

lemma Deed.replay_bare : d.replay st.bare = (d.replay st).bare := by
  cases d with
  | write name scope v | erase name scope => cases scope <;> rfl
  | _ => rfl

lemma Deed.Finds.bare (h : d.Finds st) : d.Finds st.bare := by
  cases d with
  | lookUp name scope found | read name scope found => cases scope <;> exact h
  | _ => exact h

lemma Coherent.bare (h : Coherent st ds) : Coherent st.bare ds := by
  induction ds generalizing st with
  | nil => trivial
  | cons d ds ih => exact ⟨h.1.bare, Deed.replay_bare ▸ ih h.2⟩

lemma foldl_replay_bare : ds.foldl Deed.replay st.bare = (ds.foldl Deed.replay st).bare := by
  induction ds generalizing st with
  | nil => rfl
  | cons d ds ih => rw [foldl_cons, Deed.replay_bare, ih, foldl_cons]

lemma Accounts.bare (h : Accounts s ds s1) : Accounts s.bare ds s1.bare where
  found := h.found.bare
  store := (congrArg Store.bare h.store).trans foldl_replay_bare.symm
  heard := h.heard

end Accounting

namespace Engine

section Conduct

variable {e d : Engine} {id : TaskId} {t u : Task} {q : Sequence}

lemma Conducts.holder (hx : e.Exclusive) (h : e.Conducts q) : e.gate.holder = some q.task := by
  obtain ⟨⟨work, phase⟩, ht, hq⟩ := h
  cases phase with
  | active thread answerDue => exact hx _ _ _ _ ht
  | _ => cases hq

lemma conducts_set (hu : e.tasks[id]? = some u) (hd : d.tasks = e.tasks.set id t)
    (hn : u.sequence? id = none) (hn' : t.sequence? id = none) : d.Conducts q ↔ e.Conducts q := by
  unfold Conducts
  rw [hd]
  by_cases hne : q.task = id
  · subst hne
    rw [List.getElem?_set_self (List.getElem?_eq_some_iff.1 hu).1, hu]
    simp only [Option.some.injEq, exists_eq_left', hn, hn']
  · rw [List.getElem?_set_ne (Ne.symm hne)]

/-- New tasks conduct nothing. -/
lemma conducts_append {new : List Task} (hd : d.tasks = e.tasks ++ new)
    (hn : ∀ t ∈ new, ∀ id, t.sequence? id = none) :
    d.Conducts q ↔ e.Conducts q := by
  unfold Conducts
  rw [hd]
  constructor
  · rintro ⟨t, ht, hq⟩
    rcases getElem?_append_inv ht with ht | hm
    · exact ⟨t, ht, hq⟩
    · rw [hn t hm] at hq
      cases hq
  · rintro ⟨t, ht, hq⟩
    exact ⟨t, getElem?_append_some ht, hq⟩

/-- Only the holder of the gate conducts. -/
lemma conducts_iff (hx : e.Exclusive) (ht : e.tasks[id]? = some t) (hh : e.gate.holder = some id) :
    e.Conducts q ↔ t.sequence? id = some q := by
  constructor
  · intro h
    have hid : q.task = id := Option.some.inj ((h.holder hx).symm.trans hh)
    obtain ⟨u, hu, hq⟩ := h
    rw [hid] at hu hq
    cases Option.some.inj (ht.symm.trans hu)
    exact hq
  · intro hq
    have hid : q.task = id := by
      obtain ⟨work, phase⟩ := t
      cases phase with
      | active thread answerDue =>
        obtain ⟨body, _, rfl⟩ := Option.map_eq_some_iff.1 hq
        rfl
      | _ => cases hq
    subst hid
    exact ⟨t, ht, hq⟩

lemma not_conducts_set {w : Work} {thread : Thread} {answerDue : Nat} (hx : e.Exclusive)
    (ht : e.tasks[id]? = some ⟨w, .active thread answerDue⟩) (hd : d.tasks = e.tasks.set id t)
    (hn : t.sequence? id = none) : ¬ d.Conducts q := by
  rintro ⟨u, hu, hq⟩
  rw [hd] at hu
  rcases getElem?_set_inv hu with ⟨hid, rfl⟩ | ⟨hne, hu⟩
  · rw [hid, hn] at hq
    cases hq
  · have hh : e.gate.holder = some q.task := Conducts.holder hx ⟨u, hu, hq⟩
    exact hne (Option.some.inj (hh.symm.trans (hx _ _ _ _ ht)))

end Conduct

section Accounting

variable {e : Engine}

lemma declare_accounts {stmt : Stmt} :
    Accounts e.state.bare stmt.warning (e.declare stmt).state.bare := by
  cases stmt with
  | function name params body line =>
    simp only [declare, Stmt.warning]
    split
    · exact .one trivial rfl rfl
    · exact .none rfl rfl
  | event name timer body line => cases timer <;> exact .none rfl rfl
  | _ => exact .none rfl rfl

lemma foldl_declare_accounts {stmts : List Stmt} :
    Accounts e.state.bare (stmts.flatMap Stmt.warning) (stmts.foldl declare e).state.bare := by
  induction stmts generalizing e with
  | nil => exact .none rfl rfl
  | cons stmt stmts ih => exact declare_accounts.append ih

lemma declared_accounts {p : Program} :
    Accounts e.state.bare (.clear :: p.body.flatMap Stmt.warning) (e.declared p).state.bare := by
  have hclear : Accounts e.state.bare [.clear] (clean e.state).bare := .one trivial rfl rfl
  exact hclear.append (@foldl_declare_accounts { e with state := clean e.state } p.body)

lemma reportOutcome_accounts {s : State} {outcome : Outcome} :
    Accounts s.bare outcome.deeds (reportOutcome s outcome).bare := by
  cases outcome with
  | fault f => exact .one trivial rfl rfl
  | _ => exact .none rfl rfl

end Accounting

/-- An action does what the machine does on its cues, and what is noted. -/
structure Follows (e : Engine) (m : Solo) (d : Engine) (cues : List Cue)
    (notes : List Entry) : Prop where
  mirrors : Mirrors d (m.run cues)
  log : m.log cues = notes.filterMap Entry.bySequence?
  accounts : Accounts e.state.bare (notes.map Entry.act) d.state.bare

section Steps

variable {e d : Engine} {m : Solo} {id : TaskId} {t u : Task} {ds : List Deed}
  {w : Work} {body : Body} {thread : Thread} {answerDue timer period due : Nat}

lemma Follows.still (h : Mirrors e m) (hs : d.state = e.state)
    (hq : ∀ q, d.Conducts q ↔ e.Conducts q) :
    Follows e m d [] [] where
  mirrors := ⟨hs ▸ h.state, fun q => (hq q).trans (h.sequence q)⟩
  log := rfl
  accounts := .none (by rw [hs]) (by rw [hs])

lemma filterMap_bySequence :
    (ds.map (Entry.deed id)).filterMap Entry.bySequence? = ds.map (id, ·) := by
  rw [filterMap_map]
  exact congrFun filterMap_eq_map ds

lemma map_act : (ds.map (Entry.deed id)).map Entry.act = ds := by
  rw [map_map]
  exact map_id ds

/-- A sequence begins on its cue. -/
lemma Follows.begin (h : Mirrors e m) (hx : e.Exclusive)
    (hxd : d.Exclusive) (ht : e.tasks[id]? = some ⟨w, .queued⟩) (hh : e.gate.holder = some id)
    (hw : w.body? = some body) (hd : d.tasks[id]? = some ⟨w, .active thread answerDue⟩)
    (hg : d.gate.holder = some id) (hs : d.state.Alike (body.opened m.state))
    (hth : body.thread (body.opened m.state) = thread)
    (ha : Accounts e.state.bare body.deeds d.state.bare) :
    Follows e m d [.begin id body] (body.deeds.map (.deed id)) := by
  have hnone : m.sequence = none := by
    rw [Option.eq_none_iff_forall_ne_some]
    intro q hq
    cases (conducts_iff hx ht hh).1 ((h.sequence q).2 hq)
  have hact : m.act (.begin id body) = ⟨body.opened m.state, some ⟨id, body, thread⟩⟩ := by
    rw [Solo.act, hnone, ← hth]
  refine ⟨⟨?_, ?_⟩, ?_, ?_⟩
  · simp only [Solo.run, foldl_cons, foldl_nil, hact]
    exact hs
  · intro q
    rw [conducts_iff hxd hd hg, Task.sequence?, hw]
    simp only [Solo.run, foldl_cons, foldl_nil, hact]
    rfl
  · simp only [Solo.log, Solo.deeds, hnone, append_nil, filterMap_bySequence]
  · rw [map_act]
    exact ha

lemma Mirrors.under_way (h : Mirrors e m)
    (ht : e.tasks[id]? = some ⟨w, .active thread answerDue⟩) (hw : w.body? = some body) :
    m.sequence = some ⟨id, body, thread⟩ :=
  (h.sequence _).1 ⟨_, ht, by rw [Task.sequence?, hw]; rfl⟩

/-- It takes its steps on theirs. -/
lemma Follows.advance {next : Nat} (h : Mirrors e m)
    (hxd : d.Exclusive) (ht : e.tasks[id]? = some ⟨w, .active thread answerDue⟩)
    (hw : w.body? = some body) (ho : thread.outcome? = none)
    (hd : d.tasks[id]? = some ⟨w, .active (thread.step e.state).1 next⟩)
    (hs : d.state = (thread.step e.state).2) :
    Follows e m d [.step] ((thread.deeds e.state).map (.deed id)) := by
  have hm := h.under_way ht hw
  obtain ⟨hnext, hstate, hdeeds⟩ := h.state.step thread
  have hact :
      m.act .step = ⟨(thread.step m.state).2, some ⟨id, body, (thread.step e.state).1⟩⟩ := by
    simp only [Solo.act, hm, ho, hnext]
  refine ⟨⟨?_, ?_⟩, ?_, ?_⟩
  · simp only [Solo.run, foldl_cons, foldl_nil, hact, hs]
    exact hstate
  · intro q
    rw [conducts_iff hxd hd (hxd _ _ _ _ hd), Task.sequence?, hw]
    simp only [Solo.run, foldl_cons, foldl_nil, hact]
    rfl
  · simp only [Solo.log, Solo.deeds, hm, ho, hdeeds, append_nil, filterMap_bySequence]
  · rw [map_act, hs]
    exact Thread.step_accounts.bare

/-- It ends on its last step. -/
lemma Follows.conclude {outcome : Outcome} (h : Mirrors e m)
    (hx : e.Exclusive) (ht : e.tasks[id]? = some ⟨w, .active thread answerDue⟩)
    (hw : w.body? = some body) (ho : thread.outcome? = some outcome)
    (hd : d.tasks = e.tasks.set id t) (hn : t.sequence? id = none)
    (hs : d.state = body.closed e.state outcome) :
    Follows e m d [.step] (outcome.deeds.map (.deed id)) := by
  have hm := h.under_way ht hw
  have hact : m.act .step = ⟨body.closed m.state outcome, none⟩ := by
    simp only [Solo.act, hm, ho]
  refine ⟨⟨?_, ?_⟩, ?_, ?_⟩
  · simp only [Solo.run, foldl_cons, foldl_nil, hact, hs]
    exact h.state.closed body outcome
  · intro q
    simp only [Solo.run, foldl_cons, foldl_nil, hact]
    exact iff_of_false (not_conducts_set hx ht hd hn) (Option.some_ne_none q).symm
  · simp only [Solo.log, Solo.deeds, hm, ho, append_nil, filterMap_bySequence]
  · rw [map_act, hs]
    cases body with
    | block stmts => exact reportOutcome_accounts
    | main p =>
      simp only [Body.closed]
      split
      · exact ⟨reportOutcome_accounts.found, reportOutcome_accounts.store,
          reportOutcome_accounts.heard⟩
      · exact reportOutcome_accounts

/-- A call goes to the gate without a cue. -/
lemma begin_follows (h : e.Mirrors m) (ht : e.tasks[id]? = some t) (hf : t.Fits)
    (hp : t.phase = .fresh) :
    Follows e m (e.begin id t) (e.cue id) (e.note id) := by
  cases hf with
  | @source text =>
    have hq {d : Engine} {u : Task} (hd : d.tasks = e.tasks.set id u)
      (hu : u.sequence? id = none) (q : Sequence) :
        d.Conducts q ↔ e.Conducts q := conducts_set ht hd rfl hu
    simp only [begin, cue, note, ht]
    cases compile text with
    | ok p =>
      refine ⟨⟨h.state.stop, fun q => (hq rfl rfl q).trans (h.sequence q)⟩, rfl, .none rfl rfl⟩
    | error err =>
      exact ⟨⟨h.state.say, fun q => (hq rfl rfl q).trans (h.sequence q)⟩, rfl, .one trivial rfl rfl⟩
  | @trigger name =>
    simp only [begin, cue, note, ht]
    split
    · exact .still h rfl fun q => conducts_set ht rfl rfl rfl
    · exact .still h rfl fun q => conducts_set ht rfl rfl rfl
  | timer =>
    rw [cue, note, ht]
    exact .still h rfl fun q => conducts_set ht rfl rfl rfl
  | _ => cases hp

lemma retire_follows {body : List Stmt} {phase : Phase} (h : e.Mirrors m)
    (ho : e.Orderly) (ht : e.tasks[id]? = some ⟨.timer timer body period due, phase⟩)
    (hp : phase = .resting ∨ phase = .queued)
    (hc : e.state.timers.isCancelled timer = true ∨ e.state.running = false) :
    Follows e m (e.retire id ⟨.timer timer body period due, phase⟩) [] [] := by
  refine .still h ?_ fun q => conducts_set ht rfl ?_ rfl
  · simp only [retire, ho.complete_eq hc]
  · rcases hp with rfl | rfl <;> rfl

lemma wake_follows {body : List Stmt} (h : e.Mirrors m) (ho : e.Orderly)
    (ht : e.tasks[id]? = some ⟨.timer timer body period due, .resting⟩) (hm : Move e id d) :
    Follows e m d (e.cue id) (e.note id) := by
  rw [cue, note, ht]
  cases hm with
  | stay => exact .still h rfl fun q => .rfl
  | retire hj hp hc => exact retire_follows h ho hj hp hc
  | tick hj _ _ _ => exact .still h rfl fun q => conducts_set hj rfl rfl rfl
  | refuse hj _ | call hj _ | miss hj _ | summon hj _ | arm hj | launch hj _ | respond hj _
  | strike hj _ _ _ | conclude hj _ _ | advance hj _ => cases Option.some.inj (ht.symm.trans hj)

lemma cue_queued_none (ht : e.tasks[id]? = some ⟨w, .queued⟩) (hd : (e.step id).thread? id = none) :
    e.cue id = [] := by
  simp only [cue, ht, hd]
  rfl

lemma cue_queued_some (ht : e.tasks[id]? = some ⟨w, .queued⟩) (hw : w.body? = some body)
    (hd : (e.step id).tasks[id]? = some ⟨w, .active thread answerDue⟩) :
    e.cue id = [.begin id body] := by
  simp only [cue, ht, thread?_isSome hd, hw]
  rfl

section

variable (h : e.Mirrors m)
include h

lemma queued_waits (ht : e.tasks[id]? = some ⟨w, .queued⟩) (hstep : e.step id = e) :
    Follows e m (e.step id) (e.cue id) [] := by
  rw [cue_queued_none ht (hstep.symm ▸ thread?_none ht rfl), hstep]
  exact .still h rfl fun q => .rfl

/-- A body begins on its cue. -/
lemma queued_begins {row : List Stmt} (hr : e.Reachable)
    (ht : e.tasks[id]? = some ⟨w, .queued⟩) (hh : e.gate.holder = some id)
    (hw : w.body? = some (.block row))
    (htasks : (e.step id).tasks = e.tasks.set id ⟨w, .active ⟨.block row, []⟩ 0⟩)
    (hstate : (e.step id).state = { e.state with halted := false }) :
    Follows e m (e.step id) (e.cue id) [] := by
  have hd : (e.step id).tasks[id]? = some ⟨w, .active ⟨.block row, []⟩ 0⟩ := by
    rw [htasks]
    exact List.getElem?_set_self (List.getElem?_eq_some_iff.1 ht).1
  rw [cue_queued_some ht hw hd]
  refine .begin h hr.exclusive (hr.step id).exclusive ht hh hw hd
    ((hr.step id).exclusive _ _ _ _ hd) ?_ rfl ?_
  · obtain ⟨heard, hs⟩ := h.state
    rw [hstate, hs]
    exact ⟨heard, rfl⟩
  · rw [hstate]
    exact .none rfl rfl

/-- So does a main line. -/
lemma queued_program_follows (hr : e.Reachable) {p : Program}
    (ht : e.tasks[id]? = some ⟨.program p, .queued⟩) :
    Follows e m (e.step id) (e.cue id) (e.note id) := by
  by_cases hh : e.gate.holder = some id
  · have hstep : e.step id = e.launch id p := Launches.step_eq ⟨ht, hh⟩
    have hd : (e.step id).tasks[id]? =
        some ⟨.program p, .active (mainThread p (e.declared p).state) 0⟩ := by
      rw [hstep]
      exact launch_getElem? ht
    have hg : (e.step id).gate.holder = some id := (hr.step id).exclusive _ _ _ _ hd
    have hs : (e.step id).state = (e.declared p).state := by
      rw [hstep]
      rfl
    rw [cue_queued_some ht rfl hd, note, ht]
    simp only [hh, if_true]
    refine .begin h hr.exclusive (hr.step id).exclusive ht hh rfl hd hg ?_ ?_ ?_
    · rw [hs]
      exact h.state.opened p
    · exact (h.state.opened p).mainThread p
    · rw [hs]
      exact declared_accounts
  · rw [note, ht]
    simp only [hh, if_false]
    exact queued_waits h ht (by simp [step, ht, passGate, isCancelled, hh])

lemma queued_event_follows (hr : e.Reachable) {body : List Stmt}
    (ht : e.tasks[id]? = some ⟨.event body, .queued⟩) :
    Follows e m (e.step id) (e.cue id) (e.note id) := by
  rw [note, ht]
  by_cases hh : e.gate.holder = some id
  · exact queued_begins h hr ht hh rfl (by rw [step_respond ht hh]; rfl)
      (by rw [step_respond ht hh])
  · exact queued_waits h ht (by simp [step, ht, passGate, isCancelled, hh])

/-- So does a timer, unless it was cancelled. -/
lemma queued_timer_follows (hr : e.Reachable) {body : List Stmt}
    (ht : e.tasks[id]? = some ⟨.timer timer body period due, .queued⟩) :
    Follows e m (e.step id) (e.cue id) (e.note id) := by
  have hlt : id < e.tasks.length := (List.getElem?_eq_some_iff.1 ht).1
  have hretire (hc : e.state.timers.isCancelled timer = true ∨ e.state.running = false)
      (hs : e.step id = e.retire id ⟨.timer timer body period due, .queued⟩) :
      Follows e m (e.step id) (e.cue id) [] := by
    have hd : (e.step id).tasks[id]? = some ⟨.timer timer body period due, .ended none⟩ := by
      rw [hs]
      exact List.getElem?_set_self hlt
    rw [cue_queued_none ht (thread?_none hd rfl), hs]
    exact retire_follows h hr.orderly ht (.inr rfl) hc
  rw [note, ht]
  cases hc : e.state.timers.isCancelled timer with
  | true => exact hretire (.inl hc) (by simp [step, ht, passGate, isCancelled, hc])
  | false =>
    by_cases hh : e.gate.holder = some id
    · cases hrun : e.state.running with
      | false => exact hretire (.inr hrun) (by simp [step, ht, passGate, isCancelled, hh, hrun])
      | true =>
        have hstep :
            e.step id = e.put id ⟨.timer timer body period due, .active ⟨.block body, []⟩ 0⟩ := by
          simp [step, ht, passGate, isCancelled, hc, hh, hrun]
        refine queued_begins h hr ht hh rfl (by rw [hstep]; rfl) ?_
        rw [hstep, ← hr.orderly.not_halted hrun]
        rfl
    · exact queued_waits h ht (by simp [step, ht, passGate, isCancelled, hc, hh])

/-- An active task follows its cues. -/
lemma active_follows (hr : e.Reachable)
    (ht : e.tasks[id]? = some ⟨w, .active thread answerDue⟩) (hw : w.Gated) :
    Follows e m (e.step id) (e.cue id) (e.note id) := by
  have hstep : e.step id = e.advance id ⟨w, .active thread answerDue⟩ thread answerDue := by
    rw [step, ht]
  have hxd : (e.step id).Exclusive := (hr.step id).exclusive
  obtain ⟨body, hb⟩ := hw.exists_body
  rw [note, cue, ht]
  cases ho : thread.outcome? with
  | some outcome =>
    have ha : thread.isAnswered = false := by
      obtain ⟨control, frames⟩ := thread
      cases control with
      | answered text => cases frames <;> cases ho
      | _ => rfl
    rw [hstep, advance, ho]
    simp only [ha, ho, Bool.false_and, Bool.false_eq_true, if_false]
    cases hw <;> exact Follows.conclude h hr.exclusive ht rfl ho rfl rfl rfl
  | none =>
    rw [hstep, advance, ho] at hxd
    rw [hstep, advance, ho]
    simp only [ho] at hxd ⊢
    split
    · exact .still h rfl fun q => .rfl
    · rename_i hwait
      rw [if_neg hwait] at hxd
      exact .advance h hxd ht hb ho (List.getElem?_set_self (List.getElem?_eq_some_iff.1 ht).1) rfl

/-- A step of a task is what the machine does on its cues. -/
lemma step_follows (hr : e.Reachable) : Follows e m (e.step id) (e.cue id) (e.note id) := by
  cases ht : e.tasks[id]? with
  | none =>
    rw [step, cue, note, ht]
    exact .still h rfl fun q => .rfl
  | some t =>
    have hf : t.Fits := hr.fitting t (mem_of_getElem? ht)
    have hfresh (hp : t.phase = .fresh) : Follows e m (e.step id) (e.cue id) (e.note id) := by
      have hstep : e.step id = e.begin id t := by simp only [step, ht, hp]
      exact hstep ▸ begin_follows h ht hf hp
    cases hf with
    | source | trigger | timer => exact hfresh rfl
    | resting => exact wake_follows h hr.orderly ht (step_move hr.fitting)
    | queued hw =>
      cases hw with
      | program => exact queued_program_follows h hr ht
      | event => exact queued_event_follows h hr ht
      | timer => exact queued_timer_follows h hr ht
    | active hw _ => exact active_follows h hr ht hw
    | @ended w outcome =>
      rw [step, cue, note, ht]
      exact .still h rfl fun q => .rfl

end

lemma conducts_add {q : Sequence} : (e.add ⟨w, .fresh⟩).Conducts q ↔ e.Conducts q := by
  refine conducts_append rfl fun t ht id => ?_
  cases mem_singleton.1 ht
  rfl

/-- So is every action. -/
lemma perform_follows (h : e.Mirrors m) (hr : e.Reachable) (a : Action) :
    Follows e m (e.perform a) (e.cues a) (e.notes a) := by
  cases a with
  | execute source | trigger name => exact .still h rfl fun q => conducts_add
  | stop => exact ⟨⟨h.state.stop, h.sequence⟩, rfl, .none rfl rfl⟩
  | step id => exact step_follows h hr
  | elapse nanos => exact .still h rfl fun q => .rfl
  | supply answers | reseed seed =>
    refine ⟨⟨?_, h.sequence⟩, rfl, .none rfl rfl⟩
    obtain ⟨heard, hs⟩ := h.state
    refine ⟨heard, ?_⟩
    simp only [cues, Solo.run, foldl_cons, foldl_nil, Solo.act, hs]
    rfl
  | delay ms => exact .still h rfl fun q => .rfl

end Steps

section Runs

variable {e : Engine} {m : Solo} {actions : List Action} {id : TaskId}

/-- What a run does is what the machine does on its script. -/
lemma run_follows (h : e.Mirrors m) (hr : e.Reachable) :
    Follows e m (e.run actions) (e.script actions) (e.log actions) := by
  induction actions generalizing e m with
  | nil => exact .still h rfl fun q => .rfl
  | cons a actions ih =>
    have ha := perform_follows h hr a
    have hrest := ih ha.mirrors (.act a hr)
    refine ⟨?_, ?_, ?_⟩
    · rw [script, Solo.run, foldl_append]
      exact hrest.mirrors
    · rw [script, log, Solo.log_append, filterMap_append, ha.log, hrest.log]
    · rw [log, map_append]
      exact ha.accounts.append hrest.accounts

/-- The task that has got the gate and has not begun. -/
def pending (e : Engine) : List TaskId :=
  e.gate.holder.toList.filter fun id => (e.thread? id).isNone

lemma pending_eq_nil (hr : e.Reachable) (hid : (e.thread? id).isSome = true) : e.pending = [] := by
  obtain ⟨thread, ht⟩ := Option.isSome_iff_exists.1 hid
  simp [pending, hr.holder_of_thread? hid, ht]

lemma pending_eq (hh : e.gate.holder = some id) (hid : e.thread? id = none) : e.pending = [id] := by
  simp [pending, hh, hid]

/-- Who begins has the gate. -/
lemma holder_of_begun {w : Work} (hr : e.Reachable) (ht : e.tasks[id]? = some ⟨w, .queued⟩)
    (hd : ((e.step id).thread? id).isSome = true) : e.gate.holder = some id := by
  have hlt : id < e.tasks.length := (List.getElem?_eq_some_iff.1 ht).1
  have absurd {d : Engine} {u : Task} (hd : (d.thread? id).isSome = true)
    (hu : d.tasks[id]? = some u) (hn : u.isActive = false) : False := by
    rw [thread?_none hu hn] at hd
    cases hd
  have hm : Move e id (e.step id) := step_move hr.fitting
  generalize e.step id = d at hm hd
  cases hm with
  | launch _ hh | respond _ hh | strike _ hh _ _ => exact hh
  | stay => exact (absurd hd ht rfl).elim
  | retire _ _ _ => exact (absurd hd (List.getElem?_set_self hlt) rfl).elim
  | refuse hj _ | call hj _ | miss hj _ | summon hj _ | arm hj | tick hj _ _ _ | conclude hj _ _
  | advance hj _ =>
    cases Option.some.inj (ht.symm.trans hj)

/-- Who is cued to begin has the gate, and has begun then. -/
lemma begun_cues (hr : e.Reachable) (a : Action) :
    begun (e.cues a) = [] ∨ begun (e.cues a) = e.pending ∧ (e.perform a).pending = [] := by
  cases a with
  | step id =>
    simp only [cues, cue]
    split
    · exact .inl rfl
    · rename_i t ht
      obtain ⟨work, phase⟩ := t
      dsimp only
      split
      · split <;> exact .inl rfl
      · split
        · rename_i hd
          have hh : e.gate.holder = some id := holder_of_begun hr ht hd
          rw [perform, pending_eq_nil (hr.step id) hd, pending_eq hh (thread?_none ht rfl)]
          cases work <;> simp [Work.body?, begun]
        · exact .inl rfl
      · split <;> exact .inl rfl
      · exact .inl rfl
  | _ => exact .inl rfl

/-- Only those admitted are pending. -/
lemma pending_perform (hr : e.Reachable) (a : Action) :
    (e.perform a).pending.Sublist (e.pending ++ e.admitted a) := by
  unfold admitted
  split
  · rename_i hh
    rw [append_nil]
    cases hg : e.gate.holder with
    | none => simp [pending, hh, hg]
    | some id =>
      have hg' : (e.perform a).gate.holder = some id := hh.trans hg
      cases hid : e.thread? id with
      | none =>
        rw [pending_eq hg hid, pending, hg']
        exact filter_sublist
      | some thread =>
        -- as long as a task holds the gate, a sequence that it has under way goes on
        have hsome : ((e.perform a).thread? id).isSome = true :=
          perform_goes_on hr (by rw [hid]; rfl) hg'
        rw [pending_eq_nil (.act a hr) hsome]
        exact nil_sublist _
  · exact filter_sublist.trans (sublist_append_right _ _)

/-- Sequences begin in the order of their admission. -/
lemma begun_script (hr : e.Reachable) :
    (begun (e.script actions)).Sublist (e.pending ++ e.admissions actions) := by
  induction actions generalizing e with
  | nil => exact nil_sublist _
  | cons a actions ih =>
    have hrest := ih (.act a hr)
    have hsplit : begun (e.script (a :: actions)) = begun (e.cues a) ++
        begun ((e.perform a).script actions) :=
      filterMap_append
    rw [hsplit, admissions]
    rcases begun_cues hr a with hnone | ⟨hb, hdone⟩
    · rw [hnone, nil_append, ← append_assoc]
      exact hrest.trans ((pending_perform hr a).append_right _)
    · rw [hb]
      rw [hdone, nil_append] at hrest
      exact (hrest.trans (sublist_append_right _ _)).append_left _

end Runs

/-- However calls, stops, ticks, prompts and pauses are interleaved in a run: what sequences find
and leave in the variables and what they say is what they find, leave and say when run one after the
other without interruption, in the order in which their tasks got the gate. Nothing else touches the
variables or speaks to the host, except for the refusal of a source text, and every read finds what
the write before it left. -/
theorem run_serial (maxDepth : Nat) (host : Host) (actions : List Action) :
    let e := fresh maxDepth host
    let m : Solo := { state := e.state }
    m.log (e.script actions) = (e.log actions).filterMap Entry.bySequence? ∧
      (begun (e.script actions)).Sublist (e.admissions actions) ∧
      (e.run actions).Mirrors (m.run (e.script actions)) ∧
      Accounts e.state.bare ((e.log actions).map Entry.act) (e.run actions).state.bare := by
  intro e m
  have hr : e.Reachable := .fresh maxDepth host
  have hm : e.Mirrors m := by
    refine ⟨.refl, fun q => iff_of_false ?_ (Option.some_ne_none q).symm⟩
    rintro ⟨t, ht, _⟩
    cases ht
  have hrun : Follows e m (e.run actions) (e.script actions) (e.log actions) := run_follows hm hr
  exact ⟨hrun.log, begun_script hr, hrun.mirrors, hrun.accounts⟩

end Engine

end Colloquy
