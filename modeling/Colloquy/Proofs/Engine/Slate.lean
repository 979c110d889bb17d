import Colloquy.Proofs.Engine.Cancellation
import Colloquy.Proofs.Engine.Remnant

/-!
# A clean slate

What happens after a call on an idle engine looks as it would on a new one, without the steps of the
tasks that are left and those that wait behind one of them (`relays`); and everything that can
happen on a new engine can happen so (`execute_starts_afresh`). Only an event must not be called for
before the program has begun.
-/

namespace Colloquy

open List Option

/-- Whether a task is a timer that has not begun, or waits. -/
def Task.isWaitingTimer (t : Task) : Bool :=
  match t.work, t.phase with
  | .timer .., .fresh | .timer .., .resting | .timer .., .queued => true
  | _, _ => false

/-- The same action where other tasks come first. -/
def Action.behind (n : Nat) : Action → Action
  | .step id => .step (id + n)
  | a => a

namespace Engine

/-- No call is in progress or waits, and no timer runs its body. -/
def Idle (e : Engine) : Prop := ∀ t ∈ e.tasks, t.isEnded = true ∨ t.isWaitingTimer = true

/-- An engine on which someone has just called for a source text: what was running is stopped, and
the call has gone to the gate. -/
def called (e : Engine) (source : String) : Engine :=
  (e.perform (.execute source)).step e.tasks.length

/-- A new engine at the same time, with the same limit on depth and a host with the same answers and
chance. -/
def renewed (e : Engine) : Engine :=
  (fresh e.state.maxDepth { answers := e.state.host.answers, seed := e.state.host.seed }).run
    [.elapse e.now, .delay e.answerDelay]

/-- Whether a task would wait because one of the first tasks has the gate. -/
def withheld (n : Nat) (e : Engine) (id : TaskId) : Bool :=
  match e.tasks[id]?, e.gate.holder with
  | some ⟨work, .queued⟩, some first => !e.isCancelled work && decide (first < n)
  | _, _ => false

/-- What an action comes to without the first tasks: their steps are left out, and those of tasks
that wait for one of them. -/
def relay (n : Nat) (e : Engine) : Action → List Action
  | .step id => if id < n ∨ e.withheld n id = true then [] else [.step (id - n)]
  | a => [a]

/-- What a row of actions comes to without the first tasks. -/
def relays (n : Nat) : Engine → List Action → List Action
  | _, [] => []
  | e, a :: actions => e.relay n a ++ relays n (e.perform a) actions

/-- Nobody calls for an event while a program waits for the gate. -/
def patient (id : TaskId) : Engine → List Action → Bool
  | _, [] => true
  | e, .trigger name :: actions =>
    (e.waitingProgram? id).isNone && patient id (e.perform (.trigger name)) actions
  | e, a :: actions => patient id (e.perform a) actions

/-- An engine with tasks and a past looks like one without: the same was said and asked, the program
runs in both or neither, as many timers are live, and tasks have come equally far; once the first
call has begun, variables, functions and events are the same. -/
structure Resembles (n : Nat) (past : List Utterance) (e f : Engine) : Prop where
  heard : e.state.host.heard = f.state.host.heard ++ past
  running : e.state.running = f.state.running
  timers : e.state.timers.size = f.state.timers.size
  phases : ∀ id, (e.tasks[id + n]?).map Task.phase = (f.tasks[id]?).map Task.phase
  tables : e.waitingProgram? n = none → e.state.store = f.state.store

/-- A call for a source text starts afresh. -/
structure StartsAfresh (e : Engine) (source : String) : Prop where
  /-- What happens afterwards looks as it does on a new engine. -/
  resembles : ∀ actions, (e.called source).patient e.tasks.length actions = true →
    Resembles e.tasks.length e.state.host.heard ((e.called source).run actions)
      ((e.renewed.called source).run ((e.called source).relays e.tasks.length actions))
  /-- All that can happen on a new engine can happen. -/
  matched : ∀ actions, (e.renewed.called source).patient 0 actions = true →
    ∃ actions', (e.called source).patient e.tasks.length actions' = true ∧
      (e.called source).relays e.tasks.length actions' = actions
  /-- The tasks that are left never do anything. -/
  silent : ∀ actions, ∀ id < e.tasks.length,
    (((e.called source).run actions).step id).state = ((e.called source).run actions).state ∧
      ∀ other, other ≠ id →
        (((e.called source).run actions).step id).tasks[other]? =
          ((e.called source).run actions).tasks[other]?

section Beginning

variable {f d : Engine} {j : TaskId} {t : Task}

/-- The first call waits for the gate, none has got through, and no event was called for. -/
structure Unbegun (f : Engine) : Prop where
  waits : (f.waitingProgram? 0).isSome = true
  calls : ∀ t ∈ f.tasks, t.isExecution = true
  idle : ∀ id, f.thread? id = none

lemma Unbegun.of_tasks (h : f.Unbegun) (ht : d.tasks = f.tasks) : d.Unbegun where
  waits := by
    simp only [waitingProgram?, ht]
    exact h.waits
  calls := ht ▸ h.calls
  idle := by
    intro id
    simp only [thread?, ht]
    exact h.idle id

/-- A call goes on without getting through the gate. -/
lemma Unbegun.set (h : f.Unbegun) {text : String} (hu : f.tasks[j]? = some ⟨.source text, .fresh⟩)
    (hd : d.tasks = f.tasks.set j t) (ht : t.isExecution = true)
    (hp : t.isActive = false) : d.Unbegun where
  waits := by
    obtain ⟨p, hw⟩ := isSome_iff_exists.1 h.waits
    have h0 : f.tasks[0]? = some ⟨.program p, .queued⟩ := waitingProgram?_inv hw
    have hne : 0 ≠ j := by
      rintro rfl
      cases Option.some.inj (hu.symm.trans h0)
    simp only [waitingProgram?, hd, getElem?_set_other hne h0]
    rfl
  calls := by
    intro u hm
    rw [hd] at hm
    rcases mem_or_eq_of_mem_set hm with hm | rfl
    · exact h.calls u hm
    · exact ht
  idle := by
    intro id
    cases hth : d.thread? id with
    | none => rfl
    | some thread =>
      obtain ⟨work, answerDue, hid⟩ := thread?_inv hth
      rw [hd] at hid
      rcases getElem?_set_inv hid with ⟨_, he⟩ | ⟨_, hold⟩
      · rw [← he] at hp
        cases hp
      · exact (thread?_eq hold).symm.trans (h.idle id)

/-- Another call changes nothing about that. -/
lemma Unbegun.execute (h : f.Unbegun) (source : String) :
    (f.perform (.execute source)).Unbegun where
  waits := by
    obtain ⟨p, hw⟩ := isSome_iff_exists.1 h.waits
    simp only [waitingProgram?, perform, add, getElem?_append_some (waitingProgram?_inv hw)]
    rfl
  calls := by
    intro u hm
    rcases mem_append.1 hm with hm | hm
    · exact h.calls u hm
    · cases mem_singleton.1 hm
      rfl
  idle := by
    intro id
    cases hth : (f.perform (.execute source)).thread? id with
    | none => rfl
    | some thread =>
      obtain ⟨work, answerDue, hid⟩ := thread?_inv hth
      rcases getElem?_append_inv hid with hold | hm
      · exact (thread?_eq hold).symm.trans (h.idle id)
      · cases mem_singleton.1 hm

/-- Nor does a step that begins no program. -/
lemma Unbegun.step (hr : f.Reachable) (h : f.Unbegun) (hn : ∀ p, ¬ f.Launches j p) :
    (f.step j).Unbegun := by
  have hm : Move f j (f.step j) := step_move hr.fitting
  generalize f.step j = d at hm
  have call {work phase} (ht : f.tasks[j]? = some ⟨work, phase⟩) :
      Task.isExecution ⟨work, phase⟩ = true :=
    h.calls _ (mem_of_getElem? ht)
  have idle {work thread answerDue} (ht : f.tasks[j]? = some ⟨work, .active thread answerDue⟩) :
      False := by
    cases (thread?_eq ht).symm.trans (h.idle j)
  cases hm with
  | stay => exact h
  | refuse ht _ | call ht _ => exact h.set ht rfl rfl rfl
  | launch ht hh => exact (hn _ ⟨ht, hh⟩).elim
  | conclude ht _ _ | advance ht _ => exact (idle ht).elim
  | miss ht _ | summon ht _ | arm ht | retire ht _ _ | tick ht _ _ _ | respond ht _
  | strike ht _ _ _ => cases call ht

end Beginning

section Simulation

variable {f e : Engine} {w : Remnant} {j id : TaskId} {a : Action} {actions : List Action}

/-- An engine is on top of what is left, and nothing gets at its tables. -/
structure Above (f : Engine) (w : Remnant) : Prop where
  reachable : f.Reachable
  reachable_upon : (f.upon w).Reachable
  harmless : w.tables = none ∨ f.Unbegun

lemma waitingProgram?_upon : (f.upon w).waitingProgram? (j + w.size) = f.waitingProgram? j := by
  unfold waitingProgram?
  rw [upon_getElem?]
  cases f.tasks[j]? with
  | none => rfl
  | some t =>
    obtain ⟨work, phase⟩ := t
    cases work <;> cases phase <;> rfl

/-- A task that is withheld does nothing. -/
lemma step_withheld {n : Nat} (hid : n ≤ id) (h : e.withheld n id = true) : e.step id = e := by
  unfold withheld at h
  split at h
  · rename_i work first ht hh
    obtain ⟨hc, hlt⟩ := (Bool.and_eq_true _ _).mp h
    have hcancel : ¬ e.isCancelled work = true := by simpa using hc
    have hne : e.gate.holder ≠ some id := by
      rw [hh]
      intro he
      cases he
      exact Nat.not_lt.2 hid (of_decide_eq_true hlt)
    simp only [step, ht, passGate, if_neg hcancel, if_pos hne]
  · cases h

/-- Nobody left stands before a task that is not withheld. -/
lemma row_eq_nil (hf : (f.upon w).withheld w.size (j + w.size) = false) {work : Work}
    (ht : f.tasks[j]? = some ⟨work, .queued⟩) :
    (f.upon w).isCancelled (work.upon w) = true ∨ w.row = [] := by
  cases hrow : w.row with
  | nil => exact .inr rfl
  | cons first row =>
    have hh : (f.upon w).gate.holder = some first := by
      rw [upon, Gate.holder_ofRow, hrow]
      rfl
    have hlt : first < w.size := w.row_lt first (hrow ▸ mem_cons_self)
    have htask : (f.upon w).tasks[j + w.size]? = some ⟨work.upon w, .queued⟩ := by
      rw [upon_getElem?, ht]
      rfl
    simp only [withheld, htask, hh, hlt, decide_true, Bool.and_true, Bool.not_eq_false'] at hf
    exact .inl hf

/-- A task takes its steps over what is left as without it. -/
lemma step_upon (h : Above f w) (hf : (f.upon w).withheld w.size (j + w.size) = false) :
    ∃ w', w.Wanes w' ∧ (w'.tables = none ∨ (f.step j).Unbegun) ∧
      (f.upon w).step (j + w.size) = (f.step j).upon w' := by
  have hl : f.Lined := h.reachable.lined
  have hn : (f.upon w).gate.row.Nodup := h.reachable_upon.lined.nodup
  have stays (hno : ∀ p, ¬ f.Launches j p) (hs : (f.upon w).step (j + w.size) = (f.step j).upon w) :
      ∃ w', w.Wanes w' ∧ (w'.tables = none ∨ (f.step j).Unbegun) ∧
        (f.upon w).step (j + w.size) = (f.step j).upon w' :=
    ⟨w, .refl, h.harmless.imp_right fun hu => hu.step h.reachable hno, hs⟩
  cases ht : f.tasks[j]? with
  | none =>
    refine stays (fun p hp => by cases ht.symm.trans hp.1) ?_
    simp only [step, upon_getElem?, ht, map_none]
  | some t =>
    have htask : (f.upon w).tasks[j + w.size]? = some (t.upon w) := by
      rw [upon_getElem?, ht]
      rfl
    have hmem : t ∈ f.tasks := mem_of_getElem? ht
    obtain ⟨work, phase⟩ := t
    cases phase with
    | fresh =>
      refine stays (fun p hp => by cases ht.symm.trans hp.1) ?_
      simp only [step, ht, htask, Task.upon]
      exact begin_upon (t := ⟨work, .fresh⟩) hl.manned
        (h.harmless.imp_right fun hu => hu.calls _ hmem)
    | resting =>
      refine stays (fun p hp => by cases ht.symm.trans hp.1) ?_
      simp only [step, ht, htask, Task.upon]
      exact wake_upon (t := ⟨work, .resting⟩) hl hn
        (isCancelled_upon h.reachable h.reachable_upon hmem rfl)
    | queued =>
      have hc := isCancelled_upon h.reachable h.reachable_upon hmem rfl
      have hstep : (f.upon w).step (j + w.size) =
          (f.upon w).passGate (j + w.size) (Task.upon w ⟨work, .queued⟩) := by
        simp only [step, htask, Task.upon]
      have hstep' : f.step j = f.passGate j ⟨work, .queued⟩ := by simp only [step, ht]
      rcases passGate_upon hl hn hc ((row_eq_nil hf ht).imp_left hc.symm.trans) ht rfl with
        ⟨hs, hno⟩ | hs
      · exact stays hno (by rw [hstep, hstep', hs])
      · exact ⟨w.cleared, Remnant.wanes_cleared, .inl rfl, by rw [hstep, hstep', hs]⟩
    | active thread answerDue =>
      refine stays (fun p hp => by cases ht.symm.trans hp.1) ?_
      have hw : w.tables = none := by
        rcases h.harmless with hw | hu
        · exact hw
        · cases (thread?_eq ht).symm.trans (hu.idle j)
      simp only [step, ht, htask, Task.upon]
      exact advance_upon (t := ⟨work, .active thread answerDue⟩) hl hn hw
    | ended outcome =>
      refine stays (fun p hp => by cases ht.symm.trans hp.1) ?_
      simp only [step, ht, htask, Task.upon]

/-- What an action does over what is left, if it comes to something else without. -/
def Relays (f : Engine) (w : Remnant) (a : Action) : Prop :=
  ∃ w', w.Wanes w' ∧ Above (f.run ((f.upon w).relay w.size a)) w' ∧
    (f.upon w).perform a = (f.run ((f.upon w).relay w.size a)).upon w'

lemma Above.same (h : Above f w) (ha : (f.upon w).relay w.size a = [a])
    (hp : (f.upon w).perform a = (f.perform a).upon w)
    (hu : w.tables = none ∨ (f.perform a).Unbegun) :
    Relays f w a := by
  have hrun : f.run ((f.upon w).relay w.size a) = f.perform a := by rw [ha]; rfl
  refine ⟨w, .refl, ?_, ?_⟩
  · rw [hrun]
    exact ⟨.act a h.reachable, hp ▸ .act a h.reachable_upon, hu⟩
  · rw [hrun]
    exact hp

/-- Every step is relayed. -/
lemma step_relays (h : Above f w) (id : TaskId) : Relays f w (.step id) := by
  by_cases hid : id < w.size
  · -- a step of a task that is left
    obtain ⟨w', hw, htab, _, hs⟩ := step_remnant h.reachable_upon hid
    have hrelay : (f.upon w).relay w.size (.step id) = [] := if_pos (.inl hid)
    refine ⟨w', hw, ?_, ?_⟩
    · rw [hrelay]
      exact ⟨h.reachable, hs ▸ h.reachable_upon.step id, htab ▸ h.harmless⟩
    · rw [hrelay]
      exact hs
  · have hle : w.size ≤ id := Nat.le_of_not_lt hid
    cases hf : (f.upon w).withheld w.size id with
    | true =>
      have hrelay : (f.upon w).relay w.size (.step id) = [] := if_pos (.inr hf)
      refine ⟨w, .refl, ?_, ?_⟩
      · rw [hrelay]
        exact h
      · rw [hrelay]
        exact step_withheld hle hf
    | false =>
      obtain ⟨j, rfl⟩ : ∃ j, id = j + w.size := ⟨id - w.size, (Nat.sub_add_cancel hle).symm⟩
      have hrelay : (f.upon w).relay w.size (.step (j + w.size)) = [.step j] := by
        have hno : ¬ (j + w.size < w.size ∨ (f.upon w).withheld w.size (j + w.size) = true) := by
          rw [hf]
          exact fun ho => ho.elim hid Bool.false_ne_true
        simp only [relay, if_neg hno, Nat.add_sub_cancel]
      obtain ⟨w', hw, hu, hs⟩ := step_upon h hf
      refine ⟨w', hw, ?_, ?_⟩
      · rw [hrelay]
        exact ⟨h.reachable.step j, hs ▸ h.reachable_upon.step _, hu⟩
      · rw [hrelay]
        exact hs

lemma add_upon {t : Task} (ht : t.upon w = t) : (f.upon w).add t = (f.add t).upon w := by
  refine eq_upon rfl rfl ?_ rfl rfl
  simp only [add, upon, map_append, map_cons, map_nil, ht, append_assoc]

/-- So is every action. -/
lemma perform_relays (h : Above f w)
    (ha : ∀ name, a = .trigger name → (f.upon w).waitingProgram? w.size = none) : Relays f w a := by
  cases a with
  | execute source =>
    exact h.same rfl (add_upon rfl) (h.harmless.imp_right fun hu => hu.execute source)
  | trigger name =>
    refine h.same rfl (add_upon rfl) (h.harmless.imp_right fun hu => ?_)
    -- an event is called for only after the first call has begun
    have hwait : f.waitingProgram? 0 = none := by
      rw [← waitingProgram?_upon (w := w), Nat.zero_add]
      exact ha name rfl
    have hw := hu.waits
    rw [hwait] at hw
    cases hw
  | stop => exact h.same rfl stop_upon (h.harmless.imp_right fun hu => hu.of_tasks rfl)
  | step id => exact step_relays h id
  | _ => exact h.same rfl rfl (h.harmless.imp_right fun hu => hu.of_tasks rfl)

lemma patient_cons : e.patient id (a :: actions) = true ↔
      (∀ name, a = .trigger name → e.waitingProgram? id = none) ∧
      (e.perform a).patient id actions = true := by
  cases a with
  | trigger name =>
    simp only [patient, Bool.and_eq_true, isNone_iff_eq_none]
    exact ⟨fun h => ⟨fun _ _ => h.1, h.2⟩, fun h => ⟨h.1 name rfl, h.2⟩⟩
  | _ => exact ⟨fun h => ⟨nofun, h⟩, fun h => h.2⟩

/-- So is a run, by induction on its actions. -/
lemma run_relays (h : Above f w) (hp : (f.upon w).patient w.size actions = true) :
    ∃ w', w.Wanes w' ∧ Above (f.run ((f.upon w).relays w.size actions)) w' ∧
      (f.upon w).run actions = (f.run ((f.upon w).relays w.size actions)).upon w' := by
  induction actions generalizing f w with
  | nil => exact ⟨w, .refl, h, rfl⟩
  | cons a actions ih =>
    obtain ⟨ha, hp⟩ := patient_cons.1 hp
    obtain ⟨w1, hw1, h1, hs1⟩ := perform_relays h ha
    have hp1 : ((f.run ((f.upon w).relay w.size a)).upon w1).patient w1.size actions = true := by
      rw [← hs1, hw1.size]
      exact hp
    obtain ⟨w2, hw2, h2, hs2⟩ := ih h1 hp1
    have hrun : f.run ((f.upon w).relays w.size (a :: actions)) =
        (f.run ((f.upon w).relay w.size a)).run
          (((f.run ((f.upon w).relay w.size a)).upon w1).relays w1.size actions) := by
      rw [relays, hs1, hw1.size]
      exact foldl_append
    refine ⟨w2, hw1.trans hw2, ?_, ?_⟩
    · rw [hrun]
      exact h2
    · rw [hrun, ← hs2, ← hs1]
      rfl

/-- An engine over what is left looks like that engine. -/
lemma Above.resembles (h : Above f w) : Resembles w.size w.past (f.upon w) f where
  heard := rfl
  running := rfl
  timers := length_map _
  phases := by
    intro id
    rw [upon_getElem?]
    cases f.tasks[id]? <;> rfl
  tables := by
    intro hn
    rcases h.harmless with hw | hu
    · simp [upon, State.upon, hw]
    · have hwait := hu.waits
      rw [← waitingProgram?_upon (w := w), Nat.zero_add, hn] at hwait
      cases hwait

end Simulation

section Matching

variable {f e : Engine} {w : Remnant} {actions more : List Action} {id : TaskId}

lemma relays_append {n : Nat} :
    e.relays n (actions ++ more) = e.relays n actions ++ (e.run actions).relays n more := by
  induction actions generalizing e with
  | nil => rfl
  | cons a actions ih =>
    rw [cons_append, relays, relays, ih, append_assoc]
    rfl

lemma patient_append : e.patient id (actions ++ more) = true ↔
      e.patient id actions = true ∧ (e.run actions).patient id more = true := by
  induction actions generalizing e with
  | nil => exact ⟨fun h => ⟨rfl, h⟩, fun h => h.2⟩
  | cons a actions ih =>
    rw [cons_append, patient_cons, patient_cons, ih, and_assoc]
    rfl

/-- Whoever is left can leave the gate. -/
lemma exists_departed (h : Above f w) {m : Nat} (hm : m ≤ w.size) :
    ∃ w', w.Wanes w' ∧ Above f w' ∧ (∀ id < m, id ∉ w'.row) ∧
      (f.upon w).run ((List.range m).map .step) = f.upon w' ∧
      (f.upon w).relays w.size ((List.range m).map .step) = [] ∧
      (f.upon w).patient w.size ((List.range m).map .step) = true := by
  induction m with
  | zero => exact ⟨w, .refl, h, nofun, rfl, rfl, rfl⟩
  | succ m ih =>
    obtain ⟨w1, hw1, h1, hout, hrun, hrelays, hp⟩ := ih (Nat.le_of_succ_le hm)
    have hlt : m < w1.size := hw1.size ▸ hm
    obtain ⟨w2, hw2, htab, hout2, hs⟩ := step_remnant h1.reachable_upon hlt
    refine ⟨w2, hw1.trans hw2,
      ⟨h.reachable, hs ▸ h1.reachable_upon.step m, htab ▸ h1.harmless⟩, ?_, ?_, ?_, ?_⟩
    · intro id hid hm'
      rcases Nat.lt_succ_iff_lt_or_eq.1 hid with hid | rfl
      · exact hout id hid (hw2.row.mem hm')
      · exact hout2 hm'
    · rw [range_succ, map_append, run, foldl_append]
      exact (congrArg (fun e => e.step m) hrun).trans hs
    · rw [range_succ, map_append, relays_append, hrelays, hrun, nil_append]
      exact (append_nil _).trans (if_pos (.inl hm))
    · rw [range_succ, map_append, patient_append]
      exact ⟨hp, rfl⟩

lemma withheld_eq_false (hrow : w.row = []) : (f.upon w).withheld w.size id = false := by
  unfold withheld
  split
  · rename_i work first _ hh
    have hfirst : w.size ≤ first := by
      rw [upon, Gate.holder_ofRow, hrow, nil_append, List.head?_map] at hh
      obtain ⟨j, _, rfl⟩ := map_eq_some_iff.1 hh
      exact Nat.le_add_left _ _
    rw [decide_eq_false (Nat.not_lt.2 hfirst), Bool.and_false]
  · rfl

lemma relay_behind (hrow : w.row = []) (a : Action) :
    (f.upon w).relay w.size (a.behind w.size) = [a] := by
  cases a with
  | step id =>
    have hno : ¬ (id + w.size < w.size ∨ (f.upon w).withheld w.size (id + w.size) = true) := by
      rw [withheld_eq_false hrow]
      exact fun ho => ho.elim (fun hlt => Nat.not_lt.2 (Nat.le_add_left _ _) hlt) Bool.false_ne_true
    simp only [Action.behind, relay, if_neg hno, Nat.add_sub_cancel]
  | _ => rfl

/-- Where nobody left is at the gate, all actions can be taken. -/
lemma relays_behind (h : Above f w) (hrow : w.row = []) (hp : f.patient 0 actions = true) :
    (f.upon w).patient w.size (actions.map (Action.behind w.size)) = true ∧
      (f.upon w).relays w.size (actions.map (Action.behind w.size)) = actions := by
  induction actions generalizing f w with
  | nil => exact ⟨rfl, rfl⟩
  | cons a actions ih =>
    obtain ⟨ha, hp⟩ := patient_cons.1 hp
    have hallowed (name : String) (he : a.behind w.size = .trigger name) :
        (f.upon w).waitingProgram? w.size = none := by
      rw [← Nat.zero_add w.size, waitingProgram?_upon]
      cases a with
      | trigger name' => exact ha name' rfl
      | _ => cases he
    obtain ⟨w', hw, h', hs⟩ := perform_relays h hallowed
    have hrun : f.run ((f.upon w).relay w.size (a.behind w.size)) = f.perform a := by
      rw [relay_behind hrow]
      rfl
    rw [hrun] at h' hs
    obtain ⟨hp', hrelays⟩ := ih h' (sublist_nil.1 (hrow ▸ hw.row)) hp
    rw [hw.size] at hp' hrelays
    refine ⟨patient_cons.2 ⟨hallowed, ?_⟩, ?_⟩
    · rw [hs]
      exact hp'
    · rw [map_cons, relays, relay_behind hrow, hs, hrelays]
      rfl

/-- What can happen on a new engine can happen over what is left. -/
lemma exists_matching (h : Above f w) (hp : f.patient 0 actions = true) :
    ∃ actions', (f.upon w).patient w.size actions' = true ∧
    (f.upon w).relays w.size actions' = actions := by
  obtain ⟨w', hw, h', hout, hrun, hrelays, hpat⟩ := exists_departed h (Nat.le_refl _)
  have hrow : w'.row = [] := by
    refine eq_nil_iff_forall_not_mem.2 fun id hm => ?_
    exact hout id (hw.size ▸ w'.row_lt id hm) hm
  obtain ⟨hpat', hrelays'⟩ := relays_behind h' hrow hp
  rw [hw.size, ← hrun] at hpat' hrelays'
  refine ⟨_, patient_append.2 ⟨hpat, hpat'⟩, ?_⟩
  rw [relays_append, hrelays, hrelays', nil_append]

end Matching

section Calls

variable {e : Engine} {source : String} {p : Program}

/-- What is left of earlier programs at the next call. -/
def left (e : Engine) (hr : e.Reachable) (hi : e.Idle) : Remnant where
  tasks := e.tasks
  row := e.gate.row
  issued := e.state.timers.issued
  cancelled := e.state.timers.cancelAll.2.cancelled
  past := e.state.host.heard
  tables := some (e.state.store, e.state.depth)
  defunct := by
    intro t ht
    obtain ⟨work, phase⟩ := t
    rcases hi _ ht with hend | hwait
    · cases phase with
      | ended outcome => exact .ended
      | _ => cases hend
    · -- the call has cancelled all timers that were live
      have cancelled {timer : Nat} (htimer : Task.timer? ⟨work, phase⟩ = some timer) :
          timer ∈ e.state.timers.cancelAll.2.cancelled :=
        List.mem_append.2 (hr.enlisted _ ht timer htimer)
      cases work with
      | timer timer body period due =>
        cases phase with
        | fresh => exact .fresh (cancelled rfl)
        | resting => exact .timer (cancelled rfl) (.inl rfl)
        | queued => exact .timer (cancelled rfl) (.inr rfl)
        | _ => cases hwait
      | _ => cases hwait
  row_lt := by
    intro id hm
    obtain ⟨t, ht, _⟩ := (hr.lined.mem_iff id).1 hm
    exact (List.getElem?_eq_some_iff.1 ht).1

/-- A call stops everything and goes to the gate. -/
lemma called_eq (hc : compile source = .ok p) : e.called source =
      { e with
        state := e.state.stop
        gate := e.gate.request e.tasks.length
        tasks := e.tasks ++ [⟨.program p, .queued⟩] } := by
  have ht : (e.perform (.execute source)).tasks[e.tasks.length]? = some ⟨.source source, .fresh⟩ :=
    List.getElem?_concat_length
  have hset :
    (e.tasks ++ [(⟨.source source, .fresh⟩ : Task)]).set e.tasks.length ⟨.program p, .queued⟩ =
      e.tasks ++ [⟨.program p, .queued⟩] := by
    rw [set_append_right _ _ (Nat.le_refl _), Nat.sub_self]
    rfl
  simp only [called, step, ht, begin, hc]
  simp only [stop, queue, put, perform, add, hset]

/-- A call is one on a new engine, over what is left. -/
lemma called_upon (hr : e.Reachable) (hi : e.Idle) (hc : compile source = .ok p) :
    e.called source = (e.renewed.called source).upon (e.left hr hi) := by
  rw [called_eq hc, called_eq hc]
  refine eq_upon ?_ ?_ rfl ?_ rfl
  · simp [State.upon, State.against, State.stop, Remnant.backdrop,
      Remnant.timers, left, renewed, run, perform, fresh, Registry.cancelAll]
  · have hrow :
        ((e.renewed.gate.request e.renewed.tasks.length).row.map (· + (e.left hr hi).size)) =
          [e.tasks.length] :=
      congrArg (fun n => [n]) (Nat.zero_add e.tasks.length)
    change e.gate.request e.tasks.length = .ofRow (e.gate.row ++ _)
    rw [hrow, ← Gate.request_ofRow, hr.lined.manned.ofRow_row]
  · exact (Nat.zero_add e.now).symm

lemma above_called (hr : e.Reachable) (hi : e.Idle) (hc : compile source = .ok p) :
    Above (e.renewed.called source) (e.left hr hi) where
  reachable := (Reachable.act _ ((Reachable.fresh _ _).run _)).step _
  reachable_upon := called_upon hr hi hc ▸ (Reachable.act _ hr).step _
  harmless := by
    refine .inr ?_
    rw [called_eq hc]
    exact ⟨rfl, fun t ht => by cases mem_singleton.1 ht; rfl, fun id => by cases id <;> rfl⟩

end Calls

section Silence

variable {e : Engine} {id : TaskId} {t : Task}

section

variable (hr : e.Reachable) (ht : e.tasks[id]? = some t) (h : t.Defunct e.state.timers.cancelled)
include hr ht h

/-- A task that is left does nothing. -/
lemma step_defunct :
    (e.step id).state = e.state ∧
      ∃ t', t'.Defunct e.state.timers.cancelled ∧ (e.step id).tasks = e.tasks.set id t' := by
  cases h with
  | ended =>
    have hs : e.step id = e := by simp only [step, ht]
    obtain ⟨hlt, hget⟩ := List.getElem?_eq_some_iff.1 ht
    rw [hs]
    exact ⟨rfl, e.tasks[id], hget ▸ Task.Defunct.ended, (set_getElem_self hlt).symm⟩
  | fresh hc =>
    simp only [step, ht, begin]
    exact ⟨rfl, _, .timer hc (.inl rfl), rfl⟩
  | timer hc hp =>
    rw [step_cancelled ht hp hc]
    refine ⟨?_, _, .ended, rfl⟩
    simp only [retire, hr.orderly.complete_eq (.inl (decide_eq_true hc))]

/-- Nor does it by any action. -/
lemma perform_defunct (a : Action) :
    ∃ t', (e.perform a).tasks[id]? = some t' ∧ t'.Defunct (e.perform a).state.timers.cancelled := by
  have later {t : Task} (h : t.Defunct e.state.timers.cancelled) :
      t.Defunct (e.perform a).state.timers.cancelled :=
    h.mono fun timer hc => perform_cancelled hr hc a
  cases a with
  | execute source | trigger name => exact ⟨t, getElem?_append_some ht, later h⟩
  | step other =>
    by_cases hne : id = other
    · subst hne
      obtain ⟨_, t', h', hs⟩ := step_defunct hr ht h
      refine ⟨t', ?_, later h'⟩
      rw [perform, hs]
      exact List.getElem?_set_self (List.getElem?_eq_some_iff.1 ht).1
    · exact ⟨t, (step_move hr.fitting).getElem?_other hne ht, later h⟩
  | _ => exact ⟨t, ht, later h⟩

lemma run_defunct (actions : List Action) : ∃ t', (e.run actions).tasks[id]? = some t' ∧
    t'.Defunct (e.run actions).state.timers.cancelled := by
  induction actions generalizing e t with
  | nil => exact ⟨t, ht, h⟩
  | cons a actions ih =>
    obtain ⟨t', ht', h'⟩ := perform_defunct hr ht h a
    exact ih (.act a hr) ht' h'

end

end Silence

/-- A call for a program on an engine on which nothing is going on starts afresh, whatever has
happened before: what the host hears, the variables, functions and events, whether a program runs
and how many timers are live is as on a new engine, and tasks of earlier programs never do anything
any more. -/
theorem execute_starts_afresh {e : Engine} {source : String} {p : Program}
    (hr : e.Reachable) (hi : e.Idle) (hc : compile source = .ok p) : e.StartsAfresh source := by
  have habove : Above (e.renewed.called source) (e.left hr hi) := above_called hr hi hc
  have hcalled : e.called source = (e.renewed.called source).upon (e.left hr hi) :=
    called_upon hr hi hc
  refine ⟨?_, ?_, ?_⟩
  · intro actions hp
    rw [hcalled] at hp ⊢
    obtain ⟨w, hw, h, hs⟩ := run_relays habove hp
    have hres := h.resembles
    rw [← hs, hw.size, hw.past] at hres
    exact hres
  · intro actions hp
    rw [hcalled]
    exact exists_matching habove hp
  · intro actions id hid
    have hr' : (e.called source).Reachable := (Reachable.act _ hr).step _
    have ht : (e.called source).tasks[id]? = some e.tasks[id] := by
      rw [called_eq hc]
      exact getElem?_append_some (List.getElem?_eq_getElem hid)
    have hdef : (e.tasks[id]).Defunct (e.called source).state.timers.cancelled := by
      rw [called_eq hc]
      exact (e.left hr hi).defunct _ (List.getElem_mem hid)
    obtain ⟨t, ht', hdef'⟩ := run_defunct hr' ht hdef actions
    obtain ⟨hs, t', _, htasks⟩ := step_defunct (hr'.run actions) ht' hdef'
    refine ⟨hs, fun other hne => ?_⟩
    rw [htasks]
    exact List.getElem?_set_ne (Ne.symm hne)

/-- A timer about to run its body does not disturb the next program. -/
theorem struck_starts_afresh :
    struck.Reachable ∧ struck.Idle ∧ struck.gate.holder = some 1 ∧ (compile "say 2\n").isOk = true ∧
      struck.StartsAfresh "say 2\n" := by
  have hr : struck.Reachable := ((Reachable.fresh defaultDepth {}).run _).run _
  have hi : struck.Idle := by
    unfold Idle
    decide +kernel
  have hh : struck.gate.holder = some 1 := by decide +kernel
  have hread : (compile "say 2\n").toOption.map (·.body.length) = some 1 := by decide +kernel
  obtain ⟨p, hc, _⟩ := exists_ok hread
  exact ⟨hr, hi, hh, by rw [hc]; rfl, execute_starts_afresh hr hi hc⟩

end Engine

end Colloquy
