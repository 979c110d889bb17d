import Colloquy.Proofs.Engine.Progress

/-!
# Requests to halt and the calls that wait

Whoever begins behind the gate takes back the request to halt. So a request reaches only the
sequence behind the gate at that time: a call that waits is held back only if it has nothing to
start, and the engine does not stay stopped if a program waits (`waiting_heeds_iff`).
-/

namespace Colloquy

open List Thread

/-- The thread with which a program begins. -/
def Program.opening (p : Program) : Thread :=
  Engine.mainThread p { store := p.body.foldl Store.declare {} }

/-- The thread with which a call begins behind the gate. -/
def Work.opening? : Work → Option Thread
  | .program p => some p.opening
  | .event body => some ⟨.block body, []⟩
  | _ => none

/-- Whether a task does not wait as a call, or with an empty program only. -/
def Task.isHushed : Task → Bool
  | ⟨.program p, .queued⟩ => p.body.isEmpty
  | ⟨.event _, .queued⟩ => false
  | _ => true

namespace Thread

variable {t : Thread} {s : State}

/-- Nothing is left to start. -/
def Quiet (t : Thread) : Prop :=
  (t.control = .block [] ∨ ∃ f, t.control = .flow f) ∧ ∀ frame ∈ t.frames, frame = .mainLine []

lemma Quiet.isReady_eq (h : t.Quiet) : t.control.isReady = false := by
  rcases h.1 with hc | ⟨f, hc⟩
  · rw [hc]
    rfl
  · rw [hc]
    rfl

lemma Quiet.not_starts (h : t.Quiet) : ¬ t.Starts s := by
  rw [starts_iff, h.isReady_eq]
  exact fun hs => Bool.false_ne_true hs.1

lemma Quiet.step (h : t.Quiet) : (t.step s).1.Quiet := by
  obtain ⟨control, frames⟩ := t
  obtain ⟨hc | ⟨f, hc⟩, hframes⟩ := h
  · cases hc
    exact ⟨.inr ⟨.done, rfl⟩, hframes⟩
  · cases hc
    cases frames with
    | nil => exact ⟨.inr ⟨f, rfl⟩, hframes⟩
    | cons frame frames =>
      cases hframes frame mem_cons_self
      exact ⟨.inl rfl, fun g hg => hframes g (mem_cons_of_mem _ hg)⟩

end Thread

namespace Engine

/-- A call waits for the gate, or has it and has not begun. -/
def Waits (e : Engine) (id : TaskId) : Prop :=
  ∃ w, e.tasks[id]? = some ⟨w, .queued⟩ ∧ w.opening?.isSome = true

/-- A request holds back every call that waits: none ever starts a statement. -/
def HoldsBack (e : Engine) (a : Action) : Prop :=
  ∀ id, e.Waits id → ∀ actions, ¬ ((e.perform a).run actions).Starts id

/-- The engine stays stopped until a program begins that did not wait already. -/
def StaysStopped (e : Engine) (a : Action) : Prop :=
  ∀ d, Meanwhile (fun id => (e.waitingProgram? id).isSome = true) (e.perform a) d →
  d.state.running = false

section Opening

variable {e : Engine} {id : TaskId} {p : Program}

lemma mainThread_declared : mainThread p (e.declared p).state = p.opening := by
  have hs : (e.declared p).state.store = p.body.foldl Store.declare {} := foldl_declare_store p.body
  unfold mainThread Program.opening mainThread
  rw [hs]

lemma waitingProgram?_inv (h : e.waitingProgram? id = some p) :
    e.tasks[id]? = some ⟨.program p, .queued⟩ := by
  unfold waitingProgram? at h
  split at h
  · rename_i p' ht
    cases h
    exact ht
  · cases h

/-- Work begins with a row of statements. -/
lemma opening?_shape {w : Work} {thread : Thread} (h : w.opening? = some thread) :
    ∃ body, thread = ⟨.block body, []⟩ ∨ ∃ rest, thread = ⟨.block body, [.mainLine rest]⟩ := by
  cases w with
  | program p =>
    cases h
    unfold Program.opening mainThread
    split
    · exact ⟨_, .inr ⟨_, rfl⟩⟩
    · exact ⟨_, .inl rfl⟩
  | event body =>
    cases h
    exact ⟨body, .inl rfl⟩
  | _ => cases h

/-- A call that has the gate begins and takes back the request. -/
lemma step_opening {w : Work} {thread : Thread} (ht : e.tasks[id]? = some ⟨w, .queued⟩)
    (hw : w.opening? = some thread) (hh : e.gate.holder = some id) :
    (e.step id).thread? id = some thread ∧ (e.step id).state.halted = false := by
  cases w with
  | program p =>
    cases hw
    have hs : e.step id = e.launch id p := Launches.step_eq ⟨ht, hh⟩
    refine ⟨?_, ?_⟩
    · rw [hs, ← mainThread_declared (e := e)]
      exact thread?_eq (launch_getElem? ht)
    · rw [hs]
      exact (declared_spec e p).halted
  | event body =>
    cases hw
    rw [step_respond ht hh]
    refine ⟨?_, rfl⟩
    exact thread?_eq (List.getElem?_set_self (List.getElem?_eq_some_iff.1 ht).1)
  | _ => cases hw

/-- What has something to start starts it. -/
lemma exists_starts {w : Work} {thread : Thread} (ht : e.thread? id = some thread)
    (hw : w.opening? = some thread) (hh : e.state.halted = false) (hq : ¬ thread.Quiet) :
    ∃ actions, (e.run actions).Starts id := by
  obtain ⟨body, rfl | ⟨rest, rfl⟩⟩ := opening?_shape hw
  · cases body with
    | nil => exact (hq ⟨.inl rfl, nofun⟩).elim
    | cons stmt body => exact ⟨[], _, ht, starts_iff.2 ⟨rfl, hh⟩⟩
  · cases body with
    | cons stmt body => exact ⟨[], _, ht, starts_iff.2 ⟨rfl, hh⟩⟩
    | nil =>
      cases rest with
      | nil => exact (hq ⟨.inl rfl, fun f hf => mem_singleton.1 hf⟩).elim
      | cons stmt rest =>
        -- the start event has nothing to run, and the main line comes after it
        obtain ⟨ht1, hs1⟩ := step_thread ht rfl rfl
        obtain ⟨ht2, hs2⟩ := step_thread ht1 rfl rfl
        refine ⟨[.step id, .step id], _, ht2, starts_iff.2 ⟨rfl, ?_⟩⟩
        change ((e.step id).step id).state.halted = false
        rw [hs2, hs1]
        exact hh

end Opening

section Spent

variable {e d : Engine} {id other : TaskId} {t : Task}

/-- A call that has nothing to start, wherever it is. -/
inductive Spent : Task → Prop where
  | queued {w thread} :
    w.opening? = some thread →
    thread.Quiet →
    Spent ⟨w, .queued⟩
  | active {w thread answerDue} :
    w.opening?.isSome = true →
    thread.Quiet →
    Spent ⟨w, .active thread answerDue⟩
  | ended {w outcome} :
    Spent ⟨w, .ended outcome⟩

/-- Moves of its own leave a call without anything to start. -/
lemma Move.spent (h : Spent t) (ht : e.tasks[id]? = some t) (hm : Move e id d) :
    ∃ t', d.tasks[id]? = some t' ∧ Spent t' := by
  have hlt : id < e.tasks.length := (List.getElem?_eq_some_iff.1 ht).1
  cases hm with
  | stay => exact ⟨t, ht, h⟩
  | @launch p hj _ =>
    cases Option.some.inj (ht.symm.trans hj)
    cases h with
    | queued hw hq =>
      cases hw
      refine ⟨_, launch_getElem? ht, .active rfl ?_⟩
      rw [mainThread_declared]
      exact hq
  | respond hj _ =>
    cases Option.some.inj (ht.symm.trans hj)
    cases h with
    | queued hw hq =>
      cases hw
      exact ⟨_, List.getElem?_set_self hlt, .active rfl hq⟩
  | advance hj _ =>
    cases Option.some.inj (ht.symm.trans hj)
    cases h with
    | active hw hq => exact ⟨_, List.getElem?_set_self hlt, .active hw hq.step⟩
  | conclude hj hw _ =>
    cases Option.some.inj (ht.symm.trans hj)
    cases h with
    | active hcall _ =>
      cases hw with
      | timer => cases hcall
      | program | event => exact ⟨_, List.getElem?_set_self hlt, .ended⟩
  | strike hj _ _ _ =>
    cases Option.some.inj (ht.symm.trans hj)
    cases h with
    | queued hw _ => cases hw
  | retire hj hp _ | refuse hj _ | miss hj _ => exact ⟨_, List.getElem?_set_self hlt, .ended⟩
  | call hj _ | summon hj _ | arm hj | tick hj _ _ _ =>
    cases Option.some.inj (ht.symm.trans hj)
    cases h

lemma perform_spent (hr : e.Reachable) (ht : e.tasks[id]? = some t) (h : Spent t) (a : Action) :
    ∃ t', (e.perform a).tasks[id]? = some t' ∧ Spent t' := by
  cases a with
  | execute source | trigger name => exact ⟨t, getElem?_append_some ht, h⟩
  | step other =>
    by_cases hne : id = other
    · subst hne
      exact (step_move hr.fitting).spent h ht
    · exact ⟨t, (step_move hr.fitting).getElem?_other hne ht, h⟩
  | _ => exact ⟨t, ht, h⟩

/-- What has nothing left never starts anything. -/
lemma run_not_starts (hr : e.Reachable) (ht : e.tasks[id]? = some t) (h : Spent t)
    (actions : List Action) :
    ¬ (e.run actions).Starts id := by
  induction actions generalizing e t with
  | nil =>
    rintro ⟨thread, hthread, hs⟩
    obtain ⟨w, answerDue, hj⟩ := thread?_inv hthread
    cases Option.some.inj (ht.symm.trans hj)
    cases h with
    | active _ hq => exact hq.not_starts hs
  | cons a actions ih =>
    obtain ⟨t', ht', h'⟩ := perform_spent hr ht h a
    exact ih (.act a hr) ht' h'

end Spent

section Requests

variable {e d : Engine} {id : TaskId} {a : Action}

section

variable (hr : e.Reachable)
include hr

lemma Move.stopped (hstop : e.state.running = false)
    (hn : ∀ p, ¬ e.Launches id p) (hm : Move e id d) : d.state.running = false := by
  cases hm.turn hr.fitting hr.orderly with
  | same hsame _ _ => exact hsame.trans hstop
  | stopped hnow _ _ | ended hnow _ _ => exact hnow
  | launched ht hh _ => exact (hn _ ⟨ht, hh⟩).elim
  | responded _ _ hsame _ => exact hsame.trans hstop

/-- The engine stays stopped if nobody may begin. -/
lemma Meanwhile.stopped {allowed : TaskId → Prop} (hstop : e.state.running = false)
    (hnone : ∀ id, ¬ allowed id) (h : Meanwhile allowed e d) :
    d.state.running = false := by
  induction h with
  | refl => exact hstop
  | @act d a h hl ih =>
    cases a with
    | stop => rfl
    | step id =>
      have hdr := h.reachable hr
      exact (step_move hdr.fitting).stopped hdr ih fun p hp => hnone id (hl id p rfl hp)
    | _ => exact ih

/-- Who waits goes on waiting. -/
lemma RequestsHalt.queued {w : Work} (h : e.RequestsHalt a)
    (ht : e.tasks[id]? = some ⟨w, .queued⟩) : (e.perform a).tasks[id]? = some ⟨w, .queued⟩ := by
  cases h with
  | stop => exact ht
  | @terminate other thread args hother _ =>
    obtain ⟨w', answerDue, hother⟩ := thread?_inv hother
    refine (step_move hr.fitting).getElem?_other ?_ ht
    rintro rfl
    cases Option.some.inj (ht.symm.trans hother)
  | @execute other text p hother _ =>
    refine (step_move hr.fitting).getElem?_other ?_ ht
    rintro rfl
    cases Option.some.inj (ht.symm.trans hother)

/-- A request adds to the row at most. -/
lemma RequestsHalt.row (h : e.RequestsHalt a) :
    ∃ more, (e.perform a).gate.row = e.gate.row ++ more := by
  cases h with
  | stop => exact ⟨[], (append_nil _).symm⟩
  | @terminate other thread args hother hc =>
    obtain ⟨w', answerDue, ht⟩ := thread?_inv hother
    obtain ⟨ho, ha⟩ := hc.awake
    refine ⟨[], ?_⟩
    simp [perform, step, ht, advance, ho, ha, put]
  | @execute other text p hother hp =>
    refine ⟨[other], ?_⟩
    rw [← hr.lined.manned.row_request]
    simp only [perform, step, hother, begin, hp]
    rfl

/-- A call that waits can get the gate after it. -/
lemma RequestsHalt.exists_admitted {w : Work} (h : e.RequestsHalt a)
    (ht : e.tasks[id]? = some ⟨w, .queued⟩) :
    ∃ d, Meanwhile (fun id => (e.waitingProgram? id).isSome = true) (e.perform a) d ∧
    d.gate.holder = some id ∧ d.tasks[id]? = some ⟨w, .queued⟩ := by
  have hin : id ∈ e.gate.row := (hr.lined.mem_row_iff ht).2 rfl
  obtain ⟨ahead, behind, hrow⟩ := append_of_mem hin
  obtain ⟨more, hmore⟩ := h.row hr
  have hrow' : (e.perform a).gate.row = ahead ++ id :: (behind ++ more) := by
    rw [hmore, hrow, append_assoc, cons_append]
  refine Engine.exists_admitted _ (.act a hr) hrow' (h.queued hr ht) ?_
  intro other hmem p hp
  -- those ahead were at the gate before the request, and whoever is active goes on
  have hbefore : other ∈ e.gate.row := hrow ▸ mem_append_left _ hmem
  obtain ⟨⟨w', phase⟩, hother, hat⟩ := (hr.lined.mem_iff other).1 hbefore
  cases phase with
  | queued =>
    cases Option.some.inj ((h.queued hr hother).symm.trans hp)
    simp only [waitingProgram?, hother]
    rfl
  | active thread answerDue =>
    have hgo := h.thread? hr (thread?_isSome hother)
    simp only [Engine.thread?, hp] at hgo
    cases hgo
  | fresh | resting | ended => cases hat

/-- A request does not hold back what can start. -/
lemma RequestsHalt.not_holdsBack {w : Work} {thread : Thread} (h : e.RequestsHalt a)
    (ht : e.tasks[id]? = some ⟨w, .queued⟩) (hw : w.opening? = some thread)
    (hq : ¬ thread.Quiet) : ¬ e.HoldsBack a := by
  intro hb
  obtain ⟨d, hm, hh, htd⟩ := h.exists_admitted hr ht
  obtain ⟨before, rfl⟩ := hm.exists_run
  obtain ⟨hthread, hgo⟩ := step_opening htd hw hh
  obtain ⟨after, hs⟩ := exists_starts hthread hw hgo hq
  refine hb id ⟨w, ht, by rw [hw]; rfl⟩ (before ++ .step id :: after) ?_
  rw [run, foldl_append]
  exact hs

/-- Nor does it last if a program waits. -/
lemma RequestsHalt.not_staysStopped {p : Program} (h : e.RequestsHalt a)
    (hp : e.waitingProgram? id = some p) : ¬ e.StaysStopped a := by
  intro hstays
  obtain ⟨d, hm, hh, htd⟩ := h.exists_admitted hr (waitingProgram?_inv hp)
  have hstopped : (d.step id).state.running = false := by
    refine hstays _ (hm.trans (.step fun _ _ => ?_))
    rw [hp]
    rfl
  have hruns : (d.launch id p).state.running = true := (declared_spec d p).running
  rw [← Launches.step_eq ⟨htd, hh⟩, hstopped] at hruns
  cases hruns

end

end Requests

/-- A request to halt holds back the calls that wait exactly if they have nothing to start, and the
engine stays stopped, until a program begins that did not wait already, exactly if no program
waits. -/
theorem waiting_heeds_iff {e : Engine} {a : Action} (hr : e.Reachable) (ha : e.RequestsHalt a) :
    (e.HoldsBack a ↔ ∀ (id : TaskId) w thread, e.tasks[id]? = some ⟨w, .queued⟩ →
      w.opening? = some thread →
        thread.Quiet) ∧
      (e.StaysStopped a ↔ ∀ id, e.waitingProgram? id = none) := by
  have hr' : (e.perform a).Reachable := .act a hr
  refine ⟨⟨?_, ?_⟩, ⟨?_, ?_⟩⟩
  · intro hb id w thread ht hw
    exact Classical.byContradiction fun hq => ha.not_holdsBack hr ht hw hq hb
  · rintro hquiet id ⟨w, ht, hw⟩ actions
    obtain ⟨thread, hw⟩ := Option.isSome_iff_exists.1 hw
    exact run_not_starts hr' (ha.queued hr ht) (.queued hw (hquiet id w thread ht hw)) actions
  · intro hstays id
    cases hp : e.waitingProgram? id with
    | none => rfl
    | some p => exact (ha.not_staysStopped hr hp hstays).elim
  · intro hnone d hd
    refine hd.stopped hr' ha.stops.1 fun id hid => ?_
    rw [hnone id] at hid
    cases hid

/-- A program without statements has nothing to start. -/
lemma quiet_of_isHushed {w : Work} {thread : Thread} (h : Task.isHushed ⟨w, .queued⟩ = true)
    (hw : w.opening? = some thread) : thread.Quiet := by
  cases w with
  | program p =>
    obtain ⟨body⟩ := p
    cases List.isEmpty_iff.1 h
    cases hw
    exact ⟨.inl rfl, nofun⟩
  | event body => cases h
  | _ => cases hw

/-- The timer has its question open, and a program that is only a comment waits. -/
def hushed : Engine := prompted.run [.execute "# later\n", .step 2]

/-- A stop holds back that program, and lasts if it is not there. -/
theorem prompted_heeds_stop :
    prompted.Reachable ∧ prompted.HoldsBack .stop ∧ prompted.StaysStopped .stop ∧
      hushed.Waits 2 ∧ hushed.HoldsBack .stop := by
  have hr : prompted.Reachable := (Reachable.fresh defaultDepth { answers := ["7"] }).run _
  have halone : ∀ t ∈ prompted.tasks, t.isEnded = true ∨ t.timer?.isSome = true := by decide +kernel
  have hquiet : ∀ t ∈ prompted.tasks, t.isHushed = true := by decide +kernel
  have hquiet' : ∀ t ∈ hushed.tasks, t.isHushed = true := by decide +kernel
  have hwaits : (hushed.waitingProgram? 2).isSome = true := by decide +kernel
  obtain ⟨p, hp⟩ := Option.isSome_iff_exists.1 hwaits
  obtain ⟨hholds, hstays⟩ := waiting_heeds_iff hr .stop
  obtain ⟨hholds', _⟩ := waiting_heeds_iff (hr.run [.execute "# later\n", .step 2]) .stop
  refine ⟨hr, hholds.2 fun id w thread ht => ?_, hstays.2 fun id =>
    ?_, ⟨_, waitingProgram?_inv hp, rfl⟩, hholds'.2 fun id w thread ht => ?_⟩
  · exact quiet_of_isHushed (hquiet _ (List.mem_of_getElem? ht))
  · cases hp : prompted.waitingProgram? id with
    | none => rfl
    | some p =>
      rcases halone _ (List.mem_of_getElem? (waitingProgram?_inv hp)) with h | h <;> cases h
  · exact quiet_of_isHushed (hquiet' _ (List.mem_of_getElem? ht))

/-- A second program is called for while the first asks a question. -/
def crowded : Engine :=
  (fresh defaultDepth { answers := ["7", "8"] }).run
    ([.delay 20, .execute "input using \"q\"\n"] ++ List.replicate 10 (.step 0) ++
      [.execute "ask \"r\" and store result in y\n", .step 1])

/-- The second program goes on once the question is answered. -/
theorem crowded_ignores_stop :
    crowded.Reachable ∧ crowded.Waits 1 ∧ ¬ crowded.HoldsBack .stop ∧
    ¬ crowded.StaysStopped .stop := by
  have hr : crowded.Reachable := (Reachable.fresh defaultDepth { answers := ["7", "8"] }).run _
  have hready : (crowded.waitingProgram? 1).any (fun p => p.opening.control.isReady) = true := by
    decide +kernel
  obtain ⟨p, hp, hready⟩ := (Option.any_eq_true _ _).1 hready
  have ht : crowded.tasks[1]? = some ⟨.program p, .queued⟩ := waitingProgram?_inv hp
  have hq : ¬ p.opening.Quiet := by
    intro hq
    rw [hq.isReady_eq] at hready
    cases hready
  exact ⟨hr, ⟨_, ht, rfl⟩, RequestsHalt.stop.not_holdsBack hr ht rfl hq,
    RequestsHalt.stop.not_staysStopped hr hp⟩

end Engine

end Colloquy
