import Colloquy.Proofs.Engine.Lifecycle

/-!
# Isolation of programs

A program that begins finds empty tables, but timers were cancelled when it was called, before it
waited, and bodies of events may wait at the gate. While it is the latest program (`Tenure`), new
calls and ticks only meet what it has declared (`Governed`). So it is isolated exactly if no timer
is live when it begins and no event of another program waits (`isolated_iff`).
-/

namespace Colloquy

open List

namespace Engine

/-- A task is about to begin a program behind the gate. -/
def Launches (e : Engine) (id : TaskId) (p : Program) : Prop :=
  e.tasks[id]? = some ⟨.program p, .queued⟩ ∧ e.gate.holder = some id

/-- The next step of a task begins the body of a timer or an event. -/
def Begins (e : Engine) (id : TaskId) (body : List Stmt) : Prop :=
  e.thread? id = none ∧
    ∃ w answerDue, (∀ p, w ≠ .program p) ∧
      (e.step id).tasks[id]? = some ⟨w, .active ⟨.block body, []⟩ answerDue⟩

/-- The engines that follow without another program beginning. -/
inductive Tenure (e : Engine) : Engine → Prop where
  | refl :
    Tenure e e
  | act {d : Engine} (a : Action) :
    Tenure e d →
    (∀ id p, a = .step id → ¬ d.Launches id p) →
    Tenure e (d.perform a)

/-- As long as no other program begins, no earlier timer is live, and every body that begins was
declared by the program. -/
def Isolated (e : Engine) (id : TaskId) (p : Program) : Prop :=
  ∀ d, Tenure (e.step id) d →
    (∀ timer ∈ d.state.timers.live, e.state.timers.issued < timer) ∧
      ∀ other body, d.Begins other body → Declares p.body body

/-- What engines after the beginning of a program have in common. -/
structure Governed (e : Engine) (p : Program) (d : Engine) : Prop where
  live : ∀ timer ∈ d.state.timers.live, timer ∈ e.state.timers.live ∨ e.state.timers.issued < timer
  timers : ∀ t ∈ d.tasks, ∀ timer body period due, t.work = .timer timer body period due →
    t.timer? = some timer → timer ≤ e.state.timers.issued ∨ Declares p.body body
  waiting : ∀ (id : TaskId) body, d.tasks[id]? = some ⟨.event body, .queued⟩ →
    e.tasks[id]? = some ⟨.event body, .queued⟩ ∨ Declares p.body body
  events : ∀ name event, d.state.store.events.get? name = some event → Declares p.body event.body

section Tenure

variable {e d d' : Engine} {id : TaskId} {p : Program}

lemma Tenure.reachable (hr : e.Reachable) (h : Tenure e d) : d.Reachable := by
  induction h with
  | refl => exact hr
  | act a _ _ ih => exact .act a ih

lemma Launches.step_eq (h : e.Launches id p) : e.step id = e.launch id p := by
  obtain ⟨ht, hh⟩ := h
  simp [step, ht, passGate, isCancelled, hh]

/-- A program that begins makes its declarations and leaves the rest alone. -/
lemma Governed.launch (hr : e.Reachable) : Governed e p (e.launch id p) := by
  have hspec := declared_spec e p
  obtain ⟨new, hn, hall⟩ := hspec.live
  obtain ⟨added, ha, hadded⟩ := hspec.tasks
  refine ⟨?_, ?_, ?_, ?_⟩
  · intro timer hm
    change timer ∈ (e.declared p).state.timers.live at hm
    rw [hn] at hm
    rcases mem_append.1 hm with hm | hm
    · exact .inl hm
    · exact .inr (hall timer hm).1
  · intro t ht timer body period due hw htimer
    rw [launch_eq] at ht
    rcases mem_or_eq_of_mem_set ht with ht | rfl
    · rw [ha] at ht
      rcases mem_append.1 ht with ht | ht
      · have hreg := hr.orderly.registry
        rcases hr.enlisted t ht timer htimer with hl | hc
        · exact .inl (hreg.live_le timer hl)
        · exact .inl (hreg.cancelled_le timer hc)
      · obtain ⟨timer', body', period', due', rfl, _, _, hb⟩ := hadded t ht
        cases hw
        exact .inr hb
    · cases hw
  · intro other body ht
    rw [launch_eq] at ht
    rcases getElem?_set_inv ht with ⟨_, he⟩ | ⟨_, ht⟩
    · cases he
    · rw [ha] at ht
      rcases getElem?_append_inv ht with ht | ht
      · exact .inl ht
      · obtain ⟨timer', body', period', due', he, _⟩ := hadded _ ht
        cases he
  · intro name event hev
    rcases hspec.events name event hev with hev | hb
    · cases hev
    · exact hb

/-- A task that is set keeps to them. -/
lemma Governed.set {t : Task} (h : Governed e p d) (hd : d'.tasks = d.tasks.set id t)
    (hl : ∀ timer ∈ d'.state.timers.live, timer ∈ d.state.timers.live)
    (hw : ∀ timer body period due, t.work = .timer timer body period due → t.timer? = some timer →
      ∃ u ∈ d.tasks, (∃ due', u.work = .timer timer body period due') ∧ u.timer? = some timer)
    (hq : ∀ body, t = ⟨.event body, .queued⟩ → Declares p.body body)
    (hev : d'.state.store.events = d.state.store.events) : Governed e p d' where
  live := fun timer hm => h.live timer (hl timer hm)
  timers := by
    intro u hu timer body period due hwork htimer
    rw [hd] at hu
    rcases mem_or_eq_of_mem_set hu with hu | rfl
    · exact h.timers u hu timer body period due hwork htimer
    · obtain ⟨v, hv, ⟨due', hvw⟩, hvt⟩ := hw timer body period due hwork htimer
      exact h.timers v hv timer body period due' hvw hvt
  waiting := by
    intro other body ht
    rw [hd] at ht
    rcases getElem?_set_inv ht with ⟨_, he⟩ | ⟨_, ht⟩
    · exact .inr (hq body he.symm)
    · exact h.waiting other body ht
  events := by
    rw [hev]
    exact h.events

/-- So does a move that begins no program. -/
lemma Move.governed (hf : d.Fitting) (h : Governed e p d) (hn : ∀ q, ¬ d.Launches id q)
    (hm : Move d id d') :
    Governed e p d' := by
  cases hm with
  | stay => exact h
  | refuse _ _ => exact h.set rfl (fun _ hi => hi) nofun nofun rfl
  | call _ _ => exact h.set rfl nofun nofun nofun rfl
  | miss _ _ => exact h.set rfl (fun _ hi => hi) nofun nofun rfl
  | summon _ hev =>
    refine h.set rfl (fun _ hi => hi) nofun ?_ rfl
    intro body he
    cases he
    exact h.events _ _ hev
  | retire _ _ _ => exact h.set rfl (fun _ hi => (mem_filter.1 hi).1) nofun nofun rfl
  | launch ht hh => exact (hn _ ⟨ht, hh⟩).elim
  | respond _ _ => exact h.set rfl (fun _ hi => hi) nofun nofun rfl
  | arm ht | tick ht _ _ _ | strike ht _ _ _ =>
    refine h.set rfl (fun _ hi => hi) ?_ nofun rfl
    intro timer body period due hw htimer
    cases hw
    exact ⟨_, mem_of_getElem? ht, ⟨_, rfl⟩, rfl⟩
  | @conclude w thread answerDue outcome ht hw _ =>
    have htim : (reportOutcome d.state outcome).timers = d.state.timers := reportOutcome_timers
    have hev : (reportOutcome d.state outcome).store = d.state.store := by cases outcome <;> rfl
    cases hw with
    | program =>
      refine h.set rfl ?_ (by rintro _ _ _ _ ⟨⟩) (by rintro _ ⟨⟩) ?_
      · intro timer hm
        simp only [Engine.conclude] at hm
        split at hm
        · exact htim ▸ hm
        · exact htim ▸ hm
      · simp only [Engine.conclude]
        split
        · exact congrArg Store.events hev
        · exact congrArg Store.events hev
    | event =>
      exact h.set rfl (fun _ hm => htim ▸ hm) (by rintro _ _ _ _ ⟨⟩)
        (by rintro _ ⟨⟩) (congrArg Store.events hev)
    | timer =>
      refine h.set rfl (fun _ hm => htim ▸ hm) ?_ (by rintro _ ⟨⟩) (congrArg Store.events hev)
      intro timer body period due hw htimer
      cases hw
      exact ⟨_, mem_of_getElem? ht, ⟨_, rfl⟩, rfl⟩
  | advance ht _ =>
    cases hf _ (mem_of_getElem? ht) with
    | active hw ty =>
      have hc := Thread.step_change (s := d.state) ty
      refine h.set rfl ?_ ?_ (by rintro _ ⟨⟩) hc.declarations.2
      · intro timer hm
        rcases hc.lifecycle with ⟨_, _, htim⟩ | ⟨_, _, htim⟩
        · exact htim ▸ hm
        · have hm' : timer ∈ d.state.timers.cancelAll.2.live := htim ▸ hm
          cases hm'
      · intro timer body period due hwork _
        cases hwork
        exact ⟨_, mem_of_getElem? ht, ⟨_, rfl⟩, rfl⟩

/-- So does everything until another program begins. -/
lemma Tenure.governed {e1 : Engine} (hr : e1.Reachable) (hg : Governed e p e1) (h : Tenure e1 d) :
    Governed e p d := by
  induction h with
  | refl => exact hg
  | @act d a ht hn ih =>
    have hd := ht.reachable hr
    have grow {t : Task} (hp : t.phase = .fresh)
      (hw : ∀ timer body period due, t.work ≠ .timer timer body period due) :
        Governed e p (d.add t) := by
      refine ⟨ih.live, ?_, ?_, ih.events⟩
      · intro u hu timer body period due hwork htimer
        rcases mem_append.1 hu with hu | hu
        · exact ih.timers u hu timer body period due hwork htimer
        · cases mem_singleton.1 hu
          exact (hw timer body period due hwork).elim
      · intro id body hid
        rcases getElem?_append_inv hid with hid | hu
        · exact ih.waiting id body hid
        · cases mem_singleton.1 hu
          cases hp
    cases a with
    | execute source | trigger name => exact grow rfl nofun
    | stop => exact ⟨nofun, ih.timers, ih.waiting, ih.events⟩
    | step id => exact (step_move hd.fitting).governed hd.fitting ih fun q => hn id q rfl
    | _ => exact ⟨ih.live, ih.timers, ih.waiting, ih.events⟩

/-- What begins is the body of a timer that is not cancelled, or of an event. -/
lemma Begins.inv {body : List Stmt} (hf : e.Fitting) (h : e.Begins id body) :
    (∃ timer period due, e.tasks[id]? = some ⟨.timer timer body period due, .queued⟩ ∧
        e.state.timers.isCancelled timer = false) ∨
      e.tasks[id]? = some ⟨.event body, .queued⟩ := by
  obtain ⟨hidle, w, answerDue, hw, hid⟩ := h
  rcases begun_inv hf hidle hid with
    ⟨timer, _, period, due, rfl, hbody, ht, _, hc⟩ | ⟨_, rfl, hbody, ht⟩ | ⟨p, rfl⟩
  · cases hbody
    exact .inl ⟨timer, period, due, ht, hc⟩
  · cases hbody
    exact .inr ht
  · exact (hw p rfl).elim

/-- No timer is live when an isolated program begins. -/
lemma Isolated.live_eq_nil (hr : e.Reachable) (hl : e.Launches id p) (hi : e.Isolated id p) :
    e.state.timers.live = [] := by
  have hnow := (hi _ .refl).1
  rw [hl.step_eq] at hnow
  obtain ⟨new, hn, _⟩ := (declared_spec e p).live
  apply eq_nil_iff_forall_not_mem.2
  intro timer hm
  have hlive : timer ∈ (e.launch id p).state.timers.live := by
    change timer ∈ (e.declared p).state.timers.live
    rw [hn]
    exact mem_append_left _ hm
  exact Nat.not_lt.2 (hr.orderly.registry.live_le timer hm) (hnow timer hlive)

end Tenure

/-- A program is isolated exactly if no timer is live when it begins, and every body of an event
that waits for the gate then and begins before another program does was declared by the program
itself. -/
theorem isolated_iff {e : Engine} {id : TaskId} {p : Program} (hr : e.Reachable)
    (hl : e.Launches id p) :
    e.Isolated id p ↔
      e.state.timers.live = [] ∧
        ∀ (other : TaskId) body, e.tasks[other]? = some ⟨.event body, .queued⟩ →
          (∃ d, Tenure (e.step id) d ∧ d.Begins other body) → Declares p.body body := by
  constructor
  · intro hi
    refine ⟨hi.live_eq_nil hr hl, ?_⟩
    rintro other body _ ⟨d, hd, hb⟩
    exact (hi d hd).2 other body hb
  · rintro ⟨hlive, hwaiting⟩ d hd
    have hstart : Governed e p (e.step id) := hl.step_eq ▸ Governed.launch hr
    have hg : Governed e p d := hd.governed (hr.step id) hstart
    have hdr : d.Reachable := hd.reachable (hr.step id)
    have hnew : ∀ timer ∈ d.state.timers.live, e.state.timers.issued < timer := by
      intro timer hm
      rcases hg.live timer hm with hm | hm
      · rw [hlive] at hm
        cases hm
      · exact hm
    refine ⟨hnew, ?_⟩
    intro other body hb
    rcases hb.inv hdr.fitting with ⟨timer, period, due, ht, hc⟩ | ht
    · have hmem := List.mem_of_getElem? ht
      rcases hdr.enlisted _ hmem timer rfl with hm | hm
      · rcases hg.timers _ hmem timer body period due rfl rfl with hle | hdecl
        · exact (Nat.not_lt.2 hle (hnew timer hm)).elim
        · exact hdecl
      · exact (of_decide_eq_false hc hm).elim
    · rcases hg.waiting other body ht with hw | hdecl
      · exact hwaiting other body hw ⟨d, hd, hb⟩
      · exact hdecl

/-- The program with which a task waits for the gate. -/
def waitingProgram? (e : Engine) (id : TaskId) : Option Program :=
  match e.tasks[id]? with
  | some ⟨.program p, .queued⟩ => some p
  | _ => none

lemma exists_launches {e : Engine} {id : TaskId} (hp : (e.waitingProgram? id).isSome = true)
    (hh : e.gate.holder = some id) : ∃ p, e.Launches id p := by
  unfold waitingProgram? at hp
  split at hp
  · rename_i p ht
    exact ⟨p, ht, hh⟩
  · cases hp

/-- The first program has left a timer behind, and the second is about to begin. -/
def succeeded : Engine := ticking.run [.execute "say 2\n", .step 2]

/-- The second program begins with that timer cancelled. -/
theorem succeeded_isolated :
    succeeded.Reachable ∧ ∃ p, succeeded.Launches 2 p ∧ succeeded.Isolated 2 p := by
  have hr : succeeded.Reachable := ((Reachable.fresh defaultDepth {}).run _).run _
  obtain ⟨p, hl⟩ : ∃ p, succeeded.Launches 2 p :=
    exists_launches (by decide +kernel) (by decide +kernel)
  have hlive : succeeded.state.timers.live = [] := by decide +kernel
  have hquiet : ∀ t ∈ succeeded.tasks, t.isExecution = true ∨ t.timer?.isSome = true := by
    decide +kernel
  refine ⟨hr, p, hl, (isolated_iff hr hl).2 ⟨hlive, ?_⟩⟩
  intro other body ht _
  rcases hquiet _ (List.mem_of_getElem? ht) with h | h
  · cases h
  · cases h

/-- Three programs were called while the first asked a question; the second has left a timer behind,
and the third is about to begin. -/
def overtaken : Engine :=
  (fresh defaultDepth { answers := ["7"] }).run
    ([.delay 20, .execute "ask \"q\" and store result in x\n"] ++ List.replicate 10 (.step 0) ++
      [.execute "every 50 ms:\n    say \"old\"\n", .step 1,
      .execute "say \"new\"\n", .step 2, .wait 20] ++
      List.replicate 10 (.step 0) ++ List.replicate 4 (.step 1))

/-- The timer of the second is live when the third begins. -/
theorem overtaken_not_isolated :
    overtaken.Reachable ∧ ∃ p, overtaken.Launches 2 p ∧ ¬ overtaken.Isolated 2 p := by
  have hr : overtaken.Reachable := (Reachable.fresh defaultDepth { answers := ["7"] }).run _
  obtain ⟨p, hl⟩ : ∃ p, overtaken.Launches 2 p :=
    exists_launches (by decide +kernel) (by decide +kernel)
  have hlive : overtaken.state.timers.live ≠ [] := by decide +kernel
  exact ⟨hr, p, hl, fun hi => hlive (hi.live_eq_nil hr hl)⟩

end Engine

end Colloquy
