import Colloquy.Proofs.Engine.Waiting

/-!
# What earlier programs leave behind

A `Remnant` is what is left of earlier programs between two calls: tasks, timers, used numbers and
what was heard. `Engine.upon` puts an engine on top of it. A task takes the same steps over a
remnant (from `begin_upon` to `passGate_upon`), and the steps of what is left change only the
remnant (`step_remnant`).
-/

namespace Colloquy

open List Gate State

namespace Gate

/-- The gate at which tasks stand in this row. -/
def ofRow : List TaskId → Gate
  | [] => {}
  | id :: ids => ⟨some id, ids⟩

section Rows

variable {g : Gate} {id : TaskId} {ids : List TaskId}

@[simp] lemma row_ofRow : (ofRow ids).row = ids := by
  cases ids <;> rfl

@[simp] lemma holder_ofRow : (ofRow ids).holder = ids.head? := by
  cases ids <;> rfl

lemma Manned.ofRow_row (h : g.Manned) : ofRow g.row = g := by
  obtain ⟨holder, waiting⟩ := g
  cases holder with
  | none =>
    have hw : waiting = [] := h rfl
    subst hw
    rfl
  | some first => rfl

lemma request_ofRow : (ofRow ids).request id = ofRow (ids ++ [id]) := by
  cases ids <;> rfl

/-- Withdrawing filters the row. -/
lemma withdraw_ofRow (h : ids.Nodup) : (ofRow ids).withdraw id = ofRow (ids.filter (· ≠ id)) := by
  cases ids with
  | nil => rfl
  | cons first ids =>
    by_cases hid : first = id
    · subst hid
      have hout : first ∉ ids := (nodup_cons.1 h).1
      have hkeep : ids.filter (· ≠ first) = ids := by
        rw [filter_eq_self]
        intro other hm
        exact decide_eq_true fun he => hout (he ▸ hm)
      simp only [ofRow, withdraw, release, ne_eq, not_true_eq_false,
        decide_false, if_true, Bool.false_eq_true, not_false_eq_true, filter_cons_of_neg]
      rw [hkeep]
      cases ids <;> rfl
    · simp only [ofRow, withdraw, Option.some.injEq, hid,
        if_false, ne_eq, not_false_eq_true, decide_true, filter_cons_of_pos]

lemma Manned.row_withdraw (h : g.Manned) (hn : g.row.Nodup) :
    (g.withdraw id).row = g.row.filter (· ≠ id) := by
  rw [← h.ofRow_row, row_ofRow, withdraw_ofRow hn, row_ofRow]

lemma Manned.head?_row (h : g.Manned) : g.row.head? = g.holder := by
  rw [← holder_ofRow, h.ofRow_row]

end Rows

end Gate

/-- A task that has ended, or a cancelled timer that has only to notice it. -/
inductive Task.Defunct (cancelled : List Nat) : Task → Prop where
  | ended {work outcome} :
    Defunct cancelled ⟨work, .ended outcome⟩
  | fresh {timer body period due} :
    timer ∈ cancelled →
    Defunct cancelled ⟨.timer timer body period due, .fresh⟩
  | timer {timer body period due phase} :
    timer ∈ cancelled →
    phase = .resting ∨ phase = .queued →
    Defunct cancelled ⟨.timer timer body period due, phase⟩

lemma Task.Defunct.mono {cancelled cancelled' : List Nat} {t : Task} (h : t.Defunct cancelled)
    (hc : ∀ timer ∈ cancelled, timer ∈ cancelled') : t.Defunct cancelled' := by
  cases h with
  | ended => exact .ended
  | fresh hm => exact .fresh (hc _ hm)
  | timer hm hp => exact .timer (hc _ hm) hp

/-- What is left of earlier programs: their tasks, those at the gate, how many timers were
registered and which cancelled, what they said; and tables and depth, until cleared. -/
structure Remnant where
  tasks : List Task
  row : List TaskId
  issued : Nat
  cancelled : List Nat
  past : List Utterance
  tables : Option (Store × Nat)
  defunct : ∀ t ∈ tasks, t.Defunct cancelled
  row_lt : ∀ id ∈ row, id < tasks.length

namespace Remnant

variable {w : Remnant}

/-- How many tasks are left. -/
def size (w : Remnant) : Nat := w.tasks.length

/-- What is left when the tables have been cleared. -/
def cleared (w : Remnant) : Remnant := { w with tables := none }

/-- The timers of an engine with those that are left. -/
def timers (w : Remnant) (r : Registry) : Registry where
  issued := r.issued + w.issued
  live := r.live.map (· + w.issued)
  cancelled := r.cancelled.map (· + w.issued) ++ w.cancelled

/-- What is left is in the background. -/
def backdrop (w : Remnant) : Backdrop where
  timers := w.timers
  past := w.past
  cancelAll := by
    intro r
    simp [Registry.cancelAll, timers]

/-- What is left when one of the tasks has taken a step away from the gate. -/
def update (w : Remnant) (id : TaskId) (t : Task) (hdefunct : t.Defunct w.cancelled) : Remnant where
  tasks := w.tasks.set id t
  row := w.row.filter (· ≠ id)
  issued := w.issued
  cancelled := w.cancelled
  past := w.past
  tables := w.tables
  defunct := by
    intro t ht
    rcases List.mem_or_eq_of_mem_set ht with ht | rfl
    · exact w.defunct t ht
    · exact hdefunct
  row_lt := by
    intro other hm
    rw [List.length_set]
    exact w.row_lt other (List.mem_filter.1 hm).1

/-- What can be left later: tables cleared, timers begun or ended. -/
structure Wanes (w w' : Remnant) : Prop where
  size : w'.size = w.size
  past : w'.past = w.past
  row : w'.row.Sublist w.row

lemma Wanes.refl : w.Wanes w := ⟨rfl, rfl, .refl _⟩

lemma Wanes.trans {w' w'' : Remnant} (h : w.Wanes w') (h' : w'.Wanes w'') : w.Wanes w'' :=
  ⟨h'.size.trans h.size, h'.past.trans h.past, h'.row.trans h.row⟩

lemma wanes_cleared : w.Wanes w.cleared := ⟨rfl, rfl, .refl _⟩

lemma wanes_update {id : TaskId} {t : Task} {ht : t.Defunct w.cancelled} :
    w.Wanes (w.update id t ht) :=
  ⟨length_set, rfl, filter_sublist⟩

end Remnant

/-- A state with what is left. -/
def State.upon (s : State) (w : Remnant) : State :=
  { s.against w.backdrop with
    store := (w.tables.map Prod.fst).getD s.store
    depth := (w.tables.map Prod.snd).getD s.depth }

/-- The timers of work get numbers above those that are left. -/
def Work.upon (w : Remnant) : Work → Work
  | .timer number body period due => .timer (number + w.issued) body period due
  | work => work

/-- A task that comes after those that are left. -/
def Task.upon (w : Remnant) (t : Task) : Task := { t with work := t.work.upon w }

/-- An engine on top of what is left of earlier programs. -/
def Engine.upon (f : Engine) (w : Remnant) : Engine where
  state := f.state.upon w
  gate := .ofRow (w.row ++ f.gate.row.map (· + w.size))
  tasks := w.tasks ++ f.tasks.map (Task.upon w)
  now := f.now
  answerDelay := f.answerDelay

section States

variable {s : State} {w : Remnant}

lemma State.upon_eq_against (hw : w.tables = none) : s.upon w = s.against w.backdrop := by
  simp only [upon, hw]
  rfl

lemma State.stop_upon : (s.upon w).stop = s.stop.upon w := by
  simp only [stop, upon, against, w.backdrop.cancelAll]

lemma Thread.step_upon {t : Thread} (hw : w.tables = none) :
    t.step (s.upon w) = ((t.step s).1, (t.step s).2.upon w) := by
  rw [upon_eq_against hw, upon_eq_against hw, step_against]

lemma Engine.reportOutcome_upon {outcome : Outcome} :
    reportOutcome (s.upon w) outcome = (reportOutcome s outcome).upon w := by
  cases outcome <;> rfl

end States

namespace Engine

variable {f d : Engine} {w : Remnant} {j : TaskId} {t : Task}

lemma upon_getElem? : (f.upon w).tasks[j + w.size]? = (f.tasks[j]?).map (Task.upon w) := by
  have hle : w.tasks.length ≤ j + w.tasks.length := Nat.le_add_left _ _
  simp only [upon, Remnant.size, List.getElem?_append_right hle,
    List.getElem?_map, Nat.add_sub_cancel]

lemma upon_set : (f.upon w).tasks.set (j + w.size) (t.upon w) =
    w.tasks ++ (f.tasks.set j t).map (Task.upon w) := by
  have hle : w.tasks.length ≤ j + w.tasks.length := Nat.le_add_left _ _
  simp only [upon, Remnant.size, set_append_right _ _ hle, map_set, Nat.add_sub_cancel]

lemma upon_row : (f.upon w).gate.row = w.row ++ f.gate.row.map (· + w.size) := row_ofRow

lemma eq_upon (hs : d.state = f.state.upon w)
    (hg : d.gate = .ofRow (w.row ++ f.gate.row.map (· + w.size)))
    (ht : d.tasks = w.tasks ++ f.tasks.map (Task.upon w)) (hc : d.now = f.now)
    (ha : d.answerDelay = f.answerDelay) : d = f.upon w := by
  obtain ⟨state, gate, tasks, now, answerDelay⟩ := d
  obtain rfl := hs
  obtain rfl := hg
  obtain rfl := ht
  obtain rfl := hc
  obtain rfl := ha
  rfl

lemma request_upon (h : f.gate.Manned) :
    (f.upon w).gate.request (j + w.size) =
      .ofRow (w.row ++ (f.gate.request j).row.map (· + w.size)) := by
  rw [h.row_request, upon, request_ofRow, map_append, append_assoc]
  rfl

lemma filter_row : (w.row ++ f.gate.row.map (· + w.size)).filter (· ≠ j + w.size) =
      w.row ++ (f.gate.row.filter (· ≠ j)).map (· + w.size) := by
  have hleft : w.row.filter (· ≠ j + w.size) = w.row := by
    rw [filter_eq_self]
    intro id hm
    exact decide_eq_true (Nat.ne_of_lt (Nat.lt_add_left j (w.row_lt id hm)))
  rw [filter_append, hleft, filter_map]
  congr 3
  funext id
  simp

lemma withdraw_upon (hl : f.Lined) (hn : (f.upon w).gate.row.Nodup) :
    (f.upon w).gate.withdraw (j + w.size) =
      .ofRow (w.row ++ (f.gate.withdraw j).row.map (· + w.size)) := by
  rw [upon_row] at hn
  rw [upon, withdraw_ofRow hn, filter_row, hl.manned.row_withdraw hl.nodup]

lemma stop_upon : (f.upon w).stop = f.stop.upon w := by
  simp only [stop, upon, State.stop_upon]

lemma put_upon : (f.upon w).put (j + w.size) (t.upon w) = (f.put j t).upon w :=
  eq_upon rfl rfl upon_set rfl rfl

lemma queue_upon (h : f.gate.Manned) (work : Work) :
    (f.upon w).queue (j + w.size) (work.upon w) = (f.queue j work).upon w :=
  eq_upon rfl (request_upon h) (upon_set (t := ⟨work, .queued⟩)) rfl rfl

lemma complete_upon {r : Registry} {timer : Nat} :
    (w.timers r).complete (timer + w.issued) = w.timers (r.complete timer) := by
  simp only [Registry.complete, Remnant.timers, filter_map]
  congr 3
  funext other
  simp

lemma retire_upon (hl : f.Lined) (hn : (f.upon w).gate.row.Nodup) :
    (f.upon w).retire (j + w.size) (t.upon w) = (f.retire j t).upon w := by
  refine eq_upon ?_ (withdraw_upon hl hn) (upon_set (t := { t with phase := .ended none })) rfl rfl
  obtain ⟨work, phase⟩ := t
  cases work with
  | timer timer body period due =>
    change { f.state.upon w with
      timers := (w.timers f.state.timers).complete (timer + w.issued) } = _
    rw [complete_upon]
    rfl
  | _ => rfl

/-- A task begins alike over what is left. -/
lemma begin_upon (hm : f.gate.Manned) (ht : w.tables = none ∨ t.isExecution = true) :
    (f.upon w).begin (j + w.size) (t.upon w) = (f.begin j t).upon w := by
  obtain ⟨work, phase⟩ := t
  cases work with
  | source text =>
    simp only [begin, Task.upon, Work.upon]
    cases compile text with
    | ok p =>
      simp only [stop_upon]
      exact queue_upon (f := f.stop) hm (.program p)
    | error err => exact eq_upon rfl rfl (upon_set (t := ⟨.source text, .ended none⟩)) rfl rfl
  | trigger name =>
    have htab : w.tables = none := by
      rcases ht with ht | ht
      · exact ht
      · cases ht
    have hstore : (f.upon w).state.store = f.state.store := by simp [upon, State.upon, htab]
    simp only [begin, Task.upon, Work.upon, hstore]
    cases f.state.store.events.get? name with
    | some event => exact queue_upon hm (.event event.body)
    | none => exact put_upon (t := ⟨.trigger name, .ended none⟩)
  | program p => exact queue_upon hm (.program p)
  | event body => exact queue_upon hm (.event body)
  | timer timer body period due =>
    exact put_upon (t := ⟨.timer timer body period (f.now + period), .resting⟩)
  | beside => exact queue_upon hm .beside

/-- It falls due alike. -/
lemma wake_upon (hl : f.Lined) (hn : (f.upon w).gate.row.Nodup)
    (hc : (f.upon w).isCancelled (t.work.upon w) = f.isCancelled t.work) :
    (f.upon w).wake (j + w.size) (t.upon w) = (f.wake j t).upon w := by
  have hretire : (f.upon w).retire (j + w.size) (t.upon w) = (f.retire j t).upon w :=
    retire_upon hl hn
  unfold wake
  rw [Task.upon, hc]
  split
  · exact hretire
  · obtain ⟨work, phase⟩ := t
    cases work with
    | timer timer body period due =>
      simp only [Work.upon]
      change (if f.now < due then f.upon w else _) = _
      split
      · rfl
      · change (if f.state.running = true then _ else _) = _
        split
        · exact queue_upon hl.manned (.timer timer body period (nextDue f.now period due))
        · exact hretire
    | _ => rfl

/-- Declarations are made alike. -/
lemma declare_upon (hw : w.tables = none) (stmt : Stmt) :
    (f.upon w).declare stmt = (f.declare stmt).upon w := by
  obtain ⟨tasks, row, issued, cancelled, past, tables, hd, hr⟩ := w
  cases hw
  cases stmt with
  | event name timer body line =>
    cases timer with
    | none => rfl
    | some schedule =>
      refine eq_upon ?_ rfl ?_ rfl rfl
      · simp [declare, upon, add, State.upon, State.against,
          Registry.register, Remnant.backdrop, Remnant.timers, Nat.add_right_comm]
      · simp [declare, upon, add, State.upon, State.against,
          Registry.register, Remnant.backdrop, Remnant.timers,
          Nat.add_right_comm, Task.upon, Work.upon]
  | function name params body line =>
    simp only [declare]
    split <;> rfl
  | _ => rfl

lemma foldl_declare_upon (hw : w.tables = none) (stmts : List Stmt) :
    stmts.foldl declare (f.upon w) = (stmts.foldl declare f).upon w := by
  induction stmts generalizing f with
  | nil => rfl
  | cons stmt stmts ih =>
    rw [foldl_cons, declare_upon hw, ih]
    rfl

lemma launch_upon {p : Program} :
    (f.upon w).launch (j + w.size) p = (f.launch j p).upon w.cleared := by
  have hdecl : (f.upon w).declared p = (f.declared p).upon w.cleared :=
    foldl_declare_upon (f := { f with state := clean f.state }) (w := w.cleared) rfl p.body
  rw [launch_eq, launch_eq, hdecl]
  exact put_upon (w := w.cleared) (t := ⟨.program p, .active (mainThread p (f.declared p).state) 0⟩)

section

variable (hl : f.Lined) (hn : (f.upon w).gate.row.Nodup)
include hl hn

/-- A sequence ends alike. -/
lemma conclude_upon {outcome : Outcome} :
    (f.upon w).conclude (j + w.size) (t.upon w) outcome = (f.conclude j t outcome).upon w := by
  have hset (next : Phase) :
      (f.upon w).tasks.set (j + w.size) (Task.upon w { t with phase := next }) =
        w.tasks ++ (f.tasks.set j { t with phase := next }).map (Task.upon w) := upon_set
  have hstate : reportOutcome (f.upon w).state outcome = (reportOutcome f.state outcome).upon w :=
    reportOutcome_upon
  obtain ⟨work, phase⟩ := t
  cases work with
  | beside => exact put_upon (t := ⟨.beside, .ended (some outcome)⟩)
  | timer timer body period due =>
    exact eq_upon hstate (withdraw_upon hl hn) (hset .resting) rfl rfl
  | program p =>
    refine eq_upon ?_ (withdraw_upon hl hn) (hset (.ended (some outcome))) rfl rfl
    have hempty : ((reportOutcome f.state outcome).upon w).timers.isEmpty =
        (reportOutcome f.state outcome).timers.isEmpty := isEmpty_map
    simp only [conclude, Task.upon, Work.upon, hstate, hempty]
    split <;> rfl
  | _ => exact eq_upon hstate (withdraw_upon hl hn) (hset (.ended (some outcome))) rfl rfl

/-- A thread takes its steps alike. -/
lemma advance_upon (hw : w.tables = none) {thread : Thread} {answerDue : Nat} :
    (f.upon w).advance (j + w.size) (t.upon w) thread answerDue =
      (f.advance j t thread answerDue).upon w := by
  unfold advance
  split
  · exact conclude_upon hl hn
  · change (if (thread.isAnswered && decide (f.now < answerDue)) = true then f.upon w else _) = _
    split
    · rfl
    · have hstep : thread.step (f.upon w).state =
          ((thread.step f.state).1, (thread.step f.state).2.upon w) :=
        Thread.step_upon hw
      simp only [hstep]
      exact eq_upon rfl rfl (upon_set (t := { t with phase := .active _ _ })) rfl rfl

/-- A task goes through the gate alike, if nothing left stands before it. A program that begins
clears the tables. -/
lemma passGate_upon (hc : (f.upon w).isCancelled (t.work.upon w) = f.isCancelled t.work)
    (hfree : f.isCancelled t.work = true ∨ w.row = []) (ht : f.tasks[j]? = some t)
    (hq : t.phase = .queued) :
    ((f.upon w).passGate (j + w.size) (t.upon w) = (f.passGate j t).upon w ∧
      ∀ p, ¬ f.Launches j p) ∨
      (f.upon w).passGate (j + w.size) (t.upon w) = (f.passGate j t).upon w.cleared := by
  have hretire : (f.upon w).retire (j + w.size) (t.upon w) = (f.retire j t).upon w :=
    retire_upon hl hn
  have hlaunch {p : Program} (hp : f.Launches j p) : t = ⟨.program p, .queued⟩ :=
    Option.some.inj (ht.symm.trans hp.1)
  obtain ⟨work, phase⟩ := t
  obtain rfl : phase = .queued := hq
  unfold passGate
  rw [Task.upon, hc]
  split
  · rename_i hcancelled
    refine .inl ⟨hretire, fun p hp => ?_⟩
    cases hlaunch hp
    cases hcancelled
  · rename_i hcancelled
    have hrow : w.row = [] := hfree.resolve_left hcancelled
    have hholder : (f.upon w).gate.holder = some (j + w.size) ↔ f.gate.holder = some j := by
      rw [upon, holder_ofRow, hrow, nil_append, List.head?_map, hl.manned.head?_row]
      cases f.gate.holder <;> simp
    by_cases hh : f.gate.holder = some j
    · rw [if_neg (Decidable.not_not.2 (hholder.2 hh)), if_neg (Decidable.not_not.2 hh)]
      cases work with
      | program p => exact .inr launch_upon
      | event body =>
        refine .inl ⟨?_, fun p hp => by cases hlaunch hp⟩
        exact eq_upon rfl rfl (upon_set (t := ⟨.event body, .active ⟨.block body, []⟩ 0⟩)) rfl rfl
      | timer timer body period due =>
        refine .inl ⟨?_, fun p hp => by cases hlaunch hp⟩
        change (if f.state.running = true then _ else _) = _
        simp only [Work.upon]
        split
        · exact put_upon (t := ⟨.timer timer body period due, .active ⟨.block body, []⟩ 0⟩)
        · exact hretire
      | _ => exact .inl ⟨rfl, fun p hp => by cases hlaunch hp⟩
    · rw [if_pos ((not_congr hholder).2 hh), if_pos hh]
      exact .inl ⟨rfl, fun p hp => hh hp.2⟩

end

/-- A task is cancelled over what is left if it is without. -/
lemma isCancelled_upon (hr : f.Reachable) (he : (f.upon w).Reachable) (ht : t ∈ f.tasks)
    (hn : t.isEnded = false) :
    (f.upon w).isCancelled (t.work.upon w) = f.isCancelled t.work := by
  obtain ⟨work, phase⟩ := t
  cases work with
  | timer timer body period due =>
    have htimer : Task.timer? ⟨.timer timer body period due, phase⟩ = some timer := by
      cases phase with
      | ended outcome => cases hn
      | _ => rfl
    -- the flag is up unless the timer is live, with and without what is left
    rcases hr.enlisted _ ht timer htimer with hlive | hcancelled
    · have hlive' : timer + w.issued ∈ (f.upon w).state.timers.live := mem_map_of_mem hlive
      have h1 : timer + w.issued ∉ (f.upon w).state.timers.cancelled :=
        he.orderly.registry.disjoint _ hlive'
      have h2 : timer ∉ f.state.timers.cancelled := hr.orderly.registry.disjoint _ hlive
      exact (decide_eq_false h1).trans (decide_eq_false h2).symm
    · have h1 : timer + w.issued ∈ (f.upon w).state.timers.cancelled :=
        mem_append_left _ (mem_map_of_mem hcancelled)
      exact (decide_eq_true h1).trans (decide_eq_true hcancelled).symm
  | _ => rfl

section Leftovers

variable {id : TaskId}

lemma step_cancelled {e : Engine} {timer : Nat} {body : List Stmt}
    {period due : Nat} {phase : Phase}
    (ht : e.tasks[id]? = some ⟨.timer timer body period due, phase⟩)
    (hp : phase = .resting ∨ phase = .queued) (hc : timer ∈ e.state.timers.cancelled) :
    e.step id = e.retire id ⟨.timer timer body period due, phase⟩ := by
  have hup : e.isCancelled (.timer timer body period due) = true := decide_eq_true hc
  rcases hp with rfl | rfl
  · simp only [step, ht, wake, hup, if_true]
  · simp only [step, ht, passGate, hup, if_true]

/-- A timer left before it began does so without going to the gate. -/
lemma put_remnant {t t' : Task} (ht : w.tasks[id]? = some t) (hout : id ∉ w.row)
    (hd : t'.Defunct w.cancelled) :
    (f.upon w).put id t' = f.upon (w.update id t' hd) := by
  have hlt : id < w.tasks.length := (List.getElem?_eq_some_iff.1 ht).1
  have hsize : (w.update id t' hd).size = w.size := length_set
  have hkeep : w.row.filter (· ≠ id) = w.row := by
    rw [filter_eq_self]
    exact fun other hm => decide_eq_true fun he => hout (he ▸ hm)
  refine eq_upon rfl ?_ (set_append_left _ _ hlt) rfl rfl
  rw [hsize]
  change Gate.ofRow _ = .ofRow (w.row.filter (· ≠ id) ++ _)
  rw [hkeep]

/-- A timer that is left and cancelled ends. -/
lemma retire_remnant (he : (f.upon w).Reachable) {timer : Nat} {body : List Stmt}
    {period due : Nat} {phase : Phase}
    (ht : w.tasks[id]? = some ⟨.timer timer body period due, phase⟩) (hc : timer ∈ w.cancelled) :
    (f.upon w).retire id ⟨.timer timer body period due, phase⟩ =
      f.upon (w.update id ⟨.timer timer body period due, .ended none⟩ .ended) := by
  have hlt : id < w.tasks.length := (List.getElem?_eq_some_iff.1 ht).1
  have hup : (f.upon w).state.timers.isCancelled timer = true :=
    decide_eq_true (mem_append_right _ hc)
  have hsize : (w.update id ⟨.timer timer body period due, .ended none⟩ .ended).size = w.size :=
    length_set
  have hn : (w.row ++ f.gate.row.map (· + w.size)).Nodup := upon_row ▸ he.lined.nodup
  refine eq_upon ?_ ?_ ?_ rfl rfl
  · simp only [retire, he.orderly.complete_eq (.inl hup)]
    rfl
  · have hkeep : (f.gate.row.map (· + w.size)).filter (· ≠ id) = f.gate.row.map (· + w.size) := by
      rw [filter_eq_self]
      intro other hm
      obtain ⟨j, _, rfl⟩ := mem_map.1 hm
      exact decide_eq_true (Nat.ne_of_gt (Nat.lt_add_left j hlt))
    simp only [retire, upon, withdraw_ofRow hn, filter_append, hkeep, hsize]
    rfl
  · exact set_append_left _ _ hlt

/-- Steps of what is left change only that. -/
lemma step_remnant (he : (f.upon w).Reachable) (hid : id < w.size) :
    ∃ w', w.Wanes w' ∧ w'.tables = w.tables ∧ id ∉ w'.row ∧ (f.upon w).step id = f.upon w' := by
  have ht : w.tasks[id]? = some w.tasks[id] := List.getElem?_eq_getElem hid
  have he' : (f.upon w).tasks[id]? = some w.tasks[id] := getElem?_append_some ht
  have hdef : (w.tasks[id]).Defunct w.cancelled := w.defunct _ (getElem_mem hid)
  generalize w.tasks[id] = t at ht he' hdef
  have hat (hn : t.isAtGate = false) : id ∉ w.row := fun hm =>
    Bool.false_ne_true (hn ▸ (he.lined.mem_row_iff he').1 (upon_row ▸ mem_append_left _ hm))
  cases hdef with
  | ended => exact ⟨w, .refl, rfl, hat rfl, by simp only [step, he']⟩
  | @fresh timer body period due hc =>
    have hd : Task.Defunct w.cancelled ⟨.timer timer body period (f.now + period), .resting⟩ :=
      .timer hc (.inl rfl)
    refine ⟨w.update id _ hd, Remnant.wanes_update, rfl, by simp [Remnant.update], ?_⟩
    rw [← put_remnant ht (hat rfl) hd]
    simp only [step, he', begin]
    rfl
  | @timer timer body period due phase hc hp =>
    refine ⟨w.update id ⟨.timer timer body period due, .ended none⟩ .ended,
      Remnant.wanes_update, rfl, ?_, ?_⟩
    · simp [Remnant.update]
    · rw [← retire_remnant he ht hc]
      exact step_cancelled he' hp (mem_append_right _ hc)

end Leftovers

end Engine

end Colloquy
