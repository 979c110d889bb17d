import Colloquy.Proofs.Decimal.Quotient
import Colloquy.Proofs.Engine.Faults
import Colloquy.Proofs.Grammar.WellFormed

/-!
# The pace of a timer

The `chronicle` of a timer is what happens to it, with the time on the clock. However long others
hold the gate and its own bodies take, the ticks keep their pace (`Paced`): the next due time is
never less than one period for each tick so far, and the last tick was late by no more than the
tolerance or has moved the due time (`Pace`). Every change keeps this (`Tells.step`).
-/

namespace Colloquy

open List

/-- What can happen to a timer. -/
inductive Incident where
  /-- It is registered, with this period. -/
  | scheduled (period : Nat)
  /-- A tick is taken. -/
  | taken
  /-- Its body begins. -/
  | began
  /-- Its body has ended. -/
  | ended
deriving DecidableEq

/-- Whether the work of a task is a timer. -/
def Work.isTimer : Work → Bool
  | .timer .. => true
  | _ => false

/-- What has happened to a timer, from what it was and is. -/
def Task.incident? : Option Task → Option Task → Option Incident
  | none, some ⟨.timer _ _ period _, _⟩ => some (.scheduled period)
  | some ⟨.timer .., .resting⟩, some ⟨.timer .., .queued⟩ => some .taken
  | some ⟨.timer .., .queued⟩, some ⟨.timer .., .active ..⟩ => some .began
  | some ⟨.timer .., .active ..⟩, some ⟨.timer .., .resting⟩ => some .ended
  | _, _ => none

/-- What happens to a task in a run, with times in nanoseconds. -/
def Engine.chronicle (id : TaskId) : Engine → List Action → List (Nat × Incident)
  | _, [] => []
  | e, a :: actions =>
    ((Task.incident? e.tasks[id]? (e.perform a).tasks[id]?).map (e.now, ·)).toList ++
      chronicle id (e.perform a) actions

/-- The times of one kind of incident. -/
def times (kind : Incident) (story : List (Nat × Incident)) : List Nat :=
  (story.filter (·.2 = kind)).map Prod.fst

/-- There is a period for each of these times: the first is a period after the start or later, and
so on. -/
def Metered (start period : Nat) (l : List Nat) : Prop :=
  ∀ k t, l[k]? = some t → start + (k + 1) * period ≤ t

/-- Times in a row are a period apart, but for the tolerance. -/
def Separate (period : Nat) (l : List Nat) : Prop :=
  ∀ k t u, l[k]? = some t → l[k + 1]? = some u → t + period ≤ u + Engine.tolerance

/-- At no point has more than one body begun and not ended. -/
def Alone (story : List (Nat × Incident)) : Prop :=
  ∀ front, front <+: story → (times .ended front).length ≤ (times .began front).length ∧
    (times .began front).length ≤ (times .ended front).length + 1

/-- How the incidents after a timer was scheduled are paced. -/
structure Paced (start period : Nat) (story : List (Nat × Incident)) : Prop where
  /-- The period is at least one millisecond and at most 2 ^ 32 - 1 milliseconds. -/
  bounds : nanosPerMilli ≤ period ∧ period ≤ 4294967295 * nanosPerMilli
  ticks : Metered start period (times .taken story)
  /-- By any time no more bodies have begun than there were periods. -/
  bodies : ∀ t, ((times .began story).filter (· ≤ t)).length ≤ (t - start) / period
  apart : Separate period (times .taken story)
  alone : Alone story

section Times

variable {story : List (Nat × Incident)} {kind incident : Incident} {l : List Nat}
  {start period t x k : Nat}

lemma times_concat_self : times kind (story ++ [(t, kind)]) = times kind story ++ [t] := by
  simp [times]

lemma times_concat_ne (h : incident ≠ kind) :
    times kind (story ++ [(t, incident)]) = times kind story := by
  simp [times, h]

lemma getElem?_concat_inv (h : (l ++ [x])[k]? = some t) :
    l[k]? = some t ∨ k = l.length ∧ t = x := by
  by_cases hk : k < l.length
  · rw [List.getElem?_append_left hk] at h
    exact .inl h
  · rw [List.getElem?_append_right (Nat.le_of_not_lt hk)] at h
    obtain ⟨hlt, rfl⟩ := List.getElem?_eq_some_iff.mp h
    rw [length_singleton] at hlt
    refine .inr ⟨by omega, ?_⟩
    simp

lemma Metered.concat (h : Metered start period l) (hx : start + (l.length + 1) * period ≤ x) :
    Metered start period (l ++ [x]) := by
  intro k t hk
  rcases getElem?_concat_inv hk with hk | ⟨rfl, rfl⟩
  · exact h k t hk
  · exact hx

lemma Metered.of_concat (h : Metered start period (l ++ [x])) : Metered start period l := by
  intro k t hk
  refine h k t ?_
  rw [List.getElem?_append_left (List.getElem?_eq_some_iff.mp hk).1]
  exact hk

/-- No more times than periods have passed. -/
lemma Metered.length_filter_le (hp : 0 < period) (h : Metered start period l) :
    (l.filter (· ≤ t)).length ≤ (t - start) / period := by
  induction l using List.reverseRecOn with
  | nil => exact Nat.zero_le _
  | append_singleton l x ih =>
    rw [filter_append, length_append]
    by_cases hx : x ≤ t
    · -- the last one alone needs as many periods as there are times
      have hlast : start + (l.length + 1) * period ≤ x := h l.length x List.getElem?_concat_length
      have hone : ([x].filter (· ≤ t)).length = 1 := by simp [hx]
      have hlength : (l.filter (· ≤ t)).length + 1 ≤ l.length + 1 :=
        Nat.succ_le_succ (List.length_filter_le _ _)
      have hmul := Nat.mul_le_mul_right period hlength
      rw [hone, Nat.le_div_iff_mul_le hp]
      omega
    · have hnone : ([x].filter (· ≤ t)).length = 0 := by simp [hx]
      rw [hnone]
      exact ih h.of_concat

lemma Separate.concat (h : Separate period l)
    (hx : ∀ t, l.getLast? = some t → t + period ≤ x + Engine.tolerance) :
    Separate period (l ++ [x]) := by
  intro k t u ht hu
  rcases getElem?_concat_inv hu with hu | ⟨hlast, rfl⟩
  · have hlt := (List.getElem?_eq_some_iff.mp hu).1
    rw [List.getElem?_append_left (by omega)] at ht
    exact h k t u ht hu
  · have hk : k = l.length - 1 := by omega
    rw [List.getElem?_append_left (by omega), hk, ← List.getLast?_eq_getElem?] at ht
    exact hx t ht

lemma Alone.nil : Alone [] := by
  intro front hfront
  obtain rfl := prefix_nil.mp hfront
  exact ⟨Nat.le_refl _, Nat.zero_le _⟩

lemma Alone.concat {entry : Nat × Incident} (h : Alone story)
    (hcount : (times .ended (story ++ [entry])).length ≤ (times .began (story ++ [entry])).length ∧
      (times .began (story ++ [entry])).length ≤ (times .ended (story ++ [entry])).length + 1) :
    Alone (story ++ [entry]) := by
  intro front hfront
  rcases prefix_concat_iff.mp hfront with rfl | hfront
  · exact hcount
  · exact h front hfront

end Times

/-- What holds of the incidents so far, with this due time. -/
structure Pace (now start period due : Nat) (story : List (Nat × Incident)) : Prop where
  ticks : Metered start period (times .taken story)
  begins : Metered start period (times .began story)
  apart : Separate period (times .taken story)
  alone : Alone story
  /-- The ticks so far have had their periods. -/
  reached : start + (times .taken story).length * period ≤ now
  /-- The next tick has one more. -/
  next : start + ((times .taken story).length + 1) * period ≤ due
  /-- And it is a period after the last one, but for the tolerance. -/
  late : ∀ t, (times .taken story).getLast? = some t → t + period ≤ due + Engine.tolerance

/-- How many ticks, beginnings and ends there are, by phase. -/
def Phase.Counts (story : List (Nat × Incident)) : Phase → Prop
  | .resting => (times .taken story).length = (times .began story).length ∧
      (times .began story).length = (times .ended story).length
  | .queued => (times .taken story).length = (times .began story).length + 1 ∧
      (times .began story).length = (times .ended story).length
  | .active .. => (times .taken story).length = (times .began story).length ∧
      (times .began story).length = (times .ended story).length + 1
  | _ => True

section Pace

variable {now later start period due answerDue : Nat}
  {story : List (Nat × Incident)} {thread : Thread}

lemma Pace.nil (h : start ≤ now) : Pace now start period (now + period) [] where
  ticks := nofun
  begins := nofun
  apart := nofun
  alone := .nil
  reached := by simpa [times] using h
  next := by simpa [times] using h
  late := nofun

section

variable (h : Pace now start period due story)
include h

lemma Pace.wait (hle : now ≤ later) : Pace later start period due story :=
  { h with reached := Nat.le_trans h.reached hle }

/-- A tick keeps the pace. -/
lemma Pace.take (hdue : due ≤ now) (hcounts : Phase.resting.Counts story) :
    Pace now start period (Engine.nextDue now period due) (story ++ [(now, .taken)]) ∧
      Phase.queued.Counts (story ++ [(now, .taken)]) := by
  have hnext : due + period ≤ Engine.nextDue now period due ∧
      now + period ≤ Engine.nextDue now period due + Engine.tolerance := by
    unfold Engine.nextDue
    split <;> omega
  have htaken : times .taken (story ++ [(now, .taken)]) = times .taken story ++ [now] :=
    times_concat_self
  have hbegan : times .began (story ++ [(now, .taken)]) = times .began story :=
    times_concat_ne nofun
  have hended : times .ended (story ++ [(now, .taken)]) = times .ended story :=
    times_concat_ne nofun
  have hfloor := h.next
  obtain ⟨hc, hc'⟩ := hcounts
  refine ⟨⟨?_, ?_, ?_, h.alone.concat ?_, ?_, ?_, ?_⟩, ?_⟩
  · rw [htaken]
    exact h.ticks.concat (Nat.le_trans h.next hdue)
  · rw [hbegan]
    exact h.begins
  · rw [htaken]
    refine h.apart.concat fun t ht => ?_
    have := h.late t ht
    omega
  · rw [hbegan, hended]
    omega
  · rw [htaken, length_append, length_singleton]
    exact Nat.le_trans h.next hdue
  · rw [htaken, length_append, length_singleton, Nat.succ_mul (_ + 1)]
    omega
  · intro t ht
    rw [htaken, List.getLast?_concat] at ht
    cases ht
    exact hnext.2
  · unfold Phase.Counts
    rw [htaken, hbegan, hended, length_append, length_singleton]
    omega

/-- So does a body that begins. -/
lemma Pace.begin (hcounts : Phase.queued.Counts story) :
    Pace now start period due (story ++ [(now, .began)]) ∧
      (Phase.active thread answerDue).Counts (story ++ [(now, .began)]) := by
  have htaken : times .taken (story ++ [(now, .began)]) = times .taken story :=
    times_concat_ne nofun
  have hbegan : times .began (story ++ [(now, .began)]) = times .began story ++ [now] :=
    times_concat_self
  have hended : times .ended (story ++ [(now, .began)]) = times .ended story :=
    times_concat_ne nofun
  obtain ⟨hc, hc'⟩ := hcounts
  have hreached := h.reached
  refine ⟨⟨htaken ▸ h.ticks, ?_, htaken ▸ h.apart, h.alone.concat ?_,
    htaken ▸ h.reached, htaken ▸ h.next, htaken ▸ h.late⟩, ?_⟩
  · rw [hbegan]
    refine h.begins.concat ?_
    rw [← hc]
    exact hreached
  · rw [hbegan, hended, length_append, length_singleton]
    omega
  · unfold Phase.Counts
    rw [htaken, hbegan, hended, length_append, length_singleton]
    omega

/-- So does one that ends. -/
lemma Pace.finish (hcounts : (Phase.active thread answerDue).Counts story) :
    Pace now start period due (story ++ [(now, .ended)]) ∧
    Phase.resting.Counts (story ++ [(now, .ended)]) := by
  have htaken : times .taken (story ++ [(now, .ended)]) = times .taken story :=
    times_concat_ne nofun
  have hbegan : times .began (story ++ [(now, .ended)]) = times .began story :=
    times_concat_ne nofun
  have hended : times .ended (story ++ [(now, .ended)]) = times .ended story ++ [now] :=
    times_concat_self
  obtain ⟨hc, hc'⟩ := hcounts
  refine ⟨⟨htaken ▸ h.ticks, hbegan ▸ h.begins, htaken ▸ h.apart,
    h.alone.concat ?_, htaken ▸ h.reached, htaken ▸ h.next, htaken ▸ h.late⟩, ?_⟩
  · rw [hbegan, hended, length_append, length_singleton]
    omega
  · unfold Phase.Counts
    rw [htaken, hbegan, hended, length_append, length_singleton]
    omega

lemma Pace.paced (hp : nanosPerMilli ≤ period ∧ period ≤ 4294967295 * nanosPerMilli) :
    Paced start period story where
  bounds := hp
  ticks := h.ticks
  bodies _ := h.begins.length_filter_le (Nat.lt_of_lt_of_le (by decide) hp.1)
  apart := h.apart
  alone := h.alone

end

end Pace

/-- What an action can do to one task. -/
inductive Alters (now : Nat) : Option Task → Option Task → Prop where
  | same {t} :
    Alters now t t
  | other {t u} :
    (∀ x, t = some x → x.work.isTimer = false) →
    u.work.isTimer = false →
    Alters now t (some u)
  | schedule {timer body} {schedule : Schedule} :
    0 < schedule.interval →
    Alters now none (some ⟨.timer timer body schedule.period 0, .fresh⟩)
  | arm {timer body period due} :
    Alters now (some ⟨.timer timer body period due, .fresh⟩)
      (some ⟨.timer timer body period (now + period), .resting⟩)
  | take {timer body period due} :
    due ≤ now →
    Alters now (some ⟨.timer timer body period due, .resting⟩)
      (some ⟨.timer timer body period (Engine.nextDue now period due), .queued⟩)
  | begin {timer body period due thread answerDue} :
    Alters now (some ⟨.timer timer body period due, .queued⟩)
      (some ⟨.timer timer body period due, .active thread answerDue⟩)
  | goOn {timer body period due thread answerDue thread' answerDue'} :
    Alters now (some ⟨.timer timer body period due, .active thread answerDue⟩)
      (some ⟨.timer timer body period due, .active thread' answerDue'⟩)
  | finish {timer body period due thread answerDue} :
    Alters now (some ⟨.timer timer body period due, .active thread answerDue⟩)
      (some ⟨.timer timer body period due, .resting⟩)
  | retire {timer body period due phase} :
    phase = .resting ∨ phase = .queued →
    Alters now (some ⟨.timer timer body period due, phase⟩)
    (some ⟨.timer timer body period due, .ended none⟩)

/-- What the incidents so far say about a task as it is now. -/
inductive Tells (now : Nat) : List (Nat × Incident) → Option Task → Prop where
  | absent :
    Tells now [] none
  | other {t} :
    t.work.isTimer = false →
    Tells now [] (some t)
  | fresh {start timer body due} {schedule : Schedule} :
    0 < schedule.interval →
    start ≤ now →
    Tells now [(start, .scheduled schedule.period)]
    (some ⟨.timer timer body schedule.period due, .fresh⟩)
  | timer {start story timer body due phase} {schedule : Schedule} :
    0 < schedule.interval →
    phase ≠ .fresh →
    Pace now start schedule.period due story →
    phase.Counts story →
    Tells now ((start, .scheduled schedule.period) :: story)
    (some ⟨.timer timer body schedule.period due, phase⟩)

section Tells

variable {now later : Nat} {story : List (Nat × Incident)} {t u : Option Task}

lemma Tells.wait (h : Tells now story t) (hle : now ≤ later) : Tells later story t := by
  cases h with
  | absent => exact .absent
  | other ht => exact .other ht
  | fresh hs hstart => exact .fresh hs (Nat.le_trans hstart hle)
  | timer hs hbegun hpace hcounts => exact .timer hs hbegun (hpace.wait hle) hcounts

lemma Task.incident?_same : Task.incident? t t = none := by
  cases t with
  | none => rfl
  | some t =>
    obtain ⟨work, phase⟩ := t
    cases work <;> cases phase <;> rfl

lemma Task.incident?_other {u : Task} (hu : u.work.isTimer = false) :
    Task.incident? t (some u) = none := by
  obtain ⟨work, phase⟩ := u
  cases work with
  | timer => cases hu
  | _ =>
    cases t with
    | none => rfl
    | some t =>
      obtain ⟨work', phase'⟩ := t
      cases work' <;> cases phase' <;> rfl

lemma Tells.quiet (hquiet : Task.incident? t u = none) (h : Tells now story u) :
    Tells now (story ++ ((Task.incident? t u).map (now, ·)).toList) u := by
  rw [hquiet, Option.map_none, Option.toList_none, append_nil]
  exact h

/-- What happens to a task keeps the pace. -/
lemma Tells.step (h : Tells now story t) (halters : Alters now t u) :
    Tells now (story ++ ((Task.incident? t u).map (now, ·)).toList) u := by
  cases halters with
  | same => exact h.quiet Task.incident?_same
  | other ht hu =>
    refine .quiet (Task.incident?_other hu) ?_
    cases h with
    | absent | other => exact .other hu
    | fresh | timer => cases ht _ rfl
  | schedule hs =>
    cases h
    exact .fresh hs (Nat.le_refl _)
  | arm =>
    cases h with
    | other ht => cases ht
    | fresh hs hstart => exact .quiet rfl (.timer hs nofun (.nil hstart) ⟨rfl, rfl⟩)
    | timer _ hbegun => exact (hbegun rfl).elim
  | take hdue =>
    cases h with
    | other ht => cases ht
    | timer hs _ hpace hcounts =>
      obtain ⟨hpace', hcounts'⟩ := hpace.take hdue hcounts
      exact .timer hs nofun hpace' hcounts'
  | begin =>
    cases h with
    | other ht => cases ht
    | timer hs _ hpace hcounts =>
      obtain ⟨hpace', hcounts'⟩ := hpace.begin hcounts
      exact .timer hs nofun hpace' hcounts'
  | goOn =>
    cases h with
    | other ht => cases ht
    | timer hs _ hpace hcounts => exact .quiet rfl (.timer hs nofun hpace hcounts)
  | finish =>
    cases h with
    | other ht => cases ht
    | timer hs _ hpace hcounts =>
      obtain ⟨hpace', hcounts'⟩ := hpace.finish hcounts
      exact .timer hs nofun hpace' hcounts'
  | retire hphase =>
    cases h with
    | other ht => cases ht
    | fresh => rcases hphase with hphase | hphase <;> cases hphase
    | timer hs _ hpace _ =>
      refine .quiet ?_ (.timer hs nofun hpace trivial)
      rcases hphase with rfl | rfl <;> rfl

end Tells

lemma interval_pos_of_compile {text name : String} {p : Program} {schedule : Schedule}
    {body : List Stmt} {line : Nat} (h : compile text = .ok p)
    (hs : Stmt.event name (some schedule) body line ∈ p.body) :
    0 < schedule.interval :=
  ((whole_of_compile h).2 _ hs).formed.timer name schedule body line rfl

namespace Engine

variable {e d : Engine} {id other : TaskId}

/-- A task is the timer of one of some declarations, not begun. -/
def Schedules (stmts : List Stmt) (t : Task) : Prop :=
  ∃ timer name body line, ∃ schedule : Schedule, Stmt.event name (some schedule) body line ∈ stmts ∧
    t = ⟨.timer timer body schedule.period 0, .fresh⟩

lemma Schedules.mono {stmts more : List Stmt} {t : Task} (h : Schedules stmts t)
    (hsub : stmts ⊆ more) :
    Schedules more t := by
  obtain ⟨timer, name, body, line, schedule, hs, ht⟩ := h
  exact ⟨timer, name, body, line, schedule, hsub hs, ht⟩

/-- A declaration adds timers that have not begun. -/
lemma declare_tasks (stmt : Stmt) (e : Engine) : (e.declare stmt).now = e.now ∧
    ∃ new, (e.declare stmt).tasks = e.tasks ++ new ∧ ∀ t ∈ new, Schedules [stmt] t := by
  have hnothing : ∃ new, e.tasks = e.tasks ++ new ∧ ∀ t ∈ new, Schedules [stmt] t :=
    ⟨[], (append_nil _).symm, nofun⟩
  cases stmt with
  | event name timer body line =>
    cases timer with
    | none => exact ⟨rfl, hnothing⟩
    | some schedule =>
      refine ⟨rfl, [_], rfl, forall_mem_singleton.mpr ?_⟩
      exact ⟨_, name, body, line, schedule, mem_singleton_self _, rfl⟩
  | _ => exact ⟨rfl, hnothing⟩

/-- Declarations add only timers, not begun. -/
lemma foldl_declare_tasks (stmts : List Stmt) (e : Engine) : (stmts.foldl declare e).now = e.now ∧
    ∃ new, (stmts.foldl declare e).tasks = e.tasks ++ new ∧ ∀ t ∈ new, Schedules stmts t := by
  induction stmts generalizing e with
  | nil => exact ⟨rfl, [], (append_nil _).symm, nofun⟩
  | cons stmt stmts ih =>
    obtain ⟨hnow, first, hfirst, hone⟩ := declare_tasks stmt e
    obtain ⟨hnow', rest, hrest, hall⟩ := ih (e.declare stmt)
    refine ⟨hnow'.trans hnow, first ++ rest, ?_,
      forall_mem_append.mpr ⟨fun t ht => ?_, fun t ht => ?_⟩⟩
    · rw [foldl_cons, hrest, hfirst, append_assoc]
    · exact (hone t ht).mono (cons_subset_cons stmt (nil_subset _))
    · exact (hall t ht).mono (subset_cons_self _ _)

lemma alters_set {t u : Task} (ht : e.tasks[other]? = some t) (hd : d.tasks = e.tasks.set other u)
    (h : Alters e.now (some t) (some u)) : Alters e.now e.tasks[id]? d.tasks[id]? := by
  rw [hd]
  by_cases hid : id = other
  · subst hid
    rw [List.getElem?_set_self (List.getElem?_eq_some_iff.mp ht).1, ht]
    exact h
  · rw [List.getElem?_set_ne (Ne.symm hid)]
    exact .same

lemma alters_append {new : List Task} (h : ∀ t ∈ new, Alters e.now none (some t)) :
    Alters e.now e.tasks[id]? (e.tasks ++ new)[id]? := by
  by_cases hid : id < e.tasks.length
  · rw [List.getElem?_append_left hid]
    exact .same
  · have hnone : e.tasks[id]? = none := List.getElem?_eq_none (Nat.le_of_not_lt hid)
    rw [List.getElem?_append_right (Nat.le_of_not_lt hid), hnone]
    cases hnew : new[id - e.tasks.length]? with
    | none => exact .same
    | some t => exact h t (mem_of_getElem? hnew)

/-- So does a program that begins. -/
lemma alters_launch {p : Program} {text : String} (hp : compile text = .ok p)
    (ht : e.tasks[other]? = some ⟨.program p, .queued⟩) :
    Alters e.now e.tasks[id]? (e.launch other p).tasks[id]? ∧ (e.launch other p).now = e.now := by
  obtain ⟨hnow, new, hnew, hall⟩ := foldl_declare_tasks p.body { e with state := clean e.state }
  refine ⟨?_, hnow⟩
  change Alters _ _ ((e.declared p).tasks.set other _)[id]?
  rw [show (e.declared p).tasks = e.tasks ++ new from hnew]
  by_cases hid : id = other
  · subst hid
    have hlt : id < (e.tasks ++ new).length :=
      length_append ▸ Nat.lt_add_right _ (List.getElem?_eq_some_iff.mp ht).1
    rw [List.getElem?_set_self hlt, ht]
    refine .other ?_ rfl
    rintro x ⟨⟩
    rfl
  · rw [List.getElem?_set_ne (Ne.symm hid)]
    refine alters_append fun t hm => ?_
    obtain ⟨timer, name, body, line, schedule, hs, rfl⟩ := hall t hm
    exact .schedule (interval_pos_of_compile hp hs)

/-- A step takes no time, and alters each task in one of these ways. -/
lemma Move.alters (hsrc : Sourced (fun _ => True) e) (h : Move e other d) :
    Alters e.now e.tasks[id]? d.tasks[id]? ∧ d.now = e.now := by
  have hother {w w' : Work} {phase phase' : Phase} (hw : w.isTimer = false)
    (hw' : w'.isTimer = false) : Alters e.now (some ⟨w, phase⟩) (some ⟨w', phase'⟩) := by
    refine .other ?_ hw'
    rintro x ⟨⟩
    exact hw
  cases h with
  | stay => exact ⟨.same, rfl⟩
  | refuse ht _ | call ht _ | miss ht _
  | summon ht _ => exact ⟨alters_set ht rfl (hother rfl rfl), rfl⟩
  | arm ht => exact ⟨alters_set ht rfl .arm, rfl⟩
  | retire ht hphase _ => exact ⟨alters_set ht rfl (.retire hphase), rfl⟩
  | tick ht _ hdue _ => exact ⟨alters_set ht rfl (.take hdue), rfl⟩
  | launch ht _ =>
    obtain ⟨text, _, hp⟩ := hsrc.work _ (mem_of_getElem? ht)
    exact alters_launch hp ht
  | respond ht _ => exact ⟨alters_set ht rfl (hother rfl rfl), rfl⟩
  | strike ht _ _ _ => exact ⟨alters_set ht rfl .begin, rfl⟩
  | conclude ht hw _ =>
    cases hw with
    | program | event => exact ⟨alters_set ht rfl (hother rfl rfl), rfl⟩
    | timer => exact ⟨alters_set ht rfl .finish, rfl⟩
  | @advance w thread answerDue next ht _ =>
    refine ⟨alters_set ht rfl ?_, rfl⟩
    cases w with
    | timer => exact .goOn
    | _ => exact hother rfl rfl

/-- So does every action, but for passing time. -/
lemma perform_alters (hr : e.Reachable) (hsrc : Sourced (fun _ => True) e) (a : Action) :
    Alters e.now e.tasks[id]? (e.perform a).tasks[id]? ∧ e.now ≤ (e.perform a).now := by
  have hadd {t : Task} (ht : t.work.isTimer = false) : ∀ u ∈ [t], Alters e.now none (some u) :=
    forall_mem_singleton.mpr (.other nofun ht)
  cases a with
  | execute source | trigger name => exact ⟨alters_append (hadd rfl), Nat.le_refl _⟩
  | step other =>
    obtain ⟨halters, hnow⟩ := (step_move hr.fitting).alters hsrc
    exact ⟨halters, Nat.le_of_eq hnow.symm⟩
  | elapse nanos => exact ⟨.same, Nat.le_add_right _ _⟩
  | _ => exact ⟨.same, Nat.le_refl _⟩

/-- A whole run is told, by induction on the actions. -/
lemma tells_run {story : List (Nat × Incident)} {actions : List Action} (hr : e.Reachable)
    (hsrc : Sourced (fun _ => True) e) (h : Tells e.now story e.tasks[id]?) :
    Tells (e.run actions).now (story ++ e.chronicle id actions) (e.run actions).tasks[id]? := by
  induction actions generalizing e story with
  | nil =>
    rw [chronicle, append_nil]
    exact h
  | cons a actions ih =>
    obtain ⟨halters, hle⟩ := perform_alters hr hsrc a
    rw [chronicle, ← append_assoc]
    exact ih (.act a hr) (perform_sourced hr hsrc fun _ _ => trivial) ((h.step halters).wait hle)

/-- **The ticks of a timer keep their pace.** In every run, a task to which something happens as to
a timer is scheduled first, with the period of a schedule; then no tick is taken before its periods
are over, no more bodies begin than periods have passed, two ticks in a row are a period apart but
for the tolerance, and no two bodies run at once. -/
theorem chronicle_paced (maxDepth : Nat) (host : Host) (actions : List Action) (id : TaskId) :
    (fresh maxDepth host).chronicle id actions = [] ∨
      ∃ start story, ∃ schedule : Schedule,
        (fresh maxDepth host).chronicle id actions = (start, .scheduled schedule.period) :: story ∧
          Paced start schedule.period story := by
  have hstart : Tells (fresh maxDepth host).now [] (fresh maxDepth host).tasks[id]? := .absent
  have hend : Tells _ ([] ++ (fresh maxDepth host).chronicle id actions) _ :=
    tells_run (.fresh maxDepth host) fresh_sourced hstart
  rw [List.nil_append] at hend
  generalize (fresh maxDepth host).chronicle id actions = story at hend ⊢
  generalize ((fresh maxDepth host).run actions).tasks[id]? = t at hend
  cases hend with
  | absent => exact .inl rfl
  | other => exact .inl rfl
  | fresh hs hstart =>
    exact .inr ⟨_, _, _, rfl, (Pace.nil hstart).paced (Schedule.period_bounds hs)⟩
  | timer hs _ hpace _ => exact .inr ⟨_, _, _, rfl, hpace.paced (Schedule.period_bounds hs)⟩

/-- A tick that is late by less than the tolerance does not move the next one. -/
example : (fresh defaultDepth {}).chronicle 1
    (.execute "every 1 seconds:\n    say 1\n" :: List.replicate 4 (.step 0) ++
      .step 1 :: .wait 1000 :: List.replicate 8 (.step 1) ++
        .wait 1004 :: List.replicate 8 (.step 1) ++
      .wait 996 :: List.replicate 3 (.step 1)) =
    [(0, .scheduled 1000000000), (1000000000, .taken), (1000000000, .began), (1000000000, .ended),
      (2004000000, .taken), (2004000000, .began), (2004000000, .ended),
      (3000000000, .taken), (3000000000, .began)] := by
  decide +kernel

end Engine

end Colloquy
