import Colloquy.Proofs.Engine.Inversion

/-!
# What beginning a program does

A program begins by making its declarations. `Declared` says what a row of them has done to an
engine: registered new timers, one task for each, filled the tables, and left everything else alone.
-/

namespace Colloquy

open List

/-- Some statement declares an event with this body. -/
def Declares (stmts : List Stmt) (body : List Stmt) : Prop :=
  ∃ name timer line, Stmt.event name timer body line ∈ stmts

lemma Declares.append {stmts more body : List Stmt} (h : Declares stmts body) :
    Declares (stmts ++ more) body := by
  obtain ⟨name, timer, line, hm⟩ := h
  exact ⟨name, timer, line, mem_append_left _ hm⟩

namespace Engine

variable {e d : Engine} {stmts : List Stmt} {stmt : Stmt}

/-- What a row of declarations has done to an engine. -/
structure Declared (e : Engine) (stmts : List Stmt) (d : Engine) : Prop where
  gate : d.gate = e.gate
  running : d.state.running = e.state.running
  halted : d.state.halted = e.state.halted
  depth : d.state.depth = e.state.depth
  cancelled : d.state.timers.cancelled = e.state.timers.cancelled
  issued : e.state.timers.issued ≤ d.state.timers.issued
  live : ∃ new, d.state.timers.live = e.state.timers.live ++ new ∧
    ∀ timer ∈ new, e.state.timers.issued < timer ∧ timer ≤ d.state.timers.issued
  tasks : ∃ new, d.tasks = e.tasks ++ new ∧
    ∀ t ∈ new, ∃ timer body period due,
      t = ⟨.timer timer body period due, .fresh⟩ ∧ timer ∈ d.state.timers.live ∧
        e.state.timers.issued < timer ∧ Declares stmts body
  events : ∀ name event, d.state.store.events.get? name = some event →
    e.state.store.events.get? name = some event ∨ Declares stmts event.body

lemma Declared.nil : Declared e [] e where
  gate := rfl
  running := rfl
  halted := rfl
  depth := rfl
  cancelled := rfl
  issued := Nat.le_refl _
  live := ⟨[], (append_nil _).symm, nofun⟩
  tasks := ⟨[], (append_nil _).symm, nofun⟩
  events := fun _ _ h => .inl h

lemma get?_insert_inv {α : Type} {table : Table α} {name key : String} {entry found : α}
    (h : (table.insert key entry).get? name = some found) :
    table.get? name = some found ∨ found = entry := by
  by_cases hk : name = key
  · subst hk
    rw [Table.get?_insert_self] at h
    exact .inr (Option.some.inj h).symm
  · rw [Table.get?_insert_of_ne _ _ hk] at h
    exact .inl h

/-- A declaration without a timer fills the tables. -/
lemma Declared.fill {d' : Engine} (h : Declared e stmts d)
    (hg : d'.gate = d.gate) (hr : d'.state.running = d.state.running)
    (hh : d'.state.halted = d.state.halted) (hd : d'.state.depth = d.state.depth)
    (ht : d'.state.timers = d.state.timers) (hts : d'.tasks = d.tasks)
    (he : ∀ name event, d'.state.store.events.get? name = some event →
      d.state.store.events.get? name = some event ∨ Declares [stmt] event.body) :
    Declared e (stmts ++ [stmt]) d' where
  gate := hg.trans h.gate
  running := hr.trans h.running
  halted := hh.trans h.halted
  depth := hd.trans h.depth
  cancelled := by rw [ht, h.cancelled]
  issued := by rw [ht]; exact h.issued
  live := by rw [ht]; exact h.live
  tasks := by
    obtain ⟨new, hn, hall⟩ := h.tasks
    refine ⟨new, hts.trans hn, ?_⟩
    intro t hm
    obtain ⟨timer, body, period, due, rfl, hl, hi, hb⟩ := hall t hm
    exact ⟨timer, body, period, due, rfl, by rw [ht]; exact hl, hi, hb.append⟩
  events := by
    intro name event hev
    rcases he name event hev with hev | ⟨n, t, l, hm⟩
    · rcases h.events name event hev with hev | hb
      · exact .inl hev
      · exact .inr hb.append
    · exact .inr ⟨n, t, l, mem_append_right _ hm⟩

/-- A timer event gets the next number and a task of its own. -/
lemma Declared.schedule {name schedule body line} (h : Declared e stmts d) :
    Declared e (stmts ++ [.event name (some schedule) body line])
      (d.declare (.event name (some schedule) body line)) where
  gate := h.gate
  running := h.running
  halted := h.halted
  depth := h.depth
  cancelled := h.cancelled
  issued := Nat.le_succ_of_le h.issued
  live := by
    obtain ⟨new, hn, hall⟩ := h.live
    refine ⟨new ++ [d.state.timers.issued + 1], ?_, ?_⟩
    · rw [← append_assoc, ← hn]
      rfl
    · intro timer hm
      rcases mem_append.1 hm with hm | hm
      · obtain ⟨h1, h2⟩ := hall timer hm
        exact ⟨h1, Nat.le_succ_of_le h2⟩
      · cases mem_singleton.1 hm
        exact ⟨Nat.lt_succ_of_le h.issued, Nat.le_refl _⟩
  tasks := by
    obtain ⟨new, hn, hall⟩ := h.tasks
    refine ⟨new ++ [⟨.timer (d.state.timers.issued + 1) body schedule.period 0, .fresh⟩], ?_, ?_⟩
    · rw [← append_assoc, ← hn]
      rfl
    · intro t hm
      rcases mem_append.1 hm with hm | hm
      · obtain ⟨timer, body', period, due, rfl, hl, hi, hb⟩ := hall t hm
        exact ⟨timer, body', period, due, rfl, mem_append_left _ hl, hi, hb.append⟩
      · cases mem_singleton.1 hm
        refine ⟨_, body, _, _, rfl, ?_, Nat.lt_succ_of_le h.issued, ?_⟩
        · exact mem_append_right _ (mem_singleton_self _)
        · exact ⟨name, some schedule, line, mem_append_right _ (mem_singleton_self _)⟩
  events := by
    intro key event hev
    rcases get?_insert_inv hev with hev | rfl
    · rcases h.events key event hev with hev | hb
      · exact .inl hev
      · exact .inr hb.append
    · exact .inr ⟨name, some schedule, line, mem_append_right _ (mem_singleton_self _)⟩

/-- Declarations are made one after the other. -/
lemma Declared.snoc (h : Declared e stmts d) : Declared e (stmts ++ [stmt]) (d.declare stmt) := by
  cases stmt with
  | event name timer body line =>
    cases timer with
    | some schedule => exact h.schedule
    | none =>
      refine h.fill rfl rfl rfl rfl rfl rfl ?_
      intro key event hev
      rcases get?_insert_inv hev with hev | rfl
      · exact .inl hev
      · exact .inr ⟨name, none, line, mem_singleton_self _⟩
  | function name params body line =>
    simp only [declare]
    -- the warning about a name that is taken goes to the host and changes nothing else
    split
    · exact h.fill rfl rfl rfl rfl rfl rfl fun _ _ hev => .inl hev
    · exact h.fill rfl rfl rfl rfl rfl rfl fun _ _ hev => .inl hev
  | _ => exact h.fill rfl rfl rfl rfl rfl rfl fun _ _ hev => .inl hev

lemma Declared.foldl {more : List Stmt} (h : Declared e stmts d) :
    Declared e (stmts ++ more) (more.foldl declare d) := by
  induction more generalizing d stmts with
  | nil =>
    rw [append_nil]
    exact h
  | cons stmt more ih =>
    rw [append_cons]
    exact ih h.snoc

lemma declare_store (stmt : Stmt) : (e.declare stmt).state.store = e.state.store.declare stmt := by
  cases stmt with
  | event name timer body line => cases timer <;> rfl
  | function name params body line =>
    simp only [declare]
    split <;> rfl
  | _ => rfl

lemma foldl_declare_store (stmts : List Stmt) :
    (stmts.foldl declare e).state.store = stmts.foldl Store.declare e.state.store := by
  induction stmts generalizing e with
  | nil => rfl
  | cons stmt stmts ih =>
    rw [foldl_cons, ih, declare_store]
    rfl

/-- The engine of a program that has made its declarations. -/
def declared (e : Engine) (p : Program) : Engine :=
  p.body.foldl declare { e with state := clean e.state }

lemma declared_spec (e : Engine) (p : Program) :
    Declared { e with state := clean e.state } p.body (e.declared p) :=
  Declared.nil.foldl

lemma launch_eq (e : Engine) (id : TaskId) (p : Program) :
    e.launch id p = (e.declared p).put id ⟨.program p,
    .active (mainThread p (e.declared p).state) 0⟩ := rfl

lemma mainThread_typed (p : Program) (s : State) : (mainThread p s).Typed .statements := by
  unfold mainThread
  split
  · exact .of_phrase rfl (.cons (f := .mainLine _) .nil)
  · exact .of_phrase rfl .nil

end Engine

end Colloquy
