import Colloquy.Proofs.Machine.Blame
import Colloquy.Proofs.Engine.Serial

/-!
# Faults and their reports

Everything that an engine runs was compiled from a source text that it was called with (`Sourced`),
so every fault has the line of a token. A sequence that raises one starts nothing any more and
reports it as the last thing that it says (`faults_reported_once`).
-/

namespace Colloquy

open List Thread Option

/-- The statements of a sequence. -/
def Body.stmts : Body → List Stmt
  | main p => p.body
  | block stmts => stmts

/-- A program declares a function with this body. -/
def Program.Defines (p : Program) (body : List Stmt) : Prop :=
  ∃ name params line, Stmt.function name params body line ∈ p.body

/-- Some statements were compiled from one of some source texts. -/
def Compiled (texts : String → Prop) (body : List Stmt) : Prop :=
  ∃ text p, texts text ∧ compile text = .ok p ∧ p.Contains body

/-- The bodies of functions that a sequence can call: for a main line those of its own program, and
else those of the last one that began. -/
def Body.Callable (texts : String → Prop) : Body → List Stmt → Prop
  | main p => p.Defines
  | block _ => Compiled texts

/-- Work is one of some texts, or was compiled from one. -/
def Work.Sourced (texts : String → Prop) : Work → Prop
  | .source text => texts text
  | .program p => ∃ text, texts text ∧ compile text = .ok p
  | .event body | .timer _ body _ _ => Compiled texts body
  | .trigger _ | .beside => True

lemma Work.Sourced.compiled {texts : String → Prop} {w : Work} {body : Body} (h : w.Sourced texts)
    (hb : w.body? = some body) : Compiled texts body.stmts := by
  cases w with
  | program p =>
    obtain ⟨text, ht, hp⟩ := h
    cases hb
    exact ⟨text, p, ht, hp, .whole⟩
  | event stmts | timer timer stmts period due =>
    cases hb
    exact h
  | _ => cases hb

/-- What the sequences of a task say in some entries. -/
def saidBy (id : TaskId) (entries : List Entry) : List Utterance :=
  (entries.filterMap Entry.bySequence?).filterMap fun entry =>
  if entry.1 = id then entry.2.utterance? else none

namespace Engine

/-- Everything that an engine runs was compiled from one of some texts. -/
structure Sourced (texts : String → Prop) (e : Engine) : Prop where
  work : ∀ t ∈ e.tasks, t.work.Sourced texts
  functions : Thread.Knows (Compiled texts) e.state
  events : ∀ name event, e.state.store.events.get? name = some event → Compiled texts event.body
  sequence : ∀ q, e.Conducts q → Thread.Knows (q.body.Callable texts) e.state ∧
    ∃ body, q.thread.Stems (q.body.Callable texts) q.body.stmts body

section Invariants

variable {texts : String → Prop} {e d : Engine} {id : TaskId} {t u : Task} {p : Program}
  {known : List Stmt → Prop} {w : Work}

/-- A declared function is an old one or of the program. -/
lemma foldl_declare_functions {stmts : List Stmt} {st : Store} {name : String} {f : FunctionDecl}
    (h : (stmts.foldl Store.declare st).functions.get? name = some f) :
    st.functions.get? name = some f ∨
    ∃ name params line, Stmt.function name params f.body line ∈ stmts := by
  induction stmts generalizing st with
  | nil => exact .inl h
  | cons stmt stmts ih =>
    rcases ih h with hst | ⟨n, params, line, hm⟩
    · cases stmt with
      | function n params body line =>
        rcases get?_insert_inv hst with hst | rfl
        · exact .inl hst
        · exact .inr ⟨n, params, line, mem_cons_self⟩
      | _ => exact .inl hst
    · exact .inr ⟨n, params, line, mem_cons_of_mem _ hm⟩

lemma declared_knows : Knows p.Defines (e.declared p).state := by
  intro name f hf
  have hs : (e.declared p).state.store = p.body.foldl Store.declare {} := foldl_declare_store p.body
  rw [hs] at hf
  rcases foldl_declare_functions hf with hf | hm
  · cases hf
  · exact hm

/-- A main line stems from its program. -/
lemma mainThread_stems : (mainThread p (e.declared p).state).Stems known p.body p.body := by
  have hstatements : OccurAll p.body p.statements := fun s hs => .top (mem_filter.1 hs).1
  unfold mainThread
  split
  · rename_i event hev
    rcases (declared_spec e p).events _ event hev with hev | ⟨name, timer, line, hm⟩
    · cases hev
    · exact ⟨.block fun s hs => .part (.top hm) (mem_map_of_mem hs),
        .frame (.mainLine hstatements) .base⟩
  · exact ⟨.block hstatements, .base⟩

lemma block_stems {body : List Stmt} : Stems known body body ⟨.block body, []⟩ :=
  ⟨.block fun _ hs => .top hs, .base⟩

/-- What a task is set to is sourced, too. -/
lemma Sourced.set (h : Sourced texts e) (hd : d.tasks = e.tasks.set id t)
    (hs : d.state.store.functions = e.state.store.functions ∧
      d.state.store.events = e.state.store.events)
    (hw : t.work.Sourced texts)
    (hq : ∀ q, d.Conducts q → Knows (q.body.Callable texts) e.state ∧
      ∃ body, q.thread.Stems (q.body.Callable texts) q.body.stmts body) : Sourced texts d where
  work := by
    intro u hu
    rw [hd] at hu
    rcases mem_or_eq_of_mem_set hu with hu | rfl
    · exact h.work u hu
    · exact hw
  functions := by
    unfold Knows
    rw [hs.1]
    exact h.functions
  events := by
    rw [hs.2]
    exact h.events
  sequence := by
    unfold Knows
    rw [hs.1]
    exact hq

lemma Sourced.idle (h : Sourced texts e) (hu : e.tasks[id]? = some u)
    (hd : d.tasks = e.tasks.set id t) (hs : d.state.store.functions = e.state.store.functions ∧
      d.state.store.events = e.state.store.events)
    (hw : t.work.Sourced texts) (hn : u.sequence? id = none) (hn' : t.sequence? id = none) :
    Sourced texts d :=
  h.set hd hs hw fun q hq => h.sequence q ((conducts_set hu hd hn hn').1 hq)

/-- The thread of a sequence is sourced. -/
lemma Sourced.conduct {body : Body} {thread : Thread} {answerDue : Nat} (h : Sourced texts e)
    (hx : d.Exclusive) (ht : d.tasks[id]? = some ⟨w, .active thread answerDue⟩)
    (hw : w.body? = some body) (hd : d.tasks = e.tasks.set id ⟨w, .active thread answerDue⟩)
    (hs : d.state.store.functions = e.state.store.functions ∧
      d.state.store.events = e.state.store.events) (hww :
      w.Sourced texts) (hk : Knows (body.Callable texts) e.state)
    (hst : ∃ inner, thread.Stems (body.Callable texts) body.stmts inner) : Sourced texts d := by
  refine h.set hd hs hww fun q hq => ?_
  have hq' := (conducts_iff hx ht (hx _ _ _ _ ht)).1 hq
  rw [Task.sequence?, hw] at hq'
  cases hq'
  exact ⟨hk, hst⟩

/-- So is a program that begins. -/
lemma Sourced.launch (h : Sourced texts e) (hr : e.Reachable)
    (ht : e.tasks[id]? = some ⟨.program p, .queued⟩) (hh : e.gate.holder = some id) :
    Sourced texts (e.launch id p) := by
  have hstep : e.step id = e.launch id p := Launches.step_eq ⟨ht, hh⟩
  have hx : (e.launch id p).Exclusive := hstep ▸ (hr.step id).exclusive
  have hspec := declared_spec e p
  obtain ⟨text, htext, hp⟩ := h.work _ (mem_of_getElem? ht)
  have hcompiled {body : List Stmt} (hb : Declares p.body body) : Compiled texts body := by
    obtain ⟨name, timer, line, hm⟩ := hb
    exact ⟨text, p, htext, hp, .event hm⟩
  refine ⟨?_, ?_, ?_, ?_⟩
  · intro u hu
    rw [launch_eq] at hu
    obtain ⟨new, hnew, hall⟩ := hspec.tasks
    rcases mem_or_eq_of_mem_set hu with hu | rfl
    · rw [hnew] at hu
      rcases mem_append.1 hu with hu | hu
      · exact h.work u hu
      · obtain ⟨timer, body, period, due, rfl, _, _, hb⟩ := hall u hu
        exact hcompiled hb
    · exact ⟨text, htext, hp⟩
  · intro name f hf
    obtain ⟨n, params, line, hm⟩ := declared_knows name f hf
    exact ⟨text, p, htext, hp, .function hm⟩
  · intro name event hev
    rcases hspec.events name event hev with hev | hb
    · cases hev
    · exact hcompiled hb
  · intro q hq
    have hgate : (e.launch id p).gate.holder = some id := hx _ _ _ _ (launch_getElem? ht)
    cases (conducts_iff hx (launch_getElem? ht) hgate).1 hq
    exact ⟨declared_knows, p.body, mainThread_stems⟩

/-- Moves run nothing that was not compiled from the texts. -/
lemma Move.sourced (hr : e.Reachable) (h : Sourced texts e) (hm : Move e id d) (hxd : d.Exclusive) :
    Sourced texts d := by
  have hwork {v : Work} {phase : Phase} (ht : e.tasks[id]? = some ⟨v, phase⟩) : v.Sourced texts :=
    h.work _ (mem_of_getElem? ht)
  have hself {v : Task} {w : Work} {phase : Phase} (ht : e.tasks[id]? = some ⟨w, phase⟩) :
      (e.tasks.set id v)[id]? = some v := List.getElem?_set_self (List.getElem?_eq_some_iff.1 ht).1
  cases hm with
  | stay => exact h
  | refuse ht _ => exact h.idle ht rfl ⟨rfl, rfl⟩ (hwork ht) rfl rfl
  | @call text p ht hp =>
    have hw : Work.Sourced texts (.program p) := ⟨text, hwork ht, hp⟩
    exact h.idle ht rfl ⟨rfl, rfl⟩ hw rfl rfl
  | miss ht _ => exact h.idle ht rfl ⟨rfl, rfl⟩ (hwork ht) rfl rfl
  | @summon name event ht hev =>
    have hw : Work.Sourced texts (.event event.body) := h.events name event hev
    exact h.idle ht rfl ⟨rfl, rfl⟩ hw rfl rfl
  | retire ht hp _ =>
    refine h.idle ht rfl ⟨rfl, rfl⟩ (hwork ht) ?_ rfl
    rcases hp with rfl | rfl <;> rfl
  | @arm timer body period due ht | @tick timer body period due ht _ _ _ =>
    have hbody : Compiled texts body := hwork ht
    exact h.idle ht rfl ⟨rfl, rfl⟩ hbody rfl rfl
  | launch ht hh => exact h.launch hr ht hh
  | respond ht hh
  | strike ht hh _ _ =>
    exact h.conduct hxd (hself ht) rfl rfl ⟨rfl, rfl⟩ (hwork ht) h.functions ⟨_, block_stems⟩
  | @conclude w thread answerDue outcome ht hw ho =>
    have hs : (reportOutcome e.state outcome).store = e.state.store := by cases outcome <;> rfl
    have hdone {d : Engine} {t : Task} (hd : d.tasks = e.tasks.set id t)
      (hst : d.state.store = e.state.store)
        (hwt : t.work.Sourced texts) (hn : t.sequence? id = none) : Sourced texts d :=
      h.set hd (by rw [hst]; exact ⟨rfl, rfl⟩) hwt fun q hq =>
      (not_conducts_set hr.exclusive ht hd hn hq).elim
    cases hw with
    | program =>
      refine hdone rfl ?_ (hwork ht) rfl
      simp only [Engine.conclude]
      split
      · exact hs
      · exact hs
    | event | timer => exact hdone rfl hs (hwork ht) rfl
  | @advance w thread answerDue next ht ho =>
    cases hr.fitting _ (mem_of_getElem? ht) with
    | active hw ty =>
      obtain ⟨body, hb⟩ := hw.exists_body
      obtain ⟨hk, inner, hst⟩ :=
        h.sequence ⟨id, body, thread⟩ ⟨_, ht, by rw [Task.sequence?, hb]; rfl⟩
      exact h.conduct hxd (hself ht) hb rfl (step_change ty).declarations (hwork ht) hk
        (exists_stems hk hst)

lemma Sourced.add (h : Sourced texts e) (hw : w.Sourced texts) :
    Sourced texts (e.add ⟨w, .fresh⟩) where
  work := by
    intro u hu
    rcases mem_append.1 hu with hu | hu
    · exact h.work u hu
    · cases mem_singleton.1 hu
      exact hw
  functions := h.functions
  events := h.events
  sequence := fun q hq => h.sequence q (conducts_add.1 hq)

lemma perform_sourced (hr : e.Reachable) (h : Sourced texts e) {a : Action}
    (ha : ∀ text, a = .execute text → texts text) :
    Sourced texts (e.perform a) := by
  cases a with
  | execute text => exact h.add (ha text rfl)
  | trigger name => exact h.add trivial
  | step id => exact (step_move hr.fitting).sourced hr h (hr.step id).exclusive
  | _ => exact ⟨h.work, h.functions, h.events, h.sequence⟩

/-- Everything in a run was compiled from the texts that were called. -/
lemma run_sourced {actions : List Action} (hr : e.Reachable) (h : Sourced texts e)
    (ha : ∀ text, .execute text ∈ actions → texts text) : Sourced texts (e.run actions) := by
  induction actions generalizing e with
  | nil => exact h
  | cons a actions ih =>
    refine ih (.act a hr) (perform_sourced hr h ?_) fun text hm =>
      ha text (mem_cons_of_mem _ hm)
    rintro text rfl
    exact ha text mem_cons_self

lemma fresh_sourced {maxDepth : Nat} {host : Host} : Sourced texts (fresh maxDepth host) where
  work := nofun
  functions := nofun
  events := nofun
  sequence := by
    rintro q ⟨t, ht, _⟩
    cases ht

end Invariants

/-- What can happen to a sequence by an action, and what it says. -/
inductive Course (e : Engine) (q : Sequence) (a : Action) : Prop where
  | stays :
    (e.perform a).Conducts q →
    saidBy q.task (e.notes a) = [] →
    Course e q a
  | steps :
    a = .step q.task →
    q.thread.outcome? = none →
    (e.perform a).Conducts { q with thread := (q.thread.step e.state).1 } →
    saidBy q.task (e.notes a) = said (q.thread.deeds e.state) →
    Course e q a
  | ends {outcome} :
    q.thread.outcome? = some outcome →
    (e.perform a).thread? q.task = none →
    saidBy q.task (e.notes a) = said outcome.deeds →
    Course e q a

section Courses

variable {e : Engine} {id : TaskId} {q : Sequence} {ds : List Deed}

lemma Conducts.inv (h : e.Conducts q) :
    ∃ w answerDue, e.tasks[q.task]? = some ⟨w, .active q.thread answerDue⟩ ∧
    w.body? = some q.body := by
  obtain ⟨⟨w, phase⟩, ht, hq⟩ := h
  cases phase with
  | active thread answerDue =>
    obtain ⟨body, hb, hq⟩ := map_eq_some_iff.1 hq
    obtain ⟨task, body', thread'⟩ := q
    cases hq
    exact ⟨w, answerDue, ht, hb⟩
  | _ => cases hq

lemma conducts_of_task {w : Work} {answerDue : Nat}
    (ht : e.tasks[q.task]? = some ⟨w, .active q.thread answerDue⟩)
    (hw : w.body? = some q.body) : e.Conducts q :=
  ⟨_, ht, by rw [Task.sequence?, hw]; rfl⟩

lemma Conducts.thread? (h : e.Conducts q) : e.thread? q.task = some q.thread := by
  obtain ⟨w, answerDue, ht, _⟩ := h.inv
  exact thread?_eq ht

lemma saidBy_append {xs ys : List Entry} : saidBy id (xs ++ ys) = saidBy id xs ++ saidBy id ys := by
  rw [saidBy, filterMap_append, filterMap_append]
  rfl

lemma saidBy_map : (ds.map (id, ·)).filterMap
    (fun entry => if entry.1 = id then entry.2.utterance? else none) = said ds := by
  rw [filterMap_map]
  refine congrArg (List.filterMap · ds) (funext fun d => ?_)
  exact if_pos rfl

lemma saidBy_deeds : saidBy id (ds.map (.deed id)) = said ds := by
  rw [saidBy, filterMap_bySequence, saidBy_map]

/-- Others say nothing for a task. -/
lemma saidBy_note_other {other : TaskId} (hne : id ≠ other) : saidBy id (e.note other) = [] := by
  have hdeeds {ds : List Deed} : saidBy id (ds.map (.deed other)) = [] := by
    rw [saidBy, filterMap_bySequence, filterMap_map, filterMap_eq_nil_iff]
    exact fun d _ => if_neg hne.symm
  unfold note
  split
  · rfl
  · split
    · split <;> rfl
    · split
      · exact hdeeds
      · rfl
    · split
      · exact hdeeds
      · split
        · rfl
        · exact hdeeds
    · rfl

/-- What an action does to a sequence that is under way. -/
lemma perform_course (hr : e.Reachable) (hq : e.Conducts q) (a : Action) : Course e q a := by
  obtain ⟨w, answerDue, ht, hw⟩ := hq.inv
  cases a with
  | execute source | trigger name => exact .stays (conducts_add.2 hq) rfl
  | step other =>
    by_cases hne : q.task = other
    · subst hne
      have hstep : e.step q.task = e.advance q.task
        ⟨w, .active q.thread answerDue⟩ q.thread answerDue := by rw [step, ht]
      have hlt : q.task < e.tasks.length := (List.getElem?_eq_some_iff.1 ht).1
      cases ho : q.thread.outcome? with
      | some outcome =>
        refine .ends ho ?_ ?_
        · rw [perform, hstep, advance, ho]
          cases hr.fitting _ (mem_of_getElem? ht) with
          | active hw _ => cases hw <;> exact thread?_none (List.getElem?_set_self hlt) rfl
        · simp only [notes, note, ht, ho]
          exact saidBy_deeds
      | none =>
        by_cases hwait : (q.thread.isAnswered && decide (e.now < answerDue)) = true
        · refine .stays ?_ ?_
          · rw [perform, hstep, advance, ho]
            simp only [hwait, if_true]
            exact hq
          · simp only [notes, note, ht, ho, hwait, if_true]
            rfl
        · refine .steps rfl ho ?_ ?_
          · rw [perform, hstep, advance, ho]
            simp only [if_neg hwait]
            exact conducts_of_task (List.getElem?_set_self hlt) hw
          · simp only [notes, note, ht, ho, if_neg hwait]
            exact saidBy_deeds
    · have hother := ((step_move hr.fitting).others hr.exclusive ht hne).1
      exact .stays (conducts_of_task hother hw) (saidBy_note_other hne)
  | _ => exact .stays hq rfl

end Courses

/-- Whether a task has a sequence under way before each action. -/
def underWay (id : TaskId) : List Action → Engine → Bool
  | [], _ => true
  | a :: as, e => (e.thread? id).isSome && underWay id as (e.perform a)

/-- A step raises a fault with the line of a node in hand: of the sequence's own statements, or of a
function that it has called. -/
structure RaisesIn (texts : String → Prop) (e : Engine) (q : Sequence) (f : Fault) (n : Node)
    (stmts : List Stmt) :
    Prop where
  conducts : e.Conducts q
  raises : q.thread.Raises e.state n f
  inHand : stmts = q.body.stmts ∨ q.body.Callable texts stmts
  occurs : Occurs stmts n
  line : f.line = n.line

/-- The report of a fault. -/
def report (f : Fault) : Utterance := .message .error ("Error: " ++ f.message)

section Reports

variable {texts : String → Prop} {e : Engine} {q : Sequence} {f : Fault}
  {actions : List Action} {id : TaskId} {a : Action}
  {earlier later : List Utterance} {text : String}

lemma underWay_nil (hw : underWay id actions e = true) (hn : e.thread? id = none) :
    actions = [] := by
  cases actions with
  | nil => rfl
  | cons a actions =>
    rw [underWay, hn] at hw
    cases hw

/-- From some engine on, a failed sequence starts nothing, and says nothing but the report of its
fault, with which it ends. -/
structure Abandons (e : Engine) (id : TaskId) (f : Fault) (actions : List Action) : Prop where
  starts : ∀ mid rest, actions = mid ++ rest → ¬ (e.run mid).Starts id
  speech : saidBy id (e.log actions) = [] ∨
    saidBy id (e.log actions) = [report f] ∧ (e.run actions).thread? id = none

/-- One more action that says and starts nothing. -/
lemma Abandons.cons (h : Abandons (e.perform a) id f actions) (hs : ¬ e.Starts id)
    (hsaid : saidBy id (e.notes a) = []) : Abandons e id f (a :: actions) where
  starts := by
    intro mid rest hsplit
    cases mid with
    | nil => exact hs
    | cons b mid =>
      obtain ⟨rfl, hrest⟩ := List.cons.inj hsplit
      exact h.starts mid rest hrest
  speech := by
    rw [log, saidBy_append, hsaid, nil_append]
    exact h.speech

/-- A failed sequence is abandoned, by induction on the actions. -/
lemma failing_run (hr : e.Reachable) (hq : e.Conducts q) (hf : q.thread.control.failure? = some f)
    (hw : underWay q.task actions e = true) : Abandons e q.task f actions := by
  have hstarts {e : Engine} {q : Sequence} (hq : e.Conducts q)
    (hf : q.thread.control.failure? = some f) : ¬ e.Starts q.task := by
    rintro ⟨t, ht, hs⟩
    cases Option.some.inj (hq.thread?.symm.trans ht)
    exact not_starts_of_failing hf hs
  induction actions generalizing e q with
  | nil =>
    refine ⟨fun mid rest hsplit => ?_, .inl rfl⟩
    obtain ⟨rfl, _⟩ := append_eq_nil_iff.1 hsplit.symm
    exact hstarts hq hf
  | cons a actions ih =>
    have hway := (Bool.and_eq_true_iff.1 hw).2
    cases perform_course hr hq a with
    | stays hq' hsaid => exact .cons (ih (.act a hr) hq' hf hway) (hstarts hq hf) hsaid
    | steps _ ho hq' hsaid =>
      obtain ⟨hf', hquiet⟩ := step_failing (s := e.state) hf ho
      have hrest := ih (.act a hr) hq' hf' hway
      exact .cons hrest (hstarts hq hf) (hsaid.trans hquiet)
    | ends ho hnone hsaid =>
      cases outcome_of_failing hf ho
      obtain rfl := underWay_nil hway hnone
      refine ⟨fun mid rest hsplit => ?_, .inr ⟨?_, hnone⟩⟩
      · cases mid with
        | nil => exact hstarts hq hf
        | cons b mid =>
          obtain ⟨rfl, hrest⟩ := List.cons.inj hsplit
          obtain ⟨rfl, _⟩ := append_eq_nil_iff.1 hrest.symm
          rintro ⟨t, ht, _⟩
          cases hnone.symm.trans ht
      · rw [log, saidBy_append, hsaid]
        rfl

/-- The error is in the later part. -/
lemma exists_later {us vs : List Utterance} (hn : NoErrors us)
    (h : us ++ vs = earlier ++ .message .error text :: later) :
    ∃ rest, vs = rest ++ .message .error text :: later := by
  rcases append_eq_append_iff.1 h with ⟨mid, _, hvs⟩ | ⟨mid, hus, hlater⟩
  · exact ⟨mid, hvs⟩
  · cases mid with
    | nil => exact ⟨[], hlater.symm⟩
    | cons u mid =>
      obtain ⟨rfl, _⟩ := List.cons.inj hlater
      refine (hn text ?_).elim
      rw [hus]
      exact mem_append_right _ mem_cons_self

/-- A reported error is the last thing that the sequence says; it raised that fault in the run, and
has started nothing since. -/
structure Reports (texts : String → Prop) (e : Engine) (id : TaskId) (body : Body)
    (actions : List Action) (text : String) (later : List Utterance) (f : Fault) (n : Node)
    (stmts : List Stmt) : Prop where
  last : later = []
  ended : (e.run actions).thread? id = none
  text_eq : text = "Error: " ++ f.message
  raised : ∃ first last thread, actions = first ++ .step id :: last ∧
    RaisesIn texts (e.run first) ⟨id, body, thread⟩ f n stmts ∧
    ∀ mid rest, last = mid ++ rest → ¬ (e.run (first ++ .step id :: mid)).Starts id
  compiled : Compiled texts stmts

lemma Reports.cons {body : Body}
    (h : ∃ f n stmts, Reports texts (e.perform a) id body actions text later f n stmts) :
    ∃ f n stmts, Reports texts e id body (a :: actions) text later f n stmts := by
  obtain ⟨f, n, stmts, hlast, hover, htext, ⟨first, last, thread, rfl, hr, hs⟩, hc⟩ := h
  exact ⟨f, n, stmts, hlast, hover, htext, ⟨a :: first, last, thread, rfl, hr, hs⟩, hc⟩

/-- Statements in hand were compiled from a text. -/
lemma Sourced.compiled {stmts : List Stmt} (h : Sourced texts e) (hq : e.Conducts q)
    (hin : stmts = q.body.stmts ∨ q.body.Callable texts stmts) : Compiled texts stmts := by
  obtain ⟨w, answerDue, ht, hw⟩ := hq.inv
  have hwork : w.Sourced texts := h.work _ (mem_of_getElem? ht)
  rcases hin with rfl | hc
  · exact hwork.compiled hw
  · obtain ⟨task, body, thread⟩ := q
    cases body with
    | block stmts => exact hc
    | main p =>
      obtain ⟨name, params, line, hm⟩ := hc
      cases w with
      | program p' =>
        cases hw
        obtain ⟨text, htext, hp⟩ := hwork
        exact ⟨text, p, htext, hp, .function hm⟩
      | _ => cases hw

/-- A fault that is raised now is the one reported. -/
lemma Reports.raise {f : Fault} (hsrc : Sourced texts e) (hq : e.Conducts q)
    (hn : q.thread.control.failure? = none)
    (hf : (q.thread.step e.state).1.control.failure? = some f)
    (hrest : Abandons (e.step q.task) q.task f actions)
    (hsaid : saidBy q.task ((e.step q.task).log actions) =
      earlier ++ .message .error text :: later) :
    ∃ f n stmts, Reports texts e q.task q.body (.step q.task :: actions) text later f n stmts := by
  obtain ⟨hk, stmts, hst⟩ := hsrc.sequence q hq
  obtain ⟨n, hocc, hraises, hline⟩ := step_raises hk hst hn hf
  have hin : stmts = q.body.stmts ∨ q.body.Callable texts stmts := hst.frames.origin
  rcases hrest.speech with hnil | ⟨hone, hover⟩
  · rw [hnil] at hsaid
    cases (append_eq_nil_iff.1 hsaid.symm).2
  · rw [hone] at hsaid
    cases earlier with
    | nil =>
      obtain ⟨hmsg, rfl⟩ := List.cons.inj hsaid
      cases hmsg
      exact ⟨f, n, stmts, rfl, hover, rfl,
        ⟨[], actions, q.thread, rfl, ⟨hq, hraises, hin, hocc, hline⟩, hrest.starts⟩,
        hsrc.compiled hq hin⟩
    | cons u earlier => cases (append_eq_nil_iff.1 (List.cons.inj hsaid).2.symm).2

/-- A reported error is the last thing said, about a fault that was raised. -/
lemma reporting_run (hr : e.Reachable) (hsrc : Sourced texts e)
    (ha : ∀ source, .execute source ∈ actions → texts source) (hq : e.Conducts q)
    (hn : q.thread.control.failure? = none) (hw : underWay q.task actions e = true)
    (hsaid : saidBy q.task (e.log actions) = earlier ++ .message .error text :: later) :
    ∃ f n stmts, Reports texts e q.task q.body actions text later f n stmts := by
  induction actions generalizing e q earlier with
  | nil => cases (append_eq_nil_iff.1 hsaid.symm).2
  | cons a actions ih =>
    have hway := (Bool.and_eq_true_iff.1 hw).2
    have hsrc' : Sourced texts (e.perform a) := by
      refine perform_sourced hr hsrc ?_
      rintro source rfl
      exact ha source mem_cons_self
    have ha' : ∀ source, .execute source ∈ actions → texts source :=
      fun source hm => ha source (mem_cons_of_mem _ hm)
    rw [log, saidBy_append] at hsaid
    cases perform_course hr hq a with
    | stays hq' hquiet =>
      rw [hquiet, nil_append] at hsaid
      exact Reports.cons (ih (.act a hr) hsrc' ha' hq' hn hway hsaid)
    | @ends outcome ho hnone hend =>
      -- without a fault there is nothing to report
      have hsilent : said outcome.deeds = [] := by
        cases outcome with
        | fault f => exact (outcome_of_not_failing hn ho f rfl).elim
        | _ => rfl
      obtain rfl := underWay_nil hway hnone
      rw [hend, hsilent] at hsaid
      cases (append_eq_nil_iff.1 hsaid.symm).2
    | steps hstep ho hq' hdeeds =>
      obtain ⟨rest, hrest⟩ := exists_later (hdeeds ▸ deeds_noErrors) hsaid
      cases hf : (q.thread.step e.state).1.control.failure? with
      | none =>
        have hlater := ih (.act a hr) hsrc' ha' hq' hf hway hrest
        exact Reports.cons hlater
      | some f =>
        subst hstep
        have hfails := failing_run (.act _ hr) hq' hf hway
        exact Reports.raise hsrc hq hn hf hfails hrest

end Reports

section Beginning

variable {e : Engine} {id : TaskId} {body : Body}

lemma Reachable.exists_mirrors (hr : e.Reachable) : ∃ m, e.Mirrors m := by
  by_cases h : ∃ q, e.Conducts q
  · obtain ⟨q, hq⟩ := h
    obtain ⟨t, ht, hs⟩ := hq
    refine ⟨⟨e.state, some q⟩, .refl, fun q' => ?_⟩
    rw [conducts_iff hr.exclusive ht (Conducts.holder hr.exclusive ⟨t, ht, hs⟩), hs]
  · refine ⟨⟨e.state, none⟩, .refl, fun q =>
      iff_of_false (fun hq => h ⟨q, hq⟩) (some_ne_none q).symm⟩

/-- A sequence that begins is conducted. -/
lemma begin_conducts (hr : e.Reachable) (hb : e.cue id = [.begin id body]) :
    (∃ s, (e.step id).Conducts ⟨id, body, body.thread s⟩) ∧
    saidBy id (e.note id) = said body.deeds := by
  have hpending : e.pending = [id] := by
    have hbegun : begun (e.cues (.step id)) = [id] := by
      rw [cues, hb]
      rfl
    rcases begun_cues hr (.step id) with hnil | ⟨heq, _⟩
    · cases hbegun.symm.trans hnil
    · exact heq.symm.trans hbegun
  obtain ⟨m, hm⟩ := hr.exists_mirrors
  have hnone : m.sequence = none := by
    rw [eq_none_iff_forall_ne_some]
    intro q hq
    have hthread := ((hm.sequence q).2 hq).thread?
    rw [pending_eq_nil hr (isSome_iff_exists.2 ⟨_, hthread⟩)] at hpending
    cases hpending
  have hfollows : Follows e m (e.step id) (e.cue id) (e.note id) := step_follows hm hr
  rw [hb] at hfollows
  constructor
  · refine ⟨body.opened m.state, (hfollows.mirrors.sequence _).2 ?_⟩
    simp only [Solo.run, foldl_cons, foldl_nil, Solo.act, hnone]
  · rw [saidBy, ← hfollows.log]
    simp only [Solo.log, Solo.deeds, hnone, append_nil]
    exact saidBy_map

/-- Its beginning reports nothing. -/
lemma begin_noErrors : NoErrors (said body.deeds) := by
  intro text
  cases body with
  | block stmts => exact not_mem_nil
  | main p =>
    intro hm
    obtain ⟨d, hd, hu⟩ := mem_filterMap.1 hm
    rcases mem_cons.1 hd with rfl | hd
    · cases hu
    · obtain ⟨stmt, _, hd⟩ := mem_flatMap.1 hd
      cases stmt with
      | function name params body line =>
        simp only [Stmt.warning] at hd
        split at hd
        · cases mem_singleton.1 hd
          cases hu
        · cases hd
      | _ => cases hd

end Beginning

/-- Every source text of these statements has a token on this line. -/
def Attributable (stmts : List Stmt) (line : Nat) : Prop :=
  ∀ source p, compile source = .ok p → p.Contains stmts →
    ∃ tokens, tokenize source = .ok tokens ∧ (∃ t ∈ tokens, t.line = line) ∧
    1 ≤ line ∧ line ≤ lineCount source

lemma attributable_of_occurs {stmts : List Stmt} {n : Node} (h : Occurs stmts n) :
    Attributable stmts n.line := by
  intro source p hp hc
  obtain ⟨tokens, htokens, t, ht, hline⟩ := compile_line hp (hc.occurs h)
  have hbounds := tokenize_line_le htokens ht
  rw [hline] at hbounds
  exact ⟨tokens, htokens, ⟨t, ht, hline⟩, hbounds⟩

/-- A sequence that begins, be it a main line or the body of a timer or an event, reports at most
one error. The report is the last thing that it says, and it is over with it. It is about a fault
raised in its work on one node, of its own statements or of a function that it has called, and from
then on it starts nothing. The line of the fault is that of the node, and of a token of any source
text from which these statements were compiled; one such text was run before. -/
theorem faults_reported_once {maxDepth : Nat} {host : Host} {before during : List Action}
    {id : TaskId} {body : Body} {earlier later : List Utterance} {text : String} :
    let e := (fresh maxDepth host).run before
    e.cue id = [.begin id body] → underWay id during (e.step id) = true →
    saidBy id (e.log (.step id :: during)) = earlier ++ .message .error text :: later →
    ∃ f n stmts,
      Reports (fun source => .execute source ∈ before ++ during)
      (e.step id) id body during text later f n stmts ∧
        Attributable stmts f.line := by
  intro e hb hw hsaid
  have hr : e.Reachable := (Reachable.fresh maxDepth host).run before
  have hsrc : Sourced (fun source => .execute source ∈ before ++ during) e :=
    run_sourced (.fresh maxDepth host) fresh_sourced fun source hm => List.mem_append_left _ hm
  have hsrc' : Sourced (fun source => .execute source ∈ before ++ during) (e.step id) :=
    (step_move hr.fitting).sourced hr hsrc (hr.step id).exclusive
  obtain ⟨⟨s, hq⟩, hnote⟩ := begin_conducts hr hb
  rw [log, saidBy_append, notes, hnote] at hsaid
  obtain ⟨rest, hrest⟩ := exists_later begin_noErrors hsaid
  have hgood : (body.thread s).control.failure? = none := by
    cases body with
    | block stmts => rfl
    | main p =>
      simp only [Body.thread, mainThread]
      split <;> rfl
  obtain ⟨f, n, stmts, hreports⟩ := reporting_run (hr.step id) hsrc'
    (fun source hm => List.mem_append_right _ hm) hq hgood hw hrest
  refine ⟨f, n, stmts, hreports, ?_⟩
  obtain ⟨first, last, thread, _, hraised, _⟩ := hreports.raised
  rw [hraised.line]
  exact attributable_of_occurs hraised.occurs

/-- Who begins, begins a body. -/
lemma exists_begin {e : Engine} {id : TaskId} (h : begun (e.cue id) = [id]) :
    ∃ body, e.cue id = [.begin id body] := by
  unfold cue at h ⊢
  split at h
  · cases h
  · rename_i t _
    split at h
    · split at h <;> cases h
    · split at h
      · rename_i hthread
        rw [if_pos hthread]
        cases hw : t.work.body? with
        | none =>
          rw [hw] at h
          cases h
        | some body => exact ⟨body, rfl⟩
      · cases h
    · split at h <;> cases h
    · cases h

/-- A timer whose body calls a function, up to where it has got the gate. -/
def beforeMishap : List Action :=
  .execute
    "to f using n:\n    say n\n    give back m\nevery 1 seconds:\n    say f(1)\n    say 2\n" ::
    List.replicate 4 (.step 0) ++ [.step 1, .wait 1000, .step 1]

/-- The body of the timer, whose function reads a variable nobody has set. -/
def mishap : List Action := List.replicate 16 (.step 1)

/-- The fault is the last thing that the timer says, with the line of the variable. -/
theorem mishap_reported_once :
    saidBy 1 (((fresh defaultDepth {}).run beforeMishap).log (.step 1 :: mishap)) =
        [.message .info "1", .message .error "Error: Undefined variable: m at line 3"] ∧
      ((((fresh defaultDepth {}).run beforeMishap).step 1).run mishap).thread? 1 = none ∧
      ∃ (f : Fault) (n : Node) (stmts : List Stmt), "Error: Undefined variable: m at line 3" =
        "Error: " ++ f.message ∧ Occurs stmts n ∧ f.line = n.line ∧ Attributable stmts f.line ∧
        Compiled (fun source => .execute source ∈ beforeMishap ++ mishap) stmts := by
  have hrun : begun (((fresh defaultDepth {}).run beforeMishap).cue 1) = [1] ∧
      underWay 1 mishap (((fresh defaultDepth {}).run beforeMishap).step 1) = true ∧
      saidBy 1 (((fresh defaultDepth {}).run beforeMishap).log (.step 1 :: mishap)) =
        [.message .info "1", .message .error "Error: Undefined variable: m at line 3"] := by
    decide +kernel
  obtain ⟨hbegun, hway, hsaid⟩ := hrun
  obtain ⟨body, hbegin⟩ := exists_begin hbegun
  have hsplit : saidBy 1 (((fresh defaultDepth {}).run beforeMishap).log (.step 1 :: mishap)) =
      [.message .info "1"] ++ .message .error "Error: Undefined variable: m at line 3" :: [] :=
    hsaid
  obtain ⟨f, n, stmts, hreports, hline⟩ := faults_reported_once hbegin hway hsplit
  obtain ⟨first, last, thread, _, hraised, _⟩ := hreports.raised
  exact ⟨hsaid, hreports.ended, f, n, stmts, hreports.text_eq,
    hraised.occurs, hraised.line, hline, hreports.compiled⟩

end Engine

end Colloquy
