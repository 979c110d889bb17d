import Colloquy.Proofs.Machine.Calls
import Colloquy.Proofs.Engine.Serial

/-!
# The depth of calls

The engine counts in one number how deep calls behind the gate are nested. Every body that begins
adds one, and every way out of it takes the number and the local variables back to those of the
caller (`Solo.Balanced`). So it is always the number of bodies under way, and zero while the gate is
free.
-/

namespace Colloquy

open List

namespace Body

variable {s : State} {body : Body}

lemma deeds_isSwap (body : Body) : body.deeds.any Deed.isSwap = false := by
  rw [any_eq_false]
  intro d hd
  rcases mem_deeds hd with rfl | ⟨u, rfl⟩ <;> exact Bool.false_ne_true

/-- A body begins at depth zero. -/
lemma opened_footing (body : Body) (hd : s.depth = 0) :
    (body.opened s).footing = (body.deeds.foldl Deed.retrace s.store.locals, 0) := by
  cases body with
  | block stmts => exact Prod.ext rfl hd
  | main p =>
    have hacc := Engine.declared_accounts (e := { state := s }) (p := p)
    refine Prod.ext ?_ (Engine.declared_spec { state := s } p).depth
    exact (congrArg Store.locals hacc.store).trans
      (Deed.foldl_replay_locals (deeds_isSwap (main p)))

/-- A body that begins keeps the limit. -/
lemma opened_maxDepth : (body.opened s).maxDepth = s.maxDepth := by
  have hdeclare {e : Engine} {stmt : Stmt} :
      (e.declare stmt).state.maxDepth = e.state.maxDepth := by
    cases stmt with
    | function name params body line =>
      simp only [Engine.declare]
      split <;> rfl
    | event name timer body line => cases timer <;> rfl
    | _ => rfl
  have hfold {e : Engine} {stmts : List Stmt} :
      (stmts.foldl Engine.declare e).state.maxDepth = e.state.maxDepth := by
    induction stmts generalizing e with
    | nil => rfl
    | cons stmt stmts ih => exact ih.trans hdeclare
  cases body with
  | block stmts => rfl
  | main p => exact hfold

lemma thread_outside : (body.thread s).Typed .statements ∧ (body.thread s).callers = [] := by
  cases body with
  | block stmts => exact ⟨.of_phrase rfl .nil, rfl⟩
  | main p =>
    refine ⟨Engine.mainThread_typed p s, ?_⟩
    simp only [Body.thread, Engine.mainThread]
    split <;> rfl

/-- Its end changes neither depth nor variables. -/
lemma closed_footing (body : Body) (s : State) (outcome : Outcome) :
    (body.closed s outcome).footing = s.footing ∧
    (body.closed s outcome).maxDepth = s.maxDepth := by
  have hreport : (Engine.reportOutcome s outcome).footing = s.footing ∧
      (Engine.reportOutcome s outcome).maxDepth = s.maxDepth := by
    cases outcome <;> exact ⟨rfl, rfl⟩
  cases body with
  | block stmts => exact hreport
  | main p =>
    simp only [closed]
    split <;> exact hreport

end Body

namespace Solo

/-- The callers of the bodies under way. -/
def callers (m : Solo) : List Footing := (m.sequence.map fun q => q.thread.callers).getD []

/-- The depth fits the bodies under way and its limit, and the variables outside of all calls are
known. -/
structure Balanced (maxDepth : Nat) (top : Table Value) (m : Solo) : Prop where
  limit : m.state.maxDepth = maxDepth
  bound : m.state.depth ≤ maxDepth
  typed : ∀ q, m.sequence = some q → q.thread.Typed .statements
  stacked : Stacked top m.state.footing m.callers

/-- The variables outside of all calls after a cue. -/
def outside (m : Solo) (c : Cue) (top : Table Value) : Table Value :=
  if m.callers.isEmpty then ((m.deeds c).map Prod.snd).foldl Deed.retrace top else top

section Balance

variable {m : Solo} {maxDepth : Nat} {top : Table Value} {task : TaskId} {c : Cue} {q : Sequence}

lemma map_snd {ds : List Deed} : (ds.map (task, ·)).map Prod.snd = ds := by
  rw [map_map]
  exact map_id _

/-- What leaves the footing alone keeps the balance. -/
lemma Balanced.same (h : m.Balanced maxDepth top) (hd : m.deeds c = [])
    (hq : (m.act c).sequence = m.sequence) (hf : (m.act c).state.footing = m.state.footing)
    (hl : (m.act c).state.maxDepth = m.state.maxDepth) :
    (m.act c).Balanced maxDepth (m.outside c top) := by
  have hout : m.outside c top = top := by
    rw [outside, hd]
    split <;> rfl
  have hdep : (m.act c).state.depth = m.state.depth := congrArg Prod.snd hf
  rw [hout]
  refine ⟨hl.trans h.limit, ?_, ?_, ?_⟩
  · rw [hdep]
    exact h.bound
  · rw [hq]
    exact h.typed
  · rw [hf, callers, hq]
    exact h.stacked

lemma Balanced.idle (h : m.Balanced maxDepth top) (hd : m.deeds c = []) (ha : m.act c = m) :
    (m.act c).Balanced maxDepth (m.outside c top) :=
  h.same hd (by rw [ha]) (by rw [ha]) (by rw [ha])

/-- A sequence begins outside of all calls. -/
lemma Balanced.begin {body : Body} (h : m.Balanced maxDepth top) :
    (m.act (.begin task body)).Balanced maxDepth (m.outside (.begin task body) top) := by
  cases hq : m.sequence with
  | some q => exact h.idle (by simp only [deeds, hq]) (by simp only [act, hq])
  | none =>
    have hnone : m.callers = [] := by rw [callers, hq]; rfl
    obtain ⟨hloc, hdep⟩ := Prod.mk.inj (hnone ▸ h.stacked).nil_inv
    have hfoot := body.opened_footing hdep
    have hout : m.outside (.begin task body) top = body.deeds.foldl Deed.retrace top := by
      simp only [outside, hnone, deeds, hq, map_snd]
      rfl
    have hact : m.act (.begin task body) =
        ⟨body.opened m.state, some ⟨task, body, body.thread (body.opened m.state)⟩⟩ := by
      simp only [act, hq]
    rw [hact, hout]
    refine ⟨Body.opened_maxDepth.trans h.limit, ?_, ?_, ?_⟩
    · have hzero : (body.opened m.state).depth = 0 := congrArg Prod.snd hfoot
      rw [hzero]
      exact Nat.zero_le _
    · rintro _ ⟨⟩
      exact Body.thread_outside.1
    · change Stacked _ _ (body.thread (body.opened m.state)).callers
      rw [hfoot, Body.thread_outside.2, hloc]
      exact .top

lemma callers_eq (hq : m.sequence = some q) : m.callers = q.thread.callers := by
  rw [callers, hq]
  rfl

section

variable (h : m.Balanced maxDepth top)
include h

/-- It ends outside of all calls. -/
lemma Balanced.conclude {outcome : Outcome} (hq : m.sequence = some q)
    (ho : q.thread.outcome? = some outcome) :
    (m.act .step).Balanced maxDepth (m.outside .step top) := by
  have hnil : m.callers = [] := by
    rw [callers_eq hq, Thread.callers, (Thread.settled_of_outcome? ho).1]
    rfl
  have hstack := h.stacked
  rw [hnil] at hstack
  obtain ⟨hfoot, hlimit⟩ := q.body.closed_footing m.state outcome
  have hdep : (q.body.closed m.state outcome).depth = m.state.depth := congrArg Prod.snd hfoot
  have hout : m.outside .step top = top := by
    simp only [outside, deeds, hq, ho]
    cases outcome <;> split <;> rfl
  have hact : m.act .step = ⟨q.body.closed m.state outcome, none⟩ := by simp only [act, hq, ho]
  rw [hact, hout]
  refine ⟨hlimit.trans h.limit, ?_, ?_, ?_⟩
  · rw [hdep]
    exact h.bound
  · rintro _ ⟨⟩
  · rw [hfoot]
    exact hstack

/-- Its steps keep the balance. -/
lemma Balanced.advance (hq : m.sequence = some q)
    (ho : q.thread.outcome? = none) : (m.act .step).Balanced maxDepth (m.outside .step top) := by
  have ty := h.typed q hq
  have hstack := h.stacked
  rw [callers_eq hq] at hstack
  have hout : m.outside .step top =
      if q.thread.callers.isEmpty then (q.thread.deeds m.state).foldl Deed.retrace top
      else top := by
    simp only [outside, callers_eq hq, deeds, hq, ho, map_snd]
  have hact : m.act .step = ⟨(q.thread.step m.state).2,
      some { q with thread := (q.thread.step m.state).1 }⟩ := by
    simp only [act, hq, ho]
  obtain ⟨hdep, hlimit⟩ := hstack.step_depth ty (h.limit.symm ▸ h.bound)
  rw [hact, hout]
  refine ⟨hlimit.trans h.limit, h.limit ▸ hdep, ?_, hstack.step ty⟩
  rintro _ ⟨⟩
  exact Thread.step_typed ty

lemma Balanced.step : (m.act .step).Balanced maxDepth (m.outside .step top) := by
  cases hq : m.sequence with
  | none => exact h.idle (by simp only [deeds, hq]) (by simp only [act, hq])
  | some q =>
    cases ho : q.thread.outcome? with
    | some outcome => exact h.conclude hq ho
    | none => exact h.advance hq ho

lemma Balanced.act : (m.act c).Balanced maxDepth (m.outside c top) := by
  cases c with
  | begin task body => exact h.begin
  | step => exact h.step
  | stop | supply answers | reseed seed => exact h.same rfl rfl rfl rfl

end

end Balance

end Solo

namespace Engine

/-- The thread of the task that holds the gate. -/
def behindGate? (e : Engine) : Option Thread := e.gate.holder.bind e.thread?

/-- How many bodies of functions are under way behind the gate. -/
def activeCalls (e : Engine) : Nat := (e.behindGate?.map Thread.activeCalls).getD 0

/-- The local variables outside of all calls after a run. -/
def topLevel (e : Engine) (top : Table Value) : List Action → Table Value
  | [] => top
  | a :: as =>
    let written := ((e.notes a).map Entry.act).foldl Deed.retrace top
    topLevel (e.perform a) (if e.activeCalls = 0 then written else top) as

/-- Whether the next step calls a declared function with the right number of arguments. -/
def callsDeclared (e : Engine) (id : TaskId) : Bool :=
  match (e.thread? id).bind (Thread.call? · e.state) with
  | some (name, args) =>
    (Builtin.ofName? name).isNone && (e.state.store.functions.get? name).any fun f =>
    args.length == f.params.length
  | none => false

section Depth

variable {e : Engine} {m : Solo} {maxDepth : Nat} {top : Table Value}

/-- Machine and engine run the same thread. -/
lemma Mirrors.behindGate? (h : e.Mirrors m) (hr : e.Reachable) :
    e.behindGate? = m.sequence.map fun q => q.thread := by
  cases hq : m.sequence with
  | some q =>
    have hc : e.Conducts q := (h.sequence q).2 hq
    have hh := hc.holder hr.exclusive
    obtain ⟨⟨work, phase⟩, ht, hseq⟩ := hc
    cases phase with
    | active thread answerDue =>
      obtain ⟨body, _, heq⟩ := Option.map_eq_some_iff.1 hseq
      rw [Engine.behindGate?, hh, ← heq]
      exact thread?_eq ht
    | _ => cases hseq
  | none =>
    cases hb : e.behindGate? with
    | none => rfl
    | some thread =>
      obtain ⟨id, _, hid⟩ := Option.bind_eq_some_iff.1 hb
      obtain ⟨w, answerDue, ht⟩ := thread?_inv hid
      cases hr.fitting _ (mem_of_getElem? ht) with
      | active hw _ =>
        obtain ⟨body, hbody⟩ := hw.exists_body
        cases hq.symm.trans (h.under_way ht hbody)

lemma Mirrors.activeCalls (h : e.Mirrors m) (hr : e.Reachable) :
    e.activeCalls = m.callers.length := by
  rw [Engine.activeCalls, h.behindGate? hr, Solo.callers]
  cases m.sequence with
  | none => rfl
  | some q => exact Thread.length_callers.symm

lemma Mirrors.footing (h : e.Mirrors m) :
    e.state.footing = m.state.footing ∧ e.state.maxDepth = m.state.maxDepth := by
  obtain ⟨heard, hs⟩ := h.state
  rw [hs]
  exact ⟨rfl, rfl⟩

/-- An action gives a machine at most one cue. -/
lemma exists_cue (e : Engine) (a : Action) : ∃ c, e.cues a = Option.toList c := by
  have none : ∃ c, ([] : List Cue) = Option.toList c := ⟨none, rfl⟩
  have one (c : Cue) : ∃ c', [c] = Option.toList c' := ⟨some c, rfl⟩
  cases a with
  | step id =>
    simp only [cues, cue]
    split
    · exact none
    · split
      · split
        · exact one _
        · exact none
      · split
        · exact ⟨_, rfl⟩
        · exact none
      · split
        · exact none
        · exact one _
      · exact none
  | stop | supply answers | reseed seed => exact one _
  | _ => exact none

lemma foldl_retrace_act {notes : List Entry} : (notes.map Entry.act).foldl Deed.retrace top =
      ((notes.filterMap Entry.bySequence?).map Prod.snd).foldl Deed.retrace top := by
  induction notes generalizing top with
  | nil => rfl
  | cons entry notes ih => cases entry <;> exact ih

/-- The machine of an engine keeps its depth, and knows the variables outside of all calls. -/
def Poised (maxDepth : Nat) (top : Table Value) (e : Engine) : Prop :=
  ∃ m, e.Mirrors m ∧ m.Balanced maxDepth top

lemma fresh_poised {host : Host} : (fresh maxDepth host).Poised maxDepth [] := by
  refine ⟨⟨(fresh maxDepth host).state, none⟩, ⟨.refl, fun q => iff_of_false ?_ nofun⟩,
    rfl, Nat.zero_le _, nofun, .top⟩
  rintro ⟨t, ht, _⟩
  cases ht

section

variable (hr : e.Reachable) (h : e.Poised maxDepth top)
include hr h

/-- Every action does so. -/
lemma Poised.perform (a : Action) :
    (e.perform a).Poised maxDepth
      (if e.activeCalls = 0 then ((e.notes a).map Entry.act).foldl Deed.retrace top else top) := by
  obtain ⟨m, hm, hb⟩ := h
  have hf := perform_follows hm hr a
  refine ⟨_, hf.mirrors, ?_⟩
  rw [foldl_retrace_act, ← hf.log, hm.activeCalls hr]
  obtain ⟨c, hc⟩ := exists_cue e a
  rw [hc]
  cases c with
  | none =>
    simp only [Option.toList, Solo.log, map_nil, foldl_nil, ite_self]
    exact hb
  | some c =>
    have hout : m.outside c top =
        if m.callers.length = 0 then ((m.log [c]).map Prod.snd).foldl Deed.retrace top
        else top := by
      simp only [Solo.outside, Solo.log, append_nil, List.isEmpty_iff, length_eq_zero_iff]
    rw [Option.toList, ← hout]
    exact hb.act

lemma Poised.run (actions : List Action) :
    (e.run actions).Poised maxDepth (e.topLevel top actions) := by
  induction actions generalizing e top with
  | nil => exact h
  | cons a actions ih => exact ih (.act a hr) (h.perform hr a)

/-- The depth is the number of bodies under way. -/
lemma Poised.depth :
    e.state.depth = e.activeCalls ∧ e.activeCalls ≤ maxDepth ∧ e.state.maxDepth = maxDepth ∧
      (e.activeCalls = 0 → e.state.store.locals = top) := by
  obtain ⟨m, hm, hb⟩ := h
  obtain ⟨hfoot, hlimit⟩ := hm.footing
  have hdep : e.state.depth = m.state.depth := congrArg Prod.snd hfoot
  have hlen : m.state.depth = m.callers.length := hb.stacked.depth_eq
  refine ⟨?_, ?_, hlimit.trans hb.limit, ?_⟩
  · rw [hdep, hlen, hm.activeCalls hr]
  · rw [hm.activeCalls hr, ← hlen]
    exact hb.bound
  · intro hzero
    rw [hm.activeCalls hr, length_eq_zero_iff] at hzero
    have hloc : e.state.store.locals = m.state.footing.1 := congrArg Prod.fst hfoot
    have hstack := hb.stacked
    rw [hzero] at hstack
    rw [hloc, hstack.nil_inv]

end

/-- A call is refused at the limit, and else enters. -/
lemma step_callsDeclared {id : TaskId} (h : e.callsDeclared id = true) :
    (e.state.maxDepth ≤ e.state.depth →
      ∃ line fs, (e.step id).thread? id = some ⟨.fault ⟨.callDepth e.state.maxDepth, line⟩, fs⟩) ∧
    (e.state.depth < e.state.maxDepth →
      (∃ t, (e.step id).thread? id = some t ∧ ∀ f, t.control ≠ .fault f) ∧
        (e.step id).state.depth = e.state.depth + 1) := by
  unfold callsDeclared at h
  split at h
  · rename_i name args hcall
    obtain ⟨t, ht, hcall⟩ := Option.bind_eq_some_iff.1 hcall
    rw [Bool.and_eq_true, Option.isNone_iff_eq_none, Option.any_eq_true] at h
    obtain ⟨hb, f, hf, hn⟩ := h
    have hc : t.Calls e.state name args := Thread.call?_eq_some_iff.1 hcall
    obtain ⟨ho, ha⟩ := hc.awake
    obtain ⟨hthread, hstate⟩ := step_thread ht ho ha
    obtain ⟨line, fs, hinvoke⟩ := hc.step_eq
    rw [hinvoke, Thread.invoke_declared hb hf (beq_iff_eq.1 hn)] at hthread hstate
    refine ⟨fun hd => ?_, fun hd => ?_⟩
    · rw [if_pos hd] at hthread
      exact ⟨line, fs, hthread⟩
    · rw [if_neg (Nat.not_le_of_lt hd)] at hthread hstate
      refine ⟨⟨_, hthread, ?_⟩, ?_⟩
      · intro fault
        simp only [Thread.enter]
        split <;> rintro ⟨⟩
      · rw [hstate]
        rfl
  · cases h

end Depth

/-- In every run, however tasks take turns and bodies end, the depth is the number of bodies of
functions under way behind the gate, and never above its limit. Outside of all calls, and so
whenever the gate is free, the local variables are those written outside of all calls. A call of a
declared function with the right number of arguments is refused exactly if as many bodies as are
allowed are under way, and otherwise one more is. -/
theorem depth_eq_activeCalls (maxDepth : Nat) (host : Host) (actions : List Action) :
    let e := (fresh maxDepth host).run actions
    let top := (fresh maxDepth host).topLevel [] actions
    e.state.depth = e.activeCalls ∧ e.activeCalls ≤ maxDepth ∧
      (e.activeCalls = 0 → e.state.store.locals = top) ∧
      (e.gate.holder = none → e.state.depth = 0 ∧ e.state.store.locals = top) ∧
      ∀ id, e.callsDeclared id = true →
        ((∃ line fs, (e.step id).thread? id = some ⟨.fault ⟨.callDepth maxDepth, line⟩, fs⟩) ↔
          e.activeCalls = maxDepth) ∧
        (e.activeCalls < maxDepth → (e.step id).activeCalls = e.activeCalls + 1) := by
  intro e top
  have hr : e.Reachable := (Reachable.fresh maxDepth host).run actions
  have hp : e.Poised maxDepth top := fresh_poised.run (.fresh maxDepth host) actions
  obtain ⟨hdepth, hle, hlimit, hlocals⟩ := hp.depth hr
  refine ⟨hdepth, hle, hlocals, ?_, ?_⟩
  · intro hfree
    have hzero : e.activeCalls = 0 := by rw [activeCalls, behindGate?, hfree]; rfl
    exact ⟨hdepth.trans hzero, hlocals hzero⟩
  · intro id hid
    obtain ⟨hdepth', _⟩ := (hp.perform hr (.step id)).depth (hr.step id)
    obtain ⟨hfull, hroom⟩ := step_callsDeclared hid
    rw [hlimit, hdepth] at hfull hroom
    refine ⟨⟨?_, fun heq => hfull (Nat.le_of_eq heq.symm)⟩, ?_⟩
    · rintro ⟨line, fs, hfault⟩
      rcases Nat.lt_or_eq_of_le hle with hlt | heq
      · obtain ⟨⟨t, ht, hsafe⟩, _⟩ := hroom hlt
        cases hfault.symm.trans ht
        exact (hsafe _ rfl).elim
      · exact heq
    · intro hlt
      rw [← hdepth]
      exact hdepth'.symm.trans (hdepth ▸ (hroom hlt).2)

/-- The first steps of a program whose function always calls itself. -/
def recursing (steps : Nat) : List Action :=
  .execute "to f:\n    set x to 2\n    f()\nset x to 1\nf()\n" :: List.replicate steps (.step 0)

/-- Where two bodies may be under way the third call is refused, and after the fault the variables
outside of all calls are back. -/
theorem depth_eq_activeCalls_recursing :
    (((fresh 2 {}).run (recursing 6)).callsDeclared 0 = true ∧
        (((fresh 2 {}).run (recursing 6)).step 0).activeCalls = 1) ∧
      (((fresh 2 {}).run (recursing 16)).callsDeclared 0 = true ∧
        ∃ line fs, (((fresh 2 {}).run (recursing 16)).step 0).thread? 0 =
          some ⟨.fault ⟨.callDepth 2, line⟩, fs⟩) ∧
      ((fresh 2 {}).run (recursing 26)).gate.holder = none ∧
        ((fresh 2 {}).run (recursing 26)).state.depth = 0 ∧
        ((fresh 2 {}).run (recursing 26)).state.store.locals = (fresh 2 {}).topLevel []
        (recursing 26) := by
  have hfirst : ((fresh 2 {}).run (recursing 6)).callsDeclared 0 = true ∧
      ((fresh 2 {}).run (recursing 6)).activeCalls = 0 := by decide +kernel
  have hthird : ((fresh 2 {}).run (recursing 16)).callsDeclared 0 = true ∧
      ((fresh 2 {}).run (recursing 16)).activeCalls = 2 := by decide +kernel
  have hfree : ((fresh 2 {}).run (recursing 26)).gate.holder = none := by decide +kernel
  obtain ⟨_, _, _, _, henter⟩ := depth_eq_activeCalls 2 {} (recursing 6)
  obtain ⟨_, _, _, _, hrefuse⟩ := depth_eq_activeCalls 2 {} (recursing 16)
  obtain ⟨_, _, _, hback, _⟩ := depth_eq_activeCalls 2 {} (recursing 26)
  refine ⟨⟨hfirst.1, ?_⟩, ⟨hthird.1, (hrefuse 0 hthird.1).1.2 hthird.2⟩, hfree, hback hfree⟩
  obtain ⟨hcalls, hnone⟩ := hfirst
  have hroom := (henter 0 hcalls).2
  rw [hnone] at hroom
  exact hroom Nat.zero_lt_two

end Engine

end Colloquy
