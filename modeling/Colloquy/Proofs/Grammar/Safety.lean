import Colloquy.Proofs.Grammar.Completion

/-!
# Safety of the reader

After any requests, met or not, a reader stands at one of its tokens, not beyond the first end of
the input, and the next request neither moves it back nor depends on how many rounds its loops are
allowed.
-/

namespace Colloquy

open List

namespace Grammar

open Production

variable {n room : Nat} {c : Cursor} {lines : List Nat}

section Loops

variable {σ : Type} {step : σ → Production (Option σ)} {s : σ}

/-- The outcome of a loop that goes on while a round finds something to do. -/
inductive Repeats (step : σ → Production (Option σ)) :
    σ → Cursor → Except SyntaxError σ × Cursor → Prop where
  | done {s c c'} :
    (step s).run c = (.ok none, c') →
    Repeats step s c (.ok s, c')
  | failed {s c e c'} :
    (step s).run c = (.error e, c') →
    Repeats step s c (.error e, c')
  | more {s s' c c' r} :
    (step s).run c = (.ok (some s'), c') →
    Repeats step s' c' r →
    Repeats step s c r

/-- A kind of loop. -/
structure Loop where
  State : Type
  step : State → Production (Option State)

/-- From here the loop ends by itself, and with more rounds than tokens it is run to that end. -/
def Loop.Ends (l : Loop) (c : Cursor) : Prop :=
  ∀ s, ∃ r, Repeats l.step s c r ∧ ∀ rounds, c.remaining < rounds →
  (iterate l.step rounds s).run c = r

/-- The loops of the grammar. -/
def loops (tokens room : Nat) : List Loop :=
  [⟨_, skipRound [.newline]⟩, ⟨_, skipRound TokenKind.layout⟩,
    ⟨_, commaRound (innerExpression (exprAt tokens) room)⟩, ⟨_, argumentRound (exprAt tokens) room⟩,
    ⟨_, elementRound (exprAt tokens) room⟩, ⟨_, fieldRound tokens (exprAt tokens) room⟩,
    ⟨_, suffix tokens (exprAt tokens) room⟩,
    ⟨_, operatorRound factorOperator (unary tokens (exprAt tokens) room)⟩,
    ⟨_, operatorRound termOperator (factor tokens (exprAt tokens) room)⟩,
    ⟨_, operatorRound comparisonOperator (term tokens (exprAt tokens) room)⟩,
    ⟨_, equalityRound tokens (exprAt tokens) room⟩,
    ⟨_, operatorRound andOperator (equality tokens (exprAt tokens) room)⟩,
    ⟨_, operatorRound orOperator (conjunction tokens (exprAt tokens) room)⟩,
    ⟨_, paramRound⟩, ⟨_, blockRound tokens (innerStatement tokens room)⟩,
    ⟨_, linkRound tokens room (innerStatement tokens room)⟩, ⟨_, programRound tokens⟩]

/-- A loop ends if each round that goes on passes a token. -/
lemma ends_of_rounds {l : Loop} (hstep : ∀ s c, Amid n n c [] c →
    Steady c (l.step s) (l.step s) c fun r c' =>
      c.Onward c' ∧ (r.isSome = true → c'.remaining < c.remaining)) (h :
      Amid n n c [] c) : l.Ends c := by
  intro s
  induction hk : c.remaining using Nat.strong_induction_on generalizing s c with
  | _ k ih =>
    have hround := hstep s c h
    rcases hr : (l.step s).run c with ⟨e | s', c'⟩
    · refine ⟨(.error e, c'), .failed hr, fun rounds hrounds => ?_⟩
      obtain ⟨rounds, rfl⟩ : ∃ k, rounds = k + 1 := ⟨rounds - 1, by omega⟩
      rw [run_iterate, hr]
    · have hpost := hround.ok s' c' hr
      cases s' with
      | none =>
        refine ⟨(.ok s, c'), .done hr, fun rounds hrounds => ?_⟩
        obtain ⟨rounds, rfl⟩ : ∃ k, rounds = k + 1 := ⟨rounds - 1, by omega⟩
        rw [run_iterate, hr]
      | some s' =>
        have hlt := hpost.2 rfl
        obtain ⟨r, hrepeats, hruns⟩ := ih c'.remaining (hk ▸ hlt) (h.after hpost.1).anew s' rfl
        refine ⟨r, .more hr hrepeats, fun rounds hrounds => ?_⟩
        obtain ⟨rounds, rfl⟩ : ∃ k, rounds = k + 1 := ⟨rounds - 1, by omega⟩
        rw [run_iterate, hr]
        exact hruns rounds (by omega)

lemma ends_of_tried (hstep : ∀ s c, Amid n n c [] c → Steady c (step s) (step s) c (Tried n n c))
    (h : Amid n n c [] c) : Loop.Ends ⟨σ, step⟩ c := by
  refine ends_of_rounds (fun s c h => (hstep s c h).mono ?_) h
  rintro r c' ⟨lines, h, hsome⟩
  refine ⟨h.onward, fun hr => ?_⟩
  obtain ⟨line, lines, rfl⟩ := exists_cons_of_ne_nil (hsome hr)
  exact h.remaining_lt

lemma ends_of_extended {step : Expr → Production (Option Expr)}
    (hstep : ∀ e c, Amid n n c [] c → Steady c (step e) (step e) c (Extended c))
    (h : Amid n n c [] c) :
    Loop.Ends ⟨Expr, step⟩ c := by
  refine ends_of_rounds (fun e c h => (hstep e c h).mono ?_) h
  rintro r c' ⟨honward, hsome⟩
  refine ⟨honward, fun hr => ?_⟩
  obtain ⟨e, rfl⟩ := Option.isSome_iff_exists.mp hr
  exact (hsome e rfl).remaining_lt

/-- All loops of the grammar end. -/
lemma loops_end {l : Loop} (hl : l ∈ loops n room) (h : Amid n n c [] c) : l.Ends c := by
  have hI : InnerAdvances n n (exprAt n) (exprAt n) := innerAdvances_exprAt
  have hinner : InnerCompletes n n (innerStatement n room) (innerStatement n room) :=
    innerCompletes_innerStatement
  simp only [loops, mem_cons, not_mem_nil, or_false] at hl
  rcases hl with
    rfl | rfl | rfl | rfl | rfl | rfl | rfl | rfl | rfl | rfl | rfl | rfl | rfl | rfl | rfl | rfl | rfl
  · exact ends_of_tried (fun _ _ h => tried_skipRound (by decide) h) h
  · exact ends_of_tried (fun _ _ h => tried_skipRound (by decide) h) h
  · exact ends_of_tried (fun _ _ h => tried_commaRound hI h) h
  · exact ends_of_tried (fun _ _ h => tried_argumentRound hI h) h
  · exact ends_of_tried (fun _ _ h => tried_elementRound hI h) h
  · exact ends_of_tried (fun _ _ h => tried_fieldRound hI h) h
  · exact ends_of_extended (fun _ _ h => extended_suffix hI h) h
  · exact ends_of_extended (fun _ _ h =>
      extended_operatorRound signals_factorOperator (fun _ h => advances_unary hI h) h) h
  · exact ends_of_extended (fun _ _ h =>
      extended_operatorRound signals_termOperator (fun _ h => advances_factor hI h) h) h
  · exact ends_of_extended (fun _ _ h =>
      extended_operatorRound signals_comparisonOperator (fun _ h => advances_term hI h) h) h
  · exact ends_of_extended (fun _ _ h => extended_equalityRound hI h) h
  · exact ends_of_extended (fun _ _ h =>
      extended_operatorRound signals_andOperator (fun _ h => advances_equality hI h) h) h
  · exact ends_of_extended (fun _ _ h =>
      extended_operatorRound signals_orOperator (fun _ h => advances_conjunction hI h) h) h
  · exact ends_of_tried (fun _ _ h => tried_paramRound h) h
  · exact ends_of_tried (fun _ _ h => tried_blockRound hinner h) h
  · exact ends_of_tried (fun _ _ h => tried_linkRound hinner h) h
  · exact ends_of_tried (fun _ _ h => tried_programRound h) h

end Loops

end Grammar

/-- The cursor stands at the token with this index, and none before it ends the input. -/
structure Cursor.Stands (tokens : List Token) (i : Nat) (c : Cursor) : Prop where
  here : (terminated tokens)[i]? = some c.here
  ahead : (terminated tokens).drop (i + 1) = c.ahead
  unended : ∀ t ∈ (terminated tokens).take i, t.kind ≠ .eof

namespace Cursor

variable {tokens passed : List Token} {i : Nat} {c c' : Cursor}

/-- The tokens up to a place, and the row from there on. -/
lemma Stands.split (h : c.Stands tokens i) :
    terminated tokens = (terminated tokens).take i ++ c.row ∧
    ((terminated tokens).take i).length = i := by
  obtain ⟨hi, hhere⟩ := List.getElem?_eq_some_iff.mp h.here
  have hdrop : (terminated tokens).drop i = c.row := by
    rw [drop_eq_getElem_cons hi, hhere, h.ahead]
    rfl
  constructor
  · rw [← hdrop, take_append_drop]
  · exact length_take_of_le (Nat.le_of_lt hi)

/-- A cursor stands behind what it has passed. -/
lemma stands_of_split (h : terminated tokens = passed ++ c.row)
    (hne : ∀ t ∈ passed, t.kind ≠ .eof) :
    c.Stands tokens passed.length where
  here := by
    rw [h, List.getElem?_append_right (Nat.le_refl _), Nat.sub_self]
    rfl
  ahead := by
    rw [h, drop_append, drop_eq_nil_of_le (Nat.le_succ _), Nat.add_sub_cancel_left]
    rfl
  unended := by
    rw [h, take_left]
    exact hne

lemma Stands.between (h : c.Stands tokens i) (h' : Between passed c c') :
    c'.Stands tokens (i + passed.length) := by
  obtain ⟨hsplit, hlength⟩ := h.split
  rw [h'.1, ← append_assoc] at hsplit
  have hstands := stands_of_split hsplit (forall_mem_append.mpr ⟨h.unended, h'.2⟩)
  rw [length_append, hlength] at hstands
  exact hstands

lemma exists_terminated (tokens : List Token) :
    ∃ ts t, terminated tokens = ts ++ [t] ∧ t.kind = .eof := by
  unfold terminated
  split
  · exact ⟨[], _, rfl, rfl⟩
  · rename_i last hlast
    obtain ⟨ts, rfl⟩ := List.getLast?_eq_some_iff.mp hlast
    split
    · rename_i hk
      exact ⟨ts, last, rfl, hk⟩
    · exact ⟨_, _, rfl, rfl⟩

lemma stands_ofTokens (tokens : List Token) : (ofTokens tokens).Stands tokens 0 := by
  have hrow : terminated tokens = [] ++ (ofTokens tokens).row := by
    obtain ⟨ts, t, hrow, _⟩ := exists_terminated tokens
    unfold ofTokens
    cases hc : terminated tokens with
    | nil => simp [hc] at hrow
    | cons first rest => rfl
  exact stands_of_split hrow nofun

lemma Stands.closed (h : c.Stands tokens i) : c.Closed := by
  obtain ⟨ts, t, hrow, ht⟩ := exists_terminated tokens
  obtain ⟨hsplit, _⟩ := h.split
  rw [hrow] at hsplit
  obtain ⟨us, u, hus⟩ := eq_nil_or_concat c.row |>.resolve_left (cons_ne_nil _ _)
  rw [concat_eq_append] at hus
  refine ⟨us, u, hus, ?_⟩
  rw [hus, ← append_assoc] at hsplit
  obtain ⟨_, hlast⟩ := append_inj' hsplit rfl
  rw [← (List.cons.inj hlast).1]
  exact ht

end Cursor

/-- What a reader can be asked for. -/
inductive Request where
  | wholeProgram
  | oneExpression

/-- Where a reader stands after a request, met or not. -/
def Request.after (c : Cursor) : Request → Cursor
  | .wholeProgram => (program.run c).2
  | .oneExpression => (expression.run c).2

namespace Grammar

open Production

/-- A production does not depend on the rounds of its loops, if these are more than the tokens. It
comes to a place further on, past so many tokens if it succeeds. It closes the blocks it has opened
if it succeeds, and no others in any case. -/
structure Safe {α : Type} (tokens : List Token) (i : Nat) (c : Cursor) (gain : Nat)
    (p : Nat → Production α) : Prop where
  same : ∀ n m, c.remaining < n → c.remaining < m → (p n).run c = (p m).run c
  ok : ∀ n a c', c.remaining < n → (p n).run c = (.ok a, c') →
  c'.depth = c.depth ∧ ∃ j, i + gain ≤ j ∧ c'.Stands tokens j
  error : ∀ n e c', c.remaining < n → (p n).run c = (.error e, c') →
  c.depth ≤ c'.depth ∧ ∃ j, i ≤ j ∧ c'.Stands tokens j

/-- The productions that read an expression, by their rounds. -/
def expressionForms (room : Nat) : List (Nat → Production Expr) :=
  [fun n => primary n (exprAt n) room, fun n => call n (exprAt n) room,
  fun n => unary n (exprAt n) room,
    fun n => factor n (exprAt n) room, fun n => term n (exprAt n) room, fun n =>
      comparison n (exprAt n) room,
    fun n => equality n (exprAt n) room, fun n => conjunction n (exprAt n) room,
    fun n => disjunction n (exprAt n) room, fun n => expressionAt n room]

/-- The productions that read a statement, by their rounds. -/
def statementForms (room : Nat) : List (Nat → Production Stmt) :=
  [fun n => eventDeclaration n (innerStatement n room),
  fun n => timerDeclaration n (innerStatement n room),
    fun n => functionDeclaration n (innerStatement n room), fun n =>
      assignment n room, fun n => accumulation n room,
    fun n => adjustment n room, fun n => scaling n room, fun _ => deletion,
    fun n => conditional n room (innerStatement n room), fun n =>
      looping n room (innerStatement n room),
    fun n => iterating n room (innerStatement n room), fun n =>
      printing n room, fun n => returning n room,
    fun n => asking n room, fun n => storing n room, fun _ =>
      termination, fun n => expressionStatement n room,
    fun n => statementAt n room]

/-- Programs, expressions and statements are read safely here; loops end by themselves, expressions
do not come to the end of their depth, and neither the open blocks nor the room is lowered where it
is zero. -/
structure SafeFrom (tokens : List Token) (i : Nat) (c : Cursor) : Prop where
  programs : Safe tokens i c 0 programAt
  expressions : ∀ room, ∀ p ∈ expressionForms room, Safe tokens i c 1 p
  statements : ∀ room, ∀ p ∈ statementForms room, Safe tokens i c 1 p
  loops : ∀ n room, c.remaining < n → ∀ l ∈ loops n room, l.Ends c
  recursion : ∀ n room base level, c.remaining < n →
    (exprFrom base n level room).run c = (exprAt n level room).run c
  blocks : ∀ n room leave, c.remaining < n → (∀ d, leave (d + 1) = d) →
    (blockLeaving leave n (innerStatement n room)).run c = (block n (innerStatement n room)).run c
  nesting : ∀ (α : Type) (inner : Nat → Production α) (room : Nat) (lower : Nat → Nat),
  (∀ d, lower (d + 1) = d) →
    (nested room inner).run c =
      if room = 0 then (invalid c.here .nestedTooDeeply).run c else (inner (lower room)).run c

section Safe

variable {α : Type} {tokens : List Token} {i room : Nat} {c : Cursor} {p : Nat → Production α}

/-- What is steady for all numbers of rounds is safe. -/
lemma safe_of_steady {gain : Nat} (hc : c.Stands tokens i)
    (h : ∀ n m, Amid n m c [] c → Steady c (p n) (p m) c fun _ c' =>
      c'.depth = c.depth ∧ ∃ passed, gain ≤ passed.length ∧
      Cursor.Between passed c c') : Safe tokens i c gain p where
  same n m hn hm := (h m n (.start hc.closed hm hn)).same
  ok n a c' hn hr := by
    obtain ⟨hdepth, passed, hgain, hpassed⟩ := (h n n (.start hc.closed hn hn)).ok a c' hr
    exact ⟨hdepth, _, Nat.add_le_add_left hgain i, hc.between hpassed⟩
  error n e c' hn hr := by
    obtain ⟨_, ⟨passed, hpassed, _⟩, hdepth⟩ := (h n n (.start hc.closed hn hn)).error e c' hr
    exact ⟨hdepth, _, Nat.le_add_right i _, hc.between hpassed⟩

lemma safe_of_crosses (line : α → Nat) (hc : c.Stands tokens i)
    (h : ∀ n m, Amid n m c [] c → Steady c (p n) (p m) c fun a c' => c.Onward c' ∧
      c.Crosses c' (line a)) :
    Safe tokens i c 1 p := by
  refine safe_of_steady hc fun n m hnm => (h n m hnm).mono ?_
  rintro a c' ⟨honward, passed, hpassed, t, ht, _⟩
  exact ⟨honward.depth, passed, length_pos_of_mem ht, hpassed⟩

/-- Expressions are read safely. -/
lemma safe_expressions (hc : c.Stands tokens i) :
    ∀ p ∈ expressionForms room, Safe tokens i c 1 p := by
  have hI {n m : Nat} : InnerAdvances n m (exprAt n) (exprAt m) := innerAdvances_exprAt
  intro p hp
  refine safe_of_crosses Expr.line hc fun n m h => ?_
  simp only [expressionForms, mem_cons, not_mem_nil, or_false] at hp
  rcases hp with rfl | rfl | rfl | rfl | rfl | rfl | rfl | rfl | rfl | rfl
  · exact advances_primary hI h.outset
  · exact advances_call hI h.outset
  · exact advances_unary hI h.outset
  · exact advances_factor hI h.outset
  · exact advances_term hI h.outset
  · exact advances_comparison hI h.outset
  · exact advances_equality hI h.outset
  · exact advances_conjunction hI h.outset
  · exact advances_disjunction hI h.outset
  · exact advances_value h

/-- Statements are read safely. -/
lemma safe_statements (hc : c.Stands tokens i) :
    ∀ p ∈ statementForms room, Safe tokens i c 1 p := by
  have hinner {n m : Nat} : InnerCompletes n m (innerStatement n room) (innerStatement m room) :=
    innerCompletes_innerStatement
  intro p hp
  refine safe_of_crosses Stmt.line hc fun n m h => ?_
  suffices hcompletes :
    Completes (p n) (p m) c from hcompletes.mono fun _ _ hs => ⟨hs.onward, hs.crosses⟩
  simp only [statementForms, mem_cons, not_mem_nil, or_false] at hp
  rcases hp with
    rfl | rfl | rfl | rfl | rfl | rfl | rfl | rfl | rfl | rfl | rfl | rfl | rfl | rfl | rfl | rfl | rfl | rfl
  · exact completes_eventDeclaration hinner h
  · exact completes_timerDeclaration hinner h
  · exact completes_functionDeclaration hinner h
  · exact completes_assignment h
  · exact completes_accumulation h
  · exact completes_adjustment h
  · exact completes_scaling h
  · exact completes_deletion h
  · exact completes_conditional hinner h
  · exact completes_looping hinner h
  · exact completes_iterating hinner h
  · exact completes_printing h
  · exact completes_returning h
  · exact completes_asking h
  · exact completes_storing h
  · exact completes_termination h
  · exact completes_expressionStatement h
  · exact completes_statementAt h

/-- A reader is safe wherever it stands. -/
lemma safeFrom_of_stands (hc : c.Stands tokens i) : SafeFrom tokens i c where
  programs := by
    refine safe_of_steady hc fun n m h => (proceeds_programAt h).mono fun _ c' h' => ?_
    obtain ⟨passed, hpassed⟩ := h'.path
    exact ⟨h'.depth, passed, Nat.zero_le _, hpassed⟩
  expressions room := safe_expressions hc
  statements room := safe_statements hc
  loops n room hn l hl := loops_end hl (.start hc.closed hn hn)
  recursion n room base level hn := by
    rw [exprAt_eq]
    exact (innerAdvances_exprFrom level room c hc.closed hn hn).same
  blocks n room leave hn hleave :=
    (turned_blockLeaving innerCompletes_innerStatement
      (fun _ => rfl) hleave (.start hc.closed hn hn)).same
  nesting α inner room lower hlower := by
    cases room with
    | zero => rfl
    | succ room =>
      rw [hlower]
      rfl

end Safe

end Grammar

section Requests

open Grammar Production

variable {tokens : List Token} {i : Nat} {c : Cursor}

/-- A request opens only blocks that begin on its way. -/
lemma Request.after_astray (r : Request) (hc : c.Closed) : c.Astray (r.after c) := by
  have hstart : Amid (c.remaining + 1) (c.remaining + 1) c [] c :=
    .start hc (Nat.lt_succ_self _) (Nat.lt_succ_self _)
  cases r with
  | wholeProgram =>
    rw [Request.after, run_program]
    have hsteady := proceeds_programAt hstart
    rcases hr : (programAt (c.remaining + 1)).run c with ⟨e | p, c'⟩
    · exact hsteady.error e c' hr
    · exact (hsteady.ok p c' hr).astray
  | oneExpression =>
    rw [Request.after, run_expression]
    have hsteady : Advances (value (c.remaining + 1) maxNesting)
      (value (c.remaining + 1) maxNesting) c := advances_value hstart
    rcases hr : (expressionAt (c.remaining + 1) maxNesting).run c with ⟨e | a, c'⟩
    · exact hsteady.error e c' hr
    · exact (hsteady.ok a c' hr).1.astray

lemma Request.after_stands (r : Request) (hc : c.Stands tokens i) :
    ∃ j, i ≤ j ∧ (r.after c).Stands tokens j := by
  obtain ⟨passed, hpassed, _⟩ := (r.after_astray hc.closed).path
  exact ⟨_, Nat.le_add_right i _, hc.between hpassed⟩

lemma Request.foldl_stands (requests : List Request) (hc : c.Stands tokens i) :
    ∃ j, i ≤ j ∧ (requests.foldl Request.after c).Stands tokens j := by
  induction requests generalizing c i with
  | nil => exact ⟨i, Nat.le_refl i, hc⟩
  | cons r requests ih =>
    obtain ⟨j, hij, hj⟩ := r.after_stands hc
    obtain ⟨k, hjk, hk⟩ := ih hj
    exact ⟨k, Nat.le_trans hij hjk, hk⟩

/-- A reader of any tokens is safe. After any requests it stands at one of the tokens, or at the end
of the input put after them, and not beyond the first end of the input; further requests do not move
it back. From every such place, with any open blocks, everything is read safely. -/
theorem reader_safe (tokens : List Token) :
    (∀ earlier later : List Request, ∃ i j, i ≤ j ∧
      (earlier.foldl Request.after (.ofTokens tokens)).Stands tokens i ∧
      ((earlier ++ later).foldl Request.after (.ofTokens tokens)).Stands tokens j) ∧
    ∀ i c, c.Stands tokens i → SafeFrom tokens i c := by
  refine ⟨fun earlier later => ?_, fun i c hc => safeFrom_of_stands hc⟩
  obtain ⟨i, _, hi⟩ := Request.foldl_stands earlier (Cursor.stands_ofTokens tokens)
  obtain ⟨j, hij, hj⟩ := Request.foldl_stands later hi
  rw [List.foldl_append]
  exact ⟨i, j, hij, hi, hj⟩

/-- A row with a stray end of a block and tokens after the end of the input. -/
def strayRow : List Token :=
  [⟨.newline, "\n", .start⟩, ⟨.boolean true, "true", ⟨2, 1, 1⟩⟩,
  ⟨.dedent, "", ⟨2, 5, 5⟩⟩, ⟨.eof, "", ⟨2, 5, 5⟩⟩,
    ⟨.indent, "", ⟨2, 5, 5⟩⟩]

/-- Its reader stays at the stray end of a block. -/
def strayEnd : Cursor :=
  ⟨⟨.dedent, "", ⟨2, 5, 5⟩⟩,
  [⟨.eof, "", ⟨2, 5, 5⟩⟩, ⟨.indent, "", ⟨2, 5, 5⟩⟩, ⟨.eof, "", ⟨2, 5, 5⟩⟩], 0⟩

/-- Three requests lead there, and the reader is safe. -/
theorem reader_safe_strayRow :
    [.wholeProgram, .oneExpression, .wholeProgram].foldl Request.after
      (.ofTokens strayRow) = strayEnd ∧
      strayEnd.Stands strayRow 2 ∧ SafeFrom strayRow 2 strayEnd := by
  have hfirst : Request.after (.ofTokens strayRow) .wholeProgram = strayEnd := by decide +kernel
  have hprogram : Request.after strayEnd .wholeProgram = strayEnd := by decide +kernel
  have hexpression : Request.after strayEnd .oneExpression = strayEnd := by decide +kernel
  have hrow : Cursor.terminated strayRow =
      [⟨.newline, "\n", .start⟩, ⟨.boolean true, "true", ⟨2, 1, 1⟩⟩] ++ strayEnd.row := by
    decide +kernel
  have hstands : strayEnd.Stands strayRow 2 := Cursor.stands_of_split hrow (by simp)
  refine ⟨?_, hstands, (reader_safe strayRow).2 2 strayEnd hstands⟩
  rw [List.foldl_cons, hfirst, List.foldl_cons, hexpression,
    List.foldl_cons, hprogram, List.foldl_nil]

end Requests

end Colloquy
