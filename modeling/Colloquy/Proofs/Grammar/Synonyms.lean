import Colloquy.Proofs.Grammar.Asking

/-!
# Statements with the same meaning

A variable is assigned to with `set`, `remember`, `var` or `store`, and changed with `increase` or
`add`, and `decrease` or `subtract`. All wordings of a change are read as the same statement,
whatever the value is.
-/

namespace Colloquy

open Grammar Production List

/-- What a statement does to a variable with a value. -/
inductive Update where
  | assign
  | increase
  | decrease

/-- The statement that makes a change. -/
def Update.statement : Update → String → Scope → Expr → Nat → Stmt
  | .assign => .assign
  | .increase => .increase
  | .decrease => .decrease

/-- The variable stands in front of the value. -/
def Wording.leading (keyword : Keyword) (place : List TokenKind) (link : Keyword) : Wording :=
  ⟨.keyword keyword, place ++ [.keyword link], []⟩

/-- The variable stands after the value. -/
def Wording.trailing (keyword link : Keyword) (place : List TokenKind) : Wording :=
  ⟨.keyword keyword, [], .keyword link :: place⟩

/-- The wordings of a change of the variable with this name. -/
def Update.wordings (place : List TokenKind) : Update → List Wording
  | .assign => [.leading .set place .to, .leading .remember place .as, .leading .var place .as,
    .trailing .store .inWord place]
  | .increase => [.leading .increase place .byWord, .trailing .add .to place]
  | .decrease => [.leading .decrease place .byWord, .trailing .subtract .fromWord place]

/-- The cursor behind a statement that ends here. -/
def Cursor.afterStatement (m : Cursor) : Cursor := if m.here.kind = .newline then m.next else m

namespace Production

variable {α β : Type} {p : Production α} {a : α} {b : β} {m : Cursor} {t : Token}
  {ts us : List Token} {kind : TokenKind}

/-- A production reads these tokens and the end of the statement after them. -/
def Concludes (p : Production α) (ts : List Token) (a : α) (m : Cursor) : Prop :=
  p.run (m.before ts) = (.ok a, m.afterStatement)

namespace Concludes

variable {f : α → Production β}

lemma bind (h : Yields p ts a (m.before us)) (h' : Concludes (f a) us b m) :
    Concludes (p >>= f) (ts ++ us) b m := by
  unfold Yields at h
  unfold Concludes at h' ⊢
  rw [Cursor.before_append, run_bind, h]
  exact h'

lemma map {f : α → β} (h : Concludes p ts a m) :
    Concludes (p >>= fun a => Pure.pure (f a)) ts (f a) m := by
  unfold Concludes at h ⊢
  rw [run_bind, h]
  rfl

lemma take [hp : kind.Passable] {f : Token → Production β} (hk : t.kind = kind)
    (h : Concludes (f t) ts b m) :
    Concludes (Production.take >>= f) (t :: ts) b m := .bind (Yields.take_one hk) h

lemma require [hp : kind.Passable] {what : String} {f : Token → Production β} (hk : t.kind = kind)
    (h : Concludes (f t) ts b m) : Concludes (Production.require kind what >>= f) (t :: ts) b m :=
  .bind (Yields.require_one hk) h

lemma ended {f : Unit → α} (hend : m.here.kind ∈ [TokenKind.newline, .eof, .dedent]) :
    Concludes (endOfStatement >>= fun u => Pure.pure (f u)) [] (f ()) m := by
  change run (endOfStatement >>= _) m = _
  rw [run_bind, endOfStatement_run hend]
  rfl

lemma value (h : Yields p ts a m) (h' : Concludes (f a) [] b m) : Concludes (p >>= f) ts b m := by
  rw [← append_nil ts]
  exact .bind h h'

end Concludes

end Production

namespace Grammar

variable {tokens room level : Nat} {m : Cursor} {phrase fs bs xs : List Token}
  {keyword word : Token} {e : Expr} {scope : Scope} {target : String} {α : Type} {a : α}

/-- What can follow the value: the end of the statement, or a word before the variable. -/
def valueEnds : List TokenKind :=
  [.newline, .eof, .dedent, .keyword .inWord, .keyword .to, .keyword .fromWord]

/-- An expression ends before any of these. -/
lemma follows_value (hm : m.here.kind ∈ valueEnds)
    (hlast : ∀ t ∈ phrase.getLast?, t.kind.opensArguments = false) :
    Follows level phrase m := by
  have hends : ∀ kind ∈ valueEnds,
      kind.trails = false ∧ joint kind = none ∧ kind ≠ .symbol .comma := by decide
  obtain ⟨htrails, hjoint, hcomma⟩ := hends _ hm
  have hquits {level : Nat} : m.Quits level := ⟨htrails, .inl (stops_of_joint_none hjoint)⟩
  have hquiet : m.Quiet := ⟨hcomma, hquits.seesAnd (Nat.zero_le 1)⟩
  refine ⟨hquits, fun _ => hquiet, fun _ => ⟨hquits, hquiet⟩, ?_⟩
  rintro ⟨t, ht, hopens⟩
  cases (hlast t ht).symm.trans hopens

/-- A value ends where its wording goes on. -/
lemma Wording.follows {update : Update} {place : List TokenKind} {w : Wording}
    (hw : w ∈ update.wordings place) (hback : bs.map Token.kind = w.back)
    (hend : m.here.kind ∈ [TokenKind.newline, .eof, .dedent]) :
    (m.before bs).here.kind ∈ valueEnds := by
  have hleading {first link : Keyword} (h : w = .leading first place link) :
      (m.before bs).here.kind ∈ valueEnds := by
    subst h
    obtain rfl := map_eq_nil_iff.mp hback
    exact mem_append_left _ hend
  have htrailing {first link : Keyword} (h : w = .trailing first link place)
    (hlink : .keyword link ∈ valueEnds) : (m.before bs).here.kind ∈ valueEnds := by
    subst h
    obtain ⟨word, xs, rfl, hword, _⟩ := map_eq_cons_iff.mp hback
    change word.kind ∈ valueEnds
    rwa [hword]
  cases update with
  | assign =>
    simp only [Update.wordings, mem_cons, not_mem_nil, or_false] at hw
    rcases hw with hw | hw | hw | hw
    · exact hleading hw
    · exact hleading hw
    · exact hleading hw
    · exact htrailing hw (by decide)
  | increase | decrease =>
    simp only [Update.wordings, mem_cons, not_mem_nil, or_false] at hw
    rcases hw with hw | hw
    · exact hleading hw
    · exact htrailing hw (by decide)

section Wordings

/-- The variable is read with the word for its scope. -/
lemma scoped_concludes {what : String} {f : Scope → String → Production α}
    (hxs : xs.map Token.kind = scope.kinds ++ [.identifier target])
    (h : Concludes (f scope target) bs a m) :
    Concludes (scopeMark >>= fun scope => name what >>= f scope) (xs ++ bs) a m := by
  have hpair : (scopeMark >>= fun scope => name what >>= f scope) =
      (do
        let scope ← scopeMark
        let target ← name what
        return (scope, target)) >>= fun x => f x.1 x.2 := by
    simp only [bind_assoc]
    rfl
  rw [hpair]
  exact .bind (scoped_yields hxs) h

variable (hxs : xs.map Token.kind = scope.kinds ++ [.identifier target])
  (hend : m.here.kind ∈ [TokenKind.newline, .eof, .dedent]) {first : Keyword}

include hxs hend

/-- An assignment with the value at its end is read. -/
lemma assignment_concludes (hk : keyword.kind = .keyword first)
    (hword : word.kind = .keyword (if first = .set then .to else .as))
    (hvalue : Yields (value tokens room) phrase e m) :
    Concludes (assignment tokens room) (keyword :: (xs ++ word :: phrase))
    (.assign target scope e keyword.line) m := by
  refine .take hk (scoped_concludes hxs ?_)
  have hrest :
    Concludes (lastValue tokens room fun value => .assign target scope value keyword.line) phrase
      (.assign target scope e keyword.line) m := .value hvalue (.ended hend)
  dsimp only
  rw [hk]
  by_cases hset : first = .set
  · rw [if_pos hset] at hword
    rw [if_pos (congrArg TokenKind.keyword hset)]
    exact .require hword hrest
  · rw [if_neg hset] at hword
    rw [if_neg fun h => hset (TokenKind.keyword.inj h)]
    exact .require hword hrest

/-- A change with `by` concludes. -/
lemma adjustment_concludes (hk : keyword.kind = .keyword first)
    (hword : word.kind = .keyword .byWord) (hvalue : Yields (value tokens room) phrase e m) :
    Concludes (adjustment tokens room) (keyword :: (xs ++ word :: phrase))
      (if first = .increase then .increase target scope e keyword.line
        else .decrease target scope e keyword.line) m := by
  have htarget :
      Concludes (targetByAmount tokens room) (xs ++ word :: phrase) (target, scope, e) m :=
    scoped_concludes hxs (.require hword (.value hvalue (.ended hend)))
  have hrest := htarget.map (f := fun x => if keyword.kind = .keyword .increase
    then Stmt.increase x.1 x.2.1 x.2.2 keyword.line else Stmt.decrease x.1 x.2.1 x.2.2 keyword.line)
  simp only [hk, TokenKind.keyword.injEq] at hrest
  refine .take hk ?_
  simp only [hk, TokenKind.keyword.injEq]
  exact hrest

/-- A change with the variable at its end is read. -/
lemma accumulation_concludes (hk : keyword.kind = .keyword first)
    (hword : word.kind = .keyword (if first = .add then .to else .fromWord))
    (hvalue : Yields (value tokens room) phrase e (m.before (word :: xs))) :
    Concludes (accumulation tokens room) (keyword :: (phrase ++ word :: xs))
      (if first = .add then .increase target scope e keyword.line
        else .decrease target scope e keyword.line) m := by
  refine .take hk (.bind hvalue ?_)
  have hrest : Concludes (lastTarget fun scope target => if keyword.kind = .keyword .add
        then .increase target scope e keyword.line else .decrease target scope e keyword.line) xs
      (if first = .add then .increase target scope e keyword.line
        else .decrease target scope e keyword.line) m := by
    rw [← append_nil xs]
    refine scoped_concludes hxs ?_
    simp only [hk, TokenKind.keyword.injEq]
    exact .ended hend
  dsimp only
  by_cases hadd : first = .add
  · rw [if_pos hadd] at hword
    rw [if_pos (hk.trans (congrArg TokenKind.keyword hadd))]
    exact .require hword hrest
  · rw [if_neg hadd] at hword
    rw [if_neg fun h => hadd (TokenKind.keyword.inj (hk.symm.trans h))]
    exact .require hword hrest

lemma storing_concludes (hk : keyword.kind = .keyword .store) (hword : word.kind = .keyword .inWord)
    (hvalue : Yields (value tokens room) phrase e (m.before (word :: xs))) :
    Concludes (storing tokens room) (keyword :: (phrase ++ word :: xs))
    (.assign target scope e keyword.line) m := by
  refine .take hk (.bind hvalue (.require hword ?_))
  rw [← append_nil xs]
  exact scoped_concludes hxs (.ended hend)

end Wordings

section Statements

variable {p : Production Stmt} {s : Stmt} {first link : Keyword} {place : List TokenKind}

/-- So does a wording with its target first. -/
lemma leading_concludes (hfront : fs.map Token.kind = (Wording.leading first place link).front)
    (hback : bs.map Token.kind = (Wording.leading first place link).back)
    (h : ∀ {xs word}, xs.map Token.kind = place → word.kind = .keyword link →
      Yields (value tokens room) phrase e m → Concludes p (keyword :: (xs ++ word :: phrase)) s m)
    (hvalue : Yields (value tokens room) phrase e (m.before bs)) :
    Concludes p (keyword :: (fs ++ (phrase ++ bs))) s m := by
  obtain rfl := map_eq_nil_iff.mp hback
  obtain ⟨xs, words, rfl, hxs, hwords⟩ := map_eq_append_iff.mp hfront
  obtain ⟨word, last, rfl, hword, hlast⟩ := map_eq_cons_iff.mp hwords
  obtain rfl := map_eq_nil_iff.mp hlast
  rw [append_nil, append_assoc]
  exact h hxs hword hvalue

lemma trailing_concludes (hfront : fs.map Token.kind = (Wording.trailing first link place).front)
    (hback : bs.map Token.kind = (Wording.trailing first link place).back)
    (h : ∀ {xs word}, xs.map Token.kind = place → word.kind = .keyword link →
      Yields (value tokens room) phrase e (m.before (word :: xs)) →
      Concludes p (keyword :: (phrase ++ word :: xs)) s m)
    (hvalue : Yields (value tokens room) phrase e (m.before bs)) :
    Concludes p (keyword :: (fs ++ (phrase ++ bs))) s m := by
  obtain rfl := map_eq_nil_iff.mp hfront
  obtain ⟨word, xs, rfl, hword, hxs⟩ := map_eq_cons_iff.mp hback
  exact h hxs hword hvalue

end Statements

section Dispatch

variable {c : Cursor} {first : Keyword} (hk : c.here.kind = .keyword first)

include hk

lemma statementAt_run_assignment (hfirst : first ∈ [Keyword.set, .remember, .var]) :
    (statementAt tokens room).run c = (assignment tokens room).run c := by
  rw [run_statementAt hk]
  simp only [mem_cons, not_mem_nil, or_false] at hfirst
  rcases hfirst with rfl | rfl | rfl <;> rfl

lemma statementAt_run_accumulation (hfirst : first ∈ [Keyword.add, .subtract]) :
    (statementAt tokens room).run c = (accumulation tokens room).run c := by
  rw [run_statementAt hk]
  simp only [mem_cons, not_mem_nil, or_false] at hfirst
  rcases hfirst with rfl | rfl <;> rfl

lemma statementAt_run_adjustment (hfirst : first ∈ [Keyword.increase, .decrease]) :
    (statementAt tokens room).run c = (adjustment tokens room).run c := by
  rw [run_statementAt hk]
  simp only [mem_cons, not_mem_nil, or_false] at hfirst
  rcases hfirst with rfl | rfl <;> rfl

lemma statementAt_run_storing (hfirst : first = .store) :
    (statementAt tokens room).run c = (storing tokens room).run c := by
  rw [run_statementAt hk, hfirst]
  rfl

end Dispatch

/-- Whatever the value is, the wordings of a change are read as the same statement: `set x to`,
`remember x as` and `var x as` in front of it, or `store` in front of it and `in x` after it, and
likewise for increases and decreases. -/
theorem statementAt_wording {update : Update} {w : Wording}
    (hw : w ∈ update.wordings (scope.kinds ++ [.identifier target]))
    (he : Standalone (value · room) phrase e)
    (hlast : ∀ t ∈ phrase.getLast?, t.kind.opensArguments = false)
    (hkeyword : keyword.kind = w.first) (hfront : fs.map Token.kind = w.front)
    (hback : bs.map Token.kind = w.back) (hend : m.here.kind ∈ [TokenKind.newline, .eof, .dedent])
    (htokens : (keyword :: (fs ++ (phrase ++ bs))).length + m.remaining < tokens) :
    (statementAt tokens room).run (m.before (keyword :: (fs ++ (phrase ++ bs)))) =
      (.ok (update.statement target scope e keyword.line), m.afterStatement) := by
  have hvalue : Yields (value tokens room) phrase e (m.before bs) := by
    refine he.value (follows_value (Wording.follows hw hback hend) hlast) ?_
    rw [Cursor.remaining_before]
    simp only [List.length_cons, List.length_append] at htokens
    omega
  cases update with
  | assign =>
    simp only [Update.wordings, List.mem_cons, List.not_mem_nil, or_false] at hw
    rcases hw with rfl | rfl | rfl | rfl
    · rw [statementAt_run_assignment hkeyword (.head _)]
      exact leading_concludes hfront hback (fun hxs =>
        assignment_concludes hxs hend hkeyword) hvalue
    · rw [statementAt_run_assignment hkeyword (.tail _ (.head _))]
      exact leading_concludes hfront hback (fun hxs =>
        assignment_concludes hxs hend hkeyword) hvalue
    · rw [statementAt_run_assignment hkeyword (.tail _ (.tail _ (.head _)))]
      exact leading_concludes hfront hback (fun hxs =>
        assignment_concludes hxs hend hkeyword) hvalue
    · rw [statementAt_run_storing hkeyword rfl]
      exact trailing_concludes hfront hback (fun hxs => storing_concludes hxs hend hkeyword) hvalue
  | increase =>
    simp only [Update.wordings, List.mem_cons, List.not_mem_nil, or_false] at hw
    rcases hw with rfl | rfl
    · rw [statementAt_run_adjustment hkeyword (.head _)]
      exact leading_concludes hfront hback (fun hxs =>
        adjustment_concludes hxs hend hkeyword) hvalue
    · rw [statementAt_run_accumulation hkeyword (.head _)]
      exact trailing_concludes hfront hback (fun hxs =>
        accumulation_concludes hxs hend hkeyword) hvalue
  | decrease =>
    simp only [Update.wordings, List.mem_cons, List.not_mem_nil, or_false] at hw
    rcases hw with rfl | rfl
    · rw [statementAt_run_adjustment hkeyword (.tail _ (.head _))]
      exact leading_concludes hfront hback (fun hxs =>
        adjustment_concludes hxs hend hkeyword) hvalue
    · rw [statementAt_run_accumulation hkeyword (.tail _ (.head _))]
      exact trailing_concludes hfront hback (fun hxs =>
        accumulation_concludes hxs hend hkeyword) hvalue

/-- The value is a condition that ends in a call of a list, and `to` belongs to none of them. -/
theorem statementAt_wording_add :
    let row : List TokenKind → List Token := List.map fun kind => ⟨kind, "", .start⟩
    let phrase :=
      row [.identifier "y", .keyword .is, .keyword .not, .keyword .equal, .identifier "z",
      .keyword .divided, .identifier "w", .keyword .or,
      .identifier "f", .keyword .usingWord, .keyword .list,
      .keyword .of, .identifier "a", .symbol .comma, .identifier "b"]
    let e : Expr := .binary .or
      (.binary .notEqual (.identifier "y" .plain 1)
        (.binary .divide (.identifier "z" .plain 1) (.identifier "w" .plain 1) 1) 1)
      (.call "f" [.list [.literal (.text "a") 1, .literal (.text "b") 1] 1] 1) 1
    let k : Cursor := ⟨⟨.newline, "", .start⟩, row [.eof], 0⟩
    let add : Token := ⟨.keyword .add, "add", .start⟩
    let target := row [.keyword .to, .keyword .global, .identifier "x"]
    Standalone (value · 3) phrase e ∧
      (statementAt 30 3).run (k.before (add :: (phrase ++ target))) =
        (.ok (.increase "x" .global e 1), k.next) := by
  intro row phrase e k add target
  have hreads : Yields (value 20 3) phrase e k := by
    unfold Yields
    cbv
  have hw : Wording.trailing .add .to [.keyword .global, .identifier "x"] ∈
      Update.increase.wordings (Scope.global.kinds ++ [.identifier "x"]) := .tail _ (.head _)
  have hlast : ∀ t ∈ phrase.getLast?, t.kind.opensArguments = false := by
    rintro t ⟨⟩
    rfl
  have halone : Standalone (value · 3) phrase e :=
    ⟨20, ⟨k, .inl ⟨rfl, List.cons_ne_nil _ _⟩⟩, by decide, hreads⟩
  have hrun := statementAt_wording (m := k) hw halone hlast
    (show add.kind = _ from rfl) (show ([] : List Token).map Token.kind = _ from rfl)
    (show target.map Token.kind = _ from rfl) (by decide) (show _ < 30 by decide)
  exact ⟨halone, hrun⟩

end Grammar

end Colloquy
