import Colloquy.Proofs.Grammar.Parts
import Colloquy.Proofs.Grammar.Printing

/-!
# Reading the line of a statement

What a statement is read from depends only on the marks of its tokens (`Production.YieldsAll`). Each
kind of statement is read from its first line and whatever its blocks are read from.
-/

namespace Colloquy

open Grammar Production List Colloquy.Expr Cursor Token

section OneLine

/-- All marks are on this line. -/
def OnLine (n : Nat) (marks : List Mark) : Prop := ∀ m ∈ marks, m.2 = n

variable {n : Nat} {marks more : List Mark}

lemma OnLine.nil : OnLine n [] := forall_mem_nil _

lemma OnLine.cons {kind : TokenKind} (h : OnLine n marks) : OnLine n ((kind, n) :: marks) :=
  forall_mem_cons.2 ⟨rfl, h⟩

lemma OnLine.append (h : OnLine n marks) (h' : OnLine n more) : OnLine n (marks ++ more) :=
  forall_mem_append.2 ⟨h, h'⟩

lemma OnLine.enclosed {needed : Bool} (h : OnLine n marks) :
    OnLine n (enclosed needed n marks) := by
  cases needed with
  | false => exact h
  | true => exact (h.append OnLine.nil.cons).cons

/-- Marks of one line are told by their kinds. -/
lemma OnLine.marksOn_kinds (h : OnLine n marks) : marksOn n (marks.map Prod.fst) = marks := by
  unfold marksOn
  rw [map_map]
  refine (map_congr_left fun m hm => ?_).trans (map_id marks)
  exact Prod.ext rfl (h m hm).symm

mutual

/-- What is printed of an expression on one line is on that line. -/
lemma Expr.onLine_render (style : Style) (n : Nat) :
    ∀ (e : Expr) (level : Nat), OnLine n ((e.onLine n).render style level)
  | .literal value line, level => OnLine.nil.cons
  | .identifier name .plain line, level => OnLine.nil.cons
  | .identifier name .global line, level => OnLine.nil.cons.cons
  | .binary op left right line, level =>
    ((onLine_render style n left _).append (onLine_render style n right _).cons).enclosed
  | .unary op operand line, level => (onLine_render style n operand _).cons.enclosed
  | .call callee args line, level =>
    ((onLine_renderItems style n args).append OnLine.nil.cons).cons.cons
  | .member object property line, level => by
    have hobject := onLine_render style n object postfixLevel
    unfold Expr.onLine at hobject ⊢
    rw [Expr.mapLine, Expr.render]
    split
    · exact hobject.append OnLine.nil.cons.cons
    · exact hobject.append ((onLine_render style n property 0).append OnLine.nil.cons).cons
  | .list elements line, level =>
    ((onLine_renderItems style n elements).append OnLine.nil.cons).cons
  | .record fields line, level =>
    ((onLine_renderFields style n fields).append OnLine.nil.cons).cons

lemma Expr.onLine_renderItems (style : Style) (n : Nat) : ∀ es : List Expr,
    OnLine n (Expr.renderItems style n (Expr.mapLines (fun _ => n) es))
  | [] => OnLine.nil
  | e :: es => (onLine_render style n e 0).append (onLine_renderMore style n es)

lemma Expr.onLine_renderMore (style : Style) (n : Nat) : ∀ es : List Expr,
    OnLine n (Expr.renderMore style n (Expr.mapLines (fun _ => n) es))
  | [] => OnLine.nil
  | e :: es => ((onLine_render style n e 0).append (onLine_renderMore style n es)).cons

lemma Expr.onLine_renderFields (style : Style) (n : Nat) : ∀ fields : List (String × Expr),
    OnLine n (Expr.renderFields style n (Expr.mapFields (fun _ => n) fields))
  | [] => OnLine.nil
  | (_, e) :: fields =>
    ((onLine_render style n e 0).append (onLine_renderMoreFields style n fields)).cons.cons

lemma Expr.onLine_renderMoreFields (style : Style) (n : Nat) : ∀ fields : List (String × Expr),
    OnLine n (Expr.renderMoreFields style n (Expr.mapFields (fun _ => n) fields))
  | [] => OnLine.nil
  | (_, e) :: fields =>
    ((onLine_render style n e 0).append (onLine_renderMoreFields style n fields)).cons.cons.cons

end

lemma Expr.marksOn_kinds (e : Expr) : marksOn n (e.kinds n) = (e.onLine n).render .full 0 :=
  (onLine_render .full n e 0).marksOn_kinds

lemma Expr.line_onLine (e : Expr) : (e.onLine n).line = n := by
  cases e <;> rfl

lemma Expr.isCall_onLine (e : Expr) : (e.onLine n).isCall = e.isCall := by
  cases e <;> rfl

/-- A printed expression begins with a token that begins one. -/
lemma Expr.kinds_head (e : Expr) :
    ∃ kind kinds, e.kinds n = kind :: kinds ∧ beginsExpression kind = true := by
  -- a token for each mark, of which only the kind and the line matter
  let token (m : Mark) : Token := ⟨m.1, "", { Position.start with line := m.2 }⟩
  have htokens :
      (((e.onLine n).render .full 0).map token).map Token.mark = (e.onLine n).render .full 0 := by
    rw [map_map]
    exact map_id _
  obtain ⟨t, us, hts, ht, _⟩ := ((e.onLine n).rendered .full 0 _ htokens).head
  refine ⟨t.kind, us.map Token.kind, ?_, ht⟩
  have hkinds := congrArg (List.map Token.kind) hts
  rw [map_map] at hkinds
  exact hkinds

end OneLine

namespace Cursor

variable {k : Cursor} {ts : List Token} {marks : List Mark}

/-- The kind of the token at which some marks in front of a cursor begin. -/
def headKind (k : Cursor) : List Mark → TokenKind
  | [] => k.here.kind
  | m :: _ => m.1

lemma kind_before (h : ts.map Token.mark = marks) : (k.before ts).here.kind = k.headKind marks := by
  subst h
  cases ts <;> rfl

lemma depth_before : (k.before ts).depth = k.depth := by
  cases ts <;> rfl

lemma remaining_marked (h : ts.map Token.mark = marks) :
    (k.before ts).remaining = marks.length + k.remaining := by
  rw [remaining_before, ← h, length_map]

end Cursor

namespace Production

variable {α β σ : Type} {p : Production α} {a : α} {b : β} {k : Cursor} {n : Nat}
  {marks more : List Mark} {kind : TokenKind}

/-- A production reads all tokens with these marks and makes this of them. -/
def YieldsAll (p : Production α) (marks : List Mark) (a : α) (k : Cursor) : Prop :=
  ∀ ts, ts.map Token.mark = marks → Yields p ts a k

namespace YieldsAll

variable {f : α → Production β} {what word : String} {rounds : Nat}
  {step : σ → Production (Option σ)} {s s' : σ}

lemma pure : YieldsAll (Pure.pure a) [] a k := by
  intro ts hts
  obtain rfl := map_eq_nil_iff.1 hts
  exact .pure

/-- A phrase of two parts is read part by part. -/
lemma bind (h : ∀ us, us.map Token.mark = more → YieldsAll p marks a (k.before us))
    (h' : YieldsAll (f a) more b k) : YieldsAll (p >>= f) (marks ++ more) b k := by
  intro ts hts
  obtain ⟨us, vs, rfl, hus, hvs⟩ := map_mark_append hts
  exact (h vs hvs us hus).bind (h' vs hvs)

lemma pure_bind (h : YieldsAll (f a) marks b k) : YieldsAll (Pure.pure a >>= f) marks b k := h

lemma last (h : YieldsAll p marks a k) (h' : YieldsAll (f a) [] b k) :
    YieldsAll (p >>= f) marks b k := by
  intro ts hts
  have hbind : Yields (p >>= f) (ts ++ []) b k := (h ts hts).bind (h' [] rfl)
  rwa [append_nil] at hbind

lemma still (h : ∀ ts, ts.map Token.mark = marks → p.run (k.before ts) = (.ok a, k.before ts))
    (h' : YieldsAll (f a) marks b k) : YieldsAll (p >>= f) marks b k :=
  fun ts hts => .still (h ts hts) (h' ts hts)

lemma cursor {f : Cursor → Production β}
    (h : ∀ c, c.here.kind = k.headKind marks → c.depth = k.depth → YieldsAll (f c) marks b k) :
    YieldsAll (Production.cursor >>= f) marks b k := by
  intro ts hts
  exact .cursor (h _ (kind_before hts) depth_before ts hts)

lemma take [kind.Passable] {f : Token → Production β}
    (h : ∀ t, t.kind = kind → t.line = n → YieldsAll (f t) marks b k) :
    YieldsAll (Production.take >>= f) ((kind, n) :: marks) b k := by
  intro ts hts
  obtain ⟨t, us, rfl, ht, hn, hus⟩ := map_mark_cons hts
  exact .take ht (h t ht hn us hus)

lemma require [kind.Passable] {f : Token → Production β} (h : ∀ t, YieldsAll (f t) marks b k) :
    YieldsAll (Production.require kind what >>= f) ((kind, n) :: marks) b k := by
  intro ts hts
  obtain ⟨t, us, rfl, ht, hn, hus⟩ := map_mark_cons hts
  exact .require ht (h t us hus)

lemma accept [kind.Passable] {f : Bool → Production β} (h : YieldsAll (f true) marks b k) :
    YieldsAll (Production.accept kind >>= f) ((kind, n) :: marks) b k := by
  intro ts hts
  obtain ⟨t, us, rfl, ht, hn, hus⟩ := map_mark_cons hts
  exact .accept ht (h us hus)

lemma accept_ne {f : Bool → Production β} (hk : k.headKind marks ≠ kind)
    (h : YieldsAll (f false) marks b k) :
    YieldsAll (Production.accept kind >>= f) marks b k := by
  intro ts hts
  refine .accept_ne ?_ (h ts hts)
  rwa [kind_before hts]

lemma name {f : String → Production β} (h : YieldsAll (f word) marks b k) :
    YieldsAll (Production.name what >>= f) ((.identifier word, n) :: marks) b k := by
  intro ts hts
  obtain ⟨t, us, rfl, ht, hn, hus⟩ := map_mark_cons hts
  exact .name ht (h us hus)

lemma name_last : YieldsAll (Production.name what) [(.identifier word, n)] word k := by
  intro ts hts
  obtain ⟨t, us, rfl, ht, hn, hus⟩ := map_mark_cons hts
  obtain rfl := map_eq_nil_iff.1 hus
  exact Yields.name_last ht

lemma skipAll {kinds : List TokenKind} {f : Unit → Production β}
    (hk : kinds.contains (k.headKind marks) = false) (h : YieldsAll (f ()) marks b k) :
    YieldsAll (Production.skipAll kinds rounds >>= f) marks b k := by
  intro ts hts
  refine .skipAll ?_ (h ts hts)
  rwa [kind_before hts]

/-- A loop reads what its first round and the rest of it read. -/
lemma iterate_some {s'' : σ} (h : ∀ us, us.map Token.mark = more →
    YieldsAll (step s) marks (some s') (k.before us))
    (h' : YieldsAll (iterate step rounds s') more s'' k) :
    YieldsAll (iterate step (rounds + 1) s) (marks ++ more) s'' k := by
  intro ts hts
  obtain ⟨us, vs, rfl, hus, hvs⟩ := map_mark_append hts
  exact .iterate_some (h vs hvs us hus) (h' vs hvs)

lemma iterate_none (h : (step s).run k = (.ok none, k)) :
    YieldsAll (iterate step rounds s) [] s k := by
  intro ts hts
  obtain rfl := map_eq_nil_iff.1 hts
  exact .iterate_none h

/-- A loop may read a single round. -/
lemma iterate_once (h : YieldsAll (step s) marks (some s') k)
    (h' : (step s').run k = (.ok none, k)) :
    YieldsAll (iterate step (rounds + 1) s) marks s' k := by
  intro ts hts
  have hloop : Yields (iterate step (rounds + 1) s) (ts ++ []) s' k :=
    .iterate_some (h ts hts) (.iterate_none h')
  rwa [append_nil] at hloop

end YieldsAll

end Production

section Rows

variable {n : Nat} {kinds kinds' : List TokenKind}

lemma rowMarks_append : rowMarks n (kinds ++ kinds') = marksOn n kinds ++ rowMarks n kinds' := by
  simp [rowMarks, marksOn]

/-- With these marks in front there are fewer tokens left than this. -/
def Fits (tokens : Nat) (marks : List Mark) (k : Cursor) : Prop :=
  marks.length + k.remaining < tokens

variable {tokens : Nat} {k : Cursor} {m : Mark} {marks more : List Mark} {us : List Token}

lemma Fits.tail (h : Fits tokens (m :: marks) k) : Fits tokens marks k := by
  unfold Fits at h ⊢
  rw [length_cons] at h
  omega

lemma Fits.after (h : Fits tokens (marks ++ more) k) : Fits tokens more k := by
  unfold Fits at h ⊢
  rw [length_append] at h
  omega

lemma Fits.before (h : Fits tokens (marks ++ more) k) (hus : us.map Token.mark = more) :
    Fits tokens marks (k.before us) := by
  unfold Fits at h ⊢
  rw [length_append] at h
  rw [remaining_marked hus]
  omega

lemma Fits.after_row (h : Fits tokens (rowMarks n (kinds ++ kinds')) k) :
    Fits tokens (rowMarks n kinds') k :=
  Fits.after (rowMarks_append ▸ h)

end Rows

section Phrases

variable {β : Type} {tokens room n : Nat} {k : Cursor} {marks : List Mark} {b : β}

/-- An expression is read from the marks it is printed with. -/
lemma Expr.yieldsAll {f : Expr → Production β} (e : Expr)
    (hroom : (e.onLine n).nesting .full 0 < room)
    (htokens : Fits tokens (marksOn n (e.kinds n) ++ marks) k)
    (hk : joint (k.headKind marks) = none) (h : YieldsAll (f (e.onLine n)) marks b k) :
    YieldsAll (value tokens room >>= f) (marksOn n (e.kinds n) ++ marks) b k := by
  refine .bind (fun us hus ts hts => ?_) h
  rw [e.marksOn_kinds] at hts
  refine ((e.onLine n).rendered .full 0 ts hts).reads hroom ?_ (stops_of_joint_none ?_)
  · rw [e.marksOn_kinds] at htokens
    rw [remaining_marked hts]
    exact htokens.before hus
  · rw [kind_before hus]
    exact hk

lemma Expr.begins (e : Expr) :
    beginsExpression (k.headKind (marksOn n (e.kinds n) ++ marks)) = true := by
  obtain ⟨kind, kinds, hkinds, hkind⟩ := e.kinds_head
  rw [hkinds]
  exact hkind

lemma ne_of_begins {kind other : TokenKind} (h : beginsExpression kind = true)
    (hother : beginsExpression other = false) :
    kind ≠ other := by
  rintro rfl
  cases h.symm.trans hother

lemma sees_of_begins {c : Cursor} {kind : TokenKind} (h : beginsExpression c.here.kind = true)
    (hkind : beginsExpression kind = false) : c.sees kind = false :=
  decide_eq_false (ne_of_begins h hkind)

lemma endOfStatement_yieldsAll {f : Unit → Production β} (h : YieldsAll (f ()) marks b k) :
    YieldsAll (endOfStatement >>= f) ((.newline, n) :: marks) b k := by
  have hend (us : List Token) : YieldsAll endOfStatement [(.newline, n)] () (k.before us) := by
    unfold endOfStatement
    exact .accept .pure
  exact .bind (fun us _ => hend us) h

lemma Expr.yieldsAll_last {f : Expr → Stmt} (e : Expr) (hroom : (e.onLine n).nesting .full 0 < room)
    (htokens : Fits tokens (rowMarks n (e.kinds n)) k) :
    YieldsAll (lastValue tokens room f) (rowMarks n (e.kinds n)) (f (e.onLine n)) k :=
  e.yieldsAll hroom htokens rfl (endOfStatement_yieldsAll .pure)

/-- A target is read with the word for its scope. -/
lemma Scope.yieldsAll {what target : String} {f : Scope → String → Production β}
    {kinds : List TokenKind} (scope : Scope)
    (h : YieldsAll (f scope target) (rowMarks n kinds) b k) :
    YieldsAll (scopeMark >>= fun scope => name what >>= f scope)
      (rowMarks n (scope.kinds ++ .identifier target :: kinds)) b k := by
  rw [rowMarks_append]
  refine .bind (fun us hus => ?_) (.name h)
  unfold scopeMark
  cases scope with
  | plain =>
    refine .accept_ne ?_ .pure
    change (k.before us).here.kind ≠ _
    rw [kind_before hus]
    rintro ⟨⟩
  | global => exact .accept .pure

end Phrases

section Lines

variable {tokens room n line : Nat} {inner : InnerStatement}
  {k : Cursor} {kind : TokenKind} {marks : List Mark} {s : Stmt} {target : String}
  {scope : Scope} {e : Expr}

/-- What a statement is depends on its first mark. -/
lemma statement_yieldsAll
    (h : YieldsAll (statementOf tokens room inner kind) ((kind, n) :: marks) s k) :
    YieldsAll (statement tokens room inner) ((kind, n) :: marks) s k := by
  intro ts hts
  exact (run_statement (kind_before hts)).trans (h ts hts)

lemma delete_yieldsAll :
    YieldsAll (statement tokens room inner) (rowMarks n ((Stmt.delete target scope line).header n))
      (.delete target scope n) k := by
  refine statement_yieldsAll (.take fun t ht hn => ?_)
  rw [hn]
  exact scope.yieldsAll (endOfStatement_yieldsAll .pure)

section Values

variable (hroom : (e.onLine n).nesting .full 0 < room)
include hroom

/-- An assignment is read from its line. -/
lemma assign_yieldsAll
    (htokens : Fits tokens (rowMarks n ((Stmt.assign target scope e line).header n)) k) :
    YieldsAll (statement tokens room inner)
    (rowMarks n ((Stmt.assign target scope e line).header n))
      (.assign target scope (e.onLine n) n) k := by
  refine statement_yieldsAll (.take fun t ht hn => scope.yieldsAll ?_)
  rw [if_pos ht, hn]
  exact .require fun _ => e.yieldsAll_last hroom htokens.tail.after_row.tail.tail

/-- A target and an amount are read from their marks. -/
lemma targetByAmount_yieldsAll
    (htokens : Fits tokens
      (rowMarks n (scope.kinds ++ .identifier target :: .keyword .byWord :: e.kinds n)) k) :
    YieldsAll (targetByAmount tokens room)
    (rowMarks n (scope.kinds ++ .identifier target :: .keyword .byWord :: e.kinds n))
      (target, scope, e.onLine n) k :=
  scope.yieldsAll (.require fun _ =>
  e.yieldsAll hroom htokens.after_row.tail.tail rfl (endOfStatement_yieldsAll .pure))

/-- An increase is read from its line. -/
lemma increase_yieldsAll
    (htokens : Fits tokens (rowMarks n ((Stmt.increase target scope e line).header n)) k) :
    YieldsAll (statement tokens room inner)
    (rowMarks n ((Stmt.increase target scope e line).header n))
      (.increase target scope (e.onLine n) n) k := by
  refine statement_yieldsAll (.take fun t ht hn =>
    .last (targetByAmount_yieldsAll hroom htokens.tail) ?_)
  dsimp only
  rw [if_pos ht, hn]
  exact .pure

/-- A decrease is read from its line. -/
lemma decrease_yieldsAll
    (htokens : Fits tokens (rowMarks n ((Stmt.decrease target scope e line).header n)) k) :
    YieldsAll (statement tokens room inner)
    (rowMarks n ((Stmt.decrease target scope e line).header n))
      (.decrease target scope (e.onLine n) n) k := by
  refine statement_yieldsAll (.take fun t ht hn =>
    .last (targetByAmount_yieldsAll hroom htokens.tail) ?_)
  dsimp only
  rw [ht, if_neg (by rintro ⟨⟩), hn]
  exact .pure

/-- A statement that prints is read from its line. -/
lemma print_yieldsAll {endsLine : Bool}
    (htokens : Fits tokens (rowMarks n ((Stmt.print e endsLine line).header n)) k) :
    YieldsAll (statement tokens room inner) (rowMarks n ((Stmt.print e endsLine line).header n))
      (.print (e.onLine n) endsLine n) k := by
  cases endsLine <;>
  · refine statement_yieldsAll (.take fun t ht hn => ?_)
    rw [ht, hn]
    exact e.yieldsAll_last hroom htokens.tail

end Values

/-- A statement that gives back is read from its line. -/
lemma giveBack_yieldsAll {value : Option Expr}
    (hroom : ∀ e ∈ value, (e.onLine n).nesting .full 0 < room)
    (htokens : Fits tokens (rowMarks n ((Stmt.giveBack value line).header n)) k) :
    YieldsAll (statement tokens room inner) (rowMarks n ((Stmt.giveBack value line).header n))
      (.giveBack (value.map (Expr.onLine n)) n) k := by
  cases value with
  | none =>
    refine statement_yieldsAll (.take fun t ht hn => .require fun _ => .cursor fun c hc _ => ?_)
    have hsees : c.sees .newline = true := decide_eq_true hc
    rw [hsees, hn]
    exact .pure_bind (endOfStatement_yieldsAll .pure)
  | some e =>
    refine statement_yieldsAll (.take fun t ht hn => .require fun _ => .cursor fun c hc _ => ?_)
    -- no expression begins with a token that ends a statement
    have hbegins : beginsExpression c.here.kind = true := hc ▸ e.begins
    rw [sees_of_begins hbegins rfl, sees_of_begins hbegins rfl, sees_of_begins hbegins rfl, hn]
    exact e.yieldsAll_last (f := fun e => .giveBack (some e) n) (hroom e rfl) htokens.tail.tail

lemma statement_run_expression {c : Cursor} (h : beginsExpression c.here.kind = true) :
    (statement tokens room inner).run c = (expressionStatement tokens room).run c := by
  unfold statement
  rw [run_cursor_bind]
  generalize c.here.kind = kind at h
  split <;> first | rfl | cases h

/-- An expression is read as a statement. -/
lemma expression_yieldsAll (hroom : (e.onLine n).nesting .full 0 < room)
    (htokens : Fits tokens (rowMarks n (e.kinds n)) k) :
    YieldsAll (statement tokens room inner) (rowMarks n (e.kinds n))
    (ofExpression (e.onLine n)) k := by
  intro ts hts
  have hbegins : beginsExpression (k.before ts).here.kind = true := kind_before hts ▸ e.begins
  exact (statement_run_expression hbegins).trans (e.yieldsAll_last hroom htokens ts hts)

lemma ofExpression_of_not_isCall (h : e.isCall = false) :
    ofExpression e = .expression e e.line := by
  cases e with
  | call => cases h
  | _ => rfl

end Lines

section Blocks

variable {tokens room n last : Nat} {inner : InnerStatement} {k : Cursor}
  {marks more : List Mark} {body : List Stmt} {e : Expr} {kind : TokenKind} {g : Guarded}
  {name : String} {timer : Schedule} {done params : List String}

/-- The cursor inside one more block. -/
def deeper (k : Cursor) : Cursor := { k with depth := k.depth + 1 }

lemma before_deeper {ts : List Token} : (deeper k).before ts = deeper (k.before ts) := by
  cases ts <;> rfl

/-- The marks of a colon at the end of a line, and of the block after it. -/
def colonMarks (n last : Nat) (inner : List Mark) : List Mark :=
  (.symbol .colon, n) :: (.newline, n) :: blockMarks (n + 1) last inner

lemma rowMarks_colon {kinds : List TokenKind} :
    rowMarks n (kinds ++ [.symbol .colon]) ++ blockMarks (n + 1) last marks =
      marksOn n kinds ++ colonMarks n last marks := by
  rw [rowMarks_append, append_assoc]
  rfl

/-- A block is read from what its statements are read from. -/
lemma block_yieldsAll
    (h : ∀ t, t.kind = .dedent →
      YieldsAll (iterate (blockRound tokens inner) tokens []) marks body (deeper (k.before [t]))) :
    YieldsAll (block tokens inner) (colonMarks n last marks) body k := by
  refine .require fun _ => .require fun _ => .skipAll rfl (.require fun _ => ?_)
  intro ts hts
  obtain ⟨us, t, rfl, hus, ht⟩ := map_mark_concat hts
  -- the loop runs inside one more block, which is left again before its end is passed
  have hloop := h t ht us hus
  have hend : Yields (do let _ ← require .dedent "end of block"; return body) [t] body k :=
    .require ht .pure
  unfold Yields at hloop
  rw [before_deeper] at hloop
  unfold Yields
  rw [before_append]
  change run (iterate (blockRound tokens inner) tokens [] >>= _)
    (deeper ((k.before [t]).before us)) = _
  rw [run_bind, hloop]
  exact hend

/-- A block ends where its indentation does. -/
lemma blockRound_none (hk : k.here.kind = .dedent) :
    (blockRound tokens inner body).run k = (.ok none, k) := by
  have hround : Yields (blockRound tokens inner body) [] none k := by
    refine .skipAll ?_ (.cursor ?_)
    · rw [Cursor.before, hk]
      rfl
    · have hsees : (k.before []).sees .dedent = true := decide_eq_true hk
      rw [hsees]
      exact .pure
  exact hround

/-- Whether a statement can begin with a token of this kind. -/
def beginsStatement : TokenKind → Bool
  | .newline | .dedent | .eof | .keyword .elseWord => false
  | _ => true

lemma beginsStatement_of_expression (h : beginsExpression kind = true) :
    beginsStatement kind = true := by
  unfold beginsStatement
  split
  · cases h
  · cases h
  · cases h
  · cases h
  · rfl

lemma ne_of_beginsStatement {other : TokenKind} (h : beginsStatement kind = true)
    (hother : beginsStatement other = false) : kind ≠ other := by
  rintro rfl
  cases h.symm.trans hother

/-- A round of a block reads a statement. -/
lemma blockRound_some {s : Stmt} (hhead : beginsStatement (k.headKind marks) = true)
    (h : YieldsAll inner marks s k) :
    YieldsAll (blockRound tokens inner body) marks (some (body ++ [s])) k := by
  refine .skipAll ?_ (.cursor fun c hc _ => ?_)
  · simpa using ne_of_beginsStatement hhead rfl
  · have hdedent : c.sees .dedent = false := decide_eq_false (hc ▸ ne_of_beginsStatement hhead rfl)
    have heof : c.sees .eof = false := decide_eq_false (hc ▸ ne_of_beginsStatement hhead rfl)
    rw [hdedent, heof]
    exact .last h .pure

section Governed

variable (hroom : (e.onLine n).nesting .full 0 < room)
  (htokens : Fits tokens (marksOn n (e.kinds n) ++ colonMarks n last marks) k)
  (h : YieldsAll (block tokens inner) (colonMarks n last marks) body k)

include hroom htokens h

lemma governed_yieldsAll {α : Type} {f : Expr → List Stmt → α} :
    YieldsAll (governed tokens room inner f) (marksOn n (e.kinds n) ++ colonMarks n last marks)
    (f (e.onLine n) body) k :=
  e.yieldsAll hroom htokens rfl (.last h .pure)

/-- A condition and its block are read together. -/
lemma guarded_yieldsAll : YieldsAll (guarded tokens room inner)
    ((.keyword .ifWord, n) :: (marksOn n (e.kinds n) ++ colonMarks n last marks))
      ⟨e.onLine n, body, n⟩ k := by
  refine .take fun t ht hn => ?_
  rw [hn]
  exact governed_yieldsAll hroom htokens h

lemma while_yieldsAll : YieldsAll (statement tokens room inner)
      ((.keyword .whileWord, n) :: (marksOn n (e.kinds n) ++ colonMarks n last marks))
      (.whileLoop (e.onLine n) body n) k := by
  refine statement_yieldsAll (.take fun t ht hn => ?_)
  rw [ht, if_neg (by rintro ⟨⟩), hn]
  exact governed_yieldsAll hroom htokens h

/-- A loop over items is read from its line and its block. -/
lemma forEach_yieldsAll {item : String} : YieldsAll (statement tokens room inner)
      ((.keyword .forWord, n) :: (.keyword .every, n) ::
        (.identifier item, n) :: (.keyword .inWord, n) ::
        (marksOn n (e.kinds n) ++ colonMarks n last marks))
      (.forEach item (e.onLine n) body n) k := by
  refine statement_yieldsAll (.take fun t ht hn =>
    .accept (.name (.require fun _ => .accept_ne ?_ (.cursor fun c hc _ => ?_))))
  · exact ne_of_begins e.begins rfl
  · have hlist : seesNamedList c = false := by
      have hbegins : beginsExpression c.here.kind = true := hc ▸ e.begins
      unfold seesNamedList
      rw [sees_of_begins hbegins rfl]
      rfl
    rw [hlist, hn]
    exact governed_yieldsAll hroom htokens h

end Governed

/-- A condition without `else if` has no more links. -/
lemma links_none {c : Cursor} (h : seesElseIf c = false) :
    (iterate (linkRound tokens room inner) tokens []).run c = (.ok [], c) := by
  have hround : (linkRound tokens room inner []).run c = (.ok none, c) := by
    unfold linkRound
    rw [run_cursor_bind, h]
    rfl
  have hloop : Yields (iterate (linkRound tokens room inner) tokens []) [] [] c :=
    .iterate_none hround
  exact hloop

/-- A condition without `else` is read from its guard. -/
lemma if_yieldsAll (hk : k.here.kind ≠ .keyword .elseWord)
    (h : YieldsAll (guarded tokens room inner) ((.keyword .ifWord, n) :: marks) g k) :
    YieldsAll (statement tokens room inner) ((.keyword .ifWord, n) :: marks)
    (.ifElse g.condition g.body none g.line) k := by
  refine statement_yieldsAll (.last h ?_)
  refine .still (p := iterate (linkRound tokens room inner) tokens []) (fun ts hts => links_none ?_)
    (.accept_ne hk (.pure_bind .pure))
  have hsees : (k.before ts).sees (.keyword .elseWord) = false := by
    refine decide_eq_false ?_
    rwa [kind_before hts]
  rw [seesElseIf, hsees]
  rfl

/-- A condition with `else` is read from its guard and a block. -/
lemma ifElse_yieldsAll {m : Nat}
    (hguard : ∀ us, us.map Token.mark = (.keyword .elseWord, m) :: colonMarks m last more →
      YieldsAll (guarded tokens room inner) ((.keyword .ifWord, n) :: marks) g (k.before us))
    (h : YieldsAll (block tokens inner) (colonMarks m last more) body k) :
    YieldsAll (statement tokens room inner)
      ((.keyword .ifWord, n) :: (marks ++ (.keyword .elseWord, m) :: colonMarks m last more))
      (.ifElse g.condition g.body (some body) g.line) k := by
  refine statement_yieldsAll (.bind hguard ?_)
  refine .still (p := iterate (linkRound tokens room inner) tokens []) (fun ts hts => links_none ?_)
    (.accept (.last h .pure))
  obtain ⟨t, us, rfl, ht, _, hus⟩ := map_mark_cons hts
  -- after this `else` comes a colon, so it is not one more link
  have hsees : (k.before us).sees (.keyword .ifWord) = false := by
    refine decide_eq_false ?_
    rw [kind_before hus]
    rintro ⟨⟩
  rw [seesElseIf, seesNext_before (by rw [ht]; rintro ⟨⟩), hsees, Bool.and_false]

lemma requireTop_yieldsAll {α : Type} {t : Token} {f : Unit → Production α}
    {a : α} (hk : k.depth = 0) (h : YieldsAll (f ()) marks a k) :
    YieldsAll (requireTop t >>= f) marks a k := by
  refine .still (fun ts _ => ?_) h
  unfold requireTop
  rw [run_cursor_bind, depth_before, hk]
  rfl

/-- The name of an event is a word or a text. -/
lemma eventName_yieldsAll : YieldsAll eventName [(eventKind name, n)] name k := by
  unfold eventKind
  split
  · rename_i hname
    rw [hname]
    exact .accept_ne (by rintro ⟨⟩) (.accept_ne (by rintro ⟨⟩) (.accept .pure))
  · exact .accept_ne (by rintro ⟨⟩)
      (.accept_ne (by rintro ⟨⟩) (.accept_ne (by rintro ⟨⟩) (.name_last)))

/-- An event is read from its line and its block. -/
lemma event_yieldsAll (hk : k.depth = 0)
    (h : YieldsAll (block tokens inner) (colonMarks n last marks) body k) :
    YieldsAll (statement tokens room inner)
    ((.keyword .when, n) :: (eventKind name, n) :: colonMarks n last marks)
      (.event name none body n) k := by
  refine statement_yieldsAll (.take fun t ht hn => requireTop_yieldsAll hk ?_)
  rw [hn]
  exact .bind (fun us _ => eventName_yieldsAll) (.last h .pure)

lemma TimeUnit.ofWord?_word (unit : TimeUnit) : TimeUnit.ofWord? unit.word = some unit := by
  cases unit <;> decide

/-- A schedule is a number and a unit. -/
lemma schedule_yieldsAll (hpositive : ¬timer.interval ≤ 0) :
    YieldsAll schedule [(.number timer.interval, n), (.identifier timer.unit.word, n)] timer k := by
  refine .cursor fun c hc _ => ?_
  dsimp only
  rw [hc]
  refine .take fun _ _ _ => ?_
  rw [if_neg hpositive]
  refine .cursor fun _ _ _ => .name ?_
  rw [timer.unit.ofWord?_word]
  exact .pure

/-- A timer is read from its line and its block. -/
lemma timer_yieldsAll (hk : k.depth = 0) (hpositive : ¬timer.interval ≤ 0)
    (h : YieldsAll (block tokens inner) (colonMarks n last marks) body k) :
    YieldsAll (statement tokens room inner)
      ((.keyword .every, n) :: (.number timer.interval, n) ::
        (.identifier timer.unit.word, n) :: colonMarks n last marks)
      (.event Program.timerEvent (some timer) body n) k := by
  refine statement_yieldsAll (.take fun t ht hn => requireTop_yieldsAll hk ?_)
  rw [hn]
  exact .bind (fun us _ => schedule_yieldsAll hpositive) (.last h .pure)

lemma paramRound_none (hk : k.here.kind = .symbol .colon) :
    (paramRound done).run k = (.ok none, k) := by
  have hne {kind : TokenKind} (hkind : TokenKind.symbol .colon ≠ kind) : k.here.kind ≠ kind :=
    hk ▸ hkind
  have hround : Yields (paramRound done) [] none k :=
    .accept_ne (hne (by rintro ⟨⟩)) (.accept_ne (hne (by rintro ⟨⟩)) .pure)
  exact hround

lemma paramRound_some {param : String} :
    YieldsAll (paramRound done) [(.symbol .comma, n), (.identifier param, n)]
    (some (done ++ [param])) k :=
  .accept_ne (by rintro ⟨⟩) (.accept (.name .pure))

/-- Parameters are read one after the other, each after a comma. -/
lemma moreParams_yieldsAll (hk : k.here.kind = .symbol .colon) :
    ∀ (params done : List String) (rounds : Nat), params.length < rounds →
      YieldsAll (iterate paramRound rounds done) (marksOn n (moreParams params)) (done ++ params) k
  | [], done, rounds, _ => by
    rw [append_nil]
    exact .iterate_none (paramRound_none hk)
  | param :: params, done, rounds + 1, hrounds => by
    have hmore :=
      moreParams_yieldsAll hk params (done ++ [param]) rounds (Nat.lt_of_succ_lt_succ hrounds)
    rw [append_assoc, singleton_append] at hmore
    exact .iterate_some (fun us _ => paramRound_some) hmore

/-- The parameters of a function are read up to the colon. -/
lemma parameters_yieldsAll (hk : k.here.kind = .symbol .colon) (hlength : params.length < tokens) :
    YieldsAll (parameters tokens) (marksOn n (paramKinds params)) params k := by
  cases params with
  | nil =>
    have hne {kind : TokenKind} (hkind : TokenKind.symbol .colon ≠ kind) : k.here.kind ≠ kind :=
      hk ▸ hkind
    exact .accept_ne (hne (by rintro ⟨⟩)) (.accept_ne (hne (by rintro ⟨⟩)) .pure)
  | cons param params =>
    exact .accept
      (.name (moreParams_yieldsAll hk params [param] tokens (Nat.lt_of_succ_lt hlength)))

/-- A function is read from its line and its block. -/
lemma function_yieldsAll (hk : k.depth = 0) (hlength : params.length < tokens)
    (h : YieldsAll (block tokens inner) (colonMarks n last marks) body k) :
    YieldsAll (statement tokens room inner)
      ((.keyword .to, n) :: (.identifier name, n) ::
        (marksOn n (paramKinds params) ++ colonMarks n last marks))
      (.function name params body n) k := by
  refine statement_yieldsAll (.take fun t ht hn => requireTop_yieldsAll hk (.name ?_))
  rw [hn]
  exact .bind (fun us hus => parameters_yieldsAll (kind_before hus) hlength) (.last h .pure)

end Blocks

end Colloquy
