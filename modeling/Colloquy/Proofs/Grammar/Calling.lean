import Colloquy.Proofs.Grammar.Following
import Colloquy.Proofs.Grammar.Narrowing
import Colloquy.Proofs.Grammar.Rendering

/-!
# Calls without parentheses

Arguments stand between parentheses, or after `using` or `with`. Both are read as the same call, but
between parentheses the arguments are nested one level deeper.
-/

namespace Colloquy

open Grammar Production List Cursor

/-- A phrase that can be an argument in both ways: it is read as a comparison on a line of its own,
and has no arguments without parentheses and no list without brackets. -/
structure Argument (room : Nat) (phrase : List Token) (e : Expr) : Prop where
  alone : Standalone (exprAt · .comparison room) phrase e
  plain : ∀ t ∈ phrase, t.kind.opensArguments = false ∧ t.kind ≠ .keyword .list

/-- Further phrases of a row, each after its separator. -/
def trail (separators : List Token) (phrases : List (List Token)) : List Token :=
  (List.zipWith List.cons separators phrases).flatten

/-- Phrases with separators between them. -/
def joined (separators : List Token) : List (List Token) → List Token
  | [] => []
  | phrase :: phrases => phrase ++ trail separators phrases

namespace Argument

variable {room level tokens : Nat} {phrase : List Token} {e : Expr} {m : Cursor}

section

variable (h : Argument room phrase e)
include h

lemma follows (hm : m.Quits level) : Follows level phrase m := by
  refine ⟨hm, ?_, ?_, ?_⟩
  · rintro ⟨t, ht, hlist⟩
    exact ((h.plain t ht).2 hlist).elim
  · rintro ⟨t, ht, hopens⟩
    cases (h.plain t ht).1.symm.trans hopens
  · rintro ⟨t, ht, hopens⟩
    cases (h.plain t (mem_of_getLast? ht)).1.symm.trans hopens

lemma begins : ∃ t ts, phrase = t :: ts ∧ beginsPhrase t.kind = true := h.alone.begins exprAt_fails

lemma widen : Argument (room + 1) phrase e := by
  obtain ⟨⟨tokens, k, htokens, hk⟩, hplain⟩ := h
  exact ⟨⟨tokens, k, htokens, (exprAt_narrows tokens .comparison room).run_ok hk⟩, hplain⟩

lemma yields (hm : m.Quits 2) (htokens : phrase.length + m.remaining < tokens) :
    Yields (exprAt tokens .comparison room) phrase e m := h.alone.exprAt (h.follows hm) htokens

lemma yields_inner (hm : m.Quits 0) (htokens : phrase.length + m.remaining < tokens) :
    Yields (innerExpression (exprAt tokens) (room + 1)) phrase e m := by
  obtain ⟨rounds, rfl⟩ : ∃ rounds, tokens = rounds + 1 := ⟨tokens - 1, by omega⟩
  have hcomparison : Yields (comparison rounds (exprAt rounds) room) phrase e m :=
    h.yields (hm.mono (by decide)) htokens
  exact value_yields_equality (equality_yields hcomparison (hm.stops (by decide) (by decide))) hm

end

end Argument

namespace Grammar

variable {rounds tokens room level : Nat} {k m : Cursor} {us separators commas : List Token}
  {first : List Token × Expr} {more : List (List Token × Expr)} {f word o c : Token}
  {e : Expr} {function : String}

lemma quits_trail {phrases : List (List Token)}
    (h : ∀ s ∈ separators, ∀ us, (k.before (s :: us)).Quits level) (hk : k.Quits level) :
    (k.before (trail separators phrases)).Quits level := by
  cases separators with
  | nil => exact hk
  | cons s separators =>
    cases phrases with
    | nil => exact hk
    | cons phrase phrases => exact h s mem_cons_self _

/-- A loop that reads an item after each separator. -/
lemma iterate_yields_trail {step : List Expr → Production (Option (List Expr))} {items : List Expr}
    (hlength : separators.length = more.length)
    (hstep : ∀ s ∈ separators, ∀ x ∈ more, ∀ items next, next.Quits level →
      x.1.length + next.remaining < tokens →
      Yields (step items) (s :: x.1) (some (items ++ [x.2])) next)
    (hseparators : ∀ s ∈ separators, ∀ us, (k.before (s :: us)).Quits level) (hk : k.Quits level)
    (hend : ∀ items, (step items).run k = (.ok none, k))
    (htokens : (trail separators (more.map Prod.fst)).length + k.remaining < tokens)
    (hrounds : (trail separators (more.map Prod.fst)).length ≤ rounds) :
    Yields (iterate step rounds items) (trail separators (more.map Prod.fst))
    (items ++ more.map Prod.snd) k := by
  induction more generalizing separators rounds items with
  | nil =>
    rw [map_nil, map_nil, append_nil, trail, zipWith_nil_right]
    exact .iterate_none (hend items)
  | cons x more ih =>
    obtain ⟨s, separators, rfl⟩ := exists_cons_of_length_eq_add_one hlength
    have hrow : trail (s :: separators) ((x :: more).map Prod.fst) =
        (s :: x.1) ++ trail separators (more.map Prod.fst) := rfl
    rw [hrow] at htokens hrounds ⊢
    simp only [length_append, length_cons] at htokens hrounds
    obtain ⟨less, rfl⟩ : ∃ less, rounds = less + 1 := ⟨rounds - 1, by omega⟩
    have hnext : (k.before (trail separators (more.map Prod.fst))).Quits level :=
      quits_trail (fun s hs => hseparators s (mem_cons_of_mem _ hs)) hk
    have hitem : Yields (step items) (s :: x.1) (some (items ++ [x.2]))
        (k.before (trail separators (more.map Prod.fst))) := by
      refine hstep s mem_cons_self x mem_cons_self items _ hnext ?_
      rw [remaining_before]
      omega
    have hrest : Yields (iterate step less (items ++ [x.2])) (trail separators (more.map Prod.fst))
        (items ++ [x.2] ++ more.map Prod.snd) k :=
      ih (Nat.succ.inj hlength)
      (fun s hs y hy => hstep s (mem_cons_of_mem _ hs) y (mem_cons_of_mem _ hy))
        (fun s hs => hseparators s (mem_cons_of_mem _ hs)) (by omega) (by omega)
    rw [append_assoc] at hrest
    exact .iterate_some hitem hrest

section Arguments

/-- One more argument is read after `and` or a comma. -/
lemma argumentRound_yields {phrase : List Token} {s : Token} {items : List Expr}
    (h : Argument room phrase e) (hs : s.kind = .keyword .and ∨ s.kind = .symbol .comma)
    (hm : m.Quits 2) (htokens : phrase.length + m.remaining < tokens) :
    Yields (argumentRound (exprAt tokens) room items) (s :: phrase) (some (items ++ [e])) m := by
  have harg : Yields (exprAt tokens .comparison room) phrase e m := h.yields hm htokens
  obtain ⟨t, ts, rfl, hbegins⟩ := h.begins
  rcases hs with hk | hk
  · -- an argument does not begin with `store`
    have hstore : (m.before (t :: ts)).sees (.keyword .store) = false :=
      decide_eq_false (ne_of_beginsPhrase hbegins rfl)
    have hand : seesAnd (m.before (s :: t :: ts)) = true := by
      rw [seesAnd, sees_before hk, seesNext_before (by rw [hk]; rintro ⟨⟩), hstore]
      rfl
    refine .cursor ?_
    rw [hand]
    exact .take hk (.map harg)
  · refine .cursor ?_
    rw [sees_before hk, Bool.or_true]
    exact .take hk (.map harg)

variable (hfirst : Argument room first.1 first.2) (hmore : ∀ x ∈ more, Argument room x.1 x.2)

include hfirst hmore

/-- All arguments after `using` or `with` are read. -/
lemma naturalArguments_yields (hlength : separators.length = more.length)
    (hseparators : ∀ s ∈ separators, s.kind = .keyword .and ∨ s.kind = .symbol .comma)
    (hm : m.Quits 2) (hquiet : m.Quiet)
    (htokens : (first.1 ++ trail separators (more.map Prod.fst)).length + m.remaining < tokens) :
    Yields (naturalArguments tokens (exprAt tokens) room)
    (first.1 ++ trail separators (more.map Prod.fst)) (first.2 :: more.map Prod.snd) m := by
  rw [length_append] at htokens
  have hquits : ∀ s ∈ separators, ∀ us, (m.before (s :: us)).Quits 2 := by
    intro s hs us
    have hkinds : ∀ kind, kind = .keyword .and ∨ kind = .symbol .comma →
        kind.trails = false ∧ Stops 2 kind := by
      rintro _ (rfl | rfl)
      · exact ⟨rfl, fun j hj => by cases hj; decide⟩
      · exact ⟨rfl, stops_of_joint_none rfl⟩
    exact ⟨(hkinds _ (hseparators s hs)).1, .inl (hkinds _ (hseparators s hs)).2⟩
  have hloop : Yields (iterate (argumentRound (exprAt tokens) room) tokens [first.2])
      (trail separators (more.map Prod.fst)) ([first.2] ++ more.map Prod.snd) m :=
    iterate_yields_trail hlength (fun s hs x hx items next hnext ht =>
      argumentRound_yields (hmore x hx) (hseparators s hs) hnext ht) hquits hm
      (fun items => argumentRound_none hquiet.1 hquiet.2) (by omega) (by omega)
  have hhead : Yields (exprAt tokens .comparison room) first.1 first.2
      (m.before (trail separators (more.map Prod.fst))) := by
    refine hfirst.yields (quits_trail hquits hm) ?_
    rw [remaining_before]
    omega
  have hbegins :
      atArgumentBoundary (m.before (first.1 ++ trail separators (more.map Prod.fst))).here.kind =
        false := by
    obtain ⟨t, ts, hts, ht⟩ := hfirst.begins
    rw [hts]
    exact atArgumentBoundary_of_beginsPhrase ht
  refine .cursor ?_
  rw [hbegins]
  exact .bind hhead hloop

/-- All arguments between parentheses are read. -/
lemma separated_yields (hlength : commas.length = more.length)
    (hcommas : ∀ s ∈ commas, s.kind = .symbol .comma) (hk : k.Quits 0)
    (hend : k.here.kind ≠ .symbol .comma)
    (htokens : (first.1 ++ trail commas (more.map Prod.fst)).length + k.remaining < tokens) :
    Yields (separated tokens (innerExpression (exprAt tokens) (room + 1)))
    (first.1 ++ trail commas (more.map Prod.fst)) (first.2 :: more.map Prod.snd) k := by
  rw [length_append] at htokens
  have hquits : ∀ s ∈ commas, ∀ us, (k.before (s :: us)).Quits 0 := by
    intro s hs us
    have hkind : (k.before (s :: us)).here.kind = .symbol .comma := hcommas s hs
    refine ⟨?_, .inl (stops_of_joint_none ?_)⟩
    · rw [hkind]
      rfl
    · rw [hkind]
      rfl
  have hloop :
    Yields (iterate (commaRound (innerExpression (exprAt tokens) (room + 1))) tokens [first.2])
      (trail commas (more.map Prod.fst)) ([first.2] ++ more.map Prod.snd) k :=
    iterate_yields_trail hlength (fun s hs x hx items next hnext ht =>
      commaRound_yields (hcommas s hs) ((hmore x hx).yields_inner hnext ht)) hquits hk
      (fun items => commaRound_none hend) (by omega) (by omega)
  have hhead : Yields (innerExpression (exprAt tokens) (room + 1)) first.1 first.2
      (k.before (trail commas (more.map Prod.fst))) := by
    refine hfirst.yields_inner (quits_trail hquits hk) ?_
    rw [remaining_before]
    omega
  exact .bind hhead hloop

end Arguments

section Calls

/-- A name with a suffix is read as a value. -/
lemma value_yields_suffix (hf : f.kind = .identifier function) (hne : us ≠ [])
    (hs : Yields (suffix rounds (exprAt rounds) room
      (.identifier function .plain f.line)) us (some e) m)
    (hm : m.Quits 0)
    (htokens : (f :: us).length + m.remaining ≤ rounds) :
    Yields (value (rounds + 1) (room + 1)) (f :: us) e m := by
  have hrow : (m.before (f :: us)).remaining ≤ rounds := by
    rw [remaining_before]
    exact htokens
  have hname :
      Opens rounds room postfixLevel [f] (.identifier function .plain f.line) (m.before us) := by
    refine opens_primary (primary_identifier hf) ?_
    rw [← before_append]
    exact hrow
  have hcall : Opens rounds room postfixLevel (f :: us) e m := hname.step hne hs
  have hopens : Opens rounds room 2 (f :: us) e m := by
    refine hcall.descend (by decide) (by decide) hrow (hm.stops (by decide) (by decide)) fun _ => ?_
    change beginsOperand f.kind = true
    rw [hf]
    rfl
  have hcomparison : Yields (comparison rounds (exprAt rounds) room) (f :: us) e m :=
    hopens.yields (by decide) (hm.stops (by decide) (by decide))
  exact value_yields_equality (equality_yields hcomparison (hm.stops (by decide) (by decide))) hm

/-- Arguments after a word are a suffix. -/
lemma suffix_natural {args : List Expr} {line : Nat} (hword : word.kind.opensArguments = true)
    (h : Yields (naturalArguments rounds (exprAt rounds) room) us args m) :
    Yields (suffix rounds (exprAt rounds) room (.identifier function .plain line)) (word :: us)
      (some (.call function args word.line)) m := by
  have hk : word.kind = .keyword .usingWord ∨ word.kind = .keyword .withWord := by
    unfold TokenKind.opensArguments at hword
    split at hword
    · exact .inl ‹_›
    · exact .inr ‹_›
    · cases hword
  rcases hk with hk | hk
  all_goals
    refine .cursor ?_
    dsimp only [Cursor.before]
    rw [hk]
    exact .take hk (.still rfl (.map h))

variable {args : List (List Token × Expr)} (hargs : ∀ x ∈ args, Argument room x.1 x.2)
  (hf : f.kind = .identifier function) (hm : m.Quits 0)

include hargs hf hm

/-- A call with `using` or `with` is read. -/
lemma naturalCall_yields (hlength : separators.length + 1 = args.length)
    (hseparators : ∀ s ∈ separators, s.kind = .keyword .and ∨ s.kind = .symbol .comma)
    (hword : word.kind.opensArguments = true) (hquiet : m.Quiet)
    (htokens : (f :: word :: joined separators (args.map Prod.fst)).length + m.remaining < tokens) :
    Yields (value tokens (room + 1)) (f :: word :: joined separators (args.map Prod.fst))
      (.call function (args.map Prod.snd) word.line) m := by
  obtain ⟨rounds, rfl⟩ : ∃ rounds, tokens = rounds + 1 := ⟨tokens - 1, by omega⟩
  obtain ⟨first, more, rfl⟩ := exists_cons_of_length_eq_add_one hlength.symm
  refine value_yields_suffix hf (cons_ne_nil _ _)
    (suffix_natural hword ?_) hm (Nat.le_of_lt_succ htokens)
  refine naturalArguments_yields (hargs first mem_cons_self)
    (fun x hx => hargs x (mem_cons_of_mem _ hx))
    (Nat.succ.inj hlength) hseparators (hm.mono (by decide)) hquiet ?_
  have hrow : (first.1 ++ trail separators (more.map Prod.fst)).length +
    2 + m.remaining < rounds + 1 := htokens
  omega

/-- A call with parentheses is read. -/
lemma enclosedCall_yields (hlength : commas.length + 1 = args.length)
    (hcommas : ∀ s ∈ commas, s.kind = .symbol .comma) (ho : o.kind = .symbol .leftParen)
    (hc : c.kind = .symbol .rightParen)
    (htokens : (f :: o :: (joined commas (args.map Prod.fst) ++ [c])).length +
      m.remaining < tokens) :
    Yields (value tokens (room + 1 + 1)) (f :: o :: (joined commas (args.map Prod.fst) ++ [c]))
      (.call function (args.map Prod.snd) o.line) m := by
  obtain ⟨rounds, rfl⟩ : ∃ rounds, tokens = rounds + 1 := ⟨tokens - 1, by omega⟩
  obtain ⟨first, more, rfl⟩ := exists_cons_of_length_eq_add_one hlength.symm
  refine value_yields_suffix hf (cons_ne_nil _ _)
    (suffix_call ho ?_ hc) hm (Nat.le_of_lt_succ htokens)
  have hclose : (m.before [c]).here.kind = .symbol .rightParen := hc
  have hsees : ((m.before [c]).before (joined commas ((first :: more).map Prod.fst))).sees
    (.symbol .rightParen) = false := by
    obtain ⟨t, ts, hts, ht⟩ := (hargs first mem_cons_self).begins
    rw [map_cons, joined, hts]
    exact decide_eq_false (ne_of_beginsPhrase ht rfl)
  rw [hsees]
  refine separated_yields (hargs first mem_cons_self) (fun x hx => hargs x (mem_cons_of_mem _ hx))
    (Nat.succ.inj hlength) hcommas ⟨?_, .inl (stops_of_joint_none ?_)⟩ ?_ ?_
  · rw [hclose]
    rfl
  · rw [hclose]
    rfl
  · rw [hclose]
    rintro ⟨⟩
  · rw [remaining_before]
    simp only [map_cons, joined, length_cons, length_append, length_nil] at htokens ⊢
    omega

end Calls

/-- A call with `using` or `with` is read as the call with the same arguments between parentheses,
unless that is nested too deeply. It is not if the arguments leave one level. -/
theorem value_call_forms {args : List (List Token × Expr)}
    (hargs : ∀ x ∈ args, Argument room x.1 x.2) (hlength : separators.length + 1 = args.length)
    (hlength' : commas.length + 1 = args.length)
    (hseparators : ∀ s ∈ separators, s.kind = .keyword .and ∨ s.kind = .symbol .comma)
    (hcommas : ∀ s ∈ commas, s.kind = .symbol .comma) (hf : f.kind = .identifier function)
    (hword : word.kind.opensArguments = true) (ho : o.kind = .symbol .leftParen)
    (hc : c.kind = .symbol .rightParen) (hline : o.line = word.line) (hm : m.Quits 0)
    (hquiet : m.Quiet) (htokens : (f :: word :: joined separators (args.map Prod.fst)).length +
      m.remaining < tokens)
    (htokens' : (f :: o :: (joined commas (args.map Prod.fst) ++ [c])).length +
      m.remaining < tokens) :
    let call : Expr := .call function (args.map Prod.snd) word.line
    let enclosed := f :: o :: (joined commas (args.map Prod.fst) ++ [c])
    Yields (value tokens (room + 1)) (f :: word :: joined separators (args.map Prod.fst)) call m ∧
      (Yields (value tokens (room + 1)) enclosed call m ∨
        TooDeep ((value tokens (room + 1)).run (m.before enclosed))) ∧
      ((∃ less, room = less + 1 ∧ ∀ x ∈ args, Argument less x.1 x.2) →
        Yields (value tokens (room + 1)) enclosed call m) := by
  intro call enclosed
  have henclosed {room : Nat} (hargs : ∀ x ∈ args, Argument room x.1 x.2) :
      Yields (value tokens (room + 1 + 1)) enclosed call m := by
    have hcall := enclosedCall_yields hargs hf hm hlength' hcommas ho hc htokens'
    rwa [hline] at hcall
  refine ⟨naturalCall_yields hargs hf hm hlength hseparators hword hquiet htokens, ?_, ?_⟩
  · have hnarrows : Narrows (value tokens (room + 1)) (value tokens (room + 1 + 1)) :=
      .nested (exprAt_narrows tokens .disjunction) (room + 1)
    rcases hnarrows.narrow (m.before enclosed) with heq | hdeep
    · exact .inl (heq.trans (henclosed hargs))
    · exact .inr hdeep
  · rintro ⟨less, rfl, hless⟩
    exact henclosed hless

/-- The arguments are a comparison with a negated operand and a call of a condition. -/
theorem value_call_forms_two :
    let row : List TokenKind → List Token := List.map fun kind => ⟨kind, "", .start⟩
    let left := row [.identifier "x", .symbol .greater, .symbol .minus, .identifier "y"]
    let right :=
      row [.identifier "g", .symbol .leftParen, .identifier "p", .keyword .or, .identifier "q",
      .symbol .rightParen]
    let a : Expr :=
      .binary .greater (.identifier "x" .plain 1) (.unary .negate (.identifier "y" .plain 1) 1) 1
    let b : Expr :=
      .call "g" [.binary .or (.identifier "p" .plain 1) (.identifier "q" .plain 1) 1] 1
    let k : Cursor := ⟨⟨.newline, "", .start⟩, row [.eof], 0⟩
    (Argument 1 left a ∧ Argument 1 right b) ∧
      Yields (value 20 3) (row [.identifier "f", .keyword .withWord] ++
        (left ++ row [.keyword .and] ++ right)) (.call "f" [a, b] 1) k ∧
      Yields (value 20 3) (row [.identifier "f", .symbol .leftParen] ++
        (left ++ row [.symbol .comma] ++ right) ++
        row [.symbol .rightParen]) (.call "f" [a, b] 1) k := by
  intro row left right a b k
  have ha : Argument 1 left a := by
    refine ⟨⟨20, ⟨k, .inl ⟨rfl, List.cons_ne_nil _ _⟩⟩, by decide, ?_⟩, by decide⟩
    unfold Yields
    cbv
  have hb : Argument 1 right b := by
    refine ⟨⟨20, ⟨k, .inl ⟨rfl, List.cons_ne_nil _ _⟩⟩, by decide, ?_⟩, by decide⟩
    unfold Yields
    cbv
  have hargs : ∀ x ∈ [(left, a), (right, b)], Argument 1 x.1 x.2 :=
    List.forall_mem_cons.mpr ⟨ha, List.forall_mem_singleton.mpr hb⟩
  have hhalts : k.Halts := .inl rfl
  have hand : ∀ s ∈ row [.keyword .and], s.kind = .keyword .and ∨ s.kind = .symbol .comma := by
    decide
  have hcomma : ∀ s ∈ row [.symbol .comma], s.kind = .symbol .comma := by decide
  have hlength (kind : TokenKind) : (row [kind]).length + 1 = [(left, a), (right, b)].length := rfl
  have hkind (kind : TokenKind) : (⟨kind, "", .start⟩ : Token).kind = kind := rfl
  have hforms :=
    value_call_forms (m := k) (fun x hx => (hargs x hx).widen) (hlength (.keyword .and))
    (hlength (.symbol .comma)) hand hcomma (hkind (.identifier "f"))
    (congrArg _ (hkind (.keyword .withWord))) (hkind (.symbol .leftParen))
    (hkind (.symbol .rightParen)) rfl hhalts.quits hhalts.quiet (show _ < 20 by decide)
    (show _ < 20 by decide)
  exact ⟨⟨ha, hb⟩, hforms.1, hforms.2.2 ⟨1, rfl, hargs⟩⟩

end Grammar

end Colloquy
