import Colloquy.Proofs.Grammar.Tandem

/-!
# Expressions are read alike

Two readers in tandem read the same tree from every production of expressions, up to its lines, if
expressions of its level end where the rows part. Neither runs out of rounds.
-/

namespace Colloquy

open Cursor Option Bool Colloquy.Expr

namespace Grammar

open Production

/-- The same operator, at lines that are sent to the same number. -/
def LikeOperator (f g : Nat → Nat) (x y : BinaryOp × Nat) : Prop := x.1 = y.1 ∧ f x.2 = g y.2

/-- The same key with expressions that are the same up to their lines. -/
def LikeField (f g : Nat → Nat) (x y : String × Expr) : Prop := x.1 = y.1 ∧ x.2.Like f g y.2

/-- The loosest operators of a level outside brackets. -/
def Level.rank : Level → Nat
  | .disjunction => 0
  | .comparison => 2
  | .unary | .call => 5

section Productions

/-- Two readers read an expression of this level, the same up to its lines. -/
def ReadsAt (f g : Nat → Nat) (place : Option Ending) (R : Enclosure → Cursor → Cursor → Prop)
    (rounds rounds' level : Nat) (p q : Production Expr) : Prop :=
  ∀ ⦃s : Enclosure⦄ ⦃c d : Cursor⦄, EndsAt f g R s level → R s c d → Room rounds rounds' c d →
    Reads (Cursor.Lost place s) (R s) (Expr.Like f g) p q c d

/-- Two readers read the same operator of this level, or none. -/
def SignsAt (f g : Nat → Nat) (place : Option Ending)
    (R : Enclosure → Cursor → Cursor → Prop) (level : Nat)
    (operator : Production (Option (BinaryOp × Nat))) : Prop :=
  ∀ ⦃s : Enclosure⦄ ⦃c d : Cursor⦄, EndsAt f g R s level → R s c d →
    Concurs (Cursor.Lost place s) (Option.Rel (LikeOperator f g))
    (Round (R s) (R s) c d) operator operator c d

variable {f g : Nat → Nat} {place : Option Ending} {s : Enclosure}
  {R : Enclosure → Cursor → Cursor → Prop} {rounds rounds' room line line' : Nat}
  {inner inner' : Inner} {c d : Cursor}

/-- Inner expressions are read alike, as far as there are rounds. -/
structure InnerTandem (f g : Nat → Nat) (place : Option Ending)
    (R : Enclosure → Cursor → Cursor → Prop) (rounds rounds' : Nat)
    (inner inner' : Inner) : Prop where
  reads (level : Level) (room : Nat) :
  ReadsAt f g place R rounds rounds' level.rank (inner level room) (inner' level room)
  fails (level : Level) (room : Nat) {c : Cursor} :
  beginsPhrase c.here.kind = false → Fails (inner level room) c
  heads (level : Level) (room : Nat) : Heads (inner level room)

lemma kind_of_seesAnd (h : seesAnd c = true) : c.here.kind = .keyword .and := by
  simp only [seesAnd, Cursor.sees, and_eq_true, decide_eq_true_eq] at h
  exact h.1

lemma kind_of_seesNext {kind next : TokenKind} [kind.Plain] (hk : c.here.kind = kind)
    (h : c.seesNext next = true) :
    c.next.here.kind = next := by
  have hne : c.here.kind ≠ .eof := hk ▸ TokenKind.Plain.ne_eof
  rw [Cursor.seesNext, peek_one hne] at h
  exact of_decide_eq_true h

section Steps

variable (hT : Tandem f g place R)

include hT

/-- After a comma both readers are on the way, or one of them is lost. -/
lemma comma_concurs {α β : Type} {rel : α → β → Prop}
    {post : α → Cursor → Cursor → Prop} {p : Production α} {q : Production β} [Walks p]
    (hheads : Heads p) (h : R s c d) (hk : c.here.kind = .symbol .comma)
    (hrest : Ahead (R s) c d c.next d.next → Concurs (Lost place s) rel post p q c.next d.next) :
    Concurs (Lost place s) rel post p q c.next d.next := by
  rcases hT.comma h hk with hg | h1
  · exact .of_gone .inl hg
  · rcases h1.related with hR | ⟨hpos, hhead, _⟩
    · exact hrest ⟨hR, h1.left, h1.right⟩
    · exact hheads.concurs hpos hhead

/-- Items between commas are read alike. -/
lemma commaSeparated_reads {item item' : Production Expr} [Settled item] (hheads : Heads item)
    (hs : s.enclosed = true) (h : R s c d) (hroom : Room rounds rounds' c d)
    (hitem : ∀ c' d', Along (R s) c d c' d' →
      Reads (Lost place s) (R s) (Like f g) item item' c' d') :
    Reads (Lost place s) (R s) (LikeAll f g) (commaSeparated rounds item)
    (commaSeparated rounds' item') c d := by
  refine (hitem c d (.refl h)).and_then fun first first' c1 d1 hf h1 => ?_
  refine Concurs.mono (.loop (.singleton hf) h1.related (hroom.along h1.along) ?_) ?_
  · intro items items' c2 d2 hi h2
    refine .accept (hT.kind_iff_enclosed hs h2.related rfl (by rintro ⟨⟩)) (fun hk => ?_)
      (fun _ => .pure .none (.refl h2.related))
    refine comma_concurs hT hheads.bind h2.related hk fun h3 => ?_
    refine (hitem _ _ (h1.along.trans (h2.trans h3.along))).and_then fun e e' c4 d4 he h4 => ?_
    exact .pure (.some (hi.concat he)) (h3.ahead h4)
  · intro items c2 d2 h2
    exact h1.trans h2

/-- The name of a property is the same word, keyword or not. -/
lemma propertyName_passes (h : R s c d) :
    Passes (Lost place s) (R s) Eq propertyName propertyName c d := by
  by_cases hw : c.here.text.toList.head?.any Text.isWordStart = true
  · rcases hT.word h hw with hg | ⟨ht, ha⟩
    · intro a c' hr
      have hnext : c' = c.next := by
        rw [propertyName, run_cursor] at hr
        dsimp only at hr
        split at hr
        · cases hr
          rfl
        · cases hr
        · cases hr
        · rw [if_pos hw] at hr
          cases hr
          rfl
      exact .inl (.inl (hnext ▸ hg))
    · refine .cursor ?_
      dsimp only
      rw [ht.kind, ht.text]
      split
      · exact .take (.pure rfl ha)
      · exact .expected
      · exact .expected
      · rw [if_pos hw]
        exact .take (.pure rfl ha)
  · refine .cursor ?_
    dsimp only
    generalize hk : c.here.kind = kind
    split
    · rw [(hT.tallies h (by rw [hk]; rfl)).kind, hk]
      exact hT.take .inl h hk rfl fun h1 => .pure rfl h1.along
    · exact .expected
    · exact .expected
    · rw [if_neg hw]
      exact .expected

omit hT in
/-- Like expressions name the same function, or none. -/
lemma calleeName_concurs {token token' : Token} {callee callee' : Expr}
    (hcallee : callee.Like f g callee') :
    Concurs never Eq (fun _ c' d' => c' = c ∧ d' = d) (calleeName callee token)
    (calleeName callee' token') c d := by
  unfold calleeName
  split
  · rename_i word line
    cases callee' with
    | identifier name scope line' =>
      have he : Expr.identifier word .plain (f line) = .identifier name scope (g line') := hcallee
      obtain ⟨rfl, rfl, _⟩ := Expr.identifier.inj he
      exact .pure rfl ⟨rfl, rfl⟩
    | _ => cases hcallee
  · exact .invalid

omit hT in
/-- Both readers skip the layout inside braces. -/
lemma skipLayout_lands (h : Lands place R s c d) (hroom : Room rounds rounds' c d) :
    Concurs (Lost place s) Eq (fun _ => Along (Flush R s) c d) (skipLayout rounds)
    (skipLayout rounds') c d := by
  have hend : TokenKind.eof ∉ TokenKind.layout := by decide
  intro a c' hr
  have hc : run (skipLayout rounds) c = (.ok (), c.pass TokenKind.layout) :=
    run_skipAll hend hroom.left
  have hd : run (skipLayout rounds') d = (.ok (), d.pass TokenKind.layout) :=
    run_skipAll hend hroom.right
  rw [hc] at hr
  cases hr
  rcases h with hl | hflush
  · exact .inl hl
  · exact .inr ⟨(), _, hd, rfl, hflush, remaining_pass_le, remaining_pass_le⟩

end Steps

variable (hT : Tandem f g place R) (hI : InnerTandem f g place R rounds rounds' inner inner')
  [inner.Settles]

include hT hI

section Inside

variable {α β : Type} {rel : α → β → Prop} {close : TokenKind} [close.Alive] {what : String}

omit [inner.Settles] in
lemma innerExpression_reads (hs : s.enclosed = true) (h : R s c d)
    (hroom : Room rounds rounds' c d) :
    Reads (Lost place s) (R s) (Like f g) (innerExpression inner room)
    (innerExpression inner' room) c d :=
  .nested fun less => hI.reads .disjunction less (hT.endsAt_enclosed hs) h hroom

lemma innerList_reads (hs : s.enclosed = true) (h : R s c d) (hroom : Room rounds rounds' c d) :
    Reads (Lost place s) (R s) (LikeAll f g)
    (commaSeparated rounds (innerExpression inner room))
      (commaSeparated rounds' (innerExpression inner' room)) c d :=
  commaSeparated_reads hT (.nested fun less => hI.heads .disjunction less) hs h hroom
    fun _ _ h' => innerExpression_reads hT hI hs h'.related (hroom.along h')

section

variable (h : R s c d) (hroom : Room rounds rounds' c d)
include h hroom

/-- What stands in brackets is read alike up to the closing one. -/
lemma bracketed_reads {r : List Expr → α} {t : List Expr → β} (hk : close.isStep = true)
    (hne : close ≠ .keyword .and)
    (hrt : ∀ es es', LikeAll f g es es' → rel (r es) (t es')) :
    Concurs (Lost place s) rel (fun _ => Ahead (R s) c d)
    (bracketed rounds inner room close what r)
      (bracketed rounds' inner' room close what t) c d := by
  have hclose (es es' : List Expr) (c' d' : Cursor) (hes : LikeAll f g es es')
      (h' : Along (R s.inside) c d c' d') :
      Concurs (Lost place s) rel (fun _ => Ahead (R s) c d)
      (do let _ ← require close what; return r es)
        (do let _ ← require close what; return t es') c' d' :=
    hT.require .inl (hT.leave h'.related) hk fun hend => .pure (hrt es es' hes) (h'.ahead hend)
  rcases hT.enter h with hg | hin
  · exact .of_gone_leave hg
  · refine .cursor ?_
    have hsees : d.sees close = c.sees close :=
      decide_eq_decide.mpr
        (hT.kind_iff_enclosed rfl hin (TokenKind.isPlain_of_isStep hk).2.2 hne).symm
    rw [hsees]
    split
    · exact .pure_bind (hclose [] [] c d .nil (.refl hin))
    · exact (innerList_reads hT hI rfl hin hroom).and_leave fun es es' c' d' hes h' =>
        hclose es es' c' d' hes h'.along

/-- So is a single expression in brackets. -/
lemma enclosedExpression_reads {r : Expr → α} {t : Expr → β} (hk : close.isStep = true)
    (hrt : ∀ e e', Like f g e e' → rel (r e) (t e')) :
    Concurs (Lost place s) rel (fun _ => Ahead (R s) c d)
    (enclosedExpression inner room close what r)
      (enclosedExpression inner' room close what t) c d := by
  rcases hT.enter h with hg | hin
  · exact .of_gone_leave hg
  · refine (innerExpression_reads hT hI rfl hin hroom).and_leave fun e e' c' d' he h' => ?_
    exact hT.require .inl (hT.leave h'.related) hk fun hend => .pure (hrt e e' he) (h'.ahead hend)

lemma parenthesized_reads :
    Reads (Lost place s) (R s) (LikeAll f g) (parenthesized rounds inner room)
      (parenthesized rounds' inner' room) c d :=
  bracketed_reads hT hI (r := id) (t := id) h hroom rfl (by rintro ⟨⟩) fun _ _ hes => hes

end

end Inside

/-- Arguments after `using` or `with` are read alike. -/
lemma naturalArguments_passes (he : EndsAt f g R s 2) (hq : QuietAt f g R s) (h : R s c d)
    (hroom : Room rounds rounds' c d)
    (hb : atArgumentBoundary d.here.kind = atArgumentBoundary c.here.kind) :
    Passes (Lost place s) (R s) (LikeAll f g) (naturalArguments rounds inner room)
      (naturalArguments rounds' inner' room) c d := by
  refine .cursor ?_
  rw [hb]
  split
  · exact .pure .nil (.refl h)
  · change Passes _ _ _ (inner .comparison room >>= fun first =>
      iterate (argumentRound inner room) rounds [first])
      (inner' .comparison room >>= fun first =>
      iterate (argumentRound inner' room) rounds' [first]) c d
    refine (hI.reads .comparison room he h hroom).and_then fun first first' c1 d1 hf h1 => ?_
    refine Concurs.mono (.loop (.singleton hf) h1.related (hroom.along h1.along) ?_) ?_
    · intro args args' c2 d2 hargs h2
      have hmore (h3 : Ahead (R s) c2 d2 c2.next d2.next) :
          Concurs (Lost place s) (Rel (LikeAll f g)) (Round (R s) (R s) c2 d2)
            (do let e ← inner .comparison room; pure (some (args ++ [e])))
            (do let e ← inner' .comparison room; pure (some (args' ++ [e]))) c2.next d2.next := by
        have hroom3 := ((hroom.along h1.along).along h2).along h3.along
        refine (hI.reads .comparison room he h3.related hroom3).and_then fun e e' c4 d4 he h4 => ?_
        exact .pure (.some (hargs.concat he)) (h3.ahead h4)
      refine .cursor ?_
      have hcomma : d2.sees (.symbol .comma) = c2.sees (.symbol .comma) :=
        decide_eq_decide.mpr (hT.comma_iff hq h2.related).symm
      rw [hT.seesAnd_eq h2.related ((hq h2.related).imp_right And.right), hcomma]
      split
      · rename_i hsep
        rcases or_eq_true_iff.1 hsep with hand | hcomma
        · exact hT.take .inl h2.related (kind_of_seesAnd hand) rfl hmore
        · exact .take (comma_concurs hT (hI.heads .comparison room).bind h2.related
            (of_decide_eq_true hcomma) hmore)
      · exact .pure .none (.refl h2.related)
    · intro args c2 d2 h2
      exact h1.along.trans h2

omit hT [inner.Settles] in
lemma listElement_fails (hs : c.here.kind.stops = true) : Fails (listElement inner room) c := by
  refine .after rfl ?_
  dsimp only
  split
  · rename_i hk
    rw [hk] at hs
    cases hs
  · exact hI.fails .unary room (beginsPhrase_of_stops hs)

omit [inner.Settles] in
/-- An element after `list of` is read alike. -/
lemma listElement_reads :
    ReadsAt f g place R rounds rounds' 5 (listElement inner room) (listElement inner' room) := by
  intro s c d he h hroom
  rcases hT.halt h with ht | ⟨hs, _⟩
  · refine .cursor ?_
    dsimp only
    rw [ht.kind]
    generalize hk : c.here.kind = kind
    split
    · exact hT.take .inl h hk rfl fun h1 => .pure (.literal ht.line) h1
    · exact hI.reads .unary room he h hroom
  · exact .of_fails (listElement_fails hI hs)

omit hT [inner.Settles] in
lemma listElement_heads : Heads (listElement inner room) := by
  rintro c c' e h hr
  rw [listElement, run_cursor] at hr
  dsimp only at hr
  split at hr
  · cases hr
    rfl
  · exact hI.heads .unary room h hr

/-- A list after `list of` is read alike. -/
lemma spelledList_reads (hl : f line = g line') (he : EndsAt f g R s 5) (hq : QuietAt f g R s)
    (h : R s c d) (hroom : Room rounds rounds' c d) :
    Reads (Lost place s) (R s) (Like f g) (spelledList rounds inner room line)
      (spelledList rounds' inner' room line') c d := by
  change Reads _ _ _ (listElement inner room >>= fun first =>
      iterate (elementRound inner room) rounds [first] >>= fun elements =>
      pure (Expr.list elements line))
    (listElement inner' room >>= fun first =>
      iterate (elementRound inner' room) rounds' [first] >>= fun elements =>
      pure (Expr.list elements line')) c d
  refine (listElement_reads hT hI he h hroom).and_then fun first first' c1 d1 hf h1 => ?_
  have hone : LikeAll f g [first] [first'] := .singleton hf
  refine Concurs.and_then (.loop hone h1.related (hroom.along h1.along) ?_) ?_
  · intro elements elements' c2 d2 hes h2
    have hmore {c3 d3 : Cursor} (h3 : Ahead (R s) c2 d2 c3 d3) :
        Concurs (Lost place s) (Rel (LikeAll f g)) (Round (R s) (R s) c2 d2)
          (do let e ← listElement inner room; pure (some (elements ++ [e])))
          (do let e ← listElement inner' room; pure (some (elements' ++ [e]))) c3 d3 := by
      have hroom3 := ((hroom.along h1.along).along h2).along h3.along
      refine (listElement_reads hT hI he h3.related hroom3).and_then fun e e' c4 d4 he h4 => ?_
      exact .pure (.some (hes.concat he)) (h3.ahead h4)
    refine .accept (hT.comma_iff hq h2.related) (fun hk => ?_) (fun _ => ?_)
    · refine comma_concurs hT (Heads.accept (listElement_heads hI).bind) h2.related hk fun h3 => ?_
      rcases hT.halt h3.related with ht | ⟨hs, _⟩
      · exact hT.accept .inl h3.related rfl (by rw [ht.kind])
          (fun h4 => hmore (h3.ahead h4)) (fun _ => hmore h3)
      · -- no element follows the comma, whatever the other reader sees there
        exact .of_fails (.after (run_accept_ne (ne_of_stops hs rfl))
          (.bind (listElement_fails hI hs)))
    · refine .cursor ?_
      rw [hT.seesAnd_eq h2.related ((hq h2.related).imp_right And.right)]
      split
      · rename_i hand
        exact hT.take .inl h2.related (kind_of_seesAnd hand) rfl hmore
      · exact .pure .none (.refl h2.related)
  · intro elements elements' c2 d2 hes h2
    exact .pure (.list hl hes) (h1.trans h2)

/-- A field is read alike from its key on. -/
lemma keyedValue_reads (h : Flush R s.inBraces c d) (hroom : Room rounds rounds' c d) :
    Concurs (Lost place s.inBraces) (LikeField f g) (fun _ => Ahead (Flush R s.inBraces) c d)
      (keyedValue rounds inner room) (keyedValue rounds' inner' room) c d := by
  have hrest (key : String) (h1 : Ahead (R s.inBraces) c d c.next d.next) :
      Concurs (Lost place s.inBraces) (LikeField f g)
      (fun _ => Ahead (Flush R s.inBraces) c d)
        (fieldValue rounds inner room key) (fieldValue rounds' inner' room key) c.next d.next := by
    refine hT.require .inl h1.related rfl fun h2 => ?_
    have h2 := h1.ahead h2
    refine (innerExpression_reads hT hI rfl h2.related (hroom.along h2.along)).and_then
      fun value value' c3 d3 hv h3 => ?_
    have h3 := h2.ahead h3
    refine (skipLayout_lands (hT.layout h3.related) (hroom.along h3.along)).and_then
      fun _ _ c4 d4 _ h4 => ?_
    exact .pure ⟨rfl, hv⟩ (h3.trans h4)
  refine .cursor ?_
  dsimp only
  rw [h.2]
  generalize hk : c.here.kind = kind
  split
  · exact hT.take .inl h.1 hk rfl (hrest _)
  · exact hT.take .inl h.1 hk rfl (hrest _)
  · exact .of_error rfl

lemma recordField_reads (h : Lands place R s.inBraces c d) (hroom : Room rounds rounds' c d) :
    Concurs (Lost place s.inBraces) (LikeField f g) (fun _ => Ahead (Flush R s.inBraces) c d)
      (recordField rounds inner room) (recordField rounds' inner' room) c d := by
  rw [recordField_eq, recordField_eq]
  refine (skipLayout_lands h hroom).and_then fun _ _ c1 d1 _ h1 => ?_
  exact Concurs.mono (keyedValue_reads hT hI h1.related (hroom.along h1))
    fun _ _ _ h2 => h1.ahead h2

/-- The fields after the first are read alike. -/
lemma recordFields_passes {first first' : String × Expr} (hf : LikeField f g first first')
    (h : Flush R s.inBraces c d) (hroom : Room rounds rounds' c d) :
    Passes (Lost place s.inBraces) (Flush R s.inBraces) (LikeFields f g)
      (iterate (fieldRound rounds inner room) rounds [first])
      (iterate (fieldRound rounds' inner' room) rounds' [first']) c d := by
  obtain ⟨key, value⟩ := first
  obtain ⟨key', value'⟩ := first'
  obtain ⟨rfl, hv⟩ : key = key' ∧ value.Like f g value' := hf
  refine .loop (LikeFields.concat .nil hv) h hroom ?_
  intro fields fields' c1 d1 hfs h1
  refine .accept (hT.kind_iff_enclosed rfl h1.related.1 rfl (by rintro ⟨⟩)) (fun hk => ?_)
    (fun _ => .pure .none (.refl h1.related))
  rcases hT.comma h1.related.1 hk with hg | ⟨hnext, hleft, hright⟩
  · exact .of_gone .inl hg
  · have h2 : Ahead (Lands place R s.inBraces) c1 d1 c1.next d1.next := by
      refine ⟨?_, hleft, hright⟩
      rcases hnext with hR | ⟨_, _, hlands⟩
      · exact hT.layout hR
      · exact hlands
    have hroom2 := (hroom.along h1).along h2.along
    refine (recordField_reads hT hI h2.related hroom2).and_then fun field field' c3 d3 hx h3 => ?_
    obtain ⟨key, value⟩ := field
    obtain ⟨key', value'⟩ := field'
    obtain ⟨rfl, hv⟩ : key = key' ∧ value.Like f g value' := hx
    exact .pure (.some (hfs.concat hv)) (h2.ahead h3)

/-- A record is read alike, whatever its layout. -/
lemma recordLiteral_reads (hl : f line = g line') (h : Lands place R s.inBraces c d)
    (hroom : Room rounds rounds' c d) :
    Reads (Lost place s) (R s) (Like f g) (recordLiteral rounds inner room line)
      (recordLiteral rounds' inner' room line') c d := by
  have hclose (fields fields' : List (String × Expr)) {c' d' : Cursor}
    (hfs : LikeFields f g fields fields') (h' : Along (Flush R s.inBraces) c d c' d') :
      Concurs (Lost place s) (Like f g) (fun _ => Ahead (R s) c d)
      (closedRecord rounds line fields) (closedRecord rounds' line' fields') c' d' := by
    refine (skipLayout_lands (hT.layout h'.related.1) (hroom.along h')).and_leave
      fun _ _ c1 d1 _ h1 => ?_
    refine .require h1.related.2.trans fun hk => ?_
    rcases hT.closes h1.related.1 hk (h1.related.2.trans hk) with hg | h2
    · exact .of_gone .inl hg
    · exact .pure (.record hl hfs) (h'.ahead (h1.ahead h2))
  rw [recordLiteral_eq, recordLiteral_eq]
  refine (skipLayout_lands h hroom).and_leave fun _ _ c1 d1 _ h1 => .cursor ?_
  rw [Cursor.sees, Cursor.sees, h1.related.2]
  split
  · exact hclose [] [] .nil h1
  · refine (recordField_reads hT hI (hT.layout h1.related.1) (hroom.along h1)).and_leave
      fun field field' c2 d2 hx h2 => ?_
    have h2 := h1.ahead h2
    refine (recordFields_passes hT hI hx h2.related (hroom.along h2.along)).and_leave
      fun fs fs' c3 d3 hfs h3 => ?_
    exact hclose fs fs' hfs (h2.trans h3).along

/-- The words `length of` make the same call. -/
lemma lengthCall_reads (hl : f line = g line') (he : EndsAt f g R s 5) (h : R s c d)
    (hroom : Room rounds rounds' c d) :
    Reads (Lost place s) (R s) (Like f g) (lengthCall rounds inner room line)
      (lengthCall rounds' inner' room line') c d := by
  refine hT.accept .inl h rfl (hT.kind_iff he h rfl) (fun h1 => ?_) (fun _ =>
    hT.accept .inl h rfl (hT.kind_iff he h rfl) (fun h1 => ?_) (fun _ => .expected))
  · refine (hI.reads .call room he h1.related (hroom.along h1.along)).and_then
      fun e e' c2 d2 he h2 => ?_
    exact .pure (.call hl (.singleton he)) (h1.ahead h2)
  · refine (parenthesized_reads hT hI h1.related (hroom.along h1.along)).and_then
      fun args args' c2 d2 hargs h2 => ?_
    exact .pure (.call hl hargs) (h1.ahead h2)

/-- Operands are read alike, case by case of their first token. -/
lemma primary_reads : ReadsAt f g place R (rounds + 1) (rounds' + 1) 5 (primary rounds inner room)
    (primary rounds' inner' room) := by
  intro s c d he h hroom
  rcases hT.halt h with ht | ⟨hs, _⟩
  · have hl := ht.line
    refine .cursor ?_
    dsimp only
    rw [ht.kind]
    generalize hk : c.here.kind = kind
    split
    · exact hT.take .inl h hk rfl fun h1 => .pure (.literal hl) h1
    · exact hT.take .inl h hk rfl fun h1 => .pure (.literal hl) h1
    · exact hT.take .inl h hk rfl fun h1 => .pure (.literal hl) h1
    · exact hT.take .inl h hk rfl fun h1 => .pure (.identifier hl) h1
    · refine hT.take .inl h hk rfl fun h1 =>
        (hT.name_reads .inl h1.related).and_then fun word word' c2 d2 hw h2 => ?_
      cases hw
      exact .pure (.identifier hl) (h1.ahead h2)
    · refine hT.take .inl h hk rfl fun h1 => ?_
      exact Concurs.mono (lengthCall_reads hT hI hl he h1.related (hroom.ahead h1))
        fun _ _ _ h2 => h1.ahead h2
    · rw [hT.seesNext h hk rfl rfl]
      split
      · rename_i hof
        refine hT.take .inl h hk rfl fun h1 =>
          hT.take .inl h1.related (kind_of_seesNext hk hof) rfl fun h2 => ?_
        have h2 := h1.ahead h2
        exact Concurs.mono (spelledList_reads hT hI hl he
            (hT.list h hk) h2.related (hroom.ahead h2)) fun _ _ _ h3 =>
          h2.ahead h3
      · exact .expected
    · refine hT.take .inl h hk rfl fun h1 => ?_
      refine Concurs.mono (enclosedExpression_reads hT hI
        (r := id) (t := id) h1.related (hroom.ahead h1) rfl ?_) ?_
      · exact fun _ _ he => he
      · exact fun _ _ _ h2 => h1.ahead h2
    · refine hT.take .inl h hk rfl fun h1 => ?_
      refine Concurs.mono (bracketed_reads hT hI (r := (Expr.list · c.here.line))
        (t := (Expr.list · d.here.line)) h1.related (hroom.ahead h1) rfl (by rintro ⟨⟩) ?_) ?_
      · exact fun _ _ hes => .list hl hes
      · exact fun _ _ _ h2 => h1.ahead h2
    · have h1 := hT.opens h hk
      exact .take (Concurs.mono (recordLiteral_reads hT hI hl h1.related (hroom.ahead h1))
        fun _ _ _ h2 => h1.ahead h2)
    · exact .expected
  · exact .of_fails (primary_fails (beginsPhrase_of_stops hs))

/-- What follows an operand is read alike. -/
lemma suffix_round {object object' : Expr} (ho : object.Like f g object')
    (he : EndsAt f g R s 5) (h : R s c d) (hroom : Room rounds rounds' c d) :
    Concurs (Lost place s) (Rel (Like f g)) (Round (R s) (R s) c d)
    (suffix rounds inner room object) (suffix rounds' inner' room object') c d := by
  rcases hT.ends he h with ht | ⟨hs, hd⟩
  · have hl := ht.line
    have hnatural (hk : c.here.kind = .keyword .usingWord ∨ c.here.kind = .keyword .withWord) :
        Concurs (Lost place s) (Rel (Like f g)) (Round (R s) (R s) c d)
          (naturalCall rounds inner room object) (naturalCall rounds' inner' room object') c d := by
      have hstep : c.here.kind.isStep = true := by rcases hk with hk | hk <;> rw [hk] <;> rfl
      rcases hT.natural h hk with hg | ⟨he, hq, hb⟩
      · exact .take (.of_gone .inl hg)
      · refine hT.take .inl h rfl hstep fun h1 => (calleeName_concurs ho).bind ?_
        rintro word _ _ _ rfl ⟨rfl, rfl⟩
        refine (naturalArguments_passes hT hI he hq h1.related
          (hroom.along h1.along) hb).and_then ?_
        intro args args' c3 d3 hargs h3
        exact .pure (.some (.call hl hargs)) (h1.trans h3)
    refine .cursor ?_
    rw [ht.kind]
    generalize hk : c.here.kind = kind
    split
    · refine hT.take .inl h hk rfl fun h1 => (calleeName_concurs ho).bind ?_
      rintro word _ _ _ rfl ⟨rfl, rfl⟩
      refine (parenthesized_reads hT hI h1.related (hroom.along h1.along)).and_then
        fun args args' c2 d2 hargs h2 => ?_
      exact .pure (.some (.call hl hargs)) (h1.ahead h2)
    · refine hT.take .inl h hk rfl fun h1 =>
        (propertyName_passes hT h1.related).and_then fun word word' c2 d2 hw h2 => ?_
      cases hw
      exact .pure (.some (.member hl ho (.literal hl))) (h1.trans h2)
    · refine hT.take .inl h hk rfl fun h1 => ?_
      refine Concurs.mono (enclosedExpression_reads hT hI
        (r := fun e => some (Expr.member object e c.here.line))
        (t := fun e => some (Expr.member object' e d.here.line)) h1.related
          (hroom.along h1.along) rfl ?_) ?_
      · exact fun _ _ he => .some (.member hl ho he)
      · exact fun o _ _ h2 => .of_ahead (h1.ahead h2) o
    · exact hnatural (.inl hk)
    · exact hnatural (.inr hk)
    · exact .pure .none (.refl h)
  · exact .rest (suffix_none (joint_ne_of_stops hs))
      (suffix_none (hd.joint_ne (by decide) (by decide))) h

/-- An operand and what follows it are read alike. -/
lemma call_reads : ReadsAt f g place R (rounds + 1) (rounds' + 1) 5 (call rounds inner room)
    (call rounds' inner' room) := by
  intro s c d he h hroom
  refine (primary_reads hT hI he h hroom).and_then fun e e' c1 d1 hee h1 => ?_
  refine Concurs.mono (.loop hee h1.related (hroom.ahead h1) ?_) fun _ _ _ h2 => h1.trans h2
  intro object object' c2 d2 ho h2
  exact suffix_round hT hI ho he h2.related ((hroom.ahead h1).along h2)

/-- So is an operand with an operator in front. -/
lemma unary_reads : ReadsAt f g place R (rounds + 1) (rounds' + 1) 5 (unary rounds inner room)
    (unary rounds' inner' room) := by
  intro s c d he h hroom
  rcases hT.halt h with ht | ⟨hs, _⟩
  · have hoperand (op : UnaryOp) (h1 : Ahead (R s) c d c.next d.next) :
        Concurs (Lost place s) (Like f g) (fun _ => Ahead (R s) c d)
          (do let e ← nested room (inner .unary); pure (Expr.unary op e c.here.line))
          (do let e ← nested room (inner' .unary); pure (Expr.unary op e d.here.line))
            c.next d.next := by
      refine Concurs.and_then (.nested fun less =>
        hI.reads .unary less he h1.related (hroom.ahead h1)) ?_
      intro e e' c2 d2 he h2
      exact .pure (.unary ht.line he) (h1.ahead h2)
    refine .cursor ?_
    rw [ht.kind]
    generalize hk : c.here.kind = kind
    split
    · exact hT.take .inl h hk rfl (hoperand .not)
    · exact hT.take .inl h hk rfl (hoperand .negate)
    · exact call_reads hT hI he h hroom
  · exact .of_fails (unary_fails (beginsPhrase_of_stops hs))

omit hT hI [inner.Settles] in
/-- A chain of operators is read alike if its operators and operands are. -/
lemma leftAssociative_reads {operator : Production (Option (BinaryOp × Nat))}
    {operand operand' : Production Expr} {level signs tighter : Nat} [Settled operator]
    [Settled operand] (hoperator : SignsAt f g place R signs operator)
    (hoperand : ReadsAt f g place R (rounds + 1) (rounds' + 1) tighter operand operand')
    (hs : level ≤ signs) (ht : level ≤ tighter) :
    ReadsAt f g place R (rounds + 1) (rounds' + 1) level (leftAssociative rounds operator operand)
      (leftAssociative rounds' operator operand') := by
  intro s c d he h hroom
  change Reads _ _ _ (operand >>= iterate (operatorRound operator operand) rounds)
    (operand' >>= iterate (operatorRound operator operand') rounds') c d
  refine (hoperand (he.mono ht) h hroom).and_then fun first first' c1 d1 hf h1 => ?_
  refine Concurs.mono (.loop hf h1.related (hroom.ahead h1) ?_) fun _ _ _ h2 => h1.trans h2
  intro left left' c2 d2 hl h2
  refine (hoperator (he.mono hs) h2.related).bind_lost
    (fun o c3 a c4 hlost hr => ?_) fun o o' c3 d3 ho h3 => ?_
  · cases o with
    | none =>
      cases hr
      exact hlost
    | some op =>
      exact hlost.keep (p := operand >>= fun right =>
        pure (some (Expr.binary op.1 left right op.2))) hr
  · cases ho with
    | none => exact .pure .none h3
    | @some op op' hop =>
      obtain ⟨op, line⟩ := op
      obtain ⟨op', line'⟩ := op'
      obtain ⟨rfl, hline⟩ : op = op' ∧ f line = g line' := hop
      have h3 : Ahead (R s) c2 d2 c3 d3 := h3
      have hroom3 := hroom.along (h1.along.trans (h2.trans h3.along))
      refine (hoperand (he.mono ht) h3.related hroom3).and_then fun right right' c4 d4 hr h4 => ?_
      exact .pure (.some (.binary hline hl hr)) (h3.ahead h4)

section Operators

omit hI [inner.Settles]

/-- Both readers see the same operator of products. -/
lemma factorOperator_round : SignsAt f g place R 4 factorOperator := by
  intro s c d he h
  rcases hT.ends he h with ht | ⟨hs, hd⟩
  · refine .cursor ?_
    rw [ht.kind]
    generalize hk : c.here.kind = kind
    split
    · exact hT.take .inl h hk rfl fun h1 => .pure (.some ⟨rfl, ht.line⟩) h1
    · exact hT.take .inl h hk rfl fun h1 => .pure (.some ⟨rfl, ht.line⟩) h1
    · refine hT.take .inl h hk rfl fun h1 =>
        hT.accept .inl h1.related rfl (hT.kind_iff he h1.related rfl) (fun h2 => ?_) (fun _ => ?_)
      · exact .pure (.some ⟨rfl, ht.line⟩) (h1.ahead h2)
      · exact .pure (.some ⟨rfl, ht.line⟩) h1
    · exact .pure .none (.refl h)
  · exact .rest (factorOperator_none (joint_ne_of_stops hs))
      (factorOperator_none (hd.joint_ne (by decide) (by decide))) h

/-- The same of sums. -/
lemma termOperator_round : SignsAt f g place R 3 termOperator := by
  intro s c d he h
  rcases hT.ends he h with ht | ⟨hs, hd⟩
  · refine .cursor ?_
    rw [ht.kind]
    generalize hk : c.here.kind = kind
    split
    · exact hT.take .inl h hk rfl fun h1 => .pure (.some ⟨rfl, ht.line⟩) h1
    · exact hT.take .inl h hk rfl fun h1 => .pure (.some ⟨rfl, ht.line⟩) h1
    · refine hT.take .inl h hk rfl fun h1 => hT.require .inl h1.related rfl fun h2 => ?_
      exact .pure (.some ⟨rfl, ht.line⟩) (h1.ahead h2)
    · exact .pure .none (.refl h)
  · exact .rest (termOperator_none (joint_ne_of_stops hs))
      (termOperator_none (hd.joint_ne (by decide) (by decide))) h

/-- The same of comparisons with symbols. -/
lemma comparisonOperator_round : SignsAt f g place R 2 comparisonOperator := by
  intro s c d he h
  rcases hT.ends he h with ht | ⟨hs, hd⟩
  · refine .cursor ?_
    rw [ht.kind]
    split
    · rename_i op hop
      have hstep : c.here.kind.isStep = true := by
        unfold comparisonSymbol? at hop
        split at hop <;> first | (rename_i hk; rw [hk]; rfl) | cases hop
      exact hT.take .inl h rfl hstep fun h1 => .pure (.some ⟨rfl, ht.line⟩) h1
    · exact .pure .none (.refl h)
  · exact .rest (comparisonOperator_none (joint_ne_of_stops hs))
      (comparisonOperator_none (hd.joint_ne (by decide) (by decide))) h

/-- The same of `and`. -/
lemma andOperator_round : SignsAt f g place R 1 andOperator := by
  intro s c d he h
  refine .cursor ?_
  rw [hT.seesAnd_eq h ((he h).imp_right fun hd => hd.seesAnd (Nat.le_refl 1))]
  split
  · rename_i hand
    have hk := kind_of_seesAnd hand
    exact hT.take .inl h hk rfl fun h1 => .pure (.some ⟨rfl, hT.line h hk rfl⟩) h1
  · exact .pure .none (.refl h)

/-- The same of `or`. -/
lemma orOperator_round : SignsAt f g place R 0 orOperator := by
  intro s c d he h
  refine .cursor ?_
  have hsees : d.sees (.keyword .or) = c.sees (.keyword .or) :=
    decide_eq_decide.mpr (hT.kind_iff he h rfl).symm
  rw [hsees]
  split
  · rename_i hor
    have hk : c.here.kind = .keyword .or := of_decide_eq_true hor
    exact hT.take .inl h hk rfl fun h1 => .pure (.some ⟨rfl, hT.line h hk rfl⟩) h1
  · exact .pure .none (.refl h)

end Operators

section Comparisons

omit hI [inner.Settles]

/-- A reader with an operand to come is lost where every expression ends. -/
def Doomed (place : Option Ending) (s : Enclosure) (c : Cursor) : Prop :=
  c.Lost place s ∨ c.here.kind.stops = true

omit hT in
lemma doomed_of_gone (h : c.Gone place s) : Doomed place s c := .inl (.inl h)

lemma acceptTo_passes {α : Type} {a : α} (h : R s c d) :
    Passes (Doomed place s) (R s) Eq (do let _ ← accept (.keyword .to); return a)
      (do let _ ← accept (.keyword .to); return a) c d := by
  rcases hT.halt h with ht | ⟨hs, _⟩
  · refine hT.accept doomed_of_gone h rfl (by rw [ht.kind]) (fun h1 => ?_) (fun _ => ?_)
    · exact .pure rfl h1.along
    · exact .pure rfl (.refl h)
  · intro b c' hr
    rw [run_bind, run_accept_ne (ne_of_stops hs rfl)] at hr
    cases hr
    exact .inl (.inr hs)

variable (he : EndsAt f g R s 0)

include he

/-- The words `or equal to` are read alike. -/
lemma orEqual_passes (h : R s c d) : Passes (Doomed place s) (R s) Eq orEqual orEqual c d := by
  refine .cursor ?_
  rw [hT.sees_and_seesNext he h rfl rfl rfl]
  split
  · rename_i hor
    obtain ⟨hor, hequal⟩ := and_eq_true_iff.1 hor
    have hk : c.here.kind = .keyword .or := of_decide_eq_true hor
    refine hT.take doomed_of_gone h hk rfl fun h1 =>
      hT.take doomed_of_gone h1.related (kind_of_seesNext hk hequal) rfl fun h2 => ?_
    exact Concurs.mono (acceptTo_passes hT h2.related) fun _ _ _ h3 => (h1.ahead h2).along.trans h3
  · exact .pure rfl (.refl h)

lemma thanPhrase_passes {what : String} {o o' : BinaryOp} (h : R s c d) :
    Passes (Doomed place s) (R s) Eq
      (do let _ ← require (.keyword .than) what; return some (if ← orEqual then o else o'))
      (do
        let _ ← require (.keyword .than) what; return some (if ← orEqual then o else o')) c d := by
  refine hT.require doomed_of_gone h rfl fun h1 => ?_
  refine (orEqual_passes hT he h1.related).bind_lost (fun b c' a c'' hdoom hr => ?_) ?_
  · cases hr
    exact hdoom
  · rintro b _ c2 d2 rfl h2
    exact .pure rfl (h1.trans h2).along

/-- Comparisons in words are read alike. -/
lemma spelledComparison_passes (h : R s c d) (ht : c.here.Tallies f g d.here) :
    Passes (Doomed place s) (R s) Eq spelledComparison spelledComparison c d := by
  refine .cursor ?_
  rw [ht.kind]
  generalize hk : c.here.kind = kind
  split
  · refine hT.take doomed_of_gone h hk rfl fun h1 => ?_
    exact Concurs.mono (acceptTo_passes hT h1.related) fun _ _ _ h2 => (h1.trans h2).along
  · refine hT.take doomed_of_gone h hk rfl fun h1 =>
      hT.accept doomed_of_gone h1.related rfl (hT.kind_iff he h1.related rfl)
      (fun h2 => ?_) (fun _ => ?_)
    · exact Concurs.mono (acceptTo_passes hT h2.related) fun _ _ _ h3 =>
        ((h1.ahead h2).trans h3).along
    · exact .pure rfl h1.along
  · refine hT.take doomed_of_gone h hk rfl fun h1 => ?_
    exact Concurs.mono (thanPhrase_passes hT he h1.related) fun _ _ _ h2 => (h1.trans h2).along
  · refine hT.take doomed_of_gone h hk rfl fun h1 => ?_
    exact Concurs.mono (thanPhrase_passes hT he h1.related) fun _ _ _ h2 => (h1.trans h2).along
  · refine hT.take doomed_of_gone h hk rfl fun h1 => ?_
    rcases hT.halt h1.related with ht | ⟨hs, _⟩
    · refine hT.accept doomed_of_gone h1.related rfl (by rw [ht.kind]) (fun h2 => ?_) (fun _ => ?_)
      · exact .pure rfl (h1.ahead h2).along
      · refine hT.accept doomed_of_gone h1.related rfl
          (by rw [ht.kind]) (fun h2 => ?_) (fun _ => ?_)
        · exact .pure rfl (h1.ahead h2).along
        · exact .expected
    · refine .of_fails (.after (run_accept_ne (ne_of_stops hs rfl)) ?_)
      exact .after (run_accept_ne (ne_of_stops hs rfl)) ⟨_, _, rfl⟩
  · exact .pure rfl (.refl h)

/-- So are the words behind the second operand. -/
lemma trailingComparison_passes (h : R s c d) :
    Passes (Lost place s) (R s) Eq trailingComparison trailingComparison c d := by
  have htwo {next : TokenKind} {op : BinaryOp} (hn : next.isStep = true)
      (hor : (c.sees (.keyword .or) && c.seesNext next) = true) :
      Passes (Lost place s) (R s) Eq (do let _ ← take; let _ ← take; return op)
        (do let _ ← take; let _ ← take; return op) c d := by
    obtain ⟨hor, hmore⟩ := and_eq_true_iff.1 hor
    have hk : c.here.kind = .keyword .or := of_decide_eq_true hor
    refine hT.take .inl h hk rfl fun h1 =>
      hT.take .inl h1.related (kind_of_seesNext hk hmore) hn fun h2 => ?_
    exact .pure rfl (h1.ahead h2).along
  refine .cursor ?_
  rw [hT.sees_and_seesNext he h rfl rfl rfl, hT.sees_and_seesNext he h rfl rfl rfl]
  split
  · rename_i hmore
    exact htwo rfl hmore
  · split
    · rename_i hless
      exact htwo rfl hless
    · exact .pure rfl (.refl h)

end Comparisons

lemma factor_reads : ReadsAt f g place R (rounds + 1) (rounds' + 1) 4 (factor rounds inner room)
    (factor rounds' inner' room) :=
  leftAssociative_reads (factorOperator_round hT) (unary_reads hT hI) (Nat.le_refl _) (by decide)

lemma term_reads : ReadsAt f g place R (rounds + 1) (rounds' + 1) 3 (term rounds inner room)
    (term rounds' inner' room) :=
  leftAssociative_reads (termOperator_round hT) (factor_reads hT hI) (Nat.le_refl _) (by decide)

lemma comparison_reads :
    ReadsAt f g place R (rounds + 1) (rounds' + 1) 2 (comparison rounds inner room)
    (comparison rounds' inner' room) :=
  leftAssociative_reads (comparisonOperator_round hT) (term_reads hT hI) (Nat.le_refl _) (by decide)

/-- One round of the loop over comparisons with `is`. -/
lemma equalityRound_concurs {left left' : Expr} (hl : left.Like f g left')
    (he : EndsAt f g R s 0) (h : R s c d) (hroom : Room rounds rounds' c d) :
    Concurs (Lost place s) (Rel (Like f g)) (Round (R s) (R s) c d)
      (equalityRound rounds inner room left) (equalityRound rounds' inner' room left') c d := by
  refine .cursor ?_
  have hsees : d.sees (.keyword .is) = c.sees (.keyword .is) :=
    decide_eq_decide.mpr (hT.kind_iff he h rfl).symm
  rw [hsees]
  split
  · rename_i his
    have hk : c.here.kind = .keyword .is := of_decide_eq_true his
    have hline := hT.line h hk rfl
    have hcompared {c' d' : Cursor} (h' : Along (R s) c d c' d') :
        Reads (Lost place s) (R s) (Like f g) (comparison rounds inner room)
          (comparison rounds' inner' room) c' d' :=
      comparison_reads hT hI (he.mono (by decide)) h'.related
        ⟨Nat.lt_succ_of_lt (hroom.along h').left, Nat.lt_succ_of_lt (hroom.along h').right⟩
    refine hT.take .inl h hk rfl fun h1 => ?_
    rcases hT.halt h1.related with ht | ⟨hs, _⟩
    · refine (spelledComparison_passes hT he h1.related ht).bind_lost
        (fun o c' a c'' hdoom hr => ?_) ?_
      · -- an operand follows in any case
        rcases hdoom with hlost | hs
        · cases o with
          | some op =>
            exact hlost.keep (p := comparison rounds inner room >>= fun right =>
              pure (some (Expr.binary op left right c.here.line))) hr
          | none =>
            exact hlost.keep (p := comparison rounds inner room >>= fun right =>
              trailingComparison >>= fun op =>
              pure (some (Expr.binary op left right c.here.line))) hr
        · have hfails : Fails (comparison rounds inner room) c' :=
            comparison_fails (beginsPhrase_of_stops hs)
          cases o with
          | some op | none => exact (hfails.bind.absurd hr).elim
      · rintro o _ c2 d2 rfl h2
        have h2 := h1.trans h2
        cases o with
        | some op =>
          refine (hcompared h2.along).and_then fun right right' c3 d3 hr h3 => ?_
          exact .pure (.some (.binary hline hl hr)) (h2.ahead h3)
        | none =>
          refine (hcompared h2.along).and_then fun right right' c3 d3 hr h3 => ?_
          refine (trailingComparison_passes hT he h3.related).and_then ?_
          rintro op _ c4 d4 rfl h4
          exact .pure (.some (.binary hline hl hr)) (h2.ahead (h3.trans h4))
    · -- nothing is compared where an expression ends
      have hspelled : run spelledComparison c.next = (.ok none, c.next) := by
        rw [spelledComparison, run_cursor]
        split <;> first | rfl | (rename_i he; rw [he] at hs; cases hs)
      exact .of_fails (.after hspelled (.bind (comparison_fails (beginsPhrase_of_stops hs))))
  · exact .pure .none (.refl h)

/-- A chain of comparisons with `is` is read alike. -/
lemma equality_reads : ReadsAt f g place R (rounds + 1) (rounds' + 1) 0 (equality rounds inner room)
    (equality rounds' inner' room) := by
  intro s c d he h hroom
  change Reads _ _ _ (comparison rounds inner room >>=
    iterate (equalityRound rounds inner room) rounds)
    (comparison rounds' inner' room >>= iterate (equalityRound rounds' inner' room) rounds') c d
  refine (comparison_reads hT hI (he.mono (by decide)) h hroom).and_then
    fun first first' c1 d1 hf h1 => ?_
  refine Concurs.mono (.loop hf h1.related (hroom.ahead h1) ?_) fun _ _ _ h2 => h1.trans h2
  intro left left' c2 d2 hl h2
  exact equalityRound_concurs hT hI hl he h2.related ((hroom.ahead h1).along h2)

lemma conjunction_reads :
    ReadsAt f g place R (rounds + 1) (rounds' + 1) 0 (conjunction rounds inner room)
    (conjunction rounds' inner' room) :=
  leftAssociative_reads (andOperator_round hT) (equality_reads hT hI) (by decide) (Nat.le_refl _)

lemma disjunction_reads :
    ReadsAt f g place R (rounds + 1) (rounds' + 1) 0 (disjunction rounds inner room)
    (disjunction rounds' inner' room) :=
  leftAssociative_reads (orOperator_round hT) (conjunction_reads hT hI)
  (Nat.le_refl _) (Nat.le_refl _)

/-- Expressions of every level are read alike. -/
lemma atLevel_reads {level : Level} :
    ReadsAt f g place R (rounds + 1) (rounds' + 1) level.rank (atLevel rounds inner room level)
      (atLevel rounds' inner' room level) := by
  cases level with
  | disjunction => exact disjunction_reads hT hI
  | comparison => exact comparison_reads hT hI
  | unary => exact unary_reads hT hI
  | call => exact call_reads hT hI

end Productions

section Expressions

variable {f g : Nat → Nat} {place : Option Ending} {s : Enclosure}
  {R : Enclosure → Cursor → Cursor → Prop}

/-- Expressions of every level are read alike by readers with more depth than tokens. -/
lemma exprAt_tandem (hT : Tandem f g place R) (tokens tokens' : Nat) :
    InnerTandem f g place R tokens tokens' (exprAt tokens) (exprAt tokens') where
  reads level room := by
    induction tokens generalizing tokens' level room with
    | zero =>
      intro s c d _ _ hroom
      exact (Nat.not_lt_zero _ hroom.left).elim
    | succ tokens ih =>
      cases tokens' with
      | zero =>
        intro s c d _ _ hroom
        exact (Nat.not_lt_zero _ hroom.right).elim
      | succ tokens' =>
        have hI : InnerTandem f g place R tokens tokens' (exprAt tokens) (exprAt tokens') :=
          ⟨fun level room => ih tokens' level room, fun _ _ =>
          exprAt_fails, fun _ _ => exprAt_heads⟩
        exact atLevel_reads hT hI
  fails _ _ := exprAt_fails
  heads _ _ := exprAt_heads

lemma expressionAt_reads (hT : Tandem f g place R) (he : EndsAt f g R s 0)
    {tokens tokens' room : Nat} {c d : Cursor} (h : R s c d) (hroom : Room tokens tokens' c d) :
    Reads (Lost place s) (R s) (Like f g) (expressionAt tokens room)
    (expressionAt tokens' room) c d :=
  .nested fun less => (exprAt_tandem hT tokens tokens').reads .disjunction less he h hroom

end Expressions

end Grammar

end Colloquy
