import Colloquy.Proofs.Token.Trivia

/-!
# Lines that end with a carriage return

With a carriage return before each line break, tokens and problems stay the same outside strings.
Two scans go side by side (`returned`): a step of one is a step of the other (`react_returned`), or
two at a line break (`readAll_break`).
-/

namespace Colloquy

open List Scanner Option String

/-- The text with a carriage return before every line break. -/
def withReturns (text : List Char) : List Char :=
  text.flatMap fun c => if c = '\n' then ['\r', '\n'] else [c]

/-- The place in the text with the returns, one for each line before. -/
def Position.returned (p : Position) : Position := ⟨p.line, p.column, p.offset + (p.line - 1)⟩

/-- The token in the text with the returns, which strings have too. The end of a line stands behind
its own. -/
def Token.returned : Token → Token
  | ⟨.string inner, text, p⟩ =>
    ⟨.string (String.ofList (withReturns inner.toList)),
    String.ofList (withReturns text.toList), p.returned⟩
  | ⟨.newline, text, p⟩ => ⟨.newline, text, p.returned.after '\r'⟩
  | ⟨kind, text, p⟩ => ⟨kind, text, p.returned⟩

/-- The mode in the text with the returns. -/
def Mode.returned : Mode → Mode
  | .quoted start quote read => .quoted start.returned quote (withReturns read.reverse).reverse
  | .escaped start quote read => .escaped start.returned quote (withReturns read.reverse).reverse
  | mode => mode.placed Position.returned

section Texts

variable {c : Char} {text more : List Char} {t : Token} {p : Position} {word : String}

lemma withReturns_break : withReturns ('\n' :: text) = '\r' :: '\n' :: withReturns text := rfl

lemma withReturns_cons (hc : c ≠ '\n') : withReturns (c :: text) = c :: withReturns text := by
  unfold withReturns
  rw [flatMap_cons, if_neg hc]
  rfl

lemma withReturns_append : withReturns (text ++ more) = withReturns text ++ withReturns more :=
  flatMap_append

lemma withReturns_eq_self (h : '\n' ∉ text) : withReturns text = text := by
  induction text with
  | nil => rfl
  | cons c text ih =>
    rw [withReturns_cons (ne_of_not_mem_cons h).symm, ih (not_mem_of_not_mem_cons h)]

lemma withReturns_reverse_cons (hc : c ≠ '\n') :
    (withReturns (c :: text).reverse).reverse = c :: (withReturns text.reverse).reverse := by
  rw [reverse_cons, withReturns_append, withReturns_cons hc]
  exact reverse_append

lemma withReturns_reverse_break :
    (withReturns ('\n' :: text).reverse).reverse = '\n' ::
      '\r' :: (withReturns text.reverse).reverse := by
  rw [reverse_cons, withReturns_append, withReturns_break]
  exact reverse_append

lemma withReturns_head? : (withReturns text).head? = if text.head? = some '\n' then some '\r'
else text.head? := by
  cases text with
  | nil => rfl
  | cons c text =>
    by_cases hc : c = '\n'
    · subst hc
      rfl
    · rw [withReturns_cons hc, List.head?_cons, List.head?_cons, if_neg]
      exact fun h => hc (Option.some.inj h)

lemma Position.returned_after (hc : c ≠ '\n') : p.returned.after c = (p.after c).returned := by
  simp only [after, if_neg hc, returned, mk.injEq, true_and]
  omega

lemma Position.returned_after_break (hp : 0 < p.line) :
    (p.returned.after '\r').after '\n' = (p.after '\n').returned := by
  simp only [after, returned, if_neg (show '\r' ≠ '\n' by decide), if_pos, mk.injEq, true_and]
  omega

lemma Token.returned_eq_placed (hstring : t.kind.isString = false) (hbreak : t.kind ≠ .newline) :
    t.returned = t.placed Position.returned := by
  obtain ⟨kind, text, p⟩ := t
  cases kind with
  | string => cases hstring
  | newline => exact absurd rfl hbreak
  | _ => rfl

lemma isString_ofWord : (TokenKind.ofWord word).isString = false := by
  unfold TokenKind.ofWord
  split
  · rfl
  split
  · rfl
  split <;> rfl

lemma ofWord_ne_newline : TokenKind.ofWord word ≠ .newline := by
  intro h
  have hplain : (TokenKind.ofWord word).isPlain = true := isPlain_ofWord
  rw [h] at hplain
  cases hplain

end Texts

namespace Scanner

/-- The scanner of the text with the returns. -/
def returned (unread : List Char) (s : Scanner) : Scanner where
  unread := unread
  position := s.position.returned
  mode := s.mode.returned
  blocks := s.blocks
  emitted := s.emitted.map Token.returned

/-- The outcome of a step in the text with the returns. -/
def returnedOutcome (unread : List Char) (r : Option ScanError × Scanner) :
    Option ScanError × Scanner :=
  (r.1.map (ScanError.placed Position.returned), r.2.returned unread)

section Steps

variable {s : Scanner} {u rest rest' read : List Char} {c quote : Char}
  {next : Option Char} {start : Position}

lemma emitWord_returned :
    (s.returned u).emitWord start.returned read = (s.emitWord start read).returned u := by
  have htoken {word : String} :
      Token.returned ⟨.ofWord word, word, start⟩ = ⟨.ofWord word, word, start.returned⟩ :=
    Token.returned_eq_placed isString_ofWord ofWord_ne_newline
  simp only [emitWord, returned, emit, map_cons, htoken]

lemma inWord_returned :
    (s.returned u).inWord start.returned read next = (s.inWord start read next).returned u := by
  unfold inWord
  split
  · rfl
  · exact emitWord_returned (s := { s with mode := .between })

lemma inWhole_returned :
    (s.returned u).inWhole start.returned read next = (s.inWhole start read next).returned u := by
  unfold inWhole
  split <;> rfl

lemma inFraction_returned :
    (s.returned u).inFraction start.returned read next =
      (s.inFraction start read next).returned u := by
  unfold inFraction
  split <;> rfl

lemma emitString_returned (hquote : quote ≠ '\n') :
    (s.returned u).emitString start.returned quote (withReturns read.reverse).reverse =
      (s.emitString start quote read).returned u := by
  have htext : withReturns (quote :: read.reverse ++ [quote]) =
      quote :: withReturns read.reverse ++ [quote] := by
    rw [withReturns_append, withReturns_cons hquote, withReturns_cons hquote]
    rfl
  simp only [returned, emitString, emit, map_cons,
    Token.returned, toList_ofList, htext, reverse_reverse]

lemma emitDedents_returned {closed : List Nat} :
    (s.returned u).emitDedents closed = (s.emitDedents closed).returned u := by
  rw [emitDedents_eq, emitDedents_eq]
  simp only [returned, map_append, map_replicate]
  rfl

lemma measure_returned {width : Nat} :
    (s.returned u).measure width = (s.measure width).returned u := by
  unfold measure
  change (if s.blocks.headD 0 < width then _ else _) = _
  split
  · rfl
  · exact emitDedents_returned (s := { s with blocks := s.blocks.dropWhile (width < ·) })

/-- The same tokens begin. -/
lemma fresh_returned (hc : c ≠ '\n') :
    (s.returned u).fresh c next = returnedOutcome u (s.fresh c next) := by
  unfold fresh
  split
  · rfl
  split
  · rfl
  split
  · rfl
  split
  · exact congrArg (Prod.mk none) (inWhole_returned (s := { s with mode := .between }))
  split
  · exact congrArg (Prod.mk none) (inWord_returned (s := { s with mode := .between }))
  split
  · rfl
  split <;> rfl

/-- A step that ends no line is the same with the returns. -/
lemma react_returned (hc : c ≠ '\n') :
    (s.returned u).react c next = returnedOutcome u (s.react c next) := by
  unfold react
  rw [show (s.returned u).mode = s.mode.returned from rfl]
  cases hmode : s.mode with
  | between => exact fresh_returned hc
  | lineStart width =>
    simp only [Mode.returned, Mode.placed]
    split
    · rfl
    split
    · rfl
    split
    · exact fresh_returned hc
    · rw [measure_returned]
      exact fresh_returned hc
  | comment =>
    simp only [Mode.returned, Mode.placed, if_neg hc, returnedOutcome, returned, hmode]
    rfl
  | word start read => exact congrArg (Prod.mk none) inWord_returned
  | whole start read =>
    simp only [Mode.returned, Mode.placed]
    split
    · exact congrArg (Prod.mk none) inWhole_returned
    split
    · rfl
    · exact fresh_returned (s := s.emitNumber start read) hc
  | fraction start read => exact congrArg (Prod.mk none) inFraction_returned
  | quoted start quote read =>
    simp only [Mode.returned]
    split
    · rename_i hquote
      exact congrArg (Prod.mk none)
        (emitString_returned (s := { s with mode := .between }) (hquote ▸ hc))
    split <;> simp only [returnedOutcome, returned, Mode.returned,
      withReturns_reverse_cons hc, map_none]
  | escaped start quote read =>
    simp only [returnedOutcome, returned, Mode.returned, withReturns_reverse_cons hc, map_none]
  | pair start first sign => rfl

lemma react_before_return : s.react c (some '\r') = s.react c (some '\n') := by
  have hword : Text.isWordChar '\r' = false := by decide +kernel
  have hfresh {s : Scanner} : s.fresh c (some '\r') = s.fresh c none := by
    unfold fresh
    simp only [beginsComment, inWhole, inWord, any_some, any_none, hword]
    rfl
  rw [react_inert (.inr (.inl rfl))]
  unfold react
  cases s.mode <;> simp only [hfresh, beginsComment, inWhole,
    inWord, inFraction, any_some, any_none, hword] <;> rfl

lemma react_withReturns : s.react c (withReturns rest).head? = s.react c rest.head? := by
  rw [withReturns_head?]
  split
  · rename_i hhead
    rw [hhead]
    exact react_before_return
  · rfl

/-- A return outside tokens is passed. -/
lemma react_return_of_not_holds (hs : s.mode.holds = false) : ∃ mode : Mode, mode.holds = false ∧
    s.react '\r' (some '\n') = (none, { s with mode := mode }) := by
  cases hmode : s.mode with
  | between | lineStart _ =>
    simp only [react, hmode]
    exact ⟨.between, rfl, rfl⟩
  | comment =>
    refine ⟨s.mode, hs, ?_⟩
    simp only [react, hmode]
    rw [if_neg (by decide), ← hmode]
  | _ =>
    rw [hmode] at hs
    cases hs

lemma readAll_two {d : Char} {s' s'' : Scanner} (h : s.react c (some d) = (none, s'))
    (h' : (s'.past c (d :: rest)).react d rest.head? = (none, s'')) :
    s.readAll (c :: d :: rest) = (s''.past d rest).readAll rest := by
  exact (readAll_cons h).trans (readAll_cons h')

/-- A string has both the return and the break in it. -/
lemma readAll_break_string (hquote : quote = '"' ∨ quote = '\'') (hp : 0 < s.position.line)
    (h : (s.returned u).react '\r' (some '\n') = (none, { s.returned u with
      mode := .quoted start.returned quote ('\r' :: (withReturns read.reverse).reverse) })) :
    (s.returned u).readAll ('\r' :: '\n' :: rest') =
      (({ s with mode := .quoted start quote ('\n' :: read) }.past '\n' rest).returned
        rest').readAll rest' := by
  have hbreak {s : Scanner} {read : List Char}
    (hmode : s.mode = .quoted start.returned quote read) :
      s.react '\n' rest'.head? =
        (none, { s with mode := .quoted start.returned quote ('\n' :: read) }) := by
    simp only [react, hmode]
    rcases hquote with rfl | rfl <;> rfl
  rw [readAll_two h (hbreak rfl)]
  simp only [past, returned, Mode.returned, withReturns_reverse_break,
    Position.returned_after_break hp]

/-- The end of a line is two steps with the returns. -/
lemma readAll_break (rest rest' : List Char) (next : Option Char) (hf : s.mode.Fits (some '\n'))
    (hp : 0 < s.position.line) :
    ∃ s', s.react '\n' next = (none, s') ∧
      (s.returned u).readAll ('\r' :: '\n' :: rest') =
        ((s'.past '\n' rest).returned rest').readAll rest' := by
  cases hstring : s.mode.inString with
  | false =>
    have hs : s.mode.holds = false := not_holds_of_inert hf (.inr (.inl rfl)) hstring
    have hs' : (s.returned u).mode.holds = false := by
      change s.mode.returned.holds = false
      cases hmode : s.mode <;> rw [hmode] at hs <;> cases hs <;> rfl
    obtain ⟨mode, hmode, hreturn⟩ := react_return_of_not_holds hs'
    refine ⟨s.atLineStart, react_newline_of_not_holds hs, ?_⟩
    rw [readAll_two hreturn (react_newline_of_not_holds hmode)]
    simp only [past, atLineStart, returned, Position.returned_after_break hp]
    rfl
  | true =>
    cases hmode : s.mode with
    | quoted start quote read =>
      rw [hmode] at hf
      refine ⟨{ s with mode := .quoted start quote ('\n' :: read) },
        ?_, readAll_break_string hf hp ?_⟩
      · simp only [react, hmode]
        rcases hf with rfl | rfl <;> rfl
      · simp only [react, returned, hmode, Mode.returned]
        rcases hf with rfl | rfl <;> rfl
    | escaped start quote read =>
      rw [hmode] at hf
      refine ⟨{ s with mode := .quoted start quote ('\n' :: read) },
        ?_, readAll_break_string hf hp ?_⟩
      · simp only [react, hmode]
      · simp only [react, returned, hmode, Mode.returned]
    | _ =>
      rw [hmode] at hstring
      cases hstring

end Steps

section Runs

variable {s s' : Scanner} {u text : List Char} {source : String}

/-- A whole text is read side by side. -/
lemma readAll_returned (hf : s.mode.Fits text.head?) (hp : 0 < s.position.line) :
    (s.returned u).readAll (withReturns text) =
      returnedOutcome (withReturns (s.readAll text).2.unread) (s.readAll text) := by
  induction text generalizing s u with
  | nil => rfl
  | cons c rest ih =>
    have hr : s.Reacts c rest.head? (s.react c rest.head?) := react_reacts hf
    have hline {s' : Scanner} (hs' : s'.position = s.position) :
        0 < (s'.past c rest).position.line := by
      simp only [past, hs', Position.after]
      split
      · exact Nat.succ_pos _
      · exact hp
    by_cases hc : c = '\n'
    · subst hc
      obtain ⟨s', hreact, hreturned⟩ :=
        readAll_break rest (withReturns rest) rest.head? (u := u) hf hp
      rw [hreact] at hr
      rw [withReturns_break, hreturned, readAll_cons hreact]
      exact ih hr.fits (hline hr.extends.position)
    · rw [withReturns_cons hc]
      unfold readAll
      rw [react_withReturns, react_returned hc]
      rcases hreact : s.react c rest.head? with ⟨_ | e, s'⟩
      · rw [hreact] at hr
        simp only [returnedOutcome, map_none]
        have hpast : (s'.returned u).past c (withReturns rest) =
            (s'.past c rest).returned (withReturns rest) := by
          simp only [past, returned, Position.returned_after hc]
        rw [hpast]
        exact ih hr.fits (hline hr.extends.position)
      · simp only [returnedOutcome, map_some, past, returned, Position.returned_after hc]

/-- The answer in the text with the returns. -/
def returnedAnswer (answer : Except ScanError (List Token)) : Except ScanError (List Token) :=
  (answer.map (List.map Token.returned)).mapError (ScanError.placed Position.returned)

/-- Both scans end alike. -/
lemma finish_returned : (s.returned u).finish.1 = returnedAnswer s.finish.1 := by
  have hclosing : (s.returned u).closing = s.closing.map Token.returned := by
    simp only [closing, map_append, map_replicate]
    rfl
  cases hstring : s.mode.inString with
  | false =>
    have hok := finish_iff.mpr ⟨hstring, rfl⟩
    have hok' : (s.returned u).finish.1 =
        .ok ((s.returned u).emitted.reverse ++ (s.returned u).closing) := by
      refine finish_iff.mpr ⟨?_, rfl⟩
      change s.mode.returned.inString = false
      cases hmode : s.mode <;> rw [hmode] at hstring <;> cases hstring <;> rfl
    rw [hok, hok', hclosing]
    simp only [returned, ← map_reverse, ← map_append]
    rfl
  | true =>
    unfold finish
    rw [show (s.returned u).mode = s.mode.returned from rfl]
    cases hmode : s.mode <;> rw [hmode] at hstring <;> cases hstring <;> rfl

/-- The tokens with the returns are those without. -/
lemma tokenize_returned :
    Colloquy.tokenize (String.ofList (withReturns source.toList)) =
      returnedAnswer (Colloquy.tokenize source) := by
  have hread : (start (withReturns source.toList)).readAll (withReturns source.toList) =
      returnedOutcome _ ((start source.toList).readAll source.toList) :=
    readAll_returned (s := start source.toList) trivial Nat.one_pos
  unfold Colloquy.tokenize
  rw [toList_ofList]
  unfold Scanner.tokenize
  rw [show (start (withReturns source.toList)).unread = withReturns source.toList from rfl, hread]
  rw [show (start source.toList).unread = source.toList from rfl]
  rcases (start source.toList).readAll source.toList with ⟨_ | e, s'⟩
  · exact finish_returned
  · rfl

end Runs

end Scanner

/-- The same token with the returns: only the end of a line has moved, by one column. -/
structure Token.SameLine (t u : Token) : Prop where
  kind : u.kind = t.kind
  text : u.text = t.text
  line : u.position.line = t.position.line
  column : u.position.column = t.position.column + if t.kind = .newline then 1 else 0

/-- Two reports say the same. -/
structure ScanError.SameReport (e f : ScanError) : Prop where
  problem : f.problem = e.problem
  message : f.message = e.message
  line : f.position.line = e.position.line
  column : f.position.column = e.position.column

/-- Two scans have the same tokens, or the same report. -/
inductive SameScan : Except ScanError (List Token) → Except ScanError (List Token) → Prop where
  | ok {tokens tokens'} :
    List.Forall₂ Token.SameLine tokens tokens' →
    SameScan (.ok tokens) (.ok tokens')
  | error {e f} :
    ScanError.SameReport e f →
    SameScan (.error e) (.error f)

/-- A string spells its characters. -/
lemma Spells.inner_subset {inner : String} {text : List Char} (h : Spells (.string inner) text) :
    inner.toList ⊆ text := by
  generalize hkind : TokenKind.string inner = kind at h
  cases h with
  | string =>
    cases hkind
    rw [toList_ofList]
    exact fun c hc => mem_cons_of_mem _ (mem_append_left _ hc)
  | @word c cs =>
    have hword : (TokenKind.ofWord (String.ofList (c :: cs))).isString = false := isString_ofWord
    rw [← hkind] at hword
    cases hword
  | _ => cases hkind

lemma Token.sameLine_returned {t : Token} (ht : t.kind.isPlain = true → Spells t.kind t.text.toList)
    (h : t.kind.isString = true → '\n' ∉ t.text.toList) : t.SameLine t.returned := by
  obtain ⟨kind, text, p⟩ := t
  cases kind with
  | string inner =>
    have htext : '\n' ∉ text.toList := h rfl
    have hinner : '\n' ∉ inner.toList := fun hm => htext ((ht rfl).inner_subset hm)
    refine ⟨?_, ?_, rfl, rfl⟩
    · simp only [returned, withReturns_eq_self hinner, ofList_toList]
    · simp only [returned, withReturns_eq_self htext, ofList_toList]
  | _ => exact ⟨rfl, rfl, rfl, rfl⟩

/-- Texts spell their tokens. -/
lemma spells_of_tokenize {source : String} {tokens : List Token}
    (h : tokenize source = .ok tokens) :
    ∀ t ∈ tokens, t.kind.isPlain = true → Spells t.kind t.text.toList := by
  obtain ⟨s, hread, hfinish⟩ := tokenize_iff.mp h
  obtain ⟨_, rfl⟩ := finish_iff.mp hfinish
  intro t ht hplain
  rcases mem_append.mp ht with ht | ht
  · exact (emitted_penned hread t (mem_reverse.mp ht)).plain hplain
  · rcases mem_append.mp ht with ht | ht
    · rw [(mem_replicate.mp ht).2] at hplain
      cases hplain
    · rw [mem_singleton.mp ht] at hplain
      cases hplain

/-- **Carriage returns at the ends of lines change nothing.** A text whose strings have no line
break has the same tokens or the same problem with a return before every line break. -/
theorem tokenize_withReturns (source : String)
    (hstrings : ∀ tokens, tokenize source = .ok tokens →
      ∀ t ∈ tokens, t.kind.isString = true → '\n' ∉ t.text.toList) :
    SameScan (tokenize source) (tokenize (String.ofList (withReturns source.toList))) := by
  rw [Scanner.tokenize_returned]
  cases htokens : tokenize source with
  | error e => exact .error ⟨rfl, rfl, rfl, rfl⟩
  | ok tokens =>
    refine .ok (List.forall₂_map_right_iff.mpr (List.forall₂_same.mpr fun t ht => ?_))
    exact Token.sameLine_returned (spells_of_tokenize htokens t ht) (hstrings tokens htokens t ht)

/-- A page with a block, a string, a comment and a blank line. -/
def ruledPage : String := "when program starts:\n\tsay \"a b\" # twice\n  \n// end\nsay 'c'\n"

/-- The page is read, and reads the same with the returns. -/
theorem tokenize_withReturns_ruledPage :
    (∃ tokens, tokenize ruledPage = .ok tokens ∧ tokens.any (·.kind.isString) = true) ∧
      SameScan (tokenize ruledPage) (tokenize (String.ofList (withReturns ruledPage.toList))) := by
  have hread : (tokenize ruledPage).toOption.map (fun tokens => (tokens.any (·.kind.isString),
      tokens.all fun t => !t.kind.isString || !t.text.toList.contains '\n')) =
        some (true, true) := by
    decide +kernel
  obtain ⟨tokens, htokens, hstrings⟩ := exists_ok hread
  obtain ⟨hany, hall⟩ := Prod.mk.inj hstrings
  refine ⟨⟨tokens, htokens, hany⟩,
    tokenize_withReturns ruledPage fun again hagain t ht hstring hbreak => ?_⟩
  cases htokens.symm.trans hagain
  have hone := List.all_eq_true.mp hall t ht
  rw [hstring, List.contains_iff_mem.mpr hbreak] at hone
  cases hone

end Colloquy
