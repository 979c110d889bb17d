import Colloquy.Proofs.Grammar.Following
import Colloquy.Proofs.Grammar.Parts
import Colloquy.Proofs.Grammar.Printing

/-!
# Where the prompt of a question ends

The word `and` joins conditions, arguments and elements, but `and store` ends the prompt of a
question: an expression up to the end of a line is read as the same one in front of it.
-/

namespace Colloquy

open Grammar Production List

namespace Grammar

variable {tokens tokens' room : Nat} {k m : Cursor} {phrase link : List Token} {e : Expr}
  {the : Bool} {scope : Scope} {target : String}

/-- An expression is read in front of `and store`. -/
lemma value_yields_link (hreads : Yields (value tokens room) phrase e k)
    (htokens : phrase.length + k.remaining < tokens) (hk : k.here.kind = .newline)
    (hmore : k.ahead ≠ []) (hand : m.here.kind = .keyword .and)
    (hstore : m.seesNext (.keyword .store) = true)
    (htokens' : phrase.length + m.remaining < tokens') :
    Yields (value tokens' room) phrase e m := by
  have hhalts : m.Halts := .inr ⟨hand, hstore⟩
  have hm : Follows 0 phrase m := by
    refine ⟨hhalts.quits, fun _ => hhalts.quiet, fun _ => ⟨hhalts.quits, hhalts.quiet⟩, fun _ => ?_⟩
    rw [hand]
    rfl
  have halone : Standalone (value · room) phrase e :=
    ⟨tokens, ⟨k, .inl ⟨hk, hmore⟩⟩, htokens, hreads⟩
  exact halone.value hm htokens'

/-- The words between a prompt and the end of its line. -/
def answerKinds (the : Bool) (scope : Scope) (target : String) : List TokenKind :=
  .keyword .and :: .keyword .store :: ((if the then [.keyword .the] else []) ++
    .keyword .result :: .keyword .inWord :: (scope.kinds ++ [.identifier target]))

/-- Reads the words between a prompt and the end of its line. -/
def answerTarget : Production (Scope × String) := do
  let _ ← require (.keyword .and) "'and' after ask prompt"
  let _ ← require (.keyword .store) "'store' after 'and'"
  let _ ← accept (.keyword .the)
  let _ ← require (.keyword .result) "'result' after 'store'"
  let _ ← require (.keyword .inWord) "'in' after 'store result'"
  let scope ← scopeMark
  let target ← name "variable name"
  return (scope, target)

lemma asking_eq : asking tokens room = do
    let keyword ← take
    let prompt ← value tokens room
    let answer ← answerTarget
    endOfStatement
    return .assign answer.2 answer.1 (.call "input" [prompt] keyword.line) keyword.line := by
  simp only [asking, answerTarget, bind_assoc]
  rfl

lemma scopeMark_yields {marks : List Token} (hmarks : marks.map Token.kind = scope.kinds)
    (hk : m.here.kind ≠ .keyword .global) : Yields scopeMark marks scope m := by
  cases scope with
  | plain =>
    obtain rfl := map_eq_nil_iff.mp hmarks
    exact .accept_ne hk .pure
  | global =>
    obtain ⟨mark, rest, rfl, hmark, hrest⟩ := map_eq_cons_iff.mp hmarks
    obtain rfl := map_eq_nil_iff.mp hrest
    exact .accept hmark .pure

/-- The target is read with its mark. -/
lemma scoped_yields {what : String}
    (hlink : link.map Token.kind = scope.kinds ++ [.identifier target]) :
    Yields (do
      let scope ← scopeMark
      let target ← name what
      return (scope, target)) link (scope, target) m := by
  obtain ⟨marks, names, rfl, hmarks, hnames⟩ := map_eq_append_iff.mp hlink
  obtain ⟨word, last, rfl, hword, hlast⟩ := map_eq_cons_iff.mp hnames
  obtain rfl := map_eq_nil_iff.mp hlast
  refine .bind (scopeMark_yields hmarks ?_) (.name hword .pure)
  change word.kind ≠ _
  rw [hword]
  rintro ⟨⟩

/-- The words after the prompt say where the answer goes. -/
lemma answerTarget_yields (hlink : link.map Token.kind = answerKinds the scope target) :
    Yields answerTarget link (scope, target) m := by
  obtain ⟨conj, link, rfl, hconj, hlink⟩ := map_eq_cons_iff.mp hlink
  obtain ⟨verb, link, rfl, hverb, hlink⟩ := map_eq_cons_iff.mp hlink
  refine .require hconj (.require hverb ?_)
  obtain ⟨articles, link, rfl, harticles, hlink⟩ := map_eq_append_iff.mp hlink
  obtain ⟨result, link, rfl, hresult, hlink⟩ := map_eq_cons_iff.mp hlink
  obtain ⟨place, link, rfl, hplace, hscoped⟩ := map_eq_cons_iff.mp hlink
  cases the with
  | true =>
    obtain ⟨article, _, rfl, harticle, hnone⟩ := map_eq_cons_iff.mp harticles
    obtain rfl := map_eq_nil_iff.mp hnone
    exact .accept harticle (.require hresult (.require hplace (scoped_yields hscoped)))
  | false =>
    obtain rfl := map_eq_nil_iff.mp harticles
    refine .accept_ne ?_ (.require hresult (.require hplace (scoped_yields hscoped)))
    change result.kind ≠ _
    rw [hresult]
    rintro ⟨⟩

/-- A statement ends with its line, its block or the input. -/
lemma endOfStatement_run (hend : m.here.kind ∈ [TokenKind.newline, .eof, .dedent]) :
    endOfStatement.run m = (.ok (), if m.here.kind = .newline then m.next else m) := by
  simp only [mem_cons, not_mem_nil, or_false] at hend
  rw [endOfStatement, run_bind]
  rcases hend with hk | hk | hk
  · rw [run_accept hk, if_pos hk]
    rfl
  all_goals
    rw [run_accept_ne (by rw [hk]; rintro ⟨⟩), if_neg (by rw [hk]; rintro ⟨⟩)]
    change run (if (m.sees .eof || m.sees .dedent) = true then _ else _) m = _
    rw [if_pos (by simp [Cursor.sees, hk])]
    rfl

lemma statementAt_run_ask {c : Cursor} (hk : c.here.kind = .keyword .ask) :
    (statementAt tokens room).run c = (asking tokens room).run c := by
  rw [run_statementAt hk, statementOf]

/-- A phrase that is read as an expression up to the end of its line is the prompt of a question: in
`ask ... and store the result in x` the same expression is read, and the answer goes to the name. -/
theorem ask_reads_prompt {ask : Token} (hreads : Yields (value tokens room) phrase e k)
    (htokens : phrase.length + k.remaining < tokens) (hk : k.here.kind = .newline)
    (hmore : k.ahead ≠ []) (hask : ask.kind = .keyword .ask)
    (hlink : link.map Token.kind = answerKinds the scope target)
    (hend : m.here.kind ∈ [TokenKind.newline, .eof, .dedent])
    (htokens' : (ask :: (phrase ++ link)).length + m.remaining < tokens') :
    (statementAt tokens' room).run (m.before (ask :: (phrase ++ link))) =
      (.ok (.assign target scope (.call "input" [e] ask.line) ask.line),
        if m.here.kind = .newline then m.next else m) := by
  obtain ⟨conj, words, hwords, hconj, hrest⟩ := List.map_eq_cons_iff.mp hlink
  obtain ⟨verb, words, rfl, hverb, _⟩ := List.map_eq_cons_iff.mp hrest
  have hand : (m.before link).here.kind = .keyword .and := by
    rw [hwords]
    exact hconj
  have hstore : (m.before link).seesNext (.keyword .store) = true := by
    rw [hwords, Cursor.seesNext_before (by rw [hconj]; nofun)]
    exact decide_eq_true hverb
  have hprompt : Yields (value tokens' room) phrase e (m.before link) := by
    refine value_yields_link hreads htokens hk hmore hand hstore ?_
    rw [Cursor.remaining_before]
    rw [List.length_cons, List.length_append] at htokens'
    omega
  have hanswer : Yields answerTarget link (scope, target) m := answerTarget_yields hlink
  rw [statementAt_run_ask hask, asking_eq]
  change run (value tokens' room >>= _) (m.before (ask :: (phrase ++ link))).next = _
  rw [Cursor.next_before (by rw [hask]; nofun), Cursor.before_append, run_bind, hprompt]
  dsimp only
  rw [run_bind, hanswer]
  dsimp only
  rw [run_bind, endOfStatement_run hend]
  rfl

/-- The prompt is a call whose last argument is a list, with `and` in both. -/
theorem ask_reads_prompt_arguments :
    let row : List TokenKind → List Token := List.map fun kind => ⟨kind, "", .start⟩
    let phrase :=
      row [.identifier "f", .keyword .usingWord, .identifier "y",
      .keyword .and, .keyword .list, .keyword .of,
      .identifier "a", .symbol .comma, .identifier "b", .keyword .and, .string "q"]
    let link := row (answerKinds true .global "x")
    let e : Expr := .call "f" [.identifier "y" .plain 1,
      .list [.literal (.text "a") 1, .literal (.text "b") 1, .literal (.text "q") 1] 1] 1
    let k : Cursor := ⟨⟨.newline, "", .start⟩, row [.eof], 0⟩
    Yields (value 20 3) phrase e k ∧
      (statementAt 30 3).run (k.before (⟨.keyword .ask, "ask", .start⟩ :: (phrase ++ link))) =
        (.ok (.assign "x" .global (.call "input" [e] 1) 1), k.next) := by
  intro row phrase link e k
  have hreads : Yields (value 20 3) phrase e k := by
    unfold Yields
    cbv
  have hlink : link.map Token.kind = answerKinds true .global "x" := rfl
  exact ⟨hreads, ask_reads_prompt hreads (by decide) rfl
    (List.cons_ne_nil _ _) rfl hlink (by decide) (by decide)⟩

end Grammar

end Colloquy
