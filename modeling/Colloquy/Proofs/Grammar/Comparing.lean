import Colloquy.Proofs.Grammar.Following
import Colloquy.Proofs.Grammar.Rendering

/-!
# Comparisons in signs and in words

Operands are compared with a sign, or with `is` and words, or with `or more` and `or less` behind.
Between the same operands all wordings are read as the same expression.
-/

namespace Colloquy

open Grammar Production List Cursor

namespace Wording

/-- A sign between the operands. -/
def sign (symbol : Symbol) : Wording := ⟨.symbol symbol, [], []⟩

/-- The word `is` and others between the operands. -/
def spelled (words : List Keyword) : Wording := ⟨.keyword .is, words.map .keyword, []⟩

/-- The word `is` between the operands, and others after them. -/
def deferred (words : List Keyword) : Wording := ⟨.keyword .is, [], words.map .keyword⟩

end Wording

namespace BinaryOp

/-- The signs for a comparison. -/
def signs : BinaryOp → List Symbol
  | .equal => [.equalEqual]
  | .notEqual => [.notEqual]
  | .greater => [.greater]
  | .greaterEqual => [.greaterEqual]
  | .less => [.less]
  | .lessEqual => [.lessEqual]
  | _ => []

/-- The words of a comparison between `is` and the right operand. -/
def words : BinaryOp → List (List Keyword)
  | .equal => [[.equal], [.equal, .to]]
  | .notEqual => [[.not], [.not, .equal], [.not, .equal, .to]]
  | .greater => [[.greater, .than]]
  | .greaterEqual =>
    [[.atWord, .least], [.greater, .than, .or, .equal], [.greater, .than, .or, .equal, .to]]
  | .less => [[.less, .than]]
  | .lessEqual => [[.atWord, .most], [.less, .than, .or, .equal], [.less, .than, .or, .equal, .to]]
  | _ => []

/-- The words of a comparison after the right operand; without any, it is an equality. -/
def lateWords : BinaryOp → List (List Keyword)
  | .equal => [[]]
  | .greaterEqual => [[.or, .more]]
  | .lessEqual => [[.or, .less]]
  | _ => []

/-- The wordings of a comparison. -/
def wordings (op : BinaryOp) : List Wording :=
  op.signs.map .sign ++ op.words.map .spelled ++ op.lateWords.map .deferred

end BinaryOp

namespace Grammar

variable {rounds room : Nat} {k m : Cursor} {fs bs ts us ws : List Token} {o t u : Token}
  {a b e : Expr} {op : BinaryOp}

section Words

variable {α : Type} {x : α} {first second : Keyword} {rest words : List Keyword} {flag : Bool}

lemma exists_two (h : fs.map Token.kind = (first :: second :: rest).map .keyword) :
    ∃ t u ws, fs = t :: u :: ws ∧ t.kind = .keyword first ∧ u.kind = .keyword second ∧
      ws.map Token.kind = rest.map .keyword := by
  obtain ⟨t, us, rfl, ht, hus⟩ := map_eq_cons_iff.mp h
  obtain ⟨u, ws, rfl, hu, hws⟩ := map_eq_cons_iff.mp hus
  exact ⟨t, u, ws, rfl, ht, hu, hws⟩

section

variable (hk : beginsPhrase k.here.kind = true)
include hk

lemma acceptTo_yields (hws : ws.map Token.kind = [] ∨ ws.map Token.kind = [.keyword .to]) :
    Yields (do let _ ← accept (.keyword .to); return x) ws x k := by
  rcases hws with hws | hws
  · obtain rfl := map_eq_nil_iff.mp hws
    exact .accept_ne (ne_of_beginsPhrase hk rfl) .pure
  · obtain ⟨t, rest, rfl, ht, hrest⟩ := map_eq_cons_iff.mp hws
    obtain rfl := map_eq_nil_iff.mp hrest
    exact .accept ht .pure

/-- The words `or equal to` are read before an operand. -/
lemma orEqual_yields (ht : t.kind = .keyword .or)
    (hu : u.kind = .keyword .equal) (hws : ws.map Token.kind = [] ∨
      ws.map Token.kind = [.keyword .to]) : Yields orEqual (t :: u :: ws) true k := by
  have hsees :
    ((k.before (t :: u :: ws)).sees (.keyword .or) &&
      (k.before (t :: u :: ws)).seesNext (.keyword .equal)) =
      true := by
    rw [sees_before ht, seesNext_before (by rw [ht]; rintro ⟨⟩), sees_before hu]
    rfl
  refine .cursor ?_
  rw [hsees]
  exact .take ht (.take hu (acceptTo_yields hk hws))

lemma orEqual_yields_nil : Yields orEqual [] false k := by
  have hor : k.sees (.keyword .or) = false := decide_eq_false (ne_of_beginsPhrase hk rfl)
  refine .cursor ?_
  change Yields (if (k.sees (.keyword .or) && _) = true then _ else _) [] false k
  rw [hor]
  exact .pure

lemma spelledComparison_equal (ht : t.kind = .keyword .equal)
    (hws : ws.map Token.kind = [] ∨ ws.map Token.kind = [.keyword .to]) :
    Yields spelledComparison (t :: ws) (some .equal) k := by
  refine .cursor ?_
  dsimp only [Cursor.before]
  rw [ht]
  exact .take ht (acceptTo_yields hk hws)

lemma spelledComparison_not (ht : t.kind = .keyword .not) :
    Yields spelledComparison [t] (some .notEqual) k := by
  refine .cursor ?_
  dsimp only [Cursor.before]
  rw [ht]
  exact .take ht (.accept_ne (ne_of_beginsPhrase hk rfl) .pure)

lemma spelledComparison_notEqual (ht : t.kind = .keyword .not) (hu : u.kind = .keyword .equal)
    (hws : ws.map Token.kind = [] ∨ ws.map Token.kind = [.keyword .to]) :
    Yields spelledComparison (t :: u :: ws) (some .notEqual) k := by
  refine .cursor ?_
  dsimp only [Cursor.before]
  rw [ht]
  exact .take ht (.accept hu (acceptTo_yields hk hws))

end

lemma spelledComparison_greater (ht : t.kind = .keyword .greater) (hu : u.kind = .keyword .than)
    (hws : Yields orEqual ws flag k) :
    Yields spelledComparison (t :: u :: ws)
    (some (if flag then .greaterEqual else .greater)) k := by
  refine .cursor ?_
  dsimp only [Cursor.before]
  rw [ht]
  exact .take ht (.require hu (.map hws))

lemma spelledComparison_less (ht : t.kind = .keyword .less) (hu : u.kind = .keyword .than)
    (hws : Yields orEqual ws flag k) :
    Yields spelledComparison (t :: u :: ws) (some (if flag then .lessEqual else .less)) k := by
  refine .cursor ?_
  dsimp only [Cursor.before]
  rw [ht]
  exact .take ht (.require hu (.map hws))

lemma spelledComparison_least (ht : t.kind = .keyword .atWord) (hu : u.kind = .keyword .least) :
    Yields spelledComparison [t, u] (some .greaterEqual) k := by
  refine .cursor ?_
  dsimp only [Cursor.before]
  rw [ht]
  exact .take ht (.accept hu .pure)

lemma spelledComparison_most (ht : t.kind = .keyword .atWord) (hu : u.kind = .keyword .most) :
    Yields spelledComparison [t, u] (some .lessEqual) k := by
  refine .cursor ?_
  dsimp only [Cursor.before]
  rw [ht]
  refine .take ht (.accept_ne ?_ (.accept hu .pure))
  change u.kind ≠ _
  rw [hu]
  rintro ⟨⟩

/-- The words after `is` say which comparison it is. -/
lemma spelledComparison_yields (hw : words ∈ op.words)
    (hfs : fs.map Token.kind = words.map .keyword) (hk : beginsPhrase k.here.kind = true) :
    Yields spelledComparison fs (some op) k := by
  have horEqual {rest : List Keyword} {ws : List Token} (hto : rest = [] ∨ rest = [.to])
      (hws : ws.map Token.kind = (.or :: .equal :: rest : List Keyword).map .keyword) :
      Yields orEqual ws true k := by
    obtain ⟨t, u, vs, rfl, ht, hu, hvs⟩ := exists_two hws
    refine orEqual_yields hk ht hu ?_
    rcases hto with rfl | rfl
    · exact .inl hvs
    · exact .inr hvs
  have hnoEqual {ws : List Token} (hws : ws.map Token.kind = []) : Yields orEqual ws false k := by
    obtain rfl := map_eq_nil_iff.mp hws
    exact orEqual_yields_nil hk
  cases op with
  | equal =>
    simp only [BinaryOp.words, mem_cons, not_mem_nil, or_false] at hw
    rcases hw with rfl | rfl
    · obtain ⟨t, ws, rfl, ht, hws⟩ := map_eq_cons_iff.mp hfs
      exact spelledComparison_equal hk ht (.inl hws)
    · obtain ⟨t, ws, rfl, ht, hws⟩ := map_eq_cons_iff.mp hfs
      exact spelledComparison_equal hk ht (.inr hws)
  | notEqual =>
    simp only [BinaryOp.words, mem_cons, not_mem_nil, or_false] at hw
    rcases hw with rfl | rfl | rfl
    · obtain ⟨t, ws, rfl, ht, hws⟩ := map_eq_cons_iff.mp hfs
      obtain rfl := map_eq_nil_iff.mp hws
      exact spelledComparison_not hk ht
    · obtain ⟨t, u, ws, rfl, ht, hu, hws⟩ := exists_two hfs
      exact spelledComparison_notEqual hk ht hu (.inl hws)
    · obtain ⟨t, u, ws, rfl, ht, hu, hws⟩ := exists_two hfs
      exact spelledComparison_notEqual hk ht hu (.inr hws)
  | greater =>
    obtain rfl := mem_singleton.mp hw
    obtain ⟨t, u, ws, rfl, ht, hu, hws⟩ := exists_two hfs
    exact spelledComparison_greater ht hu (hnoEqual hws)
  | less =>
    obtain rfl := mem_singleton.mp hw
    obtain ⟨t, u, ws, rfl, ht, hu, hws⟩ := exists_two hfs
    exact spelledComparison_less ht hu (hnoEqual hws)
  | greaterEqual =>
    simp only [BinaryOp.words, mem_cons, not_mem_nil, or_false] at hw
    rcases hw with rfl | rfl | rfl
    · obtain ⟨t, u, ws, rfl, ht, hu, hws⟩ := exists_two hfs
      obtain rfl := map_eq_nil_iff.mp hws
      exact spelledComparison_least ht hu
    · obtain ⟨t, u, ws, rfl, ht, hu, hws⟩ := exists_two hfs
      exact spelledComparison_greater ht hu (horEqual (.inl rfl) hws)
    · obtain ⟨t, u, ws, rfl, ht, hu, hws⟩ := exists_two hfs
      exact spelledComparison_greater ht hu (horEqual (.inr rfl) hws)
  | lessEqual =>
    simp only [BinaryOp.words, mem_cons, not_mem_nil, or_false] at hw
    rcases hw with rfl | rfl | rfl
    · obtain ⟨t, u, ws, rfl, ht, hu, hws⟩ := exists_two hfs
      obtain rfl := map_eq_nil_iff.mp hws
      exact spelledComparison_most ht hu
    · obtain ⟨t, u, ws, rfl, ht, hu, hws⟩ := exists_two hfs
      exact spelledComparison_less ht hu (horEqual (.inl rfl) hws)
    · obtain ⟨t, u, ws, rfl, ht, hu, hws⟩ := exists_two hfs
      exact spelledComparison_less ht hu (horEqual (.inr rfl) hws)
  | or | and | add | subtract | multiply | divide => cases hw

/-- Before an operand there is no comparison in words. -/
lemma spelledComparison_none (hk : beginsPhrase k.here.kind = true)
    (hnot : k.here.kind ≠ .keyword .not) :
    spelledComparison.run k = (.ok none, k) := by
  rw [spelledComparison, run_cursor]
  generalize hkind : k.here.kind = kind at hk hnot
  split
  · cases hk
  · exact (hnot rfl).elim
  · cases hk
  · cases hk
  · cases hk
  · rfl

/-- The words behind the right operand are read. -/
lemma trailingComparison_yields (hw : words ∈ op.lateWords)
    (hbs : bs.map Token.kind = words.map .keyword) (hm : m.here.kind ≠ .keyword .or) :
    Yields trailingComparison bs op m := by
  cases op with
  | equal =>
    obtain rfl := mem_singleton.mp hw
    obtain rfl := map_eq_nil_iff.mp hbs
    have hor : m.sees (.keyword .or) = false := decide_eq_false hm
    refine .cursor ?_
    change Yields (if (m.sees (.keyword .or) && _) = true then _
      else if (m.sees (.keyword .or) && _) = true then _ else _) [] BinaryOp.equal m
    rw [hor]
    exact .pure
  | greaterEqual =>
    obtain rfl := mem_singleton.mp hw
    obtain ⟨t, u, vs, rfl, ht, hu, hvs⟩ := exists_two hbs
    obtain rfl := map_eq_nil_iff.mp hvs
    refine .cursor ?_
    rw [sees_before ht, seesNext_before (by rw [ht]; rintro ⟨⟩), sees_before hu]
    exact .take ht (.take hu .pure)
  | lessEqual =>
    obtain rfl := mem_singleton.mp hw
    obtain ⟨t, u, vs, rfl, ht, hu, hvs⟩ := exists_two hbs
    obtain rfl := map_eq_nil_iff.mp hvs
    have hmore : (m.before [u]).sees (.keyword .more) = false := by
      refine decide_eq_false ?_
      change u.kind ≠ _
      rw [hu]
      rintro ⟨⟩
    refine .cursor ?_
    rw [sees_before ht, seesNext_before (by rw [ht]; rintro ⟨⟩),
      seesNext_before (by rw [ht]; rintro ⟨⟩), sees_before hu, hmore]
    exact .take ht (.take hu .pure)
  | or | and | notEqual | greater | less | add | subtract | multiply | divide => cases hw

end Words

section Operands

variable {words : List Keyword} {line : Nat}

lemma comparisonOperator_rests (hk : comparisonSymbol? k.here.kind = none) :
    comparisonOperator.run k = (.ok none, k) := by
  rw [comparisonOperator, run_cursor, hk]
  rfl

lemma iterate_once {σ : Type} {step : σ → Production (Option σ)} {x y : σ}
    (h : Yields (step x) ts (some y) k) (hk : (step y).run k = (.ok none, k)) :
    Yields (iterate step (rounds + 1) x) ts y k := by
  rw [← append_nil ts]
  exact .iterate_some h (.iterate_none hk)

lemma comparison_yields_operand (h : Yields (term rounds (exprAt rounds) room) ts e k)
    (hk : comparisonSymbol? k.here.kind = none) :
    Yields (comparison rounds (exprAt rounds) room) ts e k := by
  rw [← append_nil ts]
  exact .bind h (.iterate_none (operatorRound_none (comparisonOperator_rests hk)))

lemma comparison_yields_sign
    (ha : Yields (term (rounds + 1) (exprAt (rounds + 1)) room) ts a (m.before (o :: us)))
    (ho : comparisonSymbol? o.kind = some op)
    (hb : Yields (term (rounds + 1) (exprAt (rounds + 1)) room) us b m)
    (hm : comparisonSymbol? m.here.kind = none) :
    Yields (comparison (rounds + 1) (exprAt (rounds + 1)) room) (ts ++ o :: us)
    (.binary op a b o.line) m :=
  .bind ha (iterate_once (operatorRound_yields (comparisonOperator_yields ho) hb)
    (operatorRound_none (comparisonOperator_rests hm)))

lemma comparedWith_spelled (hw : words ∈ op.words) (hfs : fs.map Token.kind = words.map .keyword)
    (hus : beginsPhrase (m.before us).here.kind = true)
    (hb : Yields (comparison rounds (exprAt rounds) room) us b m) :
    Yields (comparedWith rounds (exprAt rounds) room a line) (fs ++ us)
    (some (.binary op a b line)) m :=
  .bind (spelledComparison_yields hw hfs hus) (.map hb)

lemma comparedWith_deferred (hw : words ∈ op.lateWords)
    (hbs : bs.map Token.kind = words.map .keyword)
    (hus : beginsPhrase (m.before (us ++ bs)).here.kind = true)
    (hnot : (m.before (us ++ bs)).here.kind ≠ .keyword .not)
    (hb : Yields (comparison rounds (exprAt rounds) room) us b (m.before bs))
    (hm : m.here.kind ≠ .keyword .or) :
    Yields (comparedWith rounds (exprAt rounds) room a line) (us ++ bs)
    (some (.binary op a b line)) m :=
  .still (spelledComparison_none hus hnot) (.bind hb (.map (trailingComparison_yields hw hbs hm)))

/-- A comparison with `is` is read after its left operand. -/
lemma equality_yields_is
    (ha : Yields (comparison (rounds + 1) (exprAt (rounds + 1)) room) ts a (m.before (o :: us)))
    (ho : o.kind = .keyword .is)
    (hb : Yields (comparedWith (rounds + 1) (exprAt (rounds + 1)) room a o.line) us (some e) m)
    (hm : m.here.kind ≠ .keyword .is) :
    Yields (equality (rounds + 1) (exprAt (rounds + 1)) room) (ts ++ o :: us) e m := by
  have hround :
      Yields (equalityRound (rounds + 1) (exprAt (rounds + 1)) room a) (o :: us) (some e) m := by
    refine .cursor ?_
    rw [sees_before ho]
    exact .take ho hb
  have hend : (equalityRound (rounds + 1) (exprAt (rounds + 1)) room e).run m = (.ok none, m) := by
    change run (if m.sees (.keyword .is) then _ else _) m = _
    rw [Cursor.sees, decide_eq_false hm]
    rfl
  exact .bind ha (iterate_once hround hend)

end Operands

section Following

variable {level n : Nat} {phrase : List Token}

/-- An operand ends before an operator of a looser level. -/
lemma follows_operator (hj : joint m.here.kind = some n) (hn : n < level) (hand : n ≠ 1)
    (hplain : ∀ t ∈ phrase, t.kind.opensArguments = false) : Follows level phrase m := by
  have htrails : m.here.kind.trails = false := by
    unfold TokenKind.trails
    split <;> first | rfl | (rename_i he; rw [he] at hj; cases hj)
  have hquits : m.Quits level := by
    refine ⟨htrails, .inl fun j hj' => ?_⟩
    rwa [← Option.some.inj (hj.symm.trans hj')]
  refine .of_quits hquits ⟨?_, ?_⟩ hplain
  · intro he
    rw [he] at hj
    cases hj
  · refine Bool.eq_false_iff.mpr fun hsees => hand ?_
    rw [kind_of_seesAnd hsees] at hj
    exact (Option.some.inj hj).symm

end Following

/-- Words behind begin with a joint. -/
lemma lateWords_cases {words : List Keyword} (hw : words ∈ op.lateWords)
    (hbs : bs.map Token.kind = words.map .keyword) :
    bs = [] ∨ joint (m.before bs).here.kind = some 0 := by
  have hor {second : Keyword} (hwords : words = [.or, second]) :
      joint (m.before bs).here.kind = some 0 := by
    subst hwords
    obtain ⟨t, ts, rfl, ht, _⟩ := map_eq_cons_iff.mp hbs
    change joint t.kind = _
    rw [ht]
    rfl
  cases op with
  | equal =>
    obtain rfl := mem_singleton.mp hw
    exact .inl (map_eq_nil_iff.mp hbs)
  | greaterEqual | lessEqual => exact .inr (hor (mem_singleton.mp hw))
  | or | and | notEqual | greater | less | add | subtract | multiply | divide => cases hw

lemma comparisonSymbol?_of_mem_signs {symbol : Symbol} (h : symbol ∈ op.signs) :
    comparisonSymbol? (.symbol symbol) = some op ∧ joint (.symbol symbol) = some 2 := by
  cases op with
  | equal | notEqual | greater | greaterEqual | less | lessEqual =>
    obtain rfl := mem_singleton.mp h
    exact ⟨rfl, rfl⟩
  | or | and | add | subtract | multiply | divide => cases h

/-- Whatever sums the operands are, the wordings are read as the same expression. -/
theorem value_wording {tokens : Nat} {w : Wording} (hw : w ∈ op.wordings)
    (ha : Standalone (fun tokens => term tokens (exprAt tokens) room) ts a)
    (hb : Standalone (fun tokens => term tokens (exprAt tokens) room) us b)
    (hplain : ∀ t ∈ ts ++ us, t.kind.opensArguments = false)
    (hnot : ∀ t ∈ us.head?, t.kind ≠ .keyword .not) (ho : o.kind = w.first)
    (hfs : fs.map Token.kind = w.front) (hbs : bs.map Token.kind = w.back) (hquits : m.Quits 0)
    (hquiet : m.Quiet) (htokens : (ts ++ o :: (fs ++ (us ++ bs))).length + m.remaining < tokens) :
    Yields (value tokens (room + 1)) (ts ++ o :: (fs ++ (us ++ bs))) (.binary op a b o.line) m := by
  obtain ⟨t, us, rfl, ht⟩ := hb.begins fun hk => .bind (.bind (unary_fails hk))
  simp only [List.length_append, List.length_cons] at htokens
  obtain ⟨rounds, rfl⟩ : ∃ rounds, tokens = rounds + 1 + 1 := ⟨tokens - 2, by omega⟩
  have hplaina : ∀ x ∈ ts, x.kind.opensArguments = false :=
    fun x hx => hplain x (List.mem_append_left _ hx)
  have hplainb : ∀ x ∈ t :: us, x.kind.opensArguments = false :=
    fun x hx => hplain x (List.mem_append_right _ hx)
  -- the left operand ends before a sign and before `is`, the right one where the comparison ends
  -- and before `or`
  have hleft (hj : joint o.kind = some 2) :
    Yields (term (rounds + 1) (exprAt (rounds + 1)) room) ts a
      (m.before (o :: (fs ++ (t :: us ++ bs)))) := by
    refine ha.term (follows_operator hj (by decide) (by decide) hplaina) ?_
    rw [Cursor.remaining_before]
    simp only [List.length_append, List.length_cons]
    omega
  have hright (hend : Follows 3 (t :: us) (m.before bs)) :
      Yields (term (rounds + 1) (exprAt (rounds + 1)) room) (t :: us) b (m.before bs) := by
    refine hb.term hend ?_
    rw [Cursor.remaining_before]
    simp only [List.length_cons]
    omega
  have hend : Follows 3 (t :: us) m := .of_quits (hquits.mono (by decide)) hquiet hplainb
  have hsign : comparisonSymbol? m.here.kind = none :=
    comparisonSymbol?_none (hquits.joint_ne (by decide) (by decide))
  have his : comparisonSymbol? (.keyword .is) = none := rfl
  refine value_yields_equality ?_ hquits
  simp only [BinaryOp.wordings, List.mem_append, List.mem_map] at hw
  rcases hw with (⟨symbol, hsymbol, rfl⟩ | ⟨words, hwords, rfl⟩) | ⟨words, hwords, rfl⟩
  · have ho : o.kind = .symbol symbol := ho
    obtain ⟨hop, hj⟩ := comparisonSymbol?_of_mem_signs hsymbol
    rw [← ho] at hop hj
    have hleft := hleft hj
    obtain rfl := List.map_eq_nil_iff.mp hfs
    obtain rfl := List.map_eq_nil_iff.mp hbs
    rw [List.nil_append, List.append_nil] at hleft ⊢
    exact equality_yields (comparison_yields_sign hleft hop (hright hend) hsign)
      (hquits.stops (by decide) (by decide))
  · have ho : o.kind = .keyword .is := ho
    have hleft := comparison_yields_operand (hleft (ho ▸ rfl)) (ho ▸ his)
    obtain rfl := List.map_eq_nil_iff.mp hbs
    rw [List.append_nil] at hleft ⊢
    refine equality_yields_is hleft ho ?_ (hquits.ne rfl)
    exact comparedWith_spelled hwords hfs ht (comparison_yields_operand (hright hend) hsign)
  · have ho : o.kind = .keyword .is := ho
    have hleft := comparison_yields_operand (hleft (ho ▸ rfl)) (ho ▸ his)
    obtain rfl := List.map_eq_nil_iff.mp hfs
    rw [List.nil_append] at hleft ⊢
    refine equality_yields_is hleft ho ?_ (hquits.ne rfl)
    refine comparedWith_deferred hwords hbs ht (hnot t rfl) ?_ (hquits.ne rfl)
    rcases lateWords_cases hwords hbs with rfl | hj
    · exact comparison_yields_operand (hright hend) hsign
    · have hlate : Follows 3 (t :: us) (m.before bs) :=
        follows_operator hj (by decide) (by decide) hplainb
      refine comparison_yields_operand (hright hlate) (comparisonSymbol?_none ?_)
      rw [hj]
      rintro ⟨⟩

/-- With a list in a product and a sum, `or` after the right operand is no operator. -/
theorem value_wording_orMore :
    let row : List TokenKind → List Token := List.map fun kind => ⟨kind, "", .start⟩
    let left :=
      row [.identifier "x", .keyword .divided, .keyword .byWord, .keyword .list, .keyword .of,
      .identifier "p", .symbol .comma, .identifier "q"]
    let right := row [.symbol .minus, .identifier "y", .symbol .plus, .identifier "z"]
    let a : Expr := .binary .divide (.identifier "x" .plain 1)
      (.list [.literal (.text "p") 1, .literal (.text "q") 1] 1) 1
    let b : Expr :=
      .binary .add (.unary .negate (.identifier "y" .plain 1) 1) (.identifier "z" .plain 1) 1
    let k : Cursor := ⟨⟨.newline, "", .start⟩, row [.eof], 0⟩
    let is : Token := ⟨.keyword .is, "is", .start⟩
    Standalone (fun tokens => term tokens (exprAt tokens) 2) left a ∧
      Standalone (fun tokens => term tokens (exprAt tokens) 2) right b ∧
      Yields (value 20 3) (left ++ is :: (right ++ row [.keyword .or, .keyword .more]))
        (.binary .greaterEqual a b 1) k := by
  intro row left right a b k is
  have ha : Standalone (fun tokens => term tokens (exprAt tokens) 2) left a := by
    refine ⟨20, ⟨k, .inl ⟨rfl, List.cons_ne_nil _ _⟩⟩, by decide, ?_⟩
    unfold Yields
    cbv
  have hb : Standalone (fun tokens => term tokens (exprAt tokens) 2) right b := by
    refine ⟨20, ⟨k, .inl ⟨rfl, List.cons_ne_nil _ _⟩⟩, by decide, ?_⟩
    unfold Yields
    cbv
  have hw : Wording.deferred [.or, .more] ∈ BinaryOp.greaterEqual.wordings :=
    List.mem_append_right _ (List.mem_singleton.mpr rfl)
  have hhalts : k.Halts := .inl rfl
  have hplain : ∀ t ∈ left ++ right, t.kind.opensArguments = false := by decide
  have hnot : ∀ t ∈ right.head?, t.kind ≠ .keyword .not := by
    rintro t ⟨⟩ ⟨⟩
  have hrow := value_wording (m := k) hw ha hb hplain hnot (show is.kind = _ from rfl)
    (show ([] : List Token).map Token.kind = _ from rfl)
    (show (row [.keyword .or, .keyword .more]).map Token.kind =
      _ from rfl) hhalts.quits hhalts.quiet
    (show _ < 20 by decide)
  exact ⟨ha, hb, hrow⟩

end Grammar

end Colloquy
