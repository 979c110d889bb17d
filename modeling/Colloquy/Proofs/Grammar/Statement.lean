import Colloquy.Proofs.Grammar.Expression
import Colloquy.Proofs.Grammar.Parts

/-!
# Statements are read alike

A `Seam` is a correspondence of cursors that is tight inside a statement and loose after one, where
one reader may find more empty lines than another, or other statements where the input of the other
has ended. Under a seam statements are read alike.
-/

namespace Colloquy

open Production List Cursor Option Bool Stmt

/-- The kinds of tokens inside the lines of a text, apart from braces. -/
def TokenKind.isThread (kind : TokenKind) : Bool :=
  kind.isPlain && kind ≠ .symbol .leftBrace && kind ≠ .symbol .rightBrace

/-- A correspondence of cursors, at every number of open blocks and braces, under which statements
are read alike. No braces are open between statements. -/
structure Seam (f g : Nat → Nat) (R : Nat → Nat → Cursor → Cursor → Prop)
    (loose across : Nat → Cursor → Cursor → Prop) :
    Prop where
  tandem (n : Nat) : Tandem f g none fun s => R n s.braces
  tallies {n : Nat} {c d : Cursor} : R n 0 c d → c.here.Tallies f g d.here
  depth {n : Nat} {c d : Cursor} : R n 0 c d → n ≤ c.depth
  deeper {n : Nat} {c d : Cursor} :
    R n 0 c d → R (n + 1) 0 { c with depth := c.depth + 1 } { d with depth := d.depth + 1 }
  shallower {n : Nat} {c d : Cursor} :
    R (n + 1) 0 c d → R n 0 { c with depth := c.depth - 1 } { d with depth := d.depth - 1 }
  newline {n : Nat} {c d : Cursor} : R n 0 c d → c.here.kind = .newline →
  Ahead (loose n) c d c.next d.next
  indent {n : Nat} {c d : Cursor} : R n 0 c d → c.here.kind = .indent →
  Ahead (R n 0) c d c.next d.next
  dedent {n : Nat} {c d : Cursor} : R n 0 c d → c.here.kind = .dedent →
  Ahead (R n 0) c d c.next d.next
  loose_of_tight {n : Nat} {c d : Cursor} : R n 0 c d → loose n c d
  loose_of_across {n : Nat} {c d : Cursor} : across n c d → loose n c d
  skip {n : Nat} {c d : Cursor} : loose n c d →
    Along (fun c d => R n 0 c d ∨ across n c d) c d (c.pass [.newline]) (d.pass [.newline])
  across_shallower {n : Nat} {c d : Cursor} :
    across (n + 1) c d → across n { c with depth := c.depth - 1 } { d with depth := d.depth - 1 }
  across_kind {n : Nat} {c d : Cursor} : across n c d → c.here.kind = .eof ∨
    c.here.kind = .dedent ∧ d.here.kind = .dedent ∧ Ahead (across n) c d c.next d.next
  across_else {n : Nat} {c d : Cursor} : across n c d → d.here.kind ≠ .keyword .elseWord

namespace Seam

variable {α β : Type} {f g : Nat → Nat} {R : Nat → Nat → Cursor → Cursor → Prop}
  {loose across : Nat → Cursor → Cursor → Prop} {rel : α → β → Prop}
  {post : α → Cursor → Cursor → Prop} {lost : Cursor → Prop} {n : Nat} {c d : Cursor}
  {kind next : TokenKind} {what : String}

section

variable (hs : Seam f g R loose across) (h : R n 0 c d)
include hs h

/-- Behind a token of a line both readers are on the way. -/
lemma past (hk : c.here.kind = kind) (hp : kind.isThread = true) :
    Ahead (R n 0) c d c.next d.next := by
  simp only [TokenKind.isThread, and_eq_true, decide_eq_true_eq] at hp
  by_cases hcomma : c.here.kind = .symbol .comma
  · rcases (hs.tandem n).comma (s := .top) h hcomma with hg | ⟨hnext, hleft, hright⟩
    · exact (not_gone hg).elim
    · rcases hnext with hR | ⟨hpos, _⟩
      · exact ⟨hR, hleft, hright⟩
      · exact (Nat.lt_irrefl 0 hpos).elim
  · have hhinge : c.here.kind.isHinge = false := by
      unfold TokenKind.isHinge
      split
      · exact (hcomma ‹_›).elim
      · exact (hp.1.2 (hk.symm.trans ‹_›)).elim
      · exact (hp.2 (hk.symm.trans ‹_›)).elim
      · rfl
    exact ((hs.tandem n).next (s := .top) h (hs.tallies h).kind
      (hk ▸ hp.1.1) hhinge).resolve_left not_gone

lemma accept (hp : kind.isThread = true) {r : Bool → Production α} {t : Bool → Production β}
    (hyes : Ahead (R n 0) c d c.next d.next → Concurs lost rel post (r true) (t true) c.next d.next)
    (hno : c.here.kind ≠ kind → Concurs lost rel post (r false) (t false) c d) :
    Concurs lost rel post (Production.accept kind >>= r) (Production.accept kind >>= t) c d :=
  .accept (by rw [(hs.tallies h).kind]) (fun hk => hyes (hs.past h hk hp)) hno

/-- Both readers find the token they need, or neither. -/
lemma require (hp : kind.isThread = true) {r : Token → Production α} {t : Token → Production β}
    (hyes : Ahead (R n 0) c d c.next d.next →
      Concurs lost rel post (r c.here) (t d.here) c.next d.next) :
    Concurs lost rel post (Production.require kind what >>= r)
    (Production.require kind what >>= t) c d :=
  .require (hs.tallies h).kind.trans fun hk => hyes (hs.past h hk hp)

lemma name_reads : Reads never (R n 0) Eq (Production.name what) (Production.name what) c d :=
  (hs.tandem n).name_reads (s := .top) (fun hg => (not_gone hg).elim) h

lemma sees : d.sees kind = c.sees kind := by
  rw [Cursor.sees, Cursor.sees, (hs.tallies h).kind]

/-- Both readers see the same token ahead. -/
lemma seesNext (hk : c.here.kind = kind)
    (hp : kind.isThread = true) : d.seesNext next = c.seesNext next := by
  have hc : c.here.kind ≠ .eof := by
    intro he
    rw [← hk, he] at hp
    cases hp
  have hd : d.here.kind ≠ .eof := (hs.tallies h).kind ▸ hc
  rw [Cursor.seesNext, Cursor.seesNext, peek_one hc, peek_one hd,
    (hs.tallies (hs.past h hk hp).related).kind]

lemma sees_and_seesNext (hp : kind.isThread = true) :
    (d.sees kind && d.seesNext next) = (c.sees kind && c.seesNext next) := by
  rw [hs.sees h]
  by_cases hk : c.here.kind = kind
  · rw [hs.seesNext h hk hp]
  · simp [Cursor.sees, hk]

end

end Seam

namespace Grammar

/-- The lines of a condition and its block. -/
def mapGuarded (f : Nat → Nat) (g : Guarded) : Guarded :=
  ⟨g.condition.mapLine f, g.body.map (Stmt.mapLine f), f g.line⟩

/-- The lines of a chain of conditions are those of its parts. -/
lemma chain_mapLine {f : Nat → Nat} {first : Guarded} {others : List Guarded}
    {last : Option (List Stmt)} :
    (chain first others last).mapLine f =
      chain (mapGuarded f first) (others.map (mapGuarded f)) (Stmt.mapBranch f last) := by
  have htail :
    Stmt.mapBranch f
      (others.foldr (fun g rest => some [.ifElse g.condition g.body rest g.line]) last) =
      (others.map (mapGuarded f)).foldr (fun g rest =>
      some [.ifElse g.condition g.body rest g.line]) (Stmt.mapBranch f last) := by
    induction others with
    | nil => rfl
    | cons g others ih =>
      rw [map_cons, foldr_cons, foldr_cons, ← ih]
      simp only [Stmt.mapBranch, Stmt.mapLines, Stmt.mapLine, mapLines_eq_map, mapGuarded]
  simp only [chain, Stmt.mapLine, htail, mapLines_eq_map, mapGuarded]

/-- The same condition and block up to their lines. -/
def LikeGuarded (f g : Nat → Nat) (x y : Guarded) : Prop := mapGuarded f x = mapGuarded g y

/-- The same for the links of two chains. -/
def LikeLinks (f g : Nat → Nat) (xs ys : List Guarded) : Prop :=
  xs.map (mapGuarded f) = ys.map (mapGuarded g)

section Chains

variable {f g : Nat → Nat} {first first' : Guarded} {others others' : List Guarded}
  {last last' : Option (List Stmt)}

lemma LikeGuarded.of {condition condition' : Expr} {body body' : List Stmt} {line line' : Nat}
    (hc : condition.Like f g condition') (hb : LikeAll f g body body')
    (hl : f line = g line') :
    LikeGuarded f g ⟨condition, body, line⟩ ⟨condition', body', line'⟩ := by
  rw [LikeAll, mapLines_eq_map, mapLines_eq_map] at hb
  rw [LikeGuarded, mapGuarded, mapGuarded, show condition.mapLine f = _ from hc, hb, hl]

lemma LikeLinks.concat (hs : LikeLinks f g others others') (h : LikeGuarded f g first first') :
    LikeLinks f g (others ++ [first]) (others' ++ [first']) := by
  rw [LikeLinks, map_append, map_append,
    show others.map (mapGuarded f) = _ from hs, map_singleton,
    map_singleton, show mapGuarded f first = _ from h]

lemma chain_like (h : LikeGuarded f g first first') (hs : LikeLinks f g others others')
    (hlast : Stmt.mapBranch f last = Stmt.mapBranch g last') :
    (chain first others last).Like f g (chain first' others' last') := by
  rw [Like, chain_mapLine, chain_mapLine, show mapGuarded f first = _ from h,
    show others.map (mapGuarded f) = _ from hs, hlast]

end Chains

section Productions

variable {f g : Nat → Nat} {R : Nat → Nat → Cursor → Cursor → Prop}
  {loose across : Nat → Cursor → Cursor → Prop} {tokens tokens' room n : Nat}
  {inner inner' : InnerStatement} {c d : Cursor}

/-- Cursors that have passed the ends of lines. -/
def Landed (R : Nat → Nat → Cursor → Cursor → Prop) (across : Nat → Cursor → Cursor → Prop)
    (n : Nat) (c d : Cursor) :
    Prop := R n 0 c d ∨ across n c d

/-- Whether a token of this kind begins a declaration. -/
def declares : TokenKind → Bool
  | .keyword .when | .keyword .every | .keyword .to => true
  | _ => false

/-- A declaration here is at the top for the second reader if it is for the first. -/
def Admits (c d : Cursor) : Prop := declares c.here.kind = true → c.depth = 0 → d.depth = 0

/-- Inner statements are read alike. -/
def InnerStatementAlike (f g : Nat → Nat) (R : Nat → Nat → Cursor → Cursor → Prop)
    (loose : Nat → Cursor → Cursor → Prop) (tokens tokens' : Nat)
    (inner inner' : InnerStatement) : Prop :=
  ∀ n c d, R n 0 c d → Admits c d → Room tokens tokens' c d →
  Reads never (loose n) (Stmt.Like f g) inner inner' c d

variable (hs : Seam f g R loose across)

include hs in
/-- Expressions in statements are read alike. -/
lemma value_reads (h : R n 0 c d) (hroom : Room tokens tokens' c d) :
    Reads never (R n 0) (Expr.Like f g) (value tokens room) (value tokens' room) c d := by
  intro e c' hr
  have he : EndsAt f g (fun s => R n s.braces) .top 0 := fun _ _ h => .inl (hs.tallies h)
  rcases expressionAt_reads (hs.tandem n) he h hroom e c' hr with hl | hd
  · exact (not_lost hl).elim
  · exact .inr hd

include hs in
lemma scopeMark_passes (h : R n 0 c d) : Passes never (R n 0) Eq scopeMark scopeMark c d :=
  hs.accept h rfl (fun h1 => .pure rfl h1.along) (fun _ => .pure rfl (.refl h))

include hs in
/-- Statements end alike. -/
lemma endOfStatement_passes (h : R n 0 c d) :
    Passes never (loose n) Eq endOfStatement endOfStatement c d := by
  refine .accept (by rw [(hs.tallies h).kind]) (fun hnl => ?_) (fun _ => ?_)
  · exact .pure rfl (hs.newline h hnl).along
  · refine .cursor ?_
    rw [hs.sees h, hs.sees h]
    split
    · exact .pure rfl (.refl (hs.loose_of_tight h))
    · exact .expected

include hs in
lemma skipNewlines_passes (h : loose n c d) (hroom : Room tokens tokens' c d) :
    Passes never (Landed R across n) Eq (skipNewlines tokens) (skipNewlines tokens') c d := by
  have hend : TokenKind.eof ∉ [TokenKind.newline] := by decide
  have hc : run (skipNewlines tokens) c = (.ok (), c.pass [.newline]) := run_skipAll hend hroom.left
  have hd : run (skipNewlines tokens') d = (.ok (), d.pass [.newline]) :=
    run_skipAll hend hroom.right
  exact .of_runs hc hd rfl (hs.skip h)

lemma skipNewlines_ended (he : ended c) : run (skipNewlines tokens) c = (.ok (), c) :=
  run_skipAll_eof (by decide) he

section Blocks

variable (hinner : InnerStatementAlike f g R loose tokens tokens' inner inner')

include hs hinner in
/-- A round of a block reads the same statement, or ends both blocks. -/
lemma blockRound_concurs {body body' : List Stmt} (hb : LikeAll f g body body')
    (h : loose (n + 1) c d) (hroom : Room tokens tokens' c d) :
    Concurs ended (Rel (LikeAll f g))
    (Round (loose (n + 1)) (Landed R across (n + 1)) c d)
      (blockRound tokens inner body) (blockRound tokens' inner' body') c d := by
  refine (skipNewlines_passes hs h hroom).bind fun _ _ c1 d1 _ h1 => ?_
  refine .cursor ?_
  rcases h1.related with ht | ho
  · rw [hs.sees ht, hs.sees ht]
    split
    · exact .pure .none h1
    · have hadmits : Admits c1 d1 :=
        fun _ htop => (Nat.not_succ_le_zero n (htop ▸ hs.depth ht)).elim
      refine (hinner (n + 1) c1 d1 ht hadmits (hroom.along h1)).bind
        fun stmt stmt' c2 d2 hst h2 => ?_
      exact .pure (.some (hb.concat hst)) (h1.ahead h2)
  · rcases hs.across_kind ho with heof | ⟨hc, hd, _⟩
    · -- the first input is at its end, the second goes on
      intro a c2 hr
      have hstop : (c1.sees .dedent || c1.sees .eof) = true := by simp [Cursor.sees, heof]
      rw [hstop] at hr
      cases hr
      exact .inl heof
    · have hstop : (c1.sees .dedent || c1.sees .eof) = true := by simp [Cursor.sees, hc]
      have hstop' : (d1.sees .dedent || d1.sees .eof) = true := by simp [Cursor.sees, hd]
      rw [hstop, hstop']
      exact .pure .none h1

/-- A round that begins at the end stays there. -/
lemma blockRound_ended {body : List Stmt} {o : Option (List Stmt)} {c c' : Cursor} (he : ended c)
    (hr : (blockRound tokens inner body).run c = (.ok o, c')) : ended c' := by
  rw [blockRound, run_bind, skipNewlines_ended he] at hr
  have hstop : (c.sees .dedent || c.sees .eof) = true := by
    have he : c.here.kind = .eof := he
    simp [Cursor.sees, he]
  change run (if (c.sees .dedent || c.sees .eof) = true then _ else _) c = _ at hr
  rw [hstop] at hr
  cases hr
  exact he

include hs in
/-- Blocks are left alike. -/
lemma endOfBlock_reads {body body' : List Stmt} (hb : LikeAll f g body body')
    (h : Landed R across (n + 1) c d) :
    Reads never (Landed R across n) (LikeAll f g) (endOfBlock body)
    (endOfBlock body') c d := by
  rcases h with ht | ho
  · have ht := hs.shallower ht
    refine .setDepth ?_
    refine .require (hs.tallies ht).kind.trans fun hk => .pure hb ?_
    obtain ⟨hrel, hleft, hright⟩ := hs.dedent ht hk
    exact ⟨.inl hrel, hleft, hright⟩
  · have ho := hs.across_shallower ho
    refine .setDepth ?_
    rcases hs.across_kind ho with heof | ⟨_, hd, hrel, hleft, hright⟩
    · refine .require (fun hk => ?_) (fun hk => ?_)
      · rw [hk] at heof
        cases heof
      · rw [hk] at heof
        cases heof
    · exact .require (fun _ => hd) fun _ => .pure hb ⟨.inr hrel, hleft, hright⟩

include hs hinner in
/-- Blocks are read alike. -/
lemma block_reads (h : R n 0 c d) (hroom : Room tokens tokens' c d) :
    Concurs never (LikeAll f g) (fun _ => Ahead (Landed R across n) c d) (block tokens inner)
      (block tokens' inner') c d := by
  refine hs.require h rfl fun h1 => ?_
  refine .require (hs.tallies h1.related).kind.trans fun hnl => ?_
  have h2 := h1.ahead (hs.newline h1.related hnl)
  refine (skipNewlines_passes hs h2.related (hroom.along h2.along)).bind fun _ _ c3 d3 _ h3 => ?_
  have h3 := h2.trans h3
  rcases h3.related with ht | ho
  · refine .require (hs.tallies ht).kind.trans fun hin => ?_
    have h4 := h3.ahead (hs.indent ht hin)
    refine .setDepth ?_
    have h5 : Ahead (loose (n + 1)) c d { c3.next with depth := c3.next.depth + 1 }
        { d3.next with depth := d3.next.depth + 1 } :=
      ⟨hs.loose_of_tight (hs.deeper h4.related), h4.left, h4.right⟩
    have hroom5 := hroom.along h5.along
    have hempty : LikeAll f g [] [] := .nil
    refine Concurs.bind_lost (.iterate_lost (S := Landed R across (n + 1)) hempty h5.related hroom5
      (fun _ _ _ _ => blockRound_ended) ?_) ?_ ?_
    · intro body body' c6 d6 hb h6
      exact blockRound_concurs hs hinner hb h6.related (hroom5.along h6)
    · intro body c6 a c7 he hr
      -- a block is not ended by the end of the input
      refine (Fails.absurd (.after rfl (.bind (.require ?_))) hr).elim
      have he : c6.here.kind = .eof := he
      rw [he]
      rintro ⟨⟩
    · intro body body' c6 d6 hb h6
      exact Concurs.mono (endOfBlock_reads hs hb h6.related) fun _ _ _ h7 => h5.ahead (h6.ahead h7)
  · refine .require (fun hin => ?_) (fun hin => ?_) <;>
      rcases hs.across_kind ho with hk | ⟨hk, _⟩ <;> rw [hk] at hin <;> cases hin

end Blocks

section Declarations

include hs

omit hs in
/-- A declaration is at the top for both readers. -/
lemma requireTop_passes {keyword keyword' : Token}
    (htop : c.depth = 0 → d.depth = 0) (h : R n 0 c d) :
    Passes never (R n 0) Eq (requireTop keyword) (requireTop keyword') c d := by
  refine .cursor ?_
  split
  · exact .invalid
  · rename_i hc
    rw [if_neg (Nat.not_lt_of_le (Nat.le_of_eq (htop (Nat.eq_zero_of_not_pos hc))))]
    exact .pure rfl (.refl h)

section

variable (h : R n 0 c d)
include h

lemma eventWords_reads : Reads never (R n 0) Eq eventWords eventWords c d := by
  refine hs.accept h rfl (fun h1 => ?_) (fun _ =>
    hs.accept h rfl (fun h1 => .pure rfl h1) (fun _ => hs.name_reads h))
  exact hs.require h1.related rfl fun h2 => .pure rfl (h1.ahead h2)

lemma eventName_reads : Reads never (R n 0) Eq eventName eventName c d := by
  refine hs.accept h rfl (fun h1 => ?_) (fun _ => eventWords_reads hs h)
  exact Concurs.mono (eventWords_reads hs h1.related) fun _ _ _ h2 => h1.ahead h2

/-- Schedules are read alike. -/
lemma schedule_reads : Reads never (R n 0) Eq schedule schedule c d := by
  refine .cursor ?_
  dsimp only
  rw [(hs.tallies h).kind]
  generalize hk : c.here.kind = kind
  split
  · have h1 := hs.past h hk rfl
    refine .take ?_
    split
    · exact .invalid
    · refine .cursor ((hs.name_reads h1.related).bind ?_)
      rintro word _ c2 d2 rfl h2
      split
      · exact .pure rfl (h1.ahead h2)
      · exact .invalid
  · exact .expected

/-- A further parameter is read alike. -/
lemma paramRound_concurs {params : List String} :
    Concurs never (Rel Eq) (Round (R n 0) (R n 0) c d) (paramRound params)
    (paramRound params) c d := by
  have hmore {c1 d1 : Cursor} (h1 : Ahead (R n 0) c d c1 d1) :
      Concurs never (Rel Eq) (Round (R n 0) (R n 0) c d)
        (do return some (params ++ [← name "parameter name"]))
        (do return some (params ++ [← name "parameter name"])) c1 d1 := by
    refine (hs.name_reads h1.related).bind ?_
    rintro word _ c2 d2 rfl h2
    exact .pure (.some rfl) (h1.ahead h2)
  refine hs.accept h rfl (fun h1 => .pure_bind (hmore h1)) (fun _ => ?_)
  exact hs.accept h rfl (fun h1 => hmore h1) (fun _ => .pure .none (.refl h))

lemma paramNames_reads (hroom : Room tokens tokens' c d) :
    Reads never (R n 0) Eq (paramNames tokens) (paramNames tokens') c d := by
  refine (hs.name_reads h).bind ?_
  rintro first _ c1 d1 rfl h1
  refine Concurs.mono (.iterate rfl h1.related (hroom.along h1.along) ?_)
    fun _ _ _ h2 => h1.trans h2
  rintro params _ c2 d2 rfl h2
  exact paramRound_concurs hs h2.related

/-- Parameters are read alike. -/
lemma parameters_passes (hroom : Room tokens tokens' c d) :
    Passes never (R n 0) Eq (parameters tokens) (parameters tokens') c d := by
  have hnames (h1 : Ahead (R n 0) c d c.next d.next) :
      Concurs never Eq (fun _ => Along (R n 0) c d) (paramNames tokens)
      (paramNames tokens') c.next d.next :=
    (paramNames_reads hs h1.related (hroom.along h1.along)).mono fun _ _ _ h2 => (h1.ahead h2).along
  refine hs.accept h rfl (fun h1 => .pure_bind (hnames h1)) (fun _ => ?_)
  exact hs.accept h rfl (fun h1 => hnames h1) (fun _ => .pure rfl (.refl h))

/-- Both readers see the words `list named` ahead, or neither. -/
lemma seesNamedList_eq : seesNamedList d = seesNamedList c := by
  have hplain {kind : TokenKind} [kind.Plain] {x : Cursor} (hk : x.here.kind = kind) :
      x.here.kind ≠ .eof :=
    hk ▸ TokenKind.Plain.ne_eof
  unfold seesNamedList
  rw [hs.sees_and_seesNext h rfl]
  cases hlist : c.sees (.keyword .list) && c.seesNext (.keyword .of) with
  | false => rw [Bool.false_and, Bool.false_and, Bool.false_and, Bool.false_and]
  | true =>
    obtain ⟨hlist, hof⟩ := and_eq_true_iff.1 hlist
    have hk : c.here.kind = .keyword .list := of_decide_eq_true hlist
    have h1 := hs.past h hk rfl
    have hk1 := kind_of_seesNext hk hof
    have h2 := hs.past h1.related hk1 rfl
    have hc2 : c.peek 2 = c.next.next.here := by
      rw [peek_succ (hplain hk), peek_one (hplain hk1)]
    have hd2 : d.peek 2 = d.next.next.here := by
      rw [peek_succ (hplain ((hs.tallies h).kind.trans hk)),
        peek_one (hplain ((hs.tallies h1.related).kind.trans hk1))]
    rw [hc2, hd2, (hs.tallies h2.related).kind]
    cases hk2 : c.next.next.here.kind with
    | identifier word =>
      have h3 := hs.past h2.related hk2 rfl
      have hc3 : c.peek 3 = c.next.next.next.here := by
        rw [peek_succ (hplain hk), peek_succ (hplain hk1), peek_one (hplain hk2)]
      have hd3 : d.peek 3 = d.next.next.next.here := by
        rw [peek_succ (hplain ((hs.tallies h).kind.trans hk)),
          peek_succ (hplain ((hs.tallies h1.related).kind.trans hk1)),
          peek_one (hplain ((hs.tallies h2.related).kind.trans hk2))]
      rw [hc3, hd3, (hs.tallies h3.related).kind]
    | _ => rw [Bool.and_false, Bool.and_false]

end

end Declarations

section Heads

variable (h : R n 0 c d) (h1 : Ahead (R n 0) c d c.next d.next) (hroom : Room tokens tokens' c d)
  (hinner : InnerStatementAlike f g R loose tokens tokens' inner inner')
  (htop : c.depth = 0 → d.depth = 0) {c1 d1 : Cursor} {build build' : Expr → List Stmt → Stmt}

include htop in
lemma next_top : c.next.depth = 0 → d.next.depth = 0 := by
  rw [depth_next, depth_next]
  exact htop

/-- Behind a block the readers may be apart by empty lines. -/
lemma loosen {c' d' : Cursor} (hs : Seam f g R loose across)
    (h : Ahead (Landed R across n) c d c' d') :
    Ahead (loose n) c d c' d' := by
  refine ⟨?_, h.left, h.right⟩
  rcases h.related with ht | ho
  · exact hs.loose_of_tight ht
  · exact hs.loose_of_across ho

include hs h h1 hroom hinner

include htop in
/-- Events are read alike. -/
lemma eventDeclaration_reads : Reads never (loose n) (Like f g) (eventDeclaration tokens inner)
    (eventDeclaration tokens' inner') c d := by
  have hline := (hs.tallies h).line
  refine .take ((requireTop_passes (next_top htop) h1.related).bind fun _ _ c2 d2 _ h2 => ?_)
  refine (eventName_reads hs h2.related).bind ?_
  rintro name _ c3 d3 rfl h3
  have h3 := h1.ahead (h2.ahead h3)
  refine (block_reads hs hinner h3.related (hroom.along h3.along)).bind
    fun body body' c4 d4 hb h4 => ?_
  exact .pure (.event hline hb) (h3.ahead (loosen hs h4))

include htop in
/-- Timers are read alike. -/
lemma timerDeclaration_reads : Reads never (loose n) (Like f g) (timerDeclaration tokens inner)
    (timerDeclaration tokens' inner') c d := by
  have hline := (hs.tallies h).line
  refine .take ((requireTop_passes (next_top htop) h1.related).bind fun _ _ c2 d2 _ h2 => ?_)
  refine (schedule_reads hs h2.related).bind ?_
  rintro timer _ c3 d3 rfl h3
  have h3 := h1.ahead (h2.ahead h3)
  refine (block_reads hs hinner h3.related (hroom.along h3.along)).bind
    fun body body' c4 d4 hb h4 => ?_
  exact .pure (.event hline hb) (h3.ahead (loosen hs h4))

include htop in
/-- Functions are read alike. -/
lemma functionDeclaration_reads :
    Reads never (loose n) (Like f g) (functionDeclaration tokens inner)
    (functionDeclaration tokens' inner') c d := by
  have hline := (hs.tallies h).line
  refine .take ((requireTop_passes (next_top htop) h1.related).bind fun _ _ c2 d2 _ h2 => ?_)
  refine (hs.name_reads h2.related).bind ?_
  rintro name _ c3 d3 rfl h3
  have h3 := h1.ahead (h2.ahead h3)
  refine (parameters_passes hs h3.related (hroom.along h3.along)).bind ?_
  rintro params _ c4 d4 rfl h4
  have h4 := h3.trans h4
  refine (block_reads hs hinner h4.related (hroom.along h4.along)).bind
    fun body body' c5 d5 hb h5 => ?_
  exact .pure (.function hline hb) (h4.ahead (loosen hs h5))

omit h h1 in
/-- An expression and its block are read alike. -/
lemma governed_reads {α : Type} {rel : α → α → Prop} {build build' : Expr → List Stmt → α}
    (hbuild : ∀ {e e' body body'}, e.Like f g e' → LikeAll f g body body' →
      rel (build e body) (build' e' body'))
    (h1 : Ahead (R n 0) c d c1 d1) :
    Concurs never rel (fun _ => Ahead (Landed R across n) c d) (governed tokens room inner build)
      (governed tokens' room inner' build') c1 d1 := by
  refine (value_reads hs h1.related (hroom.along h1.along)).bind fun e e' c2 d2 he h2 => ?_
  have h2 := h1.ahead h2
  refine (block_reads hs hinner h2.related (hroom.along h2.along)).bind
    fun body body' c3 d3 hb h3 => ?_
  exact .pure (hbuild he hb) (h2.ahead h3)

lemma guarded_reads : Reads never (Landed R across n) (LikeGuarded f g) (guarded tokens room inner)
    (guarded tokens' room inner') c d :=
  .take (governed_reads hs hroom hinner (fun hc hb => .of hc hb (hs.tallies h).line) h1)

omit h h1 in
lemma governed_ends
    (hbuild : ∀ {e e' body body'}, e.Like f g e' → LikeAll f g body body' →
      (build e body).Like f g (build' e' body'))
    (h1 : Ahead (R n 0) c d c1 d1) :
    Concurs never (Like f g) (fun _ => Ahead (loose n) c d) (governed tokens room inner build)
      (governed tokens' room inner' build') c1 d1 :=
  (governed_reads hs hroom hinner hbuild h1).mono fun _ _ _ h2 => loosen hs h2

/-- Loops are read alike. -/
lemma looping_reads : Reads never (loose n) (Like f g) (looping tokens room inner)
    (looping tokens' room inner') c d := by
  have hline := (hs.tallies h).line
  refine .take ?_
  rw [(hs.tallies h).kind]
  dsimp only
  split
  · refine hs.accept h1.related rfl (fun h2 => ?_) (fun _ => ?_)
    · exact governed_ends hs hroom hinner (.whileLoop hline) (h1.ahead h2)
    · exact governed_ends hs hroom hinner (.whileLoop hline) h1
  · exact governed_ends hs hroom hinner (.whileLoop hline) h1

omit h h1 in
/-- What a loop goes over is read alike. -/
lemma loopOver_reads
    (hbuild : ∀ {e e' body body'}, e.Like f g e' → LikeAll f g body body' →
      (build e body).Like f g (build' e' body'))
    (h1 : Ahead (R n 0) c d c1 d1) :
    Concurs never (Like f g) (fun _ => Ahead (loose n) c d) (loopOver tokens room inner build)
      (loopOver tokens' room inner' build') c1 d1 := by
  refine .cursor ?_
  rw [seesNamedList_eq hs h1.related]
  dsimp only
  split
  · rename_i hlist
    simp only [seesNamedList, and_eq_true] at hlist
    have hk : c1.here.kind = .keyword .list := of_decide_eq_true hlist.1.1.1
    have h2 := h1.ahead (hs.past h1.related hk rfl)
    have h3 := h2.ahead (hs.past h2.related (kind_of_seesNext hk hlist.1.1.2) rfl)
    exact .take (.take (governed_ends hs hroom hinner hbuild h3))
  · exact governed_ends hs hroom hinner hbuild h1

/-- Loops over items are read alike. -/
lemma iterating_reads : Reads never (loose n) (Like f g) (iterating tokens room inner)
    (iterating tokens' room inner') c d := by
  have hitem {c2 d2 : Cursor} (h2 : Ahead (R n 0) c d c2 d2) :
      Concurs never (Like f g) (fun _ => Ahead (loose n) c d)
        (loopFor tokens room inner fun item e body => .forEach item e body c.here.line)
        (loopFor tokens' room inner' fun item e body =>
        .forEach item e body d.here.line) c2 d2 := by
    refine (hs.name_reads h2.related).bind ?_
    rintro item _ c3 d3 rfl h3
    refine hs.require h3.related rfl fun h4 => ?_
    have h4 := h2.ahead (h3.ahead h4)
    refine hs.accept h4.related rfl (fun h5 => ?_) (fun _ => ?_)
    · exact loopOver_reads hs hroom hinner (.forEach (hs.tallies h).line) (h4.ahead h5)
    · exact loopOver_reads hs hroom hinner (.forEach (hs.tallies h).line) h4
  exact .take (hs.accept h1.related rfl (fun h2 => hitem (h1.ahead h2)) (fun _ => hitem h1))

end Heads

section Chains

variable (hinner : InnerStatementAlike f g R loose tokens tokens' inner inner')

include hs

lemma seesElseIf_eq (h : Landed R across n c d) : seesElseIf d = seesElseIf c := by
  unfold seesElseIf
  rcases h with ht | ho
  · exact hs.sees_and_seesNext ht rfl
  · have hc : c.sees (.keyword .elseWord) = false := by
      rcases hs.across_kind ho with hk | ⟨hk, _⟩ <;> simp [Cursor.sees, hk]
    have hd : d.sees (.keyword .elseWord) = false := by simp [Cursor.sees, hs.across_else ho]
    rw [hc, hd, Bool.false_and, Bool.false_and]

lemma tight_of_else (h : Landed R across n c d) (hk : c.here.kind = .keyword .elseWord) :
    R n 0 c d := by
  rcases h with ht | ho
  · exact ht
  · rcases hs.across_kind ho with he | ⟨he, _⟩ <;> rw [hk] at he <;> cases he

/-- Both readers see `else`, or neither. -/
lemma else_iff (h : Landed R across n c d) :
    c.here.kind = .keyword .elseWord ↔ d.here.kind = .keyword .elseWord := by
  constructor
  · intro hk
    exact (hs.tallies (tight_of_else hs h hk)).kind.trans hk
  · intro hk
    rcases h with ht | ho
    · exact (hs.tallies ht).kind.symm.trans hk
    · exact (hs.across_else ho hk).elim

include hinner in
/-- Chains of conditions are read alike, link by link. -/
lemma conditional_reads (h : R n 0 c d) (h1 : Ahead (R n 0) c d c.next d.next)
    (hroom : Room tokens tokens' c d) :
    Reads never (loose n) (Like f g) (conditional tokens room inner)
    (conditional tokens' room inner') c d := by
  refine (guarded_reads hs h h1 hroom hinner).bind fun first first' c2 d2 hf h2 => ?_
  have hnone : LikeLinks f g [] [] := rfl
  refine Concurs.bind (.iterate hnone h2.related (hroom.along h2.along) ?_) ?_
  · intro others others' c3 d3 ho h3
    refine .cursor ?_
    rw [seesElseIf_eq hs h3.related]
    split
    · rename_i helse
      obtain ⟨helse, hif⟩ := and_eq_true_iff.1 helse
      have hk : c3.here.kind = .keyword .elseWord := of_decide_eq_true helse
      have h4 := hs.past (tight_of_else hs h3.related hk) hk rfl
      have h5 := hs.past h4.related (kind_of_seesNext hk hif) rfl
      have hroom4 := ((hroom.along h2.along).along h3).along h4.along
      refine .take ((guarded_reads hs h4.related h5 hroom4 hinner).bind
        fun link link' c5 d5 hl h5 => ?_)
      exact .pure (.some (ho.concat hl)) (h4.ahead h5)
    · exact .pure .none (.refl h3.related)
  · intro others others' c3 d3 ho h3
    have h3 := h2.trans h3
    refine .accept (else_iff hs h3.related) (fun hk => ?_) (fun _ => ?_)
    · have h4 := h3.ahead (hs.past (tight_of_else hs h3.related hk) hk rfl)
      refine (block_reads hs hinner h4.related (hroom.along h4.along)).bind
        fun body body' c5 d5 hb h5 => ?_
      refine .pure_bind (.pure (chain_like hf ho ?_) (h4.ahead (loosen hs h5)))
      rw [Stmt.mapBranch, Stmt.mapBranch, show Stmt.mapLines f body = _ from hb]
    · exact .pure_bind (.pure (chain_like hf ho rfl) (loosen hs h3))

end Chains

section Lines

variable (h : R n 0 c d) (h1 : Ahead (R n 0) c d c.next d.next)
  (hroom : Room tokens tokens' c d) {c' d' : Cursor}

include hs

lemma finish_reads {stmt stmt' : Stmt} (hend : stmt.Like f g stmt') (h' : Ahead (R n 0) c d c' d') :
    Concurs never (Like f g) (fun _ => Ahead (loose n) c d) (do endOfStatement; return stmt)
      (do endOfStatement; return stmt') c' d' :=
  (endOfStatement_passes hs h'.related).bind fun _ _ _ _ _ h'' => .pure hend (h'.trans h'')

/-- A target at the end of a statement is read alike. -/
lemma lastTarget_reads {build build' : Scope → String → Stmt}
    (hbuild : ∀ scope target, (build scope target).Like f g (build' scope target))
    (h' : Ahead (R n 0) c d c' d') :
    Concurs never (Like f g) (fun _ => Ahead (loose n) c d) (lastTarget build)
    (lastTarget build') c' d' := by
  refine (scopeMark_passes hs h'.related).bind ?_
  rintro scope _ c1 d1 rfl h1
  refine (hs.name_reads h1.related).bind ?_
  rintro target _ c2 d2 rfl h2
  exact finish_reads hs (hbuild scope target) (h'.ahead (h1.ahead h2))

include hroom in
lemma lastValue_reads {build build' : Expr → Stmt}
    (hbuild : ∀ {e e'}, e.Like f g e' → (build e).Like f g (build' e'))
    (h' : Ahead (R n 0) c d c' d') :
    Concurs never (Like f g) (fun _ => Ahead (loose n) c d) (lastValue tokens room build)
      (lastValue tokens' room build') c' d' :=
  (value_reads hs h'.related (hroom.along h'.along)).bind fun _ _ _ _ he h1 =>
  finish_reads hs (hbuild he) (h'.ahead h1)

include h hroom in
/-- A target and an amount are read alike. -/
lemma targetByAmount_reads :
    Reads never (loose n) (fun r r' => r.1 = r'.1 ∧ r.2.1 = r'.2.1 ∧ r.2.2.Like f g r'.2.2)
    (targetByAmount tokens room) (targetByAmount tokens' room) c d := by
  refine (scopeMark_passes hs h).bind ?_
  rintro scope _ c2 d2 rfl h2
  refine (hs.name_reads h2.related).bind ?_
  rintro target _ c3 d3 rfl h3
  refine hs.require h3.related rfl fun h4 => ?_
  have h4 := h2.ahead (h3.ahead h4)
  refine (value_reads hs h4.related (hroom.along h4.along)).bind
    fun amount amount' c5 d5 ha h5 => ?_
  refine (endOfStatement_passes hs h5.related).bind fun _ _ c6 d6 _ h6 => ?_
  exact .pure ⟨rfl, rfl, ha⟩ (h4.ahead (h5.trans h6))

include h h1

lemma deletion_reads : Reads never (loose n) (Like f g) deletion deletion c d :=
  .take (lastTarget_reads hs (fun _ _ => .delete (hs.tallies h).line) h1)

lemma termination_reads : Reads never (loose n) (Like f g) termination termination c d :=
  .take (hs.require h1.related rfl fun h2 =>
  finish_reads hs (.call (hs.tallies h).line .nil) (h1.ahead h2))

include hroom

/-- Assignments are read alike. -/
lemma assignment_reads : Reads never (loose n) (Like f g) (assignment tokens room)
    (assignment tokens' room) c d := by
  have hline := (hs.tallies h).line
  refine .take ((scopeMark_passes hs h1.related).bind ?_)
  rintro scope _ c2 d2 rfl h2
  refine (hs.name_reads h2.related).bind ?_
  rintro target _ c3 d3 rfl h3
  have h3 := h1.ahead (h2.ahead h3)
  rw [(hs.tallies h).kind]
  dsimp only
  split <;> exact hs.require h3.related rfl fun h4 =>
    lastValue_reads hs hroom (.assign hline) (h3.ahead h4)

/-- Statements that add or subtract are read alike. -/
lemma accumulation_reads : Reads never (loose n) (Like f g) (accumulation tokens room)
    (accumulation tokens' room) c d := by
  have hline := (hs.tallies h).line
  refine .take ((value_reads hs h1.related (hroom.along h1.along)).bind
    fun amount amount' c2 d2 ha h2 => ?_)
  have h2 := h1.ahead h2
  rw [(hs.tallies h).kind]
  dsimp only
  split
  · exact hs.require h2.related rfl fun h3 =>
      lastTarget_reads hs (fun _ _ => .increase hline ha) (h2.ahead h3)
  · exact hs.require h2.related rfl fun h3 =>
      lastTarget_reads hs (fun _ _ => .decrease hline ha) (h2.ahead h3)

/-- Increases and decreases are read alike. -/
lemma adjustment_reads : Reads never (loose n) (Like f g) (adjustment tokens room)
    (adjustment tokens' room) c d := by
  have hline := (hs.tallies h).line
  refine .take ((targetByAmount_reads hs h1.related (hroom.along h1.along)).bind ?_)
  rintro ⟨target, scope, amount⟩ ⟨_, _, amount'⟩ c2 d2 ⟨rfl, rfl, ha⟩ h2
  refine .pure ?_ (h1.ahead h2)
  rw [(hs.tallies h).kind]
  dsimp only
  split
  · exact .increase hline ha
  · exact .decrease hline ha

lemma scaling_reads :
    Reads never (loose n) (Like f g) (scaling tokens room) (scaling tokens' room) c d := by
  have hline := (hs.tallies h).line
  refine .take ((targetByAmount_reads hs h1.related (hroom.along h1.along)).bind ?_)
  rintro ⟨target, scope, amount⟩ ⟨_, _, amount'⟩ c2 d2 ⟨rfl, rfl, ha⟩ h2
  refine .pure ?_ (h1.ahead h2)
  rw [(hs.tallies h).kind]
  exact .assign hline (.binary hline (.identifier hline) ha)

lemma printing_reads :
    Reads never (loose n) (Like f g) (printing tokens room) (printing tokens' room) c d := by
  refine .take ?_
  rw [(hs.tallies h).kind]
  exact lastValue_reads hs hroom (.print (hs.tallies h).line) h1

/-- Statements that give back are read alike. -/
lemma returning_reads :
    Reads never (loose n) (Like f g) (returning tokens room) (returning tokens' room) c d := by
  have hline := (hs.tallies h).line
  refine .take (hs.require h1.related rfl fun h2 => .cursor ?_)
  have h2 := h1.ahead h2
  rw [hs.sees h2.related, hs.sees h2.related, hs.sees h2.related]
  dsimp only
  split
  · exact .pure_bind (finish_reads hs (.giveBack_none hline) h2)
  · refine (value_reads hs h2.related (hroom.along h2.along)).bind
      fun value value' c3 d3 hv h3 => ?_
    exact .pure_bind (finish_reads hs (.giveBack_some hline hv) (h2.ahead h3))

/-- Questions are read alike. -/
lemma asking_reads :
    Reads never (loose n) (Like f g) (asking tokens room) (asking tokens' room) c d := by
  have hline := (hs.tallies h).line
  refine .take ((value_reads hs h1.related (hroom.along h1.along)).bind
    fun prompt prompt' c2 d2 hp h2 => ?_)
  refine hs.require h2.related rfl fun h3 => hs.require h3.related rfl fun h4 => ?_
  have h4 := h1.ahead (h2.ahead (h3.ahead h4))
  have hrest {c5 d5 : Cursor} (h5 : Ahead (R n 0) c d c5 d5) :
      Concurs never (Like f g) (fun _ => Ahead (loose n) c d) (resultTarget fun scope target =>
        .assign target scope (.call "input" [prompt] c.here.line) c.here.line)
        (resultTarget fun scope target =>
        .assign target scope (.call "input" [prompt'] d.here.line) d.here.line) c5 d5 := by
    refine hs.require h5.related rfl fun h6 => hs.require h6.related rfl fun h7 => ?_
    exact lastTarget_reads hs (fun _ _ => .assign hline (.call hline (.singleton hp)))
      (h5.ahead (h6.ahead h7))
  exact hs.accept h4.related rfl (fun h5 => hrest (h4.ahead h5)) (fun _ => hrest h4)

lemma storing_reads :
    Reads never (loose n) (Like f g) (storing tokens room) (storing tokens' room) c d := by
  have hline := (hs.tallies h).line
  refine .take ((value_reads hs h1.related (hroom.along h1.along)).bind
    fun value value' c2 d2 hv h2 => ?_)
  refine hs.require h2.related rfl fun h3 => ?_
  exact lastTarget_reads hs (fun _ _ => .assign hline hv) (h1.ahead (h2.ahead h3))

end Lines

lemma ofExpression_like {e e' : Expr} (h : e.Like f g e') :
    (ofExpression e).Like f g (ofExpression e') := by
  have hmap {e : Expr} {f : Nat → Nat} :
    (ofExpression e).mapLine f = ofExpression (e.mapLine f) := by cases e <;> rfl
  rw [Like, hmap, hmap, show e.mapLine f = _ from h]

include hs in
lemma expressionStatement_reads (h : R n 0 c d) (hroom : Room tokens tokens' c d) :
    Reads never (loose n) (Like f g) (expressionStatement tokens room)
    (expressionStatement tokens' room) c d :=
  (value_reads hs h hroom).bind fun _ _ _ _ he h1 => finish_reads hs (ofExpression_like he) h1

include hs in
/-- Every statement is read alike: both readers see the same first word. -/
lemma statement_reads (hinner : InnerStatementAlike f g R loose tokens tokens' inner inner')
    (h : R n 0 c d) (hadmits : Admits c d) (hroom : Room tokens tokens' c d) :
    Reads never (loose n) (Like f g) (statement tokens room inner)
    (statement tokens' room inner') c d := by
  have hpast {word : Keyword} (hk : c.here.kind = .keyword word) :
    Ahead (R n 0) c d c.next d.next := hs.past h hk rfl
  have htop {word : Keyword} (hk : c.here.kind = .keyword word)
    (hd : declares (.keyword word) = true) : c.depth = 0 → d.depth = 0 := hadmits (hk ▸ hd)
  refine .cursor ?_
  rw [(hs.tallies h).kind]
  generalize hk : c.here.kind = kind
  split
  · exact eventDeclaration_reads hs h (hpast hk) hroom hinner (htop hk rfl)
  · exact timerDeclaration_reads hs h (hpast hk) hroom hinner (htop hk rfl)
  · exact functionDeclaration_reads hs h (hpast hk) hroom hinner (htop hk rfl)
  · exact assignment_reads hs h (hpast hk) hroom
  · exact assignment_reads hs h (hpast hk) hroom
  · exact assignment_reads hs h (hpast hk) hroom
  · exact accumulation_reads hs h (hpast hk) hroom
  · exact accumulation_reads hs h (hpast hk) hroom
  · exact adjustment_reads hs h (hpast hk) hroom
  · exact adjustment_reads hs h (hpast hk) hroom
  · exact scaling_reads hs h (hpast hk) hroom
  · exact scaling_reads hs h (hpast hk) hroom
  · exact deletion_reads hs h (hpast hk)
  · exact conditional_reads hs hinner h (hpast hk) hroom
  · exact looping_reads hs h (hpast hk) hroom hinner
  · exact looping_reads hs h (hpast hk) hroom hinner
  · exact iterating_reads hs h (hpast hk) hroom hinner
  · exact printing_reads hs h (hpast hk) hroom
  · exact printing_reads hs h (hpast hk) hroom
  · exact returning_reads hs h (hpast hk) hroom
  · exact asking_reads hs h (hpast hk) hroom
  · exact storing_reads hs h (hpast hk) hroom
  · exact termination_reads hs h (hpast hk)
  · exact expressionStatement_reads hs h hroom

include hs in
/-- Statements inside others are read alike, by induction on the room. -/
lemma statementAt_reads : InnerStatementAlike f g R loose tokens tokens' (statementAt tokens room)
    (statementAt tokens' room) := by
  induction room with
  | zero =>
    intro n c d h hadmits hroom
    exact statement_reads hs (fun _ _ _ _ _ _ => .of_error rfl) h hadmits hroom
  | succ room ih =>
    intro n c d h hadmits hroom
    exact statement_reads hs (fun m c d h hadmits hroom =>
      .nested fun _ => ih m c d h hadmits hroom) h hadmits hroom

end Productions

end Grammar

end Colloquy
