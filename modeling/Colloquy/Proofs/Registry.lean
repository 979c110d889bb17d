import Colloquy.Registry
import Mathlib.Tactic.Lemma
import Mathlib.Data.List.Nodup
import Mathlib.Data.Set.Card

/-!
# The history of a registry

What a registry should answer can be said from its history, the row of calls with their answers:
which timers are live (`Live`) and which flags are up (`Flagged`). `Tracks` is the invariant that
ties a registry to its history; so all answers are right (`Reflects`).
-/

namespace Colloquy

open List

namespace Registry

/-- What a registry can be called for. -/
inductive Call where
  | register
  | cancel (id : Nat)
  | cancelAll
  | complete (id : Nat)
deriving DecidableEq

/-- What a call gives back. -/
inductive Answer where
  | number (id : Nat)
  | found (live : Bool)
  | count (timers : Nat)
  | done
deriving DecidableEq

/-- What the registry gives back, and the registry afterwards. -/
def answer (r : Registry) : Call → Answer × Registry
  | .register => (.number r.register.1, r.register.2)
  | .cancel id => (.found (r.cancel id).1, (r.cancel id).2)
  | .cancelAll => (.count r.cancelAll.1, r.cancelAll.2)
  | .complete id => (.done, r.complete id)

/-- The registry after a row of calls. -/
def after (r : Registry) (calls : List Call) : Registry :=
  calls.foldl (fun r call => (r.answer call).2) r

/-- A row of calls with their answers. -/
def history (r : Registry) : List Call → List (Call × Answer)
  | [] => []
  | call :: calls => (call, (r.answer call).1) :: (r.answer call).2.history calls

/-- The call cancels a timer and raises its flag. -/
def Call.Cancels (id : Nat) : Call → Prop
  | .cancel other => other = id
  | .cancelAll => True
  | _ => False

/-- The call takes a timer out of the live ones. -/
def Call.Ends (id : Nat) : Call → Prop
  | .complete other => other = id
  | call => call.Cancels id

/-- The numbers that were given out, in order. -/
def numbers (h : List (Call × Answer)) : List Nat :=
  h.filterMap fun
    | (.register, .number id) => some id
    | _ => none

/-- A timer was registered and not ended since. -/
def Live (h : List (Call × Answer)) (id : Nat) : Prop :=
  ∃ before after, h = before ++ (.register, .number id) :: after ∧ ∀ x ∈ after, ¬ x.1.Ends id

/-- A timer was cancelled while it was live. -/
def Flagged (h : List (Call × Answer)) (id : Nat) : Prop :=
  ∃ before x after, h = before ++ x :: after ∧ x.1.Cancels id ∧ Live before id

/-- A registry knows and answers what its history says. -/
structure Reflects (h : List (Call × Answer)) (r : Registry) : Prop where
  ascending : (numbers h).Pairwise (· < ·)
  bounded : ∀ id ∈ numbers h, 0 < id ∧ id ≤ (h.map Prod.fst).count .register
  live : ∀ id, id ∈ r.live ↔ Live h id
  size : r.size = {id | Live h id}.ncard
  isEmpty : r.isEmpty = true ↔ ∀ id, ¬ Live h id
  cancel : ∀ id, (r.cancel id).1 = true ↔ Live h id
  cancelAll : r.cancelAll.1 = {id | Live h id}.ncard
  flag : ∀ id, r.isCancelled id = true ↔ Flagged h id
  complete : ∀ id other, (r.complete id).isCancelled other = r.isCancelled other ∧
    (other ≠ id → (other ∈ (r.complete id).live ↔ other ∈ r.live))

section Histories

variable {h : List (Call × Answer)} {x : Call × Answer} {id : Nat}

/-- Where a history with one more call is split. -/
lemma concat_eq_split {before after : List (Call × Answer)} {y : Call × Answer} :
    h ++ [x] = before ++ y :: after ↔
      (before = h ∧ y = x ∧ after = []) ∨ ∃ after', after = after' ++ [x] ∧
      h = before ++ y :: after' := by
  constructor
  · intro he
    rcases eq_nil_or_concat after with rfl | ⟨after', z, rfl⟩
    · obtain ⟨rfl, hy⟩ := append_inj' he rfl
      exact .inl ⟨rfl, (List.cons.inj hy).1.symm, rfl⟩
    · rw [concat_eq_append, ← cons_append, ← append_assoc] at he
      obtain ⟨rfl, hx⟩ := append_inj' he rfl
      refine .inr ⟨after', ?_, rfl⟩
      rw [concat_eq_append, (List.cons.inj hx).1]
  · rintro (⟨rfl, rfl, rfl⟩ | ⟨after', rfl, rfl⟩)
    · rfl
    · rw [append_assoc, cons_append]

/-- A timer is live if registered last, or live and not ended now. -/
lemma live_concat : Live (h ++ [x]) id ↔ x = (.register, .number id) ∨
    (Live h id ∧ ¬ x.1.Ends id) := by
  constructor
  · rintro ⟨before, after, he, hafter⟩
    rcases concat_eq_split.1 he with ⟨_, hx, _⟩ | ⟨after', rfl, rfl⟩
    · exact .inl hx.symm
    · obtain ⟨hafter', hx⟩ := forall_mem_append.1 hafter
      exact .inr ⟨⟨before, after', rfl, hafter'⟩, hx x (mem_singleton_self x)⟩
  · rintro (rfl | ⟨⟨before, after, rfl, hafter⟩, hx⟩)
    · exact ⟨h, [], rfl, nofun⟩
    · refine ⟨before, after ++ [x], concat_eq_split.2 (.inr ⟨after, rfl, rfl⟩), ?_⟩
      exact forall_mem_append.2 ⟨hafter, forall_mem_singleton.2 hx⟩

/-- A flag goes up when a live timer is cancelled, and stays. -/
lemma flagged_concat : Flagged (h ++ [x]) id ↔ Flagged h id ∨ (x.1.Cancels id ∧ Live h id) := by
  constructor
  · rintro ⟨before, y, after, he, hy, hlive⟩
    rcases concat_eq_split.1 he with ⟨rfl, rfl, _⟩ | ⟨after', _, rfl⟩
    · exact .inr ⟨hy, hlive⟩
    · exact .inl ⟨before, y, after', rfl, hy, hlive⟩
  · rintro (⟨before, y, after, rfl, hy, hlive⟩ | ⟨hx, hlive⟩)
    · exact ⟨before, y, after ++ [x], concat_eq_split.2 (.inr ⟨after, rfl, rfl⟩), hy, hlive⟩
    · exact ⟨h, x, [], rfl, hx, hlive⟩

lemma numbers_concat_register : numbers (h ++ [(.register, .number id)]) = numbers h ++ [id] :=
  filterMap_append

lemma numbers_concat (hx : x.1 ≠ .register) : numbers (h ++ [x]) = numbers h := by
  obtain ⟨call, answer⟩ := x
  rw [numbers, filterMap_append]
  cases call with
  | register => exact (hx rfl).elim
  | _ => exact append_nil _

lemma Live.mem_numbers (hl : Live h id) : id ∈ numbers h := by
  obtain ⟨before, after, rfl, _⟩ := hl
  exact mem_filterMap.2 ⟨_, mem_append_right _ mem_cons_self, rfl⟩

end Histories

/-- The lists of a registry are those of its history. -/
structure Tracks (h : List (Call × Answer)) (r : Registry) : Prop where
  issued : numbers h = List.range' 1 r.issued
  counted : (h.map Prod.fst).count .register = r.issued
  nodup : r.live.Nodup
  live : ∀ id, id ∈ r.live ↔ Live h id
  cancelled : ∀ id, id ∈ r.cancelled ↔ Flagged h id

section Runs

variable {h : List (Call × Answer)} {r : Registry}

section

variable (ht : Tracks h r)
include ht

lemma Tracks.le_issued {id : Nat} (hl : Live h id) : id ≤ r.issued := by
  have hm := hl.mem_numbers
  rw [ht.issued, mem_range'_1] at hm
  omega

/-- The registry gives out a number not used before. -/
lemma Tracks.register : Tracks (h ++ [(.register, .number (r.issued + 1))]) r.register.2 where
  issued := by
    change _ = List.range' 1 (r.issued + 1)
    rw [numbers_concat_register, ht.issued, List.range'_1_concat, Nat.add_comm 1]
  counted := by
    rw [map_append, count_append, ht.counted]
    rfl
  nodup := by
    refine nodup_append.2 ⟨ht.nodup, nodup_singleton _, ?_⟩
    rintro id hid other hother rfl
    -- the number is larger than every one that was given out before
    have hle := ht.le_issued ((ht.live id).1 hid)
    rw [mem_singleton.1 hother] at hle
    omega
  live id := by
    rw [live_concat, ← ht.live]
    change id ∈ r.live ++ [r.issued + 1] ↔ _
    rw [mem_append, mem_singleton, or_comm]
    constructor
    · rintro (rfl | hid)
      · exact .inl rfl
      · exact .inr ⟨hid, fun hends => hends⟩
    · rintro (hid | ⟨hid, _⟩)
      · cases hid
        exact .inl rfl
      · exact .inr hid
  cancelled id := by
    rw [flagged_concat, ← ht.cancelled]
    exact ⟨.inl, fun hc => hc.resolve_right fun hx => hx.1⟩

/-- Calls that only end timers keep the invariant. -/
lemma Tracks.remove {call : Call} {answer : Answer} {r' : Registry} (hcall : call ≠ .register)
    (hissued : r'.issued = r.issued) (hsub : r'.live.Sublist r.live)
    (hlive : ∀ id, id ∈ r'.live ↔ id ∈ r.live ∧ ¬ call.Ends id)
    (hcancelled : ∀ id, id ∈ r'.cancelled ↔ id ∈ r.cancelled ∨ (call.Cancels id ∧ id ∈ r.live)) :
    Tracks (h ++ [(call, answer)]) r' where
  issued := by rw [numbers_concat hcall, ht.issued, hissued]
  counted := by
    rw [map_append, count_append, ht.counted, hissued]
    exact congrArg (r.issued + ·) (count_cons_of_ne hcall)
  nodup := ht.nodup.sublist hsub
  live id := by
    rw [live_concat, hlive, ht.live]
    refine ⟨.inr, fun hl => hl.resolve_left fun hx => ?_⟩
    exact hcall (Prod.mk.inj hx).1
  cancelled id := by rw [flagged_concat, hcancelled, ht.cancelled, ht.live]

/-- Cancelling ends a live timer and raises its flag. -/
lemma Tracks.cancel (id : Nat) :
    Tracks (h ++ [(.cancel id, .found (r.cancel id).1)]) (r.cancel id).2 := by
  by_cases hid : id ∈ r.live
  · have hr : (r.cancel id).2 =
        { r with live := r.live.filter (· ≠ id), cancelled := id :: r.cancelled } := by
      rw [Registry.cancel, if_pos hid]
    rw [hr]
    refine ht.remove (by rintro ⟨⟩) rfl filter_sublist (fun other => ?_) fun other => ?_
    · rw [mem_filter, decide_eq_true_iff]
      exact and_congr_right fun _ => not_congr eq_comm
    · rw [mem_cons, or_comm]
      refine or_congr_right ⟨?_, fun hx => hx.1.symm⟩
      rintro rfl
      exact ⟨rfl, hid⟩
  · have hr : (r.cancel id).2 = r := by rw [Registry.cancel, if_neg hid]
    rw [hr]
    -- a timer that is not live is not cancelled
    refine ht.remove (by rintro ⟨⟩) rfl (.refl _) (fun other => ?_) fun other => ?_
    · refine ⟨fun hm => ⟨hm, ?_⟩, And.left⟩
      rintro rfl
      exact hid hm
    · refine ⟨.inl, fun hc => hc.resolve_right ?_⟩
      rintro ⟨rfl, hm⟩
      exact hid hm

lemma Tracks.cancelAll : Tracks (h ++ [(.cancelAll, .count r.cancelAll.1)]) r.cancelAll.2 := by
  refine ht.remove (by rintro ⟨⟩) rfl (nil_sublist _) (fun id => ?_) fun id => ?_
  · exact ⟨nofun, fun hid => (hid.2 trivial).elim⟩
  · change id ∈ r.live ++ r.cancelled ↔ _
    rw [mem_append, or_comm]
    exact or_congr_right ⟨fun hid => ⟨trivial, hid⟩, And.right⟩

lemma Tracks.complete (id : Nat) : Tracks (h ++ [(.complete id, .done)]) (r.complete id) := by
  refine ht.remove (by rintro ⟨⟩) rfl filter_sublist (fun other => ?_) fun other => ?_
  · change other ∈ r.live.filter (· ≠ id) ↔ _
    rw [mem_filter, decide_eq_true_iff]
    exact and_congr_right fun _ => not_congr eq_comm
  · exact ⟨.inl, fun hc => hc.resolve_right fun hx => hx.1⟩

lemma Tracks.answer (call : Call) :
    Tracks (h ++ [(call, (r.answer call).1)]) (r.answer call).2 := by
  cases call with
  | register => exact ht.register
  | cancel id => exact ht.cancel id
  | cancelAll => exact ht.cancelAll
  | complete id => exact ht.complete id

/-- All calls keep the invariant, by induction on them. -/
lemma Tracks.history (calls : List Call) : Tracks (h ++ r.history calls) (r.after calls) := by
  induction calls generalizing h r with
  | nil =>
    rw [Registry.history, append_nil]
    exact ht
  | cons call calls ih =>
    rw [Registry.history, append_cons]
    exact ih (ht.answer call)

end

/-- An empty registry has no history. -/
lemma tracks_empty : Tracks [] {} where
  issued := rfl
  counted := rfl
  nodup := .nil
  live id := by
    refine ⟨nofun, ?_⟩
    rintro ⟨before, after, he, _⟩
    cases (append_eq_nil_iff.1 he.symm).2
  cancelled id := by
    refine ⟨nofun, ?_⟩
    rintro ⟨before, x, after, he, _⟩
    cases (append_eq_nil_iff.1 he.symm).2

lemma Tracks.ncard_live (ht : Tracks h r) : r.live.length = {id | Live h id}.ncard := by
  have hset : {id | Live h id} = ↑r.live.toFinset := by
    ext id
    rw [coe_toFinset]
    exact (ht.live id).symm
  rw [hset, Set.ncard_coe_finset, toFinset_card_of_nodup ht.nodup]

/-- What is tracked is answered. -/
lemma Tracks.reflects (ht : Tracks h r) : Reflects h r where
  ascending := by
    rw [ht.issued]
    exact pairwise_lt_range'
  bounded id hid := by
    rw [ht.issued, mem_range'_1] at hid
    rw [ht.counted]
    omega
  live := ht.live
  size := ht.ncard_live
  isEmpty := by
    rw [Registry.isEmpty, List.isEmpty_iff, List.eq_nil_iff_forall_not_mem]
    exact forall_congr' fun id => not_congr (ht.live id)
  cancel id := by
    rw [← ht.live, Registry.cancel]
    split
    · rename_i hid
      exact iff_of_true rfl hid
    · rename_i hid
      exact iff_of_false Bool.false_ne_true hid
  cancelAll := ht.ncard_live
  flag id := decide_eq_true_iff.trans (ht.cancelled id)
  complete id other := by
    refine ⟨rfl, fun hne => ?_⟩
    rw [Registry.complete, mem_filter, decide_eq_true_iff]
    exact and_iff_left hne

end Runs

/-- After every row of calls a registry reflects its history: numbers were given out in ascending
order, none twice; the live timers are those registered and not ended since, which its size and its
answers tell; and a flag is up exactly if its timer was live when cancelled. -/
theorem reflects_history (calls : List Call) :
    Reflects (({} : Registry).history calls) (({} : Registry).after calls) :=
  (tracks_empty.history calls).reflects

end Registry

end Colloquy
