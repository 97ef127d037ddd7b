import Mathlib.Data.Nat.Basic
import LamiaAtrium.Library.StableQueue
import LamiaAtrium.QueueArray

/-! The array of `queue.c` keeps the entries of `Queue`, and these are a stable bounded
priority queue. -/

namespace LamiaAtrium
open Run
variable {Proc : Type}

namespace QueueArray
variable {a : QueueArray Proc} {q : Queue Proc} {priority : Proc → BitVec 32}

structure Represents (a : QueueArray Proc) (q : Queue Proc) : Prop where
  size : a.size = q.procs.length
  entries : ∀ index p, q.procs[index]? = some p → a.proc index = some p

theorem Represents.load (held : a.Represents q) {index : Nat} {p : Proc} (here : q.procs[index]? = some p) :
    a.load index = .ok (some p) := by
  obtain ⟨inside, _⟩ := List.getElem?_eq_some_iff.mp here
  have bound := q.size_le
  rw [QueueArray.load, if_pos (by omega), Int.toNat_natCast, held.entries index p here]

theorem Represents.priorityAt (held : a.Represents q) {index : Nat} {p : Proc} (here : q.procs[index]? = some p) :
    a.priorityAt priority index = .ok (priority p) := by
  rw [QueueArray.priorityAt, held.load here]
  rfl

theorem Represents.empty (held : a.Represents q) : a.empty = true ↔ q.procs = [] := by
  rw [QueueArray.empty, held.size, beq_iff_eq, Int.natCast_eq_zero, List.length_eq_zero_iff]

/-- The array is searched as the list is. -/
theorem Represents.searchLoop (held : a.Represents q) {rest : List Proc} {i : Nat} {best : Nat × Proc}
    (suffix : q.procs.drop i = rest) (kept : q.procs[best.1]? = some best.2) :
    a.searchLoop priority rest.length i best.1 = .ok ((Queue.scanBest priority i best rest).1 : Int) := by
  induction rest generalizing i best with
  | nil => rfl
  | cons p rest ih =>
    obtain ⟨here, later⟩ := Queue.drop_cons suffix
    rw [List.length_cons, QueueArray.searchLoop, held.priorityAt here, held.priorityAt kept, Queue.scanBest]
    by_cases smaller : priority p < priority best.2
    · have next := @ih (i + 1) (i, p) later here
      simp only [Outcome.bind_ok, if_pos smaller]
      exact next
    · have next := @ih (i + 1) best later kept
      simp only [Outcome.bind_ok, if_neg smaller]
      exact next

/-- Every entry behind the gap moves down by one, and no access leaves the array. -/
theorem shiftLoop_eq (left index : Nat) (a : QueueArray Proc) (inside : index + left < maxQueueSize) :
    shiftLoop left (index + 1) a =
      .ok { a with proc := fun k => if index ≤ k ∧ k < index + left then a.proc (k + 1) else a.proc k } := by
  induction left generalizing index a with
  | zero =>
    have same : (fun k => if index ≤ k ∧ k < index + 0 then a.proc (k + 1) else a.proc k) = a.proc := by
      funext k
      rw [if_neg (by omega)]
    rw [same, shiftLoop]
  | succ left ih =>
    have load : a.load (index + 1) = .ok (a.proc (index + 1)) := by
      rw [QueueArray.load, if_pos (by omega)]
      rfl
    have store (value : Option Proc) : a.store (index + 1 - 1) value = .ok { a with proc := Function.update a.proc index value } := by
      rw [QueueArray.store, if_pos (by omega), Int.add_sub_cancel, Int.toNat_natCast]
    have moved := ih (index + 1) { a with proc := Function.update a.proc index (a.proc (index + 1)) } (by omega)
    rw [shiftLoop, load, Outcome.bind_ok, store, Outcome.bind_ok]
    rw [Int.natCast_add, Int.natCast_one] at moved
    rw [moved]
    congr 2
    funext k
    dsimp only
    simp only [Function.update_apply]
    grind

theorem Represents.removeAt (held : a.Represents q) {index : Nat} (inside : index < q.procs.length) :
    ∃ after, a.removeAt index = .ok after ∧ after.Represents (q.remove index) := by
  have bound := q.size_le
  have rounds : (a.size - (index + 1)).toNat = q.procs.length - (index + 1) := by
    rw [held.size]
    omega
  refine ⟨_, by rw [QueueArray.removeAt, rounds, shiftLoop_eq _ _ _ (by omega)]; rfl, ?_⟩
  constructor
  · change a.size - 1 = (q.procs.eraseIdx index).length
    rw [held.size, List.length_eraseIdx, if_pos inside]
    omega
  · intro k p here
    change (q.procs.eraseIdx index)[k]? = some p at here
    rw [List.getElem?_eraseIdx] at here
    by_cases early : k < index
    · rw [if_pos early] at here
      dsimp only
      rw [if_neg (by omega)]
      exact held.entries k p here
    · rw [if_neg early] at here
      obtain ⟨below, _⟩ := List.getElem?_eq_some_iff.mp here
      dsimp only
      rw [if_pos (by omega)]
      exact held.entries (k + 1) p here

theorem Represents.enqueue (held : a.Represents q) (proc : Option Proc) :
    ∃ after, a.enqueue proc = .ok after ∧ after.Represents (q.enqueue proc) := by
  cases proc with
  | none => exact ⟨a, rfl, held⟩
  | some p =>
    by_cases room : q.procs.length < maxQueueSize
    · have size : ¬a.size ≥ maxQueueSize := by
        rw [held.size]
        omega
      have store : a.store a.size (some p) = .ok { a with proc := Function.update a.proc q.procs.length (some p) } := by
        rw [QueueArray.store, held.size, if_pos (by omega), Int.toNat_natCast]
      have appended : (q.enqueue (some p)).procs = q.procs ++ [p] := Queue.enqueue_of_room (decide_eq_false (Nat.not_le.mpr room)) p
      refine ⟨{ proc := Function.update a.proc q.procs.length (some p), size := a.size + 1 }, ?_, ?_, ?_⟩
      · simp only [QueueArray.enqueue, Option.isNone_some, Bool.false_or, decide_eq_false size, store]
        rfl
      · rw [appended, List.length_append, held.size]
        rfl
      · intro index other here
        rw [appended, List.getElem?_append] at here
        by_cases old : index < q.procs.length
        · rw [if_pos old] at here
          dsimp only
          rw [Function.update_of_ne (Nat.ne_of_lt old)]
          exact held.entries index other here
        · rw [if_neg old] at here
          obtain ⟨below, same⟩ := List.getElem?_eq_some_iff.mp here
          have last : index = q.procs.length := by
            rw [List.length_singleton] at below
            omega
          subst last
          rw [Nat.sub_self] at here
          cases here
          exact Function.update_self ..
    · have size : a.size ≥ maxQueueSize := by
        rw [held.size]
        omega
      have full : q.full = true := decide_eq_true (Nat.not_lt.mp room)
      refine ⟨a, ?_, ?_⟩
      · simp only [QueueArray.enqueue, decide_eq_true size, Bool.or_true, if_true]
      · rw [Queue.enqueue_of_full full]
        exact held

theorem Represents.dequeue (held : a.Represents q) (priority : Proc → BitVec 32) : ∃ after, a.dequeue priority = .ok ((q.dequeue priority).1, after) ∧
    after.Represents (q.dequeue priority).2 := by
  cases entries : q.procs with
  | nil =>
    have nothing : q.dequeue priority = (none, q) := by rw [Queue.dequeue, entries]
    rw [nothing]
    exact ⟨a, by rw [QueueArray.dequeue, if_pos (held.empty.mpr entries)], held⟩
  | cons p rest =>
    have filled : ¬a.empty = true := fun empty => by rw [held.empty.mp empty] at entries; cases entries
    have rounds : (a.size - 1).toNat = rest.length := by
      rw [held.size, entries, List.length_cons]
      omega
    have first : q.procs[(0, p).1]? = some (0, p).2 := by rw [entries]; rfl
    have behind : q.procs.drop 1 = rest := by rw [entries]; rfl
    have searched := @Represents.searchLoop _ _ _ priority held rest 1 (0, p) behind first
    have best : q.procs[(Queue.scanBest priority 1 (0, p) rest).1]? = some (Queue.scanBest priority 1 (0, p) rest).2 :=
      Queue.scanBest_mem first behind
    obtain ⟨inside, _⟩ := List.getElem?_eq_some_iff.mp best
    obtain ⟨after, removed, kept⟩ := held.removeAt inside
    have answer : q.dequeue priority =
        (some (Queue.scanBest priority 1 (0, p) rest).2, q.remove (Queue.scanBest priority 1 (0, p) rest).1) := by
      rw [Queue.dequeue, entries]
    rw [answer]
    refine ⟨after, ?_, kept⟩
    have start : a.searchLoop priority rest.length 1 0 = .ok ((Queue.scanBest priority 1 (0, p) rest).1 : Int) := searched
    rw [QueueArray.dequeue, if_neg filled, rounds, start, Outcome.bind_ok, held.load best, Outcome.bind_ok, removed]
    rfl

section Purge
variable [DecidableEq Proc]

/-- The loop of `purgequeue` from position `i` on. -/
theorem Represents.purgeLoop (held : a.Represents q) (p : Proc) {rest : List Proc} {i : Nat} (suffix : q.procs.drop i = rest) :
    match rest.findIdx? (· = p) with
    | none => a.purgeLoop (some p) rest.length i = .ok (none, a)
    | some index => ∃ after, a.purgeLoop (some p) rest.length i = .ok (some p, after) ∧ after.Represents (q.remove (i + index)) := by
  induction rest generalizing i with
  | nil => rfl
  | cons other rest ih =>
    obtain ⟨here, later⟩ := Queue.drop_cons suffix
    rw [List.findIdx?_cons, List.length_cons, QueueArray.purgeLoop, held.load here, Outcome.bind_ok]
    by_cases same : other = p
    · obtain ⟨inside, _⟩ := List.getElem?_eq_some_iff.mp here
      obtain ⟨after, removed, kept⟩ := held.removeAt inside
      rw [if_pos (decide_eq_true same), if_pos (congrArg some same), removed]
      exact ⟨after, by rw [same]; rfl, kept⟩
    · have differ : ¬some other = some p := fun equal => same (Option.some.inj equal)
      have next := ih later
      rw [if_neg (by simpa using same), if_neg differ]
      cases found : rest.findIdx? (· = p) with
      | none =>
        rw [found] at next
        exact next
      | some index =>
        rw [found] at next
        obtain ⟨after, ran, kept⟩ := next
        refine ⟨after, ran, ?_⟩
        rw [Nat.add_assoc, Nat.add_comm 1 index] at kept
        exact kept

theorem Represents.purgequeue (held : a.Represents q) (proc : Option Proc) : ∃ after,
    a.purgequeue proc = .ok ((q.purgequeue proc).1, after) ∧ after.Represents (q.purgequeue proc).2 := by
  cases proc with
  | none => exact ⟨a, by rw [QueueArray.purgequeue, Option.isNone_none, Bool.or_true, if_pos rfl]; rfl, held⟩
  | some p =>
    cases entries : a.empty with
    | true =>
      have nothing : q.purgequeue (some p) = (none, q) := by
        rw [Queue.purgequeue, held.empty.mp entries]
        rfl
      rw [nothing]
      exact ⟨a, by rw [QueueArray.purgequeue, entries]; rfl, held⟩
    | false =>
      have rounds : a.size.toNat = q.procs.length := by rw [held.size, Int.toNat_natCast]
      have loop := held.purgeLoop p (List.drop_zero (l := q.procs))
      have start : a.purgequeue (some p) = a.purgeLoop (some p) q.procs.length 0 := by
        rw [QueueArray.purgequeue, entries, rounds]
        rfl
      rw [start, Queue.purgequeue]
      cases found : q.procs.findIdx? (· = p) with
      | none =>
        rw [found] at loop
        exact ⟨a, loop, held⟩
      | some index =>
        rw [found] at loop
        obtain ⟨after, ran, kept⟩ := loop
        rw [Nat.zero_add] at kept
        exact ⟨after, ran, kept⟩

end Purge
end QueueArray

/-- The search ends at the first entry with the least priority. -/
theorem Queue.scanBest_first {priority : Proc → BitVec 32} {all rest : List Proc} {i : Nat} {best : Nat × Proc} (suffix : all.drop i = rest)
    (first : ∀ k < best.1, ∀ other, all[k]? = some other → (priority best.2).toNat < (priority other).toNat)
    (seen : ∀ k < i, ∀ other, all[k]? = some other → (priority best.2).toNat ≤ (priority other).toNat) :
    (∀ k < (scanBest priority i best rest).1, ∀ other, all[k]? = some other →
      (priority (scanBest priority i best rest).2).toNat < (priority other).toNat) ∧
    ∀ other ∈ all, (priority (scanBest priority i best rest).2).toNat ≤ (priority other).toNat := by
  induction rest generalizing i best with
  | nil =>
    refine ⟨first, fun other member => ?_⟩
    obtain ⟨k, there⟩ := List.mem_iff_getElem?.mp member
    obtain ⟨inside, _⟩ := List.getElem?_eq_some_iff.mp there
    have beyond := List.drop_eq_nil_iff.mp suffix
    exact seen k (by omega) other there
  | cons p rest ih =>
    obtain ⟨here, later⟩ := drop_cons suffix
    rw [scanBest]
    by_cases smaller : priority p < priority best.2
    · rw [if_pos smaller]
      rw [BitVec.lt_def] at smaller
      apply ih later
      · intro k below other there
        exact Nat.lt_of_lt_of_le smaller (seen k below other there)
      · intro k below other there
        rcases Nat.lt_succ_iff_lt_or_eq.mp below with old | rfl
        · exact Nat.le_of_lt (Nat.lt_of_lt_of_le smaller (seen k old other there))
        · cases here.symm.trans there
          exact Nat.le_refl _
    · rw [if_neg smaller]
      rw [BitVec.lt_def] at smaller
      apply ih later first
      intro k below other there
      rcases Nat.lt_succ_iff_lt_or_eq.mp below with old | rfl
      · exact seen k old other there
      · cases here.symm.trans there
        exact Nat.not_lt.mp smaller

section Stable
open StableQueue
variable {q : Queue Proc} {now : Nat} {entries : List (Entry Proc)}

theorem entry_at (same : entries.map Entry.item = q.procs) {index : Nat} {p : Proc} (here : q.procs[index]? = some p) :
    ∃ entry, entries[index]? = some entry ∧ entry.item = p := by
  rw [← same, List.getElem?_map] at here
  obtain ⟨entry, there, item⟩ := Option.map_eq_some_iff.mp here
  exact ⟨entry, there, item⟩

theorem item_at (same : entries.map Entry.item = q.procs) {index : Nat} {entry : Entry Proc} (here : entries[index]? = some entry) :
    q.procs[index]? = some entry.item := by
  rw [← same, List.getElem?_map, here]
  rfl

theorem removed_items (same : entries.map Entry.item = q.procs) (index : Nat) :
    (entries.eraseIdx index).map Entry.item = (q.remove index).procs := by
  change _ = q.procs.eraseIdx index
  rw [← same, List.eraseIdx_map]

theorem Queue.enqueue_stable (same : entries.map Entry.item = q.procs) (proc : Option Proc) :
    ∃ after, Effect maxQueueSize now entries (.insert proc : Call Proc Nat) none after ∧ after.map Entry.item = (q.enqueue proc).procs := by
  have length : entries.length = q.procs.length := by rw [← same, List.length_map]
  cases proc with
  | none => exact ⟨entries, .insertedNothing entries, same⟩
  | some p =>
    cases room : q.full with
    | true =>
      refine ⟨entries, .full p ?_, ?_⟩
      · rw [length]
        exact Nat.le_of_eq (full_iff.mp room).symm
      · rw [enqueue_of_full room, same]
    | false =>
      refine ⟨_, .inserted p ?_, ?_⟩
      · rw [length]
        exact Nat.not_le.mp (of_decide_eq_false room)
      · rw [enqueue_of_room room, List.map_append, same]
        rfl

theorem Queue.dequeue_stable (ordered : Ordered now entries) (same : entries.map Entry.item = q.procs) (priority : Proc → BitVec 32) :
    ∃ after, Effect maxQueueSize now entries (.extract fun p => (priority p).toNat) (q.dequeue priority).1 after ∧
      after.map Entry.item = (q.dequeue priority).2.procs := by
  cases procs : q.procs with
  | nil =>
    have nothing : q.dequeue priority = (none, q) := by rw [Queue.dequeue, procs]
    rw [procs] at same
    cases List.map_eq_nil_iff.mp same
    rw [nothing]
    exact ⟨[], .extractedNothing _, procs.symm⟩
  | cons p rest =>
    have behind : q.procs.drop 1 = rest := by rw [procs]; rfl
    have head : q.procs[0]? = some p := by rw [procs]; rfl
    have best := @scanBest_mem _ priority _ _ 1 (0, p) head behind
    obtain ⟨first, least⟩ := @scanBest_first _ priority _ _ 1 (0, p) behind (fun k below => absurd below (Nat.not_lt_zero k)) (by
      intro k below other there
      cases Nat.lt_one_iff.mp below
      cases head.symm.trans there
      exact Nat.le_refl _)
    have answer : q.dequeue priority = (some (scanBest priority 1 (0, p) rest).2, q.remove (scanBest priority 1 (0, p) rest).1) := by
      rw [Queue.dequeue, procs]
    rw [answer]
    generalize scanBest priority 1 (0, p) rest = found at *
    obtain ⟨index, chosen⟩ := found
    obtain ⟨entry, here, rfl⟩ := entry_at same best
    have least_at := @Ordered.extract_at _ _ _ maxQueueSize _ _ _ _ (fun p => (priority p).toNat) ordered here
    refine ⟨entries.eraseIdx index, least_at ?_ ?_, removed_items same index⟩
    · intro other member
      exact least other.item (same ▸ List.mem_map_of_mem member)
    · intro k below other there
      exact first k below other.item (item_at same there)

theorem Queue.purgequeue_stable [DecidableEq Proc] (ordered : Ordered now entries) (same : entries.map Entry.item = q.procs)
    (proc : Option Proc) : ∃ after, Effect maxQueueSize now entries (.remove proc : Call Proc Nat) (q.purgequeue proc).1 after ∧
      after.map Entry.item = (q.purgequeue proc).2.procs := by
  cases proc with
  | none => exact ⟨entries, .removedNothing entries, same⟩
  | some p =>
    rw [Queue.purgequeue]
    cases found : q.procs.findIdx? (· = p) with
    | none =>
      refine ⟨entries, .absent ?_, same⟩
      intro other member item
      have differs := List.findIdx?_eq_none_iff.mp found other.item (same ▸ List.mem_map_of_mem member)
      exact of_decide_eq_false differs item
    | some index =>
      obtain ⟨inside, chosen, first⟩ := List.findIdx?_eq_some_iff_getElem.mp found
      obtain ⟨entry, here, item⟩ := entry_at same (List.getElem?_eq_getElem inside)
      rw [of_decide_eq_true chosen] at item
      subst item
      refine ⟨entries.eraseIdx index, ordered.remove_at here ?_, removed_items same index⟩
      intro k below other there equal
      obtain ⟨_, at'⟩ := List.getElem?_eq_some_iff.mp (item_at same there)
      exact first k below (decide_eq_true (at'.trans equal))

end Stable

/-- A call on one `queue_t`. The priorities are those in the pcbs at the time of the call. -/
inductive QueueCall (Proc : Type) where
  | enqueue (proc : Option Proc)
  | dequeue (priority : Proc → BitVec 32)
  | purgequeue (proc : Option Proc)

namespace QueueArray
variable [DecidableEq Proc]

def call (a : QueueArray Proc) : QueueCall Proc → Outcome (Option Proc × QueueArray Proc)
  | .enqueue proc => do
    let a ← a.enqueue proc
    return (none, a)
  | .dequeue priority => a.dequeue priority
  | .purgequeue proc => a.purgequeue proc

/-- Calls in a row, with their results. -/
def calls : List (QueueCall Proc) → QueueArray Proc → Outcome (List (Option Proc) × QueueArray Proc)
  | [], a => .ok ([], a)
  | call :: rest, a => do
    let (result, a) ← a.call call
    let (results, a) ← calls rest a
    return (result :: results, a)

end QueueArray

section Runs
open StableQueue
variable [DecidableEq Proc] {a : QueueArray Proc} {q : Queue Proc} {now : Nat} {entries : List (Entry Proc)}

/-- The same call on the abstract queue. -/
def QueueCall.stable : QueueCall Proc → Call Proc Nat
  | .enqueue proc => .insert proc
  | .dequeue priority => .extract fun p => (priority p).toNat
  | .purgequeue proc => .remove proc

/-- The array holds these entries, from its start and in their order. -/
structure QueueArray.Keeps (a : QueueArray Proc) (entries : List (Entry Proc)) : Prop where
  size : a.size = entries.length
  bound : 0 ≤ a.size ∧ a.size ≤ maxQueueSize
  procs : ∀ index entry, entries[index]? = some entry → a.proc index = some entry.item

omit [DecidableEq Proc] in
theorem QueueArray.Represents.keeps (held : a.Represents q) (same : entries.map Entry.item = q.procs) : a.Keeps entries := by
  have length : entries.length = q.procs.length := by rw [← same, List.length_map]
  have bound := q.size_le
  have size := held.size
  refine ⟨by rw [size, length], by omega, ?_⟩
  intro index entry here
  exact held.entries index entry.item (item_at same here)

/-- One call on the array is one on the list and one on the abstract queue. -/
theorem QueueArray.Represents.call (held : a.Represents q) (ordered : Ordered now entries) (same : entries.map Entry.item = q.procs)
    (call : QueueCall Proc) : ∃ result after list later, a.call call = .ok (result, after) ∧ after.Represents list ∧
      Effect maxQueueSize now entries call.stable result later ∧ later.map Entry.item = list.procs := by
  cases call with
  | enqueue proc =>
    obtain ⟨after, ran, kept⟩ := held.enqueue proc
    obtain ⟨later, effect, items⟩ := Queue.enqueue_stable same proc
    refine ⟨none, after, _, later, ?_, kept, effect, items⟩
    rw [QueueArray.call, ran]
    rfl
  | dequeue priority =>
    obtain ⟨after, ran, kept⟩ := held.dequeue priority
    obtain ⟨later, effect, items⟩ := Queue.dequeue_stable ordered same priority
    exact ⟨_, after, _, later, ran, kept, effect, items⟩
  | purgequeue proc =>
    obtain ⟨after, ran, kept⟩ := held.purgequeue proc
    obtain ⟨later, effect, items⟩ := Queue.purgequeue_stable ordered same proc
    exact ⟨_, after, _, later, ran, kept, effect, items⟩

theorem QueueArray.Represents.calls (held : a.Represents q) (ordered : Ordered now entries) (same : entries.map Entry.item = q.procs)
    (calls : List (QueueCall Proc)) : ∃ results after later, a.calls calls = .ok (results, after) ∧
      Steps (Step maxQueueSize) ⟨now, entries⟩ ((calls.map QueueCall.stable).zip results) ⟨now + calls.length, later⟩ ∧
      after.Keeps later := by
  induction calls generalizing a q now entries with
  | nil => exact ⟨[], a, entries, rfl, .refl _, held.keeps same⟩
  | cons call rest ih =>
    obtain ⟨result, middle, list, between, ran, kept, effect, items⟩ := held.call ordered same call
    obtain ⟨results, after, later, further, run, keeps⟩ := ih kept (ordered.effect effect) items
    refine ⟨result :: results, after, later, ?_, ?_, keeps⟩
    · rw [QueueArray.calls, ran, Outcome.bind_ok]
      dsimp only
      rw [further]
      rfl
    · rw [List.map_cons, List.zip_cons_cons, List.length_cons, Nat.add_comm rest.length, ← Nat.add_assoc]
      exact .cons (.call effect) run

/-- Whatever the array held before: with `size` 0 any calls in a row return, without an access
outside the array, and they return and keep what a stable bounded priority queue does. -/
theorem process_queue_is_stable (start : a.size = 0) (calls : List (QueueCall Proc)) : ∃ results after entries,
    a.calls calls = .ok (results, after) ∧
      Steps (Step maxQueueSize) ⟨0, []⟩ ((calls.map QueueCall.stable).zip results) ⟨calls.length, entries⟩ ∧ after.Keeps entries := by
  have held : a.Represents .nil := ⟨start, fun index p here => by cases here⟩
  obtain ⟨results, after, entries, ran, run, keeps⟩ := held.calls ⟨.nil, fun _ member => by cases member⟩ rfl calls
  rw [Nat.zero_add] at run
  exact ⟨results, after, entries, ran, run, keeps⟩

/-- Three processes, of which the last two come before the first. -/
def threeProcesses : List (QueueCall Nat) :=
  [.enqueue (some 10), .enqueue (some 20), .enqueue (some 30), .dequeue fun p => if p = 10 then 7 else 3, .purgequeue (some 10),
    .dequeue fun _ => 0]

theorem process_queue_is_stable_threeProcesses : ∃ results after entries,
    QueueArray.calls threeProcesses { proc := fun _ => some 99, size := 0 } = .ok (results, after) ∧
      Steps (Step maxQueueSize) ⟨0, []⟩ ((threeProcesses.map QueueCall.stable).zip results) ⟨6, entries⟩ ∧ after.Keeps entries :=
  process_queue_is_stable rfl threeProcesses

example : (QueueArray.calls threeProcesses { proc := fun _ => some 99, size := 0 }).map Prod.fst =
    .ok [none, none, none, some 20, some 10, some 30] := rfl

end Runs
end LamiaAtrium
