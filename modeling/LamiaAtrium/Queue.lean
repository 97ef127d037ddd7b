import LamiaAtrium.Machine
import Mathlib.Data.List.Perm.Basic

/-! The process queue of `queue.c`: an array of pcb pointers and its size. The entries
are kept as a list, in array order. -/

namespace LamiaAtrium
variable {Proc : Type}

def maxQueueSize : Nat := 50

structure Queue (Proc : Type) where
  procs : List Proc
  size_le : procs.length ≤ maxQueueSize

namespace Queue

def nil : Queue Proc := ⟨[], Nat.zero_le _⟩

def size (q : Queue Proc) : Nat := q.procs.length

def empty (q : Queue Proc) : Bool := q.size == 0

def full (q : Queue Proc) : Bool := decide (maxQueueSize ≤ q.size)

/-- `enqueue`; `none` is the null pointer. A full queue is left as it is. -/
def enqueue (q : Queue Proc) (proc : Option Proc) : Queue Proc :=
  match proc with
  | none => q
  | some p =>
    if room : q.size < maxQueueSize then ⟨q.procs ++ [p], by rw [List.length_append]; exact room⟩ else q

/-- The loop of `dequeue` from position `i` on, with the position of the best entry so
far and the entry itself. Only a strictly smaller priority replaces it. -/
def scanBest (priority : Proc → BitVec 32) : Nat → Nat × Proc → List Proc → Nat × Proc
  | _, best, [] => best
  | i, best, p :: rest =>
    scanBest priority (i + 1) (if priority p < priority best.2 then (i, p) else best) rest

def remove (q : Queue Proc) (index : Nat) : Queue Proc :=
  ⟨q.procs.eraseIdx index, Nat.le_trans (List.length_eraseIdx_le q.procs index) q.size_le⟩

def dequeue (priority : Proc → BitVec 32) (q : Queue Proc) : Option Proc × Queue Proc :=
  match q.procs with
  | [] => (none, q)
  | p :: rest =>
    let (best, res) := scanBest priority 1 (0, p) rest
    (some res, q.remove best)

def purgequeue [DecidableEq Proc] (q : Queue Proc) (proc : Option Proc) : Option Proc × Queue Proc :=
  match proc with
  | none => (none, q)
  | some p =>
    match q.procs.findIdx? (· = p) with
    | none => (none, q)
    | some index => (some p, q.remove index)

section Entries
variable {priority : Proc → BitVec 32} {q after : Queue Proc} {p : Proc}

theorem full_iff : q.full = true ↔ q.procs.length = maxQueueSize := by
  have bound := q.size_le
  rw [full, size, decide_eq_true_eq]
  omega

theorem enqueue_procs (q : Queue Proc) (p : Proc) : (q.enqueue (some p)).procs = (q.procs ++ [p]).take maxQueueSize := by
  have bound := q.size_le
  unfold enqueue
  by_cases room : q.size < maxQueueSize
  · have fits : (q.procs ++ [p]).length ≤ maxQueueSize := by rw [List.length_append]; exact room
    simp [room, List.take_of_length_le fits]
  · have filled : q.procs.length = maxQueueSize := Nat.le_antisymm bound (Nat.not_lt.mp room)
    simp [room, filled]

/-- Entries cut off at the bound never come back. -/
theorem take_append_take (entries more : List Proc) :
    (entries.take maxQueueSize ++ more).take maxQueueSize = (entries ++ more).take maxQueueSize := by
  have room : maxQueueSize - min maxQueueSize entries.length = maxQueueSize - entries.length := by omega
  rw [List.take_append, List.take_append, List.take_take, Nat.min_self, List.length_take, room]

theorem enqueue_of_full (full : q.full = true) (p : Proc) : q.enqueue (some p) = q := by
  unfold enqueue
  exact dif_neg (Nat.not_lt.mpr (of_decide_eq_true full))

theorem enqueue_of_room (room : q.full = false) (p : Proc) : (q.enqueue (some p)).procs = q.procs ++ [p] := by
  have fits : (q.procs ++ [p]).length ≤ maxQueueSize := by
    rw [List.length_append]
    exact Nat.not_le.mp (of_decide_eq_false room)
  rw [enqueue_procs, List.take_of_length_le fits]

theorem countP_enqueue (q : Queue Proc) (p : Proc) (f : Proc → Bool) :
    (q.enqueue (some p)).procs.countP f = q.procs.countP f + (!q.full && f p).toNat := by
  cases room : q.full with
  | true => rw [enqueue_of_full room]; rfl
  | false =>
    rw [enqueue_of_room room, List.countP_append]
    cases chosen : f p <;> simp [chosen]

theorem mem_enqueue {other : Proc} (member : other ∈ q.procs) : other ∈ (q.enqueue (some p)).procs := by
  unfold enqueue
  dsimp only
  split
  · exact List.mem_append_left _ member
  · exact member

theorem mem_of_mem_enqueue {other : Proc} (member : other ∈ (q.enqueue (some p)).procs) : other ∈ q.procs ∨ other = p := by
  rw [enqueue_procs] at member
  rcases List.mem_append.mp (List.mem_of_mem_take member) with old | new
  · exact .inl old
  · exact .inr (List.mem_singleton.mp new)

/-- A loop that has come to position `i` has this element before it, and then the rest. -/
theorem drop_cons {all rest : List Proc} {i : Nat} {p : Proc} (suffix : all.drop i = p :: rest) :
    all[i]? = some p ∧ all.drop (i + 1) = rest := by
  constructor
  · rw [← List.head?_drop, suffix]
    rfl
  · rw [← List.drop_drop, suffix]
    rfl

theorem scanBest_mem {all rest : List Proc} {i : Nat} {best : Nat × Proc} (held : all[best.1]? = some best.2)
    (suffix : all.drop i = rest) :
    all[(scanBest priority i best rest).1]? = some (scanBest priority i best rest).2 := by
  induction rest generalizing i best with
  | nil => exact held
  | cons p rest ih =>
    obtain ⟨here, later⟩ := drop_cons suffix
    apply ih _ later
    by_cases smaller : priority p < priority best.2
    · rwa [if_pos smaller]
    · rwa [if_neg smaller]

theorem dequeue_none (q : Queue Proc) : (q.dequeue priority).1 = none ↔ q.procs = [] := by
  unfold dequeue
  split
  · next vacant => simp [vacant]
  · next vacant => simp [vacant]

/-- What `dequeue` returns and what it leaves are together what was there. -/
theorem dequeue_perm (taken : q.dequeue priority = (some p, after)) : q.procs.Perm (p :: after.procs) := by
  unfold dequeue at taken
  split at taken
  · cases taken
  · next head rest entries =>
    have found : q.procs[(scanBest priority 1 (0, head) rest).1]? = some (scanBest priority 1 (0, head) rest).2 :=
      scanBest_mem (by rw [entries]; rfl) (by rw [entries]; rfl)
    cases taken
    obtain ⟨inside, here⟩ := List.getElem?_eq_some_iff.mp found
    rw [← here]
    exact (List.getElem_cons_eraseIdx_perm inside).symm

/-- The first entry is left only for one with a strictly smaller priority. -/
private theorem scanBest_cases (rest : List Proc) (i : Nat) (best : Nat × Proc) :
    (scanBest priority i best rest = best ∧ ∀ other ∈ rest, ¬priority other < priority best.2) ∨
      (priority (scanBest priority i best rest).2 < priority best.2 ∧ ∃ other ∈ rest, priority other < priority best.2) := by
  induction rest generalizing i best with
  | nil => exact .inl ⟨rfl, nofun⟩
  | cons p rest ih =>
    rw [scanBest]
    by_cases smaller : priority p < priority best.2
    · rw [if_pos smaller]
      refine .inr ⟨?_, p, List.mem_cons_self, smaller⟩
      rcases ih (i + 1) (i, p) with ⟨same, _⟩ | ⟨less, _⟩
      · rw [same]; exact smaller
      · exact BitVec.lt_trans less smaller
    · rw [if_neg smaller]
      rcases ih (i + 1) best with ⟨same, others⟩ | ⟨less, other, member, younger⟩
      · refine .inl ⟨same, fun other member => ?_⟩
        rcases List.mem_cons.mp member with rfl | later
        · exact smaller
        · exact others other later
      · exact .inr ⟨less, other, List.mem_cons_of_mem _ member, younger⟩

/-- `dequeue` takes the oldest entry unless another one has a strictly smaller priority,
and then it takes another. -/
theorem dequeue_oldest {oldest : Proc} {rest : List Proc} (entries : q.procs = oldest :: rest)
    (taken : q.dequeue priority = (some p, after)) :
    (p = oldest ∧ after.procs = rest ∧ ∀ other ∈ rest, ¬priority other < priority oldest) ∨
      (p ≠ oldest ∧ ∃ other ∈ rest, priority other < priority oldest) := by
  unfold dequeue at taken
  split at taken
  · cases taken
  · next head others found =>
    cases found.symm.trans entries
    rcases scanBest_cases rest 1 (0, oldest) with ⟨same, none⟩ | ⟨less, other⟩
    · rw [same] at taken
      cases taken
      refine .inl ⟨rfl, ?_, none⟩
      change q.procs.eraseIdx 0 = rest
      rw [entries, List.eraseIdx_cons_zero]
    · cases taken
      refine .inr ⟨fun same => ?_, other⟩
      rw [same] at less
      exact BitVec.lt_irrefl _ less

end Entries
end Queue
end LamiaAtrium
