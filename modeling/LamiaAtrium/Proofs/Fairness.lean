import LamiaAtrium.Proofs.LevelOrder
import LamiaAtrium.Proofs.ProcessQueue

/-! Fairness of the scheduler over any stretch of calls: levels that stay non-empty share
the dispatches in proportion to their slots, and a process that no other one in its level
is preferred to is dispatched after a number of calls that its place bounds. -/

namespace LamiaAtrium
open Run RoundRobin
variable {Proc : Type}

namespace Sched
variable {pr : Priorities Proc} {s after : Sched Proc} {call : Call Proc} {calls earlier later : List (Call Proc)}
  {before next : Sched Proc × (Fin maxPrio → Nat)} {p q r : Fin maxPrio}

section Shares

/-- Every call of `get_proc` in the stretch finds an entry in level `q`. -/
def StaysReady (pr : Priorities Proc) (q : Fin maxPrio) (s : Sched Proc) (calls : List (Call Proc)) : Prop :=
  ∀ earlier result later middle, calls = earlier ++ .returned result :: later → Steps (Step pr) s earlier middle →
    (middle.mlqReadyQueue q).empty = false

/-- `StaysReady`, looked at request by request. -/
def readyAlong (pr : Priorities Proc) (q : Fin maxPrio) (s : Sched Proc) : List (Request Proc) → Bool
  | [] => true
  | request :: requests =>
    (match request with | .get => !(s.mlqReadyQueue q).empty | _ => true) &&
      (serve pr s request).toOption.all fun result => readyAlong pr q result.2 requests

theorem StaysReady.of_readyAlong (ready : readyAlong pr q s (calls.map Call.request) = true) : StaysReady pr q s calls := by
  intro earlier result later middle cut upto
  subst cut
  induction earlier generalizing s with
  | nil =>
    rw [upto.nil_same]
    have here : (!(s.mlqReadyQueue q).empty) = true := (Bool.and_eq_true_iff.mp ready).1
    simpa using here
  | cons call earlier ih =>
    obtain ⟨next, ⟨request, served⟩, rest⟩ := upto.head_step
    have later := (Bool.and_eq_true_iff.mp ready).2
    rw [serve_request served, served] at later
    exact ih rest later

private theorem StaysReady.of_append (ready : StaysReady pr p s (earlier ++ later)) : StaysReady pr p s earlier := by
  intro first result rest middle cut run
  refine ready first result (rest ++ later) middle ?_ run
  rw [cut, List.append_assoc, List.cons_append]

/-- The level that a call takes a process from. -/
theorem dispatches_level (home : AtHome pr s) {result : Option Proc} {level : Option (Fin maxPrio)} (drawn : Drawn pr s result level after)
    (q : Fin maxPrio) : (Call.dispatches pr q (.returned result)).toList.length = if level = some q then 1 else 0 := by
  cases drawn with
  | nothing => rfl
  | entry p own rest taken =>
    have named := home own p ((Queue.dequeue_perm taken).mem_iff.mpr List.mem_cons_self)
    by_cases here : own = q
    · rw [here] at named
      rw [Call.dispatches, if_pos (level_eq_ok.mp named), if_pos (by rw [here])]
      rfl
    · have elsewhere : ofLevel pr q p = false := by
        rw [Bool.eq_false_iff]
        intro same
        exact here (Except.ok.inj (named.symm.trans (level_eq_ok.mpr same)))
      rw [Call.dispatches, if_neg (by rw [elsewhere]; exact Bool.false_ne_true), if_neg fun same => here (Option.some.inj same)]
      rfl

theorem dispatched_concat (calls : List (Call Proc)) (call : Call Proc) (q : Fin maxPrio) :
    (dispatched pr q (calls ++ [call])).length = (dispatched pr q calls).length + (call.dispatches pr q).toList.length := by
  rw [dispatched_append, dispatched_single, List.length_append]

/-- The slots of `init_scheduler`. -/
def quota (q : Fin maxPrio) : Nat := maxPrio - q.val

theorem Steady.quotas {served : Fin maxPrio → Nat} (steady : Steady s served) : s.slot = quota := funext steady.slots

private theorem nothing_dispatched (p r : Fin maxPrio) (lead : Nat) : lead + 0 * quota p = lead + 0 * quota r := by
  rw [Nat.zero_mul, Nat.zero_mul]

/-- One call moves the lead by what it dispatched. -/
private theorem lead_step (steady : Steady before.1 before.2) (home : AtHome pr before.1) (taken : Counted pr before call next)
    (distinct : p ≠ r) (ready : ∀ result, call = .returned result →
      (before.1.mlqReadyQueue p).empty = false ∧ (before.1.mlqReadyQueue r).empty = false) :
    lead quota p r (next.1.wheel next.2) + (call.dispatches pr r).toList.length * quota p =
      lead quota p r (before.1.wheel before.2) + (call.dispatches pr p).toList.length * quota r := by
  obtain ⟨stepped, turn⟩ := taken.cases
  rcases turn with ⟨result, rfl, counted⟩ | ⟨insertion, same⟩
  · obtain ⟨level, turned, drawn⟩ := getMlqProc_turned steady.positive (getMlqProc_of_step stepped) before.2
    obtain ⟨first, second⟩ := ready result rfl
    have moved := turned.lead steady.positive distinct steady.balanced.used_le (busy_eq_true.mpr first) (busy_eq_true.mpr second)
    rw [steady.quotas] at moved
    have price (hit : Prop) [Decidable hit] (slots : Nat) : (if hit then 1 else 0) * slots = if hit then slots else 0 := by
      by_cases here : hit
      · rw [if_pos here, if_pos here, Nat.one_mul]
      · rw [if_neg here, if_neg here, Nat.zero_mul]
    rw [counted, dispatches_level home drawn, dispatches_level home drawn, price, price]
    exact moved
  · obtain ⟨cursor, used⟩ := cursor_of_inserted stepped insertion
    have quiet (q : Fin maxPrio) : call.dispatches pr q = none := by
      cases call with
      | returned result => exact absurd rfl (insertion result)
      | added _ _ | putBack _ _ => rfl
    rw [quiet, quiet]
    unfold wheel
    rw [cursor, used, same]
    exact nothing_dispatched p r _

/-- What two levels were dispatched differs by the change of the lead. -/
private theorem lead_run (steady : Steady before.1 before.2) (home : AtHome pr before.1) (run : Steps (Counted pr) before later next)
    (distinct : p ≠ r) (first : StaysReady pr p before.1 later) (second : StaysReady pr r before.1 later) :
    lead quota p r (next.1.wheel next.2) + (dispatched pr r later).length * quota p =
      lead quota p r (before.1.wheel before.2) + (dispatched pr p later).length * quota r := by
  have invariant : Steps (Step pr) before.1 later next.1 ∧ AtHome pr next.1 ∧ Steady next.1 next.2 ∧
      (StaysReady pr p before.1 later → StaysReady pr r before.1 later →
        lead quota p r (next.1.wheel next.2) + (dispatched pr r later).length * quota p =
          lead quota p r (before.1.wheel before.2) + (dispatched pr p later).length * quota r) := by
    refine run.history (fun later next => Steps (Step pr) before.1 later next.1 ∧ AtHome pr next.1 ∧ Steady next.1 next.2 ∧
      (StaysReady pr p before.1 later → StaysReady pr r before.1 later →
        lead quota p r (next.1.wheel next.2) + (dispatched pr r later).length * quota p =
          lead quota p r (before.1.wheel before.2) + (dispatched pr p later).length * quota r)) ⟨.refl _, home, steady, fun _ _ => nothing_dispatched p r _⟩ ?_
    rintro later middle call next ⟨upto, home, steady, sofar⟩ taken
    have stepped := taken.cases.1
    refine ⟨upto.tail stepped, stepped.served.atHome home, steady.kept taken, fun first second => ?_⟩
    have moved := lead_step steady home taken distinct fun result returned =>
      ⟨first later result [] middle.1 (by rw [returned]) upto, second later result [] middle.1 (by rw [returned]) upto⟩
    have earlier := sofar first.of_append second.of_append
    rw [dispatched_concat, dispatched_concat, Nat.add_mul, Nat.add_mul]
    omega
  exact invariant.2.2.2 first second

/-- Two levels that have an entry at every call of `get_proc` share the dispatches in
proportion to their slots, up to one turn of each. -/
theorem levels_share_by_slots (run : Steps (Step pr) initScheduler earlier s) (stretch : Steps (Step pr) s later after)
    (distinct : p ≠ r) (first : StaysReady pr p s later) (second : StaysReady pr r s later) :
    (dispatched pr p later).length * (maxPrio - r.val) ≤
      (dispatched pr r later).length * (maxPrio - p.val) + (maxPrio - p.val) * (maxPrio - r.val) ∧
    (dispatched pr r later).length * (maxPrio - p.val) ≤
      (dispatched pr p later).length * (maxPrio - r.val) + (maxPrio - p.val) * (maxPrio - r.val) := by
  obtain ⟨served, counted⟩ := counted_of_run run _
  obtain ⟨last, along⟩ := counted_of_run stretch served
  have steady := steady_of_counted counted
  have ended := steady_of_counted (counted.trans along)
  have balance := lead_run steady (atHome_of_run run) along distinct first second
  have start := lead_le (p := p) (r := r) steady.balanced.used_le
  have finish := lead_le (p := p) (r := r) ended.balanced.used_le
  rw [steady.quotas] at start
  rw [ended.quotas] at finish
  change _ ≤ (maxPrio - p.val) * (maxPrio - r.val) at start finish
  change _ + _ * (maxPrio - p.val) = _ + _ * (maxPrio - r.val) at balance
  omega

/-- Two processes at the last level and two at the one above. -/
def bottomLevels : Priorities Nat where
  priority := fun _ => 0
  prio := fun p => if p < 2 then 138 else 139

def aboveBottom : Fin maxPrio := ⟨138, by decide⟩

def bottomLevel : Fin maxPrio := ⟨139, by decide⟩

def allAdded : List (Request Nat) := [.add 0, .add 1, .add 2, .add 3]

def inTurns : List (Request Nat) := [.get, .put 0, .get, .put 1, .get, .put 2, .get, .put 0, .get, .put 1, .get]

theorem inTurns_serves : ((serveAll bottomLevels initScheduler allAdded).map fun result =>
      readyAlong bottomLevels aboveBottom result.2 inTurns && readyAlong bottomLevels bottomLevel result.2 inTurns) = .ok true ∧
    ((serveAll bottomLevels initScheduler allAdded).bind fun result => (serveAll bottomLevels result.2 inTurns).map fun final =>
      ((dispatched bottomLevels aboveBottom final.1).length, (dispatched bottomLevels bottomLevel final.1).length)) = .ok (4, 2) := by
  decide +kernel

/-- Four dispatches of the level with two slots and two of the level with one. -/
theorem levels_share_by_slots_bottomLevels : ∃ earlier s later after, serveAll bottomLevels initScheduler allAdded = .ok (earlier, s) ∧
    serveAll bottomLevels s inTurns = .ok (later, after) ∧
    (dispatched bottomLevels aboveBottom later).length = 4 ∧ (dispatched bottomLevels bottomLevel later).length = 2 ∧
    ((dispatched bottomLevels aboveBottom later).length * 1 ≤ (dispatched bottomLevels bottomLevel later).length * 2 + 2 * 1 ∧
      (dispatched bottomLevels bottomLevel later).length * 2 ≤ (dispatched bottomLevels aboveBottom later).length * 1 + 2 * 1) := by
  have valid (p : Nat) : (bottomLevels.prio p).toNat < maxPrio := by
    change (if p < 2 then (138 : BitVec 32) else 139).toNat < maxPrio
    split <;> decide
  obtain ⟨earlier, s, served, _, run⟩ := serveAll_valid valid initScheduler allAdded
  obtain ⟨later, after, dispatch, asked, stretch⟩ := serveAll_valid valid s inTurns
  obtain ⟨ready, counts⟩ := inTurns_serves
  rw [served] at ready counts
  rw [Except.bind, dispatch] at counts
  obtain ⟨first, second⟩ := Prod.mk.inj (Except.ok.inj counts)
  obtain ⟨above, last⟩ := Bool.and_eq_true_iff.mp (Except.ok.inj ready)
  rw [← asked] at above last
  exact ⟨earlier, s, later, after, served, dispatch, first, second,
    levels_share_by_slots run stretch (by decide) (.of_readyAlong above) (.of_readyAlong last)⟩

end Shares

section Waiting

/-- `dequeue` takes the first of the entries with the least default priority. -/
private theorem dequeue_first {priority : Proc → BitVec 32} {q rest : Queue Proc} {x : Proc} (taken : q.dequeue priority = (some x, rest)) :
    ∃ j, q.procs[j]? = some x ∧ rest.procs = q.procs.eraseIdx j ∧
      ∀ (k : Nat) y, q.procs[k]? = some y → k < j → priority x < priority y := by
  unfold Queue.dequeue at taken
  split at taken
  · cases taken
  · next head others entries =>
    have first : q.procs[0]? = some head := by rw [entries]; rfl
    have behind : q.procs.drop 1 = others := by rw [entries]; rfl
    have found := @Queue.scanBest_mem _ priority _ _ 1 (0, head) first behind
    obtain ⟨smaller, _⟩ := @Queue.scanBest_first _ priority _ _ 1 (0, head) behind (fun k below => absurd below (Nat.not_lt_zero k)) (by
      intro k below other there
      cases Nat.lt_one_iff.mp below
      cases first.symm.trans there
      exact Nat.le_refl _)
    cases taken
    exact ⟨_, found, rfl, fun k y there before => smaller k before y there⟩

/-- No entry of the level is preferred to `x`. -/
def Unpreferred (pr : Priorities Proc) (x : Proc) (procs : List Proc) : Prop := ∀ y ∈ procs, ¬pr.priority y < pr.priority x

/-- The calls of `get_proc` that a process at place `k` still waits for at most. -/
def patience (r : Fin maxPrio) (served : Fin maxPrio → Nat) (s : Sched Proc) (k : Nat) : Nat :=
  k * (1 + others quota r) + debt quota r (s.wheel served)

/-- A process waits at a place of its level. -/
def WaitsAt (s : Sched Proc) (r : Fin maxPrio) (k : Nat) (x : Proc) : Prop := (s.mlqReadyQueue r).procs[k]? = some x

/-- One call: the process is returned, or waits for one call of `get_proc` less. -/
private theorem patience_step {x : Proc} {k : Nat} (steady : Steady before.1 before.2) (home : AtHome pr before.1)
    (taken : Counted pr before call next) (waits : WaitsAt before.1 r k x)
    (unpreferred : Unpreferred pr x (before.1.mlqReadyQueue r).procs) :
    call = .returned (some x) ∨
      ∃ k', WaitsAt next.1 r k' x ∧ patience r next.2 next.1 k' + call.gets.toNat ≤ patience r before.2 before.1 k := by
  have inside := (List.getElem?_eq_some_iff.mp waits).1
  obtain ⟨stepped, turn⟩ := taken.cases
  rcases turn with ⟨result, rfl, counted⟩ | ⟨insertion, same⟩
  · obtain ⟨level, turned, drawn⟩ := getMlqProc_turned steady.positive (getMlqProc_of_step stepped) before.2
    rw [steady.quotas] at turned
    by_cases reached : level = some r
    · -- another process of the level may go first, from a place before
      cases drawn with
      | nothing => cases reached
      | entry y own rest dequeued same =>
        cases reached
        obtain ⟨j, here, left, smaller⟩ := dequeue_first dequeued
        rcases Nat.lt_trichotomy j k with ahead | equal | behind
        · refine .inr ⟨k - 1, ?_, ?_⟩
          · rw [WaitsAt, same, Function.update_self, left, List.getElem?_eraseIdx_of_ge (by omega), Nat.sub_add_cancel (by omega)]
            exact waits
          · have bound := debt_le_others quota r (next.1.wheel next.2)
            have one : k * (1 + others quota r) = (k - 1) * (1 + others quota r) + (1 + others quota r) := by
              rw [← Nat.succ_mul, Nat.succ_eq_add_one, Nat.sub_add_cancel (by omega)]
            change _ + 1 ≤ _
            unfold patience
            omega
        · rw [equal] at here
          rw [Option.some.inj (here.symm.trans waits)]
          exact .inl rfl
        · exact absurd (smaller k x waits behind) (unpreferred y (List.mem_of_getElem? here))
    · have ready : before.1.busy r = true := busy_eq_true.mpr (empty_eq_false.mpr (List.ne_nil_of_length_pos (by omega)))
      have positive (q : Fin maxPrio) : 0 < quota q := Nat.sub_pos_of_lt q.isLt
      have within := steady.balanced.used_le
      rw [steady.quotas] at within
      have nearer := turned.debt_lt positive (by decide) within ready reached
      refine .inr ⟨k, ?_, ?_⟩
      · cases drawn with
        | nothing same => rw [WaitsAt, same]; exact waits
        | entry y own rest _ same =>
          rw [WaitsAt, same, Function.update_of_ne fun equal => reached (by rw [equal])]
          exact waits
      · rw [counted]
        change _ + 1 ≤ _
        unfold patience
        omega
  · obtain ⟨cursor, used⟩ := cursor_of_inserted stepped insertion
    refine .inr ⟨k, ?_, ?_⟩
    · rcases level_step (r := r) home stepped with ⟨moved, _⟩ | ⟨y, _, _, returned, _⟩
      · have quiet : call.dispatches pr r = none := by
          cases call with
          | returned result => exact absurd rfl (insertion result)
          | added _ _ | putBack _ _ => rfl
        rw [quiet] at moved
        rw [WaitsAt, show (next.1.mlqReadyQueue r).procs = _ from moved, List.getElem?_append_left inside]
        exact waits
      · exact absurd returned (insertion _)
    · have idle : call.gets = false := by
        cases call with
        | returned result => exact absurd rfl (insertion result)
        | added _ _ | putBack _ _ => rfl
      rw [idle]
      unfold patience wheel
      rw [cursor, used]
      exact Nat.le_refl _

/-- The entries of a level were there before or have just been put in. -/
private theorem entry_step (home : AtHome pr s) (taken : Step pr s call after) {y : Proc} (member : y ∈ (after.mlqReadyQueue r).procs) :
    y ∈ (s.mlqReadyQueue r).procs ∨ call.enters pr r = some y := by
  rcases level_step (r := r) home taken with ⟨moved, _⟩ | ⟨p, _, _, rfl, _⟩
  · have somewhere : y ∈ (s.mlqReadyQueue r).procs ++ (call.enters pr r).toList := moved ▸ List.mem_append_right _ member
    rcases List.mem_append.mp somewhere with old | new
    · exact .inl old
    · exact .inr (Option.mem_toList.mp new)
  · cases taken.served with
    | returned _ took =>
      cases took with
      | entry p own rest split same =>
        rw [same] at member
        by_cases here : r = own
        · rw [here, Function.update_self] at member
          rw [here]
          exact .inl (split.mem_iff.mpr (List.mem_cons_of_mem _ member))
        · rw [Function.update_of_ne here] at member
          exact .inl member

/-- A process that no other one in its level is preferred to, by the default priority, is
returned after a number of calls of `get_proc` that its place bounds, whatever the other
levels hold and whatever is put in meanwhile. -/
theorem process_dispatched_within (run : Steps (Step pr) initScheduler earlier s) (stretch : Steps (Step pr) s later after)
    {x : Proc} {k : Nat} (waits : (s.mlqReadyQueue r).procs[k]? = some x)
    (unpreferred : ∀ y, y ∈ (s.mlqReadyQueue r).procs ∨ y ∈ entered pr r later → ¬pr.priority y < pr.priority x)
    (long : (k + 1) * (1 + ∑ q ∈ Finset.univ.erase r, (maxPrio - q.val)) ≤ later.countP Call.gets) :
    .returned (some x) ∈ later := by
  obtain ⟨served, counted⟩ := counted_of_run run _
  obtain ⟨last, along⟩ := counted_of_run stretch served
  have steady := steady_of_counted counted
  have invariant : AtHome pr after ∧ Steady after last ∧ (∀ y ∈ (after.mlqReadyQueue r).procs, y ∈ (s.mlqReadyQueue r).procs ∨
      y ∈ entered pr r later) ∧ ((∀ y ∈ entered pr r later, ¬pr.priority y < pr.priority x) → .returned (some x) ∈ later ∨
        ∃ k', WaitsAt after r k' x ∧ patience r last after k' + later.countP Call.gets ≤ patience r served s k) := by
    refine along.history (fun later next => AtHome pr next.1 ∧ Steady next.1 next.2 ∧ (∀ y ∈ (next.1.mlqReadyQueue r).procs,
      y ∈ (s.mlqReadyQueue r).procs ∨ y ∈ entered pr r later) ∧ ((∀ y ∈ entered pr r later, ¬pr.priority y < pr.priority x) →
        .returned (some x) ∈ later ∨
          ∃ k', WaitsAt next.1 r k' x ∧ patience r next.2 next.1 k' + later.countP Call.gets ≤ patience r served s k)) ?_ ?_
    · exact ⟨atHome_of_run run, steady, fun y member => .inl member, fun _ => .inr ⟨k, waits, Nat.le_refl _⟩⟩
    · rintro later before call next ⟨home, steady, from_, sofar⟩ taken
      have stepped := taken.cases.1
      refine ⟨stepped.served.atHome home, steady.kept taken, fun y member => ?_, fun calm => ?_⟩
      · rw [entered_append, entered_single]
        rcases entry_step home stepped member with old | new
        · exact (from_ y old).imp id (List.mem_append_left _)
        · exact .inr (List.mem_append_right _ (Option.mem_toList.mpr new))
      · rw [entered_append] at calm
        rcases sofar fun y member => calm y (List.mem_append_left _ member) with out | ⟨k', waits, paid⟩
        · exact .inl (List.mem_append_left _ out)
        · have least : Unpreferred pr x (before.1.mlqReadyQueue r).procs := fun y member =>
            (from_ y member).elim (fun old => unpreferred y (.inl old)) fun new => calm y (List.mem_append_left _ new)
          rcases patience_step steady home taken waits least with out | ⟨k'', waits, less⟩
          · exact .inl (List.mem_append_right _ (List.mem_singleton.mpr out.symm))
          · refine .inr ⟨k'', waits, ?_⟩
            rw [List.countP_append, List.countP_singleton]
            cases own : call.gets with
            | true => rw [own] at less; rw [if_pos rfl]; change _ + 1 ≤ _ at less; omega
            | false => rw [own] at less; rw [if_neg Bool.false_ne_true]; change _ + 0 ≤ _ at less; omega
  rcases invariant.2.2.2 fun y member => unpreferred y (.inr member) with out | ⟨k', _, paid⟩
  · exact out
  · have bound := debt_le_others quota r (s.wheel served)
    change (k + 1) * (1 + others quota r) ≤ _ at long
    rw [Nat.add_mul, Nat.one_mul] at long
    unfold patience at paid
    omega

theorem process_dispatched_within_oneLevel : ∃ later after,
    serveAll oneLevel (setLevel { initScheduler with linked := true } ⟨0, by decide⟩ (Queue.nil.enqueue (some 3)))
      (List.replicate 9731 .get) = .ok (later, after) ∧ .returned (some 3) ∈ later := by
  have valid : ∀ p, (oneLevel.prio p).toNat < maxPrio := fun _ => Nat.zero_lt_succ 139
  obtain ⟨later, after, served, asked, stretch⟩ := serveAll_valid valid
    (setLevel { initScheduler with linked := true } ⟨0, by decide⟩ (Queue.nil.enqueue (some 3))) (List.replicate 9731 .get)
  refine ⟨later, after, served, ?_⟩
  have added : serveAll oneLevel initScheduler [.add 3] = .ok ([.added 3 true],
      setLevel { initScheduler with linked := true } ⟨0, by decide⟩ (Queue.nil.enqueue (some 3))) := rfl
  refine process_dispatched_within (r := ⟨0, by decide⟩) (k := 0) (serveAll_steps added) stretch rfl ?_ ?_
  · exact fun y _ => BitVec.lt_irrefl _
  · rw [countP_gets asked]
    decide +kernel

end Waiting

end Sched
end LamiaAtrium
