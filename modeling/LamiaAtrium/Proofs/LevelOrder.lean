import LamiaAtrium.Proofs.Rotation

/-! The order within a level. A level is first in, first out as long as its oldest entry
has the smallest default priority, which `dequeue` still compares. -/

namespace LamiaAtrium
open Run
variable {Proc : Type}

/-- The two sequences differ at a place that both of them reach. -/
def Overtaken (out entered : List Proc) : Prop :=
  ∃ (i : Nat) (x y : Proc), out[i]? = some x ∧ entered[i]? = some y ∧ x ≠ y

theorem Overtaken.append {out entered : List Proc} (overtaken : Overtaken out entered) (later more : List Proc) :
    Overtaken (out ++ later) (entered ++ more) := by
  obtain ⟨i, x, y, first, second, distinct⟩ := overtaken
  have within : i < out.length := (List.getElem?_eq_some_iff.mp first).1
  have within' : i < entered.length := (List.getElem?_eq_some_iff.mp second).1
  exact ⟨i, x, y, by rw [List.getElem?_append_left within, first], by rw [List.getElem?_append_left within', second], distinct⟩

theorem Overtaken.not_in_order {out entered : List Proc} (overtaken : Overtaken out entered) : ¬ out <+: entered := by
  rintro ⟨rest, rfl⟩
  obtain ⟨i, x, y, first, second, distinct⟩ := overtaken
  have within : i < out.length := (List.getElem?_eq_some_iff.mp first).1
  rw [List.getElem?_append_left within, first] at second
  exact distinct (Option.some.inj second)

namespace Sched
variable {pr : Priorities Proc} {s after : Sched Proc} {p : Proc} {call : Call Proc}
  {calls earlier later : List (Call Proc)} {r : Fin maxPrio}

/-- The process that the call takes out of level `r`. -/
def Call.dispatches (pr : Priorities Proc) (r : Fin maxPrio) : Call Proc → Option Proc
  | .returned (some p) => if ofLevel pr r p then some p else none
  | _ => none

/-- The process that the call appends to level `r`. -/
def Call.enters (pr : Priorities Proc) (r : Fin maxPrio) : Call Proc → Option Proc
  | .added p room | .putBack p room => if room && ofLevel pr r p then some p else none
  | .returned _ => none

def dispatched (pr : Priorities Proc) (r : Fin maxPrio) (calls : List (Call Proc)) : List Proc :=
  calls.filterMap (Call.dispatches pr r)

def entered (pr : Priorities Proc) (r : Fin maxPrio) (calls : List (Call Proc)) : List Proc :=
  calls.filterMap (Call.enters pr r)

/-- No other entry of the level has a smaller default priority than the oldest. -/
def OldestFirst (pr : Priorities Proc) (r : Fin maxPrio) (s : Sched Proc) : Prop :=
  ∀ oldest rest, (s.mlqReadyQueue r).procs = oldest :: rest → ∀ other ∈ rest, ¬pr.priority other < pr.priority oldest

/-- In order for one step: the level afterwards follows from what the call put in and took
out, or the call overtook the oldest entry. -/
theorem level_step (home : AtHome pr s) (taken : Step pr s call after) :
    ((call.dispatches pr r).toList ++ (after.mlqReadyQueue r).procs = (s.mlqReadyQueue r).procs ++ (call.enters pr r).toList ∧
      (call.dispatches pr r ≠ none → OldestFirst pr r s)) ∨
    ∃ p oldest rest, call = .returned (some p) ∧ (s.mlqReadyQueue r).procs = oldest :: rest ∧
      call.dispatches pr r = some p ∧ p ≠ oldest ∧ ¬OldestFirst pr r s := by
  have insertion {room : Bool} {p : Proc} (inserted : Inserted pr s p room after)
      (enters : call.enters pr r = if room && ofLevel pr r p then some p else none) (quiet : call.dispatches pr r = none) :
      (call.dispatches pr r).toList ++ (after.mlqReadyQueue r).procs = (s.mlqReadyQueue r).procs ++ (call.enters pr r).toList ∧
        (call.dispatches pr r ≠ none → OldestFirst pr r s) := by
    refine ⟨?_, fun some => absurd quiet some⟩
    obtain ⟨own, named, flag, levels⟩ := inserted.level
    rw [enters, quiet, levels]
    by_cases here : r = own
    · rw [here, Function.update_self, level_eq_ok.mp named, Bool.and_true, flag]
      cases full : (s.mlqReadyQueue own).full with
      | true => rw [Queue.enqueue_of_full full]; simp
      | false => rw [Queue.enqueue_of_room full]; rfl
    · have elsewhere : ofLevel pr r p = false := by
        rw [Bool.eq_false_iff]
        intro same
        exact here (Except.ok.inj ((level_eq_ok.mpr same).symm.trans named))
      rw [Function.update_of_ne here, elsewhere, Bool.and_false]
      simp
  cases taken.served with
  | added inserted _ => exact .inl (insertion inserted rfl rfl)
  | putBack inserted _ => exact .inl (insertion inserted rfl rfl)
  | @returned _ result _ _ =>
    obtain ⟨level, drawn⟩ := getMlqProc_drawn (getMlqProc_of_step taken)
    cases drawn with
    | nothing same =>
      refine .inl ⟨?_, fun some => absurd rfl some⟩
      rw [same]
      exact (List.append_nil _).symm
    | entry p own rest dequeued same =>
      have named := home own p ((Queue.dequeue_perm dequeued).mem_iff.mpr List.mem_cons_self)
      by_cases here : r = own
      · have out : Call.dispatches pr r (.returned (some p)) = some p :=
          if_pos (level_eq_ok.mp (here ▸ named))
        rw [← here] at dequeued same
        cases entries : (s.mlqReadyQueue r).procs with
        | nil =>
          have nothing : ((s.mlqReadyQueue r).dequeue pr.priority).1 = none := (Queue.dequeue_none _).mpr entries
          rw [dequeued] at nothing
          cases nothing
        | cons oldest others =>
          rcases Queue.dequeue_oldest entries dequeued with ⟨rfl, left, smallest⟩ | ⟨younger, other, member, smaller⟩
          · refine .inl ⟨?_, fun _ first rest cut => ?_⟩
            · rw [out, same, Function.update_self, left]
              exact (List.append_nil _).symm
            · cases entries.symm.trans cut
              exact smallest
          · refine .inr ⟨p, oldest, others, rfl, rfl, out, younger, fun first => ?_⟩
            exact first oldest others entries other member smaller
      · have quiet : Call.dispatches pr r (.returned (some p)) = none := by
          refine if_neg fun elsewhere => here ?_
          exact Except.ok.inj ((level_eq_ok.mpr elsewhere).symm.trans named)
        refine .inl ⟨?_, fun some => absurd quiet some⟩
        rw [quiet, same, Function.update_of_ne here]
        exact (List.append_nil _).symm

/-- Whenever a call takes a process out of level `r`, the oldest entry has the smallest
default priority. -/
def DequeuesOldest (pr : Priorities Proc) (r : Fin maxPrio) (calls : List (Call Proc)) : Prop :=
  ∀ earlier p later before after, calls = earlier ++ .returned (some p) :: later →
    Steps (Step pr) initScheduler earlier before → Step pr before (.returned (some p)) after →
    ofLevel pr r p = true → OldestFirst pr r before

theorem dispatched_append (left right : List (Call Proc)) :
    dispatched pr r (left ++ right) = dispatched pr r left ++ dispatched pr r right := List.filterMap_append

theorem entered_append (left right : List (Call Proc)) :
    entered pr r (left ++ right) = entered pr r left ++ entered pr r right := List.filterMap_append

theorem dispatched_single (call : Call Proc) : dispatched pr r [call] = (call.dispatches pr r).toList := by
  cases out : call.dispatches pr r <;> simp [dispatched, out]

theorem entered_single (call : Call Proc) : entered pr r [call] = (call.enters pr r).toList := by
  cases into : call.enters pr r <;> simp [entered, into]

/-- In order so far, then in order or overtaken after one more call. -/
private theorem order_step (home : AtHome pr s) (taken : Step pr s call after)
    (order : dispatched pr r calls ++ (s.mlqReadyQueue r).procs = entered pr r calls) :
    (dispatched pr r (calls ++ [call]) ++ (after.mlqReadyQueue r).procs = entered pr r (calls ++ [call]) ∧
      (call.dispatches pr r ≠ none → OldestFirst pr r s)) ∨
    Overtaken (dispatched pr r (calls ++ [call])) (entered pr r (calls ++ [call])) ∧ (∃ p, call = .returned (some p) ∧
      ofLevel pr r p = true) ∧ ¬OldestFirst pr r s := by
  rw [dispatched_append, entered_append, dispatched_single, entered_single]
  rcases level_step home taken with ⟨moved, oldest⟩ | ⟨p, oldest, rest, returned, entries, out, younger, unordered⟩
  · refine .inl ⟨?_, oldest⟩
    rw [List.append_assoc, moved, ← List.append_assoc, order]
  · refine .inr ⟨⟨(dispatched pr r calls).length, p, oldest, ?_, ?_, younger⟩, ⟨p, returned, ?_⟩, unordered⟩
    · rw [out]
      exact List.getElem?_concat_length
    · rw [← order, entries]
      simp
    · rw [returned] at out
      by_contra elsewhere
      rw [Call.dispatches, if_neg elsewhere] at out
      cases out

private theorem ordered_or_overtaken (run : Steps (Step pr) initScheduler calls s) (r : Fin maxPrio) :
    dispatched pr r calls ++ (s.mlqReadyQueue r).procs = entered pr r calls ∨
      Overtaken (dispatched pr r calls) (entered pr r calls) := by
  have invariant : AtHome pr s ∧ (dispatched pr r calls ++ (s.mlqReadyQueue r).procs = entered pr r calls ∨
      Overtaken (dispatched pr r calls) (entered pr r calls)) := by
    refine run.history (fun calls s => AtHome pr s ∧ (dispatched pr r calls ++ (s.mlqReadyQueue r).procs = entered pr r calls ∨
      Overtaken (dispatched pr r calls) (entered pr r calls))) ⟨atHome_of_run (.refl _), .inl rfl⟩ ?_
    rintro calls before call after ⟨home, earlier⟩ taken
    refine ⟨taken.served.atHome home, ?_⟩
    rcases earlier with order | overtaken
    · rcases order_step home taken order with ⟨order, _⟩ | ⟨overtaken, _⟩
      · exact .inl order
      · exact .inr overtaken
    · rw [dispatched_append, entered_append]
      exact .inr (overtaken.append _ _)
  exact invariant.2

private theorem DequeuesOldest.of_append (all : DequeuesOldest pr r (earlier ++ later)) : DequeuesOldest pr r earlier := by
  intro first p rest before after cut run taken own
  refine all first p (rest ++ later) before after ?_ run taken own
  rw [cut, List.append_assoc, List.cons_append]

private theorem ordered_of_oldest (run : Steps (Step pr) initScheduler calls s) (oldest : DequeuesOldest pr r calls) :
    dispatched pr r calls ++ (s.mlqReadyQueue r).procs = entered pr r calls := by
  have invariant : Steps (Step pr) initScheduler calls s ∧ (DequeuesOldest pr r calls →
      dispatched pr r calls ++ (s.mlqReadyQueue r).procs = entered pr r calls) := by
    refine run.history (fun calls s => Steps (Step pr) initScheduler calls s ∧ (DequeuesOldest pr r calls →
      dispatched pr r calls ++ (s.mlqReadyQueue r).procs = entered pr r calls)) ⟨.refl _, fun _ => rfl⟩ ?_
    rintro calls before call after ⟨upto, earlier⟩ taken
    refine ⟨upto.tail taken, fun oldest => ?_⟩
    rcases order_step (atHome_of_run upto) taken (earlier oldest.of_append) with ⟨order, _⟩ | ⟨_, ⟨p, returned, own⟩, unordered⟩
    · exact order
    · rw [returned] at oldest taken
      exact absurd (oldest calls p [] before after rfl upto taken own) unordered
  exact invariant.2 oldest

/-- A level is served in the order of the insertions, and so the entry at place `k` by the
`k`-th dispatch from then on at the latest, exactly when every dispatch from it finds
the smallest default priority at the oldest entry. -/
theorem level_round_robin_iff (run : Steps (Step pr) initScheduler calls s) (r : Fin maxPrio) :
    (dispatched pr r calls <+: entered pr r calls ∧
      ∀ earlier later middle, calls = earlier ++ later → Steps (Step pr) initScheduler earlier middle →
        ∀ k p, (middle.mlqReadyQueue r).procs[k]? = some p → k < (dispatched pr r later).length →
          p ∈ (dispatched pr r later).take (k + 1)) ↔ DequeuesOldest pr r calls := by
  constructor
  · rintro ⟨order, _⟩ earlier p later before after rfl upto taken own
    rw [List.append_cons, dispatched_append, entered_append] at order
    rcases ordered_or_overtaken upto r with sofar | overtaken
    · rcases order_step (atHome_of_run upto) taken sofar with ⟨_, oldest⟩ | ⟨overtaken, _⟩
      · apply oldest
        rw [Call.dispatches, if_pos own]
        exact nofun
      · exact absurd order (overtaken.append _ _).not_in_order
    · rw [dispatched_append, entered_append, List.append_assoc, List.append_assoc] at order
      exact absurd order (overtaken.append _ _).not_in_order
  · intro oldest
    have order : dispatched pr r calls <+: entered pr r calls := ⟨_, ordered_of_oldest run oldest⟩
    refine ⟨order, ?_⟩
    rintro earlier later middle rfl upto k p waiting enough
    rw [dispatched_append, entered_append, ← ordered_of_oldest upto oldest.of_append, List.append_assoc,
      List.prefix_append_right_inj] at order
    have inside : k < (middle.mlqReadyQueue r).procs.length := (List.getElem?_eq_some_iff.mp waiting).1
    have here := List.prefix_iff_getElem?.mp order k enough
    rw [List.getElem?_append_left inside, waiting] at here
    rw [Option.some.inj here, List.mem_take_iff_getElem]
    exact ⟨k, by omega, rfl⟩

theorem level_round_robin_iff_oneLevel : ∃ calls s, serveAll oneLevel initScheduler [.add 3, .add 4, .get, .put 3, .get] = .ok (calls, s) ∧
    ((dispatched oneLevel ⟨0, by decide⟩ calls <+: entered oneLevel ⟨0, by decide⟩ calls ∧
      ∀ earlier later middle, calls = earlier ++ later → Steps (Step oneLevel) initScheduler earlier middle →
        ∀ k p, (middle.mlqReadyQueue ⟨0, by decide⟩).procs[k]? = some p → k < (dispatched oneLevel ⟨0, by decide⟩ later).length →
          p ∈ (dispatched oneLevel ⟨0, by decide⟩ later).take (k + 1)) ↔ DequeuesOldest oneLevel ⟨0, by decide⟩ calls) := by
  have valid : ∀ p, (oneLevel.prio p).toNat < maxPrio := fun _ => Nat.zero_lt_succ 139
  obtain ⟨calls, s, served, _, run⟩ := serveAll_valid valid initScheduler [.add 3, .add 4, .get, .put 3, .get]
  exact ⟨calls, s, served, level_round_robin_iff run _⟩

/-- One level whose processes keep different default priorities. -/
def twoDefaults : Priorities Nat where
  priority := fun p => if p = 0 then 5 else 1
  prio := fun _ => 0

/-- Process 1 comes second and goes first, and again after it is put back: process 0 waits
for as long as process 1 comes back. -/
theorem younger_process_overtakes : ∃ calls s,
    serveAll twoDefaults initScheduler [.add 0, .add 1, .get, .put 1, .get] = .ok (calls, s) ∧
      ¬ dispatched twoDefaults ⟨0, by decide⟩ calls <+: entered twoDefaults ⟨0, by decide⟩ calls := by
  have check : (serveAll twoDefaults initScheduler [.add 0, .add 1, .get, .put 1, .get]).map (fun result =>
      decide (dispatched twoDefaults ⟨0, by decide⟩ result.1 = [1, 1] ∧ entered twoDefaults ⟨0, by decide⟩ result.1 = [0, 1, 1])) =
      .ok true := rfl
  cases served : serveAll twoDefaults initScheduler [.add 0, .add 1, .get, .put 1, .get] with
  | error e => rw [served] at check; cases check
  | ok result =>
    obtain ⟨calls, s⟩ := result
    rw [served] at check
    obtain ⟨out, into⟩ := of_decide_eq_true (Except.ok.inj check)
    refine ⟨calls, s, rfl, fun order => ?_⟩
    rw [out, into] at order
    exact absurd order (by decide)

end Sched
end LamiaAtrium
