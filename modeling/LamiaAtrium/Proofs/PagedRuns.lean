import LamiaAtrium.Proofs.FlatMemory
import LamiaAtrium.Proofs.PageMoves

/-! Runs of byte accesses by any processes. With a swap frame to spare, and a page to evict
for every process that has one swapped out, the run is one of flat memory. With no free frame
on either device, the pages that are swapped out stay out. Both hold as long as every access
to a page that is there finds the pointer to the kernel in `regs[6]`; the first that does not
ends the run. -/

namespace LamiaAtrium
variable {Proc : Type}

/-- A call of `pg_getval` or `pg_setval`. -/
inductive ByteAccess (Proc : Type) where
  | getval (caller : Proc) (addr : CInt)
  | setval (caller : Proc) (addr : CInt) (value : Byte)

namespace ByteAccess

def caller : ByteAccess Proc → Proc
  | getval caller _ => caller
  | setval caller _ _ => caller

def addr : ByteAccess Proc → CInt
  | getval _ addr => addr
  | setval _ addr _ => addr

abbrev place (access : ByteAccess Proc) : Proc × Page := placeOf access.caller access.addr

end ByteAccess

variable [DecidableEq Proc]

/-- The call, with the code it returns and the byte it delivers. -/
def ByteAccess.run (env : Env Proc) (k : Krnl Proc) : ByteAccess Proc → Outcome ((Int × Option Byte) × Krnl Proc)
  | getval caller addr => do
    let (code, data, k) ← pgGetval env k caller addr
    return ((code, data), k)
  | setval caller addr value => do
    let (code, k) ← pgSetval env k caller addr value
    return ((code, none), k)

def runAccesses (env : Env Proc) (k : Krnl Proc) : List (ByteAccess Proc) → Outcome (List (Int × Option Byte) × Krnl Proc)
  | [] => .ok ([], k)
  | access :: rest => do
    let (answer, k) ← access.run env k
    let (answers, k) ← runAccesses env k rest
    return (answer :: answers, k)

namespace FlatMemory

/-- On flat memory only an access to nothing fails. -/
def perform (memory : FlatMemory Proc) (access : ByteAccess Proc) : (Int × Option Byte) × FlatMemory Proc :=
  match access, memory access.place (offsetOf access.addr) with
  | _, none => ((-1, none), memory)
  | .getval .., some byte => ((0, some byte), memory)
  | .setval _ _ value, some _ => ((0, none), write memory access.place (offsetOf access.addr) value)

def performAll (memory : FlatMemory Proc) : List (ByteAccess Proc) → List (Int × Option Byte) × FlatMemory Proc
  | [] => ([], memory)
  | access :: rest => ((perform memory access).1 :: (performAll (perform memory access).2 rest).1, (performAll (perform memory access).2 rest).2)

theorem perform_absent {memory : FlatMemory Proc} {access : ByteAccess Proc} (absent : memory access.place (offsetOf access.addr) = none) :
    perform memory access = ((-1, none), memory) := by
  simp only [perform, absent]

end FlatMemory

section Run
variable {env : Env Proc} {k after : Krnl Proc}

/-- The run returns, and does to the view what it does to flat memory. -/
def RunRefines (env : Env Proc) (view : Krnl Proc → FlatMemory Proc) (k : Krnl Proc) (accesses : List (ByteAccess Proc))
    (kept : Krnl Proc → Prop) : Prop :=
  ∃ answers after, runAccesses env k accesses = .ok (answers, after) ∧
    FlatMemory.performAll (view k) accesses = (answers, view after) ∧ kept after

theorem RunRefines.mono {view : Krnl Proc → FlatMemory Proc} {accesses : List (ByteAccess Proc)} {kept other : Krnl Proc → Prop}
    (refines : RunRefines env view k accesses kept) (weaker : ∀ after, kept after → other after) : RunRefines env view k accesses other := by
  obtain ⟨answers, after, ran, flat, last⟩ := refines
  exact ⟨answers, after, ran, flat, weaker after last⟩

/-- The induction over a run. An access that `serves` holds of finds the invariant, keeps it and
does to the view what it does to flat memory; the first other one faults. -/
theorem runAccesses_refines (invariant : Krnl Proc → Prop) (view : Krnl Proc → FlatMemory Proc) (serves : ByteAccess Proc → Prop)
    (accesses : List (ByteAccess Proc))
    (each : ∀ k, ∀ access ∈ accesses, invariant k → serves access → ∃ answer after, access.run env k = .ok (answer, after) ∧
      FlatMemory.perform (view k) access = (answer, view after) ∧ invariant after)
    (stops : ∀ k, ∀ access ∈ accesses, invariant k → ¬serves access → access.run env k = .error .wildPointer) (initial : invariant k) :
    ((∀ access ∈ accesses, serves access) → RunRefines env view k accesses invariant) ∧
      ((∃ access ∈ accesses, ¬serves access) → runAccesses env k accesses = .error .wildPointer) := by
  induction accesses generalizing k with
  | nil => exact ⟨fun _ => ⟨[], k, rfl, rfl, initial⟩, fun stuck => by obtain ⟨_, member, _⟩ := stuck; cases member⟩
  | cons access rest ih =>
    by_cases served : serves access
    · obtain ⟨answer, middle, ran, flat, kept⟩ := each k access List.mem_cons_self initial served
      obtain ⟨refines, faults⟩ := ih (fun k other member => each k other (List.mem_cons_of_mem _ member))
        (fun k other member => stops k other (List.mem_cons_of_mem _ member)) kept
      constructor
      · intro all
        obtain ⟨answers, after, later, flatLater, last⟩ := refines fun other member => all other (List.mem_cons_of_mem _ member)
        refine ⟨answer :: answers, after, ?_, ?_, last⟩
        · rw [runAccesses, ran]
          simp only [Outcome.bind_ok, later]
          rfl
        · rw [FlatMemory.performAll, flat, flatLater]
      · intro ⟨other, member, unserved⟩
        rcases List.mem_cons.mp member with rfl | member
        · exact absurd served unserved
        · rw [runAccesses, ran]
          simp only [Outcome.bind_ok, faults ⟨other, member, unserved⟩]
          rfl
    · constructor
      · exact fun all => absurd (all access List.mem_cons_self) served
      · intro _
        rw [runAccesses, stops k access List.mem_cons_self initial served]
        rfl

/-- One access. A page that cannot be had leaves no trace; one that can is accessed as flat
memory is, if the caller has the pointer to the kernel where `sys_mem.c` looks for it. -/
theorem ByteAccess.run_spec (good : Good k) (random : RandomAccess k) (access : ByteAccess Proc) (finds : env.Finds access.caller) :
    (¬Available k access.caller (pagingPgn access.addr) ∧ ∃ after, access.run env k = .ok ((-1, none), after) ∧ Good after ∧
      RandomAccess after ∧ after.bytes = k.bytes) ∨
    Available k access.caller (pagingPgn access.addr) ∧ ∃ answer after,
      access.run env k = (env.callerKrnl access.caller).map (fun _ => (answer, after)) ∧ Good after ∧ RandomAccess after ∧
      FlatMemory.perform k.bytes access = (answer, after.bytes) := by
  obtain ⟨pid, known, found⟩ := finds.callerPid
  cases access with
  | getval caller addr =>
    change env.callerPid caller = _ at known
    change env.findCaller pid = .ok (some caller) at found
    rcases pgGetval_reads good random known found addr with
      ⟨absent, after, ran, kept, devices, same⟩ | ⟨available, byte, after, logical, ran, kept, devices, same⟩
    · refine .inl ⟨absent, after, ?_, kept, devices.random random, same⟩
      rw [ByteAccess.run, ran]
      rfl
    · refine .inr ⟨available, (0, some byte), after, ?_, kept, devices.random random, ?_⟩
      · rw [ByteAccess.run, ran, ByteAccess.caller]
        cases env.callerKrnl caller <;> rfl
      · simp only [FlatMemory.perform, ByteAccess.place, ByteAccess.caller, ByteAccess.addr, logical, same]
  | setval caller addr value =>
    change env.callerPid caller = _ at known
    change env.findCaller pid = .ok (some caller) at found
    rcases pgSetval_writes good random known found addr value with
      ⟨absent, after, ran, kept, devices, same⟩ | ⟨available, after, mapped, ran, kept, devices, written⟩
    · refine .inl ⟨absent, after, ?_, kept, devices.random random, same⟩
      rw [ByteAccess.run, ran]
      rfl
    · refine .inr ⟨available, (0, none), after, ?_, kept, devices.random random, ?_⟩
      · rw [ByteAccess.run, ran, ByteAccess.caller]
        cases env.callerKrnl caller <;> rfl
      · obtain ⟨byte, logical⟩ := Option.isSome_iff_exists.mp mapped
        simp only [FlatMemory.perform, ByteAccess.place, ByteAccess.caller, ByteAccess.addr, logical, written]

/-- The access is one of a flat memory of the pages that can be had, or it is one to such a
page that faults. -/
theorem ByteAccess.run_cases (good : Good k) (random : RandomAccess k) (access : ByteAccess Proc) (finds : env.Finds access.caller) :
    (∃ answer after, access.run env k = .ok (answer, after) ∧ Good after ∧ RandomAccess after ∧
      (Available k access.caller (pagingPgn access.addr) → env.regs6 access.caller = some env.os ∧
        FlatMemory.perform k.bytes access = (answer, after.bytes)) ∧
      (¬Available k access.caller (pagingPgn access.addr) → answer = (-1, none) ∧ after.bytes = k.bytes)) ∨
    Available k access.caller (pagingPgn access.addr) ∧ env.regs6 access.caller ≠ some env.os ∧
      access.run env k = .error .wildPointer := by
  rcases access.run_spec good random finds with
    ⟨absent, after, ran, kept, devices, same⟩ | ⟨available, answer, after, ran, kept, devices, flat⟩
  · exact .inl ⟨_, after, ran, kept, devices, fun available => absurd available absent, fun _ => ⟨rfl, same⟩⟩
  · by_cases reached : env.regs6 access.caller = some env.os
    · rw [callerKrnl_ok reached] at ran
      exact .inl ⟨answer, after, ran, kept, devices, fun _ => ⟨reached, flat⟩, fun absent => absurd available absent⟩
    · rw [Env.callerKrnl, if_neg reached] at ran
      exact .inr ⟨available, reached, ran⟩

/-- The access leaves the tables and the free lists as `pg_getpage` does. -/
theorem ByteAccess.run_page {access : ByteAccess Proc} {answer : Int × Option Byte} (ran : access.run env k = .ok (answer, after)) :
    ∃ got fpn middle, pgGetpage env k access.caller (pagingPgn access.addr) = .ok (got, fpn, middle) ∧ after.mms = middle.mms ∧
      after.activeMswp = middle.activeMswp ∧ after.mram.freeFpList = middle.mram.freeFpList := by
  cases access with
  | getval caller addr =>
    obtain ⟨⟨code, data, last⟩, got, ran⟩ := Outcome.bind_eq_ok ran
    cases ran
    obtain ⟨got, fpn, fetched⟩ := pgGetval_effect got
    exact ⟨got, fpn, _, fetched, rfl, rfl, rfl⟩
  | setval caller addr value =>
    obtain ⟨⟨code, last⟩, set, ran⟩ := Outcome.bind_eq_ok ran
    cases ran
    rcases pgSetval_effect set with ⟨got, fpn, fetched⟩ | ⟨_, f, middle, result, mram, fetched, written, rfl⟩
    · exact ⟨got, fpn, _, fetched, rfl, rfl, rfl⟩
    · exact ⟨0, some f, middle, fetched, rfl, rfl, (Memphy.write_rewritten written).freeFpList⟩

theorem pgGetpage_unswapped {caller : Proc} {pgn : CInt} {code : Int} {fpn : Option CInt}
    (kept : ¬pagingPageSwapped (k.pte (caller, pageOf (intToAddr pgn))) = true)
    (returned : pgGetpage env k caller pgn = .ok (code, fpn, after)) : after = k := by
  rw [pgGetpage, getEntry_eq_pte, if_neg kept] at returned
  split at returned <;> cases returned <;> rfl

end Run

section Room
variable {env : Env Proc} {k after : Krnl Proc}

/-- A swap frame to spare, and a page to evict for every process that has one swapped out. -/
structure Roomy (k : Krnl Proc) : Prop where
  spare : k.activeMswp.freeFpList ≠ []
  evictable : ∀ p page, pagingPageSwapped (k.pte (p, page)) = true → (k.mms p).fifoPgn ≠ []

/-- What each process keeps in RAM does not shrink, nor does the room on the swap device. -/
structure Grows (k after : Krnl Proc) : Prop where
  resident : ∀ p, (k.mms p).fifoPgn.length ≤ (after.mms p).fifoPgn.length
  swap : k.activeMswp.freeFpList.length ≤ after.activeMswp.freeFpList.length

omit [DecidableEq Proc] in
theorem Grows.trans {first second third : Krnl Proc} (left : Grows first second) (right : Grows second third) : Grows first third where
  resident p := Nat.le_trans (left.resident p) (right.resident p)
  swap := Nat.le_trans left.swap right.swap

omit [DecidableEq Proc] in
theorem Roomy.available_iff (roomy : Roomy k) {p : Proc} {pgn : CInt} (offset : Fin pagingPagesz) :
    Available k p pgn ↔ (k.bytes (p, pageOf (intToAddr pgn)) offset).isSome = true := by
  by_cases swapped : pagingPageSwapped (k.pte (p, pageOf (intToAddr pgn))) = true
  · rw [available_swapped swapped, Krnl.bytes, Pte.byte_of_swapped swapped]
    exact iff_of_true (.inr ⟨roomy.evictable _ _ swapped, roomy.spare⟩) rfl
  · rw [available_unswapped swapped]
    by_cases present : pagingPagePresent (k.pte (p, pageOf (intToAddr pgn))) = true
    · have resident : (k.pte (p, pageOf (intToAddr pgn))).resident = true := by simp [Pte.resident, swapped, present]
      rw [Krnl.bytes, Pte.byte_of_resident resident]
      exact iff_of_true present rfl
    · simp [Krnl.bytes, Pte.byte, Pte.resident, swapped, present]

/-- A page that comes in replaces one of its own process, if any, and a frame of the swap
device is free for the one that had to be taken. -/
theorem Roomy.getpage (roomy : Roomy k) (random : RandomAccess k) {p : Proc} {pgn : CInt} {code : Int} {fpn : Option CInt}
    (fetched : pgGetpage env k p pgn = .ok (code, fpn, after)) : Roomy after ∧ Grows k after := by
  by_cases swapped : pagingPageSwapped (k.pte (p, pageOf (intToAddr pgn))) = true
  · have others := (pgGetpage_frame fetched).others
    -- only the caller's tables change, and its list is not empty afterwards
    have settle (listed : (after.mms p).fifoPgn ≠ []) (longer : (k.mms p).fifoPgn.length ≤ (after.mms p).fifoPgn.length)
        (spare : after.activeMswp.freeFpList ≠ []) (more : k.activeMswp.freeFpList.length ≤ after.activeMswp.freeFpList.length) :
        Roomy after ∧ Grows k after := by
      refine ⟨⟨spare, fun q page away => ?_⟩, ⟨fun q => ?_, more⟩⟩
      · by_cases own : q = p
        · exact own ▸ listed
        · rw [Krnl.pte, others q own] at away
          rw [others q own]
          exact roomy.evictable q page away
      · by_cases own : q = p
        · exact own ▸ longer
        · rw [others q own]
    rcases (pgGetpage_move random fetched).2 with ⟨_, _, _, _, stuck⟩ | ⟨newfpn, reqSwpfpn, _, _, _, swap, fifo, _⟩ |
      ⟨reqSwpfpn, vicpgn, vicSwpfpn, fifo, rest, swptyp, entry, _, _, _, _, free, freeAfter, list, listAfter, _⟩
    · rcases (stuck swapped).2 with none | none
      · exact absurd none (roomy.evictable _ _ swapped)
      · exact absurd none roomy.spare
    · rw [fifo, swap] at settle
      exact settle (List.cons_ne_nil _ _) (Nat.le_succ _) (List.cons_ne_nil _ _) (Nat.le_succ _)
    · rw [listAfter, freeAfter, list, free] at settle
      exact settle (List.cons_ne_nil _ _) (by simp) (List.cons_ne_nil _ _) (by simp)
  · rw [pgGetpage_unswapped swapped fetched]
    exact ⟨roomy, fun _ => Nat.le_refl _, Nat.le_refl _⟩

/-- The access is to a byte that flat memory has, by a process in whose `regs[6]` the pointer to
the kernel is. -/
def Served (env : Env Proc) (memory : FlatMemory Proc) (access : ByteAccess Proc) : Prop :=
  (memory access.place (offsetOf access.addr)).isSome = true → env.regs6 access.caller = some env.os

theorem FlatMemory.perform_isSome (memory : FlatMemory Proc) (access : ByteAccess Proc) (place : Proc × Page) (offset : Fin pagingPagesz) :
    ((perform memory access).2 place offset).isSome = (memory place offset).isSome := by
  cases here : memory access.place (offsetOf access.addr) with
  | none => rw [perform_absent here]
  | some byte =>
    cases access with
    | getval caller addr => simp only [perform, here]
    | setval caller addr value =>
      simp only [perform, here, write]
      by_cases same : place = (ByteAccess.setval caller addr value).place
      · subst same
        rw [Function.update_self]
        by_cases cell : offset = offsetOf (ByteAccess.setval caller addr value).addr
        · subst cell
          rw [Function.update_self]
          exact (congrArg Option.isSome here).symm
        · rw [Function.update_of_ne cell]
      · rw [Function.update_of_ne same]

/-- With one swap frame to spare, a run of accesses, in any number, in any order and by any
processes, answers what flat memory answers and leaves the bytes that flat memory would hold
if and only if each access to a mapped page is served; no process loses RAM to another. The
first access that is not served ends the run in a fault. -/
theorem accesses_refine_flat_memory_iff (good : Good k) (random : RandomAccess k) (roomy : Roomy k) (accesses : List (ByteAccess Proc))
    (finds : ∀ access ∈ accesses, env.Finds access.caller) :
    (RunRefines env Krnl.bytes k accesses (fun after => Good after ∧ Roomy after ∧ Grows k after) ↔
      ∀ access ∈ accesses, Served env k.bytes access) ∧
    ((∃ access ∈ accesses, ¬Served env k.bytes access) → runAccesses env k accesses = .error .wildPointer) := by
  let invariant (before : Krnl Proc) : Prop := (Good before ∧ RandomAccess before ∧ Roomy before ∧ Grows k before) ∧
    ∀ place offset, (before.bytes place offset).isSome = (k.bytes place offset).isSome
  have available_iff (before : Krnl Proc) (access : ByteAccess Proc) (held : invariant before) :
      Available before access.caller (pagingPgn access.addr) ↔ (k.bytes access.place (offsetOf access.addr)).isSome = true := by
    rw [held.1.2.2.1.available_iff (offsetOf access.addr)]
    exact Bool.eq_iff_iff.mp (held.2 access.place (offsetOf access.addr))
  obtain ⟨refines, faults⟩ := @runAccesses_refines _ _ env k invariant Krnl.bytes (Served env k.bytes) accesses
    (fun before access member held served => by
      obtain ⟨⟨good, random, roomy, grown⟩, same⟩ := held
      rcases access.run_cases good random (finds access member) with
        ⟨answer, after, ran, goodAfter, randomAfter, flat, absent⟩ | ⟨available, unserved, _⟩
      · obtain ⟨got, fpn, middle, fetched, mms, swap, ram⟩ := ByteAccess.run_page ran
        obtain ⟨⟨spare, evictable⟩, resident, more⟩ := roomy.getpage random fetched
        have performed : FlatMemory.perform before.bytes access = (answer, after.bytes) := by
          by_cases available : Available before access.caller (pagingPgn access.addr)
          · exact (flat available).2
          · obtain ⟨rfl, kept⟩ := absent available
            rw [roomy.available_iff (offsetOf access.addr), Bool.not_eq_true, Option.isSome_eq_false_iff, Option.isNone_iff_eq_none]
              at available
            rw [FlatMemory.perform_absent available, kept]
        refine ⟨answer, after, ran, performed,
          ⟨goodAfter, randomAfter, ⟨?_, fun p page away => ?_⟩, grown.trans ⟨fun p => ?_, ?_⟩⟩, fun place offset => ?_⟩
        · rw [swap]
          exact spare
        · rw [Krnl.pte, mms] at away
          rw [mms]
          exact evictable p page away
        · rw [mms]
          exact resident p
        · rw [swap]
          exact more
        · have kept := FlatMemory.perform_isSome before.bytes access place offset
          rw [performed] at kept
          exact kept.trans (same place offset)
      · exact absurd (served ((available_iff before access ⟨⟨good, random, roomy, grown⟩, same⟩).mp available)) unserved)
    (fun before access member held unserved => by
      obtain ⟨mapped, unreached⟩ := Classical.not_imp.mp unserved
      rcases access.run_cases held.1.1 held.1.2.1 (finds access member) with ⟨_, _, _, _, _, flat, _⟩ | ⟨_, _, ran⟩
      · exact absurd (flat ((available_iff before access held).mpr mapped)).1 unreached
      · exact ran)
    ⟨⟨good, random, roomy, fun _ => Nat.le_refl _, Nat.le_refl _⟩, fun _ _ => rfl⟩
  refine ⟨⟨fun run => ?_, fun served => (refines served).mono fun after kept => ⟨kept.1.1, kept.1.2.2.1, kept.1.2.2.2⟩⟩, faults⟩
  obtain ⟨answers, after, ran, _⟩ := run
  by_contra unserved
  push Not at unserved
  cases ran.symm.trans (faults unserved)

/-- Page 0 is in the only RAM frame and a swap frame is free. -/
theorem accesses_refine_flat_memory_iff_crowded :
    RunRefines crowdedEnv Krnl.bytes crowded [.setval () 259 5, .getval () 3, .getval () 259]
      (fun after => Good after ∧ Roomy after ∧ Grows crowded after) :=
  (accesses_refine_flat_memory_iff crowded_good ⟨rfl, rfl⟩ ⟨List.cons_ne_nil _ _, fun _ _ _ => List.cons_ne_nil _ _⟩
    [.setval () 259 5, .getval () 3, .getval () 259] fun _ _ => ⟨1, rfl, rfl⟩).1.mpr fun _ _ _ => rfl

end Room

section Full
variable {env : Env Proc} {k after : Krnl Proc}

/-- Neither device has a free frame. -/
structure Full (k : Krnl Proc) : Prop where
  ram : k.mram.freeFpList = []
  swap : k.activeMswp.freeFpList = []

/-- What is left of memory without the pages that are swapped out. -/
def FlatMemory.onResident (pte : Proc × Page → Pte) (memory : FlatMemory Proc) : FlatMemory Proc := fun place offset =>
  if (pte place).resident then memory place offset else none

theorem FlatMemory.perform_elsewhere {memory : FlatMemory Proc} {access : ByteAccess Proc} {place : Proc × Page}
    (other : place ≠ access.place) : (perform memory access).2 place = memory place := by
  unfold perform
  split
  · rfl
  · rfl
  · exact Function.update_of_ne other _ _

theorem FlatMemory.perform_onResident {pte : Proc × Page → Pte} {memory : FlatMemory Proc} {access : ByteAccess Proc}
    (resident : (pte access.place).resident = true) :
    perform (onResident pte memory) access = ((perform memory access).1, onResident pte (perform memory access).2) := by
  have here (offset : Fin pagingPagesz) : onResident pte memory access.place offset = memory access.place offset := if_pos resident
  unfold perform
  rw [here]
  cases memory access.place (offsetOf access.addr) with
  | none => rfl
  | some byte =>
    cases access with
    | getval caller addr => rfl
    | setval caller addr value =>
      refine Prod.ext rfl (funext fun place => funext fun offset => ?_)
      by_cases same : place = (ByteAccess.setval caller addr value).place
      · subst same
        have whole : onResident pte memory (ByteAccess.setval caller addr value).place = _ := funext here
        simp only [write, onResident, Function.update_self, resident, if_true]
        exact congrArg (fun bytes => Function.update bytes _ _ offset) whole
      · simp only [write, onResident, Function.update_of_ne same]

omit [DecidableEq Proc] in
theorem FlatMemory.onResident_isSome (place : Proc × Page) (offset : Fin pagingPagesz) :
    ((onResident k.pte k.bytes) place offset).isSome = true ↔ (k.pte place).resident = true := by
  unfold onResident
  split
  · next resident =>
    rw [Krnl.bytes, Pte.byte_of_resident resident]
    exact iff_of_true rfl resident
  · next away => exact iff_of_false Bool.false_ne_true away

omit [DecidableEq Proc] in
theorem Full.available_iff (full : Full k) {p : Proc} {pgn : CInt} :
    Available k p pgn ↔ (k.pte (p, pageOf (intToAddr pgn))).resident = true := by
  by_cases swapped : pagingPageSwapped (k.pte (p, pageOf (intToAddr pgn))) = true
  · rw [available_swapped swapped, HasRoom, full.ram, full.swap, Pte.not_resident_of_swapped swapped]
    simp
  · rw [available_unswapped swapped]
    simp [Pte.resident, swapped]

/-- Nothing can move between two full devices. -/
theorem Full.getpage (full : Full k) (random : RandomAccess k) {p : Proc} {pgn : CInt} {code : Int} {fpn : Option CInt}
    (fetched : pgGetpage env k p pgn = .ok (code, fpn, after)) : Full after ∧ after.pte = k.pte := by
  rcases (pgGetpage_move random fetched).2 with ⟨entries, ram, swap, _, _⟩ | ⟨newfpn, _, _, _, free, _⟩ |
    ⟨_, _, _, _, _, _, _, _, _, _, _, free, _⟩
  · exact ⟨⟨ram.trans full.ram, swap.trans full.swap⟩, entries⟩
  · cases full.ram.symm.trans free
  · cases full.swap.symm.trans free

/-- Where neither device has a free frame, this stays so: no access by any process brings a
swapped page back, whatever is accessed before. A run answers what the resident pages alone
answer if and only if each access to one of them is served; no page is lost or moved, and the
bytes that are swapped out stay as they are. The first access that is not served ends the
run in a fault. -/
theorem accesses_stuck_when_full_iff (good : Good k) (random : RandomAccess k) (full : Full k) (accesses : List (ByteAccess Proc))
    (finds : ∀ access ∈ accesses, env.Finds access.caller) :
    (RunRefines env (fun k' => .onResident k.pte k'.bytes) k accesses (fun after => Full after ∧ after.pte = k.pte ∧
        ∀ place, pagingPageSwapped (k.pte place) = true → after.bytes place = k.bytes place) ↔
      ∀ access ∈ accesses, Served env (.onResident k.pte k.bytes) access) ∧
    ((∃ access ∈ accesses, ¬Served env (.onResident k.pte k.bytes) access) → runAccesses env k accesses = .error .wildPointer) := by
  let invariant (before : Krnl Proc) : Prop := Good before ∧ RandomAccess before ∧ Full before ∧ before.pte = k.pte ∧
    ∀ place, pagingPageSwapped (k.pte place) = true → before.bytes place = k.bytes place
  have available_iff (before : Krnl Proc) (access : ByteAccess Proc) (held : invariant before) :
      Available before access.caller (pagingPgn access.addr) ↔ (k.pte access.place).resident = true := by
    rw [held.2.2.1.available_iff, held.2.2.2.1]
  have served_iff (access : ByteAccess Proc) : Served env (.onResident k.pte k.bytes) access ↔
      ((k.pte access.place).resident = true → env.regs6 access.caller = some env.os) := by
    rw [Served, FlatMemory.onResident_isSome]
  obtain ⟨refines, faults⟩ := @runAccesses_refines _ _ env k invariant (fun k' => .onResident k.pte k'.bytes)
    (Served env (.onResident k.pte k.bytes)) accesses
    (fun before access member held served => by
      rcases access.run_cases held.1 held.2.1 (finds access member) with
        ⟨answer, after, ran, goodAfter, randomAfter, flat, absent⟩ | ⟨available, unreached, _⟩
      · have reaches := available_iff before access held
        obtain ⟨good, random, full, entries, away⟩ := held
        obtain ⟨got, fpn, middle, fetched, mms, swap, ram⟩ := ByteAccess.run_page ran
        obtain ⟨⟨noFrame, noSwap⟩, same⟩ := full.getpage random fetched
        have table : after.pte = k.pte := by
          rw [← entries, ← same]
          funext place
          rw [Krnl.pte, mms]
          rfl
        refine ⟨answer, after, ran, ?_, goodAfter, randomAfter, ⟨ram.trans noFrame, swap ▸ noSwap⟩, table, fun place swapped => ?_⟩
        · by_cases resident : (k.pte access.place).resident = true
          · rw [FlatMemory.perform_onResident resident, (flat (reaches.mpr resident)).2]
          · obtain ⟨rfl, kept⟩ := absent (mt reaches.mp resident)
            rw [FlatMemory.perform_absent (if_neg resident), kept]
        · by_cases resident : (k.pte access.place).resident = true
          · have other : place ≠ access.place := by
              rintro rfl
              rw [Pte.not_resident_of_swapped swapped] at resident
              cases resident
            have elsewhere : (FlatMemory.perform before.bytes access).2 place = before.bytes place := FlatMemory.perform_elsewhere other
            rw [(flat (reaches.mpr resident)).2] at elsewhere
            exact elsewhere.trans (away place swapped)
          · rw [(absent (mt reaches.mp resident)).2]
            exact away place swapped
      · exact absurd ((served_iff access).mp served ((available_iff before access held).mp available)) unreached)
    (fun before access member held unserved => by
      obtain ⟨resident, unreached⟩ := Classical.not_imp.mp (mt (served_iff access).mpr unserved)
      rcases access.run_cases held.1 held.2.1 (finds access member) with ⟨_, _, _, _, _, flat, _⟩ | ⟨_, _, ran⟩
      · exact absurd (flat ((available_iff before access held).mpr resident)).1 unreached
      · exact ran)
    ⟨good, random, full, rfl, fun _ _ => rfl⟩
  refine ⟨⟨fun run => ?_, fun served => (refines served).mono fun after kept => kept.2.2⟩, faults⟩
  obtain ⟨answers, after, ran, _⟩ := run
  by_contra unserved
  push Not at unserved
  cases ran.symm.trans (faults unserved)

private def oneFrameEach (ramFree swapFree : List Addr) : Krnl Unit :=
  { oneFrame ramFree swapFree with activeMswp := { (oneFrame ramFree swapFree).activeMswp with maxsz := 256 } }

private def pageOneListed (swapFree : List Addr) : Krnl Unit := (oneFrameEach [] swapFree).setMm () (mapPage (initMm []) 1 0)

private def pageOneForgotten (swapFree : List Addr) : Krnl Unit :=
  (pageOneListed swapFree).setMm () { mapPage (initMm []) 1 0 with fifoPgn := [] }

private def pageOneAway : Krnl Unit := (pageOneForgotten []).setMm () (((pageOneForgotten []).mms ()).setSwap 1 0 0)

/-- Page 0 fills the only RAM frame and page 1 the only swap frame. -/
def wedged : Krnl Unit := pageOneAway.setMm () (mapPage (pageOneAway.mms ()) 0 0)

private theorem wedged_good : Good wedged := by
  have fresh : Good (oneFrameEach [0] [0]) := by
    refine .fresh rfl rfl (fun place => ?_) (fun _ => rfl) (by decide) (by decide)
    constructor
    · simp [Krnl.pte, oneFrameEach, oneFrame, initMm, Pte.resident, pagingPagePresent]
    · simp [Krnl.pte, oneFrameEach, oneFrame, initMm, pagingPageSwapped]
  have listed : Owned [] (pageOneListed [0]) := (fresh.getFreefp rfl).mapPage ⟨by decide, by decide⟩
  have forgotten : Owned [] (pageOneForgotten [0]) := listed.dropFifo (List.nil_sublist _)
  have resident : ((pageOneForgotten [0]).pte ((), pageOf 1)).resident = true := by decide
  have away := forgotten.evict 0 resident List.not_mem_nil rfl
  have frame : ((pagingFpn ((pageOneForgotten [0]).pte ((), pageOf 1))).setWidth 64 : Addr) = 0 := by decide
  rw [frame] at away
  have unmapped : (pageOneAway.pte ((), pageOf 0)).unmapped := ⟨by decide, by decide⟩
  exact away.mapPage unmapped

/-- Writing page 0 works, reading page 1 never does. -/
theorem accesses_stuck_when_full_iff_wedged :
    RunRefines crowdedEnv (fun k' => .onResident wedged.pte k'.bytes) wedged [.setval () 3 5, .getval () 259, .getval () 3]
      (fun after => Full after ∧ after.pte = wedged.pte ∧
        ∀ place, pagingPageSwapped (wedged.pte place) = true → after.bytes place = wedged.bytes place) :=
  (accesses_stuck_when_full_iff wedged_good ⟨rfl, rfl⟩ ⟨rfl, rfl⟩ [.setval () 3 5, .getval () 259, .getval () 3]
    fun _ _ => ⟨1, rfl, rfl⟩).1.mpr fun _ _ _ => rfl

end Full

end LamiaAtrium
