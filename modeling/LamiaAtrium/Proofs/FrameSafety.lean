import LamiaAtrium.Library.Run
import LamiaAtrium.Proofs.FlatMemory
import LamiaAtrium.Proofs.RamMapping

/-! The frame invariant over whole runs: any processes, any order of mapping calls and
page faults, any outcome. -/

namespace LamiaAtrium
open Run
variable {Proc : Type} [DecidableEq Proc]

inductive PagingCall (Proc : Type) where
  | vmMapRam (caller : Proc) (astart aend mapstart : Addr) (incpgnum : CInt) (rg : VmRg)
  | pgGetpage (env : Env Proc) (caller : Proc) (pgn : CInt)

/-- A call that returned. `inc_vma_limit` maps from the old `sbrk`, where nothing is
mapped yet; `pg_getpage` takes any page. -/
inductive PagingStep : Krnl Proc → PagingCall Proc → Krnl Proc → Prop where
  | vmMapRam {k : Krnl Proc} {caller : Proc} {mapstart : Addr} {incpgnum : CInt} (astart aend : Addr) (rg : VmRg)
      (inside : mapstart.toNat + rounds incpgnum * pagingPagesz ≤ 2 ^ 22)
      (unmapped : ∀ i < rounds incpgnum, (k.pte (caller, pageOf (pgnAt mapstart i))).unmapped) :
      PagingStep k (.vmMapRam caller astart aend mapstart incpgnum rg)
        (vmMapRam k caller astart aend mapstart incpgnum rg).2.2
  | pgGetpage {k after : Krnl Proc} {env : Env Proc} {caller : Proc} {pgn : CInt} {code : Int} {fpn : Option CInt}
      (returned : pgGetpage env k caller pgn = .ok (code, fpn, after)) :
      PagingStep k (.pgGetpage env caller pgn) after

def SameFrames (before after : Krnl Proc) : Prop :=
  after.mram.frames = before.mram.frames ∧ after.activeMswp.frames = before.activeMswp.frames

omit [DecidableEq Proc] in
private theorem SameDevices.frames {before after : Krnl Proc} (same : SameDevices before after) : SameFrames before after := by
  simp only [SameFrames, Memphy.frames, same.ramSize, same.swapSize, and_self]

theorem pagingStep_good {k after : Krnl Proc} {call : PagingCall Proc} (good : Good k) (step : PagingStep k call after) :
    Good after ∧ SameFrames k after := by
  cases step with
  | vmMapRam astart aend rg inside unmapped => exact ⟨vmMapRam_good good inside unmapped, vmMapRam_devices.frames⟩
  | @pgGetpage _ env caller pgn _ _ returned =>
    rcases pgGetpage_spec env caller good pgn with ⟨failed, _⟩ | ⟨code, fpn, last, ran, fetched, _⟩
    · rw [failed] at returned
      cases returned
    · rw [ran] at returned
      cases returned
      exact ⟨fetched.good, fetched.devices.frames⟩

/-- A frame of a device, at any offset, is behind an address of the device. -/
private theorem cell_lt {fpn frames offset : Nat} (frame : fpn < frames) (inside : offset < pagingPagesz) :
    fpn * pagingPagesz + offset < frames * pagingPagesz := by
  have next : (fpn + 1) * pagingPagesz ≤ frames * pagingPagesz := Nat.mul_le_mul_right _ frame
  rw [Nat.add_mul] at next
  omega

/-- From a good state, whatever mapping calls and page faults follow, of whatever
processes and with whatever outcome, every state reached is good. A page fault then
never leaves a device: it returns, or the lookup of the caller reads a freed pcb. And
every physical address that an entry or a result stands for is below the number of
frames times the page size. -/
theorem frame_ownership_invariant {first last : Krnl Proc} {calls : List (PagingCall Proc)} (good : Good first)
    (run : Steps PagingStep first calls last) :
    Good last ∧ SameFrames first last ∧
      (∀ env caller pgn fault, pgGetpage env last caller pgn = .error fault → fault = .useAfterFree) ∧
      (∀ env caller pgn code fpn after, pgGetpage env last caller pgn = .ok (code, some fpn, after) →
        ∀ offset < pagingPagesz, fpn.toNat * pagingPagesz + offset < first.mram.frames * pagingPagesz) ∧
      (∀ place, (last.pte place).resident = true → ∀ offset < pagingPagesz,
        (pagingFpn (last.pte place)).toNat * pagingPagesz + offset < first.mram.frames * pagingPagesz) ∧
      ∀ place, pagingPageSwapped (last.pte place) = true → ∀ offset < pagingPagesz,
        (pagingSwp (last.pte place)).toNat * pagingPagesz + offset < first.activeMswp.frames * pagingPagesz := by
  have kept : Good last ∧ SameFrames first last := by
    apply run.invariant ⟨good, rfl, rfl⟩
    intro before call after holds step
    obtain ⟨goodAfter, ram, swap⟩ := pagingStep_good holds.1 step
    exact ⟨goodAfter, ram.trans holds.2.1, swap.trans holds.2.2⟩
  obtain ⟨goodLast, ram, swap⟩ := kept
  refine ⟨goodLast, ⟨ram, swap⟩, ?_, ?_, ?_, ?_⟩
  · intro env caller pgn fault failed
    rcases pgGetpage_spec env caller goodLast pgn with ⟨freed, _⟩ | ⟨code, fpn, after, ran, _⟩
    · rw [freed] at failed
      cases failed
      rfl
    · rw [ran] at failed
      cases failed
  · intro env caller pgn code fpn after returned offset inside
    rcases pgGetpage_spec env caller goodLast pgn with ⟨failed, _⟩ | ⟨_, _, _, ran, fetched, _⟩
    · rw [failed] at returned
      cases returned
    · rw [ran] at returned
      cases returned
      rcases fetched.outcome with ⟨_, missing⟩ | ⟨_, resident, number⟩
      · cases missing
      · cases number
        have frame := fetched.good.resident_lt resident
        rw [fetched.devices.frames.1, ram] at frame
        exact cell_lt frame inside
  · intro place resident offset inside
    exact cell_lt (ram ▸ goodLast.resident_lt resident) inside
  · intro place swapped offset inside
    exact cell_lt (swap ▸ goodLast.swapped_lt swapped) inside

/-- `crowded` with both pages brought in, one after the other. -/
def crowdedFaults : Outcome (Krnl Unit) := do
  let (_, _, k) ← pgGetpage crowdedEnv (vmMapRam crowded () 512 768 512 1 { rgStart := 512, rgEnd := 768 }).2.2 () 1
  let (_, _, k) ← pgGetpage crowdedEnv k () 0
  return k

theorem crowdedFaults_evict : (crowdedFaults.map fun k => ((k.pte ((), pageOf 0)).ramFrame, (k.pte ((), pageOf 1)).swapFrame)) =
    .ok (some 0, some 0) := by decide +kernel

/-- A mapping call that finds no frame, then two page faults, each of which evicts the page that
the other brought in. -/
theorem frame_ownership_invariant_crowded : ∃ last calls, calls.length = 3 ∧ Steps PagingStep crowded calls last ∧
    (last.pte ((), pageOf 0)).ramFrame = some 0 ∧ (last.pte ((), pageOf 1)).swapFrame = some 0 ∧ Good last ∧ SameFrames crowded last := by
  have ends := crowdedFaults_evict
  cases ran : crowdedFaults with
  | error fault => rw [ran] at ends; cases ends
  | ok last =>
    rw [ran] at ends
    obtain ⟨ram, swap⟩ := Prod.mk.inj (Except.ok.inj ends)
    obtain ⟨⟨_, _, middle⟩, first, ran⟩ := Outcome.bind_eq_ok ran
    obtain ⟨⟨_, _, third⟩, second, same⟩ := Outcome.bind_eq_ok ran
    cases same
    have full : PagingStep crowded (.vmMapRam () 512 768 512 1 { rgStart := 512, rgEnd := 768 }) _ :=
      .vmMapRam 512 768 _ (by decide) (by decide)
    have run := ((Steps.single full).tail (.pgGetpage first)).tail (.pgGetpage second)
    obtain ⟨good, same, _⟩ := frame_ownership_invariant crowded_good run
    exact ⟨_, _, rfl, run, ram, swap, good, same⟩

end LamiaAtrium
