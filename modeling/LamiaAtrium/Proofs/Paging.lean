import LamiaAtrium.Proofs.FrameOwnership

/-! What `pg_getpage` does to the frames and to the bytes behind them, path by path:
the hit, the page-in to a free frame, the page-in after an eviction, and the three
early returns. -/

namespace LamiaAtrium
open Ownership
variable {Proc : Type}

def Pte.byte (pte : Pte) (mram mswp : Nat → Byte) (offset : Nat) : Option Byte :=
  if pte.resident then some (mram ((pagingFpn pte).toNat * pagingPagesz + offset))
  else if pagingPageSwapped pte then some (mswp ((pagingSwp pte).toNat * pagingPagesz + offset))
  else none

def Krnl.bytes (k : Krnl Proc) (place : Proc × Page) (offset : Fin pagingPagesz) : Option Byte :=
  (k.pte place).byte k.mram.storage k.activeMswp.storage offset

/-- `__sys_memmap` called for this process finds it. -/
def Env.Finds (env : Env Proc) (caller : Proc) : Prop :=
  ∃ pid, env.pid caller = some pid ∧ env.findCaller pid = .ok (some caller)

/-- `__sys_memmap` called for this process finds some process of its pid. -/
def Env.Answers (env : Env Proc) (caller : Proc) : Prop :=
  ∃ pid other, env.callerPid caller = .ok pid ∧ env.findCaller pid = .ok (some other)

/-- `__sys_memmap` called for this process returns -1. -/
def Env.Misses (env : Env Proc) (caller : Proc) : Prop := ∃ pid, env.pid caller = some pid ∧ env.findCaller pid = .ok none

section Cells

/-- One cell of a frame copy, addressed by frame and offset. -/
theorem copiedCells_cell (source target : Nat → Byte) (src dst fpn offset : Nat) (inside : offset < pagingPagesz) :
    copiedCells source target src dst pagingPagesz (fpn * pagingPagesz + offset) =
      if fpn = dst then source (src * pagingPagesz + offset) else target (fpn * pagingPagesz + offset) := by
  have inFrame : dst * pagingPagesz ≤ fpn * pagingPagesz + offset ∧
      fpn * pagingPagesz + offset < dst * pagingPagesz + pagingPagesz ↔ fpn = dst := by
    simp only [pagingPagesz] at *
    omega
  rw [copiedCells]
  by_cases same : fpn = dst
  · rw [if_pos (inFrame.mpr same), if_pos same, same, Nat.add_sub_cancel_left]
  · rw [if_neg (mt inFrame.mp same), if_neg same]

variable {pte : Pte} {mram mswp : Nat → Byte} {offset : Nat}

theorem Pte.byte_of_resident (resident : pte.resident = true) :
    pte.byte mram mswp offset = some (mram ((pagingFpn pte).toNat * pagingPagesz + offset)) := by
  rw [Pte.byte, if_pos resident]

theorem Pte.byte_of_swapped (swapped : pagingPageSwapped pte = true) :
    pte.byte mram mswp offset = some (mswp ((pagingSwp pte).toNat * pagingPagesz + offset)) := by
  rw [Pte.byte, if_neg (by simp [Pte.not_resident_of_swapped swapped]), if_pos swapped]

theorem Pte.byte_setFpn {fpn : Addr} (small : fpn.toNat < 2 ^ 13) :
    (pte.setFpn fpn).byte mram mswp offset = some (mram (fpn.toNat * pagingPagesz + offset)) := by
  have number := congrArg BitVec.toNat (pagingFpn_setFpn_of_lt pte fpn small)
  rw [BitVec.toNat_setWidth_of_le (by decide)] at number
  rw [Pte.byte_of_resident (setFpn_resident pte fpn), number]

theorem Pte.byte_setSwap {swpoff : Addr} (swptyp : CInt) (small : swpoff.toNat < 2 ^ 21) :
    (pte.setSwap swptyp swpoff).byte mram mswp offset = some (mswp (swpoff.toNat * pagingPagesz + offset)) := by
  have number := congrArg BitVec.toNat (pagingSwp_setSwap_of_lt pte swpoff swptyp small)
  rw [BitVec.toNat_setWidth_of_le (by decide)] at number
  rw [Pte.byte_of_swapped (setSwap_swapped pte swpoff swptyp), number]

/-- Storage behind frames that an entry does not name does not show in its byte. -/
theorem Pte.byte_congr {mram' mswp' : Nat → Byte}
    (ram : ∀ fpn, pte.ramFrame = some fpn → mram' (fpn.toNat * pagingPagesz + offset) = mram (fpn.toNat * pagingPagesz + offset))
    (swap : ∀ fpn, pte.swapFrame = some fpn → mswp' (fpn.toNat * pagingPagesz + offset) = mswp (fpn.toNat * pagingPagesz + offset)) :
    pte.byte mram' mswp' offset = pte.byte mram mswp offset := by
  by_cases resident : pte.resident = true
  · have same := ram _ (Pte.ramFrame_of_resident resident)
    rw [BitVec.toNat_setWidth_of_le (by decide)] at same
    rw [Pte.byte_of_resident resident, Pte.byte_of_resident resident, same]
  · by_cases swapped : pagingPageSwapped pte = true
    · have same := swap _ (Pte.swapFrame_of_swapped swapped)
      rw [BitVec.toNat_setWidth_of_le (by decide)] at same
      rw [Pte.byte_of_swapped swapped, Pte.byte_of_swapped swapped, same]
    · simp [Pte.byte, resident, swapped]

end Cells

section Calls
variable {env : Env Proc} {pid : CInt}

theorem scan_error {entries : List Proc} {fault : Fault} (failed : env.scan pid entries = .error fault) :
    fault = .useAfterFree := by
  induction entries with
  | nil => cases failed
  | cons p rest ih =>
    rw [Env.scan] at failed
    split at failed
    · cases failed; rfl
    · split at failed
      · cases failed
      · exact ih failed

private theorem scanQueue_error {queue : Option (List Proc)} {fault : Fault} (failed : env.scanQueue pid queue = .error fault) :
    fault = .useAfterFree := by
  cases queue with
  | none => cases failed
  | some entries => exact scan_error failed

/-- The lookup can only go wrong by reading a freed pcb. -/
theorem findCaller_error {fault : Fault} (failed : env.findCaller pid = .error fault) : fault = .useAfterFree := by
  unfold Env.findCaller at failed
  cases first : env.scanQueue pid env.readyQueue with
  | error other =>
    rw [first] at failed
    cases failed
    exact scanQueue_error first
  | ok found =>
    rw [first, Outcome.bind_ok] at failed
    cases found with
    | some caller => cases failed
    | none => exact scanQueue_error failed

theorem callerPid_error {caller : Proc} {fault : Fault} (failed : env.callerPid caller = .error fault) :
    fault = .useAfterFree ∧ env.pid caller = none := by
  unfold Env.callerPid at failed
  split at failed
  · cases failed
  · next freed => cases failed; exact ⟨rfl, freed⟩

theorem callerPid_ok {caller : Proc} (read : env.callerPid caller = .ok pid) : env.pid caller = some pid := by
  unfold Env.callerPid at read
  split at read
  · next known => cases read; exact known
  · cases read

theorem addrParam_of_lt {value : Addr} (small : value.toNat < 2 ^ 32) : addrParam value = value := by
  apply BitVec.eq_of_toNat_eq
  simp only [addrParam, BitVec.toNat_setWidth]
  omega

theorem Env.Finds.callerPid {caller : Proc} (finds : env.Finds caller) :
    ∃ pid, env.callerPid caller = .ok pid ∧ env.findCaller pid = .ok (some caller) := by
  obtain ⟨pid, known, found⟩ := finds
  exact ⟨pid, by rw [Env.callerPid, known], found⟩

theorem Env.Finds.answers {caller : Proc} (finds : env.Finds caller) : env.Answers caller := by
  obtain ⟨pid, known, found⟩ := finds.callerPid
  exact ⟨pid, caller, known, found⟩

end Calls

section Syscalls
variable [DecidableEq Proc] (env : Env Proc) (k : Krnl Proc) (pid : CInt)

/-- `SYSMEM_SWP_OP` between frames that the devices have. A lookup that fails leaves
the bytes where they are; one that succeeds copies the frame. -/
theorem syscall_swap {vicfpn swpfpn : Addr} (victim : vicfpn.toNat < k.mram.frames) (target : swpfpn.toNat < k.activeMswp.frames)
    (smallRam : k.mram.frames ≤ 2 ^ 13) (smallSwap : k.activeMswp.frames ≤ 2 ^ 21) :
    (syscall env k pid 17 { a1 := 3, a2 := vicfpn, a3 := swpfpn } = .error .useAfterFree ∧
      ∀ found, env.findCaller pid ≠ .ok found) ∨
    ∃ code regs storage, syscall env k pid 17 { a1 := 3, a2 := vicfpn, a3 := swpfpn } =
        .ok (code, regs, { k with activeMswp := { k.activeMswp with storage } }) ∧
      ∀ caller, env.findCaller pid = .ok (some caller) → RandomAccess k →
        storage = copiedCells k.mram.storage k.activeMswp.storage vicfpn.toNat swpfpn.toNat pagingPagesz := by
  cases found : env.findCaller pid with
  | error fault =>
    left
    rw [syscall_fault found, findCaller_error found]
    exact ⟨rfl, fun _ same => by cases same⟩
  | ok result =>
    right
    cases result with
    | none => exact ⟨-1, _, k.activeMswp.storage, syscall_missing found _, fun caller same => by cases same⟩
    | some caller =>
      obtain ⟨storage, copied, content⟩ := swapCpPage_spec env.uninit victim target (by omega) (by omega)
      refine ⟨0, { a1 := 3, a2 := vicfpn, a3 := swpfpn }, storage, ?_, fun _ _ random => content random.1 random.2⟩
      rw [syscall_swp found, mmSwapPage, addrParam_of_lt (by omega), addrParam_of_lt (by omega), copied]
      rfl

end Syscalls

section Bytes
variable {k after : Krnl Proc} {loose : List Addr} {caller : Proc} {pgn fpn : Addr}

theorem bytes_congr (entries : after.pte = k.pte) (ram : after.mram.storage = k.mram.storage)
    (swap : after.activeMswp.storage = k.activeMswp.storage) : after.bytes = k.bytes := by
  funext place offset
  rw [Krnl.bytes, Krnl.bytes, entries, ram, swap]

variable [DecidableEq Proc]

/-- Copying the victim's frame before its entry is rewritten keeps every byte: the
victim reads the copy, and no other entry names the swap frame that was free. -/
theorem evict_bytes (owned : Owned loose k) {activeMswp : Memphy} {storage : Nat → Byte} (swptyp : CInt)
    (resident : (k.pte (caller, pageOf pgn)).resident = true) (taken : k.activeMswp.getFreefp = some (fpn, activeMswp))
    (copied : storage = copiedCells k.mram.storage k.activeMswp.storage (pagingFpn (k.pte (caller, pageOf pgn))).toNat
      fpn.toNat pagingPagesz) :
    ({ k with activeMswp := { activeMswp with storage } }.setMm caller ((k.mms caller).setSwap pgn swptyp fpn)).bytes =
      k.bytes := by
  have free : ∃ rest, k.activeMswp.freeFpList = fpn :: rest := by
    cases list : k.activeMswp.freeFpList with
    | nil => rw [Memphy.getFreefp_nil list] at taken; cases taken
    | cons first rest => rw [Memphy.getFreefp_cons list] at taken; cases taken; exact ⟨rest, rfl⟩
  obtain ⟨rest, free⟩ := free
  have waiting : fpn ∈ k.activeMswp.freeFpList := free ▸ List.mem_cons_self
  have small : fpn.toNat < 2 ^ 21 := Nat.lt_of_lt_of_le (owned.swap.free_mem waiting) owned.swapSmall
  funext place offset
  rw [Krnl.bytes, pte_setMm _ caller (pteAt_pteSetSwap _ pgn swptyp fpn)]
  simp only [Krnl.setMm_mram, Krnl.setMm_activeMswp, copied]
  by_cases here : place = (caller, pageOf pgn)
  · subst here
    rw [Function.update_self, Pte.byte_setSwap swptyp small, copiedCells_cell _ _ _ _ _ _ offset.isLt, if_pos rfl,
      Krnl.bytes, Pte.byte_of_resident resident]
  · rw [Function.update_of_ne here]
    apply Pte.byte_congr (fun _ _ => rfl)
    intro other holds
    have apart : other.toNat ≠ fpn.toNat := fun same =>
      owned.swap.apart place other holds (BitVec.eq_of_toNat_eq same ▸ waiting)
    rw [copiedCells_cell _ _ _ _ _ _ offset.isLt, if_neg apart]

/-- Copying a page back before its entry is rewritten keeps every byte: no entry names
the loose frame. -/
theorem pageIn_bytes (owned : Owned (fpn :: loose) k) {activeMswp : Memphy} {storage : Nat → Byte}
    (swapped : pagingPageSwapped (k.pte (caller, pageOf pgn)) = true)
    (content : activeMswp.storage = k.activeMswp.storage)
    (copied : storage = copiedCells k.activeMswp.storage k.mram.storage (pagingSwp (k.pte (caller, pageOf pgn))).toNat
      fpn.toNat pagingPagesz) :
    ({ k with activeMswp, mram := { k.mram with storage } }.setMm caller
      (((k.mms caller).setFpn pgn fpn).enlistPgn pgn)).bytes = k.bytes := by
  have small : fpn.toNat < 2 ^ 13 := Nat.lt_of_lt_of_le owned.loose_lt owned.ramSmall
  funext place offset
  rw [Krnl.bytes, pte_setMm _ caller (pteAt_pteSetFpn _ pgn fpn)]
  simp only [Krnl.setMm_mram, Krnl.setMm_activeMswp, content, copied]
  by_cases here : place = (caller, pageOf pgn)
  · subst here
    rw [Function.update_self, Pte.byte_setFpn small, copiedCells_cell _ _ _ _ _ _ offset.isLt, if_pos rfl,
      Krnl.bytes, Pte.byte_of_swapped swapped]
  · rw [Function.update_of_ne here]
    refine Pte.byte_congr ?_ (fun _ _ => rfl)
    intro other holds
    have apart : other.toNat ≠ fpn.toNat := fun same =>
      owned.ram.apart place other holds (BitVec.eq_of_toNat_eq same ▸ List.mem_append_left _ List.mem_cons_self)
    rw [copiedCells_cell _ _ _ _ _ _ offset.isLt, if_neg apart]

end Bytes

section PageFault
variable {k : Krnl Proc} {caller : Proc}

theorem popOldest_eq {pages kept : List Addr} {oldest : Addr} (popped : popOldest pages = some (oldest, kept)) :
    pages = kept ++ [oldest] := by
  induction pages generalizing kept with
  | nil => cases popped
  | cons pgn rest ih =>
    cases rest with
    | nil => cases popped; rfl
    | cons next rest =>
      simp only [popOldest, Option.map_eq_some_iff] at popped
      obtain ⟨⟨last, others⟩, found, same⟩ := popped
      cases same
      rw [ih found, List.cons_append]

theorem getFreefp_some {mp after : Memphy} {fpn : Addr} (taken : mp.getFreefp = some (fpn, after)) :
    ∃ rest, mp.freeFpList = fpn :: rest ∧ after = { mp with freeFpList := rest } := by
  cases free : mp.freeFpList with
  | nil => rw [Memphy.getFreefp_nil free] at taken; cases taken
  | cons first rest => rw [Memphy.getFreefp_cons free] at taken; cases taken; exact ⟨rest, rfl, rfl⟩

/-- The victim is the process's oldest resident page, and it is listed no more. -/
theorem findVictimPage_some {mm : Mm} {vicpgn : Addr}
    (found : findVictimPage (k.mms caller) = some (vicpgn, mm)) (good : Good k) :
    ∃ kept, mm = { k.mms caller with fifoPgn := kept } ∧ kept.Sublist (k.mms caller).fifoPgn ∧
      (k.pte (caller, pageOf vicpgn)).resident = true ∧ pageOf vicpgn ∉ kept.map pageOf := by
  simp only [findVictimPage, Option.map_eq_some_iff] at found
  obtain ⟨⟨oldest, kept⟩, popped, same⟩ := found
  cases same
  have list := popOldest_eq popped
  have distinct := good.fifoNodup caller
  rw [list, List.map_append, List.nodup_append] at distinct
  refine ⟨kept, rfl, list ▸ List.sublist_append_left kept _, ?_, ?_⟩
  · exact good.fifoResident caller oldest (list ▸ List.mem_append_right _ List.mem_cons_self)
  · intro member
    exact distinct.2.2 _ member _ (by simp) rfl

variable [DecidableEq Proc] (env : Env Proc)

/-- The second half of the eviction, from the state in which the victim is no longer
listed and a swap frame has been found. -/
private theorem swapOut_spec {vicpgn vicSwpfpn : Addr} {activeMswp : Memphy} (owned : Owned [] k)
    (resident : (k.pte (caller, pageOf vicpgn)).resident = true)
    (unlisted : pageOf vicpgn ∉ (k.mms caller).fifoPgn.map pageOf)
    (taken : k.activeMswp.getFreefp = some (vicSwpfpn, activeMswp)) :
    let vicfpn : Addr := (pagingFpn (k.pte (caller, pageOf vicpgn))).setWidth 64
    let swapOut : Outcome (Option Addr × Krnl Proc) := do
      let pid ← env.callerPid caller
      let (_, _, k) ← syscall env { k with activeMswp } pid 17 { a1 := 3, a2 := vicfpn, a3 := vicSwpfpn }
      return (some vicfpn, k.setMm caller ((k.mms caller).setSwap vicpgn k.activeMswpId vicSwpfpn))
    (swapOut = .error .useAfterFree ∧ ¬env.Answers caller ∧ ¬env.Misses caller) ∨
    ∃ k', swapOut = .ok (some vicfpn, k') ∧ Owned [vicfpn] k' ∧ SameDevices k k' ∧
      (env.Answers caller → RandomAccess k → k'.bytes = k.bytes) ∧
      ∀ place, (k.pte place).resident = false → k'.pte place = k.pte place := by
  intro vicfpn swapOut
  have victimLt : vicfpn.toNat < k.mram.frames := by
    rw [BitVec.toNat_setWidth_of_le (by decide)]
    exact owned.resident_lt resident
  obtain ⟨rest, free, rfl⟩ := getFreefp_some taken
  have targetLt : vicSwpfpn.toNat < k.activeMswp.frames := owned.swap.free_mem (free ▸ List.mem_cons_self)
  cases known : env.callerPid caller with
  | error fault =>
    left
    obtain ⟨rfl, freed⟩ := callerPid_error known
    refine ⟨by simp only [swapOut, known, Outcome.bind_error], ?_, ?_⟩
    · rintro ⟨pid, other, still, _⟩
      cases known.symm.trans still
    · rintro ⟨pid, still, _⟩
      cases freed.symm.trans still
  | ok pid =>
    have call := syscall_swap env { k with activeMswp := { k.activeMswp with freeFpList := rest } } pid victimLt targetLt
      owned.ramSmall owned.swapSmall
    dsimp only at call
    rcases call with ⟨failed, missing⟩ | ⟨code, regs, storage, swapped, content⟩
    · left
      refine ⟨by simp only [swapOut, known, Outcome.bind_ok, failed, Outcome.bind_error], ?_, ?_⟩
      · rintro ⟨_, other, still, found⟩
        cases known.symm.trans still
        exact missing _ found
      · rintro ⟨_, still, found⟩
        cases (callerPid_ok known).symm.trans still
        exact missing _ found
    · right
      refine ⟨_, by simp only [swapOut, known, Outcome.bind_ok, swapped, Outcome.pure_eq]; rfl, ?_, ?_, ?_, ?_⟩
      · exact (owned.evict _ resident unlisted taken).congr rfl rfl rfl rfl rfl fun _ => rfl
      · exact ⟨rfl, rfl, rfl, rfl⟩
      · rintro ⟨_, other, still, found⟩ random
        cases known.symm.trans still
        apply evict_bytes owned _ resident taken
        have exact' := content other found random
        rw [BitVec.toNat_setWidth_of_le (by decide)] at exact'
        exact exact'
      · intro place absent
        have apart : place ≠ (caller, pageOf vicpgn) := fun same => by rw [same, resident] at absent; cases absent
        rw [pte_setMm _ caller (pteAt_pteSetSwap _ vicpgn _ vicSwpfpn), Function.update_of_ne apart]
        rfl

/-- The branch of `pg_getpage` that evicts. When it returns a frame, that frame is
loose and no page that was absent has been touched. -/
theorem evictVictim_spec (caller : Proc) (good : Good k) :
    (evictVictim env k caller = .error .useAfterFree ∧ ¬env.Answers caller ∧ ¬env.Misses caller) ∨
    ∃ evicted k', evictVictim env k caller = .ok (evicted, k') ∧ Owned evicted.toList k' ∧ SameDevices k k' ∧
      (env.Answers caller → RandomAccess k → k'.bytes = k.bytes) ∧
      ∀ place, (k.pte place).resident = false → k'.pte place = k.pte place := by
  cases victim : findVictimPage (k.mms caller) with
  | none =>
    right
    refine ⟨none, k, ?_, good, .refl k, fun _ _ => rfl, fun _ _ => rfl⟩
    rw [evictVictim, victim]
    rfl
  | some found =>
    obtain ⟨vicpgn, mm⟩ := found
    obtain ⟨kept, rfl, sublist, resident, unlisted⟩ := findVictimPage_some victim good
    have entries : (k.setMm caller { k.mms caller with fifoPgn := kept }).pte = k.pte := pte_setMm_of_pgd k caller rfl
    have popped := good.dropFifo sublist
    have sameBytes : (k.setMm caller { k.mms caller with fifoPgn := kept }).bytes = k.bytes := bytes_congr entries rfl rfl
    have entry : (Mm.getEntry { k.mms caller with fifoPgn := kept } vicpgn) = k.pte (caller, pageOf vicpgn) :=
      getEntry_eq_pte k caller vicpgn
    cases taken : k.activeMswp.getFreefp with
    | none =>
      right
      refine ⟨none, _, ?_, popped, ⟨rfl, rfl, rfl, rfl⟩, fun _ _ => sameBytes, fun place _ => congrFun entries place⟩
      rw [evictVictim, victim]
      simp only [Krnl.setMm_activeMswp, taken]
      rfl
    | some found =>
      obtain ⟨vicSwpfpn, activeMswp⟩ := found
      have continued : evictVictim env k caller = (do
          let pid ← env.callerPid caller
          let vicfpn : Addr := (pagingFpn (k.pte (caller, pageOf vicpgn))).setWidth 64
          let (_, _, k) ← syscall env { k.setMm caller { k.mms caller with fifoPgn := kept } with activeMswp } pid 17
            { a1 := 3, a2 := vicfpn, a3 := vicSwpfpn }
          return (some vicfpn, k.setMm caller ((k.mms caller).setSwap vicpgn k.activeMswpId vicSwpfpn))) := by
        rw [evictVictim, victim]
        simp only [Krnl.setMm_activeMswp, taken, entry]
      have swapOut := swapOut_spec env popped (entries ▸ resident) (by rw [Krnl.setMm_same]; exact unlisted) taken
      simp only [entries, sameBytes] at swapOut
      rw [continued]
      rcases swapOut with failed | ⟨k', ran, owned, devices, bytes, untouched⟩
      · exact .inl failed
      · have popOnly : SameDevices k (k.setMm caller { k.mms caller with fifoPgn := kept }) := ⟨rfl, rfl, rfl, rfl⟩
        exact .inr ⟨_, k', ran, owned, popOnly.trans devices, bytes, untouched⟩

/-- The end of `pg_getpage`, from a state in which the new frame is loose. -/
theorem pageIn_spec {pgn newfpn : Addr} {pte : Pte} (owned : Owned [newfpn] k) (entry : k.pte (caller, pageOf pgn) = pte)
    (swapped : pagingPageSwapped pte = true) :
    ∃ k', pageIn env k caller pgn ((pagingSwp pte).setWidth 64) newfpn = .ok k' ∧
      Good k' ∧ SameDevices k k' ∧ (RandomAccess k → k'.bytes = k.bytes) ∧
      k'.pte (caller, pageOf pgn) = pte.setFpn newfpn := by
  subst entry
  have sourceLt : ((pagingSwp (k.pte (caller, pageOf pgn))).setWidth 64).toNat < k.activeMswp.frames := by
    rw [BitVec.toNat_setWidth_of_le (by decide)]
    exact owned.swapped_lt swapped
  have targetLt : newfpn.toNat < k.mram.frames := owned.loose_lt
  have ramSmall := owned.ramSmall
  have swapSmall := owned.swapSmall
  obtain ⟨storage, copied, content⟩ := swapCpPage_spec env.uninit sourceLt targetLt (by omega) (by omega)
  refine ⟨({ k with
      activeMswp := k.activeMswp.putFreefp ((pagingSwp (k.pte (caller, pageOf pgn))).setWidth 64)
      mram := { k.mram with storage } } : Krnl Proc).setMm caller (((k.mms caller).setFpn pgn newfpn).enlistPgn pgn),
    ?_, ?_, ⟨rfl, rfl, rfl, rfl⟩, fun random => ?_, ?_⟩
  · rw [pageIn, copied]
    rfl
  · exact (owned.pageIn swapped).congr rfl rfl rfl rfl rfl fun _ => rfl
  · apply pageIn_bytes owned swapped rfl
    have cells := content random.2 random.1
    rw [BitVec.toNat_setWidth_of_le (by decide)] at cells
    exact cells
  · rw [pte_setMm _ caller ((pteAt_pteSetFpn _ pgn newfpn)), Function.update_self]
    rfl

/-- What a page fault leaves behind when it returns: a good state on the same devices
and, if the call brought the page in, the frame that its entry now names. -/
structure Fetched (k : Krnl Proc) (caller : Proc) (pgn : CInt) (code : Int) (fpn : Option CInt) (after : Krnl Proc) : Prop where
  good : Good after
  devices : SameDevices k after
  outcome : (code = -1 ∧ fpn = none) ∨
    (code = 0 ∧ (after.pte (caller, pageOf (intToAddr pgn))).resident = true ∧
      fpn = some (pagingFpn (after.pte (caller, pageOf (intToAddr pgn)))))

omit [DecidableEq Proc] in
private theorem Fetched.of_pageIn {pgn : CInt} {newfpn : Addr} {middle after : Krnl Proc} (small : newfpn.toNat < 2 ^ 13)
    (before : SameDevices k middle) (devices : SameDevices middle after) (good : Good after) {pte : Pte}
    (entry : after.pte (caller, pageOf (intToAddr pgn)) = pte.setFpn newfpn) :
    Fetched k caller pgn 0 (some (addrToInt newfpn)) after where
  good := good
  devices := before.trans devices
  outcome := by
    right
    refine ⟨rfl, by rw [entry, setFpn_resident], ?_⟩
    have number := congrArg addrToInt (pagingFpn_setFpn_of_lt pte newfpn small)
    rw [entry, ← number]
    simp [addrToInt]

theorem pgGetpage_hit {pgn : CInt} (resident : (k.pte (caller, pageOf (intToAddr pgn))).resident = true) :
    pgGetpage env k caller pgn = .ok (0, some (pagingFpn (k.pte (caller, pageOf (intToAddr pgn)))), k) := by
  simp only [Pte.resident, Bool.and_eq_true, Bool.not_eq_true'] at resident
  rw [pgGetpage, getEntry_eq_pte, if_neg (by simp [resident.1]), if_pos resident.2]
  rfl

/-- `pg_getpage` on any page of any process. It never leaves the devices; a fault can
only come from a freed pcb that the lookup reads. -/
theorem pgGetpage_spec (caller : Proc) (good : Good k) (pgn : CInt) :
    (pgGetpage env k caller pgn = .error .useAfterFree ∧ ¬env.Answers caller ∧ ¬env.Misses caller) ∨
    ∃ code fpn after, pgGetpage env k caller pgn = .ok (code, fpn, after) ∧ Fetched k caller pgn code fpn after ∧
      (env.Answers caller → RandomAccess k → after.bytes = k.bytes) := by
  have entry := getEntry_eq_pte k caller (intToAddr pgn)
  by_cases swapped : pagingPageSwapped (k.pte (caller, pageOf (intToAddr pgn))) = true
  · have absent := Pte.not_resident_of_swapped swapped
    cases free : k.mram.getFreefp with
    | some found =>
      -- RAM has a free frame
      obtain ⟨newfpn, mram⟩ := found
      have owned := good.getFreefp free
      obtain ⟨rest, list, rfl⟩ := getFreefp_some free
      have small : newfpn.toNat < 2 ^ 13 := Nat.lt_of_lt_of_le owned.loose_lt owned.ramSmall
      have takeOnly : SameDevices k { k with mram := { k.mram with freeFpList := rest } } := ⟨rfl, rfl, rfl, rfl⟩
      obtain ⟨after, ran, goodAfter, devices, bytes, newEntry⟩ := pageIn_spec env owned
        (show _ = k.pte (caller, pageOf (intToAddr pgn)) from rfl) swapped
      right
      refine ⟨0, some (addrToInt newfpn), after, ?_, .of_pageIn small takeOnly devices goodAfter newEntry, ?_⟩
      · rw [pgGetpage, entry, if_pos swapped]
        simp only [free, ran, Outcome.bind_ok]
        rfl
      · exact fun _ random => bytes random
    | none =>
      -- RAM is full: the caller's oldest page makes room
      rcases evictVictim_spec env caller good with ⟨failed, missing⟩ | ⟨evicted, middle, ran, owned, devices, bytes, untouched⟩
      · left
        refine ⟨?_, missing⟩
        rw [pgGetpage, entry, if_pos swapped]
        simp only [free, failed, Outcome.bind_error]
      · right
        cases evicted with
        | none =>
          refine ⟨-1, none, middle, ?_, ⟨owned, devices, .inl ⟨rfl, rfl⟩⟩, bytes⟩
          rw [pgGetpage, entry, if_pos swapped]
          simp only [free, ran, Outcome.bind_ok]
          rfl
        | some newfpn =>
          have same := untouched (caller, pageOf (intToAddr pgn)) absent
          have small : newfpn.toNat < 2 ^ 13 := Nat.lt_of_lt_of_le owned.loose_lt owned.ramSmall
          obtain ⟨after, pagedIn, goodAfter, later, lastBytes, newEntry⟩ := pageIn_spec env owned same swapped
          refine ⟨0, some (addrToInt newfpn), after, ?_, .of_pageIn small devices later goodAfter newEntry, ?_⟩
          · rw [pgGetpage, entry, if_pos swapped]
            simp only [free, ran, Outcome.bind_ok, pagedIn]
            rfl
          · exact fun finds random => (lastBytes (devices.random random)).trans (bytes finds random)
  · right
    by_cases present : pagingPagePresent (k.pte (caller, pageOf (intToAddr pgn))) = true
    · have resident : (k.pte (caller, pageOf (intToAddr pgn))).resident = true := by simp [Pte.resident, swapped, present]
      exact ⟨0, _, k, pgGetpage_hit env resident, ⟨good, .refl k, .inr ⟨rfl, resident, rfl⟩⟩, fun _ _ => rfl⟩
    · refine ⟨-1, none, k, ?_, ⟨good, .refl k, .inl ⟨rfl, rfl⟩⟩, fun _ _ => rfl⟩
      rw [pgGetpage, entry, if_neg swapped, if_neg present]
      rfl

end PageFault
end LamiaAtrium
