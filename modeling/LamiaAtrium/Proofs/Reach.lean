import LamiaAtrium.Proofs.PageMoves

/-! How far paging for one process reaches. The page that comes in is copied over the RAM frame
that it gets, and with RAM full the oldest page goes over the first free frame of the swap
device first. Nothing is assumed of the entries: the frames may be anybody's. -/

namespace LamiaAtrium
variable {Proc : Type}

section Cells

/-- One byte of a frame. -/
def Memphy.cell (mp : Memphy) (fpn : Addr) (offset : Fin pagingPagesz) : Byte := mp.storage (fpn.toNat * pagingPagesz + offset)

/-- A copy between random-access devices that returns stays on both, and copies one frame. -/
theorem swapCpPage_cells {uninit : Byte} {mpsrc mpdst src dst : Memphy} {srcfpn dstfpn : Addr} (fromRandom : mpsrc.rdmflg = true)
    (toRandom : mpdst.rdmflg = true) (smallSource : srcfpn.toNat < 2 ^ 32) (smallTarget : dstfpn.toNat < 2 ^ 32)
    (returned : swapCpPage uninit mpsrc srcfpn mpdst dstfpn = .ok (src, dst)) :
    srcfpn.toNat < mpsrc.frames ∧ dstfpn.toNat < mpdst.frames ∧ src = mpsrc ∧ mpdst.Rewritten dst ∧
      ∀ fpn offset, dst.cell fpn offset = if fpn = dstfpn then mpsrc.cell srcfpn offset else mpdst.cell fpn offset := by
  have source := swapCpPage_source fromRandom smallSource returned
  have target := swapCpPage_target toRandom smallTarget returned
  obtain ⟨storage, copied, content⟩ := swapCpPage_spec uninit source target smallSource smallTarget
  rw [copied] at returned
  cases returned
  refine ⟨source, target, rfl, ⟨rfl, rfl, rfl⟩, fun fpn offset => ?_⟩
  change storage _ = _
  rw [content fromRandom toRandom, copiedCells_cell _ _ _ _ _ _ offset.isLt]
  simp only [Memphy.cell, BitVec.toNat_inj]

theorem swapCpPage_returns (uninit : Byte) {mpsrc mpdst : Memphy} {srcfpn dstfpn : Addr} (source : srcfpn.toNat < mpsrc.frames)
    (target : dstfpn.toNat < mpdst.frames) (smallSource : srcfpn.toNat < 2 ^ 32) (smallTarget : dstfpn.toNat < 2 ^ 32) :
    ∃ dst, swapCpPage uninit mpsrc srcfpn mpdst dstfpn = .ok (mpsrc, dst) := by
  obtain ⟨storage, copied, _⟩ := swapCpPage_spec uninit source target smallSource smallTarget
  exact ⟨_, copied⟩

theorem addrToInt_toNat {fpn : Addr} (small : fpn.toNat < 2 ^ 32) : (addrToInt fpn).toNat = fpn.toNat := by
  rw [addrToInt, BitVec.toNat_setWidth]
  omega

theorem Pte.swapped_of_swapFrame {pte : Pte} {fpn : Addr} (frame : pte.swapFrame = some fpn) : pagingPageSwapped pte = true := by
  by_contra kept
  rw [Pte.swapFrame, if_neg kept] at frame
  cases frame

theorem Pte.ramFrame_of_swapFrame {pte : Pte} {fpn : Addr} (frame : pte.swapFrame = some fpn) : pte.ramFrame = none :=
  Pte.ramFrame_of_not_resident (Pte.not_resident_of_swapped (Pte.swapped_of_swapFrame frame))

end Cells

section Bytes
variable {k : Krnl Proc} {place : Proc × Page} {fpn : Addr}

theorem bytes_of_ramFrame (holds : (k.pte place).ramFrame = some fpn) (offset : Fin pagingPagesz) :
    k.bytes place offset = some (k.mram.cell fpn offset) := by
  have resident : (k.pte place).resident = true := by
    by_contra absent
    rw [Pte.ramFrame, if_neg absent] at holds
    cases holds
  rw [Pte.ramFrame, if_pos resident] at holds
  cases holds
  rw [Krnl.bytes, Pte.byte_of_resident resident, Memphy.cell, BitVec.toNat_setWidth_of_le (by decide)]

theorem bytes_of_swapFrame (holds : (k.pte place).swapFrame = some fpn) (offset : Fin pagingPagesz) :
    k.bytes place offset = some (k.activeMswp.cell fpn offset) := by
  have swapped := Pte.swapped_of_swapFrame holds
  rw [Pte.swapFrame, if_pos swapped] at holds
  cases holds
  rw [Krnl.bytes, Pte.byte_of_swapped swapped, Memphy.cell, BitVec.toNat_setWidth_of_le (by decide)]

end Bytes

/-- A random access device, its size an `int`, with the free list that `MEMPHY_format` builds. -/
structure Memphy.Formatted (mp : Memphy) : Prop where
  random : mp.rdmflg = true
  size : mp.maxsz < 2 ^ 31
  free : mp.freeFpList = (List.range mp.frames).map (BitVec.ofNat 64)

theorem Memphy.Formatted.frames_lt {mp : Memphy} (formatted : mp.Formatted) : mp.frames < 2 ^ 23 := by
  have size := formatted.size
  rw [Memphy.frames, pagingPagesz]
  omega

theorem Memphy.Formatted.free_lt {mp : Memphy} (formatted : mp.Formatted) {fpn : Addr} (member : fpn ∈ mp.freeFpList) :
    fpn.toNat < mp.frames := by
  have few := formatted.frames_lt
  rw [formatted.free] at member
  obtain ⟨number, inside, rfl⟩ := List.mem_map.mp member
  have inside := List.mem_range.mp inside
  rwa [BitVec.toNat_ofNat, Nat.mod_eq_of_lt (by omega)]

/-- The devices as `MEMPHY_format` leaves them, up to what is free: random access, their sizes
`int`s, and the free frames on them. -/
structure InOrder (k : Krnl Proc) : Prop where
  random : RandomAccess k
  ramSize : k.mram.frames < 2 ^ 23
  swapSize : k.activeMswp.frames < 2 ^ 23
  ramFree : ∀ fpn ∈ k.mram.freeFpList, fpn.toNat < k.mram.frames
  swapFree : ∀ fpn ∈ k.activeMswp.freeFpList, fpn.toNat < k.activeMswp.frames

theorem Good.inOrder {k : Krnl Proc} (good : Good k) (random : RandomAccess k) : InOrder k where
  random := random
  ramSize := Nat.lt_of_le_of_lt good.ramSmall (by decide)
  swapSize := Nat.lt_of_le_of_lt good.swapSmall (by decide)
  ramFree _ := good.ram.free_mem
  swapFree _ := good.swap.free_mem

theorem InOrder.of_formatted {k : Krnl Proc} (ram : k.mram.Formatted) (swap : k.activeMswp.Formatted) : InOrder k where
  random := ⟨ram.random, swap.random⟩
  ramSize := ram.frames_lt
  swapSize := swap.frames_lt
  ramFree _ := ram.free_lt
  swapFree _ := swap.free_lt

section Order
variable {k after : Krnl Proc}

/-- Other bytes on the devices, and no free frame that was not free or is on the device. -/
theorem InOrder.moved (order : InOrder k) (devices : SameDevices k after)
    (ram : ∀ fpn ∈ after.mram.freeFpList, fpn ∈ k.mram.freeFpList)
    (swap : ∀ fpn ∈ after.activeMswp.freeFpList, fpn ∈ k.activeMswp.freeFpList ∨ fpn.toNat < k.activeMswp.frames) : InOrder after := by
  have ramFrames : after.mram.frames = k.mram.frames := by rw [Memphy.frames, Memphy.frames, devices.ramSize]
  have swapFrames : after.activeMswp.frames = k.activeMswp.frames := by rw [Memphy.frames, Memphy.frames, devices.swapSize]
  refine ⟨devices.random order.random, ramFrames ▸ order.ramSize, swapFrames ▸ order.swapSize, fun fpn member => ?_, fun fpn member => ?_⟩
  · exact ramFrames ▸ order.ramFree fpn (ram fpn member)
  · rw [swapFrames]
    rcases swap fpn member with free | inside
    · exact order.swapFree fpn free
    · exact inside

theorem InOrder.rewritten (order : InOrder k) (ram : k.mram.Rewritten after.mram) (swap : k.activeMswp.Rewritten after.activeMswp) :
    InOrder after := by
  refine order.moved ⟨ram.maxsz, ram.rdmflg, swap.maxsz, swap.rdmflg⟩ (fun fpn member => ?_) fun fpn member => .inl ?_
  · exact ram.freeFpList ▸ member
  · exact swap.freeFpList ▸ member

end Order

/-- The process whose memory a system call of `p` works on. -/
def Env.lookup (env : Env Proc) (p : Proc) : Outcome (Option Proc) := do
  let pid ← env.callerPid p
  env.findCaller pid

theorem Env.lookup_eq {env : Env Proc} {p : Proc} {pid : CInt} {found : Option Proc} (known : env.callerPid p = .ok pid)
    (answer : env.findCaller pid = .ok found) : env.lookup p = .ok found := by
  rw [lookup, known, Outcome.bind_ok, answer]

section Ways

/-- How a page on the swap device comes in: not at all; to a free frame of RAM; or to the frame of
the oldest page, which first goes to the first free frame of the swap device. -/
inductive Way where
  | stuck
  | free
  | evict (vicfpn vicSwpfpn : Addr)

def wayIn (ramFree swapFree : List Addr) (oldest : Option Addr) : Way :=
  match ramFree, swapFree, oldest with
  | _ :: _, _, _ => .free
  | [], vicSwpfpn :: _, some vicfpn => .evict vicfpn vicSwpfpn
  | [], _, _ => .stuck

/-- The RAM frame that the entry of the last page of a FIFO names, resident or not. -/
def Krnl.frameOfOldest (k : Krnl Proc) (p : Proc) (fifoPgn : List Addr) : Option Addr :=
  fifoPgn.getLast?.map fun pgn => (pagingFpn (k.pte (p, pageOf pgn))).setWidth 64

def Krnl.way (k : Krnl Proc) (p : Proc) : Way :=
  wayIn k.mram.freeFpList k.activeMswp.freeFpList (k.frameOfOldest p (k.mms p).fifoPgn)

variable {ramFree swapFree : List Addr} {oldest : Option Addr} {vicfpn vicSwpfpn : Addr} {k : Krnl Proc} {p : Proc}

theorem wayIn_free (some : ramFree ≠ []) : wayIn ramFree swapFree oldest = .free := by
  cases ramFree with
  | nil => exact absurd rfl some
  | cons fpn rest => rfl

theorem wayIn_evict_iff : wayIn ramFree swapFree oldest = .evict vicfpn vicSwpfpn ↔
    ramFree = [] ∧ oldest = some vicfpn ∧ swapFree.head? = some vicSwpfpn := by
  cases ramFree with
  | cons fpn rest => simp [wayIn]
  | nil =>
    cases swapFree with
    | nil => simp [wayIn]
    | cons first rest => cases oldest <;> simp [wayIn]

theorem wayIn_stuck_iff : wayIn ramFree swapFree oldest = .stuck ↔ ramFree = [] ∧ (oldest = none ∨ swapFree = []) := by
  cases ramFree with
  | cons fpn rest => simp [wayIn]
  | nil =>
    cases swapFree with
    | nil => simp [wayIn]
    | cons first rest => cases oldest <;> simp [wayIn]

/-- The two cases of `find_victim_page`. -/
theorem findVictimPage_cases (k : Krnl Proc) (p : Proc) :
    (findVictimPage (k.mms p) = none ∧ k.frameOfOldest p (k.mms p).fifoPgn = none) ∨
      ∃ vicpgn fifoPgn, findVictimPage (k.mms p) = some (vicpgn, { k.mms p with fifoPgn }) ∧
        k.frameOfOldest p (k.mms p).fifoPgn = some ((pagingFpn (k.pte (p, pageOf vicpgn))).setWidth 64) := by
  rw [findVictimPage]
  cases popped : popOldest (k.mms p).fifoPgn with
  | none =>
    rw [popOldest_none] at popped
    exact .inl ⟨rfl, by rw [popped]; rfl⟩
  | some result =>
    obtain ⟨vicpgn, fifoPgn⟩ := result
    refine .inr ⟨vicpgn, fifoPgn, rfl, ?_⟩
    rw [popOldest_eq popped, Krnl.frameOfOldest, List.getLast?_concat]
    rfl

end Ways

variable [DecidableEq Proc] {env : Env Proc} {k after : Krnl Proc} {p : Proc} {code : Int}

section Evictions
variable {vicpgn vicSwpfpn : Addr} {rest : List Addr}

/-- The eviction past its two checks. -/
theorem evictVictim_goes {fifoPgn : List Addr} (victim : findVictimPage (k.mms p) = some (vicpgn, { k.mms p with fifoPgn }))
    (free : k.activeMswp.freeFpList = vicSwpfpn :: rest) : evictVictim env k p = (do
      let pid ← env.callerPid p
      let vicfpn : Addr := (pagingFpn (k.pte (p, pageOf vicpgn))).setWidth 64
      let called ← syscall env { k.setMm p { k.mms p with fifoPgn } with activeMswp := { k.activeMswp with freeFpList := rest } } pid 17
        { a1 := 3, a2 := vicfpn, a3 := vicSwpfpn }
      return (some vicfpn, called.2.2.setMm p ((called.2.2.mms p).setSwap vicpgn called.2.2.activeMswpId vicSwpfpn))) := by
  have entry : ({ k.mms p with fifoPgn } : Mm).getEntry vicpgn = k.pte (p, pageOf vicpgn) := getEntry_eq_pte k p vicpgn
  rw [evictVictim, victim]
  simp only [Krnl.setMm_activeMswp, Memphy.getFreefp_cons free, entry]

/-- The eviction stops where there is nothing to evict or no room for it. -/
theorem evictVictim_stuck (env : Env Proc) (stuck : k.frameOfOldest p (k.mms p).fifoPgn = none ∨ k.activeMswp.freeFpList = []) :
    ∃ middle, evictVictim env k p = .ok (none, middle) ∧ middle.mram = k.mram ∧ middle.activeMswp = k.activeMswp := by
  rw [evictVictim]
  rcases findVictimPage_cases k p with ⟨victim, _⟩ | ⟨vicpgn, fifoPgn, victim, oldest⟩
  · rw [victim]
    exact ⟨k, rfl, rfl, rfl⟩
  · have full : k.activeMswp.freeFpList = [] := by
      rcases stuck with none | full
      · rw [oldest] at none
        cases none
      · exact full
    rw [victim]
    simp only [Krnl.setMm_activeMswp, Memphy.getFreefp_nil full]
    exact ⟨_, rfl, rfl, rfl⟩

/-- An eviction that returns has a RAM frame, and has copied it if the search found a process. -/
theorem evictVictim_cells (order : InOrder k) {evicted : Option Addr} (returned : evictVictim env k p = .ok (evicted, after)) :
    (evicted = none ∧ (k.frameOfOldest p (k.mms p).fifoPgn = none ∨ k.activeMswp.freeFpList = []) ∧
        after.mram = k.mram ∧ after.activeMswp = k.activeMswp) ∨
      ∃ vicfpn vicSwpfpn rest found, evicted = some vicfpn ∧ k.frameOfOldest p (k.mms p).fifoPgn = some vicfpn ∧
        k.activeMswp.freeFpList = vicSwpfpn :: rest ∧ env.lookup p = .ok found ∧ vicfpn.toNat < 2 ^ 13 ∧ after.mram = k.mram ∧
        ({ k.activeMswp with freeFpList := rest } : Memphy).Rewritten after.activeMswp ∧
        ∀ fpn offset, after.activeMswp.cell fpn offset =
          if fpn = vicSwpfpn ∧ found.isSome then k.mram.cell vicfpn offset else k.activeMswp.cell fpn offset := by
  rcases findVictimPage_cases k p with ⟨_, oldest⟩ | ⟨vicpgn, fifoPgn, victim, oldest⟩
  · obtain ⟨middle, stopped, ram, swap⟩ := evictVictim_stuck env (.inl oldest)
    rw [stopped] at returned
    cases returned
    exact .inl ⟨rfl, .inl oldest, ram, swap⟩
  · cases free : k.activeMswp.freeFpList with
    | nil =>
      obtain ⟨middle, stopped, ram, swap⟩ := evictVictim_stuck env (.inr free)
      rw [stopped] at returned
      cases returned
      exact .inl ⟨rfl, .inr rfl, ram, swap⟩
    | cons vicSwpfpn rest =>
      rw [evictVictim_goes victim free] at returned
      obtain ⟨pid, known, returned⟩ := Outcome.bind_eq_ok returned
      obtain ⟨⟨_, _, copied⟩, swapped, returned⟩ := Outcome.bind_eq_ok returned
      cases returned
      have small : ((pagingFpn (k.pte (p, pageOf vicpgn))).setWidth 64 : Addr).toNat < 2 ^ 13 := by
        rw [BitVec.toNat_setWidth_of_le (by decide)]
        exact pagingFpn_lt _
      have target := order.swapFree vicSwpfpn (free ▸ List.mem_cons_self)
      have swapSize := order.swapSize
      rcases syscall_answered swapped with ⟨missing, same⟩ | ⟨other, found⟩
      · cases same
        exact .inr ⟨_, vicSwpfpn, rest, none, rfl, oldest, rfl, Env.lookup_eq known missing, small, rfl, .refl _, fun _ _ => by simp; rfl⟩
      · refine .inr ⟨_, vicSwpfpn, rest, some other, rfl, oldest, rfl, Env.lookup_eq known found, small, ?_⟩
        have smallSource : ((pagingFpn (k.pte (p, pageOf vicpgn))).setWidth 64 : Addr).toNat < 2 ^ 32 := by omega
        have smallTarget : vicSwpfpn.toNat < 2 ^ 32 := by omega
        rw [syscall_swp found, mmSwapPage, addrParam_of_lt smallSource, addrParam_of_lt smallTarget] at swapped
        obtain ⟨last, moved, swapped⟩ := Outcome.bind_eq_ok swapped
        cases swapped
        obtain ⟨⟨mram, activeMswp⟩, cells, moved⟩ := Outcome.bind_eq_ok moved
        cases moved
        change swapCpPage env.uninit k.mram _ { k.activeMswp with freeFpList := rest } vicSwpfpn = _ at cells
        have toRandom : ({ k.activeMswp with freeFpList := rest } : Memphy).rdmflg = true := order.random.2
        obtain ⟨_, _, rfl, rewritten, content⟩ := swapCpPage_cells order.random.1 toRandom smallSource smallTarget cells
        refine ⟨rfl, rewritten, fun fpn offset => ?_⟩
        simp only [Option.isSome_some, and_true]
        exact content fpn offset

end Evictions

section Fetches
variable {page : Page} {pgn : CInt} {fpn : Option CInt} {frame : Option Addr}

/-- What `pg_getpage` did to the devices when it returned this frame for a page of `p`. -/
inductive Paged (env : Env Proc) (k : Krnl Proc) (p : Proc) (page : Page) : Option Addr → Krnl Proc → Prop where
  | stuck {after : Krnl Proc} (ram : after.mram = k.mram) (swap : after.activeMswp = k.activeMswp)
      (absent : (k.pte (p, page)).ramFrame = none) (stuck : ∀ fpn, (k.pte (p, page)).swapFrame = some fpn → k.way p = .stuck) :
      Paged env k p page none after
  | hit {fpn : Addr} (frame : (k.pte (p, page)).ramFrame = some fpn) : Paged env k p page (some fpn) k
  | took {newfpn reqSwpfpn : Addr} {rest : List Addr} {after : Krnl Proc} (frame : (k.pte (p, page)).swapFrame = some reqSwpfpn)
      (free : k.mram.freeFpList = newfpn :: rest) (source : reqSwpfpn.toNat < k.activeMswp.frames)
      (ram : ({ k.mram with freeFpList := rest } : Memphy).Rewritten after.mram)
      (swap : after.activeMswp = k.activeMswp.putFreefp reqSwpfpn)
      (cells : ∀ fpn offset, after.mram.cell fpn offset =
        if fpn = newfpn then k.activeMswp.cell reqSwpfpn offset else k.mram.cell fpn offset) :
      Paged env k p page (some newfpn) after
  | traded {vicfpn vicSwpfpn reqSwpfpn : Addr} {rest : List Addr} {found : Option Proc} {after : Krnl Proc}
      (frame : (k.pte (p, page)).swapFrame = some reqSwpfpn) (full : k.mram.freeFpList = [])
      (oldest : k.frameOfOldest p (k.mms p).fifoPgn = some vicfpn) (free : k.activeMswp.freeFpList = vicSwpfpn :: rest)
      (known : env.lookup p = .ok found) (source : reqSwpfpn.toNat < k.activeMswp.frames) (target : vicfpn.toNat < k.mram.frames)
      (ram : k.mram.Rewritten after.mram) (swap : ({ k.activeMswp with freeFpList := reqSwpfpn :: rest } : Memphy).Rewritten after.activeMswp)
      (swapCells : ∀ fpn offset, after.activeMswp.cell fpn offset =
        if fpn = vicSwpfpn ∧ found.isSome then k.mram.cell vicfpn offset else k.activeMswp.cell fpn offset)
      (ramCells : ∀ fpn offset, after.mram.cell fpn offset =
        if fpn = vicfpn then after.activeMswp.cell reqSwpfpn offset else k.mram.cell fpn offset) :
      Paged env k p page (some vicfpn) after

theorem pageIn_cells {pgn reqSwpfpn newfpn : Addr} (random : RandomAccess k) (smallSource : reqSwpfpn.toNat < 2 ^ 32)
    (smallTarget : newfpn.toNat < 2 ^ 32) (returned : pageIn env k p pgn reqSwpfpn newfpn = .ok after) :
    reqSwpfpn.toNat < k.activeMswp.frames ∧ newfpn.toNat < k.mram.frames ∧ k.mram.Rewritten after.mram ∧
      after.activeMswp = k.activeMswp.putFreefp reqSwpfpn ∧
      ∀ fpn offset, after.mram.cell fpn offset = if fpn = newfpn then k.activeMswp.cell reqSwpfpn offset else k.mram.cell fpn offset := by
  obtain ⟨⟨activeMswp, mram⟩, copied, returned⟩ := Outcome.bind_eq_ok returned
  cases returned
  obtain ⟨source, target, rfl, rewritten, content⟩ := swapCpPage_cells random.2 random.1 smallSource smallTarget copied
  exact ⟨source, target, rewritten, rfl, content⟩

theorem pgGetpage_paged (order : InOrder k) (returned : pgGetpage env k p pgn = .ok (code, fpn, after)) :
    ∃ frame, fpn = frame.map addrToInt ∧ Paged env k p (pageOf (intToAddr pgn)) frame after := by
  unfold pgGetpage at returned
  rw [getEntry_eq_pte] at returned
  dsimp only at returned
  have ramSize := order.ramSize
  split at returned
  · next swapped =>
    have frame := Pte.swapFrame_of_swapped swapped
    have absent : (k.pte (p, pageOf (intToAddr pgn))).ramFrame = none := Pte.ramFrame_of_not_resident (Pte.not_resident_of_swapped swapped)
    have small : ((pagingSwp (k.pte (p, pageOf (intToAddr pgn)))).setWidth 64 : Addr).toNat < 2 ^ 32 := by
      rw [BitVec.toNat_setWidth_of_le (by decide)]
      exact BitVec.isLt _
    split at returned
    · next newfpn mram taken =>
      obtain ⟨rest, list, rfl⟩ := getFreefp_some taken
      have inside := order.ramFree newfpn (list ▸ List.mem_cons_self)
      obtain ⟨paged, came, returned⟩ := Outcome.bind_eq_ok returned
      cases returned
      have random : RandomAccess { k with mram := { k.mram with freeFpList := rest } } := order.random
      obtain ⟨source, _, ram, swap, content⟩ := pageIn_cells random small (by omega) came
      exact ⟨some newfpn, rfl, .took frame list source ram swap content⟩
    · next full =>
      have full : k.mram.freeFpList = [] := by
        cases list : k.mram.freeFpList with
        | nil => rfl
        | cons newfpn rest => rw [Memphy.getFreefp_cons list] at full; cases full
      obtain ⟨⟨evicted, middle⟩, ran, returned⟩ := Outcome.bind_eq_ok returned
      rcases evictVictim_cells order ran with ⟨rfl, stuck, ram, swap⟩ |
        ⟨vicfpn, vicSwpfpn, rest, found, rfl, oldest, free, known, smallVictim, ram, rewritten, cells⟩
      · cases returned
        exact ⟨none, rfl, .stuck ram swap absent fun _ _ => wayIn_stuck_iff.mpr ⟨full, stuck⟩⟩
      · obtain ⟨paged, came, returned⟩ := Outcome.bind_eq_ok returned
        cases returned
        have random : RandomAccess middle := ⟨by rw [ram]; exact order.random.1, rewritten.rdmflg.trans order.random.2⟩
        obtain ⟨source, target, moved, swap, content⟩ := pageIn_cells random small (by omega) came
        have swapCells (fpn : Addr) (offset : Fin pagingPagesz) : after.activeMswp.cell fpn offset = middle.activeMswp.cell fpn offset := by
          rw [swap]
          rfl
        refine ⟨some vicfpn, rfl, .traded frame full oldest free known ?_ (ram ▸ target) (ram ▸ moved) ⟨?_, ?_, ?_⟩
          (fun fpn offset => ?_) fun fpn offset => ?_⟩
        · rw [Memphy.frames, rewritten.maxsz] at source
          exact source
        · rw [swap]
          exact rewritten.rdmflg
        · rw [swap]
          exact rewritten.maxsz
        · rw [swap, Memphy.putFreefp, rewritten.freeFpList]
        · rw [swapCells, cells]
        · rw [content, swapCells, ram]
  · next kept =>
    split at returned
    · next present =>
      cases returned
      have resident : (k.pte (p, pageOf (intToAddr pgn))).resident = true := by simp [Pte.resident, kept, present]
      exact ⟨_, by simp [addrToInt], .hit (Pte.ramFrame_of_resident resident)⟩
    · next absent =>
      cases returned
      refine ⟨none, rfl, .stuck rfl rfl (Pte.ramFrame_of_not_resident ?_) fun fpn holds => ?_⟩
      · simp [Pte.resident, absent]
      · rw [Pte.swapFrame, if_neg kept] at holds
        cases holds

omit [DecidableEq Proc] in
/-- The frame of RAM has a number that an `int` address has room for. -/
theorem Paged.small {fpn : Addr} (paged : Paged env k p page (some fpn) after) (order : InOrder k) : fpn.toNat < 2 ^ 23 := by
  have ramSize := order.ramSize
  cases paged with
  | hit frame => exact Nat.lt_trans (Pte.ramFrame_lt frame) (by decide)
  | took _ free => exact Nat.lt_trans (order.ramFree fpn (free ▸ List.mem_cons_self)) ramSize
  | traded _ _ _ _ _ _ target => exact Nat.lt_trans target ramSize

omit [DecidableEq Proc] in
theorem Paged.inOrder (paged : Paged env k p page frame after) (order : InOrder k) : InOrder after := by
  cases paged with
  | stuck ram swap => exact order.rewritten (ram ▸ .refl _) (swap ▸ .refl _)
  | hit => exact order
  | took frame free source ram swap _ =>
    refine order.moved ⟨ram.maxsz, ram.rdmflg, by rw [swap]; rfl, by rw [swap]; rfl⟩ (fun fpn member => ?_) fun fpn member => ?_
    · rw [ram.freeFpList] at member
      exact free ▸ List.mem_cons_of_mem _ member
    · rw [swap] at member
      rcases List.mem_cons.mp member with rfl | member
      · exact .inr source
      · exact .inl member
  | traded frame full oldest free known source target ram swap _ _ =>
    refine order.moved ⟨ram.maxsz, ram.rdmflg, swap.maxsz, swap.rdmflg⟩ (fun fpn member => ?_) fun fpn member => ?_
    · exact ram.freeFpList ▸ member
    · rw [swap.freeFpList] at member
      rcases List.mem_cons.mp member with rfl | member
      · exact .inr source
      · exact .inl (free ▸ List.mem_cons_of_mem _ member)

end Fetches
end LamiaAtrium
