import LamiaAtrium.Proofs.Instructions

/-! Where `pg_getpage` leaves the frames: which entries of the process it rewrites, what it
takes from the free lists and what it gives back. Nothing is assumed about the entries. -/

namespace LamiaAtrium
variable {Proc : Type} [DecidableEq Proc] {env : Env Proc} {k middle after : Krnl Proc} {p : Proc} {code : Int}

/-- The two entries that change when page `pgn` gets the frame of page `vicpgn`. -/
def tradedEntries (k : Krnl Proc) (p : Proc) (pgn vicpgn : Addr) (swapped resident : Pte) : Proc × Page → Pte :=
  Function.update (Function.update k.pte (p, pageOf vicpgn) swapped) (p, pageOf pgn) resident

/-- What `pg_getpage` does with page `pgn`: nothing, where the page is not swapped or neither
device has a frame for it; or the page comes in on a free frame, or on that of the oldest page. -/
inductive PageMove (k : Krnl Proc) (p : Proc) (pgn : Addr) (after : Krnl Proc) : Prop where
  | still : after.pte = k.pte → after.mram.freeFpList = k.mram.freeFpList →
      after.activeMswp.freeFpList = k.activeMswp.freeFpList → (after.mms p).fifoPgn.Sublist (k.mms p).fifoPgn →
      (pagingPageSwapped (k.pte (p, pageOf pgn)) = true →
        k.mram.freeFpList = [] ∧ ((k.mms p).fifoPgn = [] ∨ k.activeMswp.freeFpList = [])) → PageMove k p pgn after
  | took (newfpn reqSwpfpn : Addr) : (k.pte (p, pageOf pgn)).swapFrame = some reqSwpfpn →
      reqSwpfpn.toNat < k.activeMswp.frames → k.mram.freeFpList = newfpn :: after.mram.freeFpList →
      after.activeMswp.freeFpList = reqSwpfpn :: k.activeMswp.freeFpList → (after.mms p).fifoPgn = pgn :: (k.mms p).fifoPgn →
      after.pte = Function.update k.pte (p, pageOf pgn) ((k.pte (p, pageOf pgn)).setFpn newfpn) → PageMove k p pgn after
  | traded (reqSwpfpn vicpgn vicSwpfpn : Addr) (fifo rest : List Addr) (swptyp : CInt) (entry : Pte) :
      (k.pte (p, pageOf pgn)).swapFrame = some reqSwpfpn → reqSwpfpn.toNat < k.activeMswp.frames →
      k.mram.freeFpList = [] → after.mram.freeFpList = [] →
      k.activeMswp.freeFpList = vicSwpfpn :: rest → after.activeMswp.freeFpList = reqSwpfpn :: rest →
      (k.mms p).fifoPgn = fifo ++ [vicpgn] → (after.mms p).fifoPgn = pgn :: fifo →
      after.pte = tradedEntries k p pgn vicpgn ((k.pte (p, pageOf vicpgn)).setSwap swptyp vicSwpfpn)
        (entry.setFpn ((pagingFpn (k.pte (p, pageOf vicpgn))).setWidth 64)) → PageMove k p pgn after

theorem syscall_swap_devices {pid : CInt} {a2 a3 : Addr} {regs : ScRegs}
    (returned : syscall env k pid 17 { a1 := 3, a2, a3 } = .ok (code, regs, after)) :
    after.mram = k.mram ∧ k.activeMswp.Rewritten after.activeMswp := by
  rcases syscall_answered returned with ⟨_, same⟩ | ⟨other, found⟩
  · cases same
    exact ⟨rfl, .refl _⟩
  · rw [syscall_swp found] at returned
    obtain ⟨last, moved, returned⟩ := Outcome.bind_eq_ok returned
    cases returned
    obtain ⟨⟨mram, activeMswp⟩, cells, moved⟩ := Outcome.bind_eq_ok moved
    cases moved
    exact swapCpPage_rewritten cells

/-- The eviction stopped, with the FIFO one page shorter at most, or the vicpgn page has the
first free frame of the swap device and its RAM frame is in flight. -/
theorem evictVictim_move {evicted : Option Addr} (returned : evictVictim env k p = .ok (evicted, after)) :
    SameDevices k after ∧ after.mram.freeFpList = k.mram.freeFpList ∧
      ((evicted = none ∧ after.pte = k.pte ∧ after.activeMswp.freeFpList = k.activeMswp.freeFpList ∧
          (after.mms p).fifoPgn.Sublist (k.mms p).fifoPgn ∧ ((k.mms p).fifoPgn = [] ∨ k.activeMswp.freeFpList = [])) ∨
        ∃ vicpgn vicSwpfpn fifo swptyp, evicted = some ((pagingFpn (k.pte (p, pageOf vicpgn))).setWidth 64) ∧
          (k.mms p).fifoPgn = fifo ++ [vicpgn] ∧ (after.mms p).fifoPgn = fifo ∧
          k.activeMswp.freeFpList = vicSwpfpn :: after.activeMswp.freeFpList ∧
          after.pte = Function.update k.pte (p, pageOf vicpgn) ((k.pte (p, pageOf vicpgn)).setSwap swptyp vicSwpfpn)) := by
  unfold evictVictim at returned
  cases victim : findVictimPage (k.mms p) with
  | none =>
    rw [victim] at returned
    cases returned
    rw [findVictimPage, Option.map_eq_none_iff, popOldest_none] at victim
    exact ⟨.refl k, rfl, .inl ⟨rfl, rfl, rfl, List.Sublist.refl _, .inl victim⟩⟩
  | some found =>
    obtain ⟨vicpgn, mm⟩ := found
    rw [findVictimPage, Option.map_eq_some_iff] at victim
    obtain ⟨⟨oldest, fifo⟩, popped, same⟩ := victim
    cases same
    have list := popOldest_eq popped
    rw [findVictimPage, popped] at returned
    have entries : (k.setMm p { k.mms p with fifoPgn := fifo }).pte = k.pte := pte_setMm_of_pgd k p rfl
    have entry : ({ k.mms p with fifoPgn := fifo } : Mm).getEntry vicpgn = k.pte (p, pageOf vicpgn) := getEntry_eq_pte k p vicpgn
    simp only [Option.map_some, Krnl.setMm_activeMswp, entry] at returned
    cases free : k.activeMswp.freeFpList with
    | nil =>
      rw [Memphy.getFreefp_nil free] at returned
      cases returned
      refine ⟨⟨rfl, rfl, rfl, rfl⟩, rfl, .inl ⟨rfl, entries, free, ?_, .inr rfl⟩⟩
      rw [Krnl.setMm_same, list]
      exact List.sublist_append_left _ _
    | cons vicSwpfpn rest =>
      rw [Memphy.getFreefp_cons free] at returned
      obtain ⟨pid, _, returned⟩ := Outcome.bind_eq_ok returned
      obtain ⟨⟨_, _, copied⟩, swapped, returned⟩ := Outcome.bind_eq_ok returned
      cases returned
      obtain ⟨ram, swap⟩ := syscall_swap_devices swapped
      obtain ⟨_, tables⟩ := syscall_swap_mms swapped
      refine ⟨⟨congrArg Memphy.maxsz ram, congrArg Memphy.rdmflg ram, swap.maxsz, swap.rdmflg⟩, congrArg Memphy.freeFpList ram,
        .inr ⟨vicpgn, vicSwpfpn, fifo, copied.activeMswpId, rfl, list, ?_, ?_, ?_⟩⟩
      · rw [Krnl.setMm_same, tables]
        exact congrArg Mm.fifoPgn (Krnl.setMm_same k p _)
      · rw [Krnl.setMm_activeMswp, swap.freeFpList]
      · have before : copied.pte = k.pte := by
          funext place
          rw [← entries, Krnl.pte, tables]
          rfl
        rw [← before]
        exact pte_setMm copied p (pteAt_pteSetSwap _ vicpgn _ vicSwpfpn)

theorem pageIn_move {pgn reqSwpfpn newfpn : Addr} (random : RandomAccess k) (small : reqSwpfpn.toNat < 2 ^ 32)
    (returned : pageIn env k p pgn reqSwpfpn newfpn = .ok after) :
    reqSwpfpn.toNat < k.activeMswp.frames ∧ SameDevices k after ∧ after.mram.freeFpList = k.mram.freeFpList ∧
      after.activeMswp.freeFpList = reqSwpfpn :: k.activeMswp.freeFpList ∧ (after.mms p).fifoPgn = pgn :: (k.mms p).fifoPgn ∧
      after.pte = Function.update k.pte (p, pageOf pgn) ((k.pte (p, pageOf pgn)).setFpn newfpn) := by
  obtain ⟨⟨activeMswp, mram⟩, copied, returned⟩ := Outcome.bind_eq_ok returned
  cases returned
  have inside := swapCpPage_source random.2 small copied
  obtain ⟨rfl, ram⟩ := swapCpPage_rewritten copied
  refine ⟨inside, ⟨ram.maxsz, ram.rdmflg, rfl, rfl⟩, ram.freeFpList, rfl, ?_, ?_⟩
  · rw [Krnl.setMm_same]
    rfl
  · exact pte_setMm ({ k with activeMswp := k.activeMswp.putFreefp reqSwpfpn, mram } : Krnl Proc) p (pteAt_pteSetFpn _ pgn newfpn)

theorem pgGetpage_move {pgn : CInt} {fpn : Option CInt} (random : RandomAccess k)
    (returned : pgGetpage env k p pgn = .ok (code, fpn, after)) : SameDevices k after ∧ PageMove k p (intToAddr pgn) after := by
  unfold pgGetpage at returned
  rw [getEntry_eq_pte] at returned
  dsimp only at returned
  split at returned
  · next swapped =>
    have frame := Pte.swapFrame_of_swapped swapped
    have small : ((pagingSwp (k.pte (p, pageOf (intToAddr pgn)))).setWidth 64 : Addr).toNat < 2 ^ 32 := by
      rw [BitVec.toNat_setWidth_of_le (by decide)]
      exact BitVec.isLt _
    split at returned
    · next newfpn mram taken =>
      obtain ⟨rest, list, rfl⟩ := getFreefp_some taken
      obtain ⟨paged, came, returned⟩ := Outcome.bind_eq_ok returned
      cases returned
      have taken : RandomAccess { k with mram := { k.mram with freeFpList := rest } } := random
      obtain ⟨inside, devices, ram, swap, fifo, entries⟩ := pageIn_move taken small came
      refine ⟨⟨devices.1, devices.2, devices.3, devices.4⟩, .took newfpn _ frame inside ?_ swap fifo entries⟩
      rw [list, ram]
    · next full =>
      have full : k.mram.freeFpList = [] := by
        cases list : k.mram.freeFpList with
        | nil => rfl
        | cons newfpn rest => rw [Memphy.getFreefp_cons list] at full; cases full
      obtain ⟨⟨evicted, middle⟩, ran, returned⟩ := Outcome.bind_eq_ok returned
      obtain ⟨first, ramKept, ⟨rfl, entries, swap, fifo, stuck⟩ | ⟨vicpgn, vicSwpfpn, fifo, swptyp, rfl, list, listed, free, entries⟩⟩ :=
        evictVictim_move ran
      · cases returned
        exact ⟨first, .still entries ramKept swap fifo fun _ => ⟨full, stuck⟩⟩
      · obtain ⟨paged, came, returned⟩ := Outcome.bind_eq_ok returned
        cases returned
        obtain ⟨inside, second, ram, swap, fifoAfter, entriesAfter⟩ := pageIn_move (first.random random) small came
        refine ⟨first.trans second, .traded _ vicpgn vicSwpfpn fifo middle.activeMswp.freeFpList swptyp (middle.pte (p, pageOf (intToAddr pgn)))
          frame ?_ full ?_ free swap list ?_ ?_⟩
        · rw [Memphy.frames, first.swapSize] at inside
          exact inside
        · rw [ram, ramKept, full]
        · rw [fifoAfter, listed]
        · rw [entriesAfter, tradedEntries, ← entries]
  · next kept =>
    have still : SameDevices k k ∧ PageMove k p (intToAddr pgn) k :=
      ⟨.refl k, .still rfl rfl rfl (List.Sublist.refl _) fun swapped => absurd swapped kept⟩
    split at returned <;> cases returned <;> exact still

end LamiaAtrium
