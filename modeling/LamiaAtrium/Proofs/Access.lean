import LamiaAtrium.Proofs.Bounds

/-! What a byte access reports. `pg_getpage` says whether it has the page; what the system
calls below it say is lost. Nothing is assumed of the frames here. -/

namespace LamiaAtrium
variable {Proc : Type} {env : Env Proc} {k after : Krnl Proc} {caller : Proc} {pgn pid : CInt} {code : Int}
variable [DecidableEq Proc]

section Bytes
variable {addr : CInt} {value : Byte} {data : Option Byte}

omit [DecidableEq Proc] in
private theorem addrParam_phyAddr (fpn off : CInt) : addrParam (phyAddr fpn off) = ((fpn <<< 8) + off).setWidth 64 := by
  have low : ∀ word : CInt, (word.signExtend 64).setWidth 32 = word := by
    intro word
    apply BitVec.eq_of_getLsbD_eq
    intro i inside
    rw [BitVec.getLsbD_setWidth, BitVec.getLsbD_signExtend, if_pos inside, decide_eq_true inside,
      decide_eq_true (show i < 64 by omega), Bool.true_and, Bool.true_and]
  rw [addrParam, phyAddr, intToAddr, low]

/-- The frame number in the entry leads to the same address as the one that came from the
free list only if no bit above the field is set that the shift leaves in the word. -/
theorem same_address_iff (newfpn : Addr) (off : CInt) :
    addrParam (phyAddr (addrToInt newfpn) off) = addrParam (phyAddr ((newfpn.setWidth 13).setWidth 32) off) ↔
      newfpn.toNat % 2 ^ 24 < 2 ^ 13 := by
  rw [addrParam_phyAddr, addrParam_phyAddr]
  have cut : ∀ first second : CInt, first.setWidth 64 = second.setWidth 64 ↔ first = second := by
    intro first second
    refine ⟨fun same => ?_, fun same => by rw [same]⟩
    have numbers := congrArg BitVec.toNat same
    rw [BitVec.toNat_setWidth_of_le (by decide), BitVec.toNat_setWidth_of_le (by decide)] at numbers
    exact BitVec.eq_of_toNat_eq numbers
  have shifted (fpn : CInt) : (fpn <<< 8).toNat = fpn.toNat % 2 ^ 24 * 2 ^ 8 := by
    rw [BitVec.toNat_shiftLeft, Nat.shiftLeft_eq]
    omega
  rw [cut, BitVec.add_left_inj, ← BitVec.toNat_inj, shifted, shifted]
  simp only [addrToInt, BitVec.toNat_setWidth]
  omega

/-- Reading a resident page of a process that the kernel serves. -/
theorem pgGetval_hit (serves : env.Serves caller)
    (resident : ((k.mms caller).getEntry (intToAddr (pagingPgn addr))).resident = true) :
    pgGetval env k caller addr = (do
      let (_, mram, byte) ← k.mram.read
        (addrParam (phyAddr (pagingFpn ((k.mms caller).getEntry (intToAddr (pagingPgn addr)))) (pagingOffst addr))) env.uninit
      return (0, some byte, { k with mram })) := by
  obtain ⟨pid, other, known, found, reached⟩ := serves
  rw [getEntry_eq_pte] at resident ⊢
  rw [pgGetval, pgGetpage_hit env resident]
  simp only [Outcome.bind_ok, known, syscall_read found, callerKrnl_ok reached]
  cases k.mram.read (addrParam (phyAddr (pagingFpn (k.pte (caller, pageOf (intToAddr (pagingPgn addr))))) (pagingOffst addr))) env.uninit with
  | error fault => rfl
  | ok result =>
    simp only [Outcome.bind_ok, Outcome.pure_eq, byte_through_register]

end Bytes

section Reports
variable {vmaid : CInt} {index : Fin pagingMaxSymtblSz} {offset : Addr} {value : Byte} {data : Option Byte}

/-- The address that register `index` and the offset stand for, as `pg_getval` gets it. -/
def accessed (k : Krnl Proc) (caller : Proc) (index : Fin pagingMaxSymtblSz) (offset : Addr) : CInt :=
  addrToInt (((k.mms caller).symrgtbl index).rgStart + offset)

/-- `__write` goes on to the page. -/
def Passes (mm : Mm) (vmaid : CInt) (index : Fin pagingMaxSymtblSz) (offset : Addr) : Prop :=
  (∃ area, getVmaByNum mm vmaid = .ok (some area)) ∧ (mm.symrgtbl index).Writes offset

/-- An access reports success only when it took place: a byte written is there to be read, an
access whose page cannot be had or whose system call fails returns -1, and a victim that
was not copied is not marked as swapped. -/
structure Honest (env : Env Proc) (k : Krnl Proc) (caller : Proc) (vmaid : CInt) (index : Fin pagingMaxSymtblSz) (offset : Addr) :
    Prop where
  stored : ∀ value after, write env k caller vmaid (rgidOf index) offset value = .ok (0, after) →
    ∃ last, read env after caller (rgidOf index) offset = .ok (0, some value, last)
  writeFails : ¬Available k caller (pagingPgn (accessed k caller index offset)) ∨ env.Misses caller →
    ∀ value code after, write env k caller vmaid (rgidOf index) offset value = .ok (code, after) → code = -1
  readFails : ¬Available k caller (pagingPgn (accessed k caller index offset)) ∨ env.Misses caller →
    ∀ code data after, read env k caller (rgidOf index) offset = .ok (code, data, after) → code = -1
  victim : pagingPageSwapped ((k.mms caller).getEntry (intToAddr (pagingPgn (accessed k caller index offset)))) = true →
    k.mram.freeFpList = [] → ∀ vicpgn mm, findVictimPage (k.mms caller) = some (vicpgn, mm) →
    pagingPageSwapped ((k.mms caller).getEntry vicpgn) = false → env.Misses caller →
    ∀ evicted after, evictVictim env k caller = .ok (evicted, after) →
      pagingPageSwapped ((after.mms caller).getEntry vicpgn) = false

/-- The states in which nothing can be swallowed. -/
structure Unfailing (env : Env Proc) (k : Krnl Proc) (caller : Proc) (vmaid : CInt) (index : Fin pagingMaxSymtblSz) (offset : Addr) :
    Prop where
  write : Passes (k.mms caller) vmaid index offset →
    ((k.mms caller).symrgtbl index).Reads offset ∧ Available k caller (pagingPgn (accessed k caller index offset)) ∧
      Fits k caller (pagingPgn (accessed k caller index offset)) ∧ k.mram.rdmflg = true ∧ env.Serves caller
  read : ((k.mms caller).symrgtbl index).Reads offset → Available k caller (pagingPgn (accessed k caller index offset)) →
    env.Serves caller
  victim : pagingPageSwapped ((k.mms caller).getEntry (intToAddr (pagingPgn (accessed k caller index offset)))) = true →
    k.mram.freeFpList = [] → k.activeMswp.freeFpList ≠ [] → ∀ vicpgn mm, findVictimPage (k.mms caller) = some (vicpgn, mm) →
    pagingPageSwapped ((k.mms caller).getEntry vicpgn) = false → ¬env.Misses caller

theorem write_cases (returned : write env k caller vmaid (rgidOf index) offset value = .ok (code, after)) :
    (¬Passes (k.mms caller) vmaid index offset ∧ code = -1) ∨
      Passes (k.mms caller) vmaid index offset ∧ code = 0 ∧
        ∃ result, pgSetval env k caller (accessed k caller index offset) value = .ok (result, after) := by
  cases known : getVmaByNum (k.mms caller) vmaid with
  | error fault =>
    rw [write, getSymrgByid_rgidOf, known] at returned
    cases returned
  | ok found =>
    cases found with
    | none =>
      rw [write, getSymrgByid_rgidOf, known] at returned
      cases returned
      refine .inl ⟨fun passes => ?_, rfl⟩
      obtain ⟨area, found⟩ := passes.1
      cases known.symm.trans found
    | some area =>
      rw [write_eq env known] at returned
      split at returned
      · next inside =>
        obtain ⟨⟨result, last⟩, stored, returned⟩ := Outcome.bind_eq_ok returned
        cases returned
        exact .inr ⟨⟨⟨area, known⟩, inside⟩, rfl, result, stored⟩
      · next outside =>
        cases returned
        exact .inl ⟨fun passes => outside passes.2, rfl⟩

theorem read_cases (returned : read env k caller (rgidOf index) offset = .ok (code, data, after)) :
    (¬((k.mms caller).symrgtbl index).Reads offset ∧ code = -1) ∨
      ((k.mms caller).symrgtbl index).Reads offset ∧
        ∃ result, pgGetval env k caller (accessed k caller index offset) = .ok (result, data, after) ∧
          code = if result = 0 then 0 else -1 := by
  rw [read_eq] at returned
  split at returned
  · next inside =>
    obtain ⟨⟨result, byte, last⟩, fetched, returned⟩ := Outcome.bind_eq_ok returned
    refine .inr ⟨inside, ?_⟩
    dsimp only at returned
    by_cases zero : result = 0
    · rw [if_neg (not_not_intro zero)] at returned
      cases returned
      exact ⟨_, fetched, by rw [if_pos zero]⟩
    · rw [if_pos zero] at returned
      cases returned
      exact ⟨_, fetched, by rw [if_neg zero]⟩
  · next outside =>
    cases returned
    exact .inl ⟨outside, rfl⟩

private theorem pgSetval_symrgtbl {addr : CInt} (available : Available k caller (pagingPgn addr)) (finds : ¬env.Misses caller)
    (returned : pgSetval env k caller addr value = .ok (code, after)) : (after.mms caller).symrgtbl = (k.mms caller).symrgtbl := by
  rcases pgSetval_cases returned with ⟨absent, _⟩ | ⟨_, missing, _⟩ | ⟨_, _, _, _, _, _, fetched, _, rfl⟩
  · exact absurd available absent
  · exact absurd missing finds
  · exact (pgGetpage_cases fetched).1.symrgtbl

/-- A byte that went through `pg_setval` is what `pg_getval` gets. -/
private theorem pgGetval_stored {addr : CInt} (available : Available k caller (pagingPgn addr)) (fits : Fits k caller (pagingPgn addr))
    (random : k.mram.rdmflg = true) (finds : ¬env.Misses caller) (returned : pgSetval env k caller addr value = .ok (code, after)) :
    ∃ last, pgGetval env after caller addr = .ok (0, some value, last) := by
  rcases pgSetval_cases returned with ⟨absent, _⟩ | ⟨_, missing, _⟩ | ⟨_, answers, f, middle, result, mram, fetched, written, rfl⟩
  · exact absurd available absent
  · exact absurd missing finds
  obtain ⟨kept, ⟨absent, _⟩ | ⟨_, _, _, same, resident, present, brought⟩⟩ := pgGetpage_cases fetched
  · exact absurd available absent
  cases same
  have place : addrParam (phyAddr (pagingFpn ((middle.mms caller).getEntry (intToAddr (pagingPgn addr)))) (pagingOffst addr)) =
      addrParam (phyAddr f (pagingOffst addr)) := by
    by_cases away : pagingPageSwapped ((k.mms caller).getEntry (intToAddr (pagingPgn addr))) = true
    · cases free : k.mram.freeFpList with
      | nil => rw [present fun _ => free]
      | cons newfpn rest =>
        obtain ⟨number, entry⟩ := brought newfpn rest away free
        rw [number, entry, (same_address_iff newfpn (pagingOffst addr)).mpr (fits away newfpn rest free)]
    · rw [present fun swapped => absurd swapped away]
  rw [pgGetval_hit (k := { middle with mram }) answers resident]
  dsimp only
  rw [place, Memphy.readable_after_write (kept.flag.trans random) written]
  exact ⟨_, rfl⟩

/-- A device that gives back every byte is random-access, and the frame number fits. -/
private theorem fits_of_stored {addr : CInt} (available : Available k caller (pagingPgn addr)) (finds : ¬env.Misses caller)
    (stored : ∀ value, ∃ code after last, pgSetval env k caller addr value = .ok (code, after) ∧
      pgGetval env after caller addr = .ok (0, some value, last)) :
    Fits k caller (pagingPgn addr) ∧ k.mram.rdmflg = true := by
  obtain ⟨code, after, last, first, _⟩ := stored 0
  rcases pgSetval_cases first with ⟨absent, _⟩ | ⟨_, missing, _⟩ | ⟨_, answers, f, middle, _, _, fetched, _, _⟩
  · exact absurd available absent
  · exact absurd missing finds
  obtain ⟨kept, ⟨absent, _⟩ | ⟨_, _, _, same, resident, _, brought⟩⟩ := pgGetpage_cases fetched
  · exact absurd available absent
  cases same
  -- the page comes in before the byte does: every value goes to one device, and comes from it
  have through (value : Byte) : ∃ result mram final reply,
      middle.mram.write (addrParam (phyAddr f (pagingOffst addr))) value = .ok (result, mram) ∧
      mram.read (addrParam (phyAddr (pagingFpn ((middle.mms caller).getEntry (intToAddr (pagingPgn addr)))) (pagingOffst addr)))
        env.uninit = .ok (reply, final, value) := by
    obtain ⟨code, after, last, ran, got⟩ := stored value
    rcases pgSetval_cases ran with ⟨absent, _⟩ | ⟨_, missing, _⟩ | ⟨_, _, _, _, result, mram, again, written, rfl⟩
    · exact absurd available absent
    · exact absurd missing finds
    cases fetched.symm.trans again
    rw [pgGetval_hit (k := { middle with mram }) answers resident] at got
    obtain ⟨⟨reply, final, byte⟩, read, got⟩ := Outcome.bind_eq_ok got
    cases got
    exact ⟨result, mram, final, reply, written, read⟩
  have random : middle.mram.rdmflg = true := by
    by_contra sequential
    obtain ⟨_, _, _, _, written, read⟩ := through (env.uninit + 1)
    have same := Memphy.read_sequential (Bool.eq_false_iff.mpr sequential) written read
    exact absurd same (by simp)
  refine ⟨?_, kept.flag.symm.trans random⟩
  intro away newfpn rest free
  obtain ⟨number, entry⟩ := brought newfpn rest away free
  rw [entry, number] at through
  by_contra large
  rw [← same_address_iff newfpn (pagingOffst addr)] at large
  obtain ⟨_, _, _, _, written, read⟩ :=
    through (middle.mram.storage (addrParam (phyAddr ((newfpn.setWidth 13).setWidth 32) (pagingOffst addr))).toNat + 1)
  have other := Memphy.read_after_write random written read
  rw [if_neg (Ne.symm large)] at other
  exact absurd other (by simp)

/-- A victim whose copy failed is marked as swapped, if there was a frame to copy it to. -/
private theorem evictVictim_missing {vicpgn : Addr} {mm : Mm} (missing : env.Misses caller)
    (victim : findVictimPage (k.mms caller) = some (vicpgn, mm)) (free : k.activeMswp.freeFpList ≠ []) :
    ∃ evicted after, evictVictim env k caller = .ok (evicted, after) ∧
      pagingPageSwapped ((after.mms caller).getEntry vicpgn) = true := by
  obtain ⟨pid, known, missing⟩ := missing.callerPid
  obtain ⟨target, rest, free⟩ := List.exists_cons_of_ne_nil free
  unfold evictVictim
  rw [victim]
  dsimp only
  rw [Krnl.setMm_activeMswp, Memphy.getFreefp_cons free]
  simp only [known, Outcome.bind_ok, syscall_missing missing]
  refine ⟨_, _, rfl, ?_⟩
  rw [Krnl.setMm_same]
  change pagingPageSwapped (pteGetEntry (pteSetSwap _ vicpgn _ _) vicpgn) = true
  rw [pteGetEntry_eq_pteAt, pteAt_pteSetSwap, Function.update_self, setSwap_swapped]

/-- Without a frame to copy it to, the victim only leaves the FIFO. -/
private theorem evictVictim_full {evicted : Option Addr} (full : k.activeMswp.freeFpList = [])
    (returned : evictVictim env k caller = .ok (evicted, after)) (pgn : Addr) :
    (after.mms caller).getEntry pgn = (k.mms caller).getEntry pgn := by
  unfold evictVictim at returned
  cases victim : findVictimPage (k.mms caller) with
  | none =>
    rw [victim] at returned
    cases returned
    rfl
  | some found =>
    obtain ⟨vicpgn, mm⟩ := found
    rw [victim] at returned
    dsimp only at returned
    rw [Krnl.setMm_activeMswp, Memphy.getFreefp_nil full] at returned
    cases returned
    rw [findVictimPage, Option.map_eq_some_iff] at victim
    obtain ⟨_, _, same⟩ := victim
    cases same
    rw [Krnl.setMm_same]
    rfl

private theorem accessed_stored {result : Int} (available : Available k caller (pagingPgn (accessed k caller index offset)))
    (finds : ¬env.Misses caller) (ran : pgSetval env k caller (accessed k caller index offset) value = .ok (result, after)) :
    accessed after caller index offset = accessed k caller index offset ∧ (after.mms caller).symrgtbl = (k.mms caller).symrgtbl := by
  have table := pgSetval_symrgtbl available finds ran
  exact ⟨by rw [accessed, accessed, table], table⟩

/-- What `__write` stored, `__read` gets. -/
theorem read_after_write (unfailing : Unfailing env k caller vmaid index offset)
    (ran : write env k caller vmaid (rgidOf index) offset value = .ok (0, after)) :
    ∃ last, read env after caller (rgidOf index) offset = .ok (0, some value, last) := by
  rcases write_cases ran with ⟨_, refused⟩ | ⟨passes, _, result, stored⟩
  · cases refused
  obtain ⟨inside, available, fits, random, serves⟩ := unfailing.write passes
  obtain ⟨place, table⟩ := accessed_stored available serves.not_misses stored
  obtain ⟨last, gets⟩ := pgGetval_stored available fits random serves.not_misses stored
  refine ⟨last, ?_⟩
  rw [read_eq, table, if_pos inside, readAt, ← table]
  unfold accessed at place gets
  rw [place, gets]
  rfl

/-- Where the page can be had and the caller is found, what is stored can be read back only
on these terms. -/
private theorem stored_only_if (passes : Passes (k.mms caller) vmaid index offset)
    (available : Available k caller (pagingPgn (accessed k caller index offset))) (finds : ¬env.Misses caller)
    (writes : ∀ value, ∃ code after, write env k caller vmaid (rgidOf index) offset value = .ok (code, after))
    (back : ∀ value after, write env k caller vmaid (rgidOf index) offset value = .ok (0, after) →
      ∃ last, read env after caller (rgidOf index) offset = .ok (0, some value, last)) :
    ((k.mms caller).symrgtbl index).Reads offset ∧ Fits k caller (pagingPgn (accessed k caller index offset)) ∧
      k.mram.rdmflg = true := by
  have through (value : Byte) : ∃ result after last,
      pgSetval env k caller (accessed k caller index offset) value = .ok (result, after) ∧
      ((k.mms caller).symrgtbl index).Reads offset ∧
      pgGetval env after caller (accessed k caller index offset) = .ok (0, some value, last) := by
    obtain ⟨code, after, ran⟩ := writes value
    rcases write_cases ran with ⟨rejected, _⟩ | ⟨_, rfl, result, stored⟩
    · exact absurd passes rejected
    obtain ⟨place, table⟩ := accessed_stored available finds stored
    obtain ⟨last, got⟩ := back value after ran
    rcases read_cases got with ⟨_, refused⟩ | ⟨inside, fetched, gets, zero⟩
    · cases refused
    rw [table] at inside
    rw [place] at gets
    have success : fetched = 0 := by
      by_contra failed
      rw [if_neg failed] at zero
      cases zero
    subst success
    exact ⟨result, after, last, stored, inside, gets⟩
  refine ⟨?_, fits_of_stored available finds fun value => ?_⟩
  · obtain ⟨_, _, _, _, inside, _⟩ := through 0
    exact inside
  · obtain ⟨result, after, last, stored, _, gets⟩ := through value
    exact ⟨result, after, last, stored, gets⟩

/-- No success is reported for an access that did not happen exactly in the states where
nothing is swallowed. The two hypotheses leave out the accesses that C does not define. -/
theorem no_success_without_access_iff
    (writes : ∀ value, ∃ code after, write env k caller vmaid (rgidOf index) offset value = .ok (code, after))
    (reads : ∃ code data after, read env k caller (rgidOf index) offset = .ok (code, data, after)) :
    Honest env k caller vmaid index offset ↔ Unfailing env k caller vmaid index offset := by
  constructor
  · intro honest
    refine ⟨fun passes => ?_, fun inside available => ?_, fun away full free vicpgn mm victim here missing => ?_⟩
    · have answered : ¬(¬Available k caller (pagingPgn (accessed k caller index offset)) ∨ env.Misses caller) := by
        intro fails
        obtain ⟨code, after, ran⟩ := writes 0
        rcases write_cases ran with ⟨rejected, _⟩ | ⟨_, rfl, _⟩
        · exact absurd passes rejected
        · cases honest.writeFails fails 0 0 after ran
      obtain ⟨available, finds⟩ := not_or.mp answered
      have available := not_not.mp available
      obtain ⟨inside, fits, random⟩ := stored_only_if passes available finds writes honest.stored
      obtain ⟨code, after, ran⟩ := writes 0
      rcases write_cases ran with ⟨rejected, _⟩ | ⟨_, _, result, stored⟩
      · exact absurd passes rejected
      rcases pgSetval_cases stored with ⟨absent, _⟩ | ⟨_, missing, _⟩ | ⟨_, serves, _⟩
      · exact absurd available absent
      · exact absurd missing finds
      · exact ⟨inside, available, fits, random, serves⟩
    · obtain ⟨code, data, after, ran⟩ := reads
      rcases read_cases ran with ⟨refused, _⟩ | ⟨_, result, gets, rfl⟩
      · exact absurd inside refused
      rcases pgGetval_cases gets with ⟨absent, _⟩ | ⟨_, missing, rfl⟩ | ⟨_, serves, _⟩
      · exact absurd available absent
      · cases honest.readFails (.inr missing) _ data after ran
      · exact serves
    · obtain ⟨evicted, after, ran, marked⟩ := evictVictim_missing missing victim free
      cases marked.symm.trans (honest.victim away full vicpgn mm victim here missing evicted after ran)
  · intro unfailing
    have failing (passes : Passes (k.mms caller) vmaid index offset) :
        ¬(¬Available k caller (pagingPgn (accessed k caller index offset)) ∨ env.Misses caller) := by
      obtain ⟨_, available, _, _, serves⟩ := unfailing.write passes
      exact not_or.mpr ⟨not_not.mpr available, serves.not_misses⟩
    refine ⟨fun value after ran => read_after_write unfailing ran, fun fails value code after ran => ?_,
      fun fails code data after ran => ?_, ?_⟩
    · rcases write_cases ran with ⟨_, refused⟩ | ⟨passes, _⟩
      · exact refused
      · exact absurd fails (failing passes)
    · rcases read_cases ran with ⟨_, refused⟩ | ⟨inside, result, gets, reported⟩
      · exact refused
      have absent : ¬Available k caller (pagingPgn (accessed k caller index offset)) := by
        intro available
        rcases fails with absent | missing
        · exact absent available
        · exact (unfailing.read inside available).not_misses missing
      rcases pgGetval_cases gets with ⟨_, failed⟩ | ⟨available, _⟩ | ⟨available, _⟩
      · rw [failed] at reported
        exact reported
      · exact absurd available absent
      · exact absurd available absent
    · intro away full vicpgn mm victim here missing evicted after ran
      by_cases free : k.activeMswp.freeFpList = []
      · rw [evictVictim_full free ran]
        exact here
      · exact absurd missing (unfailing.victim away full free vicpgn mm victim here)

end Reports

set_option maxRecDepth 10000 in
theorem no_success_without_access_iff_twoRegions : Honest crowdedEnv twoRegions () 0 firstReg 5 := by
  have unswapped : pagingPageSwapped ((twoRegions.mms ()).getEntry (intToAddr (pagingPgn (accessed twoRegions () firstReg 5)))) = false := rfl
  refine (no_success_without_access_iff (fun value => ⟨0, _, rfl⟩) ⟨0, _, _, rfl⟩).mpr
    ⟨fun _ => ⟨by decide, ?_, ?_, rfl, crowdedEnv_serves⟩, fun _ _ => crowdedEnv_serves, fun away => ?_⟩
  · rw [Available, if_neg (by rw [unswapped]; exact Bool.false_ne_true)]
    rfl
  · intro away
    cases unswapped.symm.trans away
  · cases unswapped.symm.trans away

/-- No frame is left when register 0 is allocated. -/
def noFrames : Krnl Unit := { oneFrame [] [0, 1] with mm := some () }

/-- The allocated region has no page behind it. The write reports success, the read does not. -/
theorem write_to_unmapped_page_succeeds : ∃ after last data final,
    liballoc crowdedEnv noFrames () 100 (rgidOf firstReg) = .ok (0, after) ∧
    ¬Available after () (pagingPgn (accessed after () firstReg 5)) ∧
    write crowdedEnv after () 0 (rgidOf firstReg) 5 7 = .ok (0, last) ∧
    read crowdedEnv last () (rgidOf firstReg) 5 = .ok (-1, data, final) := by
  exact ⟨_, _, _, _, rfl, not_available_of_empty rfl, rfl, rfl⟩

end LamiaAtrium
