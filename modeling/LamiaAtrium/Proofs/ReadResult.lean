import LamiaAtrium.Proofs.Alone
import LamiaAtrium.Proofs.Reach

/-! What a READ returns, from what it depends on: the reader's regions and entries, the bytes
behind them, and the way in for a page on the swap device. A READ that stops at a fault returns
nothing. -/

namespace LamiaAtrium
variable {Proc : Type}

/-- What the READ of a byte in RAM returns: a zero if the search finds no process, and nothing
past a wild `regs[6]` or the end of the device. -/
def Env.report (env : Env Proc) (p : Proc) (byte : Option Byte) : Option (Int × Option Byte) :=
  match env.lookup p with
  | .error _ => none
  | .ok none => some (0, some 0)
  | .ok (some found) => if env.regs6 found = some env.os then byte.map fun byte => (0, some byte) else none

section Reports
variable {env : Env Proc} {p : Proc} {byte other : Byte} {result : Int × Option Byte}

theorem Env.lookup_cases {found : Option Proc} (known : env.lookup p = .ok found) :
    ∃ pid, env.callerPid p = .ok pid ∧ env.findCaller pid = .ok found := by
  obtain ⟨pid, known, answer⟩ := Outcome.bind_eq_ok known
  exact ⟨pid, known, answer⟩

theorem Env.misses_iff : env.Misses p ↔ env.lookup p = .ok none := by
  constructor
  · intro misses
    obtain ⟨pid, known, missing⟩ := misses.callerPid
    exact lookup_eq known missing
  · intro missing
    obtain ⟨pid, known, missing⟩ := lookup_cases missing
    exact callerPid_known known missing

theorem Env.serves_iff : env.Serves p ↔ ∃ found, env.lookup p = .ok (some found) ∧ env.regs6 found = some env.os := by
  constructor
  · intro ⟨pid, found, known, answer, reached⟩
    exact ⟨found, lookup_eq known answer, reached⟩
  · intro ⟨found, answer, reached⟩
    obtain ⟨pid, known, answer⟩ := lookup_cases answer
    exact ⟨pid, found, known, answer, reached⟩

theorem Env.report_misses (misses : env.Misses p) (byte : Option Byte) : env.report p byte = some (0, some 0) := by
  rw [report, misses_iff.mp misses]

theorem Env.report_serves (serves : env.Serves p) (byte : Option Byte) : env.report p byte = byte.map fun byte => (0, some byte) := by
  obtain ⟨found, answer, reached⟩ := serves_iff.mp serves
  rw [report, answer]
  exact if_pos reached

theorem Env.report_neither (fails : ¬(env.Misses p ∨ env.Serves p)) (byte : Option Byte) : env.report p byte = none := by
  rw [report]
  cases answer : env.lookup p with
  | error fault => rfl
  | ok found =>
    cases found with
    | none => exact absurd (.inl (misses_iff.mpr answer)) fails
    | some found => exact if_neg fun reached => fails (.inr (serves_iff.mpr ⟨found, answer, reached⟩))

theorem Env.report_code (reported : env.report p (some byte) = some result) : ∃ byte, result = (0, some byte) := by
  by_cases returns : env.Misses p ∨ env.Serves p
  · rcases returns with misses | serves
    · rw [report_misses misses] at reported
      cases reported
      exact ⟨_, rfl⟩
    · rw [report_serves serves] at reported
      cases reported
      exact ⟨_, rfl⟩
  · rw [report_neither returns] at reported
    cases reported

theorem Env.report_eq_none_iff : env.report p (some byte) = none ↔ ¬(env.Misses p ∨ env.Serves p) := by
  constructor
  · rintro none (misses | serves)
    · rw [report_misses misses] at none
      cases none
    · rw [report_serves serves] at none
      cases none
  · exact fun fails => report_neither fails _

/-- Only a process that is served sees the byte. -/
theorem Env.report_eq_iff : env.report p (some byte) = env.report p (some other) ↔ (env.Serves p → byte = other) := by
  by_cases serves : env.Serves p
  · simp [report_serves serves, serves]
  · refine iff_of_true ?_ fun also => absurd also serves
    by_cases misses : env.Misses p
    · rw [report_misses misses, report_misses misses]
    · rw [report_neither (not_or_intro misses serves), report_neither (not_or_intro misses serves)]

end Reports

variable [DecidableEq Proc] {env : Env Proc} {k after : Krnl Proc} {p : Proc} {code : Int}

section Fetch
variable {pgn addr : CInt} {reqSwpfpn : Addr}

/-- Paging along this way returns: no copy leaves a device, and a victim's is looked up. -/
def Comes (env : Env Proc) (k : Krnl Proc) (p : Proc) (reqSwpfpn : Addr) : Way → Prop
  | .stuck => True
  | .free => reqSwpfpn.toNat < k.activeMswp.frames
  | .evict vicfpn _ => vicfpn.toNat < k.mram.frames ∧ reqSwpfpn.toNat < k.activeMswp.frames ∧ ∃ found, env.lookup p = .ok found

theorem pageIn_returns (env : Env Proc) (order : InOrder k) (p : Proc) (pgn : Addr) {newfpn : Addr}
    (source : reqSwpfpn.toNat < k.activeMswp.frames) (target : newfpn.toNat < k.mram.frames) :
    ∃ after, pageIn env k p pgn reqSwpfpn newfpn = .ok after := by
  have ramSize := order.ramSize
  have swapSize := order.swapSize
  obtain ⟨mram, copied⟩ := swapCpPage_returns env.uninit source target (by omega) (by omega)
  rw [pageIn, copied]
  exact ⟨_, rfl⟩

theorem evictVictim_returns (order : InOrder k) {vicfpn vicSwpfpn : Addr} {rest : List Addr} {found : Option Proc}
    (oldest : k.frameOfOldest p (k.mms p).fifoPgn = some vicfpn) (free : k.activeMswp.freeFpList = vicSwpfpn :: rest)
    (target : vicfpn.toNat < k.mram.frames) (known : env.lookup p = .ok found) :
    ∃ middle, evictVictim env k p = .ok (some vicfpn, middle) := by
  rcases findVictimPage_cases k p with ⟨_, none⟩ | ⟨vicpgn, fifoPgn, victim, same⟩
  · cases oldest.symm.trans none
  · cases oldest.symm.trans same
    obtain ⟨pid, known, answer⟩ := Env.lookup_cases known
    rw [evictVictim_goes victim free, known]
    simp only [Outcome.bind_ok]
    cases found with
    | none =>
      rw [syscall_missing answer]
      exact ⟨_, rfl⟩
    | some other =>
      have ramSize := order.ramSize
      have swapSize := order.swapSize
      have room : vicSwpfpn.toNat < ({ k.activeMswp with freeFpList := rest } : Memphy).frames :=
        order.swapFree vicSwpfpn (free ▸ List.mem_cons_self)
      have bound : vicSwpfpn.toNat < 2 ^ 23 := Nat.lt_trans room swapSize
      obtain ⟨swap, copied⟩ := swapCpPage_returns env.uninit target room (by omega) (by omega)
      rw [syscall_swp answer, mmSwapPage, addrParam_of_lt (by omega), addrParam_of_lt (by omega), Krnl.setMm_mram, copied]
      exact ⟨_, rfl⟩

theorem pgGetpage_returns_iff (order : InOrder k) (frame : (k.pte (p, pageOf (intToAddr pgn))).swapFrame = some reqSwpfpn) :
    (∃ result, pgGetpage env k p pgn = .ok result) ↔ Comes env k p reqSwpfpn (k.way p) := by
  have swapped := Pte.swapped_of_swapFrame frame
  have number : (pagingSwp (k.pte (p, pageOf (intToAddr pgn)))).setWidth 64 = reqSwpfpn := by
    rw [Pte.swapFrame, if_pos swapped] at frame
    exact Option.some.inj frame
  constructor
  · rintro ⟨⟨code, fpn, after⟩, returned⟩
    obtain ⟨_, _, paged⟩ := pgGetpage_paged order returned
    cases paged with
    | stuck _ _ _ stuck =>
      rw [stuck reqSwpfpn frame]
      trivial
    | hit resident =>
      rw [Pte.ramFrame_of_swapFrame frame] at resident
      cases resident
    | took same free source =>
      cases frame.symm.trans same
      rw [Krnl.way, wayIn_free (by rw [free]; exact List.cons_ne_nil _ _)]
      exact source
    | traded same full oldest free known source target =>
      cases frame.symm.trans same
      rw [Krnl.way, wayIn_evict_iff.mpr ⟨full, oldest, by rw [free]; rfl⟩]
      exact ⟨target, source, _, known⟩
  · intro comes
    rw [pgGetpage, getEntry_eq_pte, if_pos swapped, number]
    cases list : k.mram.freeFpList with
    | cons newfpn rest =>
      rw [Krnl.way, wayIn_free (by rw [list]; exact List.cons_ne_nil _ _)] at comes
      have taken : InOrder { k with mram := { k.mram with freeFpList := rest } } :=
        order.moved ⟨rfl, rfl, rfl, rfl⟩ (fun fpn member => list ▸ List.mem_cons_of_mem _ member) fun fpn member => .inl member
      obtain ⟨after, ran⟩ := pageIn_returns env taken p (intToAddr pgn) comes (order.ramFree newfpn (list ▸ List.mem_cons_self))
      simp only [Memphy.getFreefp_cons list, ran, Outcome.bind_ok]
      exact ⟨_, rfl⟩
    | nil =>
      simp only [Memphy.getFreefp_nil list]
      cases way : k.way p with
      | free =>
        rw [Krnl.way, list] at way
        cases free : k.activeMswp.freeFpList <;> cases oldest : k.frameOfOldest p (k.mms p).fifoPgn <;>
          rw [free, oldest] at way <;> cases way
      | stuck =>
        obtain ⟨middle, ran, _⟩ := evictVictim_stuck env (wayIn_stuck_iff.mp way).2
        simp only [ran, Outcome.bind_ok]
        exact ⟨_, rfl⟩
      | evict vicfpn vicSwpfpn =>
        rw [way] at comes
        obtain ⟨target, source, found, known⟩ := comes
        obtain ⟨_, oldest, head⟩ := wayIn_evict_iff.mp way
        obtain ⟨rest, free⟩ := List.head?_eq_some_iff.mp head
        obtain ⟨middle, ran⟩ := evictVictim_returns order oldest free target known
        rcases evictVictim_cells order ran with ⟨none, _⟩ | ⟨_, slot, others, _, same, _, list, _, _, ram, rewritten, _⟩
        · cases none
        · cases same
          have kept : InOrder middle := by
            refine order.moved ⟨congrArg Memphy.maxsz ram, congrArg Memphy.rdmflg ram, rewritten.maxsz, rewritten.rdmflg⟩
              (fun fpn member => ram ▸ member) fun fpn member => .inl ?_
            rw [rewritten.freeFpList] at member
            exact list ▸ List.mem_cons_of_mem _ member
          have inside : reqSwpfpn.toNat < middle.activeMswp.frames := by
            rw [Memphy.frames, rewritten.maxsz]
            exact source
          obtain ⟨after, came⟩ := pageIn_returns env kept p (intToAddr pgn) inside (ram ▸ target)
          simp only [ran, came, Outcome.bind_ok]
          exact ⟨_, rfl⟩

/-- What `pg_getval` returns, without the state after it. -/
def getvalResult (env : Env Proc) (k : Krnl Proc) (p : Proc) (addr : CInt) : Option (Int × Option Byte) :=
  (pgGetval env k p addr).toOption.map fun result => (result.1, result.2.1)

def Memphy.find (mp : Memphy) (cell : Nat) : Option Byte := if cell < mp.maxsz then some (mp.storage cell) else none

theorem Memphy.find_cell {mp : Memphy} {fpn : Addr} (inside : fpn.toNat < mp.frames) (offset : Fin pagingPagesz) :
    mp.find (fpn.toNat * pagingPagesz + offset) = some (mp.cell fpn offset) := by
  have bound := offset.isLt
  refine if_pos ?_
  simp only [Memphy.frames, pagingPagesz] at *
  omega

/-- With the page in frame `fpn` the byte goes through the system call. -/
theorem getvalResult_fetched {fpn : CInt} {middle : Krnl Proc} (random : middle.mram.rdmflg = true) (small : fpn.toNat < 2 ^ 23)
    (fetched : pgGetpage env k p (pagingPgn addr) = .ok (code, some fpn, middle)) :
    getvalResult env k p addr = env.report p (middle.mram.find (fpn.toNat * pagingPagesz + offsetOf addr)) := by
  rw [getvalResult, pgGetval, fetched, Env.report, Env.lookup]
  cases known : env.callerPid p with
  | error fault => rfl
  | ok pid =>
    simp only [Outcome.bind_ok]
    cases answer : env.findCaller pid with
    | error fault =>
      rw [syscall_fault answer]
      rfl
    | ok found =>
      cases found with
      | none =>
        have nothing : ((0 : Addr) &&& 0xFF#64).setWidth 8 = (0 : Byte) := by decide
        rw [syscall_missing answer]
        simp only [Outcome.bind_ok, Outcome.pure_eq, Except.toOption, Option.map_some, nothing]
      | some found =>
        have address := addrParam_phyAddr_toNat small (show (pagingOffst addr).toNat < pagingPagesz from (offsetOf addr).isLt)
        rw [syscall_read answer]
        by_cases reached : env.regs6 found = some env.os
        · rw [callerKrnl_ok reached, Memphy.read, if_pos random, Memphy.load, address, Memphy.find, offsetOf]
          dsimp only
          by_cases inside : fpn.toNat * pagingPagesz + (pagingOffst addr).toNat < middle.mram.maxsz
          · rw [if_pos inside, if_pos inside, if_pos reached]
            simp only [Outcome.bind_ok, Outcome.pure_eq, Except.toOption, Option.map_some, byte_through_register]
          · rw [if_neg inside, if_neg inside, if_pos reached]
            rfl
        · dsimp only
          rw [Env.callerKrnl, if_neg reached, if_neg reached]
          rfl

theorem getvalResult_stuck {middle : Krnl Proc} (fetched : pgGetpage env k p (pagingPgn addr) = .ok (code, none, middle)) :
    getvalResult env k p addr = some (-1, none) := by
  rw [getvalResult, pgGetval, fetched]
  rfl

/-- What a READ along this way returns of a page on the swap device. The page itself may be
overwritten by the one evicted for it. -/
def swappedResult (env : Env Proc) (k : Krnl Proc) (p : Proc) (reqSwpfpn : Addr) (offset : Fin pagingPagesz) :
    Way → Option (Int × Option Byte)
  | .stuck => some (-1, none)
  | .free => if reqSwpfpn.toNat < k.activeMswp.frames then env.report p (some (k.activeMswp.cell reqSwpfpn offset)) else none
  | .evict vicfpn vicSwpfpn =>
    if vicfpn.toNat < k.mram.frames ∧ reqSwpfpn.toNat < k.activeMswp.frames then
      env.report p (some (if reqSwpfpn = vicSwpfpn then k.mram.cell vicfpn offset else k.activeMswp.cell reqSwpfpn offset))
    else none

omit [DecidableEq Proc] in
/-- Where paging does not return, neither does the READ. -/
theorem swappedResult_of_not_comes {offset : Fin pagingPagesz} {way : Way} (faults : ¬Comes env k p reqSwpfpn way) :
    swappedResult env k p reqSwpfpn offset way = none := by
  cases way with
  | stuck => exact absurd trivial faults
  | free => exact if_neg faults
  | evict vicfpn vicSwpfpn =>
    rw [swappedResult]
    split
    · next inside =>
      apply Env.report_neither
      rintro (misses | serves)
      · exact faults ⟨inside.1, inside.2, _, Env.misses_iff.mp misses⟩
      · obtain ⟨found, known, _⟩ := Env.serves_iff.mp serves
        exact faults ⟨inside.1, inside.2, _, known⟩
    · rfl

theorem getvalResult_swapped (order : InOrder k) (frame : (k.pte (placeOf p addr)).swapFrame = some reqSwpfpn) :
    getvalResult env k p addr = swappedResult env k p reqSwpfpn (offsetOf addr) (k.way p) := by
  by_cases comes : Comes env k p reqSwpfpn (k.way p)
  · obtain ⟨⟨code, fpn, middle⟩, returned⟩ := (pgGetpage_returns_iff order frame).mpr comes
    obtain ⟨_, rfl, paged⟩ := pgGetpage_paged order returned
    have later := paged.inOrder order
    have ramSize := order.ramSize
    cases paged with
    | stuck _ _ _ stuck => rw [getvalResult_stuck returned, stuck reqSwpfpn frame, swappedResult]
    | hit resident =>
      rw [Pte.ramFrame_of_swapFrame frame] at resident
      cases resident
    | @took newfpn _ rest _ same free source ram swap cells =>
      cases frame.symm.trans same
      have way : k.way p = .free := wayIn_free (by rw [free]; exact List.cons_ne_nil _ _)
      have inside := order.ramFree newfpn (free ▸ List.mem_cons_self)
      have number := addrToInt_toNat (show newfpn.toNat < 2 ^ 32 by omega)
      have onDevice : newfpn.toNat < middle.mram.frames := by
        rw [Memphy.frames, ram.maxsz]
        exact inside
      rw [getvalResult_fetched later.random.1 (by omega) returned, number, Memphy.find_cell onDevice, cells, if_pos rfl, way,
        swappedResult, if_pos source]
    | @traded vicfpn vicSwpfpn _ rest found _ same full oldest free known source target ram swap swapCells ramCells =>
      cases frame.symm.trans same
      have way : k.way p = .evict vicfpn vicSwpfpn := wayIn_evict_iff.mpr ⟨full, oldest, by rw [free]; rfl⟩
      have number := addrToInt_toNat (show vicfpn.toNat < 2 ^ 32 by omega)
      have onDevice : vicfpn.toNat < middle.mram.frames := by
        rw [Memphy.frames, ram.maxsz]
        exact target
      have goes : swappedResult env k p reqSwpfpn (offsetOf addr) (k.way p) = env.report p (some (if reqSwpfpn = vicSwpfpn then
          k.mram.cell vicfpn (offsetOf addr) else k.activeMswp.cell reqSwpfpn (offsetOf addr))) := by
        rw [way]
        exact if_pos ⟨target, source⟩
      rw [getvalResult_fetched later.random.1 (by omega) returned, number, Memphy.find_cell onDevice, ramCells, if_pos rfl, swapCells,
        goes, Env.report_eq_iff]
      intro serves
      obtain ⟨other, answer, _⟩ := Env.serves_iff.mp serves
      cases known.symm.trans answer
      simp only [Option.isSome_some, and_true]
  · rw [swappedResult_of_not_comes comes]
    cases access : pgGetval env k p addr with
    | error fault =>
      rw [getvalResult, access]
      rfl
    | ok result =>
      obtain ⟨code, data, middle⟩ := result
      obtain ⟨got, fpn, fetched⟩ := pgGetval_effect access
      exact absurd ((pgGetpage_returns_iff order frame).mp ⟨_, fetched⟩) comes

/-- A READ of a page that is not on the swap device pages nothing. -/
theorem getvalResult_kept (order : InOrder k) (kept : (k.pte (placeOf p addr)).swapFrame = none) :
    getvalResult env k p addr = (k.pte (placeOf p addr)).ramFrame.elim (some (-1, none)) fun fpn =>
      env.report p (k.mram.find (fpn.toNat * pagingPagesz + offsetOf addr)) := by
  have unswapped : ¬pagingPageSwapped (k.pte (placeOf p addr)) = true := by
    intro swapped
    rw [Pte.swapFrame, if_pos swapped] at kept
    cases kept
  cases frame : (k.pte (placeOf p addr)).ramFrame with
  | none =>
    have absent : ¬pagingPagePresent (k.pte (placeOf p addr)) = true := by
      intro present
      have resident : (k.pte (placeOf p addr)).resident = true := by simp [Pte.resident, unswapped, present]
      rw [Pte.ramFrame_of_resident resident] at frame
      cases frame
    have fetched : pgGetpage env k p (pagingPgn addr) = .ok (-1, none, k) := by
      rw [pgGetpage, getEntry_eq_pte, if_neg unswapped, if_neg absent]
      rfl
    exact getvalResult_stuck fetched
  | some fpn =>
    have resident : (k.pte (placeOf p addr)).resident = true := by
      by_contra absent
      rw [Pte.ramFrame, if_neg absent] at frame
      cases frame
    rw [Pte.ramFrame_of_resident resident] at frame
    cases frame
    have small : (pagingFpn (k.pte (placeOf p addr))).toNat < 2 ^ 23 := Nat.lt_trans (pagingFpn_lt _) (by decide)
    rw [getvalResult_fetched order.random.1 small (pgGetpage_hit env resident), Option.elim_some, BitVec.toNat_setWidth_of_le (by decide)]

end Fetch

section Reads

/-- The result code of a READ and the word it stores, without the state after it. -/
def readResult (env : Env Proc) (k : Krnl Proc) (p : Proc) (source : CInt) (offset : Addr) : Option (Int × CInt) :=
  (libread env k p source offset).toOption.map fun result => (result.1, result.2.1)

/-- What `libread` makes of the result of `pg_getval`. -/
def wordOf (uninit : Byte) (result : Int × Option Byte) : Int × CInt :=
  (if result.1 ≠ 0 then -1 else 0, (result.2.getD uninit).signExtend 32)

/-- What a READ goes on to return when its checks give it an address. -/
theorem readResult_checks (source : CInt) (offset : Addr) :
    readResult env k p source offset = (Interleaved.readAddr (k.mms p) source offset).toOption.bind fun checked =>
      checked.elim (some (-1, env.uninit.signExtend 32)) fun addr => (getvalResult env k p addr).map (wordOf env.uninit) := by
  rw [readResult, libread, Interleaved.read_checks]
  cases Interleaved.readAddr (k.mms p) source offset with
  | error fault => rfl
  | ok addr =>
    cases addr with
    | none => rfl
    | some addr =>
      change _ = ((pgGetval env k p addr).toOption.map fun result => (result.1, result.2.1)).map (wordOf env.uninit)
      simp only [Outcome.bind_ok]
      cases pgGetval env k p addr with
      | error fault => rfl
      | ok result =>
        obtain ⟨code, data, last⟩ := result
        by_cases failed : code ≠ 0
        · simp only [Outcome.bind_ok, if_pos failed, Except.toOption, Option.map_some, wordOf]
          rfl
        · simp only [Outcome.bind_ok, if_neg failed, Except.toOption, Option.map_some, wordOf]
          rfl

theorem readResult_address {source : CInt} {offset : Addr} {addr : CInt}
    (checked : Interleaved.readAddr (k.mms p) source offset = .ok (some addr)) :
    readResult env k p source offset = (getvalResult env k p addr).map (wordOf env.uninit) := by
  rw [readResult_checks, checked]
  rfl

/-- A READ of `p` can ask for this byte of a frame of the swap device. -/
def AsksFor (k : Krnl Proc) (p : Proc) (reqSwpfpn : Addr) (cell : Fin pagingPagesz) : Prop :=
  ∃ source offset addr, Interleaved.readAddr (k.mms p) source offset = .ok (some addr) ∧
    (k.pte (placeOf p addr)).swapFrame = some reqSwpfpn ∧ offsetOf addr = cell

omit [DecidableEq Proc] in
theorem swappedResult_cases {reqSwpfpn : Addr} {offset : Fin pagingPagesz} {way : Way} {result : Int × Option Byte}
    (returned : swappedResult env k p reqSwpfpn offset way = some result) : result = (-1, none) ∨ ∃ byte, result = (0, some byte) := by
  cases way with
  | stuck =>
    cases returned
    exact .inl rfl
  | free =>
    rw [swappedResult] at returned
    split at returned
    · exact .inr (Env.report_code returned)
    · cases returned
  | evict vicfpn vicSwpfpn =>
    rw [swappedResult] at returned
    split at returned
    · exact .inr (Env.report_code returned)
    · cases returned

theorem signExtend_inj {byte other : Byte} (same : (byte.signExtend 32 : CInt) = other.signExtend 32) : byte = other := by
  apply BitVec.eq_of_toInt_eq
  rw [← BitVec.toInt_signExtend_of_le (show 8 ≤ 32 by decide), same, BitVec.toInt_signExtend_of_le (by decide)]

omit [DecidableEq Proc] in
/-- The word of a READ tells the results of `pg_getval` apart. -/
theorem wordOf_swapped_inj {later : Krnl Proc} {reqSwpfpn : Addr} {offset : Fin pagingPagesz} {way other : Way}
    (same : (swappedResult env later p reqSwpfpn offset other).map (wordOf env.uninit) =
      (swappedResult env k p reqSwpfpn offset way).map (wordOf env.uninit)) :
    swappedResult env later p reqSwpfpn offset other = swappedResult env k p reqSwpfpn offset way := by
  cases first : swappedResult env later p reqSwpfpn offset other with
  | none =>
    rw [first] at same
    cases second : swappedResult env k p reqSwpfpn offset way with
    | none => rfl
    | some result => rw [second] at same; cases same
  | some result =>
    rw [first] at same
    cases second : swappedResult env k p reqSwpfpn offset way with
    | none => rw [second] at same; cases same
    | some last =>
      rw [second] at same
      rcases swappedResult_cases first with rfl | ⟨byte, rfl⟩ <;> rcases swappedResult_cases second with rfl | ⟨other, rfl⟩
      · rfl
      · simp [wordOf] at same
      · simp [wordOf] at same
      · simp only [wordOf, Option.map_some, Option.getD_some, Option.some.injEq, Prod.mk.injEq] at same
        rw [signExtend_inj same.2]

/-- Process `p` has the regions, the pages and the bytes that it had. -/
structure SameView (k after : Krnl Proc) (p : Proc) : Prop where
  pte : ∀ page, after.pte (p, page) = k.pte (p, page)
  mmap : (after.mms p).mmap = (k.mms p).mmap
  symrgtbl : (after.mms p).symrgtbl = (k.mms p).symrgtbl
  bytes : ∀ page, after.bytes (p, page) = k.bytes (p, page)

namespace SameView
variable (same : SameView k after p)
include same

omit [DecidableEq Proc] in
theorem readAddr (source : CInt) (offset : Addr) :
    Interleaved.readAddr (after.mms p) source offset = Interleaved.readAddr (k.mms p) source offset := by
  simp only [Interleaved.readAddr, Mm.symrg, same.symrgtbl]

omit [DecidableEq Proc] in
theorem ramCell {page : Page} {fpn : Addr} (frame : (k.pte (p, page)).ramFrame = some fpn) (offset : Fin pagingPagesz) :
    after.mram.cell fpn offset = k.mram.cell fpn offset := by
  have bytes := congrFun (same.bytes page) offset
  rw [bytes_of_ramFrame frame, bytes_of_ramFrame (same.pte page ▸ frame)] at bytes
  exact Option.some.inj bytes

omit [DecidableEq Proc] in
theorem swapCell {page : Page} {fpn : Addr} (frame : (k.pte (p, page)).swapFrame = some fpn) (offset : Fin pagingPagesz) :
    after.activeMswp.cell fpn offset = k.activeMswp.cell fpn offset := by
  have bytes := congrFun (same.bytes page) offset
  rw [bytes_of_swapFrame frame, bytes_of_swapFrame (same.pte page ▸ frame)] at bytes
  exact Option.some.inj bytes

/-- READs of the process return what they did, if those of pages on the swap device do. -/
theorem reads_iff (devices : SameDevices k after) (order : InOrder k) (later : InOrder after) :
    (∀ source offset, readResult env after p source offset = readResult env k p source offset) ↔
      ∀ reqSwpfpn offset, AsksFor k p reqSwpfpn offset →
        swappedResult env after p reqSwpfpn offset (after.way p) = swappedResult env k p reqSwpfpn offset (k.way p) := by
  constructor
  · rintro reads reqSwpfpn cell ⟨source, offset, addr, checked, frame, rfl⟩
    have result := reads source offset
    rw [readResult_address checked, readResult_address ((same.readAddr source offset).trans checked), getvalResult_swapped order frame,
      getvalResult_swapped later ((congrArg Pte.swapFrame (same.pte _)).trans frame)] at result
    exact wordOf_swapped_inj result
  · intro swapped source offset
    cases checked : Interleaved.readAddr (k.mms p) source offset with
    | error fault => rw [readResult_checks, readResult_checks, same.readAddr, checked]; rfl
    | ok addr =>
      cases addr with
      | none => rw [readResult_checks, readResult_checks, same.readAddr, checked]; rfl
      | some addr =>
        rw [readResult_address checked, readResult_address ((same.readAddr source offset).trans checked)]
        congr 1
        have entry := same.pte (placeOf p addr).2
        cases frame : (k.pte (placeOf p addr)).swapFrame with
        | some reqSwpfpn =>
          rw [getvalResult_swapped order frame, getvalResult_swapped later ((congrArg Pte.swapFrame entry).trans frame)]
          exact swapped reqSwpfpn (offsetOf addr) ⟨source, offset, addr, checked, frame, rfl⟩
        | none =>
          rw [getvalResult_kept order frame, getvalResult_kept later ((congrArg Pte.swapFrame entry).trans frame),
            congrArg Pte.ramFrame entry]
          cases resident : (k.pte (placeOf p addr)).ramFrame with
          | none => rfl
          | some fpn =>
            have cell := same.ramCell resident (offsetOf addr)
            rw [Option.elim_some, Option.elim_some, Memphy.find, Memphy.find, devices.ramSize]
            rw [Memphy.cell, Memphy.cell] at cell
            rw [cell]

end SameView

end Reads

section Changes
variable {reqSwpfpn vicfpn vicSwpfpn : Addr} {offset : Fin pagingPagesz} {swapFree : List Addr} {oldest : Option Addr} {way : Way}

/-- A READ of `p` returns this byte of RAM for a page on the swap device: no frame of RAM is
free, and the oldest page of `p` goes over the page asked for before that comes in. -/
structure ReadsVictim (env : Env Proc) (k : Krnl Proc) (p : Proc) (vicfpn vicSwpfpn : Addr) (offset : Fin pagingPagesz) : Prop where
  serves : env.Serves p
  way : k.way p = .evict vicfpn vicSwpfpn
  inside : vicfpn.toNat < k.mram.frames
  asks : AsksFor k p vicSwpfpn offset

omit [DecidableEq Proc] in
theorem ReadsVictim.source (reading : ReadsVictim env k p vicfpn vicSwpfpn offset) (order : InOrder k) :
    vicSwpfpn.toNat < k.activeMswp.frames := by
  obtain ⟨_, _, head⟩ := wayIn_evict_iff.mp reading.way
  obtain ⟨rest, free⟩ := List.head?_eq_some_iff.mp head
  exact order.swapFree vicSwpfpn (free ▸ List.mem_cons_self)

/-- The page evicted now leaves RAM, or is not there; or it goes over the page asked for. -/
def EvictionShows (env : Env Proc) (k : Krnl Proc) (p : Proc) (reqSwpfpn vicfpn vicSwpfpn : Addr) (offset : Fin pagingPagesz) : Prop :=
  reqSwpfpn.toNat < k.activeMswp.frames ∧
    ((k.mram.frames ≤ vicfpn.toNat ∧ (env.Misses p ∨ env.Serves p)) ∨
      (vicfpn.toNat < k.mram.frames ∧ env.Serves p ∧ reqSwpfpn = vicSwpfpn ∧ k.mram.cell vicfpn offset ≠ k.activeMswp.cell reqSwpfpn offset))

/-- A READ of `p` shows whether a frame of RAM is free: without one, with these free frames of the
swap device and this frame of its oldest page, it returns something else. -/
def NeedsFrame (env : Env Proc) (k : Krnl Proc) (p : Proc) (swapFree : List Addr) (oldest : Option Addr) : Prop :=
  ∃ reqSwpfpn offset, AsksFor k p reqSwpfpn offset ∧
    ((oldest = none ∨ swapFree = []) ∨ ∃ vicfpn vicSwpfpn, oldest = some vicfpn ∧ swapFree.head? = some vicSwpfpn ∧
      EvictionShows env k p reqSwpfpn vicfpn vicSwpfpn offset)

omit [DecidableEq Proc] in
theorem swappedResult_congr (devices : SameDevices k after)
    (swap : after.activeMswp.cell reqSwpfpn offset = k.activeMswp.cell reqSwpfpn offset)
    (ram : ∀ vicfpn, way = .evict vicfpn reqSwpfpn → after.mram.cell vicfpn offset = k.mram.cell vicfpn offset) :
    swappedResult env after p reqSwpfpn offset way = swappedResult env k p reqSwpfpn offset way := by
  cases way with
  | stuck => rfl
  | free => rw [swappedResult, swappedResult, Memphy.frames, devices.swapSize, swap, Memphy.frames]
  | evict vicfpn vicSwpfpn =>
    rw [swappedResult, swappedResult, Memphy.frames, Memphy.frames, devices.ramSize, devices.swapSize, swap, Memphy.frames, Memphy.frames]
    by_cases same : reqSwpfpn = vicSwpfpn
    · subst same
      rw [ram vicfpn rfl]
    · rw [if_neg same, if_neg same]

omit [DecidableEq Proc] in
/-- A page that is overwritten on its way is what the RAM frame has. -/
theorem swappedResult_own_iff (devices : SameDevices k after) : swappedResult env after p reqSwpfpn offset (.evict vicfpn reqSwpfpn) =
    swappedResult env k p reqSwpfpn offset (.evict vicfpn reqSwpfpn) ↔
      (vicfpn.toNat < k.mram.frames → reqSwpfpn.toNat < k.activeMswp.frames → env.Serves p →
        after.mram.cell vicfpn offset = k.mram.cell vicfpn offset) := by
  rw [swappedResult, swappedResult, Memphy.frames, Memphy.frames, devices.ramSize, devices.swapSize, ← Memphy.frames, ← Memphy.frames]
  by_cases inside : vicfpn.toNat < k.mram.frames ∧ reqSwpfpn.toNat < k.activeMswp.frames
  · rw [if_pos inside, if_pos inside, if_pos rfl, if_pos rfl, Env.report_eq_iff]
    simp only [inside.1, inside.2, true_implies]
  · rw [if_neg inside, if_neg inside]
    exact iff_of_true rfl fun target source => absurd ⟨target, source⟩ inside

omit [DecidableEq Proc] in
theorem swappedResult_evict_iff : swappedResult env k p reqSwpfpn offset (.evict vicfpn vicSwpfpn) =
    swappedResult env k p reqSwpfpn offset .free ↔ ¬EvictionShows env k p reqSwpfpn vicfpn vicSwpfpn offset := by
  rw [swappedResult, swappedResult, EvictionShows]
  by_cases source : reqSwpfpn.toNat < k.activeMswp.frames
  · by_cases target : vicfpn.toNat < k.mram.frames
    · rw [if_pos ⟨target, source⟩, if_pos source, Env.report_eq_iff]
      have inside : ¬k.mram.frames ≤ vicfpn.toNat := Nat.not_le.mpr target
      by_cases same : reqSwpfpn = vicSwpfpn
      · subst same
        simp only [if_true, source, target, inside, true_and, false_and, false_or, not_and, not_not]
      · rw [if_neg same]
        simp only [inside, same, false_and, and_false, or_self, not_false_eq_true, implies_true]
    · rw [if_neg fun both => target both.1, if_pos source, eq_comm, Env.report_eq_none_iff]
      have outside : k.mram.frames ≤ vicfpn.toNat := Nat.not_lt.mp target
      simp only [source, target, outside, true_and, false_and, or_false]
  · rw [if_neg fun both => source both.2, if_neg source]
    exact iff_of_true rfl fun shows => source shows.1

omit [DecidableEq Proc] in
theorem needsFrame_iff : (∀ reqSwpfpn offset, AsksFor k p reqSwpfpn offset →
      swappedResult env k p reqSwpfpn offset (wayIn [] swapFree oldest) = swappedResult env k p reqSwpfpn offset .free) ↔
    ¬NeedsFrame env k p swapFree oldest := by
  have one (reqSwpfpn : Addr) (offset : Fin pagingPagesz) : swappedResult env k p reqSwpfpn offset (wayIn [] swapFree oldest) =
      swappedResult env k p reqSwpfpn offset .free ↔ ¬((oldest = none ∨ swapFree = []) ∨ ∃ vicfpn vicSwpfpn, oldest = some vicfpn ∧
        swapFree.head? = some vicSwpfpn ∧ EvictionShows env k p reqSwpfpn vicfpn vicSwpfpn offset) := by
    by_cases stuck : oldest = none ∨ swapFree = []
    · rw [wayIn_stuck_iff.mpr ⟨rfl, stuck⟩]
      refine iff_of_false (fun same => ?_) (not_not_intro (.inl stuck))
      rw [swappedResult, swappedResult] at same
      split at same
      · obtain ⟨byte, differs⟩ := Env.report_code same.symm
        cases differs
      · cases same
    · obtain ⟨some, more⟩ := not_or.mp stuck
      obtain ⟨vicfpn, rfl⟩ := Option.ne_none_iff_exists'.mp some
      obtain ⟨vicSwpfpn, rest, rfl⟩ := List.exists_cons_of_ne_nil more
      rw [wayIn_evict_iff.mpr ⟨rfl, rfl, rfl⟩, swappedResult_evict_iff]
      simp
  simp only [one, NeedsFrame, not_exists, not_and]

omit [DecidableEq Proc] in
/-- The frame that the oldest page goes to matters only to the page that was in it. -/
theorem swappedResult_traded_iff {other : Addr} (apart : reqSwpfpn ≠ other) : swappedResult env k p reqSwpfpn offset (.evict vicfpn other) =
    swappedResult env k p reqSwpfpn offset (.evict vicfpn vicSwpfpn) ↔
      ¬(env.Serves p ∧ vicfpn.toNat < k.mram.frames ∧ reqSwpfpn.toNat < k.activeMswp.frames ∧ reqSwpfpn = vicSwpfpn ∧
        k.mram.cell vicfpn offset ≠ k.activeMswp.cell reqSwpfpn offset) := by
  rw [swappedResult, swappedResult]
  by_cases inside : vicfpn.toNat < k.mram.frames ∧ reqSwpfpn.toNat < k.activeMswp.frames
  · rw [if_pos inside, if_pos inside, Env.report_eq_iff, if_neg apart]
    by_cases same : reqSwpfpn = vicSwpfpn
    · subst same
      simp only [if_true, inside.1, inside.2, true_and, not_and, not_not]
      exact forall_congr' fun _ => eq_comm
    · rw [if_neg same]
      simp [same]
  · rw [if_neg inside, if_neg inside]
    refine iff_of_true rfl ?_
    rintro ⟨_, target, source, _⟩
    exact inside ⟨target, source⟩

/-- Process `p` has what it had, and its next READ returns what it would have returned. -/
structure Untouched (env : Env Proc) (k after : Krnl Proc) (p : Proc) : Prop extends SameView k after p where
  reads : ∀ source offset, readResult env after p source offset = readResult env k p source offset

end Changes
end LamiaAtrium
