import LamiaAtrium.Proofs.FlatMemory
import LamiaAtrium.Proofs.Regions

/-! The bounds checks of `__read` and `__write`. They agree as long as the start of the region
and the offset do not add up to 2^64, and what is written is one byte of the region as long
as no live byte of the process has the same page and offset. -/

namespace LamiaAtrium
variable {Proc : Type}

/-- A register number as the instructions carry it. -/
def rgidOf (index : Fin pagingMaxSymtblSz) : CInt := BitVec.ofNat 32 index.val

theorem rgidOf_toNat (index : Fin pagingMaxSymtblSz) : (rgidOf index).toNat = index.val := by
  have bound : index.val < 30 := index.isLt
  rw [rgidOf, BitVec.toNat_ofNat]
  omega

theorem getSymrgByid_rgidOf (index : Fin pagingMaxSymtblSz) : getSymrgByid (rgidOf index) = some index.val := by
  have bound : index.val < 30 := index.isLt
  have number := rgidOf_toNat index
  have nonneg : (rgidOf index).toInt = index.val := by
    rw [BitVec.toInt_eq_toNat_of_lt (by omega), number]
  have low : (rgidOf index).slt 0#32 = false := by
    rw [BitVec.slt, nonneg]
    exact decide_eq_false (Int.not_lt.mpr (Int.natCast_nonneg _))
  have high : (30#32).slt (rgidOf index) = false := by
    rw [BitVec.slt, nonneg]
    exact decide_eq_false (Int.not_lt.mpr (by change (index.val : Int) ≤ 30; omega))
  rw [getSymrgByid, low, high, number]
  rfl

theorem symrg_val (mm : Mm) (index : Fin pagingMaxSymtblSz) : mm.symrg index.val = .ok (mm.symrgtbl index) :=
  dif_pos index.isLt

namespace VmRg

def Live (rg : VmRg) : Prop := ¬(rg.rgStart = 0 ∧ rg.rgEnd = 0)

instance (rg : VmRg) : Decidable rg.Live := inferInstanceAs (Decidable ¬_)

/-- The test of `__read`. -/
def Reads (rg : VmRg) (offset : Addr) : Prop := rg.Live ∧ offset < rg.rgEnd - rg.rgStart

instance (rg : VmRg) (offset : Addr) : Decidable (rg.Reads offset) := inferInstanceAs (Decidable (_ ∧ _))

/-- The test of `__write`. -/
def Writes (rg : VmRg) (offset : Addr) : Prop := rg.rgStart + offset < rg.rgEnd

instance (rg : VmRg) (offset : Addr) : Decidable (rg.Writes offset) := inferInstanceAs (Decidable (_ < _))

section Words
variable {rg : VmRg} {offset : Addr}

theorem sum_toNat (unwrapped : rg.rgStart.toNat + offset.toNat < 2 ^ 64) :
    (rg.rgStart + offset).toNat = rg.rgStart.toNat + offset.toNat := by
  rw [BitVec.toNat_add, Nat.mod_eq_of_lt unwrapped]

theorem sum_wraps (wrapped : ¬rg.rgStart.toNat + offset.toNat < 2 ^ 64) : (rg.rgStart + offset).toNat < rg.rgStart.toNat := by
  have bound := offset.isLt
  have start := rg.rgStart.isLt
  rw [BitVec.toNat_add]
  omega

theorem size_toNat (ordered : rg.rgStart ≤ rg.rgEnd) : (rg.rgEnd - rg.rgStart).toNat = rg.rgEnd.toNat - rg.rgStart.toNat :=
  BitVec.toNat_sub_of_le ordered

theorem reads_iff (ordered : rg.rgStart ≤ rg.rgEnd) : rg.Reads offset ↔ rg.rgStart.toNat + offset.toNat < rg.rgEnd.toNat := by
  have size := size_toNat ordered
  have ends := rg.rgEnd.isLt
  unfold Reads Live
  rw [BitVec.lt_def, size]
  constructor
  · rintro ⟨_, inside⟩
    omega
  · intro inside
    refine ⟨?_, by omega⟩
    rintro ⟨_, atZero⟩
    rw [atZero] at inside
    exact absurd inside (Nat.not_lt_zero _)

theorem writes_iff (unwrapped : rg.rgStart.toNat + offset.toNat < 2 ^ 64) :
    rg.Writes offset ↔ rg.rgStart.toNat + offset.toNat < rg.rgEnd.toNat := by
  rw [Writes, BitVec.lt_def, sum_toNat unwrapped]

theorem writes_of_wrap (ordered : rg.rgStart ≤ rg.rgEnd) (wrapped : ¬rg.rgStart.toNat + offset.toNat < 2 ^ 64) : rg.Writes offset := by
  have below := sum_wraps wrapped
  rw [BitVec.le_def] at ordered
  rw [Writes, BitVec.lt_def]
  omega

end Words
end VmRg

variable [DecidableEq Proc] {k : Krnl Proc} {caller : Proc} {vmaid : CInt} {area : Nat × VmArea}
  {index : Fin pagingMaxSymtblSz} {offset : Addr}

/-- `__read` once the offset is accepted. -/
def readAt (env : Env Proc) (k : Krnl Proc) (caller : Proc) (addr : Addr) : Outcome (Int × Option Byte × Krnl Proc) := do
  let (code, data, k) ← pgGetval env k caller (addrToInt addr)
  if code ≠ 0 then return (-1, data, k)
  return (0, data, k)

/-- `__write` once the offset is accepted. -/
def writeAt (env : Env Proc) (k : Krnl Proc) (caller : Proc) (addr : Addr) (value : Byte) : Outcome (Int × Krnl Proc) := do
  let (_, k) ← pgSetval env k caller (addrToInt addr) value
  return (0, k)

/-- A word is never below 0, so the checks of an offset come down to its upper bound. -/
theorem not_outside {value size : Addr} (inside : value < size) (offset : Addr) : ¬(offset < 0#64 ∨ value ≥ size) := by
  rintro (negative | beyond)
  · exact absurd negative (BitVec.not_lt_zero)
  · exact absurd inside (BitVec.not_lt.mpr beyond)

theorem read_eq (env : Env Proc) (k : Krnl Proc) (caller : Proc) (index : Fin pagingMaxSymtblSz) (offset : Addr) :
    read env k caller (rgidOf index) offset =
      if ((k.mms caller).symrgtbl index).Reads offset then readAt env k caller (((k.mms caller).symrgtbl index).rgStart + offset)
      else .ok (-1, none, k) := by
  rw [read, getSymrgByid_rgidOf]
  simp only [symrg_val, Outcome.bind_ok]
  by_cases vacant : ((k.mms caller).symrgtbl index).rgStart = 0 ∧ ((k.mms caller).symrgtbl index).rgEnd = 0
  · rw [if_pos vacant, if_neg fun reads => reads.1 vacant]
    rfl
  · rw [if_neg vacant]
    by_cases inside : offset < ((k.mms caller).symrgtbl index).rgEnd - ((k.mms caller).symrgtbl index).rgStart
    · rw [if_pos (show VmRg.Reads _ _ from ⟨vacant, inside⟩), if_neg (not_outside inside offset)]
      rfl
    · rw [if_neg fun reads : VmRg.Reads _ _ => inside reads.2, if_pos (.inr (BitVec.not_lt.mp inside))]
      rfl

theorem write_eq (env : Env Proc) (known : getVmaByNum (k.mms caller) vmaid = .ok (some area)) (index : Fin pagingMaxSymtblSz)
    (offset : Addr) (value : Byte) :
    write env k caller vmaid (rgidOf index) offset value =
      if ((k.mms caller).symrgtbl index).Writes offset then
        writeAt env k caller (((k.mms caller).symrgtbl index).rgStart + offset) value
      else .ok (-1, k) := by
  rw [write, getSymrgByid_rgidOf]
  simp only [known, symrg_val, Outcome.bind_ok]
  by_cases inside : ((k.mms caller).symrgtbl index).Writes offset
  · rw [if_pos inside, if_neg (not_outside inside offset)]
    rfl
  · rw [if_neg inside, if_pos (.inr (BitVec.not_lt.mp inside))]
    rfl

/-- The page and the offset in it that stand for an address. -/
def cellOf (caller : Proc) (addr : Addr) : (Proc × Page) × Fin pagingPagesz :=
  (placeOf caller (addrToInt addr), offsetOf (addrToInt addr))

def Krnl.byteAt (k : Krnl Proc) (caller : Proc) (addr : Addr) : Option Byte :=
  k.bytes (cellOf caller addr).1 (cellOf caller addr).2

omit [DecidableEq Proc] in
/-- Addresses have one page and offset if they agree in the 22 bits of the bus. -/
theorem cellOf_eq_iff {who : Proc} {first second : Addr} :
    cellOf who first = cellOf caller second ↔ who = caller ∧ first.toNat % 2 ^ 22 = second.toNat % 2 ^ 22 := by
  have number (addr : Addr) : (pageOf (intToAddr (pagingPgn (addrToInt addr)))).toNat = addr.toNat / 2 ^ 8 % 2 ^ 14 := by
    have page : (pagingPgn (addrToInt addr)).toNat = (addrToInt addr).toNat / 2 ^ 8 % 2 ^ 14 := pagingPgn_toNat _
    have positive : (pagingPgn (addrToInt addr)).msb = false := by
      rw [BitVec.msb_eq_false_iff_two_mul_lt, page]
      omega
    have wide : (intToAddr (pagingPgn (addrToInt addr))).toNat = (pagingPgn (addrToInt addr)).toNat := by
      rw [intToAddr, BitVec.signExtend_eq_setWidth_of_msb_false positive, BitVec.toNat_setWidth_of_le (by decide)]
    rw [pageOf_toNat _ (by rw [wide, page]; omega), wide, page]
    simp only [addrToInt, BitVec.toNat_setWidth]
    omega
  have offset (addr : Addr) : (offsetOf (addrToInt addr)).val = addr.toNat % 2 ^ 8 := by
    change (pagingOffst (addrToInt addr)).toNat = _
    rw [pagingOffst_toNat]
    simp only [addrToInt, BitVec.toNat_setWidth]
    omega
  rw [cellOf, cellOf, Prod.mk.injEq, Prod.mk.injEq, and_assoc, ← BitVec.toNat_inj, number, number, Fin.ext_iff, offset, offset]
  refine and_congr Iff.rfl ⟨fun same => ?_, fun same => ⟨?_, ?_⟩⟩ <;> omega

theorem byteAt_write {bytes : FlatMemory Proc} {after : Krnl Proc} {addr : Addr} {value : Byte}
    (written : after.bytes = FlatMemory.write bytes (placeOf caller (addrToInt addr)) (offsetOf (addrToInt addr)) value) (who : Proc)
    (other : Addr) : after.byteAt who other =
      if cellOf who other = cellOf caller addr then some value else bytes (cellOf who other).1 (cellOf who other).2 := by
  unfold Krnl.byteAt
  rw [written, FlatMemory.write]
  by_cases place : (cellOf who other).1 = placeOf caller (addrToInt addr)
  · rw [place, Function.update_self]
    by_cases offset : (cellOf who other).2 = offsetOf (addrToInt addr)
    · rw [offset, Function.update_self, if_pos (Prod.ext place offset)]
    · rw [Function.update_of_ne offset, if_neg fun same => offset (congrArg Prod.snd same)]
  · rw [Function.update_of_ne place, if_neg fun same => place (congrArg Prod.fst same)]

theorem writeAt_eq_ok {env : Env Proc} {addr : Addr} {value : Byte} {code : Int} {after : Krnl Proc} :
    writeAt env k caller addr value = .ok (code, after) ↔ code = 0 ∧ ∃ result, pgSetval env k caller (addrToInt addr) value = .ok (result, after) := by
  constructor
  · intro returned
    obtain ⟨⟨result, last⟩, stored, returned⟩ := Outcome.bind_eq_ok returned
    cases returned
    exact ⟨rfl, result, stored⟩
  · rintro ⟨rfl, result, stored⟩
    rw [writeAt, stored]
    rfl

/-- A write by a caller that is not found evicts a page to a swap frame that has other bytes:
the page is marked as swapped, and was not copied. -/
def SkipsCopy (k : Krnl Proc) (caller : Proc) (pgn : CInt) : Prop :=
  pagingPageSwapped (k.pte (caller, pageOf (intToAddr pgn))) = true ∧ k.mram.freeFpList = [] ∧
    ∃ vicpgn mm vicSwpfpn rest addr, findVictimPage (k.mms caller) = some (vicpgn, mm) ∧
      k.activeMswp.freeFpList = vicSwpfpn :: rest ∧ (cellOf caller addr).1 = (caller, pageOf vicpgn) ∧
      k.byteAt caller addr ≠ some (k.activeMswp.storage (vicSwpfpn.toNat * pagingPagesz + (cellOf caller addr).2))

/-- `__read` and `__write` pass on the offsets inside the region. What a write changes that
returns 0 is a byte of the region, and it is the only live byte that changes. -/
structure KeepsToRegion (env : Env Proc) (k : Krnl Proc) (caller : Proc) (vmaid : CInt) (index : Fin pagingMaxSymtblSz)
    (offset : Addr) (rg : VmRg) : Prop where
  reads : read env k caller (rgidOf index) offset =
    if rg.Live ∧ offset < rg.rgEnd - rg.rgStart then readAt env k caller (rg.rgStart + offset) else .ok (-1, none, k)
  writes : ∀ value, write env k caller vmaid (rgidOf index) offset value =
    if rg.Live ∧ offset < rg.rgEnd - rg.rgStart then writeAt env k caller (rg.rgStart + offset) value else .ok (-1, k)
  within : ∀ value after, write env k caller vmaid (rgidOf index) offset value = .ok (0, after) →
    (rg.rgStart + offset).toNat ∈ rg.bytes
  cell : Good k → RandomAccess k → ∀ value after, write env k caller vmaid (rgidOf index) offset value = .ok (0, after) →
    ∀ who addr, cellOf who addr ≠ cellOf caller (rg.rgStart + offset) → after.byteAt who addr = k.byteAt who addr
  live : Good k → RandomAccess k → ∀ value after, write env k caller vmaid (rgidOf index) offset value = .ok (0, after) →
    ∀ addr other, addr.toNat ∈ (k.mms caller).live other → addr ≠ rg.rgStart + offset → after.byteAt caller addr = k.byteAt caller addr

/-- The sum does not wrap around. Where the byte is stored, no other live byte lies at a
multiple of 2^22 bytes from it; where the caller is not found, no page is lost. -/
structure StoresOneByte (env : Env Proc) (k : Krnl Proc) (caller : Proc) (offset : Addr) (rg : VmRg) : Prop where
  unwrapped : rg.rgStart.toNat + offset.toNat < 2 ^ 64
  unaliased : Good k → RandomAccess k → rg.Reads offset → Available k caller (pagingPgn (addrToInt (rg.rgStart + offset))) →
    env.Serves caller → ∀ addr other, addr.toNat ∈ (k.mms caller).live other → addr ≠ rg.rgStart + offset →
      addr.toNat % 2 ^ 22 ≠ (rg.rgStart + offset).toNat % 2 ^ 22
  copied : Good k → RandomAccess k → rg.Reads offset → Available k caller (pagingPgn (addrToInt (rg.rgStart + offset))) →
    env.Misses caller → ¬SkipsCopy k caller (pagingPgn (addrToInt (rg.rgStart + offset)))

section Stores
variable {env : Env Proc} {addr : Addr} {value : Byte} {after : Krnl Proc}

/-- What a returned write has done to the bytes. -/
theorem writeAt_bytes (good : Good k) (random : RandomAccess k) {code : Int}
    (returned : writeAt env k caller addr value = .ok (code, after)) :
    after.bytes = k.bytes ∨
      (Available k caller (pagingPgn (addrToInt addr)) ∧ env.Serves caller ∧
        after.bytes = FlatMemory.write k.bytes (placeOf caller (addrToInt addr)) (offsetOf (addrToInt addr)) value) ∨
      Available k caller (pagingPgn (addrToInt addr)) ∧ env.Misses caller ∧
        ∃ f, pgGetpage env k caller (pagingPgn (addrToInt addr)) = .ok (0, some f, after) := by
  obtain ⟨_, result, stored⟩ := writeAt_eq_ok.mp returned
  rcases pgSetval_cases stored with ⟨_, _, same⟩ | ⟨available, misses, _, fetched⟩ | ⟨available, serves, _⟩
  · exact .inl same
  · exact .inr (.inr ⟨available, misses, fetched⟩)
  · obtain ⟨pid, other, known, found, reached⟩ := serves
    rcases pgSetval_writes good random known found (addrToInt addr) value with ⟨absent, _⟩ | ⟨_, last, _, ran, _, _, written⟩
    · exact absurd available absent
    · rw [callerKrnl_ok reached] at ran
      cases ran.symm.trans stored
      exact .inr (.inl ⟨available, ⟨pid, other, known, found, reached⟩, written⟩)

/-- A page that was not lost reads as before. -/
theorem missed_byteAt (good : Good k) (random : RandomAccess k) (misses : env.Misses caller) {pgn f : CInt}
    (fetched : pgGetpage env k caller pgn = .ok (0, some f, after)) (kept : ¬SkipsCopy k caller pgn) (who : Proc) (other : Addr) :
    after.byteAt who other = k.byteAt who other := by
  rcases pgGetpage_missed good random misses fetched with ⟨same, _⟩ | ⟨vicpgn, mm, vicSwpfpn, rest, swapped, full, victim, list, _, bytes⟩
  · rw [Krnl.byteAt, Krnl.byteAt, same]
  · rw [Krnl.byteAt, bytes]
    by_cases here : (cellOf who other).1 = (caller, pageOf vicpgn)
    · obtain rfl : who = caller := congrArg Prod.fst here
      by_contra differs
      rw [here, Function.update_self] at differs
      exact kept ⟨swapped, full, vicpgn, mm, vicSwpfpn, rest, other, victim, list, here, Ne.symm differs⟩
    · rw [Function.update_of_ne here]
      rfl

end Stores

section Agreement
variable {env : Env Proc} {rg : VmRg}

private theorem KeepsToRegion.unwrapped (keeps : KeepsToRegion env k caller vmaid index offset rg)
    (known : getVmaByNum (k.mms caller) vmaid = .ok (some area)) (region : (k.mms caller).symrgtbl index = rg)
    (ordered : rg.rgStart ≤ rg.rgEnd) : rg.rgStart.toNat + offset.toNat < 2 ^ 64 := by
  by_contra wrapped
  have rejected : ¬rg.Reads offset := by
    have ends := rg.rgEnd.isLt
    rw [VmRg.reads_iff ordered]
    omega
  have passed := (keeps.writes 0).trans (if_neg rejected)
  rw [write_eq env known, region, if_pos (VmRg.writes_of_wrap ordered wrapped)] at passed
  cases (writeAt_eq_ok.mp passed).1

/-- A live byte in the same cell takes every value that is written. -/
private theorem KeepsToRegion.unaliased (keeps : KeepsToRegion env k caller vmaid index offset rg) (good : Good k)
    (random : RandomAccess k) (inside : rg.Reads offset) (available : Available k caller (pagingPgn (addrToInt (rg.rgStart + offset))))
    (serves : env.Serves caller) (addr : Addr) (other : Fin pagingMaxSymtblSz) (live : addr.toNat ∈ (k.mms caller).live other)
    (apart : addr ≠ rg.rgStart + offset) : addr.toNat % 2 ^ 22 ≠ (rg.rgStart + offset).toNat % 2 ^ 22 := by
  intro same
  obtain ⟨pid, found, own, answer, reached⟩ := serves
  have stored (value : Byte) : k.byteAt caller addr = some value := by
    rcases pgSetval_writes good random own answer (addrToInt (rg.rgStart + offset)) value with
      ⟨absent, _⟩ | ⟨_, after, _, ran, _, _, written⟩
    · exact absurd available absent
    · rw [callerKrnl_ok reached] at ran
      have returned := ((keeps.writes value).trans (if_pos inside)).trans (writeAt_eq_ok.mpr ⟨rfl, 0, ran⟩)
      rw [← keeps.live good random value after returned addr other live apart, byteAt_write written,
        if_pos (cellOf_eq_iff.mpr ⟨rfl, same⟩)]
  cases (stored 0).symm.trans (stored 1)

private theorem KeepsToRegion.copied (keeps : KeepsToRegion env k caller vmaid index offset rg) (good : Good k)
    (random : RandomAccess k) (inside : rg.Reads offset) (available : Available k caller (pagingPgn (addrToInt (rg.rgStart + offset))))
    (misses : env.Misses caller) : ¬SkipsCopy k caller (pagingPgn (addrToInt (rg.rgStart + offset))) := by
  rintro ⟨swapped, full, vicpgn, mm, vicSwpfpn, rest, addr, victim, list, here, differs⟩
  rcases pgGetpage_spec env caller good (pagingPgn (addrToInt (rg.rgStart + offset))) with
    ⟨_, _, found⟩ | ⟨code, fpn, after, fetched, _⟩
  · exact found misses
  rcases (pgGetpage_cases fetched).2 with ⟨absent, _⟩ | ⟨_, rfl, f, rfl, _⟩
  · exact absent available
  obtain ⟨pid, own, missing⟩ := misses.callerPid
  have ran : pgSetval env k caller (addrToInt (rg.rgStart + offset)) 0 = .ok (0, after) := by
    rw [pgSetval, fetched]
    simp only [Outcome.bind_ok, own, syscall_missing missing, Outcome.pure_eq]
  have returned := ((keeps.writes 0).trans (if_pos inside)).trans (writeAt_eq_ok.mpr ⟨rfl, 0, ran⟩)
  rcases pgGetpage_missed good random misses fetched with
    ⟨_, room⟩ | ⟨vicpgn', mm', vicSwpfpn', rest', _, _, victim', list', resident, bytes⟩
  · exact room swapped full
  · cases victim.symm.trans victim'
    cases list.symm.trans list'
    have other : cellOf caller addr ≠ cellOf caller (rg.rgStart + offset) := by
      intro same
      rw [here.symm.trans (congrArg Prod.fst same)] at resident
      cases (Pte.not_resident_of_swapped swapped).symm.trans resident
    refine differs ?_
    rw [← keeps.cell good random 0 after returned caller addr other, Krnl.byteAt, bytes, here, Function.update_self]

private theorem StoresOneByte.keeps (stores : StoresOneByte env k caller offset rg)
    (known : getVmaByNum (k.mms caller) vmaid = .ok (some area)) (region : (k.mms caller).symrgtbl index = rg)
    (ordered : rg.rgStart ≤ rg.rgEnd) : KeepsToRegion env k caller vmaid index offset rg := by
  subst region
  have agree : ((k.mms caller).symrgtbl index).Writes offset ↔ ((k.mms caller).symrgtbl index).Reads offset :=
    (VmRg.writes_iff stores.unwrapped).trans (VmRg.reads_iff ordered).symm
  have writes (value : Byte) : write env k caller vmaid (rgidOf index) offset value =
      if ((k.mms caller).symrgtbl index).Reads offset then
        writeAt env k caller (((k.mms caller).symrgtbl index).rgStart + offset) value
      else .ok (-1, k) := by
    rw [write_eq env known, if_congr agree rfl rfl]
  have accepted {value : Byte} {after : Krnl Proc} (returned : write env k caller vmaid (rgidOf index) offset value = .ok (0, after)) :
      ((k.mms caller).symrgtbl index).Reads offset ∧
        writeAt env k caller (((k.mms caller).symrgtbl index).rgStart + offset) value = .ok (0, after) := by
    rw [writes] at returned
    split at returned
    · next inside => exact ⟨inside, returned⟩
    · cases returned
  refine ⟨read_eq env k caller index offset, writes, fun value after returned => ?_, fun good random value after returned who addr apart => ?_,
    fun good random value after returned addr other live apart => ?_⟩
  · have inside := (VmRg.reads_iff ordered).mp (accepted returned).1
    rw [VmRg.bytes, Set.mem_Ico, VmRg.sum_toNat stores.unwrapped]
    exact ⟨Nat.le_add_right _ _, inside⟩
  · obtain ⟨inside, returned⟩ := accepted returned
    rcases writeAt_bytes good random returned with same | ⟨_, _, written⟩ | ⟨available, misses, f, fetched⟩
    · rw [Krnl.byteAt, Krnl.byteAt, same]
    · rw [byteAt_write written, if_neg apart]
      rfl
    · exact missed_byteAt good random misses fetched (stores.copied good random inside available misses) who addr
  · obtain ⟨inside, returned⟩ := accepted returned
    rcases writeAt_bytes good random returned with same | ⟨available, serves, written⟩ | ⟨available, misses, f, fetched⟩
    · rw [Krnl.byteAt, Krnl.byteAt, same]
    · have cells := stores.unaliased good random inside available serves addr other live apart
      rw [byteAt_write written, if_neg fun same => cells (cellOf_eq_iff.mp same).2]
      rfl
    · exact missed_byteAt good random misses fetched (stores.copied good random inside available misses) caller addr

end Agreement

/-- Register 0 names the bytes from 100 on, register 1 those before. -/
def nameBytes (mm : Mm) : Mm :=
  { mm with symrgtbl := fun index => if index.val = 0 then { rgStart := 100, rgEnd := 200 }
      else if index.val = 1 then { rgStart := 0, rgEnd := 100 } else { rgStart := 0, rgEnd := 0 } }

/-- Page 0 is resident. -/
def twoRegions : Krnl Unit := (oneFrame [] [0, 1]).setMm () (nameBytes (mapPage (initMm []) 0 0))

def firstReg : Fin pagingMaxSymtblSz := ⟨0, by decide⟩

theorem crowdedEnv_serves : crowdedEnv.Serves () := ⟨1, (), rfl, rfl, rfl⟩

end LamiaAtrium
