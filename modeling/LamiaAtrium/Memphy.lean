import LamiaAtrium.Pte

/-! The physical devices of `mm-memphy.c`, and the page copy of `mm64.c` between two
of them. `storage` is the `malloc`ed array of `maxsz` bytes: an access past it is a
fault. A local `BYTE` that C leaves uninitialised reads as the parameter `uninit`. -/

namespace LamiaAtrium

structure Memphy where
  storage : Nat → Byte
  maxsz : Nat
  rdmflg : Bool
  cursor : Nat
  /-- `free_fp_list`, head first. -/
  freeFpList : List Addr

namespace Memphy

/-- `MEMPHY_mv_csr`: the cursor walks one cell at a time and wraps at `maxsz`. -/
def mvCsr (mp : Memphy) (offset : Addr) : Memphy :=
  { mp with cursor := Nat.repeat (fun cursor => (cursor + 1) % mp.maxsz) (min offset.toNat mp.maxsz) 0 }

def load (mp : Memphy) (addr : Addr) : Outcome Byte :=
  if addr.toNat < mp.maxsz then .ok (mp.storage addr.toNat) else .error .outOfBounds

def store (mp : Memphy) (addr : Addr) (value : Byte) : Outcome Memphy :=
  if addr.toNat < mp.maxsz then .ok { mp with storage := Function.update mp.storage addr.toNat value }
  else .error .outOfBounds

/-- `MEMPHY_seq_read`, with the previous content of `*value` and the new one. -/
def seqRead (mp : Memphy) (addr : Addr) (value : Byte) : Outcome (Int × Memphy × Byte) :=
  if !mp.rdmflg then .ok (-1, mp, value)
  else do
    let mp := mp.mvCsr addr
    let value ← mp.load addr
    return (0, mp, value)

def read (mp : Memphy) (addr : Addr) (value : Byte) : Outcome (Int × Memphy × Byte) :=
  if mp.rdmflg then do
    let value ← mp.load addr
    return (0, mp, value)
  else mp.seqRead addr value

def seqWrite (mp : Memphy) (addr : Addr) (value : Byte) : Outcome (Int × Memphy) :=
  if !mp.rdmflg then .ok (-1, mp)
  else do
    let mp ← (mp.mvCsr addr).store addr value
    return (0, mp)

def write (mp : Memphy) (addr : Addr) (data : Byte) : Outcome (Int × Memphy) :=
  if mp.rdmflg then do
    let mp ← mp.store addr data
    return (0, mp)
  else mp.seqWrite addr data

/-- `MEMPHY_get_freefp`: `none` is its result -1, which leaves the device alone. -/
def getFreefp (mp : Memphy) : Option (Addr × Memphy) :=
  match mp.freeFpList with
  | [] => none
  | fpn :: rest => some (fpn, { mp with freeFpList := rest })

def putFreefp (mp : Memphy) (fpn : Addr) : Memphy := { mp with freeFpList := fpn :: mp.freeFpList }

def frames (mp : Memphy) : Nat := mp.maxsz / pagingPagesz

/-- `MEMPHY_format`. A device without a frame keeps the list it has, and the list of a single
frame goes on with `next`: the first node's pointer is set by the loop only. -/
def format (mp : Memphy) (pagesz : Nat) (next : List Addr) : Memphy :=
  match mp.maxsz / pagesz with
  | 0 => mp
  | 1 => { mp with freeFpList := 0 :: next }
  | numfp => { mp with freeFpList := (List.range numfp).map (BitVec.ofNat 64) }

/-- `init_memphy` on the memory `mp`. -/
def initMemphy (mp : Memphy) (maxSize : Nat) (randomflg : CInt) (next : List Addr) : Memphy :=
  let mp := { mp with maxsz := maxSize, storage := fun _ => 0 }.format pagingPagesz next
  let mp := { mp with rdmflg := randomflg != 0 }
  if !mp.rdmflg then { mp with cursor := 0 } else mp

/-- What `init_memphy` leaves on the list of the memory it found: the old list of a device
without a frame, and what the pointer of a single node leads to. -/
def staleFrames (mp : Memphy) (maxSize : Nat) (next : List Addr) : List Addr :=
  match maxSize / pagingPagesz with
  | 0 => mp.freeFpList
  | 1 => next
  | _ => []

theorem format_eq (mp : Memphy) (next : List Addr) : mp.format pagingPagesz next =
    { mp with freeFpList := (List.range mp.frames).map (BitVec.ofNat 64) ++ mp.staleFrames mp.maxsz next } := by
  rcases Nat.lt_or_ge (mp.maxsz / pagingPagesz) 2 with few | several
  · obtain none | one := Nat.le_one_iff_eq_zero_or_eq_one.mp (Nat.le_of_lt_succ few)
    · simp only [format, staleFrames, frames, none]
      rfl
    · simp only [format, staleFrames, frames, one]
      rfl
  · obtain ⟨more, count⟩ := Nat.exists_eq_add_of_le' several
    simp only [format, staleFrames, frames, count, List.append_nil]

theorem initMemphy_eq (mp : Memphy) (maxSize : Nat) (randomflg : CInt) (next : List Addr) : mp.initMemphy maxSize randomflg next =
    { storage := fun _ => 0, maxsz := maxSize, rdmflg := randomflg != 0, cursor := if randomflg != 0 then mp.cursor else 0,
      freeFpList := (List.range (maxSize / pagingPagesz)).map (BitVec.ofNat 64) ++ mp.staleFrames maxSize next } := by
  rw [initMemphy, format_eq]
  by_cases mode : randomflg = 0#32 <;> simp [mode, frames, staleFrames]

@[simp] theorem getFreefp_nil {mp : Memphy} (empty : mp.freeFpList = []) : mp.getFreefp = none := by
  simp [getFreefp, empty]

@[simp] theorem getFreefp_cons {mp : Memphy} {fpn : Addr} {rest : List Addr} (free : mp.freeFpList = fpn :: rest) :
    mp.getFreefp = some (fpn, { mp with freeFpList := rest }) := by
  simp [getFreefp, free]

end Memphy

/-- The body of the loop of `__swap_cp_page` for one `cellidx`. -/
def swapCpCell (uninit : Byte) (srcfpn dstfpn : Addr) (devices : Memphy × Memphy) (cellidx : Nat) :
    Outcome (Memphy × Memphy) := do
  let (mpsrc, mpdst) := devices
  let addrsrc := srcfpn * 256#64 + BitVec.ofNat 64 cellidx
  let addrdst := dstfpn * 256#64 + BitVec.ofNat 64 cellidx
  let (_, mpsrc, data) ← mpsrc.read addrsrc uninit
  let (_, mpdst) ← mpdst.write addrdst data
  return (mpsrc, mpdst)

/-- `__swap_cp_page`. It ignores the result codes of both device calls. -/
def swapCpPage (uninit : Byte) (mpsrc : Memphy) (srcfpn : Addr) (mpdst : Memphy) (dstfpn : Addr) :
    Outcome (Memphy × Memphy) :=
  (List.range pagingPagesz).foldlM (swapCpCell uninit srcfpn dstfpn) (mpsrc, mpdst)

section Copy
variable {mpsrc mpdst : Memphy} {addr srcfpn dstfpn : Addr} {uninit : Byte}

/-- A sequential device refuses: `*value` stays as it was. -/
theorem Memphy.read_eq (mp : Memphy) (inside : addr.toNat < mp.maxsz) (value : Byte) : mp.read addr value =
    .ok (if mp.rdmflg then 0 else -1, mp, if mp.rdmflg then mp.storage addr.toNat else value) := by
  cases mode : mp.rdmflg with
  | true => simp [Memphy.read, Memphy.load, mode, inside]
  | false => simp [Memphy.read, Memphy.seqRead, mode]

theorem Memphy.write_eq (mp : Memphy) (inside : addr.toNat < mp.maxsz) (data : Byte) : mp.write addr data =
    .ok (if mp.rdmflg then 0 else -1,
      { mp with storage := if mp.rdmflg then Function.update mp.storage addr.toNat data else mp.storage }) := by
  by_cases random : mp.rdmflg = true
  · rw [Memphy.write, if_pos random, Memphy.store, if_pos inside, if_pos random, if_pos random]
    rfl
  · rw [Memphy.write, if_neg random, Memphy.seqWrite, if_pos (by simpa using random), if_neg random, if_neg random]

theorem Memphy.read_inside (mp : Memphy) (inside : addr.toNat < mp.maxsz) (value : Byte) :
    ∃ code data, mp.read addr value = .ok (code, mp, data) ∧ (mp.rdmflg = true → data = mp.storage addr.toNat) :=
  ⟨_, _, mp.read_eq inside value, fun random => if_pos random⟩

theorem Memphy.write_inside (mp : Memphy) (inside : addr.toNat < mp.maxsz) (data : Byte) :
    ∃ code storage, mp.write addr data = .ok (code, { mp with storage }) ∧
      (mp.rdmflg = true → storage = Function.update mp.storage addr.toNat data) :=
  ⟨_, _, mp.write_eq inside data, fun random => if_pos random⟩

/-- Byte `cellidx` of frame `fpn`: the product and the sum do not wrap. -/
theorem frame_address {fpn : Addr} {maxsz : Nat} (cellidx : Nat) (inside : fpn.toNat < maxsz / pagingPagesz)
    (small : fpn.toNat < 2 ^ 56) (cell : cellidx < pagingPagesz) :
    (fpn * 256#64 + BitVec.ofNat 64 cellidx).toNat = fpn.toNat * pagingPagesz + cellidx ∧
      fpn.toNat * pagingPagesz + cellidx < maxsz := by
  simp only [pagingPagesz, BitVec.toNat_add, BitVec.toNat_mul, BitVec.toNat_ofNat] at *
  omega

/-- The destination after the first `count` cells of frame `dst` were overwritten
with those of frame `src` of the source. -/
def copiedCells (source target : Nat → Byte) (src dst count : Nat) : Nat → Byte := fun cell =>
  if dst * pagingPagesz ≤ cell ∧ cell < dst * pagingPagesz + count then
    source (src * pagingPagesz + (cell - dst * pagingPagesz))
  else target cell

/-- The destination's bytes after `count` rounds of the loop: a sequential source leaves the
local `data` as it was, and a sequential destination stores nothing. -/
def storedCells (uninit : Byte) (mpsrc mpdst : Memphy) (src dst count : Nat) : Nat → Byte :=
  if mpdst.rdmflg then copiedCells (if mpsrc.rdmflg then mpsrc.storage else fun _ => uninit) mpdst.storage src dst count
  else mpdst.storage

private theorem swapCpPage_prefix (source : srcfpn.toNat < mpsrc.frames) (target : dstfpn.toNat < mpdst.frames)
    (smallSource : srcfpn.toNat < 2 ^ 56) (smallTarget : dstfpn.toNat < 2 ^ 56) (count : Nat)
    (bound : count ≤ pagingPagesz) :
    (List.range count).foldlM (swapCpCell uninit srcfpn dstfpn) (mpsrc, mpdst) =
      .ok (mpsrc, { mpdst with storage := storedCells uninit mpsrc mpdst srcfpn.toNat dstfpn.toNat count }) := by
  induction count with
  | zero =>
    have nothing : storedCells uninit mpsrc mpdst srcfpn.toNat dstfpn.toNat 0 = mpdst.storage := by
      funext cell
      rw [storedCells]
      split
      · rw [copiedCells, if_neg (by omega)]
      · rfl
    rw [nothing]
    rfl
  | succ count ih =>
    obtain ⟨readAt, readInside⟩ := frame_address count source smallSource (by omega)
    obtain ⟨writeAt, writeInside⟩ := frame_address count target smallTarget (by omega)
    have step : storedCells uninit mpsrc mpdst srcfpn.toNat dstfpn.toNat (count + 1) =
        if mpdst.rdmflg then Function.update (storedCells uninit mpsrc mpdst srcfpn.toNat dstfpn.toNat count)
            (dstfpn.toNat * pagingPagesz + count) (if mpsrc.rdmflg then mpsrc.storage (srcfpn.toNat * pagingPagesz + count) else uninit)
        else storedCells uninit mpsrc mpdst srcfpn.toNat dstfpn.toNat count := by
      cases toRandom : mpdst.rdmflg with
      | false => simp only [storedCells, toRandom, Bool.false_eq_true, if_false]
      | true =>
        funext cell
        simp only [storedCells, toRandom, if_true, Function.update_apply, copiedCells]
        cases mpsrc.rdmflg <;> grind
    rw [List.range_succ, List.foldlM_append, ih (by omega), Outcome.bind_ok, List.foldlM_cons, swapCpCell,
      mpsrc.read_eq (readAt ▸ readInside), Outcome.bind_ok]
    dsimp only
    rw [Memphy.write_eq { mpdst with storage := storedCells uninit mpsrc mpdst srcfpn.toNat dstfpn.toNat count }
      (writeAt ▸ writeInside), Outcome.bind_ok, readAt, writeAt, step]
    rfl

/-- `__swap_cp_page` on frames that both devices have: it never leaves the devices, and it
touches nothing but the destination's storage. -/
theorem swapCpPage_eq (uninit : Byte) (source : srcfpn.toNat < mpsrc.frames) (target : dstfpn.toNat < mpdst.frames)
    (smallSource : srcfpn.toNat < 2 ^ 56) (smallTarget : dstfpn.toNat < 2 ^ 56) :
    swapCpPage uninit mpsrc srcfpn mpdst dstfpn =
      .ok (mpsrc, { mpdst with storage := storedCells uninit mpsrc mpdst srcfpn.toNat dstfpn.toNat pagingPagesz }) :=
  swapCpPage_prefix source target smallSource smallTarget pagingPagesz (Nat.le_refl _)

/-- Between two random-access devices it copies the frame. -/
theorem swapCpPage_spec (uninit : Byte) (source : srcfpn.toNat < mpsrc.frames) (target : dstfpn.toNat < mpdst.frames)
    (smallSource : srcfpn.toNat < 2 ^ 32) (smallTarget : dstfpn.toNat < 2 ^ 32) :
    ∃ storage, swapCpPage uninit mpsrc srcfpn mpdst dstfpn = .ok (mpsrc, { mpdst with storage }) ∧
      (mpsrc.rdmflg = true → mpdst.rdmflg = true →
        storage = copiedCells mpsrc.storage mpdst.storage srcfpn.toNat dstfpn.toNat pagingPagesz) := by
  refine ⟨_, swapCpPage_eq uninit source target (by omega) (by omega), fun fromRandom toRandom => ?_⟩
  rw [storedCells, if_pos toRandom, if_pos fromRandom]

end Copy

end LamiaAtrium
