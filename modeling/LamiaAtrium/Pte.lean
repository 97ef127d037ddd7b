import LamiaAtrium.Machine

/-! Page table entries and virtual addresses, bit by bit as the macros of `mm.h`
and `bitops.h` lay them out. `BITS_PER_LONG` is 32 there, since `CONFIG64` is not
defined, so every mask is a 32-bit word. -/

namespace LamiaAtrium

abbrev Pte := BitVec 32

def bit (nr : Nat) : BitVec 32 := 1#32 <<< nr

def genmask (h l : Nat) : BitVec 32 := (~~~0#32 <<< l) &&& (~~~0#32 >>> (32 - h - 1))

def pagingPagesz : Nat := 256

def pagingPtePresentMask : BitVec 32 := bit 31
def pagingPteSwappedMask : BitVec 32 := bit 30
def pagingPteDirtyMask : BitVec 32 := bit 28
def pagingPteFpnMask : BitVec 32 := genmask 12 0
def pagingPteSwptypMask : BitVec 32 := genmask 4 0
def pagingPteSwpoffMask : BitVec 32 := genmask 25 5
def pagingOffstMask : BitVec 32 := genmask 7 0
def pagingPgnMask : BitVec 32 := genmask 21 8

def setbit (v mask : Pte) : Pte := v ||| mask

def clrbit (v mask : Pte) : Pte := v &&& ~~~mask

/-- `SETVAL` with a 64-bit `value`: the entry is widened for the `|` and cut back
to 32 bits by the assignment. -/
def setval (v : Pte) (value : Addr) (mask : BitVec 32) (offst : Nat) : Pte :=
  ((v &&& ~~~mask).setWidth 64 ||| ((value <<< offst) &&& mask.setWidth 64)).setWidth 32

def getval (v mask : BitVec 32) (offst : Nat) : BitVec 32 := (v &&& mask) >>> offst

/-- `PAGING_PAGE_PRESENT` alone; the callers test the swapped bit first. -/
def pagingPagePresent (pte : Pte) : Bool := pte &&& pagingPtePresentMask != 0#32

def pagingPageSwapped (pte : Pte) : Bool := pte &&& pagingPteSwappedMask != 0#32

def pagingFpn (pte : Pte) : BitVec 32 := getval pte pagingPteFpnMask 0

def pagingSwp (pte : Pte) : BitVec 32 := getval pte pagingPteSwpoffMask 5

/-- `PAGING_PGN` of an `int` or of the low word of an `addr_t`: both give the same
14 bits. -/
def pagingPgn (addr : CInt) : BitVec 32 := getval addr pagingPgnMask 8

def pagingOffst (addr : CInt) : BitVec 32 := getval addr pagingOffstMask 0

def Pte.setFpn (pte : Pte) (fpn : Addr) : Pte :=
  let pte := setbit pte pagingPtePresentMask
  let pte := clrbit pte pagingPteSwappedMask
  let pte := clrbit pte pagingPteDirtyMask
  let pte := clrbit pte pagingPteFpnMask
  setval pte fpn pagingPteFpnMask 0

def Pte.setSwap (pte : Pte) (swptyp : CInt) (swpoff : Addr) : Pte :=
  let pte := clrbit pte pagingPtePresentMask
  let pte := setbit pte pagingPteSwappedMask
  let pte := clrbit pte pagingPteDirtyMask
  let pte := setval pte (intToAddr swptyp) pagingPteSwptypMask 0
  setval pte swpoff pagingPteSwpoffMask 5

/-- Classification by the code's own tests: the swapped bit wins over the present
bit, as in `pg_getpage` and `free_pcb_memph`. -/
def Pte.resident (pte : Pte) : Bool := !pagingPageSwapped pte && pagingPagePresent pte

section Masks

@[simp] theorem getElem_bit (nr i : Nat) (inside : i < 32) : (bit nr)[i] = decide (i = nr) := by
  simp only [bit, BitVec.getElem_shiftLeft]
  grind

private theorem getLsbD_ones (i : Nat) : (~~~0#32).getLsbD i = decide (i < 32) := by
  rw [BitVec.getLsbD_not, BitVec.getLsbD_zero, Bool.not_false, Bool.and_true]

@[simp] theorem getLsbD_genmask (h l i : Nat) (bound : h < 32) :
    (genmask h l).getLsbD i = (decide (l ≤ i) && decide (i ≤ h)) := by
  rw [genmask, BitVec.getLsbD_and, BitVec.getLsbD_shiftLeft, BitVec.getLsbD_ushiftRight, getLsbD_ones, getLsbD_ones]
  grind

@[simp] theorem getElem_genmask (h l i : Nat) (bound : h < 32) (inside : i < 32) :
    (genmask h l)[i] = (decide (l ≤ i) && decide (i ≤ h)) := by
  rw [← BitVec.getLsbD_eq_getElem, getLsbD_genmask h l i bound]

theorem and_bit_ne_zero (word : BitVec 32) (nr : Nat) (bound : nr < 32) :
    (word &&& bit nr != 0#32) = word[nr] := by
  rw [Bool.eq_iff_iff, bne_iff_ne]
  constructor
  · intro nonzero
    apply Classical.byContradiction
    intro clear
    apply nonzero
    ext i inside
    rw [BitVec.getElem_and, getElem_bit]
    by_cases same : i = nr
    · subst same
      simp [clear]
    · simp [same]
  · intro set zero
    have read := congrArg (fun word : BitVec 32 => word[nr]) zero
    simp [set] at read

end Masks

section Encoding
variable (pte : Pte) (fpn swpoff : Addr) (swptyp : CInt)

theorem pagingPagePresent_eq : pagingPagePresent pte = pte[31] := and_bit_ne_zero pte 31 (by decide)

theorem pagingPageSwapped_eq : pagingPageSwapped pte = pte[30] := and_bit_ne_zero pte 30 (by decide)

@[simp] theorem setFpn_present : pagingPagePresent (pte.setFpn fpn) = true := by
  simp [pagingPagePresent_eq, Pte.setFpn, setval, setbit, clrbit, pagingPtePresentMask, pagingPteSwappedMask,
    pagingPteDirtyMask, pagingPteFpnMask]

@[simp] theorem setFpn_swapped : pagingPageSwapped (pte.setFpn fpn) = false := by
  simp [pagingPageSwapped_eq, Pte.setFpn, setval, setbit, clrbit, pagingPteSwappedMask, pagingPteFpnMask]

@[simp] theorem setSwap_present : pagingPagePresent (pte.setSwap swptyp swpoff) = false := by
  simp [pagingPagePresent_eq, Pte.setSwap, setval, setbit, clrbit, pagingPtePresentMask, pagingPteSwappedMask,
    pagingPteSwptypMask, pagingPteSwpoffMask]

@[simp] theorem setSwap_swapped : pagingPageSwapped (pte.setSwap swptyp swpoff) = true := by
  simp [pagingPageSwapped_eq, Pte.setSwap, setval, setbit, clrbit, pagingPteSwappedMask, pagingPteDirtyMask,
    pagingPteSwptypMask, pagingPteSwpoffMask]

theorem pagingFpn_setFpn : pagingFpn (pte.setFpn fpn) = (fpn.setWidth 13).setWidth 32 := by
  ext i inside
  simp [pagingFpn, getval, Pte.setFpn, setval, setbit, clrbit, pagingPteFpnMask]
  grind

/-- The flags and the number that the last call wrote are all that is left. -/
theorem setFpn_setFpn (first : Addr) : (pte.setFpn first).setFpn fpn = pte.setFpn fpn := by
  ext i inside
  simp [Pte.setFpn, setval, setbit, clrbit, pagingPtePresentMask, pagingPteSwappedMask, pagingPteDirtyMask, pagingPteFpnMask]
  grind

theorem pagingSwp_setSwap : pagingSwp (pte.setSwap swptyp swpoff) = (swpoff.setWidth 21).setWidth 32 := by
  ext i inside
  simp [pagingSwp, getval, Pte.setSwap, setval, setbit, clrbit, pagingPteSwpoffMask]
  grind

theorem pagingFpn_setFpn_of_lt (bound : fpn.toNat < 2 ^ 13) :
    (pagingFpn (pte.setFpn fpn)).setWidth 64 = fpn := by
  apply BitVec.eq_of_toNat_eq
  rw [pagingFpn_setFpn]
  simp only [BitVec.toNat_setWidth]
  omega

theorem pagingSwp_setSwap_of_lt (bound : swpoff.toNat < 2 ^ 21) :
    (pagingSwp (pte.setSwap swptyp swpoff)).setWidth 64 = swpoff := by
  apply BitVec.eq_of_toNat_eq
  rw [pagingSwp_setSwap]
  simp only [BitVec.toNat_setWidth]
  omega

@[simp] theorem setFpn_resident : (pte.setFpn fpn).resident = true := by simp [Pte.resident]

@[simp] theorem setSwap_resident : (pte.setSwap swptyp swpoff).resident = false := by simp [Pte.resident]

end Encoding

section Addresses
variable (addr : CInt)

theorem pagingFpn_lt (pte : Pte) : (pagingFpn pte).toNat < 2 ^ 13 := by
  have shape : pagingFpn pte = (pte.setWidth 13).setWidth 32 := by
    ext i inside
    simp [pagingFpn, getval, pagingPteFpnMask]
    grind
  rw [shape]
  simp only [BitVec.toNat_setWidth]
  omega

theorem pagingSwp_lt (pte : Pte) : (pagingSwp pte).toNat < 2 ^ 21 := by
  have shape : pagingSwp pte = (pte.extractLsb' 5 21).setWidth 32 := by
    ext i inside
    simp [pagingSwp, getval, pagingPteSwpoffMask]
    grind
  rw [shape]
  simp only [BitVec.toNat_setWidth, BitVec.extractLsb'_toNat]
  omega

/-- `PAGING_PGN` keeps bits 8 to 21: the page number within the 4 MB bus. -/
theorem pagingPgn_toNat : (pagingPgn addr).toNat = addr.toNat / 2 ^ 8 % 2 ^ 14 := by
  have shape : pagingPgn addr = (addr.extractLsb' 8 14).setWidth 32 := by
    ext i inside
    simp [pagingPgn, getval, pagingPgnMask]
    grind
  rw [shape]
  simp only [BitVec.toNat_setWidth, BitVec.extractLsb'_toNat, Nat.shiftRight_eq_div_pow]
  omega

theorem pagingOffst_toNat : (pagingOffst addr).toNat = addr.toNat % 2 ^ 8 := by
  have shape : pagingOffst addr = (addr.setWidth 8).setWidth 32 := by
    ext i inside
    simp [pagingOffst, getval, pagingOffstMask]
    grind
  rw [shape]
  simp only [BitVec.toNat_setWidth]
  omega

end Addresses

end LamiaAtrium
