import Mathlib.Algebra.Group.Nat.Defs

/-! Byte-addressed memory: words that are loaded from and stored to ranges of addresses,
and arrays of words inside a larger range. -/

namespace Memory

abbrev Bytes := Nat → BitVec 8

/-- A range of addresses. -/
structure Region where
  base : Nat
  size : Nat
  deriving DecidableEq, Repr

namespace Region

def Apart (first second : Region) : Prop :=
  first.base + first.size ≤ second.base ∨ second.base + second.size ≤ first.base

def Within (inner outer : Region) : Prop :=
  outer.base ≤ inner.base ∧ inner.base + inner.size ≤ outer.base + outer.size

/-- Element `index` of the array of `width`-byte words that starts where the region does. -/
def slot (region : Region) (width index : Nat) : Region := { base := region.base + width * index, size := width }

theorem Apart.symm {first second : Region} (apart : first.Apart second) : second.Apart first := Or.symm apart

theorem Apart.mono {first second firstPart secondPart : Region} (apart : first.Apart second) (left : firstPart.Within first)
    (right : secondPart.Within second) : firstPart.Apart secondPart := by
  simp only [Apart, Within] at *
  omega

theorem slot_within {region : Region} {width count index : Nat} (inside : index < count) (fits : width * count ≤ region.size) :
    (region.slot width index).Within region := by
  have upto : width * (index + 1) ≤ width * count := Nat.mul_le_mul_left width inside
  rw [Nat.mul_succ] at upto
  simp only [Within, slot]
  omega

theorem slot_apart (region : Region) (width : Nat) {index other : Nat} (distinct : index ≠ other) :
    (region.slot width index).Apart (region.slot width other) := by
  simp only [Apart, slot]
  rcases Nat.lt_or_gt_of_ne distinct with before | before
  · have upto : width * (index + 1) ≤ width * other := Nat.mul_le_mul_left width before
    rw [Nat.mul_succ] at upto
    omega
  · have upto : width * (other + 1) ≤ width * index := Nat.mul_le_mul_left width before
    rw [Nat.mul_succ] at upto
    omega

end Region

variable {memory other : Bytes} {region target : Region}

/-- The lowest `count` bytes of the word at `base`, which has `width` bits. -/
def lowBytes (width : Nat) (memory : Bytes) (base : Nat) : Nat → BitVec width
  | 0 => 0
  | count + 1 => lowBytes width memory base count ||| (memory (base + count)).setWidth width <<< (8 * count)

/-- The word in a region, low byte first. -/
def load (memory : Bytes) (region : Region) : BitVec (8 * region.size) :=
  lowBytes (8 * region.size) memory region.base region.size

def store (memory : Bytes) (region : Region) (word : BitVec (8 * region.size)) : Bytes := fun address =>
  if region.base ≤ address ∧ address < region.base + region.size then word.extractLsb' (8 * (address - region.base)) 8
  else memory address

def clear (memory : Bytes) (region : Region) : Bytes := fun address =>
  if region.base ≤ address ∧ address < region.base + region.size then 0 else memory address

private theorem getLsbD_lowBytes (width base : Nat) (count i : Nat) (inside : i < width) :
    (lowBytes width memory base count).getLsbD i = (decide (i < 8 * count) && (memory (base + i / 8)).getLsbD (i % 8)) := by
  induction count with
  | zero => simp [lowBytes]
  | succ count ih =>
    rw [lowBytes, BitVec.getLsbD_or, ih, BitVec.getLsbD_shiftLeft, BitVec.getLsbD_setWidth]
    rcases (by omega : i < 8 * count ∨ 8 * count ≤ i ∧ i < 8 * (count + 1) ∨ 8 * (count + 1) ≤ i) with lower | ⟨low, high⟩ | above
    · have upTo : i < 8 * (count + 1) := by omega
      simp [lower, upTo]
    · have byte : i / 8 = count := by omega
      have bit : i % 8 = i - 8 * count := by omega
      have room : i - 8 * count < width := by omega
      simp [inside, high, byte, bit, room, Nat.not_lt.mpr low]
    · have none : (memory (base + count)).getLsbD (i - 8 * count) = false := BitVec.getLsbD_of_ge _ _ (by omega)
      simp [none, Nat.not_lt.mpr above, show ¬i < 8 * count by omega]

theorem getLsbD_load (memory : Bytes) (region : Region) {i : Nat} (inside : i < 8 * region.size) :
    (load memory region).getLsbD i = (memory (region.base + i / 8)).getLsbD (i % 8) := by
  rw [load, getLsbD_lowBytes _ _ _ _ inside, decide_eq_true inside, Bool.true_and]

/-- A load sees nothing but the bytes of its region. -/
theorem load_congr (same : ∀ address, region.base ≤ address → address < region.base + region.size → memory address = other address) :
    load memory region = load other region := by
  apply BitVec.eq_of_getLsbD_eq
  intro i inside
  have byte : i / 8 < region.size := by omega
  rw [getLsbD_load _ _ inside, getLsbD_load _ _ inside, same _ (Nat.le_add_right _ _) (Nat.add_lt_add_left byte _)]

theorem load_store_same (word : BitVec (8 * region.size)) : load (store memory region word) region = word := by
  apply BitVec.eq_of_getLsbD_eq
  intro i inside
  have byte : i / 8 < region.size := by omega
  have bit : 8 * (region.base + i / 8 - region.base) + i % 8 = i := by omega
  rw [getLsbD_load _ _ inside, store, if_pos ⟨Nat.le_add_right _ _, Nat.add_lt_add_left byte _⟩, BitVec.getLsbD_extractLsb', bit,
    decide_eq_true (Nat.mod_lt i (by decide)), Bool.true_and]

theorem load_store_apart (apart : target.Apart region) (word : BitVec (8 * region.size)) :
    load (store memory region word) target = load memory target := by
  apply load_congr
  intro address low high
  rw [store, if_neg]
  simp only [Region.Apart] at apart
  omega

theorem load_clear_within (inside : target.Within region) : load (clear memory region) target = 0 := by
  apply BitVec.eq_of_getLsbD_eq
  intro i bound
  simp only [Region.Within] at inside
  rw [getLsbD_load _ _ bound, clear, if_pos (by omega)]
  simp

theorem load_clear_apart (apart : target.Apart region) : load (clear memory region) target = load memory target := by
  apply load_congr
  intro address low high
  rw [clear, if_neg]
  simp only [Region.Apart] at apart
  omega

end Memory
