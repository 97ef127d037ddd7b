import Mathlib.Algebra.Group.Nat.Defs
import Mathlib.Logic.Function.Basic

/-! The C machine under the kernel's sources. Machine words keep their width, so
every sum, shift and conversion wraps as the C types do. An execution the
language leaves undefined stops with a fault instead of inventing a value. -/

namespace LamiaAtrium

/-- `BYTE` is a plain `char`, eight bits and signed. -/
abbrev Byte := BitVec 8

/-- `int`, read as signed through `toInt`; `uint32_t` has the same bits. -/
abbrev CInt := BitVec 32

/-- `addr_t` and `arg_t` under `MM64`: `uint64_t`. -/
abbrev Addr := BitVec 64

inductive Fault where
  | nullDereference
  | outOfBounds
  | useAfterFree
  | wildPointer
  deriving DecidableEq, Repr

abbrev Outcome := Except Fault

namespace Outcome

@[simp] theorem bind_ok (value : α) (next : α → Outcome β) :
    ((Except.ok value : Outcome α) >>= next) = next value := rfl

@[simp] theorem bind_error (fault : Fault) (next : α → Outcome β) :
    ((Except.error fault : Outcome α) >>= next) = .error fault := rfl

@[simp] theorem pure_eq (value : α) : (pure value : Outcome α) = .ok value := rfl

/-- A sequence that returned ran its first half to a value and its second half
from there. Proofs about the model peel computations apart with this. -/
theorem bind_eq_ok {first : Outcome α} {next : α → Outcome β} {result : β}
    (returned : (first >>= next) = .ok result) :
    ∃ value, first = .ok value ∧ next value = .ok result := by
  cases first with
  | error fault => cases returned
  | ok value => exact ⟨value, rfl, returned⟩

end Outcome

def intToAddr (value : CInt) : Addr := value.signExtend 64

def addrToInt (value : Addr) : CInt := value.setWidth 32

theorem toInt_of_nonneg {value : CInt} (nonneg : 0 ≤ value.toInt) : value.toInt = value.toNat := by
  rw [BitVec.toInt_eq_toNat_cond] at nonneg ⊢
  split at nonneg <;> omega

theorem addrToInt_of_lt {word : Addr} (small : word.toNat < 2 ^ 31) : (addrToInt word).toInt = word.toNat := by
  have kept : (addrToInt word).toNat = word.toNat := by
    rw [addrToInt, BitVec.toNat_setWidth]
    omega
  rw [BitVec.toInt_eq_toNat_of_lt (by omega), kept]

end LamiaAtrium
