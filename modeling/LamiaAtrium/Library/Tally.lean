import Mathlib.Algebra.BigOperators.Fin
import Mathlib.Algebra.BigOperators.Group.Finset.Piecewise
import Mathlib.Algebra.Order.BigOperators.Group.Finset
import Mathlib.Data.Fintype.BigOperators

/-! The total weight of a finite family of places, and how it changes when one place
does. -/

namespace Tally
variable {Place Content : Type} [Fintype Place]

def total (weight : Content → Nat) (family : Place → Content) : Nat := ∑ place, weight (family place)

section Sums
variable (weight : Content → Nat) (family : Place → Content)

theorem weight_le_total (place : Place) : weight (family place) ≤ total weight family :=
  Finset.single_le_sum (f := fun place => weight (family place)) (fun _ _ => Nat.zero_le _) (Finset.mem_univ place)

theorem pair_le_total [DecidableEq Place] {first second : Place} (distinct : first ≠ second) :
    weight (family first) + weight (family second) ≤ total weight family := by
  rw [← Finset.sum_pair distinct (f := fun place => weight (family place))]
  exact Finset.sum_le_sum_of_subset (Finset.subset_univ _)

variable {weight family}

theorem total_eq_zero (weightless : ∀ place, weight (family place) = 0) : total weight family = 0 :=
  Finset.sum_eq_zero fun place _ => weightless place

theorem total_mono {Other : Type} {other : Other → Nat} {second : Place → Other}
    (each : ∀ place, weight (family place) ≤ other (second place)) : total weight family ≤ total other second :=
  Finset.sum_le_sum fun place _ => each place

theorem total_le {most : Nat} (each : ∀ place, weight (family place) ≤ most) : total weight family ≤ Fintype.card Place * most := by
  calc ∑ place, weight (family place)
      ≤ ∑ _place : Place, most := Finset.sum_le_sum fun place _ => each place
    _ = Fintype.card Place * most := Finset.sum_const_nat fun _ _ => rfl

/-- All the weight sits at one place. -/
theorem total_single (place : Place) (elsewhere : ∀ other, other ≠ place → weight (family other) = 0) :
    total weight family = weight (family place) :=
  Finset.sum_eq_single place (fun other _ distinct => elsewhere other distinct)
    fun outside => absurd (Finset.mem_univ place) outside

end Sums

/-- Only the changed place counts. -/
theorem total_update [DecidableEq Place] (weight : Content → Nat) (family : Place → Content) (place : Place)
    (content : Content) :
    total weight (Function.update family place content) + weight (family place) = total weight family + weight content := by
  have moved (other : Place) : weight (Function.update family place content other) =
      Function.update (fun other => weight (family other)) place (weight content) other := by
    rw [Function.apply_update (fun _ => weight)]
  unfold total
  rw [Finset.sum_congr rfl fun other _ => moved other, Finset.sum_update_of_mem (Finset.mem_univ place),
    ← Finset.add_sum_erase _ (fun other => weight (family other)) (Finset.mem_univ place), Finset.sdiff_singleton_eq_erase]
  omega

/-- The weights of the entries of a list. -/
theorem total_getElem (weight : Content → Nat) (entries : List Content) :
    total (fun i : Fin entries.length => weight entries[i]) id = (entries.map weight).sum :=
  Fin.sum_univ_fun_getElem entries weight

/-- Numbers below a bound that are listed in one place at most, and once. -/
theorem total_length_le {items : Content → List Nat} {family : Place → Content} {bound : Nat}
    (below : ∀ place, ∀ item ∈ items (family place), item < bound)
    (once : ∀ item, total (fun content => (items content).count item) family ≤ 1) :
    total (fun content => (items content).length) family ≤ bound := by
  have counted (place : Place) :
      (items (family place)).length = ∑ item ∈ Finset.range bound, (items (family place)).count item := by
    have whole := Multiset.sum_count_eq_card (s := Finset.range bound) (m := (items (family place) : Multiset Nat))
      fun item member => Finset.mem_range.mpr (below place item member)
    simpa only [Multiset.coe_card, Multiset.coe_count] using whole.symm
  unfold total at once ⊢
  rw [Finset.sum_congr rfl fun place _ => counted place, Finset.sum_comm]
  calc ∑ item ∈ Finset.range bound, ∑ place, (items (family place)).count item
      ≤ ∑ _item ∈ Finset.range bound, 1 := Finset.sum_le_sum fun item _ => once item
    _ = bound := by rw [Finset.sum_const_nat fun _ _ => rfl, Finset.card_range, Nat.mul_one]

-- The sum itself is never to be computed.
attribute [irreducible] total

end Tally
