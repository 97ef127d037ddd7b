import Mathlib.Data.List.Nodup
import Mathlib.Data.List.Perm.Basic
import Mathlib.Data.Set.Basic
import Mathlib.Logic.Function.Basic

/-! Exclusive ownership of a pool of resources. Each resource waits in a free list or
is held at one place, never both and never twice. The rules below are the only ways
an allocator moves a resource; a resource in flight between two of its steps counts
as free. -/

namespace Ownership
variable {Resource Place : Type}

/-- Every resource of the pool occurs exactly once among the free list and the
places, and nothing outside the pool occurs at all. -/
structure Exclusive (pool : Set Resource) (free : List Resource) (held : Place → Option Resource) : Prop where
  nodup : free.Nodup
  apart : ∀ place resource, held place = some resource → resource ∉ free
  unique : ∀ first second resource, held first = some resource → held second = some resource → first = second
  covered : ∀ resource, resource ∈ pool ↔ resource ∈ free ∨ ∃ place, held place = some resource

namespace Exclusive
variable {pool : Set Resource} {free rest : List Resource} {held : Place → Option Resource}
variable {place other : Place} {resource : Resource}

theorem free_mem (owned : Exclusive pool free held) (member : resource ∈ free) : resource ∈ pool :=
  (owned.covered resource).mpr (.inl member)

theorem held_mem (owned : Exclusive pool free held) (place : Place) (holds : held place = some resource) : resource ∈ pool :=
  (owned.covered resource).mpr (.inr ⟨place, holds⟩)

/-- A pool of which nothing has been handed out. -/
theorem fresh (nodup : free.Nodup) (all : ∀ resource, resource ∈ pool ↔ resource ∈ free) (none : ∀ place, held place = none) :
    Exclusive pool free held where
  nodup := nodup
  apart place resource holds := by rw [none place] at holds; cases holds
  unique first second resource holds := by rw [none first] at holds; cases holds
  covered resource := by
    rw [all resource]
    constructor
    · exact .inl
    · rintro (member | ⟨place, holds⟩)
      · exact member
      · rw [none place] at holds; cases holds

theorem perm (owned : Exclusive pool free held) (same : free.Perm rest) : Exclusive pool rest held where
  nodup := same.nodup_iff.mp owned.nodup
  apart place resource holds member := owned.apart place resource holds (same.mem_iff.mpr member)
  unique := owned.unique
  covered resource := by rw [owned.covered resource, same.mem_iff]

section Transfer
variable [DecidableEq Place]

/-- A free resource goes to a place that holds none. -/
theorem take (owned : Exclusive pool (resource :: rest) held) (empty : held place = none) :
    Exclusive pool rest (Function.update held place (some resource)) := by
  have fresh : resource ∉ rest := (List.nodup_cons.mp owned.nodup).1
  have unheld : ∀ other, held other ≠ some resource := fun other holds =>
    owned.apart other resource holds List.mem_cons_self
  constructor
  · exact (List.nodup_cons.mp owned.nodup).2
  · intro other found holds member
    by_cases same : other = place
    · subst same
      rw [Function.update_self] at holds
      cases holds
      exact fresh member
    · rw [Function.update_of_ne same] at holds
      exact owned.apart other found holds (List.mem_cons_of_mem _ member)
  · intro first second found holdsFirst holdsSecond
    by_cases atFirst : first = place <;> by_cases atSecond : second = place
    · rw [atFirst, atSecond]
    · rw [atFirst, Function.update_self] at holdsFirst
      rw [Function.update_of_ne atSecond] at holdsSecond
      cases holdsFirst
      exact absurd holdsSecond (unheld second)
    · rw [atSecond, Function.update_self] at holdsSecond
      rw [Function.update_of_ne atFirst] at holdsFirst
      cases holdsSecond
      exact absurd holdsFirst (unheld first)
    · rw [Function.update_of_ne atFirst] at holdsFirst
      rw [Function.update_of_ne atSecond] at holdsSecond
      exact owned.unique first second found holdsFirst holdsSecond
  · intro found
    rw [owned.covered found]
    constructor
    · rintro (member | ⟨other, holds⟩)
      · rcases List.mem_cons.mp member with same | member
        · exact .inr ⟨place, by rw [Function.update_self, same]⟩
        · exact .inl member
      · have distinct : other ≠ place := fun same => by rw [same, empty] at holds; cases holds
        exact .inr ⟨other, by rw [Function.update_of_ne distinct, holds]⟩
    · rintro (member | ⟨other, holds⟩)
      · exact .inl (List.mem_cons_of_mem _ member)
      · by_cases same : other = place
        · rw [same, Function.update_self] at holds
          cases holds
          exact .inl List.mem_cons_self
        · rw [Function.update_of_ne same] at holds
          exact .inr ⟨other, holds⟩

theorem give (owned : Exclusive pool free held) (holds : held place = some resource) :
    Exclusive pool (resource :: free) (Function.update held place none) := by
  have elsewhere : ∀ other found, Function.update held place none other = some found →
      other ≠ place ∧ held other = some found := by
    intro other found taken
    by_cases same : other = place
    · rw [same, Function.update_self] at taken
      cases taken
    · rw [Function.update_of_ne same] at taken
      exact ⟨same, taken⟩
  constructor
  · exact List.nodup_cons.mpr ⟨owned.apart place resource holds, owned.nodup⟩
  · intro other found taken member
    obtain ⟨distinct, taken⟩ := elsewhere other found taken
    rcases List.mem_cons.mp member with same | member
    · exact distinct (owned.unique other place resource (same ▸ taken) holds)
    · exact owned.apart other found taken member
  · intro first second found takenFirst takenSecond
    exact owned.unique first second found (elsewhere first found takenFirst).2 (elsewhere second found takenSecond).2
  · intro found
    rw [owned.covered found]
    constructor
    · rintro (member | ⟨other, taken⟩)
      · exact .inl (List.mem_cons_of_mem _ member)
      · by_cases same : other = place
        · rw [same, holds] at taken
          cases taken
          exact .inl List.mem_cons_self
        · exact .inr ⟨other, by rw [Function.update_of_ne same, taken]⟩
    · rintro (member | ⟨other, taken⟩)
      · rcases List.mem_cons.mp member with same | member
        · exact .inr ⟨place, same ▸ holds⟩
        · exact .inl member
      · exact .inr ⟨other, (elsewhere other found taken).2⟩

/-- A resource goes from one place to another without being free in between. -/
theorem move (owned : Exclusive pool free held) (holds : held place = some resource) (empty : held other = none) :
    Exclusive pool free (Function.update (Function.update held place none) other (some resource)) := by
  apply (owned.give holds).take
  by_cases same : other = place
  · rw [same, Function.update_self]
  · rw [Function.update_of_ne same, empty]

end Transfer
end Exclusive

end Ownership
