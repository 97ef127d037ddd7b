import Mathlib.Data.List.Induction

/-! Finite runs of a labelled transition relation and the rule that carries an invariant
along them. The invariant may speak about the labels so far. -/

namespace Run
variable {State Label : Type} {step : State → Label → State → Prop}

/-- `Steps step first labels last`: the labels in the order in which the steps were taken. -/
inductive Steps (step : State → Label → State → Prop) : State → List Label → State → Prop where
  | refl (state : State) : Steps step state [] state
  | tail {first last next : State} {labels : List Label} {label : Label} :
      Steps step first labels last → step last label next → Steps step first (labels ++ [label]) next

theorem Steps.single {first last : State} {label : Label} (taken : step first label last) : Steps step first [label] last :=
  .tail (.refl first) taken

theorem Steps.trans {first middle last : State} {left right : List Label} (before : Steps step first left middle)
    (after : Steps step middle right last) : Steps step first (left ++ right) last := by
  induction after with
  | refl => rw [List.append_nil]; exact before
  | tail _ taken ih => rw [← List.append_assoc]; exact .tail ih taken

theorem Steps.cons {first middle last : State} {label : Label} {labels : List Label} (taken : step first label middle)
    (rest : Steps step middle labels last) : Steps step first (label :: labels) last :=
  (Steps.single taken).trans rest

theorem Steps.mono {other : State → Label → State → Prop} {first last : State} {labels : List Label}
    (run : Steps step first labels last) (implies : ∀ before label after, step before label after → other before label after) :
    Steps other first labels last := by
  induction run with
  | refl => exact .refl _
  | tail _ taken ih => exact .tail ih (implies _ _ _ taken)

theorem Steps.last_step {first last : State} {labels : List Label} {label : Label}
    (run : Steps step first (labels ++ [label]) last) : ∃ middle, Steps step first labels middle ∧ step middle label last := by
  generalize whole : labels ++ [label] = all at run
  cases run with
  | refl => simp at whole
  | tail before taken =>
    obtain ⟨same, rfl⟩ := List.append_singleton_inj.mp whole
    exact ⟨_, same ▸ before, taken⟩

theorem Steps.split {first last : State} {left : List Label} (right : List Label)
    (run : Steps step first (left ++ right) last) : ∃ middle, Steps step first left middle ∧ Steps step middle right last := by
  induction right using List.reverseRecOn generalizing last with
  | nil => exact ⟨last, by rwa [List.append_nil] at run, .refl last⟩
  | append_singleton right label ih =>
    rw [← List.append_assoc] at run
    obtain ⟨middle, before, taken⟩ := run.last_step
    obtain ⟨cut, left, right⟩ := ih before
    exact ⟨cut, left, right.tail taken⟩

/-- The step a label in the middle of a run stands for. -/
theorem Steps.step_at {first last : State} {left right : List Label} {label : Label}
    (run : Steps step first (left ++ label :: right) last) :
    ∃ before after, Steps step first left before ∧ step before label after ∧ Steps step after right last := by
  rw [List.append_cons] at run
  obtain ⟨after, upto, later⟩ := run.split
  obtain ⟨before, earlier, taken⟩ := upto.last_step
  exact ⟨before, after, earlier, taken, later⟩

theorem Steps.nil_same {first last : State} (run : Steps step first [] last) : last = first := by
  generalize none : [] = labels at run
  cases run with
  | refl => rfl
  | tail => simp at none

theorem Steps.head_step {first last : State} {label : Label} {labels : List Label} (run : Steps step first (label :: labels) last) :
    ∃ next, step first label next ∧ Steps step next labels last := by
  obtain ⟨before, next, none, taken, later⟩ := @Steps.step_at _ _ _ _ _ [] labels label run
  rw [none.nil_same] at taken
  exact ⟨next, taken, later⟩

/-- The invariant rule with history: what holds at the start and is kept by each step,
whatever came before, holds after every run. -/
theorem Steps.history {first last : State} {labels : List Label} (run : Steps step first labels last)
    (invariant : List Label → State → Prop) (initial : invariant [] first)
    (kept : ∀ labels before label after, invariant labels before → step before label after →
      invariant (labels ++ [label]) after) : invariant labels last := by
  induction run with
  | refl => exact initial
  | tail _ taken ih => exact kept _ _ _ _ ih taken

theorem Steps.invariant {first last : State} {labels : List Label} {invariant : State → Prop}
    (run : Steps step first labels last) (initial : invariant first)
    (kept : ∀ before label after, invariant before → step before label after → invariant after) : invariant last := by
  induction run with
  | refl => exact initial
  | tail _ taken ih => exact kept _ _ _ ih taken

/-- Forward simulation: if every step has its counterpart in `step'`, a run has one. -/
theorem Steps.simulates {Abstract : Type} {step' : Abstract → Label → Abstract → Prop} {first last : State} {labels : List Label}
    (run : Steps step first labels last) (related : State → Abstract → Prop) {initial : Abstract} (start : related first initial)
    (each : ∀ before label after abstract, related before abstract → step before label after →
      ∃ next, step' abstract label next ∧ related after next) : ∃ final, Steps step' initial labels final ∧ related last final := by
  induction run with
  | refl => exact ⟨initial, .refl _, start⟩
  | tail _ taken ih =>
    obtain ⟨middle, before, related⟩ := ih
    obtain ⟨final, matched, related⟩ := each _ _ _ _ related taken
    exact ⟨final, before.tail matched, related⟩

/-- A rank that falls with every own step until it is 0, along the labels of the run. -/
theorem Steps.rank_le {first last : State} {labels : List Label} (run : Steps step first labels last)
    (invariant : State → Prop) (rank : State → Nat) (own : Label → Bool) (initial : invariant first)
    (each : ∀ before label after, label ∈ labels → invariant before → step before label after →
      invariant after ∧ rank after ≤ rank before - (own label).toNat) :
    invariant last ∧ rank last ≤ rank first - labels.countP own := by
  induction run with
  | refl => exact ⟨initial, Nat.le_refl _⟩
  | @tail middle last labels label _ taken ih =>
    obtain ⟨holds, sofar⟩ := ih fun before other after member => each before other after (List.mem_append_left _ member)
    obtain ⟨kept, falls⟩ := each _ label _ (List.mem_append_right _ (List.mem_singleton_self label)) holds taken
    refine ⟨kept, ?_⟩
    rw [List.countP_append, List.countP_singleton]
    cases mine : own label with
    | false =>
      rw [mine] at falls
      exact Nat.le_trans falls sofar
    | true =>
      rw [mine] at falls
      rw [if_pos rfl]
      change _ ≤ _ - 1 at falls
      omega

/-- The run of a component: a step of the whole is one of the component or leaves it alone. -/
theorem Steps.component {Part PartLabel : Type} {own : Part → PartLabel → Part → Prop} {first last : State} {labels : List Label}
    (run : Steps step first labels last) (part : State → Part) (seen : Label → Option PartLabel)
    (does : ∀ before label after, step before label after →
      seen label = none ∧ part after = part before ∨ ∃ event, seen label = some event ∧ own (part before) event (part after)) :
    Steps own (part first) (labels.filterMap seen) (part last) := by
  induction run with
  | refl => exact .refl _
  | @tail middle last labels label _ taken ih =>
    rw [List.filterMap_append]
    rcases does _ _ _ taken with ⟨unseen, same⟩ | ⟨event, sees, stepped⟩
    · rw [List.filterMap_cons_none unseen, same]
      exact (List.append_nil (labels.filterMap seen)).symm ▸ ih
    · rw [List.filterMap_cons_some sees]
      exact ih.tail stepped

/-- A run has no marked step, or there is a last one. -/
theorem Steps.last_marked {first last : State} {labels : List Label} (run : Steps step first labels last) (marked : Label → Bool) :
    (∀ label ∈ labels, marked label = false) ∨ ∃ earlier label later before after, labels = earlier ++ label :: later ∧
      marked label = true ∧ (∀ other ∈ later, marked other = false) ∧
      Steps step first earlier before ∧ step before label after ∧ Steps step after later last := by
  induction run with
  | refl => exact .inl fun _ member => by cases member
  | @tail middle last labels label upto taken ih =>
    cases mark : marked label with
    | true =>
      refine .inr ⟨labels, label, [], middle, last, rfl, mark, ?_, upto, taken, .refl last⟩
      exact fun _ member => by cases member
    | false =>
      have quiet {others : List Label} (calm : ∀ other ∈ others, marked other = false) :
          ∀ other ∈ others ++ [label], marked other = false := by
        intro other member
        rcases List.mem_append.mp member with earlier | own
        · exact calm other earlier
        · rw [List.mem_singleton.mp own]
          exact mark
      rcases ih with calm | ⟨earlier, own, later, before, after, rfl, markedOwn, calm, reached, step, rest⟩
      · exact .inl (quiet calm)
      · exact .inr ⟨earlier, own, later ++ [label], before, after, by simp, markedOwn, quiet calm, reached, step, rest.tail taken⟩

/-- A run whose states, up to the last one, have no other step than the one it takes. -/
inductive Forced (step : State → Label → State → Prop) : State → List Label → State → Prop where
  | refl (state : State) : Forced step state [] state
  | head {first middle last : State} {label : Label} {labels : List Label} :
      step first label middle → (∀ other next, step first other next → other = label ∧ next = middle) →
      Forced step middle labels last → Forced step first (label :: labels) last

namespace Forced
variable {first middle last other : State} {left right labels others : List Label}

theorem trans (before : Forced step first left middle) (after : Forced step middle right last) :
    Forced step first (left ++ right) last := by
  induction before with
  | refl => exact after
  | head taken only _ ih => exact .head taken only (ih after)

theorem run (forced : Forced step first labels last) : Steps step first labels last := by
  induction forced with
  | refl => exact .refl _
  | head taken _ _ ih => exact .cons taken ih

/-- Every run from the same state is a part of it or goes on after it. -/
theorem comparable (forced : Forced step first labels last) (run : Steps step first others other) :
    others <+: labels ∨ labels <+: others := by
  induction forced generalizing others with
  | refl => exact .inr List.nil_prefix
  | head _ only _ ih =>
    cases others with
    | nil => exact .inl List.nil_prefix
    | cons head rest =>
      obtain ⟨next, taken, later⟩ := run.head_step
      obtain ⟨rfl, rfl⟩ := only _ _ taken
      exact (ih later).imp (List.prefix_cons_inj _).mpr (List.prefix_cons_inj _).mpr

end Forced

section Separated
variable (marked ends : Label → Bool)

/-- Between two marked labels there is an end of a period. -/
def Separated (labels : List Label) : Prop :=
  ∀ earlier first between second later, labels = earlier ++ first :: between ++ second :: later →
    marked first = true → marked second = true → ∃ label ∈ between, ends label = true

variable {marked ends}

theorem Separated.tail {label : Label} {labels : List Label} (separated : Separated marked ends (label :: labels)) :
    Separated marked ends labels :=
  fun earlier first between second later cut => separated (label :: earlier) first between second later (by rw [cut]; rfl)

/-- A marked label in the first period, or none before its end. -/
private theorem Separated.count (labels : List Label) (separated : Separated marked ends labels) :
    labels.countP marked ≤ labels.countP ends + 1 ∧
      ((∀ earlier label later, labels = earlier ++ label :: later → marked label = true → ∃ other ∈ earlier, ends other = true) →
        labels.countP marked ≤ labels.countP ends) := by
  induction labels with
  | nil => exact ⟨Nat.zero_le _, fun _ => Nat.le_refl _⟩
  | cons head labels ih =>
    obtain ⟨any, late⟩ := ih separated.tail
    rw [List.countP_cons, List.countP_cons]
    constructor
    · cases own : marked head with
      | false =>
        rw [if_neg Bool.false_ne_true]
        omega
      | true =>
        have behind : labels.countP marked ≤ labels.countP ends :=
          late fun earlier label later cut mark => separated [] head earlier label later (by rw [cut]; rfl) own mark
        rw [if_pos rfl]
        omega
    · intro behind
      cases own : marked head with
      | true =>
        obtain ⟨_, none, _⟩ := behind [] head labels rfl own
        cases none
      | false =>
        rw [if_neg Bool.false_ne_true]
        cases final : ends head with
        | true =>
          rw [if_pos rfl]
          omega
        | false =>
          rw [if_neg Bool.false_ne_true]
          refine late fun earlier label later cut mark => ?_
          obtain ⟨other, member, final⟩ := behind (head :: earlier) label later (by rw [cut]; rfl) mark
          rcases List.mem_cons.mp member with rfl | inside
          · next none => cases none.symm.trans final
          · exact ⟨other, inside, final⟩

/-- No more marked labels than periods. -/
theorem Separated.countP_le {labels : List Label} (separated : Separated marked ends labels) :
    labels.countP marked ≤ labels.countP ends + 1 := (Separated.count labels separated).1

end Separated

end Run
