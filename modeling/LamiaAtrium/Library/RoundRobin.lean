import Mathlib.Algebra.BigOperators.Group.Finset.Basic
import Mathlib.Algebra.Order.BigOperators.Group.Finset
import Mathlib.Data.Fintype.BigOperators

/-! Weighted round robin. A cursor goes around `n` positions; a position may be served
`slot` times before the cursor goes on, and one turn looks at `n` of them at most. The
wheel also keeps what each position was served since the cursor last came to the first. -/

namespace RoundRobin
variable {n : Nat}

def ahead (c : Fin n) (k : Nat) : Fin n := ⟨(c + k) % n, Nat.mod_lt _ c.pos⟩

/-- The distance from `c` on to `q`. -/
def span (c q : Fin n) : Nat := (q + n - c) % n

section Positions
variable {c q : Fin n} {k : Nat}

theorem ahead_ahead (c : Fin n) (j k : Nat) : ahead (ahead c j) k = ahead c (j + k) := by
  apply Fin.ext
  simp [ahead, Nat.add_assoc]

theorem ahead_zero (c : Fin n) : ahead c 0 = c := Fin.ext (Nat.mod_eq_of_lt c.isLt)

theorem ahead_full (c : Fin n) : ahead c n = c := by
  apply Fin.ext
  simp [ahead, Nat.mod_eq_of_lt c.isLt]

theorem span_lt (c q : Fin n) : span c q < n := Nat.mod_lt _ c.pos

theorem ahead_val (short : k ≤ n) : (ahead c k).val = if c.val + k < n then c.val + k else c.val + k - n := by
  have bound := c.isLt
  change (c.val + k) % n = _
  split
  · next stays => exact Nat.mod_eq_of_lt stays
  · next wraps =>
    rw [Nat.mod_eq_sub_mod (Nat.not_lt.mp wraps)]
    exact Nat.mod_eq_of_lt (by omega)

theorem span_val (c q : Fin n) : span c q = if c.val ≤ q.val then q.val - c.val else q.val + n - c.val := by
  have here := c.isLt
  have there := q.isLt
  unfold span
  split
  · rw [show q.val + n - c.val = q.val - c.val + n by omega, Nat.add_mod_right]
    exact Nat.mod_eq_of_lt (by omega)
  · exact Nat.mod_eq_of_lt (by omega)

theorem ahead_span (c q : Fin n) : ahead c (span c q) = q := by
  have here := c.isLt
  have there := q.isLt
  apply Fin.ext
  rw [ahead_val (Nat.le_of_lt (span_lt c q)), span_val]
  split <;> split <;> omega

theorem span_ahead (short : k < n) : span c (ahead c k) = k := by
  have here := c.isLt
  rw [span_val, ahead_val (Nat.le_of_lt short)]
  split <;> split <;> omega

theorem ahead_ne (positive : 0 < k) (short : k < n) : ahead c k ≠ c := by
  intro same
  have here := congrArg Fin.val same
  have bound := c.isLt
  rw [ahead_val (Nat.le_of_lt short)] at here
  split at here <;> omega

theorem span_pos (distinct : q ≠ c) : 0 < span c q := by
  apply Nat.pos_of_ne_zero
  intro here
  apply distinct
  rw [← ahead_span c q, here, ahead_zero]

end Positions

structure Wheel (n : Nat) where
  cur : Fin n
  used : Nat
  served : Fin n → Nat

namespace Wheel

def start (c : Fin n) : Wheel n := ⟨c, 0, fun _ => 0⟩

/-- The cursor goes on by `k` positions; a new cycle starts when it comes to the first. -/
def skip (w : Wheel n) (k : Nat) : Wheel n where
  cur := ahead w.cur k
  used := 0
  served := if w.cur.val + k < n then w.served else fun _ => 0

def serve (w : Wheel n) : Wheel n where
  cur := w.cur
  used := w.used + 1
  served := Function.update w.served w.cur (w.served w.cur + 1)

theorem skip_skip (w : Wheel n) (j k : Nat) : (w.skip j).skip k = w.skip (j + k) := by
  unfold skip
  congr 1
  · exact ahead_ahead w.cur j k
  · dsimp only
    by_cases within : w.cur.val + j < n
    · have here : (ahead w.cur j).val = w.cur.val + j := Nat.mod_eq_of_lt within
      rw [if_pos within, here, Nat.add_assoc]
    · rw [if_neg within, ite_self, if_neg (by omega)]

end Wheel

/-- One turn, with `left` positions left to look at. -/
def turn (slot : Fin n → Nat) (busy : Fin n → Bool) : Nat → Wheel n → Option (Fin n) × Wheel n
  | 0, w => (none, w)
  | left + 1, w =>
    if busy w.cur = true ∧ w.used < slot w.cur then (some w.cur, w.serve)
    else turn slot busy left (w.skip 1)

/-- What a turn of `n` looks does. The last one would be at the current position again,
after its quota was taken for used up; it is never taken. -/
inductive Turned (slot : Fin n → Nat) (busy : Fin n → Bool) (w : Wheel n) : Option (Fin n) → Wheel n → Prop where
  | stays : busy w.cur = true → w.used < slot w.cur → Turned slot busy w (some w.cur) w.serve
  | moves (k : Nat) : (busy w.cur = true → slot w.cur ≤ w.used) → 0 < k → k < n → busy (ahead w.cur k) = true →
      (∀ i, 0 < i → i < k → busy (ahead w.cur i) = false) → Turned slot busy w (some (ahead w.cur k)) (w.skip k).serve
  | idles : (busy w.cur = true → slot w.cur ≤ w.used) → (∀ i, 0 < i → i < n → busy (ahead w.cur i) = false) →
      Turned slot busy w none (w.skip n)

section Turns
variable {slot : Fin n → Nat} {busy : Fin n → Bool} {w after : Wheel n} {result : Option (Fin n)} {r : Fin n}

/-- From a position the cursor has just come to, the first busy one is served. -/
private theorem turn_skip (positive : ∀ q, 0 < slot q) (w : Wheel n) (left j : Nat) :
    (∃ k, k < left ∧ busy (ahead w.cur (j + k)) = true ∧ (∀ i, i < k → busy (ahead w.cur (j + i)) = false) ∧
      turn slot busy left (w.skip j) = (some (ahead w.cur (j + k)), (w.skip (j + k)).serve)) ∨
    ((∀ i, i < left → busy (ahead w.cur (j + i)) = false) ∧ turn slot busy left (w.skip j) = (none, w.skip (j + left))) := by
  induction left generalizing j with
  | zero => exact .inr ⟨fun _ none => absurd none (Nat.not_lt_zero _), rfl⟩
  | succ left ih =>
    have fresh : (w.skip j).used < slot (w.skip j).cur := positive _
    cases here : busy (ahead w.cur j) with
    | true =>
      refine .inl ⟨0, Nat.zero_lt_succ left, here, fun _ none => absurd none (Nat.not_lt_zero _), ?_⟩
      exact if_pos ⟨here, fresh⟩
    | false =>
      have onward : turn slot busy (left + 1) (w.skip j) = turn slot busy left (w.skip (j + 1)) := by
        rw [← Wheel.skip_skip]
        apply if_neg
        rintro ⟨occupied, _⟩
        cases here.symm.trans occupied
      rcases ih (j + 1) with ⟨k, inside, found, before, taken⟩ | ⟨before, taken⟩
      · have same : j + 1 + k = j + (k + 1) := by omega
        rw [same] at found taken
        refine .inl ⟨k + 1, Nat.succ_lt_succ inside, found, ?_, by rw [onward, taken]⟩
        intro i earlier
        cases i with
        | zero => exact here
        | succ i =>
          rw [show j + (i + 1) = j + 1 + i by omega]
          exact before i (Nat.lt_of_succ_lt_succ earlier)
      · rw [show j + 1 + left = j + (left + 1) by omega] at taken
        refine .inr ⟨?_, by rw [onward, taken]⟩
        intro i earlier
        cases i with
        | zero => exact here
        | succ i =>
          rw [show j + (i + 1) = j + 1 + i by omega]
          exact before i (Nat.lt_of_succ_lt_succ earlier)

theorem turned (positive : ∀ q, 0 < slot q) (taken : turn slot busy n w = (result, after)) :
    Turned slot busy w result after := by
  have nonempty := w.cur.pos
  obtain ⟨rest, size⟩ : ∃ rest, n = rest + 1 := ⟨n - 1, by omega⟩
  have first : turn slot busy n w = if busy w.cur = true ∧ w.used < slot w.cur then (some w.cur, w.serve)
      else turn slot busy rest (w.skip 1) := by
    conv_lhs => rw [show turn slot busy n w = turn slot busy (rest + 1) w by rw [← size]]
    rfl
  rw [first] at taken
  by_cases again : busy w.cur = true ∧ w.used < slot w.cur
  · rw [if_pos again] at taken
    cases taken
    exact .stays again.1 again.2
  · rw [if_neg again] at taken
    have quota : busy w.cur = true → slot w.cur ≤ w.used := fun occupied =>
      Nat.not_lt.mp fun left => again ⟨occupied, left⟩
    have shifted {k : Nat} (before : ∀ i, i < k → busy (ahead w.cur (1 + i)) = false) (i : Nat) (positive : 0 < i)
        (inside : i < 1 + k) : busy (ahead w.cur i) = false := by
      have earlier := before (i - 1) (by omega)
      rwa [show 1 + (i - 1) = i by omega] at earlier
    rcases turn_skip positive w rest 1 with ⟨k, inside, found, before, same⟩ | ⟨before, same⟩
    · cases same.symm.trans taken
      exact .moves (1 + k) quota (by omega) (by omega) found (shifted before)
    · cases same.symm.trans taken
      rw [show 1 + rest = n by omega]
      exact .idles quota fun i positive inside => shifted before i positive (by omega)

/-- A turn serves nobody exactly when only the current position can be busy, with its
quota used up. -/
theorem Turned.none_iff (taken : Turned slot busy w result after) :
    result = none ↔ (busy w.cur = true → slot w.cur ≤ w.used) ∧ ∀ q, q ≠ w.cur → busy q = false := by
  cases taken with
  | stays occupied left =>
    refine ⟨nofun, ?_⟩
    rintro ⟨quota, _⟩
    exact absurd (quota occupied) (Nat.not_le.mpr left)
  | moves k _ positive inside found _ =>
    refine ⟨nofun, ?_⟩
    rintro ⟨_, others⟩
    rw [others _ (ahead_ne positive inside)] at found
    cases found
  | idles quota others =>
    refine ⟨fun _ => ⟨quota, ?_⟩, fun _ => rfl⟩
    intro q distinct
    have idle := others (span w.cur q) (span_pos distinct) (span_lt w.cur q)
    rwa [ahead_span] at idle

end Turns

section Balance
variable {slot : Fin n → Nat} {busy : Fin n → Bool} {w after : Wheel n} {result : Option (Fin n)}

/-- The account of the cycle agrees with the cursor and its quota. -/
structure Balanced (slot : Fin n → Nat) (w : Wheel n) : Prop where
  used_le : w.used ≤ slot w.cur
  current : w.served w.cur = w.used
  unreached : ∀ q, w.cur < q → w.served q = 0

theorem balanced_start (c : Fin n) : Balanced slot (.start c) := ⟨Nat.zero_le _, rfl, fun _ _ => rfl⟩

private theorem Balanced.skip (balanced : Balanced slot w) {k : Nat} (positive : 0 < k) :
    Balanced slot (w.skip k) := by
  have cleared (q : Fin n) (notBefore : (w.skip k).cur ≤ q) : (w.skip k).served q = 0 := by
    unfold Wheel.skip
    dsimp only
    split
    · next stays =>
      apply balanced.unreached
      rw [Fin.lt_def]
      have there : (w.skip k).cur.val = w.cur.val + k := Nat.mod_eq_of_lt stays
      rw [Fin.le_def] at notBefore
      omega
    · rfl
  exact ⟨Nat.zero_le _, cleared _ (Fin.le_refl _), fun q later => cleared q (Fin.le_of_lt later)⟩

private theorem Balanced.serve (balanced : Balanced slot w) (left : w.used < slot w.cur) : Balanced slot w.serve where
  used_le := left
  current := by
    change Function.update w.served w.cur (w.served w.cur + 1) w.cur = w.used + 1
    rw [Function.update_self, balanced.current]
  unreached q later := by
    have distinct : q ≠ w.cur := Fin.ne_of_gt later
    change Function.update w.served w.cur (w.served w.cur + 1) q = 0
    rw [Function.update_of_ne distinct]
    exact balanced.unreached q later

theorem Turned.balanced (positive : ∀ q, 0 < slot q) (taken : Turned slot busy w result after)
    (balanced : Balanced slot w) : Balanced slot after := by
  cases taken with
  | stays _ left => exact balanced.serve left
  | moves k _ there _ _ _ => exact (balanced.skip there).serve (positive _)
  | idles _ _ => exact balanced.skip w.cur.pos

/-- When a position is served, the ones before it are idle or have had their share of the
cycle exactly when that was so of the positions the cursor had passed, or the cursor
has just gone around. -/
theorem Turned.order_iff {r : Fin n} (balanced : Balanced slot w) (taken : Turned slot busy w (some r) after) :
    (∀ q, q < r → busy q = false ∨ slot q ≤ after.served q) ↔
      (∀ q, q < w.cur → busy q = false ∨ slot q ≤ w.served q) ∨
      (busy w.cur = true → slot w.cur ≤ w.used) ∧ ∀ q, w.cur < q → busy q = false := by
  cases taken with
  | stays occupied left =>
    have passed (q : Fin n) (earlier : q < w.cur) : w.serve.served q = w.served q :=
      Function.update_of_ne (Fin.ne_of_lt earlier) ..
    constructor
    · intro ordered
      refine .inl fun q earlier => ?_
      rw [← passed q earlier]
      exact ordered q earlier
    · rintro (ordered | ⟨quota, _⟩) q earlier
      · rw [passed q earlier]
        exact ordered q earlier
      · exact absurd (quota occupied) (Nat.not_le.mpr left)
  | moves k quota there inside found between =>
    have here := w.cur.isLt
    have position := ahead_val (c := w.cur) (Nat.le_of_lt inside)
    have idle {q : Fin n} {i : Nat} (at_ : ahead w.cur i = q) (after : 0 < i) (before : i < k) : busy q = false := by
      rw [← at_]
      exact between i after before
    have distance {q : Fin n} {i : Nat} (short : i < n)
        (val : q.val = if w.cur.val + i < n then w.cur.val + i else w.cur.val + i - n) : ahead w.cur i = q :=
      Fin.ext (by rw [ahead_val (Nat.le_of_lt short), val])
    by_cases stays : w.cur.val + k < n
    · rw [if_pos stays] at position
      have same (q : Fin n) (earlier : q < ahead w.cur k) : ((w.skip k).serve).served q = w.served q := by
        have distinct : q ≠ (w.skip k).cur := Fin.ne_of_lt earlier
        change Function.update (w.skip k).served (w.skip k).cur _ q = _
        rw [Function.update_of_ne distinct]
        exact congrFun (if_pos stays) q
      constructor
      · intro ordered
        refine .inl fun q earlier => ?_
        have before : q < ahead w.cur k := by
          rw [Fin.lt_def] at earlier ⊢
          omega
        rw [← same q before]
        exact ordered q before
      · rintro (ordered | ⟨_, behind⟩) q before
        · rw [same q before]
          rw [Fin.lt_def, position] at before
          rcases Nat.lt_trichotomy q.val w.cur.val with earlier | current | later
          · exact ordered q earlier
          · rw [Fin.ext current, balanced.current]
            cases occupied : busy w.cur with
            | true => exact .inr (quota occupied)
            | false => exact .inl rfl
          · have short : q.val - w.cur.val < n := by omega
            refine .inl (idle (distance short ?_) (by omega) (by omega))
            rw [if_pos (by omega)]
            omega
        · rw [behind _ (by rw [Fin.lt_def, position]; omega)] at found
          cases found
    · rw [if_neg stays] at position
      refine iff_of_true ?_ (.inr ⟨quota, ?_⟩)
      · intro q earlier
        rw [Fin.lt_def, position] at earlier
        refine .inl (idle (i := q.val + n - w.cur.val) (distance (by omega) ?_) (by omega) (by omega))
        rw [if_neg (by omega)]
        omega
      · intro q later
        rw [Fin.lt_def] at later
        have there := q.isLt
        refine idle (i := q.val - w.cur.val) (distance (by omega) ?_) (by omega) (by omega)
        rw [if_pos (by omega)]
        omega

end Balance

section Waiting
variable {slot : Fin n → Nat} {busy : Fin n → Bool} {w after : Wheel n} {result : Option (Fin n)} {r : Fin n}

/-- The quotas of the `k` positions from `c` on. -/
def stretch (slot : Fin n → Nat) (c : Fin n) (k : Nat) : Nat := ∑ i ∈ Finset.range k, slot (ahead c i)

def others (slot : Fin n → Nat) (r : Fin n) : Nat := ∑ q ∈ Finset.univ.erase r, slot q

/-- How many turns may pass before `r` is served. -/
def debt (slot : Fin n → Nat) (r : Fin n) (w : Wheel n) : Nat :=
  if w.cur = r then if w.used < slot r then 0 else others slot r
  else stretch slot w.cur (span w.cur r) - w.used

private theorem stretch_add (slot : Fin n → Nat) (c : Fin n) (j k : Nat) :
    stretch slot c (j + k) = stretch slot c j + stretch slot (ahead c j) k := by
  unfold stretch
  rw [Finset.sum_range_add]
  simp only [ahead_ahead]

private theorem slot_le_stretch (slot : Fin n → Nat) (c : Fin n) {k : Nat} (positive : 0 < k) : slot c ≤ stretch slot c k := by
  have first := Finset.single_le_sum (f := fun i => slot (ahead c i)) (fun _ _ => Nat.zero_le _) (Finset.mem_range.mpr positive)
  rwa [ahead_zero] at first

private theorem stretch_le_others (slot : Fin n → Nat) (c r : Fin n) : stretch slot c (span c r) ≤ others slot r := by
  have bound := span_lt c r
  have distinct : Set.InjOn (ahead c) (Finset.range (span c r)) := by
    intro i inside j inside' same
    have near := Finset.mem_range.mp inside
    have near' := Finset.mem_range.mp inside'
    rw [← span_ahead (c := c) (k := i) (by omega), same, span_ahead (by omega)]
  unfold stretch others
  rw [← Finset.sum_image distinct (f := slot)]
  apply Finset.sum_le_sum_of_subset
  intro q member
  obtain ⟨i, inside, rfl⟩ := Finset.mem_image.mp member
  have near := Finset.mem_range.mp inside
  refine Finset.mem_erase.mpr ⟨?_, Finset.mem_univ _⟩
  intro same
  have far := span_ahead (c := c) (k := i) (by omega)
  rw [same] at far
  omega

theorem debt_le_others (slot : Fin n → Nat) (r : Fin n) (w : Wheel n) : debt slot r w ≤ others slot r := by
  unfold debt
  split
  · split
    · exact Nat.zero_le _
    · exact Nat.le_refl _
  · exact Nat.le_trans (Nat.sub_le _ _) (stretch_le_others slot w.cur r)

/-- A turn that does not serve a busy position brings it closer. -/
theorem Turned.debt_lt (positive : ∀ q, 0 < slot q) (several : 1 < n) (taken : Turned slot busy w result after)
    (quota : w.used ≤ slot w.cur) (waiting : busy r = true) (passed : result ≠ some r) :
    debt slot r after < debt slot r w := by
  cases taken with
  | stays occupied left =>
    have elsewhere : w.cur ≠ r := fun same => passed (by rw [same])
    have room := slot_le_stretch slot w.cur (span_pos (c := w.cur) (Ne.symm elsewhere))
    rw [debt, debt, if_neg elsewhere, if_neg (show w.serve.cur ≠ r from elsewhere)]
    change stretch slot w.cur (span w.cur r) - (w.used + 1) < _
    omega
  | moves k done there inside found between =>
    have elsewhere : ahead w.cur k ≠ r := fun same => passed (by rw [same])
    have arrived : ((w.skip k).serve).cur ≠ r := elsewhere
    have onward := slot_le_stretch slot (ahead w.cur k) (span_pos (c := ahead w.cur k) (Ne.symm elsewhere))
    have one := positive (ahead w.cur k)
    rw [debt, if_neg arrived]
    change stretch slot (ahead w.cur k) (span (ahead w.cur k) r) - 1 < _
    by_cases current : w.cur = r
    · have spent : ¬w.used < slot r := Nat.not_lt.mpr (current ▸ done (current ▸ waiting))
      have bound := stretch_le_others slot (ahead w.cur k) r
      rw [debt, if_pos current, if_neg spent]
      omega
    · rw [debt, if_neg current]
      have before : k < span w.cur r := by
        apply Nat.lt_of_not_le
        intro reached
        rcases Nat.lt_or_eq_of_le reached with beyond | same
        · have idle := between (span w.cur r) (span_pos (Ne.symm current)) beyond
          rw [ahead_span, waiting] at idle
          cases idle
        · rw [← same, ahead_span] at elsewhere
          exact elsewhere rfl
      have rest : span (ahead w.cur k) r = span w.cur r - k := by
        have short : span w.cur r - k < n := Nat.lt_of_le_of_lt (Nat.sub_le _ _) (span_lt w.cur r)
        rw [← span_ahead (c := ahead w.cur k) short, ahead_ahead, Nat.add_sub_cancel' (Nat.le_of_lt before), ahead_span]
      have whole := stretch_add slot w.cur k (span w.cur r - k)
      have current := slot_le_stretch slot w.cur there
      rw [Nat.add_sub_cancel' (Nat.le_of_lt before)] at whole
      rw [rest] at onward ⊢
      omega
  | idles done idle =>
    have current : w.cur = r := by
      by_contra elsewhere
      have quiet := idle (span w.cur r) (span_pos (Ne.symm elsewhere)) (span_lt w.cur r)
      rw [ahead_span, waiting] at quiet
      cases quiet
    have spent : ¬w.used < slot r := Nat.not_lt.mpr (current ▸ done (current ▸ waiting))
    have next : ahead r 1 ≠ r := ahead_ne Nat.one_pos several
    have neighbour : slot (ahead r 1) ≤ others slot r :=
      Finset.single_le_sum (f := slot) (fun _ _ => Nat.zero_le _) (Finset.mem_erase.mpr ⟨next, Finset.mem_univ _⟩)
    have one := positive (ahead r 1)
    have back : (w.skip n).cur = r := (ahead_full w.cur).trans current
    rw [debt, debt, if_pos back, if_pos current, if_neg spent, if_pos (show (w.skip n).used < slot r from positive r)]
    omega

end Waiting

section Sharing
variable {slot : Fin n → Nat} {busy : Fin n → Bool} {w after : Wheel n} {result : Option (Fin n)} {p r : Fin n}

/-- How far `p` is ahead of `r` in the current turn, where a service counts the slots of the
other position. -/
def lead (slot : Fin n → Nat) (p r : Fin n) (w : Wheel n) : Nat :=
  if w.cur = p then w.used * slot r
  else if w.cur = r then (slot r - w.used) * slot p
  else if span p w.cur < span p r then slot p * slot r
  else 0

theorem lead_le (quota : w.used ≤ slot w.cur) : lead slot p r w ≤ slot p * slot r := by
  unfold lead
  split
  · next here => exact Nat.mul_le_mul_right _ (here ▸ quota)
  · split
    · rw [Nat.mul_comm (slot p)]
      exact Nat.mul_le_mul_right _ (Nat.sub_le _ _)
    · split
      · exact Nat.le_refl _
      · exact Nat.zero_le _

/-- The lead when the current position has no more to get in this turn. -/
private theorem lead_done (distinct : p ≠ r) (quota : w.used ≤ slot w.cur) (done : busy w.cur = true → slot w.cur ≤ w.used)
    (first : busy p = true) (second : busy r = true) :
    lead slot p r w = if span p w.cur < span p r then slot p * slot r else 0 := by
  unfold lead
  by_cases here : w.cur = p
  · have spent : w.used = slot p := here ▸ Nat.le_antisymm quota (done (here ▸ first))
    have self : span p p = 0 := by rw [span_val, if_pos (Nat.le_refl _), Nat.sub_self]
    rw [if_pos here, here, self, if_pos (span_pos distinct.symm), spent]
  · rw [if_neg here]
    by_cases there : w.cur = r
    · have spent : w.used = slot r := there ▸ Nat.le_antisymm quota (done (there ▸ second))
      rw [if_pos there, there, if_neg (Nat.lt_irrefl _), spent, Nat.sub_self, Nat.zero_mul]
    · rw [if_neg there]

section Order
variable {c : Fin n} {k : Nat}

/-- The cursor comes to `p`, without having been at `r`. -/
private theorem behind_of_reaches (positive : 0 < k) (short : k < n) (distinct : p ≠ r) (reaches : ahead c k = p)
    (apart : span c r = 0 ∨ k ≤ span c r) : ¬span p c < span p r := by
  have position := congrArg Fin.val reaches
  have other : p.val ≠ r.val := fun same => distinct (Fin.ext same)
  have bounds := And.intro c.isLt (And.intro p.isLt r.isLt)
  rw [ahead_val (Nat.le_of_lt short)] at position
  rw [span_val] at apart
  rw [span_val, span_val]
  split at position <;> split at apart <;> split <;> split <;> omega

/-- The cursor comes to `r`, without having been at `p`. -/
private theorem between_of_reaches (positive : 0 < k) (short : k < n) (distinct : p ≠ r) (reaches : ahead c k = r)
    (apart : span c p = 0 ∨ k ≤ span c p) : span p c < span p r := by
  have position := congrArg Fin.val reaches
  have other : p.val ≠ r.val := fun same => distinct (Fin.ext same)
  have bounds := And.intro c.isLt (And.intro p.isLt r.isLt)
  rw [ahead_val (Nat.le_of_lt short)] at position
  rw [span_val] at apart
  rw [span_val, span_val]
  split at position <;> split at apart <;> split <;> split <;> omega

/-- The cursor comes to another position, without having been at `p` or `r`. -/
private theorem between_kept (positive : 0 < k) (short : k < n) (notFirst : ahead c k ≠ p) (notSecond : ahead c k ≠ r)
    (first : span c p = 0 ∨ k ≤ span c p) (second : span c r = 0 ∨ k ≤ span c r) :
    span p (ahead c k) < span p r ↔ span p c < span p r := by
  have position := ahead_val (c := c) (Nat.le_of_lt short)
  have notFirst : (ahead c k).val ≠ p.val := fun same => notFirst (Fin.ext same)
  have notSecond : (ahead c k).val ≠ r.val := fun same => notSecond (Fin.ext same)
  have bounds := And.intro c.isLt (And.intro p.isLt (And.intro r.isLt (ahead c k).isLt))
  rw [span_val] at first second
  rw [span_val, span_val, span_val]
  split at position <;> split at first <;> split at second <;> split <;> split <;> split <;> omega

end Order

/-- Between two busy positions every service is kept account of by the lead. -/
theorem Turned.lead (positive : ∀ q, 0 < slot q) (taken : Turned slot busy w result after) (distinct : p ≠ r)
    (quota : w.used ≤ slot w.cur) (first : busy p = true) (second : busy r = true) :
    lead slot p r after + (if result = some r then slot p else 0) = lead slot p r w + (if result = some p then slot r else 0) := by
  cases taken with
  | stays occupied left =>
    have cursor : w.serve.cur = w.cur := rfl
    have used : w.serve.used = w.used + 1 := rfl
    unfold RoundRobin.lead
    rw [cursor, used]
    by_cases here : w.cur = p
    · rw [if_pos here, if_pos here, here, if_pos rfl, if_neg fun same => distinct (Option.some.inj same), Nat.succ_mul]
      rfl
    · by_cases there : w.cur = r
      · rw [if_neg here, if_neg here, if_pos there, if_pos there, there, if_pos rfl,
          if_neg fun same => distinct (Option.some.inj same).symm, ← Nat.succ_mul]
        rw [there] at left
        congr 1
        omega
      · rw [if_neg here, if_neg here, if_neg there, if_neg there, if_neg fun same => there (Option.some.inj same),
          if_neg fun same => here (Option.some.inj same)]
  | moves k done there inside _ between =>
    have apart {q : Fin n} (waiting : busy q = true) : span w.cur q = 0 ∨ k ≤ span w.cur q := by
      by_contra nearer
      have idle := between (span w.cur q) (by omega) (by omega)
      rw [ahead_span, waiting] at idle
      cases idle
    have farP := apart first
    have farR := apart second
    have cursor : (w.skip k).serve.cur = ahead w.cur k := rfl
    have used : (w.skip k).serve.used = 1 := rfl
    rw [lead_done distinct quota done first second]
    unfold RoundRobin.lead
    rw [cursor, used]
    by_cases here : ahead w.cur k = p
    · rw [if_pos here, here, if_neg fun same => distinct (Option.some.inj same), if_pos rfl,
        if_neg (behind_of_reaches there inside distinct here (apart second))]
      omega
    · rw [if_neg here, if_neg fun same => here (Option.some.inj same)]
      by_cases elsewhere : ahead w.cur k = r
      · rw [if_pos elsewhere, elsewhere, if_pos rfl, if_pos (between_of_reaches there inside distinct elsewhere (apart first)),
          ← Nat.succ_mul, Nat.succ_eq_add_one, Nat.sub_add_cancel (positive r), Nat.mul_comm]
        rfl
      · rw [if_neg elsewhere, if_neg fun same => elsewhere (Option.some.inj same),
          if_congr (between_kept there inside here elsewhere (apart first) (apart second)) rfl rfl]
  | idles done idle =>
    exfalso
    have quiet {q : Fin n} (elsewhere : q ≠ w.cur) : busy q = false := by
      have quiet := idle (span w.cur q) (span_pos elsewhere) (span_lt w.cur q)
      rwa [ahead_span] at quiet
    by_cases here : p = w.cur
    · cases (quiet fun same => distinct (here.trans same.symm)).symm.trans second
    · cases (quiet here).symm.trans first

end Sharing
end RoundRobin
