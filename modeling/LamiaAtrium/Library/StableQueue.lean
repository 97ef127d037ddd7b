import Mathlib.Order.Defs.PartialOrder
import LamiaAtrium.Library.Run

/-! A bounded priority queue that is stable: of the items with the least key it gives the one
that was inserted first. An entry carries the time of its insertion, so that nothing here
depends on where it is kept. -/

namespace StableQueue
open Run
variable {Item Key : Type}

structure Entry (Item : Type) where
  stamp : Nat
  item : Item

/-- The callers may pass nothing in place of an item. -/
inductive Call (Item Key : Type) where
  | insert (item : Option Item)
  | extract (key : Item → Key)
  | remove (item : Option Item)

/-- The entries from the oldest to the youngest, and the time of the next call. -/
structure State (Item : Type) where
  now : Nat
  entries : List (Entry Item)

def without (entries : List (Entry Item)) (entry : Entry Item) : List (Entry Item) :=
  entries.filter fun other => other.stamp ≠ entry.stamp

/-- What a call returns, and what it does to the entries. -/
inductive Effect [LE Key] (capacity now : Nat) : List (Entry Item) → Call Item Key → Option Item → List (Entry Item) → Prop where
  | inserted {entries : List (Entry Item)} (item : Item) (room : entries.length < capacity) :
      Effect capacity now entries (.insert (some item)) none (entries ++ [{ stamp := now, item }])
  | full {entries : List (Entry Item)} (item : Item) (full : capacity ≤ entries.length) :
      Effect capacity now entries (.insert (some item)) none entries
  | insertedNothing (entries : List (Entry Item)) : Effect capacity now entries (.insert none) none entries
  | extracted {entries : List (Entry Item)} {entry : Entry Item} {key : Item → Key} (member : entry ∈ entries)
      (least : ∀ other ∈ entries, key entry.item ≤ key other.item)
      (oldest : ∀ other ∈ entries, key other.item = key entry.item → entry.stamp ≤ other.stamp) :
      Effect capacity now entries (.extract key) (some entry.item) (without entries entry)
  | extractedNothing (key : Item → Key) : Effect capacity now [] (.extract key) none []
  | removed {entries : List (Entry Item)} {entry : Entry Item} (member : entry ∈ entries)
      (oldest : ∀ other ∈ entries, other.item = entry.item → entry.stamp ≤ other.stamp) :
      Effect capacity now entries (.remove (some entry.item)) (some entry.item) (without entries entry)
  | absent {entries : List (Entry Item)} {item : Item} (absent : ∀ other ∈ entries, other.item ≠ item) :
      Effect capacity now entries (.remove (some item)) none entries
  | removedNothing (entries : List (Entry Item)) : Effect capacity now entries (.remove none) none entries

inductive Step [LE Key] (capacity : Nat) : State Item → Call Item Key × Option Item → State Item → Prop where
  | call {now : Nat} {entries after : List (Entry Item)} {call : Call Item Key} {result : Option Item} :
      Effect capacity now entries call result after → Step capacity ⟨now, entries⟩ (call, result) ⟨now + 1, after⟩

/-- The stamps grow along the entries, and none is yet to come. -/
structure Ordered (now : Nat) (entries : List (Entry Item)) : Prop where
  increasing : entries.Pairwise fun first second => first.stamp < second.stamp
  past : ∀ entry ∈ entries, entry.stamp < now

namespace Ordered
variable {now capacity index : Nat} {entries : List (Entry Item)} {entry : Entry Item}

theorem stamp_lt (ordered : Ordered now entries) {first second : Nat} {left right : Entry Item} (earlier : first < second)
    (leftAt : entries[first]? = some left) (rightAt : entries[second]? = some right) : left.stamp < right.stamp := by
  obtain ⟨_, rfl⟩ := List.getElem?_eq_some_iff.mp leftAt
  obtain ⟨_, rfl⟩ := List.getElem?_eq_some_iff.mp rightAt
  exact List.pairwise_iff_getElem.mp ordered.increasing first second _ _ earlier

/-- No other entry has the stamp of an entry. -/
theorem without_at (ordered : Ordered now entries) (here : entries[index]? = some entry) :
    without entries entry = entries.eraseIdx index := by
  obtain ⟨inside, same⟩ := List.getElem?_eq_some_iff.mp here
  have split : entries = entries.take index ++ entry :: entries.drop (index + 1) := by
    rw [← same, ← List.drop_eq_getElem_cons inside, List.take_append_drop]
  have kept {others : List (Entry Item)} (differ : ∀ other ∈ others, other.stamp ≠ entry.stamp) : without others entry = others := by
    apply List.filter_eq_self.mpr
    intro other member
    exact decide_eq_true (differ other member)
  have early : without (entries.take index) entry = entries.take index := by
    apply kept
    intro other member
    obtain ⟨k, below, rfl⟩ := List.mem_take_iff_getElem.mp member
    exact Nat.ne_of_lt (ordered.stamp_lt (by omega) (List.getElem?_eq_getElem (by omega)) here)
  have late : without (entries.drop (index + 1)) entry = entries.drop (index + 1) := by
    apply kept
    intro other member
    obtain ⟨k, below, rfl⟩ := List.mem_drop_iff_getElem.mp member
    exact Nat.ne_of_gt (ordered.stamp_lt (by omega) here (List.getElem?_eq_getElem (by omega)))
  have whole : without entries entry = without (entries.take index) entry ++ without (entry :: entries.drop (index + 1)) entry := by
    rw [without, without, without, ← List.filter_append, ← split]
  have own : without (entry :: entries.drop (index + 1)) entry = without (entries.drop (index + 1)) entry :=
    List.filter_cons_of_neg (by simp)
  rw [whole, own, early, late, List.eraseIdx_eq_take_drop_succ]

/-- The first of the entries that are chosen is the oldest of them. -/
theorem oldest_at (ordered : Ordered now entries) (here : entries[index]? = some entry) {chosen : Entry Item → Prop}
    (first : ∀ k < index, ∀ other, entries[k]? = some other → ¬chosen other) :
    ∀ other ∈ entries, chosen other → entry.stamp ≤ other.stamp := by
  intro other member choice
  obtain ⟨k, there⟩ := List.mem_iff_getElem?.mp member
  rcases Nat.lt_trichotomy k index with early | rfl | later
  · exact absurd choice (first k early other there)
  · cases here.symm.trans there
    exact Nat.le_refl _
  · exact Nat.le_of_lt (ordered.stamp_lt later here there)

/-- In the order of insertion, the entry to extract is the first one with the least key. -/
theorem extract_at [Preorder Key] {key : Item → Key} (ordered : Ordered now entries) (here : entries[index]? = some entry)
    (least : ∀ other ∈ entries, key entry.item ≤ key other.item)
    (first : ∀ k < index, ∀ other, entries[k]? = some other → key entry.item < key other.item) :
    Effect capacity now entries (.extract key) (some entry.item) (entries.eraseIdx index) := by
  rw [← ordered.without_at here]
  apply Effect.extracted (List.mem_of_getElem? here) least
  exact ordered.oldest_at here fun k early other there same => ne_of_lt (first k early other there) same.symm

theorem remove_at [LE Key] (ordered : Ordered now entries) (here : entries[index]? = some entry)
    (first : ∀ k < index, ∀ other, entries[k]? = some other → other.item ≠ entry.item) :
    Effect capacity now entries (.remove (some entry.item) : Call Item Key) (some entry.item) (entries.eraseIdx index) := by
  rw [← ordered.without_at here]
  exact .removed (List.mem_of_getElem? here) (ordered.oldest_at here first)

theorem without (ordered : Ordered now entries) (entry : Entry Item) : Ordered now (without entries entry) where
  increasing := ordered.increasing.filter _
  past other member := ordered.past other (List.mem_filter.mp member).1

theorem later (ordered : Ordered now entries) : Ordered (now + 1) entries where
  increasing := ordered.increasing
  past other member := Nat.lt_succ_of_lt (ordered.past other member)

theorem effect [LE Key] {call : Call Item Key} {result : Option Item} {after : List (Entry Item)} (ordered : Ordered now entries)
    (effect : Effect capacity now entries call result after) : Ordered (now + 1) after := by
  cases effect with
  | inserted item room =>
    constructor
    · apply List.pairwise_append.mpr
      refine ⟨ordered.increasing, List.pairwise_singleton _ _, ?_⟩
      intro other member new same
      rw [List.mem_singleton.mp same]
      exact ordered.past other member
    · intro other member
      rcases List.mem_append.mp member with old | new
      · exact Nat.lt_succ_of_lt (ordered.past other old)
      · rw [List.mem_singleton.mp new]
        exact Nat.lt_succ_self now
  | full | insertedNothing | extractedNothing | absent | removedNothing => exact ordered.later
  | extracted | removed => exact (ordered.without _).later

end Ordered

end StableQueue
