import Mathlib.Logic.Function.Basic

/-! Singly linked lists in a memory of cells. A cell holds a value and a link; the null
link ends a list, and a pointer with no live cell behind it starts none. -/

namespace LinkedList
variable {Ptr Value : Type}

structure Cell (Ptr Value : Type) where
  value : Value
  next : Option Ptr

/-- The live cells. -/
abbrev Cells (Ptr Value : Type) := Ptr → Option (Cell Ptr Value)

/-- The link leads through live cells with these values to the null link. -/
inductive Chain (cells : Cells Ptr Value) : Option Ptr → List Value → Prop where
  | nil : Chain cells none []
  | cons {pointer : Ptr} {value : Value} {next : Option Ptr} {rest : List Value} :
      cells pointer = some { value, next } → Chain cells next rest → Chain cells (some pointer) (value :: rest)

namespace Chain
variable {cells : Cells Ptr Value} {link : Option Ptr} {values : List Value}

theorem nil_iff : Chain cells link [] ↔ link = none := by
  constructor
  · intro chain
    cases chain
    rfl
  · intro same
    subst same
    exact .nil

theorem null_iff : Chain cells none values ↔ values = [] := by
  constructor
  · intro chain
    cases chain
    rfl
  · intro same
    subst same
    exact .nil

/-- What a chain says about its first cell. -/
theorem head {pointer : Ptr} (chain : Chain cells (some pointer) values) :
    ∃ value next rest, values = value :: rest ∧ cells pointer = some { value, next } ∧ Chain cells next rest := by
  cases chain with
  | cons live later => exact ⟨_, _, _, rfl, live, later⟩

theorem tail {pointer : Ptr} {value : Value} {next : Option Ptr} {rest : List Value}
    (chain : Chain cells (some pointer) (value :: rest)) (live : cells pointer = some { value, next }) : Chain cells next rest := by
  cases chain with
  | cons found later =>
    rw [live] at found
    cases found
    exact later

/-- A link starts at most one list. -/
theorem unique {others : List Value} (first : Chain cells link values) (second : Chain cells link others) : values = others := by
  induction first generalizing others with
  | nil => exact (null_iff.mp second).symm
  | cons live _ ih =>
    obtain ⟨value, next, rest, same, found, later⟩ := second.head
    rw [live] at found
    cases found
    rw [same, ih later]

/-- No cell of a list links to itself. -/
theorem ne_next {pointer other : Ptr} {value : Value} {rest : List Value} (live : cells pointer = some { value, next := some other })
    (behind : Chain cells (some other) rest) : pointer ≠ other := by
  intro same
  subst same
  have longer := behind.unique (.cons live behind)
  exact absurd (congrArg List.length longer) (by simp)

variable [DecidableEq Ptr] {pointer : Ptr}

/-- A cell that was not live is on no list. -/
theorem update_fresh (chain : Chain cells link values) (fresh : cells pointer = none) (content : Option (Cell Ptr Value)) :
    Chain (Function.update cells pointer content) link values := by
  induction chain with
  | nil => exact .nil
  | @cons other value next rest live _ ih =>
    refine .cons ?_ ih
    rw [Function.update_of_ne]
    · exact live
    · intro same
      rw [same, fresh] at live
      cases live

private theorem update_suffix {value : Value} {next : Option Ptr} {rest : List Value} (live : cells pointer = some { value, next })
    (behind : Chain cells next rest) (chain : Chain cells link values) (short : values.length ≤ rest.length)
    (content : Option (Cell Ptr Value)) : Chain (Function.update cells pointer content) link values := by
  induction chain with
  | nil => exact .nil
  | @cons other seen link later found suffix ih =>
    rw [List.length_cons] at short
    refine .cons ?_ (ih (by omega))
    rw [Function.update_of_ne]
    · exact found
    · -- the cell would be behind itself
      intro same
      rw [same, live] at found
      cases found
      have whole := behind.unique suffix
      rw [whole] at short
      omega

/-- No list runs through a cell twice: what becomes of a cell does not change the list
behind it. -/
theorem update_head {value : Value} {next : Option Ptr} (live : cells pointer = some { value, next })
    (behind : Chain cells next values) (content : Option (Cell Ptr Value)) :
    Chain (Function.update cells pointer content) next values :=
  update_suffix live behind behind (Nat.le_refl _) content

/-- The list behind a new cell is one of the old cells. -/
theorem behind_fresh_iff {value : Value} {next : Option Ptr} (fresh : cells pointer = none) :
    Chain (Function.update cells pointer (some { value, next })) next values ↔ Chain cells next values := by
  constructor
  · intro chain
    have kept := chain.update_head (Function.update_self pointer (some { value, next }) cells) none
    rw [Function.update_idem, ← fresh, Function.update_eq_self] at kept
    exact kept
  · intro chain
    exact chain.update_fresh fresh _

end Chain

/-- A chain with its cells: where each value lies. -/
inductive Path (cells : Cells Ptr Value) : Option Ptr → List (Ptr × Value) → Prop where
  | nil : Path cells none []
  | cons {pointer : Ptr} {value : Value} {next : Option Ptr} {rest : List (Ptr × Value)} :
      cells pointer = some { value, next } → Path cells next rest → Path cells (some pointer) ((pointer, value) :: rest)

namespace Path
variable {cells : Cells Ptr Value} {link : Option Ptr} {nodes : List (Ptr × Value)}

theorem chain (path : Path cells link nodes) : Chain cells link (nodes.map Prod.snd) := by
  induction path with
  | nil => exact .nil
  | cons live _ ih => exact .cons live ih

/-- Each node of a path starts the rest of it. -/
theorem suffix {pointer : Ptr} (path : Path cells link nodes) (member : pointer ∈ nodes.map Prod.fst) :
    ∃ rest, rest.length ≤ nodes.length ∧ Path cells (some pointer) rest := by
  induction path with
  | nil => cases member
  | @cons other value next rest live behind ih =>
    rw [List.map_cons] at member
    rcases List.mem_cons.mp member with rfl | later
    · exact ⟨_, Nat.le_refl _, .cons live behind⟩
    · obtain ⟨found, short, path⟩ := ih later
      exact ⟨found, Nat.le_succ_of_le short, path⟩

/-- No node comes twice. -/
theorem nodup (path : Path cells link nodes) : (nodes.map Prod.fst).Nodup := by
  induction path with
  | nil => exact .nil
  | @cons pointer value next rest live behind ih =>
    refine List.nodup_cons.mpr ⟨fun member => ?_, ih⟩
    obtain ⟨again, short, path⟩ := behind.suffix member
    have lengths := congrArg List.length (path.chain.unique (.cons live behind.chain))
    simp only [List.length_map, List.length_cons] at lengths
    omega

theorem live_of_mem {pointer : Ptr} (path : Path cells link nodes) (member : pointer ∈ nodes.map Prod.fst) : cells pointer ≠ none := by
  obtain ⟨_, _, found⟩ := path.suffix member
  cases found with
  | cons live _ => exact fun dead => by rw [dead] at live; cases live

/-- A path is about its own cells. -/
theorem of_agree {others : Cells Ptr Value} (path : Path cells link nodes)
    (agree : ∀ pointer ∈ nodes.map Prod.fst, others pointer = cells pointer) : Path others link nodes := by
  induction path with
  | nil => exact .nil
  | cons live _ ih =>
    rw [List.map_cons, List.forall_mem_cons] at agree
    exact .cons (agree.1.trans live) (ih agree.2)

/-- The last cell but one links to the last. -/
theorem before_last {front : List (Ptr × Value)} {previous last : Ptr × Value} (path : Path cells link (front ++ [previous, last])) :
    cells previous.1 = some { value := previous.2, next := some last.1 } := by
  induction front generalizing link with
  | nil =>
    cases path with
    | cons live behind =>
      cases behind
      exact live
  | cons node front ih =>
    cases path with
    | cons _ behind => exact ih behind

variable [DecidableEq Ptr] {pointer : Ptr}

/-- What happens to a cell off the path does not matter to it. -/
theorem update_off (path : Path cells link nodes) (off : pointer ∉ nodes.map Prod.fst) (content : Option (Cell Ptr Value)) :
    Path (Function.update cells pointer content) link nodes := by
  induction path with
  | nil => exact .nil
  | @cons other value next rest live _ ih =>
    rw [List.map_cons, List.mem_cons, not_or] at off
    refine .cons ?_ (ih off.2)
    rw [Function.update_of_ne (Ne.symm off.1)]
    exact live

/-- A new cell in front. -/
theorem push (path : Path cells link nodes) (fresh : cells pointer = none) (value : Value) :
    Path (Function.update cells pointer (some { value, next := link })) (some pointer) ((pointer, value) :: nodes) := by
  refine .cons (Function.update_self ..) (path.update_off (fun member => ?_) _)
  exact path.live_of_mem member fresh

/-- The last cell cut off: the one before it ends the path. -/
theorem cut_last {front : List (Ptr × Value)} {previous last : Ptr × Value} (path : Path cells link (front ++ [previous, last])) :
    Path (Function.update (Function.update cells previous.1 (some { value := previous.2, next := none })) last.1 none) link
      (front ++ [previous]) := by
  have distinct := path.nodup
  induction front generalizing link with
  | nil =>
    have apart : previous.1 ≠ last.1 := by simpa using distinct
    cases path with
    | cons live behind =>
      refine .cons ?_ .nil
      rw [Function.update_of_ne apart, Function.update_self]
  | cons node front ih =>
    rw [List.cons_append, List.map_cons, List.nodup_cons] at distinct
    cases path with
    | @cons pointer value next rest live behind =>
      refine .cons ?_ (ih behind distinct.2)
      have off := distinct.1
      rw [List.map_append, List.mem_append, not_or] at off
      have apart : pointer ≠ previous.1 ∧ pointer ≠ last.1 := by simpa using off.2
      rw [Function.update_of_ne apart.2, Function.update_of_ne apart.1]
      exact live

end Path

/-- A change of one list: it uses the cells of the list and cells that were not live, and releases
those that it takes out. -/
structure Change (cells : Cells Ptr Value) (nodes : List (Ptr × Value)) (cells' : Cells Ptr Value) (link' : Option Ptr)
    (nodes' : List (Ptr × Value)) : Prop where
  path : Path cells' link' nodes'
  elsewhere : ∀ pointer, pointer ∉ nodes.map Prod.fst → pointer ∉ nodes'.map Prod.fst → cells' pointer = cells pointer
  new : ∀ pointer ∈ nodes'.map Prod.fst, pointer ∈ nodes.map Prod.fst ∨ cells pointer = none
  released : ∀ pointer ∈ nodes.map Prod.fst, pointer ∉ nodes'.map Prod.fst → cells' pointer = none

namespace Change
variable {cells cells' : Cells Ptr Value} {link next next' : Option Ptr} {nodes rest rest' : List (Ptr × Value)} {pointer : Ptr} {value : Value}

theorem refl (path : Path cells link nodes) : Change cells nodes cells link nodes where
  path := path
  elsewhere _ _ _ := rfl
  new _ member := .inl member
  released _ member off := absurd member off

variable [DecidableEq Ptr]

theorem push (path : Path cells link nodes) (fresh : cells pointer = none) (value : Value) :
    Change cells nodes (Function.update cells pointer (some { value, next := link })) (some pointer) ((pointer, value) :: nodes) where
  path := path.push fresh value
  elsewhere other _ off := by
    rw [List.map_cons, List.mem_cons, not_or] at off
    exact Function.update_of_ne off.1 ..
  new other member := by
    rcases List.mem_cons.mp member with rfl | member
    · exact .inr fresh
    · exact .inl member
  released other member off := absurd (List.mem_cons_of_mem _ member) off

/-- The head taken out. -/
theorem pop (live : cells pointer = some { value, next }) (behind : Path cells next rest) :
    Change cells ((pointer, value) :: rest) (Function.update cells pointer none) next rest where
  path := by
    have distinct := (Path.cons live behind).nodup
    rw [List.map_cons, List.nodup_cons] at distinct
    exact behind.update_off distinct.1 none
  elsewhere other off _ := by
    rw [List.map_cons, List.mem_cons, not_or] at off
    exact Function.update_of_ne off.1 ..
  new other member := .inl (List.mem_cons_of_mem _ member)
  released other member off := by
    rcases List.mem_cons.mp member with rfl | member
    · exact Function.update_self ..
    · exact absurd member off

/-- Another value in the head. -/
theorem set (live : cells pointer = some { value, next }) (behind : Path cells next rest) (other : Value) :
    Change cells ((pointer, value) :: rest) (Function.update cells pointer (some { value := other, next })) (some pointer)
      ((pointer, other) :: rest) where
  path := by
    have distinct := (Path.cons live behind).nodup
    rw [List.map_cons, List.nodup_cons] at distinct
    exact .cons (Function.update_self ..) (behind.update_off distinct.1 _)
  elsewhere place off _ := by
    rw [List.map_cons, List.mem_cons, not_or] at off
    exact Function.update_of_ne off.1 ..
  new place member := .inl member
  released place member off := absurd member off

/-- The head takes over the cell behind it, which is released. -/
theorem absorb {second : Ptr} {other : Value} (live : cells pointer = some { value, next := some second })
    (found : cells second = some { value := other, next }) (behind : Path cells next rest) :
    Change cells ((pointer, value) :: (second, other) :: rest)
      (Function.update (Function.update cells pointer (some { value := other, next })) second none) (some pointer)
      ((pointer, other) :: rest) := by
  have distinct := (Path.cons live (.cons found behind)).nodup
  rw [List.map_cons, List.map_cons, List.nodup_cons, List.nodup_cons, List.mem_cons, not_or] at distinct
  obtain ⟨⟨apart, offFirst⟩, offSecond, _⟩ := distinct
  constructor
  · refine .cons ?_ ((behind.update_off offFirst _).update_off offSecond _)
    rw [Function.update_of_ne apart, Function.update_self]
  · intro place off _
    rw [List.map_cons, List.map_cons, List.mem_cons, List.mem_cons, not_or, not_or] at off
    rw [Function.update_of_ne off.2.1, Function.update_of_ne off.1]
  · intro place member
    rcases List.mem_cons.mp member with rfl | member
    · exact .inl List.mem_cons_self
    · exact .inl (List.mem_cons_of_mem _ (List.mem_cons_of_mem _ member))
  · intro place member off
    rw [List.map_cons, List.mem_cons, not_or] at off
    rcases List.mem_cons.mp member with rfl | member
    · exact absurd rfl off.1
    · rcases List.mem_cons.mp member with rfl | member
      · exact Function.update_self ..
      · exact absurd member off.2

omit [DecidableEq Ptr] in
/-- A change behind the head, to which the link of the head still leads. -/
theorem behind (live : cells pointer = some { value, next }) (path : Path cells next rest) (change : Change cells rest cells' next rest') :
    Change cells ((pointer, value) :: rest) cells' (some pointer) ((pointer, value) :: rest') := by
  have distinct := (Path.cons live path).nodup
  rw [List.map_cons, List.nodup_cons] at distinct
  have off : pointer ∉ rest'.map Prod.fst := by
    intro member
    rcases change.new pointer member with inside | dead
    · exact distinct.1 inside
    · rw [live] at dead
      cases dead
  constructor
  · exact .cons ((change.elsewhere pointer distinct.1 off).trans live) change.path
  · intro place before after
    rw [List.map_cons, List.mem_cons, not_or] at before after
    exact change.elsewhere place before.2 after.2
  · intro place member
    rcases List.mem_cons.mp member with rfl | member
    · exact .inl List.mem_cons_self
    · exact (change.new place member).imp_left (List.mem_cons_of_mem _)
  · intro place member gone
    rw [List.map_cons, List.mem_cons, not_or] at gone
    rcases List.mem_cons.mp member with rfl | member
    · exact absurd rfl gone.1
    · exact change.released place member gone.2

end Change

/-- Lists in one memory: no cell is on two of them, and every live cell is on one or among the
`lost` ones, which no list reaches. -/
structure Lists {Index : Type} (cells : Cells Ptr Value) (links : Index → Option Ptr) (nodes : Index → List (Ptr × Value)) (lost : List Ptr) :
    Prop where
  path : ∀ i, Path cells (links i) (nodes i)
  apart : ∀ i j pointer, pointer ∈ (nodes i).map Prod.fst → pointer ∈ (nodes j).map Prod.fst → i = j
  lostLive : ∀ pointer ∈ lost, cells pointer ≠ none
  lostOff : ∀ pointer ∈ lost, ∀ i, pointer ∉ (nodes i).map Prod.fst
  live : ∀ pointer, cells pointer ≠ none → pointer ∈ lost ∨ ∃ i, pointer ∈ (nodes i).map Prod.fst

/-- Null links in a memory without live cells. -/
theorem Lists.empty {Index : Type} {links : Index → Option Ptr} (null : ∀ i, links i = none) :
    Lists (fun _ => none : Cells Ptr Value) links (fun _ => []) [] where
  path i := by
    rw [null]
    exact .nil
  apart _ _ _ member := (List.not_mem_nil member).elim
  lostLive _ member := (List.not_mem_nil member).elim
  lostOff _ member := (List.not_mem_nil member).elim
  live _ live := absurd rfl live

namespace Lists
variable {Index : Type} {cells cells' : Cells Ptr Value} {links : Index → Option Ptr} {nodes : Index → List (Ptr × Value)} {lost : List Ptr}
  (lists : Lists cells links nodes lost)
include lists

/-- A cell that a change of list `i` uses is on no other list. -/
theorem untouched {i j : Index} {link' : Option Ptr} {nodes' : List (Ptr × Value)} (change : Change cells (nodes i) cells' link' nodes')
    (other : j ≠ i) {pointer : Ptr} (member : pointer ∈ (nodes j).map Prod.fst) :
    pointer ∉ (nodes i).map Prod.fst ∧ pointer ∉ nodes'.map Prod.fst ∧ cells' pointer = cells pointer := by
  have off : pointer ∉ (nodes i).map Prod.fst := fun inside => other (lists.apart j i pointer member inside)
  have off' : pointer ∉ nodes'.map Prod.fst := by
    intro inside
    rcases change.new pointer inside with old | dead
    · exact off old
    · exact (lists.path j).live_of_mem member dead
  exact ⟨off, off', change.elsewhere pointer off off'⟩

theorem untouched_lost {i : Index} {link' : Option Ptr} {nodes' : List (Ptr × Value)} (change : Change cells (nodes i) cells' link' nodes')
    {pointer : Ptr} (member : pointer ∈ lost) : pointer ∉ nodes'.map Prod.fst ∧ cells' pointer = cells pointer := by
  have off : pointer ∉ nodes'.map Prod.fst := by
    intro inside
    rcases change.new pointer inside with old | dead
    · exact lists.lostOff pointer member i old
    · exact lists.lostLive pointer member dead
  exact ⟨off, change.elsewhere pointer (lists.lostOff pointer member i) off⟩

/-- A change of one of the lists keeps the others and loses nothing. -/
theorem change [DecidableEq Index] {i : Index} {link' : Option Ptr} {nodes' : List (Ptr × Value)}
    (change : Change cells (nodes i) cells' link' nodes') : Lists cells' (Function.update links i link') (Function.update nodes i nodes') lost := by
  constructor
  · intro j
    by_cases same : j = i
    · subst same
      rw [Function.update_self, Function.update_self]
      exact change.path
    · rw [Function.update_of_ne same, Function.update_of_ne same]
      exact (lists.path j).of_agree fun pointer member => (lists.untouched change same member).2.2
  · intro j k pointer first second
    by_cases here : j = i <;> by_cases there : k = i
    · exact here.trans there.symm
    · subst here
      rw [Function.update_self] at first
      rw [Function.update_of_ne there] at second
      exact absurd first (lists.untouched change there second).2.1
    · subst there
      rw [Function.update_of_ne here] at first
      rw [Function.update_self] at second
      exact absurd second (lists.untouched change here first).2.1
    · rw [Function.update_of_ne here] at first
      rw [Function.update_of_ne there] at second
      exact lists.apart j k pointer first second
  · intro pointer member
    rw [(lists.untouched_lost change member).2]
    exact lists.lostLive pointer member
  · intro pointer member j
    by_cases same : j = i
    · subst same
      rw [Function.update_self]
      exact (lists.untouched_lost change member).1
    · rw [Function.update_of_ne same]
      exact lists.lostOff pointer member j
  · intro pointer live
    by_cases inside : pointer ∈ nodes'.map Prod.fst
    · exact .inr ⟨i, by rwa [Function.update_self]⟩
    · have off : pointer ∉ (nodes i).map Prod.fst := fun member => live (change.released pointer member inside)
      rw [change.elsewhere pointer off inside] at live
      rcases lists.live pointer live with gone | ⟨j, member⟩
      · exact .inl gone
      · have other : j ≠ i := fun same => off (same ▸ member)
        exact .inr ⟨j, by rwa [Function.update_of_ne other]⟩

/-- A new cell that no list gets. -/
theorem lose [DecidableEq Ptr] {pointer : Ptr} (fresh : cells pointer = none) (content : Cell Ptr Value) :
    Lists (Function.update cells pointer (some content)) links nodes (pointer :: lost) := by
  have off (i : Index) : pointer ∉ (nodes i).map Prod.fst := fun member => (lists.path i).live_of_mem member fresh
  constructor
  · exact fun i => (lists.path i).update_off (off i) _
  · exact lists.apart
  · intro other member
    by_cases same : other = pointer
    · rw [same, Function.update_self]
      exact Option.some_ne_none content
    · rw [Function.update_of_ne same]
      exact lists.lostLive other ((List.mem_cons.mp member).resolve_left same)
  · intro other member i
    rcases List.mem_cons.mp member with rfl | member
    · exact off i
    · exact lists.lostOff other member i
  · intro other live
    by_cases same : other = pointer
    · exact .inl (same ▸ List.mem_cons_self)
    · rw [Function.update_of_ne same] at live
      exact (lists.live other live).imp_left (List.mem_cons_of_mem _)

end Lists
end LinkedList
