import LamiaAtrium.Library.Run
import LamiaAtrium.Proofs.FrameList

/-! The list behind `mm->fifo_pgn` as a queue of pages: `enlist_pgn_node` puts a page in front
of it, and `find_victim_page` takes one from its end. -/

namespace LamiaAtrium
open LinkedList Run

section Calls
variable {Ptr : Type} [DecidableEq Ptr] {h : NodeHeap Ptr Addr} {fifoPgn : Option Ptr} {pg : Ptr}

theorem enlistPgnNode_path {nodes : List (Ptr × Addr)} {block : Ptr} {content : Cell Ptr Addr} {blocks : List (Ptr × Cell Ptr Addr)}
    (path : Path h.cells fifoPgn nodes) (next : h.blocks = (block, content) :: blocks) (fresh : h.cells block = none) (pgn : Addr) :
    ∃ after, h.enlistPgnNode fifoPgn pgn = .ok (0, some block, after) ∧ Path after.cells (some block) ((block, pgn) :: nodes) := by
  have liveNew : (Function.update h.cells block (some content)) block = some content := Function.update_self _ _ _
  refine ⟨{ cells := Function.update h.cells block (some { value := pgn, next := fifoPgn }), blocks }, ?_, path.push fresh pgn⟩
  rw [NodeHeap.enlistPgnNode, NodeHeap.malloc_cons next, Outcome.bind_ok]
  dsimp only
  rw [NodeHeap.store_live liveNew, Function.update_idem]
  rfl

omit [DecidableEq Ptr] in
/-- The walk ends at the last node, with the one before it in `prev`. -/
theorem lastPageLoop_path {front : List (Ptr × Addr)} {last : Ptr × Addr} {prev : Option Ptr} {fuel : Nat}
    (path : Path h.cells (some pg) (front ++ [last])) (enough : front.length ≤ fuel) :
    h.lastPageLoop fuel prev pg = some (.ok ((front.getLast?.map Prod.fst).or prev, last.1, last.2)) := by
  induction front generalizing pg prev fuel with
  | nil =>
    cases path with
    | cons live behind =>
      cases behind
      rw [NodeHeap.lastPageLoop, NodeHeap.load_live live]
      rfl
  | cons node front ih =>
    obtain ⟨fuel, rfl⟩ : ∃ less, fuel = less + 1 := ⟨_, (Nat.sub_add_cancel (Nat.le_trans (Nat.succ_le_succ (Nat.zero_le _)) enough)).symm⟩
    cases path with
    | @cons _ value next _ live behind =>
      cases next with
      | none =>
        have short := Chain.null_iff.mp behind.chain
        simp at short
      | some next =>
        have walked := @ih next (some pg) fuel behind (Nat.le_of_succ_le_succ enough)
        rw [NodeHeap.lastPageLoop, NodeHeap.load_live live]
        dsimp only
        rw [walked, List.getLast?_cons]
        cases front.getLast? <;> rfl

/-- The oldest page comes off the end, and every other node keeps its place. -/
theorem findVictimPage_path {oldest : Ptr × Addr} {rest : List (Ptr × Addr)} {fuel : Nat}
    (path : Path h.cells fifoPgn (oldest :: rest).reverse) (enough : rest.length ≤ fuel) :
    ∃ link after, h.findVictimPage fuel fifoPgn = some (.ok (0, some oldest.2, link, after)) ∧ Path after.cells link rest.reverse ∧
      after.cells oldest.1 = none ∧ ∀ pointer, pointer ∉ (oldest :: rest).map Prod.fst → after.cells pointer = h.cells pointer := by
  obtain ⟨last, pgn⟩ := oldest
  rw [List.reverse_cons] at path
  cases rest with
  | nil =>
    cases path with
    | cons live behind =>
      cases behind
      refine ⟨none, h.free last, ?_, .nil, Function.update_self .., ?_⟩
      · rw [NodeHeap.findVictimPage, NodeHeap.load_live live]
      · intro pointer off
        have apart : pointer ≠ last := fun same => off (same ▸ List.mem_cons_self)
        exact Function.update_of_ne apart ..
  | cons second more =>
    rw [List.reverse_cons] at path ⊢
    have whole : Path h.cells fifoPgn (more.reverse ++ [second, (last, pgn)]) := by
      rw [List.append_assoc] at path
      exact path
    have cut := whole.cut_last
    have live := whole.before_last
    cases front : more.reverse ++ [second] with
    | nil => simp at front
    | cons node others =>
      have behindLast : (node :: others).getLast? = some second := by rw [← front, List.getLast?_concat]
      have length : (node :: others).length = (second :: more).length := by
        rw [← front, List.length_append, List.length_reverse, List.length_singleton, List.length_cons]
      rw [front] at path cut
      cases path with
      | @cons pg value next _ first behind =>
        cases next with
        | none =>
          have short := Chain.null_iff.mp behind.chain
          simp at short
        | some next =>
          have walked := @lastPageLoop_path _ h pg _ (last, pgn) none fuel (.cons first behind) (length ▸ enough)
          rw [behindLast] at walked
          refine ⟨some pg, NodeHeap.free { h with cells := Function.update h.cells second.1 (some { value := second.2, next := none }) } last,
            ?_, cut, Function.update_self .., ?_⟩
          · rw [NodeHeap.findVictimPage, NodeHeap.load_live first]
            dsimp only
            rw [walked, Option.map_some, Outcome.bind_ok]
            change some (h.setNext second.1 none >>= _) = _
            rw [NodeHeap.setNext_live live]
            rfl
          · intro pointer off
            rw [List.map_cons, List.map_cons, List.mem_cons, List.mem_cons, not_or, not_or] at off
            change Function.update (Function.update h.cells second.1 _) last none pointer = _
            rw [Function.update_of_ne off.1, Function.update_of_ne off.2.1]

omit [DecidableEq Ptr] in
/-- A walk that has ended goes the same way with more rounds to go. -/
theorem lastPageLoop_more {fuel more : Nat} {prev : Option Ptr} {result : Outcome (Option Ptr × Ptr × Addr)}
    (ended : h.lastPageLoop fuel prev pg = some result) (enough : fuel ≤ more) : h.lastPageLoop more prev pg = some result := by
  induction fuel generalizing more prev pg with
  | zero =>
    rw [NodeHeap.lastPageLoop] at ended ⊢
    cases found : h.load pg with
    | error fault => rwa [found] at ended
    | ok cell =>
      rw [found] at ended
      cases next : cell.next with
      | none => simpa only [next] using ended
      | some next' => simp only [next, reduceCtorEq] at ended
  | succ fuel ih =>
    obtain ⟨more, rfl⟩ : ∃ less, more = less + 1 := ⟨_, (Nat.sub_add_cancel (Nat.le_trans (Nat.succ_le_succ (Nat.zero_le _)) enough)).symm⟩
    rw [NodeHeap.lastPageLoop] at ended ⊢
    cases found : h.load pg with
    | error fault => rwa [found] at ended
    | ok cell =>
      rw [found] at ended
      cases next : cell.next with
      | none => simpa only [next] using ended
      | some next' =>
        simp only [next] at ended ⊢
        exact ih ended (Nat.le_of_succ_le_succ enough)

theorem findVictimPage_more {fuel more : Nat} {result : Outcome (Int × Option Addr × Option Ptr × NodeHeap Ptr Addr)}
    (ended : h.findVictimPage fuel fifoPgn = some result) (enough : fuel ≤ more) : h.findVictimPage more fifoPgn = some result := by
  cases fifoPgn with
  | none => exact ended
  | some pg =>
    rw [NodeHeap.findVictimPage] at ended ⊢
    cases found : h.load pg with
    | error fault => rwa [found] at ended
    | ok cell =>
      obtain ⟨value, next⟩ := cell
      rw [found] at ended
      cases next with
      | none => exact ended
      | some next =>
        obtain ⟨walked, ended, same⟩ := Option.map_eq_some_iff.mp ended
        dsimp only
        rw [lastPageLoop_more ended enough, Option.map_some, same]

end Calls

section Runs
variable {Ptr : Type} [DecidableEq Ptr]

/-- `mm->fifo_pgn` and the live nodes. -/
structure FifoList (Ptr : Type) where
  fifoPgn : Option Ptr
  cells : Cells Ptr Addr

inductive FifoEvent where
  | enlist (pgn : Addr)
  | victim (code : Int) (retpgn : Option Addr)

/-- `malloc` may return any block that is not live, also one that was freed before. -/
inductive FifoStep : FifoList Ptr → FifoEvent → FifoList Ptr → Prop where
  | enlist {list : FifoList Ptr} {block : Ptr} {content : Cell Ptr Addr} {pgn : Addr} {code : Int} {link : Option Ptr}
      {after : NodeHeap Ptr Addr} (fresh : list.cells block = none)
      (returned : NodeHeap.enlistPgnNode { cells := list.cells, blocks := [(block, content)] } list.fifoPgn pgn = .ok (code, link, after)) :
      FifoStep list (.enlist pgn) ⟨link, after.cells⟩
  | victim {list : FifoList Ptr} {fuel : Nat} {code : Int} {retpgn : Option Addr} {link : Option Ptr} {after : NodeHeap Ptr Addr}
      (returned : NodeHeap.findVictimPage { cells := list.cells, blocks := [] } fuel list.fifoPgn = some (.ok (code, retpgn, link, after))) :
      FifoStep list (.victim code retpgn) ⟨link, after.cells⟩

def enlistedPages (events : List FifoEvent) : List Addr :=
  events.filterMap fun event => match event with
    | .enlist pgn => some pgn
    | .victim _ _ => none

def returnedPages (events : List FifoEvent) : List Addr :=
  events.filterMap fun event => match event with
    | .enlist _ => none
    | .victim _ retpgn => retpgn

/-- The list holds these nodes, the oldest first, and the next call does with them what a queue
does: it puts a page behind them, or takes the first and leaves the others as they are. -/
structure FifoList.Serves (list : FifoList Ptr) (waiting : List (Ptr × Addr)) : Prop where
  nodes : Path list.cells list.fifoPgn waiting.reverse
  enlists : ∀ block content pgn, list.cells block = none → ∃ after,
    NodeHeap.enlistPgnNode { cells := list.cells, blocks := [(block, content)] } list.fifoPgn pgn = .ok (0, some block, after) ∧
      Path after.cells (some block) (waiting ++ [(block, pgn)]).reverse
  nothing : waiting = [] → ∀ fuel, NodeHeap.findVictimPage { cells := list.cells, blocks := [] } fuel list.fifoPgn =
    some (.ok (-1, none, list.fifoPgn, { cells := list.cells, blocks := [] }))
  oldest : ∀ first rest, waiting = first :: rest → ∀ fuel, rest.length ≤ fuel → ∃ link after,
    NodeHeap.findVictimPage { cells := list.cells, blocks := [] } fuel list.fifoPgn = some (.ok (0, some first.2, link, after)) ∧
      Path after.cells link rest.reverse ∧ after.cells first.1 = none ∧
        ∀ pointer, pointer ∉ waiting.map Prod.fst → after.cells pointer = list.cells pointer

theorem FifoList.serves_of_path {list : FifoList Ptr} {waiting : List (Ptr × Addr)} (path : Path list.cells list.fifoPgn waiting.reverse) :
    list.Serves waiting where
  nodes := path
  enlists block content pgn fresh := by
    rw [List.reverse_append]
    exact enlistPgnNode_path path rfl fresh pgn
  nothing empty fuel := by
    rw [empty] at path
    rw [Chain.nil_iff.mp path.chain]
    rfl
  oldest first rest same fuel enough := by
    subst same
    exact findVictimPage_path path enough

/-- What has been enlisted is what has been returned, followed by what the list holds. -/
theorem FifoStep.keeps {list next : FifoList Ptr} {event : FifoEvent} {events : List FifoEvent} (taken : FifoStep list event next)
    {waiting : List (Ptr × Addr)} (path : Path list.cells list.fifoPgn waiting.reverse)
    (account : enlistedPages events = returnedPages events ++ waiting.map Prod.snd) :
    ∃ later : List (Ptr × Addr), Path next.cells next.fifoPgn later.reverse ∧
      enlistedPages (events ++ [event]) = returnedPages (events ++ [event]) ++ later.map Prod.snd := by
  simp only [enlistedPages, returnedPages, List.filterMap_append] at account ⊢
  cases taken with
  | @enlist block content pgn code link after fresh returned =>
    obtain ⟨_, ran, longer⟩ := (FifoList.serves_of_path path).enlists block content pgn fresh
    cases returned.symm.trans ran
    refine ⟨_, longer, ?_⟩
    rw [account]
    simp
  | @victim fuel code retpgn link after returned =>
    cases waiting with
    | nil =>
      have ran := (FifoList.serves_of_path path).nothing rfl fuel
      cases returned.symm.trans ran
      refine ⟨[], path, ?_⟩
      rw [account]
      simp
    | cons first rest =>
      obtain ⟨_, _, ran, shorter, _⟩ := (FifoList.serves_of_path path).oldest first rest rfl (max fuel rest.length) (Nat.le_max_right ..)
      cases (findVictimPage_more returned (Nat.le_max_left ..)).symm.trans ran
      refine ⟨rest, shorter, ?_⟩
      rw [account]
      simp

/-- From an empty list on: `find_victim_page` has returned the pages in the order in which they
were enlisted, the list holds those that are left, and so the next call returns the oldest of
them, or -1 if all have been returned. -/
theorem page_replacement_is_fifo {first last : FifoList Ptr} {events : List FifoEvent} (empty : first.fifoPgn = none)
    (run : Steps FifoStep first events last) :
    ∃ waiting, enlistedPages events = returnedPages events ++ waiting.map Prod.snd ∧ last.Serves waiting := by
  obtain ⟨waiting, path, account⟩ := run.history
    (fun events list => ∃ waiting : List (Ptr × Addr), Path list.cells list.fifoPgn waiting.reverse ∧
      enlistedPages events = returnedPages events ++ waiting.map Prod.snd)
    ⟨[], by rw [empty]; exact .nil, rfl⟩
    (by
      intro events list event next held taken
      obtain ⟨waiting, path, account⟩ := held
      exact taken.keeps path account)
  exact ⟨waiting, account, FifoList.serves_of_path path⟩

theorem page_replacement_is_fifo_reusedBlock : ∃ last waiting,
    Steps FifoStep (⟨none, fun _ => none⟩ : FifoList Nat) [.enlist 5, .enlist 6, .victim 0 (some 5), .enlist 5, .victim 0 (some 6)] last ∧
      enlistedPages [.enlist 5, .enlist 6, .victim 0 (some 5), .enlist 5, .victim 0 (some 6)] = [5, 6] ++ waiting.map Prod.snd ∧
      last.Serves waiting := by
  have run : ∃ last, Steps FifoStep (⟨none, fun _ => none⟩ : FifoList Nat)
      [.enlist 5, .enlist 6, .victim 0 (some 5), .enlist 5, .victim 0 (some 6)] last :=
    ⟨_, .cons (@FifoStep.enlist _ _ _ 0 ⟨0, none⟩ _ _ _ _ rfl rfl)
      (.cons (@FifoStep.enlist _ _ _ 1 ⟨0, some 7⟩ _ _ _ _ rfl rfl)
        (.cons (@FifoStep.victim _ _ _ 2 _ _ _ _ rfl)
          (.cons (@FifoStep.enlist _ _ _ 0 ⟨5, none⟩ _ _ _ _ rfl rfl)
            (.single (@FifoStep.victim _ _ _ 2 _ _ _ _ rfl)))))⟩
  obtain ⟨last, run⟩ := run
  obtain ⟨waiting, account, serves⟩ := page_replacement_is_fifo rfl run
  exact ⟨last, waiting, run, account, serves⟩

section Lists
variable {h : NodeHeap Ptr Addr} {fifoPgn : Option Ptr} {nodes : List (Ptr × Addr)} {mm : Mm} {fuel : Nat}

theorem popOldest_concat (kept : List Addr) (oldest : Addr) : popOldest (kept ++ [oldest]) = some (oldest, kept) := by
  induction kept with
  | nil => rfl
  | cons pgn kept ih =>
    cases rest : kept ++ [oldest] with
    | nil => simp at rest
    | cons next others =>
      rw [List.cons_append, rest, popOldest, ← rest, ih]
      · rfl
      · exact List.cons_ne_nil _ _

/-- The list of pages in `Mm` goes with the nodes in memory. -/
theorem enlistPgnNode_list {block : Ptr} {content : Cell Ptr Addr} {blocks : List (Ptr × Cell Ptr Addr)} (path : Path h.cells fifoPgn nodes)
    (same : nodes.map Prod.snd = mm.fifoPgn) (next : h.blocks = (block, content) :: blocks) (fresh : h.cells block = none) (pgn : Addr) :
    ∃ after kept, h.enlistPgnNode fifoPgn pgn = .ok (0, some block, after) ∧ Path after.cells (some block) kept ∧
      kept.map Prod.snd = (mm.enlistPgn pgn).fifoPgn := by
  obtain ⟨after, ran, longer⟩ := enlistPgnNode_path path next fresh pgn
  exact ⟨after, _, ran, longer, by rw [List.map_cons, same]; rfl⟩

theorem findVictimPage_list (path : Path h.cells fifoPgn nodes) (same : nodes.map Prod.snd = mm.fifoPgn) (enough : nodes.length ≤ fuel) :
    match findVictimPage mm with
    | none => h.findVictimPage fuel fifoPgn = some (.ok (-1, none, fifoPgn, h))
    | some (pgn, later) => ∃ link after kept, h.findVictimPage fuel fifoPgn = some (.ok (0, some pgn, link, after)) ∧
        Path after.cells link kept ∧ kept.map Prod.snd = later.fifoPgn := by
  obtain ⟨waiting, rfl⟩ : ∃ waiting : List (Ptr × Addr), nodes = waiting.reverse := ⟨nodes.reverse, (List.reverse_reverse nodes).symm⟩
  cases waiting with
  | nil =>
    have none : findVictimPage mm = none := by rw [findVictimPage, ← same]; rfl
    rw [none, Chain.nil_iff.mp path.chain]
    rfl
  | cons oldest rest =>
    have pages : mm.fifoPgn = rest.reverse.map Prod.snd ++ [oldest.2] := by rw [← same, List.reverse_cons, List.map_append]; rfl
    have popped : findVictimPage mm = some (oldest.2, { mm with fifoPgn := rest.reverse.map Prod.snd }) := by
      rw [findVictimPage, pages, popOldest_concat]
      rfl
    rw [List.length_reverse] at enough
    obtain ⟨link, after, ran, shorter, _⟩ := findVictimPage_path path (Nat.le_of_succ_le enough)
    rw [popped]
    exact ⟨link, after, rest.reverse, ran, shorter, rfl⟩

end Lists

end Runs
end LamiaAtrium
