import LamiaAtrium.Library.Run
import LamiaAtrium.Proofs.InitialMm

/-! The node lists of the kernel over whole runs. The free frames of the devices, and the free
regions of the processes, lie in one memory each; what the functions do to the nodes is
what `Memphy` and `Mm` do to lists, and no node is on two lists. -/

namespace LamiaAtrium
open LinkedList Run
variable {Ptr : Type} [DecidableEq Ptr]

section Frames
variable {Device : Type} [DecidableEq Device]

/-- The devices with their pointers, and the live nodes. -/
structure FrameNodes (Device Ptr : Type) where
  devices : Device → MemphyStruct Ptr
  cells : Cells Ptr Addr

inductive FrameEvent (Device : Type) where
  | got (device : Device) (code : Int) (retfpn : Option Addr)
  | put (device : Device) (fpn : Addr)

/-- `MEMPHY_get_freefp` and `MEMPHY_put_freefp`. `malloc` may return any block that is not live. -/
inductive FrameNodes.Step : FrameNodes Device Ptr → FrameEvent Device → FrameNodes Device Ptr → Prop where
  | got {s : FrameNodes Device Ptr} {device : Device} {code : Int} {retfpn : Option Addr} {mp : MemphyStruct Ptr} {after : NodeHeap Ptr Addr}
      (returned : (s.devices device).getFreefp { cells := s.cells, blocks := [] } = .ok (code, retfpn, mp, after)) :
      Step s (.got device code retfpn) { devices := Function.update s.devices device mp, cells := after.cells }
  | put {s : FrameNodes Device Ptr} {device : Device} {code : Int} {fpn : Addr} {block : Ptr} {content : Cell Ptr Addr}
      {mp : MemphyStruct Ptr} {after : NodeHeap Ptr Addr} (fresh : s.cells block = none)
      (returned : (s.devices device).putFreefp fpn { cells := s.cells, blocks := [(block, content)] } = .ok (code, mp, after)) :
      Step s (.put device fpn) { devices := Function.update s.devices device mp, cells := after.cells }

/-- The same calls on the lists of `Memphy`. -/
inductive MemphyStep : (Device → Memphy) → FrameEvent Device → (Device → Memphy) → Prop where
  | nothing {mps : Device → Memphy} {device : Device} (empty : (mps device).getFreefp = none) : MemphyStep mps (.got device (-1) none) mps
  | got {mps : Device → Memphy} {device : Device} {fpn : Addr} {mp : Memphy} (given : (mps device).getFreefp = some (fpn, mp)) :
      MemphyStep mps (.got device 0 (some fpn)) (Function.update mps device mp)
  | put {mps : Device → Memphy} (device : Device) (fpn : Addr) :
      MemphyStep mps (.put device fpn) (Function.update mps device ((mps device).putFreefp fpn))

/-- The lists of the devices lie in memory, each in its own nodes, and no node is lost. -/
structure FrameNodes.Represents (s : FrameNodes Device Ptr) (mps : Device → Memphy) (nodes : Device → List (Ptr × Addr)) : Prop where
  lists : Lists s.cells (fun device => (s.devices device).freeFpList) nodes []
  values : ∀ device, (mps device).freeFpList = (nodes device).map Prod.snd

/-- The head of the list is what the call returns, and the node it releases. -/
theorem getFreefp_change {mp : MemphyStruct Ptr} {h : NodeHeap Ptr Addr} {nodes : List (Ptr × Addr)} (path : Path h.cells mp.freeFpList nodes) :
    ∃ code retfpn link nodes' after, mp.getFreefp h = .ok (code, retfpn, { mp with freeFpList := link }, after) ∧
      Change h.cells nodes after.cells link nodes' ∧
      (nodes = [] ∧ code = -1 ∧ retfpn = none ∧ nodes' = [] ∨ ∃ node, nodes = node :: nodes' ∧ code = 0 ∧ retfpn = some node.2) := by
  cases link : mp.freeFpList with
  | none =>
    rw [link] at path
    cases path
    refine ⟨-1, none, none, [], h, ?_, .refl .nil, .inl ⟨rfl, rfl, rfl, rfl⟩⟩
    rw [MemphyStruct.getFreefp, link]
    exact congrArg (fun link => Except.ok ((-1 : Int), (none : Option Addr), { mp with freeFpList := link }, h)) link
  | some fp =>
    rw [link] at path
    cases path with
    | @cons _ value next rest live behind =>
      refine ⟨0, some value, next, rest, h.free fp, ?_, .pop live behind, .inr ⟨(fp, value), rfl, rfl, rfl⟩⟩
      rw [MemphyStruct.getFreefp, link]
      dsimp only
      rw [NodeHeap.load_live live]
      rfl

theorem putFreefp_change {mp : MemphyStruct Ptr} {h : NodeHeap Ptr Addr} {nodes : List (Ptr × Addr)} {block : Ptr} {content : Cell Ptr Addr}
    {blocks : List (Ptr × Cell Ptr Addr)} (path : Path h.cells mp.freeFpList nodes) (next : h.blocks = (block, content) :: blocks)
    (fresh : h.cells block = none) (fpn : Addr) : ∃ after, mp.putFreefp fpn h = .ok (0, { mp with freeFpList := some block }, after) ∧
      Change h.cells nodes after.cells (some block) ((block, fpn) :: nodes) := by
  have liveNew : (Function.update h.cells block (some content)) block = some content := Function.update_self _ _ _
  refine ⟨{ cells := Function.update h.cells block (some { value := fpn, next := mp.freeFpList }), blocks }, ?_, .push path fresh fpn⟩
  rw [MemphyStruct.putFreefp, NodeHeap.malloc_cons next, Outcome.bind_ok]
  dsimp only
  rw [NodeHeap.store_live liveNew, Function.update_idem]
  rfl

namespace FrameNodes.Represents
variable {s after : FrameNodes Device Ptr} {mps : Device → Memphy} {nodes : Device → List (Ptr × Addr)} (represents : s.Represents mps nodes)
include represents

omit [DecidableEq Ptr] in
/-- A changed list of one device. -/
theorem change {device : Device} {cells' : Cells Ptr Addr} {link : Option Ptr} {nodes' : List (Ptr × Addr)} {mp : Memphy}
    (change : Change s.cells (nodes device) cells' link nodes') (values : mp.freeFpList = nodes'.map Prod.snd) :
    Represents { devices := Function.update s.devices device { s.devices device with freeFpList := link }, cells := cells' }
      (Function.update mps device mp) (Function.update nodes device nodes') where
  lists := by
    have links : (fun d => (Function.update s.devices device { s.devices device with freeFpList := link } d).freeFpList) =
        Function.update (fun d => (s.devices d).freeFpList) device link := by
      funext d
      exact Function.apply_update (fun _ => MemphyStruct.freeFpList) s.devices device _ d
    rw [links]
    exact represents.lists.change change
  values d := by
    by_cases same : d = device
    · subst same
      rw [Function.update_self, Function.update_self, values]
    · rw [Function.update_of_ne same, Function.update_of_ne same, represents.values]

theorem step {event : FrameEvent Device} (taken : Step s event after) :
    ∃ mps' nodes', MemphyStep mps event mps' ∧ after.Represents mps' nodes' := by
  cases taken with
  | @got device code retfpn mp next returned =>
    obtain ⟨_, _, link, nodes', memory, ran, changed, answer⟩ := @getFreefp_change _ _ _ { cells := s.cells, blocks := [] } _ (represents.lists.path device)
    cases returned.symm.trans ran
    have values := represents.values device
    rcases answer with ⟨empty, rfl, rfl, rfl⟩ | ⟨node, whole, rfl, rfl⟩
    · rw [empty] at values
      have same := @change _ _ _ _ _ _ represents device _ _ _ (mps device) changed values
      rw [Function.update_eq_self] at same
      exact ⟨mps, _, .nothing (Memphy.getFreefp_nil values), same⟩
    · rw [whole] at values
      exact ⟨_, _, .got (Memphy.getFreefp_cons values), represents.change changed rfl⟩
  | @put device code fpn block content mp next fresh returned =>
    obtain ⟨memory, ran, changed⟩ := @putFreefp_change _ _ _ { cells := s.cells, blocks := [(block, content)] } _ block content []
      (represents.lists.path device) rfl fresh fpn
    cases returned.symm.trans ran
    refine ⟨_, _, .put device fpn, represents.change changed ?_⟩
    rw [Memphy.putFreefp, represents.values, List.map_cons]

end FrameNodes.Represents

/-- Any calls of `MEMPHY_get_freefp` and `MEMPHY_put_freefp` on devices whose free lists share
one memory: they give the frame numbers that the lists of `Memphy` give, and the nodes form
these lists again, none on two of them, none lost, and none used after it was freed. -/
theorem frame_nodes_refine_lists {first last : FrameNodes Device Ptr} {mps : Device → Memphy} {nodes : Device → List (Ptr × Addr)}
    {events : List (FrameEvent Device)} (start : first.Represents mps nodes) (run : Steps FrameNodes.Step first events last) :
    (∃ mps' nodes', Steps MemphyStep mps events mps' ∧ last.Represents mps' nodes') ∧
    (∀ device, ∃ code retfpn next, FrameNodes.Step last (.got device code retfpn) next) ∧
    ∀ device fpn block, last.cells block = none → ∃ next, FrameNodes.Step last (.put device fpn) next := by
  obtain ⟨mps', matched, nodes', represents⟩ := run.simulates (fun s mps => ∃ nodes, s.Represents mps nodes) ⟨nodes, start⟩
    (fun s event after mps ⟨nodes, represents⟩ taken => by
      obtain ⟨mps', nodes', step, kept⟩ := represents.step taken
      exact ⟨mps', step, nodes', kept⟩)
  refine ⟨⟨mps', nodes', matched, represents⟩, ?_, ?_⟩
  · intro device
    obtain ⟨code, retfpn, link, _, after, ran, _⟩ :=
      @getFreefp_change _ _ _ { cells := last.cells, blocks := [] } _ (represents.lists.path device)
    exact ⟨code, retfpn, _, .got ran⟩
  · intro device fpn block fresh
    obtain ⟨after, ran, _⟩ := @putFreefp_change _ _ _ { cells := last.cells, blocks := [(block, ⟨0, none⟩)] } _ block ⟨0, none⟩ []
      (represents.lists.path device) rfl fresh fpn
    exact ⟨_, .put fresh ran⟩

def bareDevice : MemphyStruct Nat := { storage := fun _ => 0, maxsz := 2048, rdmflg := true, cursor := 0, freeFpList := none }

/-- Two devices that take turns: the block that one has freed serves the other. -/
theorem frame_nodes_refine_lists_twoDevices : ∃ mps last mps' nodes', Steps MemphyStep mps
    [.put true 5, .put false 6, .got true 0 (some 5), .put false 7, .got false 0 (some 7), .got true (-1) none] mps' ∧
      @FrameNodes.Represents Nat Bool last mps' nodes' := by
  let mps : Bool → Memphy := fun _ => { storage := fun _ => 0, maxsz := 2048, rdmflg := true, cursor := 0, freeFpList := [] }
  have start : FrameNodes.Represents ⟨fun _ => bareDevice, fun _ => none⟩ mps fun _ => [] := ⟨.empty fun _ => rfl, fun _ => rfl⟩
  have run : ∃ last, Steps FrameNodes.Step (⟨fun _ => bareDevice, fun _ => none⟩ : FrameNodes Bool Nat)
      [.put true 5, .put false 6, .got true 0 (some 5), .put false 7, .got false 0 (some 7), .got true (-1) none] last :=
    ⟨_, .cons (@FrameNodes.Step.put _ _ _ _ _ _ _ _ 0 ⟨9, some 3⟩ _ _ rfl rfl)
      (.cons (@FrameNodes.Step.put _ _ _ _ _ _ _ _ 1 ⟨9, none⟩ _ _ rfl rfl)
        (.cons (.got rfl)
          (.cons (@FrameNodes.Step.put _ _ _ _ _ _ _ _ 0 ⟨5, none⟩ _ _ rfl rfl)
            (.cons (.got rfl)
              (.single (.got rfl))))))⟩
  obtain ⟨last, run⟩ := run
  obtain ⟨⟨mps', nodes', matched, represents⟩, _⟩ := frame_nodes_refine_lists start run
  exact ⟨mps, last, mps', nodes', matched, represents⟩

end Frames

section Scan
variable {h : NodeHeap Ptr VmRg} {link : Option Ptr} {nodes : List (Ptr × VmRg)} {size : Addr}

/-- The cut at the node it is made, as a change of the list. -/
theorem carveNode_change {rgit : Ptr} {rg newrg : VmRg} {next : Option Ptr} {behind : List (Ptr × VmRg)} {rest : List VmRg}
    (live : h.cells rgit = some { value := rg, next }) (path : Path h.cells next behind) (fits : rg.rgStart + size ≤ rg.rgEnd)
    (cut : carve size (rg :: behind.map Prod.snd) = some (newrg, rest)) :
    ∃ after nodes', carveNode size rgit { value := rg, next } h = .ok (newrg, after) ∧
      Change h.cells ((rgit, rg) :: behind) after.cells (some rgit) nodes' ∧ nodes'.map Prod.snd = rest := by
  rw [carve, if_pos fits] at cut
  dsimp only at cut
  by_cases left : rg.rgStart + size < rg.rgEnd
  · rw [if_pos left] at cut
    cases cut
    refine ⟨{ h with cells := Function.update h.cells rgit (some { value := { rg with rgStart := rg.rgStart + size }, next }) }, _, ?_,
      .set live path _, rfl⟩
    rw [carveNode]
    dsimp only
    rw [if_pos left, NodeHeap.store_live live]
    rfl
  · rw [if_neg left] at cut
    cases path with
    | nil =>
      cases cut
      refine ⟨{ h with cells := Function.update h.cells rgit (some { value := { rg with rgStart := rg.rgEnd }, next := none }) }, _, ?_,
        .set live .nil _, rfl⟩
      rw [carveNode]
      dsimp only
      rw [if_neg left, NodeHeap.store_live live]
      rfl
    | @cons nxt value link rest found tail =>
      cases cut
      refine ⟨{ h with cells := Function.update (Function.update h.cells rgit (some { value, next := link })) nxt none }, _, ?_,
        .absorb live found tail, rfl⟩
      rw [carveNode]
      dsimp only
      rw [if_neg left, NodeHeap.load_live found, Outcome.bind_ok, NodeHeap.store_live live]
      rfl

/-- The scan over the nodes does to the list what `carve` does, with fuel for every node. -/
theorem carveLoop_change (path : Path h.cells link nodes) {fuel : Nat} (enough : nodes.length ≤ fuel) :
    (carve size (nodes.map Prod.snd) = none → carveLoop size fuel link h = some (.ok (none, h))) ∧
    ∀ newrg rest, carve size (nodes.map Prod.snd) = some (newrg, rest) → ∃ after nodes',
      carveLoop size fuel link h = some (.ok (some newrg, after)) ∧ Change h.cells nodes after.cells link nodes' ∧
        nodes'.map Prod.snd = rest := by
  induction path generalizing fuel with
  | nil => exact ⟨fun _ => by rw [carveLoop], fun _ _ cut => by cases cut⟩
  | @cons rgit rg next behind live path ih =>
    obtain ⟨fuel, rfl⟩ : ∃ less, fuel = less + 1 := ⟨_, (Nat.sub_add_cancel (Nat.le_trans (Nat.succ_pos _) enough)).symm⟩
    rw [carveLoop_node live, List.map_cons]
    by_cases fits : rg.rgStart + size ≤ rg.rgEnd
    · rw [if_pos fits]
      constructor
      · intro none
        exact absurd fits (carve_eq_none_iff.mp none rg List.mem_cons_self)
      · intro newrg rest cut
        obtain ⟨after, nodes', carved, change, values⟩ := carveNode_change live path fits cut
        refine ⟨after, nodes', ?_, change, values⟩
        rw [carved]
        rfl
    · rw [if_neg fits, carve, if_neg fits]
      obtain ⟨none, some⟩ := ih (Nat.le_of_succ_le_succ enough)
      constructor
      · intro nothing
        exact none (Option.map_eq_none_iff.mp nothing)
      · intro newrg rest cut
        obtain ⟨⟨picked, remaining⟩, later, same⟩ := Option.map_eq_some_iff.mp cut
        cases same
        obtain ⟨after, nodes', ran, change, values⟩ := some _ _ later
        refine ⟨after, _, ran, change.behind live path, ?_⟩
        rw [List.map_cons, values]

/-- A scan that has ended goes the same way with more fuel. -/
theorem carveLoop_more {fuel more : Nat} {result : Outcome (Option VmRg × NodeHeap Ptr VmRg)}
    (ended : carveLoop size fuel link h = some result) (enough : fuel ≤ more) : carveLoop size more link h = some result := by
  induction fuel generalizing more link with
  | zero =>
    cases link with
    | none =>
      rw [carveLoop] at ended ⊢
      exact ended
    | some rgit => cases ended
  | succ fuel ih =>
    obtain ⟨more, rfl⟩ : ∃ less, more = less + 1 := ⟨_, (Nat.sub_add_cancel (Nat.le_trans (Nat.succ_pos _) enough)).symm⟩
    cases link with
    | none =>
      rw [carveLoop] at ended ⊢
      exact ended
    | some rgit =>
      rw [carveLoop] at ended ⊢
      cases found : h.load rgit with
      | error fault => rwa [found] at ended
      | ok rg =>
        rw [found] at ended
        dsimp only at ended ⊢
        split at ended
        · next fits => rwa [if_pos fits]
        · next fits =>
          rw [if_neg fits]
          exact ih ended (Nat.le_of_succ_le_succ enough)

end Scan

/-- The free regions of the first area, which has the number 0. -/
def Mm.FreeRegions (mm : Mm) (regions : List VmRg) : Prop :=
  ∃ vma others, mm.mmap = vma :: others ∧ vma.vmId = 0 ∧ vma.vmFreergList = regions

section Lists
variable {mm : Mm} {regions : List VmRg}

theorem Mm.FreeRegions.modify (free : mm.FreeRegions regions) (next : List VmRg) :
    (mm.modifyArea 0 fun vma => { vma with vmFreergList := next }).FreeRegions next := by
  obtain ⟨vma, others, mmap, number, _⟩ := free
  refine ⟨{ vma with vmFreergList := next }, others, ?_, number, rfl⟩
  rw [Mm.modifyArea, mmap]
  rfl

theorem Mm.FreeRegions.push (free : mm.FreeRegions regions) (rg : VmRg) :
    (mm.modifyArea 0 fun vma => { vma with vmFreergList := rg :: vma.vmFreergList }).FreeRegions (rg :: regions) := by
  obtain ⟨vma, others, mmap, number, rfl⟩ := free
  refine ⟨{ vma with vmFreergList := rg :: vma.vmFreergList }, others, ?_, number, rfl⟩
  rw [Mm.modifyArea, mmap]
  rfl

theorem Mm.FreeRegions.enlist (free : mm.FreeRegions regions) (rg : VmRg) : enlistVmFreergList mm rg =
    if rg.rgStart ≥ rg.rgEnd then .ok (-1, mm)
    else .ok (0, mm.modifyArea 0 fun vma => { vma with vmFreergList := rg :: vma.vmFreergList }) := by
  obtain ⟨vma, others, mmap, _, _⟩ := free
  rw [enlistVmFreergList, Mm.area, mmap]
  rfl

theorem Mm.FreeRegions.scan (free : mm.FreeRegions regions) (size : CInt) : getFreeVmrgArea mm 0 size =
    if size.sle 0#32 then .ok (-1, none, mm)
    else match carve (intToAddr size) regions with
      | none => .ok (-1, none, mm)
      | some (newrg, rest) =>
        .ok (if newrg.rgStart = -1 then -1 else 0, some newrg, mm.modifyArea 0 fun vma => { vma with vmFreergList := rest }) := by
  obtain ⟨vma, others, mmap, number, rfl⟩ := free
  have found : getVmaByNum mm 0 = .ok (some (0, vma)) := by
    rw [getVmaByNum, mmap]
    dsimp only
    rw [getVmaFrom, number]
    rfl
  rw [getFreeVmrgArea, found]
  split
  · rfl
  · rw [Outcome.bind_ok]
    dsimp only
    cases carve (intToAddr size) vma.vmFreergList with
    | none => rfl
    | some cut =>
      obtain ⟨newrg, rest⟩ := cut
      dsimp only
      split <;> rfl

end Lists

section Regions
variable {Proc : Type} [DecidableEq Proc]

/-- The pointers `vm_freerg_list` of all processes, and the live nodes. -/
structure RegionNodes (Proc Ptr : Type) where
  vmFreergList : Proc → Option Ptr
  cells : Cells Ptr VmRg

inductive RegionEvent (Proc : Type) where
  | freed (proc : Proc) (rg : VmRg) (code : Int)
  | kept (proc : Proc) (oldBrk size grow : Addr)
  | scanned (proc : Proc) (size : CInt) (code : Int) (newrg : Option VmRg)

/-- What `__free` and `__alloc` do to the nodes. `malloc` may return any block that is not live. -/
inductive RegionNodes.Step : RegionNodes Proc Ptr → RegionEvent Proc → RegionNodes Proc Ptr → Prop where
  | freed {s : RegionNodes Proc Ptr} {proc : Proc} {rg : VmRg} {code : Int} {link : Option Ptr} {block : Ptr} {content : Cell Ptr VmRg}
      {after : NodeHeap Ptr VmRg} (fresh : s.cells block = none)
      (returned : NodeHeap.freeRegion { cells := s.cells, blocks := [(block, content)] } (s.vmFreergList proc) rg = .ok (code, link, after)) :
      Step s (.freed proc rg code) { vmFreergList := Function.update s.vmFreergList proc link, cells := after.cells }
  | kept {s : RegionNodes Proc Ptr} {proc : Proc} {oldBrk size grow : Addr} {link : Option Ptr} {block : Ptr} {content : Cell Ptr VmRg}
      {after : NodeHeap Ptr VmRg} (fresh : s.cells block = none)
      (returned : NodeHeap.keepExtra { cells := s.cells, blocks := [(block, content)] } (s.vmFreergList proc) oldBrk size grow =
        .ok (link, after)) :
      Step s (.kept proc oldBrk size grow) { vmFreergList := Function.update s.vmFreergList proc link, cells := after.cells }
  | scanned {s : RegionNodes Proc Ptr} {proc : Proc} {size : CInt} {code : Int} {newrg : Option VmRg} {fuel : Nat} {after : NodeHeap Ptr VmRg}
      (returned : NodeHeap.getFreeVmrgArea { cells := s.cells, blocks := [] } fuel (s.vmFreergList proc) size =
        some (.ok (code, newrg, after))) :
      Step s (.scanned proc size code newrg) { s with cells := after.cells }

/-- The same on the lists of `Mm`. -/
inductive MmStep : (Proc → Mm) → RegionEvent Proc → (Proc → Mm) → Prop where
  | freed {mms : Proc → Mm} {proc : Proc} {rg : VmRg} {code : Int} {mm : Mm} (returned : enlistVmFreergList (mms proc) rg = .ok (code, mm)) :
      MmStep mms (.freed proc rg code) (Function.update mms proc mm)
  | kept {mms : Proc → Mm} (proc : Proc) (oldBrk size grow : Addr) :
      MmStep mms (.kept proc oldBrk size grow) (Function.update mms proc (keepExtra (mms proc) 0 oldBrk size grow))
  | scanned {mms : Proc → Mm} {proc : Proc} {size : CInt} {code : Int} {newrg : Option VmRg} {mm : Mm}
      (returned : getFreeVmrgArea (mms proc) 0 size = .ok (code, newrg, mm)) :
      MmStep mms (.scanned proc size code newrg) (Function.update mms proc mm)

/-- The free lists of the processes lie in memory, each in its own nodes. A node on no list holds
an empty region: `__free` leaves its new node there if `enlist_vm_freerg_list` refuses it. -/
structure RegionNodes.Represents (s : RegionNodes Proc Ptr) (mms : Proc → Mm) (nodes : Proc → List (Ptr × VmRg)) (lost : List Ptr) : Prop where
  lists : Lists s.cells s.vmFreergList nodes lost
  values : ∀ proc, (mms proc).FreeRegions ((nodes proc).map Prod.snd)
  empty : ∀ pointer ∈ lost, ∃ rg next, s.cells pointer = some { value := rg, next } ∧ rg.rgEnd ≤ rg.rgStart

section Calls
variable {cells : Cells Ptr VmRg} {link : Option Ptr} {nodes : List (Ptr × VmRg)} {block : Ptr} {content : Cell Ptr VmRg}

/-- An empty region is refused, and its node lost. -/
theorem freeRegion_refused (rg : VmRg) (refused : rg.rgStart ≥ rg.rgEnd) (link : Option Ptr) :
    NodeHeap.freeRegion { cells, blocks := [(block, content)] } link rg =
      .ok (-1, link, { cells := Function.update cells block (some { value := rg, next := none }), blocks := [] }) := by
  have liveNew : (Function.update cells block (some content)) block = some content := Function.update_self _ _ _
  rw [NodeHeap.freeRegion, NodeHeap.malloc_cons rfl, Outcome.bind_ok]
  dsimp only
  rw [NodeHeap.store_live liveNew, Function.update_idem, Outcome.bind_ok, NodeHeap.enlistVmFreergList,
    NodeHeap.load_live (Function.update_self _ _ _), Outcome.bind_ok]
  exact if_pos refused

theorem freeRegion_enlisted (rg : VmRg) (proper : ¬rg.rgStart ≥ rg.rgEnd) (path : Path cells link nodes) (fresh : cells block = none) :
    ∃ after, NodeHeap.freeRegion { cells, blocks := [(block, content)] } link rg = .ok (0, some block, after) ∧
      Change cells nodes after.cells (some block) ((block, rg) :: nodes) := by
  have liveNew : (Function.update cells block (some content)) block = some content := Function.update_self _ _ _
  refine ⟨{ cells := Function.update cells block (some { value := rg, next := link }), blocks := [] }, ?_, .push path fresh rg⟩
  rw [NodeHeap.freeRegion, NodeHeap.malloc_cons rfl, Outcome.bind_ok]
  dsimp only
  rw [NodeHeap.store_live liveNew, Function.update_idem, Outcome.bind_ok, NodeHeap.enlistVmFreergList,
    NodeHeap.load_live (Function.update_self _ _ _), Outcome.bind_ok]
  dsimp only
  rw [if_neg proper]
  cases link with
  | none => rfl
  | some head =>
    rw [Option.isSome_some, if_pos rfl, NodeHeap.setNext_live (Function.update_self _ _ _), Function.update_idem]
    rfl

theorem keepExtra_change (oldBrk size grow : Addr) (path : Path cells link nodes) (fresh : cells block = none) :
    ∃ link' nodes' after, NodeHeap.keepExtra { cells, blocks := [(block, content)] } link oldBrk size grow = .ok (link', after) ∧
      Change cells nodes after.cells link' nodes' ∧ nodes'.map Prod.snd =
        if oldBrk + size < oldBrk + grow then { rgStart := oldBrk + size, rgEnd := oldBrk + grow } :: nodes.map Prod.snd
        else nodes.map Prod.snd := by
  by_cases left : oldBrk + size < oldBrk + grow
  · have liveNew : (Function.update cells block (some content)) block = some content := Function.update_self _ _ _
    let extra : VmRg := { rgStart := oldBrk + size, rgEnd := oldBrk + grow }
    refine ⟨some block, (block, extra) :: nodes, { cells := Function.update cells block (some { value := extra, next := link }), blocks := [] },
      ?_, .push path fresh extra, ?_⟩
    · rw [NodeHeap.keepExtra, if_pos left, NodeHeap.malloc_cons rfl, Outcome.bind_ok]
      dsimp only
      rw [NodeHeap.store_live liveNew, Function.update_idem]
      rfl
    · rw [if_pos left, List.map_cons]
  · refine ⟨link, nodes, { cells, blocks := [(block, content)] }, ?_, .refl path, ?_⟩
    · rw [NodeHeap.keepExtra, if_neg left]
      rfl
    · rw [if_neg left]

/-- `get_free_vmrg_area` over the nodes and over the list. -/
theorem getFreeVmrgArea_change {mm : Mm} (free : mm.FreeRegions (nodes.map Prod.snd)) (path : Path cells link nodes) (size : CInt) {fuel : Nat}
    (enough : nodes.length ≤ fuel) : ∃ code newrg after mm' nodes',
    NodeHeap.getFreeVmrgArea { cells, blocks := [] } fuel link size = some (.ok (code, newrg, after)) ∧
      getFreeVmrgArea mm 0 size = .ok (code, newrg, mm') ∧ Change cells nodes after.cells link nodes' ∧
      mm'.FreeRegions (nodes'.map Prod.snd) := by
  rw [free.scan]
  by_cases nothing : size.sle 0#32
  · refine ⟨-1, none, { cells, blocks := [] }, mm, nodes, ?_, if_pos nothing, .refl path, free⟩
    rw [NodeHeap.getFreeVmrgArea, if_pos nothing]
  · rw [if_neg nothing]
    obtain ⟨missed, found⟩ := @carveLoop_change _ _ { cells, blocks := [] } link nodes (intToAddr size) path fuel enough
    cases cut : carve (intToAddr size) (nodes.map Prod.snd) with
    | none =>
      refine ⟨-1, none, { cells, blocks := [] }, mm, nodes, ?_, rfl, .refl path, free⟩
      rw [NodeHeap.getFreeVmrgArea, if_neg nothing, missed cut]
      rfl
    | some result =>
      obtain ⟨newrg, rest⟩ := result
      obtain ⟨after, nodes', ran, change, values⟩ := found newrg rest cut
      refine ⟨if newrg.rgStart = -1 then -1 else 0, some newrg, after, _, nodes', ?_, rfl, change, values ▸ free.modify rest⟩
      rw [NodeHeap.getFreeVmrgArea, if_neg nothing, ran]
      change some (if newrg.rgStart = -1 then _ else _) = _
      split <;> rfl

end Calls

theorem carve_more {cells : Cells Ptr VmRg} {link : Option Ptr} {size : CInt} {fuel more : Nat}
    {result : Outcome (Int × Option VmRg × NodeHeap Ptr VmRg)}
    (ended : NodeHeap.getFreeVmrgArea { cells, blocks := [] } fuel link size = some result) (enough : fuel ≤ more) :
    NodeHeap.getFreeVmrgArea { cells, blocks := [] } more link size = some result := by
  rw [NodeHeap.getFreeVmrgArea] at ended ⊢
  split at ended
  · next nothing => rwa [if_pos nothing]
  · next positive =>
    obtain ⟨scanned, ran, same⟩ := Option.map_eq_some_iff.mp ended
    rw [if_neg positive, carveLoop_more ran enough, Option.map_some, same]

namespace RegionNodes.Represents
variable {s after : RegionNodes Proc Ptr} {mms : Proc → Mm} {nodes : Proc → List (Ptr × VmRg)} {lost : List Ptr}
  (represents : s.Represents mms nodes lost)
include represents

omit [DecidableEq Ptr] in
/-- A changed list of one process. -/
theorem change {proc : Proc} {cells' : Cells Ptr VmRg} {link : Option Ptr} {nodes' : List (Ptr × VmRg)} {mm : Mm}
    (change : Change s.cells (nodes proc) cells' link nodes') (values : mm.FreeRegions (nodes'.map Prod.snd)) :
    Represents { vmFreergList := Function.update s.vmFreergList proc link, cells := cells' } (Function.update mms proc mm)
      (Function.update nodes proc nodes') lost where
  lists := represents.lists.change change
  values p := by
    by_cases same : p = proc
    · subst same
      rw [Function.update_self, Function.update_self]
      exact values
    · rw [Function.update_of_ne same, Function.update_of_ne same]
      exact represents.values p
  empty pointer member := by
    obtain ⟨rg, next, held, empty⟩ := represents.empty pointer member
    exact ⟨rg, next, (represents.lists.untouched_lost change member).2.trans held, empty⟩

omit [DecidableEq Proc] in
/-- A refused region. -/
theorem lose {block : Ptr} {rg : VmRg} (fresh : s.cells block = none) (refused : rg.rgStart ≥ rg.rgEnd) :
    Represents { s with cells := Function.update s.cells block (some { value := rg, next := none }) } mms nodes (block :: lost) where
  lists := represents.lists.lose fresh _
  values := represents.values
  empty pointer member := by
    by_cases same : pointer = block
    · exact ⟨rg, none, same ▸ Function.update_self .., refused⟩
    · obtain ⟨held, next, there, empty⟩ := represents.empty pointer ((List.mem_cons.mp member).resolve_left same)
      exact ⟨held, next, (Function.update_of_ne same ..).trans there, empty⟩

theorem step {event : RegionEvent Proc} (taken : Step s event after) :
    ∃ mms', MmStep mms event mms' ∧ ∃ nodes' lost', after.Represents mms' nodes' lost' := by
  cases taken with
  | @freed proc rg code link block content memory fresh returned =>
    have enlisted := (represents.values proc).enlist rg
    by_cases refused : rg.rgStart ≥ rg.rgEnd
    · rw [freeRegion_refused rg refused] at returned
      cases returned
      rw [if_pos refused] at enlisted
      refine ⟨_, .freed enlisted, nodes, block :: lost, ?_⟩
      rw [Function.update_eq_self, Function.update_eq_self]
      exact represents.lose fresh refused
    · obtain ⟨last, ran, change⟩ := freeRegion_enlisted rg refused (represents.lists.path proc) fresh
      cases returned.symm.trans ran
      rw [if_neg refused] at enlisted
      exact ⟨_, .freed enlisted, _, lost, represents.change change ((represents.values proc).push rg)⟩
  | @kept proc oldBrk size grow link block content memory fresh returned =>
    obtain ⟨link', nodes', last, ran, change, values⟩ := keepExtra_change oldBrk size grow (represents.lists.path proc) fresh
    cases returned.symm.trans ran
    refine ⟨_, .kept proc oldBrk size grow, _, lost, represents.change change ?_⟩
    rw [values, keepExtra]
    split
    · exact (represents.values proc).push _
    · exact represents.values proc
  | @scanned proc size code newrg fuel memory returned =>
    obtain ⟨_, _, last, mm', nodes', ran, list, change, values⟩ := getFreeVmrgArea_change (represents.values proc)
      (represents.lists.path proc) size (Nat.le_max_right fuel (nodes proc).length)
    cases (carve_more returned (Nat.le_max_left ..)).symm.trans ran
    have kept := represents.change change values
    rw [Function.update_eq_self] at kept
    exact ⟨_, .scanned list, _, lost, kept⟩

end RegionNodes.Represents

/-- Any calls of `__free` and `__alloc` by processes whose free lists share one memory: the nodes
give the regions that the lists of `Mm` give and form these lists again, none on two of them
and none used after it was freed; every next call returns. -/
theorem region_nodes_refine_lists {first last : RegionNodes Proc Ptr} {mms : Proc → Mm} {nodes : Proc → List (Ptr × VmRg)} {lost : List Ptr}
    {events : List (RegionEvent Proc)} (start : first.Represents mms nodes lost) (run : Steps RegionNodes.Step first events last) :
    (∃ mms', Steps MmStep mms events mms' ∧ ∃ nodes' lost', last.Represents mms' nodes' lost') ∧
    (∀ proc size, ∃ code newrg next, RegionNodes.Step last (.scanned proc size code newrg) next) ∧
    (∀ proc rg block, last.cells block = none → ∃ code next, RegionNodes.Step last (.freed proc rg code) next) ∧
    ∀ proc oldBrk size grow block, last.cells block = none → ∃ next, RegionNodes.Step last (.kept proc oldBrk size grow) next := by
  obtain ⟨mms', matched, nodes', lost', represents⟩ := run.simulates (fun s mms => ∃ nodes lost, s.Represents mms nodes lost)
    ⟨nodes, lost, start⟩ (fun s event after mms ⟨nodes, lost, represents⟩ taken => represents.step taken)
  refine ⟨⟨mms', matched, nodes', lost', represents⟩, ?_, ?_, ?_⟩
  · intro proc size
    obtain ⟨code, newrg, after, _, _, ran, _⟩ := getFreeVmrgArea_change (represents.values proc) (represents.lists.path proc) size (Nat.le_refl _)
    exact ⟨code, newrg, _, .scanned ran⟩
  · intro proc rg block fresh
    by_cases refused : rg.rgStart ≥ rg.rgEnd
    · exact ⟨-1, _, @RegionNodes.Step.freed _ _ _ _ _ _ _ _ _ block { value := rg, next := none } _ fresh (freeRegion_refused rg refused _)⟩
    · obtain ⟨after, ran, _⟩ := @freeRegion_enlisted _ _ _ _ _ block { value := rg, next := none } rg refused (represents.lists.path proc) fresh
      exact ⟨0, _, .freed fresh ran⟩
  · intro proc oldBrk size grow block fresh
    obtain ⟨_, _, after, ran, _⟩ := @keepExtra_change _ _ _ _ _ block { value := ⟨0, 0⟩, next := none } oldBrk size grow
      (represents.lists.path proc) fresh
    exact ⟨_, .kept fresh ran⟩

/-- A process with an area that is empty. -/
def emptyArea : Mm := { initMm [] with mmap := [{ vmId := 0, vmStart := 0, vmEnd := 0, sbrk := 0, vmFreergList := [] }] }

theorem region_nodes_refine_lists_twoProcesses : ∃ last mms' nodes' lost', Steps MmStep (fun _ => emptyArea)
    [.kept true 0 100 256, .freed false ⟨40, 40⟩ (-1), .freed true ⟨0, 100⟩ 0, .scanned true 100 0 (some ⟨0, 100⟩), .freed false ⟨300, 400⟩ 0] mms' ∧
      @RegionNodes.Represents Nat Bool last mms' nodes' lost' := by
  have start : @RegionNodes.Represents Nat Bool ⟨fun _ => none, fun _ => none⟩ (fun _ => emptyArea) (fun _ => []) [] :=
    ⟨.empty fun _ => rfl, fun _ => ⟨_, _, rfl, rfl, rfl⟩, fun _ member => (List.not_mem_nil member).elim⟩
  have run : ∃ last, Steps RegionNodes.Step (⟨fun _ => none, fun _ => none⟩ : RegionNodes Bool Nat)
      [.kept true 0 100 256, .freed false ⟨40, 40⟩ (-1), .freed true ⟨0, 100⟩ 0, .scanned true 100 0 (some ⟨0, 100⟩), .freed false ⟨300, 400⟩ 0] last :=
    ⟨_, .cons (@RegionNodes.Step.kept _ _ _ _ _ _ _ _ _ _ 0 ⟨⟨7, 7⟩, none⟩ _ rfl rfl)
      (.cons (@RegionNodes.Step.freed _ _ _ _ _ _ _ _ _ 1 ⟨⟨7, 7⟩, none⟩ _ rfl rfl)
        (.cons (@RegionNodes.Step.freed _ _ _ _ _ _ _ _ _ 2 ⟨⟨7, 7⟩, none⟩ _ rfl rfl)
          (.cons (@RegionNodes.Step.scanned _ _ _ _ _ _ _ _ _ 2 _ rfl)
            (.single (@RegionNodes.Step.freed _ _ _ _ _ _ _ _ _ 0 ⟨⟨7, 7⟩, none⟩ _ rfl rfl)))))⟩
  obtain ⟨last, run⟩ := run
  obtain ⟨⟨mms', matched, nodes', lost', represents⟩, _⟩ := region_nodes_refine_lists start run
  exact ⟨last, mms', nodes', lost', matched, represents⟩

end Regions
end LamiaAtrium
