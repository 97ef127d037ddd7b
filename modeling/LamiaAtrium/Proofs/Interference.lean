import LamiaAtrium.Proofs.ReadResult

/-! What the accesses of one process show another with which it shares no frame: frames that are
overwritten, although they were free or the FIFO names them, and a frame that a READ would need. -/

namespace LamiaAtrium
variable {Proc : Type}

/-- No frame of either device is held by both processes. -/
structure ShareNoFrame (k : Krnl Proc) (a b : Proc) : Prop where
  ram : ∀ page other fpn, (k.pte (a, page)).ramFrame = some fpn → (k.pte (b, other)).ramFrame ≠ some fpn
  swap : ∀ page other fpn, (k.pte (a, page)).swapFrame = some fpn → (k.pte (b, other)).swapFrame ≠ some fpn

theorem Good.shareNoFrame {k : Krnl Proc} (good : Good k) {a b : Proc} (distinct : a ≠ b) : ShareNoFrame k a b where
  ram page other fpn holds also := distinct (Prod.mk.inj (good.ram.unique (a, page) (b, other) fpn holds also)).1
  swap page other fpn holds also := distinct (Prod.mk.inj (good.swap.unique (a, page) (b, other) fpn holds also)).1

/-- The frame of RAM is one of `b`, and not with these bytes in it. -/
def RamDiffers (k : Krnl Proc) (b : Proc) (fpn : Addr) (content : Fin pagingPagesz → Byte) : Prop :=
  ∃ page offset, (k.pte (b, page)).ramFrame = some fpn ∧ k.mram.cell fpn offset ≠ content offset

def SwapDiffers (k : Krnl Proc) (b : Proc) (fpn : Addr) (content : Fin pagingPagesz → Byte) : Prop :=
  ∃ page offset, (k.pte (b, page)).swapFrame = some fpn ∧ k.activeMswp.cell fpn offset ≠ content offset

section Views
variable {k after : Krnl Proc} {b : Proc} {fpn : Addr} {content : Fin pagingPagesz → Byte}

/-- With its entries and regions unchanged, a process sees the cells of its frames. -/
theorem sameView_iff (entries : ∀ page, after.pte (b, page) = k.pte (b, page)) (mmap : (after.mms b).mmap = (k.mms b).mmap)
    (symrgtbl : (after.mms b).symrgtbl = (k.mms b).symrgtbl) : SameView k after b ↔
      (∀ page fpn, (k.pte (b, page)).ramFrame = some fpn → ∀ offset, after.mram.cell fpn offset = k.mram.cell fpn offset) ∧
        ∀ page fpn, (k.pte (b, page)).swapFrame = some fpn → ∀ offset, after.activeMswp.cell fpn offset = k.activeMswp.cell fpn offset := by
  constructor
  · exact fun same => ⟨fun _ _ frame => same.ramCell frame, fun _ _ frame => same.swapCell frame⟩
  · intro ⟨ram, swap⟩
    refine ⟨entries, mmap, symrgtbl, fun page => funext fun offset => ?_⟩
    rw [Krnl.bytes, Krnl.bytes, entries]
    exact Pte.byte_congr (fun fpn frame => ram page fpn frame offset) fun fpn frame => swap page fpn frame offset

theorem ram_kept_iff (cells : ∀ other offset, after.mram.cell other offset = if other = fpn then content offset else k.mram.cell other offset) :
    (∀ page fpn, (k.pte (b, page)).ramFrame = some fpn → ∀ offset, after.mram.cell fpn offset = k.mram.cell fpn offset) ↔
      ¬RamDiffers k b fpn content := by
  constructor
  · intro kept ⟨page, offset, frame, differs⟩
    have same := kept page fpn frame offset
    rw [cells, if_pos rfl] at same
    exact differs same.symm
  · intro kept page other frame offset
    rw [cells]
    split
    · next same =>
      subst same
      by_contra differs
      exact kept ⟨page, offset, frame, Ne.symm differs⟩
    · rfl

theorem swap_kept_iff {copied : Prop} [Decidable copied] (cells : ∀ other offset, after.activeMswp.cell other offset =
      if other = fpn ∧ copied then content offset else k.activeMswp.cell other offset) :
    (∀ page fpn, (k.pte (b, page)).swapFrame = some fpn → ∀ offset, after.activeMswp.cell fpn offset = k.activeMswp.cell fpn offset) ↔
      ¬(copied ∧ SwapDiffers k b fpn content) := by
  constructor
  · intro kept ⟨was, page, offset, frame, differs⟩
    have same := kept page fpn frame offset
    rw [cells, if_pos ⟨rfl, was⟩] at same
    exact differs same.symm
  · intro kept page other frame offset
    rw [cells]
    split
    · next same =>
      obtain ⟨rfl, was⟩ := same
      by_contra differs
      exact kept ⟨was, page, offset, frame, Ne.symm differs⟩
    · rfl

end Views

variable [DecidableEq Proc] {env : Env Proc} {k middle after : Krnl Proc} {a b : Proc} {code : Int}

section Untouched

/-- A process that still has what it had is untouched if its READs of pages on the swap device are. -/
theorem SameView.untouched_iff (same : SameView k after b) (devices : SameDevices k after) (order : InOrder k) (later : InOrder after) :
    Untouched env k after b ↔ ∀ reqSwpfpn offset, AsksFor k b reqSwpfpn offset →
      swappedResult env after b reqSwpfpn offset (after.way b) = swappedResult env k b reqSwpfpn offset (k.way b) :=
  ⟨fun untouched => (same.reads_iff devices order later).mp untouched.reads,
    fun results => ⟨same, (same.reads_iff devices order later).mpr results⟩⟩

theorem untouched_iff_parts {shows differs : Prop} (devices : SameDevices k after) (order : InOrder k) (later : InOrder after)
    (view : SameView k after b ↔ ¬shows)
    (results : SameView k after b → ((∀ reqSwpfpn offset, AsksFor k b reqSwpfpn offset →
      swappedResult env after b reqSwpfpn offset (after.way b) = swappedResult env k b reqSwpfpn offset (k.way b)) ↔ ¬differs)) :
    Untouched env k after b ↔ ¬(shows ∨ differs) := by
  by_cases same : SameView k after b
  · rw [same.untouched_iff devices order later, results same]
    simp [view.mp same]
  · refine iff_of_false (fun untouched => same untouched.toSameView) (not_not_intro (.inl ?_))
    by_contra hidden
    exact same (view.mpr hidden)

omit [DecidableEq Proc] in
theorem frameOfOldest_congr (entries : ∀ page, after.pte (b, page) = k.pte (b, page)) (fifoPgn : List Addr) :
    after.frameOfOldest b fifoPgn = k.frameOfOldest b fifoPgn := by
  simp only [Krnl.frameOfOldest, entries]

omit [DecidableEq Proc] in
theorem way_congr (entries : ∀ page, after.pte (b, page) = k.pte (b, page)) (fifo : (after.mms b).fifoPgn = (k.mms b).fifoPgn)
    (ram : after.mram.freeFpList = k.mram.freeFpList) (swap : after.activeMswp.freeFpList = k.activeMswp.freeFpList) :
    after.way b = k.way b := by
  rw [Krnl.way, Krnl.way, frameOfOldest_congr entries, fifo, ram, swap]

/-- A change of no entry, no region and no device. -/
theorem untouched_of_equal (order : InOrder k) (entries : ∀ page, after.pte (b, page) = k.pte (b, page))
    (mmap : (after.mms b).mmap = (k.mms b).mmap) (symrgtbl : (after.mms b).symrgtbl = (k.mms b).symrgtbl)
    (fifo : (after.mms b).fifoPgn = (k.mms b).fifoPgn) (ram : after.mram = k.mram) (swap : after.activeMswp = k.activeMswp) :
    Untouched env k after b := by
  have devices : SameDevices k after := ⟨by rw [ram], by rw [ram], by rw [swap], by rw [swap]⟩
  have later : InOrder after := order.rewritten (ram ▸ .refl _) (swap ▸ .refl _)
  have view : SameView k after b := by
    refine (sameView_iff entries mmap symrgtbl).mpr ⟨fun _ _ _ _ => ?_, fun _ _ _ _ => ?_⟩
    · rw [ram]
    · rw [swap]
  refine (view.untouched_iff devices order later).mpr fun reqSwpfpn offset _ => ?_
  rw [way_congr entries fifo (by rw [ram]) (by rw [swap])]
  exact swappedResult_congr devices (by rw [swap]) fun _ _ => by rw [ram]

theorem untouched_of_mms (order : InOrder k) (same : after.mms b = k.mms b) (ram : after.mram = k.mram)
    (swap : after.activeMswp = k.activeMswp) : Untouched env k after b :=
  untouched_of_equal order (fun page => by rw [Krnl.pte, Krnl.pte, same]) (by rw [same]) (by rw [same]) (by rw [same]) ram swap

end Untouched

section Stores

/-- The bytes of a page, one of them overwritten if there is a store. -/
def overwrite (store : Option (Fin pagingPagesz × Byte)) (content : Fin pagingPagesz → Byte) : Fin pagingPagesz → Byte :=
  match store with
  | none => content
  | some (offset, value) => Function.update content offset value

variable {store : Option (Fin pagingPagesz × Byte)} {fpn : Addr} {offset : Fin pagingPagesz} {value : Byte}

/-- The store, in a frame of RAM. -/
structure Stored (store : Option (Fin pagingPagesz × Byte)) (fpn : Addr) (k after : Krnl Proc) : Prop where
  mms : after.mms = k.mms
  swap : after.activeMswp = k.activeMswp
  ram : k.mram.Rewritten after.mram
  cells : ∀ other offset, after.mram.cell other offset = if other = fpn then overwrite store (k.mram.cell fpn) offset else k.mram.cell other offset

omit [DecidableEq Proc] in
theorem Stored.nothing (k : Krnl Proc) (fpn : Addr) : Stored none fpn k k := by
  refine ⟨rfl, rfl, .refl _, fun other offset => ?_⟩
  split
  · next same => rw [same]; rfl
  · rfl

omit [DecidableEq Proc] in
theorem Stored.of_write {addr : Addr} {mram : Memphy} (random : k.mram.rdmflg = true)
    (address : addr.toNat = fpn.toNat * pagingPagesz + offset) (written : k.mram.write addr value = .ok (code, mram)) :
    Stored (some (offset, value)) fpn k { k with mram } := by
  refine ⟨rfl, rfl, Memphy.write_rewritten written, fun other position => ?_⟩
  have bound := offset.isLt
  have within := position.isLt
  by_cases here : other.toNat * pagingPagesz + position = addr.toNat
  · have number : other.toNat = fpn.toNat ∧ position.val = offset.val := by
      simp only [pagingPagesz] at *
      omega
    obtain rfl := BitVec.eq_of_toNat_eq number.1
    obtain rfl := Fin.ext number.2
    rw [if_pos rfl, overwrite, Function.update_self]
    change mram.storage _ = _
    rw [here, (Memphy.write_random random written).2]
  · have kept : mram.cell other position = k.mram.cell other position := Memphy.write_elsewhere written here
    rw [kept]
    split
    · next same =>
      subst same
      refine (Function.update_of_ne (fun equal => here ?_) ..).symm
      rw [equal, address]
    · rfl

omit [DecidableEq Proc] in
theorem Stored.inOrder (stored : Stored store fpn k after) (order : InOrder k) : InOrder after :=
  order.rewritten stored.ram (stored.swap ▸ .refl _)

/-- A store shows in a frame of `b`, or in a page that a READ of `b` would evict over the page asked for. -/
def StoreReaches (env : Env Proc) (k : Krnl Proc) (b : Proc) (fpn : Addr) (offset : Fin pagingPagesz) (value : Byte) : Prop :=
  k.mram.cell fpn offset ≠ value ∧ ((∃ page, (k.pte (b, page)).ramFrame = some fpn) ∨ ∃ vicSwpfpn, ReadsVictim env k b fpn vicSwpfpn offset)

theorem Stored.untouched_iff (order : InOrder k) (stored : Stored (some (offset, value)) fpn k after) :
    Untouched env k after b ↔ ¬StoreReaches env k b fpn offset value := by
  have entries (page : Page) : after.pte (b, page) = k.pte (b, page) := by rw [Krnl.pte, Krnl.pte, stored.mms]
  have devices : SameDevices k after := ⟨stored.ram.maxsz, stored.ram.rdmflg, by rw [stored.swap], by rw [stored.swap]⟩
  have way : after.way b = k.way b := way_congr entries (by rw [stored.mms]) stored.ram.freeFpList (by rw [stored.swap])
  have view : SameView k after b ↔ ¬(k.mram.cell fpn offset ≠ value ∧ ∃ page, (k.pte (b, page)).ramFrame = some fpn) := by
    have swapKept : ∀ page fpn, (k.pte (b, page)).swapFrame = some fpn → ∀ offset, after.activeMswp.cell fpn offset = k.activeMswp.cell fpn offset := by
      rw [stored.swap]
      exact fun _ _ _ _ => rfl
    rw [sameView_iff entries (by rw [stored.mms]) (by rw [stored.mms]), ram_kept_iff stored.cells, and_iff_left swapKept]
    refine not_congr ⟨?_, ?_⟩
    · rintro ⟨page, position, frame, differs⟩
      by_cases here : position = offset
      · subst here
        rw [overwrite, Function.update_self] at differs
        exact ⟨differs, page, frame⟩
      · rw [overwrite, Function.update_of_ne here] at differs
        exact absurd rfl differs
    · rintro ⟨differs, page, frame⟩
      refine ⟨page, offset, frame, ?_⟩
      rw [overwrite, Function.update_self]
      exact differs
  have whole : Untouched env k after b ↔ ¬((k.mram.cell fpn offset ≠ value ∧ ∃ page, (k.pte (b, page)).ramFrame = some fpn) ∨
      (k.mram.cell fpn offset ≠ value ∧ ∃ vicSwpfpn, ReadsVictim env k b fpn vicSwpfpn offset)) := by
    apply untouched_iff_parts devices order (stored.inOrder order) view
    intro same
    rw [way]
    constructor
    · rintro results ⟨differs, vicSwpfpn, reading⟩
      have result := results vicSwpfpn offset reading.asks
      rw [reading.way, swappedResult_own_iff devices] at result
      have cell := result reading.inside (reading.source order) reading.serves
      rw [stored.cells, if_pos rfl, overwrite, Function.update_self] at cell
      exact differs cell.symm
    · intro kept reqSwpfpn position asks
      by_cases hit : k.way b = .evict fpn reqSwpfpn ∧ position = offset
      · obtain ⟨evicts, rfl⟩ := hit
        rw [evicts, swappedResult_own_iff devices]
        intro inside _ serves
        rw [stored.cells, if_pos rfl, overwrite, Function.update_self]
        by_contra differs
        exact kept ⟨Ne.symm differs, reqSwpfpn, serves, evicts, inside, asks⟩
      · obtain ⟨source, offset', addr, _, frame, _⟩ := asks
        refine swappedResult_congr devices (same.swapCell frame position) fun vicfpn evicts => ?_
        rw [stored.cells]
        split
        · next here =>
          subst here
          exact Function.update_of_ne (fun equal => hit ⟨evicts, equal⟩) ..
        · rfl
  rw [whole, StoreReaches]
  tauto

end Stores

section Accesses
variable {page : Page} {store : Option (Fin pagingPagesz × Byte)} {reqSwpfpn newfpn vicfpn vicSwpfpn fpn : Addr} {rest : List Addr}
  {found : Option Proc}

/-- A page that comes into the first free frame of RAM shows at `b`: it goes over bytes of `b`,
or takes the last free frame when a READ of `b` needs it. -/
def ArrivalReaches (env : Env Proc) (k : Krnl Proc) (b : Proc) (store : Option (Fin pagingPagesz × Byte)) (reqSwpfpn newfpn : Addr)
    (rest : List Addr) : Prop :=
  RamDiffers k b newfpn (overwrite store (k.activeMswp.cell reqSwpfpn)) ∨
    rest = [] ∧ NeedsFrame env k b (reqSwpfpn :: k.activeMswp.freeFpList) (k.frameOfOldest b (k.mms b).fifoPgn)

/-- A page that comes in for another shows at `b`: the page evicted goes over bytes of `b`, or the
page that comes in does, or a READ of `b` would have lost its page in the swap frame now taken. -/
def TradeReaches (env : Env Proc) (k : Krnl Proc) (b : Proc) (copied : Bool) (store : Option (Fin pagingPagesz × Byte))
    (reqSwpfpn vicfpn vicSwpfpn : Addr) : Prop :=
  ((copied = true ∧ SwapDiffers k b vicSwpfpn (k.mram.cell vicfpn)) ∨
    RamDiffers k b vicfpn
      (overwrite store (if copied = true ∧ reqSwpfpn = vicSwpfpn then k.mram.cell vicfpn else k.activeMswp.cell reqSwpfpn))) ∨
    ∃ oldest offset, ReadsVictim env k b oldest vicSwpfpn offset ∧ k.mram.cell oldest offset ≠ k.activeMswp.cell vicSwpfpn offset

/-- An access of `a` to this page, with its store, shows at `b`. -/
def AccessReaches (env : Env Proc) (k : Krnl Proc) (a b : Proc) (page : Page) (copied : Bool)
    (store : Option (Fin pagingPagesz × Byte)) : Prop :=
  (∃ reqSwpfpn newfpn rest, (k.pte (a, page)).swapFrame = some reqSwpfpn ∧ k.mram.freeFpList = newfpn :: rest ∧
    ArrivalReaches env k b store reqSwpfpn newfpn rest) ∨
  (∃ reqSwpfpn vicfpn vicSwpfpn, (k.pte (a, page)).swapFrame = some reqSwpfpn ∧ k.way a = .evict vicfpn vicSwpfpn ∧
    TradeReaches env k b copied store reqSwpfpn vicfpn vicSwpfpn) ∨
  ∃ fpn offset value, (k.pte (a, page)).ramFrame = some fpn ∧ store = some (offset, value) ∧ StoreReaches env k b fpn offset value

omit [DecidableEq Proc] in
theorem accessReaches_free_iff {copied : Bool} (frame : (k.pte (a, page)).swapFrame = some reqSwpfpn)
    (free : k.mram.freeFpList = newfpn :: rest) :
    AccessReaches env k a b page copied store ↔ ArrivalReaches env k b store reqSwpfpn newfpn rest := by
  constructor
  · rintro (⟨_, _, _, same, list, reaches⟩ | ⟨_, _, _, _, way, _⟩ | ⟨_, _, _, resident, _⟩)
    · cases frame.symm.trans same
      cases free.symm.trans list
      exact reaches
    · cases free.symm.trans (wayIn_evict_iff.mp way).1
    · cases (Pte.ramFrame_of_swapFrame frame).symm.trans resident
  · exact fun reaches => .inl ⟨_, _, _, frame, free, reaches⟩

omit [DecidableEq Proc] in
theorem accessReaches_evict_iff {copied : Bool} (frame : (k.pte (a, page)).swapFrame = some reqSwpfpn)
    (way : k.way a = .evict vicfpn vicSwpfpn) :
    AccessReaches env k a b page copied store ↔ TradeReaches env k b copied store reqSwpfpn vicfpn vicSwpfpn := by
  constructor
  · rintro (⟨_, _, _, _, list, _⟩ | ⟨_, _, _, same, also, reaches⟩ | ⟨_, _, _, resident, _⟩)
    · cases list.symm.trans (wayIn_evict_iff.mp way).1
    · cases frame.symm.trans same
      cases way.symm.trans also
      exact reaches
    · cases (Pte.ramFrame_of_swapFrame frame).symm.trans resident
  · exact fun reaches => .inr (.inl ⟨_, _, _, frame, way, reaches⟩)

omit [DecidableEq Proc] in
theorem accessReaches_resident_iff {copied : Bool} (frame : (k.pte (a, page)).ramFrame = some fpn) :
    AccessReaches env k a b page copied store ↔ ∃ offset value, store = some (offset, value) ∧ StoreReaches env k b fpn offset value := by
  constructor
  · rintro (⟨_, _, _, swapped, _⟩ | ⟨_, _, _, swapped, _⟩ | ⟨_, offset, value, same, stores, reaches⟩)
    · cases (Pte.ramFrame_of_swapFrame swapped).symm.trans frame
    · cases (Pte.ramFrame_of_swapFrame swapped).symm.trans frame
    · cases frame.symm.trans same
      exact ⟨offset, value, stores, reaches⟩
  · exact fun ⟨offset, value, stores, reaches⟩ => .inr (.inr ⟨_, offset, value, frame, stores, reaches⟩)

/-- The frame that the access uses, whose page comes in and is stored to. -/
theorem accessed_untouched_iff (order : InOrder k) (apart : ShareNoFrame k a b) (others : middle.mms b = k.mms b)
    (known : env.lookup a = .ok found) (paged : Paged env k a page (some fpn) middle) (stored : Stored store fpn middle after) :
    Untouched env k after b ↔ ¬AccessReaches env k a b page found.isSome store := by
  have later := stored.inOrder (paged.inOrder order)
  have same : after.mms b = k.mms b := by rw [stored.mms, others]
  have entries (page : Page) : after.pte (b, page) = k.pte (b, page) := by rw [Krnl.pte, Krnl.pte, same]
  cases paged with
  | hit frame =>
    rw [accessReaches_resident_iff frame]
    cases store with
    | none =>
      have cells (other : Addr) (offset : Fin pagingPagesz) : after.mram.cell other offset = k.mram.cell other offset := by
        rw [stored.cells]
        split
        · next here => rw [here]; rfl
        · rfl
      have devices : SameDevices k after := ⟨stored.ram.maxsz, stored.ram.rdmflg, by rw [stored.swap], by rw [stored.swap]⟩
      have view : SameView k after b := by
        refine (sameView_iff entries (by rw [same]) (by rw [same])).mpr ⟨fun _ fpn _ => cells fpn, fun _ _ _ _ => ?_⟩
        rw [stored.swap]
      refine iff_of_true ((view.untouched_iff devices order later).mpr fun reqSwpfpn offset _ => ?_) ?_
      · rw [way_congr entries (by rw [same]) stored.ram.freeFpList (by rw [stored.swap])]
        exact swappedResult_congr devices (by rw [stored.swap]) fun vicfpn _ => cells vicfpn offset
      · rintro ⟨_, _, none, _⟩
        cases none
    | some write =>
      obtain ⟨offset, value⟩ := write
      rw [stored.untouched_iff order]
      refine not_congr ⟨fun reaches => ⟨offset, value, rfl, reaches⟩, ?_⟩
      rintro ⟨_, _, write, reaches⟩
      cases write
      exact reaches
  | @took _ reqSwpfpn rest _ frame free source ram swap cells =>
    rw [accessReaches_free_iff frame free, ArrivalReaches]
    have devices : SameDevices k after := by
      refine ⟨stored.ram.maxsz.trans ram.maxsz, stored.ram.rdmflg.trans ram.rdmflg, ?_, ?_⟩ <;> rw [stored.swap, swap] <;> rfl
    have ramCells (other : Addr) (offset : Fin pagingPagesz) : after.mram.cell other offset =
        if other = fpn then overwrite store (k.activeMswp.cell reqSwpfpn) offset else k.mram.cell other offset := by
      have arrived : middle.mram.cell fpn = k.activeMswp.cell reqSwpfpn := funext fun offset => by rw [cells, if_pos rfl]
      rw [stored.cells, arrived, cells]
      split <;> rfl
    have swapCells (other : Addr) (offset : Fin pagingPagesz) : after.activeMswp.cell other offset = k.activeMswp.cell other offset := by
      rw [stored.swap, swap]
      rfl
    have way : after.way b = wayIn rest (reqSwpfpn :: k.activeMswp.freeFpList) (k.frameOfOldest b (k.mms b).fifoPgn) := by
      rw [Krnl.way, frameOfOldest_congr entries, same, stored.ram.freeFpList, ram.freeFpList, stored.swap, swap]
      rfl
    have before : k.way b = .free := wayIn_free (by rw [free]; exact List.cons_ne_nil _ _)
    apply untouched_iff_parts devices order later
    · rw [sameView_iff entries (by rw [same]) (by rw [same]), ram_kept_iff ramCells]
      exact and_iff_left fun _ fpn _ => swapCells fpn
    · intro _
      rw [way, before]
      have moved (req : Addr) (offset : Fin pagingPagesz) (asks : AsksFor k b req offset) :
          swappedResult env after b req offset (wayIn rest (reqSwpfpn :: k.activeMswp.freeFpList) (k.frameOfOldest b (k.mms b).fifoPgn)) =
            swappedResult env k b req offset (wayIn rest (reqSwpfpn :: k.activeMswp.freeFpList) (k.frameOfOldest b (k.mms b).fifoPgn)) := by
        obtain ⟨_, _, addr, _, own, _⟩ := asks
        refine swappedResult_congr devices (swapCells req offset) fun vicfpn evicts => ?_
        obtain ⟨_, _, head⟩ := wayIn_evict_iff.mp evicts
        cases head
        exact absurd own (apart.swap page _ _ frame)
      by_cases last : rest = []
      · subst last
        rw [and_iff_right rfl, ← needsFrame_iff]
        exact forall₂_congr fun req offset => forall_congr' fun asks => by rw [moved req offset asks]
      · refine iff_of_true (fun req offset asks => ?_) fun claimed => last claimed.1
        rw [moved req offset asks, wayIn_free last]
  | @traded _ vicSwpfpn reqSwpfpn rest other _ frame full oldest free also source target ram swap swapCells ramCells =>
    cases known.symm.trans also
    have way : k.way a = .evict fpn vicSwpfpn := wayIn_evict_iff.mpr ⟨full, oldest, by rw [free]; rfl⟩
    rw [accessReaches_evict_iff frame way, TradeReaches]
    have devices : SameDevices k after := by
      refine ⟨stored.ram.maxsz.trans ram.maxsz, stored.ram.rdmflg.trans ram.rdmflg, ?_, ?_⟩ <;> rw [stored.swap]
      · exact swap.maxsz
      · exact swap.rdmflg
    have ramLater (other : Addr) (offset : Fin pagingPagesz) : after.mram.cell other offset =
        if other = fpn then overwrite store (if found.isSome = true ∧ reqSwpfpn = vicSwpfpn then k.mram.cell fpn
          else k.activeMswp.cell reqSwpfpn) offset else k.mram.cell other offset := by
      have arrived : middle.mram.cell fpn =
          if found.isSome = true ∧ reqSwpfpn = vicSwpfpn then k.mram.cell fpn else k.activeMswp.cell reqSwpfpn := by
        funext offset
        rw [ramCells, if_pos rfl, swapCells]
        simp only [and_comm, apply_ite (fun content : Fin pagingPagesz → Byte => content offset)]
      rw [stored.cells, arrived, ramCells]
      split <;> rfl
    have swapLater (other : Addr) (offset : Fin pagingPagesz) : after.activeMswp.cell other offset =
        if other = vicSwpfpn ∧ found.isSome = true then k.mram.cell fpn offset else k.activeMswp.cell other offset := by
      rw [stored.swap, swapCells]
    apply untouched_iff_parts devices order later
    · rw [sameView_iff entries (by rw [same]) (by rw [same]), ram_kept_iff ramLater, swap_kept_iff swapLater, not_or, and_comm]
    · intro view
      have moved (req : Addr) (offset : Fin pagingPagesz) (asks : AsksFor k b req offset) :
          req ≠ reqSwpfpn ∧ swappedResult env after b req offset (after.way b) = swappedResult env k b req offset (after.way b) := by
        obtain ⟨_, _, addr, _, own, _⟩ := asks
        have other : req ≠ reqSwpfpn := by
          rintro rfl
          exact apart.swap page _ _ frame own
        refine ⟨other, swappedResult_congr devices (view.swapCell own offset) fun vicfpn evicts => ?_⟩
        obtain ⟨_, _, head⟩ := wayIn_evict_iff.mp evicts
        rw [stored.swap, swap.freeFpList] at head
        cases head
        exact absurd rfl other
      have wayLater : after.way b = wayIn [] (reqSwpfpn :: rest) (k.frameOfOldest b (k.mms b).fifoPgn) := by
        rw [Krnl.way, frameOfOldest_congr entries, same, stored.ram.freeFpList, ram.freeFpList, full, stored.swap, swap.freeFpList]
      have wayBefore : k.way b = wayIn [] (vicSwpfpn :: rest) (k.frameOfOldest b (k.mms b).fifoPgn) := by
        rw [Krnl.way, full, free]
      cases own : k.frameOfOldest b (k.mms b).fifoPgn with
      | none =>
        refine iff_of_true (fun req offset asks => ?_) ?_
        · rw [(moved req offset asks).2, wayLater, wayBefore, own]
          rfl
        · rintro ⟨_, _, reading, _⟩
          have evicts := reading.way
          rw [wayBefore, own] at evicts
          cases evicts
      | some vicfpn =>
        have evicts : k.way b = .evict vicfpn vicSwpfpn := by rw [wayBefore, own]; rfl
        have evictsLater : after.way b = .evict vicfpn reqSwpfpn := by rw [wayLater, own]; rfl
        constructor
        · rintro results ⟨_, offset, reading, differs⟩
          cases evicts.symm.trans reading.way
          have result := results vicSwpfpn offset reading.asks
          obtain ⟨other, moved⟩ := moved vicSwpfpn offset reading.asks
          rw [moved, evicts, evictsLater, swappedResult_traded_iff other] at result
          exact result ⟨reading.serves, reading.inside, reading.source order, rfl, differs⟩
        · intro kept req offset asks
          obtain ⟨other, moved⟩ := moved req offset asks
          rw [moved, evicts, evictsLater, swappedResult_traded_iff other]
          rintro ⟨serves, inside, _, rfl, differs⟩
          exact kept ⟨vicfpn, offset, ⟨serves, evicts, inside, asks⟩, differs⟩

/-- Without a frame nothing shows. -/
theorem Paged.refused (order : InOrder k) (others : after.mms b = k.mms b) (paged : Paged env k a page none after) :
    Untouched env k after b ∧ ∀ copied store, ¬AccessReaches env k a b page copied store := by
  cases paged with
  | stuck ram swap absent stuck =>
    refine ⟨untouched_of_mms order others ram swap, fun copied store => ?_⟩
    rintro (⟨_, _, _, frame, free, _⟩ | ⟨_, _, _, frame, way, _⟩ | ⟨_, _, _, resident, _⟩)
    · cases free.symm.trans (wayIn_stuck_iff.mp (stuck _ frame)).1
    · cases way.symm.trans (stuck _ frame)
    · cases absent.symm.trans resident

end Accesses

section Instructions
variable {addr : CInt} {value : Byte} {data : Option Byte}

/-- A byte read from the page needs the search to return. -/
theorem pgGetval_stages (returned : pgGetval env k a addr = .ok (code, data, after)) : ∃ got fpn,
    pgGetpage env k a (pagingPgn addr) = .ok (got, fpn, after) ∧ (fpn = none ∨ ∃ found, env.lookup a = .ok found) := by
  obtain ⟨⟨got, fpn, middle⟩, fetched, returned⟩ := Outcome.bind_eq_ok returned
  cases fpn with
  | none =>
    cases returned
    exact ⟨got, none, fetched, .inl rfl⟩
  | some f =>
    obtain ⟨pid, known, returned⟩ := Outcome.bind_eq_ok returned
    obtain ⟨⟨_, _, last⟩, called, returned⟩ := Outcome.bind_eq_ok returned
    cases returned
    rcases syscall_answered called with ⟨missing, same⟩ | ⟨other, found⟩
    · cases same
      exact ⟨got, some f, fetched, .inr ⟨_, Env.lookup_eq known missing⟩⟩
    · rw [syscall_read found] at called
      obtain ⟨_, _, called⟩ := Outcome.bind_eq_ok called
      obtain ⟨⟨_, mram, _⟩, read, called⟩ := Outcome.bind_eq_ok called
      cases called
      rw [Memphy.read_same read]
      exact ⟨got, some f, fetched, .inr ⟨_, Env.lookup_eq known found⟩⟩

/-- A byte written to the page is stored if the search finds a process. -/
theorem pgSetval_stages (returned : pgSetval env k a addr value = .ok (code, after)) : ∃ got fpn middle,
    pgGetpage env k a (pagingPgn addr) = .ok (got, fpn, middle) ∧ ((fpn = none ∧ after = middle) ∨
      ∃ f found, fpn = some f ∧ env.lookup a = .ok found ∧ ((found = none ∧ after = middle) ∨
        found.isSome ∧ ∃ result mram, middle.mram.write (addrParam (phyAddr f (pagingOffst addr))) value = .ok (result, mram) ∧
          after = { middle with mram })) := by
  obtain ⟨⟨got, fpn, middle⟩, fetched, returned⟩ := Outcome.bind_eq_ok returned
  refine ⟨got, fpn, middle, fetched, ?_⟩
  cases fpn with
  | none =>
    cases returned
    exact .inl ⟨rfl, rfl⟩
  | some f =>
    obtain ⟨pid, known, returned⟩ := Outcome.bind_eq_ok returned
    obtain ⟨⟨_, _, last⟩, called, returned⟩ := Outcome.bind_eq_ok returned
    cases returned
    rcases syscall_answered called with ⟨missing, same⟩ | ⟨other, found⟩
    · cases same
      exact .inr ⟨f, none, rfl, Env.lookup_eq known missing, .inl ⟨rfl, rfl⟩⟩
    · rw [syscall_write found] at called
      obtain ⟨_, _, called⟩ := Outcome.bind_eq_ok called
      obtain ⟨⟨result, mram⟩, written, called⟩ := Outcome.bind_eq_ok called
      cases called
      rw [byte_through_argument] at written
      exact .inr ⟨f, some other, rfl, Env.lookup_eq known found, .inr ⟨rfl, result, mram, written, rfl⟩⟩

/-- A READ of `a` that its checks let through shows at `b`. -/
def ReadReaches (env : Env Proc) (k : Krnl Proc) (a b : Proc) (source : CInt) (offset : Addr) : Prop :=
  ∃ addr found, Interleaved.readAddr (k.mms a) source offset = .ok (some addr) ∧ env.lookup a = .ok found ∧
    AccessReaches env k a b (placeOf a addr).2 found.isSome none

/-- A WRITE of `a` that its checks let through shows at `b`. -/
def WriteReaches (env : Env Proc) (k : Krnl Proc) (a b : Proc) (value : Byte) (destination : CInt) (offset : Addr) : Prop :=
  ∃ addr found, Interleaved.writeAddr (k.mms a) 0 destination offset = .ok (some addr) ∧ env.lookup a = .ok found ∧
    AccessReaches env k a b (placeOf a addr).2 found.isSome (found.map fun _ => (offsetOf addr, value))

theorem untouched_refl (order : InOrder k) : Untouched env k k b := untouched_of_mms order rfl rfl rfl

variable (distinct : a ≠ b) (apart : ShareNoFrame k a b) (order : InOrder k)
include distinct apart order

theorem libread_untouched_iff {source : CInt} {offset : Addr} {word : CInt}
    (returned : libread env k a source offset = .ok (code, word, after)) : Untouched env k after b ↔ ¬ReadReaches env k a b source offset := by
  obtain ⟨⟨_, data, final⟩, access, returned⟩ := Outcome.bind_eq_ok returned
  cases returned
  rw [Interleaved.read_checks] at access
  obtain ⟨checked, address, access⟩ := Outcome.bind_eq_ok access
  cases checked with
  | none =>
    cases access
    refine iff_of_true (untouched_refl order) ?_
    rintro ⟨_, _, also, _⟩
    cases address.symm.trans also
  | some addr =>
    obtain ⟨⟨got, byte, middle⟩, loaded, returned⟩ := Outcome.bind_eq_ok access
    have same : middle = after := by
      dsimp only at returned
      split at returned <;> cases returned <;> rfl
    subst same
    obtain ⟨_, fpn, fetched, answered⟩ := pgGetval_stages loaded
    have others := (pgGetpage_frame fetched).others b distinct.symm
    obtain ⟨frame, rfl, paged⟩ := pgGetpage_paged order fetched
    cases frame with
    | none =>
      obtain ⟨untouched, hidden⟩ := paged.refused order others
      refine iff_of_true untouched ?_
      rintro ⟨_, _, also, _, reaches⟩
      cases address.symm.trans also
      exact hidden _ _ reaches
    | some newfpn =>
      obtain ⟨found, known⟩ := answered.resolve_left (fun none => by cases none)
      rw [accessed_untouched_iff order apart others known paged (.nothing middle newfpn)]
      refine not_congr ⟨fun reaches => ⟨addr, found, address, known, reaches⟩, ?_⟩
      rintro ⟨_, _, also, same, reaches⟩
      cases address.symm.trans also
      cases known.symm.trans same
      exact reaches

theorem libwrite_untouched_iff {destination : CInt} {offset : Addr} (returned : libwrite env k a value destination offset = .ok (code, after)) :
    Untouched env k after b ↔ ¬WriteReaches env k a b value destination offset := by
  unfold libwrite at returned
  rw [Interleaved.write_checks] at returned
  obtain ⟨checked, address, returned⟩ := Outcome.bind_eq_ok returned
  cases checked with
  | none =>
    cases returned
    refine iff_of_true (untouched_refl order) ?_
    rintro ⟨_, _, also, _⟩
    cases address.symm.trans also
  | some addr =>
    obtain ⟨⟨result, last⟩, access, returned⟩ := Outcome.bind_eq_ok returned
    cases returned
    obtain ⟨_, fpn, middle, fetched, effect⟩ := pgSetval_stages access
    have others := (pgGetpage_frame fetched).others b distinct.symm
    obtain ⟨frame, rfl, paged⟩ := pgGetpage_paged order fetched
    cases frame with
    | none =>
      rcases effect with ⟨_, rfl⟩ | ⟨_, _, none, _⟩
      · obtain ⟨untouched, hidden⟩ := paged.refused order others
        refine iff_of_true untouched ?_
        rintro ⟨_, _, also, _, reaches⟩
        cases address.symm.trans also
        exact hidden _ _ reaches
      · cases none
    | some newfpn =>
      rcases effect with ⟨none, _⟩ | ⟨_, found, same, known, effect⟩
      · cases none
      · cases same
        have stored : Stored (found.map fun _ => (offsetOf addr, value)) newfpn middle after := by
          rcases effect with ⟨rfl, rfl⟩ | ⟨some, result, mram, written, rfl⟩
          · exact .nothing _ _
          · obtain ⟨other, rfl⟩ := Option.isSome_iff_exists.mp some
            have small := paged.small order
            have number := addrToInt_toNat (show newfpn.toNat < 2 ^ 32 by omega)
            have address := addrParam_phyAddr_toNat (show (addrToInt newfpn).toNat < 2 ^ 23 by omega)
              (show (pagingOffst addr).toNat < pagingPagesz from (offsetOf addr).isLt)
            rw [number] at address
            exact .of_write (paged.inOrder order).random.1 address written
        rw [accessed_untouched_iff order apart others known paged stored]
        refine not_congr ⟨fun reaches => ⟨addr, found, address, known, reaches⟩, ?_⟩
        rintro ⟨_, _, also, same, reaches⟩
        cases address.symm.trans also
        cases known.symm.trans same
        exact reaches

end Instructions
end LamiaAtrium
