import Mathlib.Logic.Function.Basic
import LamiaAtrium.Library.Run

/-! Threads over a shared state, one lock, and lists in that state from which items are taken
and to which they are given back. Taking and giving are two accesses each: the list is
looked at, and later overwritten. A static discipline on the programs makes sure that no
run of any number of threads interleaves these two. -/

namespace Locking
open Run

/-- The lists inside a state. -/
structure Pools (State Pool Item : Type) [DecidableEq Pool] where
  get : State → Pool → List Item
  set : State → Pool → List Item → State
  get_set : ∀ state pool items other, get (set state pool items) other = if other = pool then items else get state other

/-- What a thread has still to do, one shared access after the other. The functions that are
watched mark where they are entered and left. -/
inductive Prog (State Fault Pool Item Fn α : Type) where
  | done (result : α)
  | fail (fault : Fault)
  /-- Any access but one to a list; what follows may depend on the state it found. -/
  | act (f : State → Except Fault State) (next : State → Prog State Fault Pool Item Fn α)
  | lock (next : Prog State Fault Pool Item Fn α)
  | unlock (next : Prog State Fault Pool Item Fn α)
  | enter (fn : Fn) (next : Prog State Fault Pool Item Fn α)
  | leave (next : Prog State Fault Pool Item Fn α)
  | peek (pool : Pool) (next : List Item → Prog State Fault Pool Item Fn α)
  /-- The list becomes `rest`, and the thread has `item`. -/
  | take (pool : Pool) (item : Item) (rest : List Item) (next : Prog State Fault Pool Item Fn α)
  | give (pool : Pool) (item : Item) (rest : List Item) (next : Prog State Fault Pool Item Fn α)

namespace Prog
variable {State Fault Pool Item Fn α β : Type}

def bind (prog : Prog State Fault Pool Item Fn α) (then' : α → Prog State Fault Pool Item Fn β) : Prog State Fault Pool Item Fn β :=
  match prog with
  | done result => then' result
  | fail fault => fail fault
  | act f next => act f fun state => (next state).bind then'
  | lock next => lock (next.bind then')
  | unlock next => unlock (next.bind then')
  | enter fn next => enter fn (next.bind then')
  | leave next => leave (next.bind then')
  | peek pool next => peek pool fun items => (next items).bind then'
  | take pool item rest next => take pool item rest (next.bind then')
  | give pool item rest next => give pool item rest (next.bind then')

instance : Monad (Prog State Fault Pool Item Fn) where
  pure := done
  bind := bind

/-- An access with a result. -/
def access (f : State → Except Fault (α × State)) : Prog State Fault Pool Item Fn α :=
  act (fun state => (f state).map Prod.snd) fun state =>
    match f state with
    | .ok (result, _) => done result
    | .error fault => fail fault

def call (fn : Fn) (body : Prog State Fault Pool Item Fn α) : Prog State Fault Pool Item Fn α :=
  enter fn do
    let result ← body
    leave (done result)

def locked (body : Prog State Fault Pool Item Fn α) : Prog State Fault Pool Item Fn α :=
  lock do
    let result ← body
    unlock (done result)

/-- A first item, if the list has one. -/
def takeFirst (pool : Pool) : Prog State Fault Pool Item Fn (Option Item) :=
  peek pool fun items =>
    match items with
    | [] => done none
    | item :: rest => take pool item rest (done (some item))

def giveBack (pool : Pool) (item : Item) : Prog State Fault Pool Item Fn Unit :=
  peek pool fun items => give pool item items (done ())

/-- The program begins by entering a watched function. -/
def Enters (prog : Prog State Fault Pool Item Fn α) : Prop := ∃ fn next, prog = enter fn next

theorem Enters.call (fn : Fn) (body : Prog State Fault Pool Item Fn α) : (body.call fn).Enters := ⟨fn, _, rfl⟩

theorem Enters.bind {prog : Prog State Fault Pool Item Fn α} (enters : prog.Enters) (then' : α → Prog State Fault Pool Item Fn β) :
    (prog >>= then').Enters := by
  obtain ⟨fn, next, rfl⟩ := enters
  exact ⟨fn, next.bind then', rfl⟩

variable [DecidableEq Pool] (pools : Pools State Pool Item)

/-- The program run by a thread that is alone. -/
def eval (prog : Prog State Fault Pool Item Fn α) (state : State) : Except Fault (α × State) :=
  match prog with
  | done result => .ok (result, state)
  | fail fault => .error fault
  | act f next =>
    match f state with
    | .ok after => (next state).eval after
    | .error fault => .error fault
  | lock next => next.eval state
  | unlock next => next.eval state
  | enter _ next => next.eval state
  | leave next => next.eval state
  | peek pool next => (next (pools.get state pool)).eval state
  | take pool _ rest next => next.eval (pools.set state pool rest)
  | give pool item rest next => next.eval (pools.set state pool (item :: rest))

section Eval
variable (prog : Prog State Fault Pool Item Fn α) (then' : α → Prog State Fault Pool Item Fn β) (state : State)

theorem eval_bind : (prog >>= then').eval pools state = (do
    let (result, after) ← prog.eval pools state
    (then' result).eval pools after) := by
  change (prog.bind then').eval pools state = _
  induction prog generalizing state with
  | done result => rfl
  | fail fault => rfl
  | act f next ih =>
    simp only [bind, eval]
    split
    · exact ih state _
    · rfl
  | lock next ih => exact ih state
  | unlock next ih => exact ih state
  | enter fn next ih => exact ih state
  | leave next ih => exact ih state
  | peek pool next ih => exact ih _ state
  | take pool item rest next ih => exact ih _
  | give pool item rest next ih => exact ih _

variable {prog state} in
theorem eval_bind_ok {result : α} {after : State} (ran : prog.eval pools state = .ok (result, after)) :
    (prog >>= then').eval pools state = (then' result).eval pools after := by
  rw [eval_bind, ran]
  rfl

variable {prog state} in
theorem eval_bind_error {fault : Fault} (ran : prog.eval pools state = .error fault) :
    (prog >>= then').eval pools state = .error fault := by
  rw [eval_bind, ran]
  rfl

theorem eval_access (f : State → Except Fault (α × State)) : (access f : Prog State Fault Pool Item Fn α).eval pools state = f state := by
  simp only [access, eval]
  cases f state with
  | error fault => rfl
  | ok result => rfl

theorem eval_call (fn : Fn) : (prog.call fn).eval pools state = prog.eval pools state := by
  rw [call, eval, eval_bind]
  cases prog.eval pools state <;> rfl

theorem eval_locked : prog.locked.eval pools state = prog.eval pools state := by
  rw [locked, eval, eval_bind]
  cases prog.eval pools state <;> rfl

end Eval

/-- Where a program stands: whether its thread holds the lock, the watched functions it is
in, and the list it has looked at and not yet overwritten. -/
structure Context (Pool Item Fn : Type) where
  held : Bool
  inside : List Fn
  seen : Option (Pool × List Item)

/-- The discipline: watched functions and lists are for the holder of the lock, a list is
overwritten as it was seen, and the lock is given up outside of all watched functions. -/
def Safe (prog : Prog State Fault Pool Item Fn α) (context : Context Pool Item Fn) (post : α → Context Pool Item Fn → Prop) : Prop :=
  match prog with
  | done result => post result context
  | fail _ => True
  | act f next => ∀ state after, f state = .ok after → pools.get after = pools.get state ∧ (next state).Safe context post
  | lock next => context.held = false ∧ next.Safe { context with held := true, seen := none } post
  | unlock next => context.held = true ∧ context.inside = [] ∧ next.Safe { context with held := false } post
  | enter fn next => context.held = true ∧ next.Safe { context with inside := fn :: context.inside } post
  | leave next => ∃ fn outer, context.inside = fn :: outer ∧ next.Safe { context with inside := outer } post
  | peek pool next => context.held = true ∧ ∀ items, (next items).Safe { context with seen := some (pool, items) } post
  | take pool item rest next =>
    context.held = true ∧ context.seen = some (pool, item :: rest) ∧ next.Safe { context with seen := none } post
  | give pool _ rest next => context.held = true ∧ context.seen = some (pool, rest) ∧ next.Safe { context with seen := none } post

section Rules
variable {pools} {prog : Prog State Fault Pool Item Fn α} {then' : α → Prog State Fault Pool Item Fn β}
variable {context : Context Pool Item Fn}

theorem Safe.mono {post weaker : α → Context Pool Item Fn → Prop} (safe : prog.Safe pools context post)
    (implies : ∀ result context, post result context → weaker result context) : prog.Safe pools context weaker := by
  induction prog generalizing context with
  | done result => exact implies _ _ safe
  | fail fault => trivial
  | act f next ih =>
    intro state after done
    exact ⟨(safe state after done).1, ih state (safe state after done).2⟩
  | lock next ih => exact ⟨safe.1, ih safe.2⟩
  | unlock next ih => exact ⟨safe.1, safe.2.1, ih safe.2.2⟩
  | enter fn next ih => exact ⟨safe.1, ih safe.2⟩
  | leave next ih =>
    obtain ⟨fn, outer, inside, safe⟩ := safe
    exact ⟨fn, outer, inside, ih safe⟩
  | peek pool next ih => exact ⟨safe.1, fun items => ih items (safe.2 items)⟩
  | take pool item rest next ih => exact ⟨safe.1, safe.2.1, ih safe.2.2⟩
  | give pool item rest next ih => exact ⟨safe.1, safe.2.1, ih safe.2.2⟩

theorem Safe.bind {post : β → Context Pool Item Fn → Prop}
    (safe : prog.Safe pools context fun result context => (then' result).Safe pools context post) :
    (prog >>= then').Safe pools context post := by
  change (prog.bind then').Safe pools context post
  induction prog generalizing context with
  | done result => exact safe
  | fail fault => trivial
  | act f next ih =>
    intro state after done
    exact ⟨(safe state after done).1, ih state (safe state after done).2⟩
  | lock next ih => exact ⟨safe.1, ih safe.2⟩
  | unlock next ih => exact ⟨safe.1, safe.2.1, ih safe.2.2⟩
  | enter fn next ih => exact ⟨safe.1, ih safe.2⟩
  | leave next ih =>
    obtain ⟨fn, outer, inside, safe⟩ := safe
    exact ⟨fn, outer, inside, ih safe⟩
  | peek pool next ih => exact ⟨safe.1, fun items => ih items (safe.2 items)⟩
  | take pool item rest next ih => exact ⟨safe.1, safe.2.1, ih safe.2.2⟩
  | give pool item rest next ih => exact ⟨safe.1, safe.2.1, ih safe.2.2⟩

/-- An access that leaves the lists alone is allowed anywhere. -/
theorem Safe.access {f : State → Except Fault (α × State)} {post : α → Context Pool Item Fn → Prop}
    (quiet : ∀ state result after, f state = .ok (result, after) → pools.get after = pools.get state)
    (reached : ∀ result, post result context) : (access f : Prog State Fault Pool Item Fn α).Safe pools context post := by
  intro state after done
  dsimp only at done ⊢
  cases ran : f state with
  | error fault => rw [ran] at done; cases done
  | ok pair =>
    rw [ran] at done
    cases done
    exact ⟨quiet state pair.1 pair.2 ran, reached pair.1⟩

end Rules

/-- A part of a program that the holder of the lock may run: it ends in the watched function
it began in, with the lock. -/
def Inside (prog : Prog State Fault Pool Item Fn α) : Prop :=
  ∀ inside seen, prog.Safe pools { held := true, inside, seen } fun _ context => context.held = true ∧ context.inside = inside

/-- A part of a program that a thread may run on its own: the lock is free of it before and
after. -/
def Outside (prog : Prog State Fault Pool Item Fn α) : Prop :=
  ∀ seen, prog.Safe pools { held := false, inside := [], seen } fun _ context => context.held = false ∧ context.inside = []

section Parts
variable {pools} {prog : Prog State Fault Pool Item Fn α} {then' : α → Prog State Fault Pool Item Fn β}

theorem Inside.done (result : α) : (done result : Prog State Fault Pool Item Fn α).Inside pools := fun _ _ => ⟨rfl, rfl⟩

theorem Inside.bind (first : prog.Inside pools) (second : ∀ result, (then' result).Inside pools) : (prog >>= then').Inside pools := by
  intro inside seen
  refine Safe.bind ((first inside seen).mono ?_)
  intro result context ⟨held, same⟩
  obtain ⟨_, _, seen⟩ := context
  cases held
  cases same
  exact second result _ seen

theorem Inside.access {f : State → Except Fault (α × State)}
    (quiet : ∀ state result after, f state = .ok (result, after) → pools.get after = pools.get state) :
    (access f : Prog State Fault Pool Item Fn α).Inside pools :=
  fun _ _ => .access quiet fun _ => ⟨rfl, rfl⟩

theorem Inside.call (fn : Fn) (body : prog.Inside pools) : (prog.call fn).Inside pools := by
  intro inside seen
  refine ⟨rfl, Safe.bind ((body (fn :: inside) seen).mono ?_)⟩
  intro result context ⟨held, same⟩
  exact ⟨fn, inside, same, held, rfl⟩

theorem Inside.takeFirst (pool : Pool) : (takeFirst pool : Prog State Fault Pool Item Fn (Option Item)).Inside pools := by
  intro inside seen
  refine ⟨rfl, fun items => ?_⟩
  cases items with
  | nil => exact ⟨rfl, rfl⟩
  | cons item rest => exact ⟨rfl, rfl, rfl, rfl⟩

theorem Inside.giveBack (pool : Pool) (item : Item) : (giveBack pool item : Prog State Fault Pool Item Fn Unit).Inside pools :=
  fun _ _ => ⟨rfl, fun _ => ⟨rfl, rfl, rfl, rfl⟩⟩

theorem Outside.done (result : α) : (done result : Prog State Fault Pool Item Fn α).Outside pools := fun _ => ⟨rfl, rfl⟩

theorem Outside.bind (first : prog.Outside pools) (second : ∀ result, (then' result).Outside pools) : (prog >>= then').Outside pools := by
  intro seen
  refine Safe.bind ((first seen).mono ?_)
  intro result context ⟨free, outside⟩
  obtain ⟨_, _, seen⟩ := context
  cases free
  cases outside
  exact second result seen

theorem Outside.access {f : State → Except Fault (α × State)}
    (quiet : ∀ state result after, f state = .ok (result, after) → pools.get after = pools.get state) :
    (access f : Prog State Fault Pool Item Fn α).Outside pools :=
  fun _ => .access quiet fun _ => ⟨rfl, rfl⟩

theorem Outside.locked (body : prog.Inside pools) : prog.locked.Outside pools := by
  intro seen
  refine ⟨rfl, Safe.bind ((body [] none).mono ?_)⟩
  intro result context ⟨held, same⟩
  exact ⟨held, same, rfl, same⟩

end Parts
end Prog

/-- The shared state, the thread that holds the lock, and what each thread is doing: nothing,
or a program, with the watched functions it is in. -/
structure Machine (Id State Fault Pool Item Fn α : Type) where
  state : State
  holder : Option Id
  threads : Id → Option (Prog State Fault Pool Item Fn α × List Fn)

inductive Label (Id State Fault Pool Item Fn α : Type) where
  | silent
  | started (id : Id) (prog : Prog State Fault Pool Item Fn α)
  | took (id : Id) (pool : Pool) (item : Item)
  | gave (id : Id) (pool : Pool) (item : Item)

namespace Label
variable {Id State Fault Pool Item Fn α : Type} [DecidableEq Pool] [DecidableEq Item] (pool : Pool) (item : Item)

def takes : Label Id State Fault Pool Item Fn α → Bool
  | took _ other taken => other = pool && taken = item
  | _ => false

def gives : Label Id State Fault Pool Item Fn α → Bool
  | gave _ other given => other = pool && given = item
  | _ => false

end Label

section Threads
variable {Id State Fault Pool Item Fn α : Type}

/-- A thread is inside a watched function only while it holds the lock. -/
def Guarded (m : Machine Id State Fault Pool Item Fn α) : Prop :=
  ∀ id prog inside, m.threads id = some (prog, inside) → inside ≠ [] → m.holder = some id

/-- No thread is doing anything. -/
def Idle (m : Machine Id State Fault Pool Item Fn α) : Prop := m.holder = none ∧ ∀ id, m.threads id = none

section Discipline
variable [DecidableEq Pool] (pools : Pools State Pool Item)

/-- What the discipline says of one thread, of the state and the holder of the lock. -/
def Fits (state : State) (holder : Option Id) (id : Id) : Option (Prog State Fault Pool Item Fn α × List Fn) → Prop
  | none => holder ≠ some id
  | some (prog, inside) =>
    (inside ≠ [] → holder = some id) ∧
      ∃ held seen, (held = true ↔ holder = some id) ∧
        prog.Safe pools { held, inside, seen } (fun _ context => context.held = false ∧ context.inside = []) ∧
        (holder = some id → ∀ pool items, seen = some (pool, items) → pools.get state pool = items)

def Disciplined (m : Machine Id State Fault Pool Item Fn α) : Prop := ∀ id, Fits pools m.state m.holder id (m.threads id)

variable {pools} {m : Machine Id State Fault Pool Item Fn α}

theorem Disciplined.guarded (disciplined : Disciplined pools m) : Guarded m := by
  intro id prog inside runs
  have fits := disciplined id
  rw [runs] at fits
  exact fits.1

theorem Disciplined.of_idle (idle : Idle m) : Disciplined pools m := by
  intro id
  rw [idle.2 id, idle.1]
  intro holds
  cases holds

/-- What the discipline says of a thread that has something left to do. -/
theorem Disciplined.running (was : Disciplined pools m) {id : Id} {prog : Prog State Fault Pool Item Fn α} {inside : List Fn}
    (runs : m.threads id = some (prog, inside)) : Fits pools m.state m.holder id (some (prog, inside)) := runs ▸ was id

/-- What a thread looked at is still there, and it knows whether it has the lock. -/
theorem Fits.same {state after : State} {holder next : Option Id} {id : Id} {thread : Option (Prog State Fault Pool Item Fn α × List Fn)}
    (fits : Fits pools state holder id thread) (lock : next = some id ↔ holder = some id)
    (lists : holder = some id → pools.get after = pools.get state) : Fits pools after next id thread := by
  match thread, fits with
  | none, fits => exact fun holds => fits (lock.mp holds)
  | some (prog, inside), ⟨guarded, held, seen, knows, safe, fresh⟩ =>
    refine ⟨fun entered => lock.mpr (guarded entered), held, seen, knows.trans lock.symm, safe, ?_⟩
    intro holds pool items looked
    rw [lists (lock.mp holds)]
    exact fresh (lock.mp holds) pool items looked

end Discipline

section Moves
variable [DecidableEq Id] [DecidableEq Pool]

def Machine.setThread (m : Machine Id State Fault Pool Item Fn α) (id : Id)
    (thread : Option (Prog State Fault Pool Item Fn α × List Fn)) : Machine Id State Fault Pool Item Fn α :=
  { m with threads := Function.update m.threads id thread }

/-- One step of one thread. Whatever else there is may change the rest of the state at any
time, but not the lists. -/
inductive Step (pools : Pools State Pool Item) (m : Machine Id State Fault Pool Item Fn α) :
    Label Id State Fault Pool Item Fn α → Machine Id State Fault Pool Item Fn α → Prop where
  | start (id : Id) (prog : Prog State Fault Pool Item Fn α) :
      m.threads id = none → Step pools m (.started id prog) (m.setThread id (some (prog, [])))
  | finish (id : Id) (result : α) (inside : List Fn) :
      m.threads id = some (.done result, inside) → Step pools m .silent (m.setThread id none)
  | act (id : Id) (f : State → Except Fault State) (next : State → Prog State Fault Pool Item Fn α) (inside : List Fn) (after : State) :
      m.threads id = some (.act f next, inside) → f m.state = .ok after →
      Step pools m .silent ({ m with state := after }.setThread id (some (next m.state, inside)))
  | lock (id : Id) (next : Prog State Fault Pool Item Fn α) (inside : List Fn) :
      m.threads id = some (.lock next, inside) → m.holder = none →
      Step pools m .silent ({ m with holder := some id }.setThread id (some (next, inside)))
  | unlock (id : Id) (next : Prog State Fault Pool Item Fn α) (inside : List Fn) :
      m.threads id = some (.unlock next, inside) →
      Step pools m .silent ({ m with holder := none }.setThread id (some (next, inside)))
  | enter (id : Id) (fn : Fn) (next : Prog State Fault Pool Item Fn α) (inside : List Fn) :
      m.threads id = some (.enter fn next, inside) → Step pools m .silent (m.setThread id (some (next, fn :: inside)))
  | leave (id : Id) (next : Prog State Fault Pool Item Fn α) (inside : List Fn) :
      m.threads id = some (.leave next, inside) → Step pools m .silent (m.setThread id (some (next, inside.tail)))
  | peek (id : Id) (pool : Pool) (next : List Item → Prog State Fault Pool Item Fn α) (inside : List Fn) :
      m.threads id = some (.peek pool next, inside) →
      Step pools m .silent (m.setThread id (some (next (pools.get m.state pool), inside)))
  | take (id : Id) (pool : Pool) (item : Item) (rest : List Item) (next : Prog State Fault Pool Item Fn α) (inside : List Fn) :
      m.threads id = some (.take pool item rest next, inside) →
      Step pools m (.took id pool item) ({ m with state := pools.set m.state pool rest }.setThread id (some (next, inside)))
  | give (id : Id) (pool : Pool) (item : Item) (rest : List Item) (next : Prog State Fault Pool Item Fn α) (inside : List Fn) :
      m.threads id = some (.give pool item rest next, inside) →
      Step pools m (.gave id pool item) ({ m with state := pools.set m.state pool (item :: rest) }.setThread id (some (next, inside)))
  | others (state : State) : pools.get state = pools.get m.state → Step pools m .silent { m with state }

variable {pools : Pools State Pool Item} {m after : Machine Id State Fault Pool Item Fn α} {label : Label Id State Fault Pool Item Fn α}

/-- A step of one thread: it has to fit afterwards, and the others keep their lists and their
lock. -/
theorem Disciplined.move (was : Disciplined pools m) (id : Id) {state : State} {holder : Option Id}
    {thread : Option (Prog State Fault Pool Item Fn α × List Fn)} (own : Fits pools state holder id thread)
    (lock : ∀ other, other ≠ id → (holder = some other ↔ m.holder = some other))
    (lists : ∀ other, other ≠ id → m.holder = some other → pools.get state = pools.get m.state) :
    Disciplined pools (Machine.setThread { m with state, holder } id thread) := by
  intro other
  by_cases same : other = id
  · subst same
    simp only [Machine.setThread, Function.update_self]
    exact own
  · simp only [Machine.setThread, Function.update_of_ne same]
    exact (was other).same (lock other same) (lists other same)

/-- A move that leaves the lock and the lists as they are. -/
theorem Disciplined.quiet (was : Disciplined pools m) (id : Id) {state : State}
    {thread : Option (Prog State Fault Pool Item Fn α × List Fn)} (own : Fits pools state m.holder id thread)
    (lists : pools.get state = pools.get m.state) : Disciplined pools (Machine.setThread { m with state } id thread) :=
  was.move id own (fun _ _ => Iff.rfl) fun _ _ _ => lists

/-- Only the holder of the lock changes a list. -/
theorem Disciplined.overwrite (was : Disciplined pools m) (id : Id) (holds : m.holder = some id) {state : State}
    {thread : Option (Prog State Fault Pool Item Fn α × List Fn)} (own : Fits pools state m.holder id thread) :
    Disciplined pools (Machine.setThread { m with state } id thread) := by
  refine was.move id own (fun _ _ => Iff.rfl) ?_
  intro other distinct alsoHolds
  exact absurd (Option.some.inj (alsoHolds.symm.trans holds)) distinct

theorem Disciplined.step (was : Disciplined pools m) (taken : Step pools m label after)
    (starts : ∀ id prog, label = .started id prog → prog.Outside pools) : Disciplined pools after := by
  cases taken with
  | start id prog idle =>
    have fits := was id
    rw [idle] at fits
    refine was.quiet id ⟨fun entered => absurd rfl entered, false, none, ?_, starts id prog rfl none, ?_⟩ rfl
    · exact iff_of_false Bool.false_ne_true fits
    · exact fun holds => absurd holds fits
  | finish id result inside runs =>
    obtain ⟨_, held, seen, knows, ended, _⟩ := was.running runs
    have own : Fits pools m.state m.holder id (none : Option (Prog State Fault Pool Item Fn α × List Fn)) :=
      fun holds => absurd (knows.mpr holds) (Bool.eq_false_iff.mp ended.1)
    exact was.quiet id own rfl
  | act id f next inside after runs done =>
    obtain ⟨guarded, held, seen, knows, safe, fresh⟩ := was.running runs
    obtain ⟨lists, safe⟩ := safe m.state after done
    refine was.quiet id ⟨guarded, held, seen, knows, safe, ?_⟩ lists
    rw [lists]
    exact fresh
  | lock id next inside runs free =>
    obtain ⟨guarded, held, seen, knows, safe, _⟩ := was.running runs
    refine was.move id ⟨fun _ => rfl, true, none, iff_of_true rfl rfl, safe.2, ?_⟩ ?_ ?_
    · intro _ pool items looked
      cases looked
    · intro other distinct
      rw [free]
      exact iff_of_false (fun same => distinct (Option.some.inj same).symm) (by simp)
    · exact fun _ _ _ => rfl
  | unlock id next inside runs =>
    obtain ⟨guarded, held, seen, knows, ⟨holding, outside, safe⟩, _⟩ := was.running runs
    have holds : m.holder = some id := knows.mp holding
    refine was.move id ⟨fun entered => absurd outside entered, false, seen, iff_of_false Bool.false_ne_true (by simp), safe, ?_⟩ ?_ ?_
    · intro without
      cases without
    · intro other distinct
      rw [holds]
      exact iff_of_false (by simp) (fun same => distinct (Option.some.inj same).symm)
    · exact fun _ _ _ => rfl
  | enter id fn next inside runs =>
    obtain ⟨_, held, seen, knows, ⟨holding, safe⟩, fresh⟩ := was.running runs
    exact was.quiet id ⟨fun _ => knows.mp holding, held, seen, knows, safe, fresh⟩ rfl
  | leave id next inside runs =>
    obtain ⟨guarded, held, seen, knows, ⟨fn, outer, entered, safe⟩, fresh⟩ := was.running runs
    subst entered
    exact was.quiet id ⟨fun _ => guarded (by simp), held, seen, knows, safe, fresh⟩ rfl
  | peek id pool next inside runs =>
    obtain ⟨guarded, held, seen, knows, ⟨_, safe⟩, _⟩ := was.running runs
    refine was.quiet id ⟨guarded, held, some (pool, pools.get m.state pool), knows, safe _, ?_⟩ rfl
    intro _ other items looked
    cases looked
    rfl
  | take id pool item rest next inside runs =>
    obtain ⟨guarded, held, seen, knows, ⟨holding, _, safe⟩, _⟩ := was.running runs
    refine was.overwrite id (knows.mp holding) ⟨guarded, held, none, knows, safe, ?_⟩
    intro _ other items looked
    cases looked
  | give id pool item rest next inside runs =>
    obtain ⟨guarded, held, seen, knows, ⟨holding, _, safe⟩, _⟩ := was.running runs
    refine was.overwrite id (knows.mp holding) ⟨guarded, held, none, knows, safe, ?_⟩
    intro _ other items looked
    cases looked
  | others state same => exact fun id => (was id).same Iff.rfl fun _ => same

/-- A step whose thread, if it starts a program, starts one that keeps the discipline. -/
def DisciplinedStep (pools : Pools State Pool Item) (m : Machine Id State Fault Pool Item Fn α)
    (label : Label Id State Fault Pool Item Fn α) (after : Machine Id State Fault Pool Item Fn α) : Prop :=
  Step pools m label after ∧ ∀ id prog, label = .started id prog → prog.Outside pools

section Count
variable [DecidableEq Item] (pool : Pool) (item : Item)

/-- An item leaves its list when it is taken and comes back when it is given. -/
theorem Disciplined.count (was : Disciplined pools m) (taken : Step pools m label after) :
    (pools.get after.state pool).count item + (if label.takes pool item then 1 else 0) =
      (pools.get m.state pool).count item + (if label.gives pool item then 1 else 0) := by
  cases taken with
  | act id f next inside after runs done =>
    obtain ⟨_, held, seen, knows, safe, _⟩ := was.running runs
    rw [Machine.setThread, (safe m.state after done).1]
    rfl
  | take id other taken rest next inside runs =>
    obtain ⟨_, held, seen, knows, ⟨holding, looked, _⟩, fresh⟩ := was.running runs
    have there := fresh (knows.mp holding) other (taken :: rest) looked
    simp only [Machine.setThread, pools.get_set, Label.takes, Label.gives]
    by_cases same : pool = other
    · subst same
      simp [there, List.count_cons]
    · simp [same, Ne.symm same]
  | give id other given rest next inside runs =>
    obtain ⟨_, held, seen, knows, ⟨holding, looked, _⟩, fresh⟩ := was.running runs
    have there := fresh (knows.mp holding) other rest looked
    simp only [Machine.setThread, pools.get_set, Label.takes, Label.gives]
    by_cases same : pool = other
    · subst same
      simp [there, List.count_cons]
    · simp [same, Ne.symm same]
  | others state same =>
    rw [same]
    rfl
  | _ => rfl

omit [DecidableEq Item] in
theorem disciplined_run {first last : Machine Id State Fault Pool Item Fn α} {labels : List (Label Id State Fault Pool Item Fn α)}
    (idle : Idle first) (run : Steps (DisciplinedStep pools) first labels last) : Disciplined pools last :=
  run.invariant (.of_idle idle) fun _ _ _ was taken => was.step taken.1 taken.2

/-- In every run from an idle machine, of any number of threads, an item is taken no more
often than it was there or was given. -/
theorem disciplined_count {first last : Machine Id State Fault Pool Item Fn α} {labels : List (Label Id State Fault Pool Item Fn α)}
    (idle : Idle first) (run : Steps (DisciplinedStep pools) first labels last) :
    (pools.get last.state pool).count item + labels.countP (·.takes pool item) =
      (pools.get first.state pool).count item + labels.countP (·.gives pool item) := by
  refine (run.history (fun labels m => Disciplined pools m ∧ (pools.get m.state pool).count item + labels.countP (·.takes pool item) =
      (pools.get first.state pool).count item + labels.countP (·.gives pool item)) ⟨.of_idle idle, rfl⟩ ?_).2
  intro labels before label after ⟨was, counted⟩ ⟨taken, starts⟩
  have moved := was.count pool item taken
  refine ⟨was.step taken starts, ?_⟩
  simp only [List.countP_append, List.countP_singleton]
  omega

end Count
end Moves
end Threads
end Locking
