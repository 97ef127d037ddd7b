import LamiaAtrium.Library.Locking

/-! Programs that take the lock before their first access and give it up after their last one.
Whatever the interleaving, they take effect one after the other, in the order in which they
give up the lock; and the lock does not stay with a thread. -/

namespace Locking
open Run

namespace Prog
variable {State Fault Pool Item Fn α β : Type}

/-- A part of a program that leaves the lock alone. -/
def Plain : Prog State Fault Pool Item Fn α → Prop
  | done _ => True
  | fail _ => True
  | act _ next => ∀ state, (next state).Plain
  | lock _ => False
  | unlock _ => False
  | enter _ next => next.Plain
  | leave next => next.Plain
  | peek _ next => ∀ items, (next items).Plain
  | take _ _ _ next => next.Plain
  | give _ _ _ next => next.Plain

/-- What the holder of the lock has still to do: it gives up the lock and has its result. -/
def Section : Prog State Fault Pool Item Fn α → Prop
  | done _ => False
  | fail _ => True
  | act _ next => ∀ state, (next state).Section
  | lock _ => False
  | unlock next => ∃ result, next = done result
  | enter _ next => next.Section
  | leave next => next.Section
  | peek _ next => ∀ items, (next items).Section
  | take _ _ _ next => next.Section
  | give _ _ _ next => next.Section

/-- The program has a next step, whoever has the lock; an access may still end in a fault. -/
def Going : Prog State Fault Pool Item Fn α → Prop
  | done _ => False
  | fail _ => False
  | lock _ => False
  | _ => True

/-- A program that comes to nothing shared, or is one locked section. -/
inductive Whole : Prog State Fault Pool Item Fn α → Prop where
  | done (result : α) : Whole (done result)
  | fail (fault : Fault) : Whole (fail fault)
  | lock {next : Prog State Fault Pool Item Fn α} : next.Section → Whole (lock next)

section Rules
variable {prog : Prog State Fault Pool Item Fn α} {then' : α → Prog State Fault Pool Item Fn β}

theorem Plain.bind (first : prog.Plain) (second : ∀ result, (then' result).Plain) : (prog >>= then').Plain := by
  change (prog.bind then').Plain
  induction prog with
  | done result => exact second result
  | fail fault => trivial
  | act f next ih => exact fun state => ih state (first state)
  | lock next => cases first
  | unlock next => cases first
  | enter fn next ih => exact ih first
  | leave next ih => exact ih first
  | peek pool next ih => exact fun items => ih items (first items)
  | take pool item rest next ih => exact ih first
  | give pool item rest next ih => exact ih first

theorem Plain.access (f : State → Except Fault (α × State)) : (access f : Prog State Fault Pool Item Fn α).Plain := by
  intro state
  dsimp only
  split <;> trivial

theorem Plain.call (fn : Fn) (body : prog.Plain) : (prog.call fn).Plain := body.bind fun _ => trivial

theorem Plain.takeFirst (pool : Pool) : (takeFirst pool : Prog State Fault Pool Item Fn (Option Item)).Plain := by
  intro items
  cases items <;> trivial

theorem Plain.giveBack (pool : Pool) (item : Item) : (giveBack pool item : Prog State Fault Pool Item Fn Unit).Plain := fun _ => trivial

theorem Plain.section (first : prog.Plain) (second : ∀ result, (then' result).Section) : (prog >>= then').Section := by
  change (prog.bind then').Section
  induction prog with
  | done result => exact second result
  | fail fault => trivial
  | act f next ih => exact fun state => ih state (first state)
  | lock next => cases first
  | unlock next => cases first
  | enter fn next ih => exact ih first
  | leave next ih => exact ih first
  | peek pool next ih => exact fun items => ih items (first items)
  | take pool item rest next ih => exact ih first
  | give pool item rest next ih => exact ih first

theorem Whole.locked (body : prog.Plain) : prog.locked.Whole := .lock (body.section fun result => ⟨result, rfl⟩)

theorem Section.map (rest : prog.Section) (f : α → β) : (prog >>= fun result => done (f result)).Section := by
  change (prog.bind _).Section
  induction prog with
  | done result => cases rest
  | fail fault => trivial
  | act access next ih => exact fun state => ih state (rest state)
  | lock next => cases rest
  | unlock next =>
    obtain ⟨result, rfl⟩ := rest
    exact ⟨f result, rfl⟩
  | enter fn next ih => exact ih rest
  | leave next ih => exact ih rest
  | peek pool next ih => exact fun items => ih items (rest items)
  | take pool item others next ih => exact ih rest
  | give pool item others next ih => exact ih rest

/-- The result may be worked on without the lock. -/
theorem Whole.map (whole : prog.Whole) (f : α → β) : (prog >>= fun result => Prog.done (f result)).Whole := by
  cases whole with
  | done result => exact .done (f result)
  | fail fault => exact .fail fault
  | lock rest => exact .lock (rest.map f)

end Rules
end Prog

section Moves
variable {Id State Fault Pool Item Fn α : Type} [DecidableEq Id] [DecidableEq Pool] (pools : Pools State Pool Item)

/-- The next step of one thread, if there is one: not after its end or a fault, nor at the lock
while someone has it. -/
def Machine.advance (m : Machine Id State Fault Pool Item Fn α) (id : Id) :
    Option (Label Id State Fault Pool Item Fn α × Machine Id State Fault Pool Item Fn α) :=
  match m.threads id with
  | none => none
  | some (.done _, _) => some (.silent, m.setThread id none)
  | some (.fail _, _) => none
  | some (.act f next, inside) =>
    match f m.state with
    | .ok state => some (.silent, { m with state }.setThread id (some (next m.state, inside)))
    | .error _ => none
  | some (.lock next, inside) =>
    match m.holder with
    | none => some (.silent, { m with holder := some id }.setThread id (some (next, inside)))
    | some _ => none
  | some (.unlock next, inside) => some (.silent, { m with holder := none }.setThread id (some (next, inside)))
  | some (.enter fn next, inside) => some (.silent, m.setThread id (some (next, fn :: inside)))
  | some (.leave next, inside) => some (.silent, m.setThread id (some (next, inside.tail)))
  | some (.peek pool next, inside) => some (.silent, m.setThread id (some (next (pools.get m.state pool), inside)))
  | some (.take pool item rest next, inside) =>
    some (.took id pool item, { m with state := pools.set m.state pool rest }.setThread id (some (next, inside)))
  | some (.give pool item rest next, inside) =>
    some (.gave id pool item, { m with state := pools.set m.state pool (item :: rest) }.setThread id (some (next, inside)))

/-- The steps of the threads alone: nothing else touches the state. -/
inductive Move (m : Machine Id State Fault Pool Item Fn α) :
    Label Id State Fault Pool Item Fn α → Machine Id State Fault Pool Item Fn α → Prop where
  | start (id : Id) (prog : Prog State Fault Pool Item Fn α) :
      m.threads id = none → Move m (.started id prog) (m.setThread id (some (prog, [])))
  | advance (id : Id) {label : Label Id State Fault Pool Item Fn α} {after : Machine Id State Fault Pool Item Fn α} :
      m.advance pools id = some (label, after) → Move m label after

variable {pools} {m after : Machine Id State Fault Pool Item Fn α} {label : Label Id State Fault Pool Item Fn α} {id : Id}

theorem Machine.advance_step (moved : m.advance pools id = some (label, after)) : Step pools m label after := by
  unfold advance at moved
  split at moved
  · cases moved
  · next result inside runs =>
    cases moved
    exact .finish id result inside runs
  · cases moved
  · next f next inside runs =>
    split at moved
    · next state ran =>
      cases moved
      exact .act id f next inside state runs ran
    · cases moved
  · next next inside runs =>
    split at moved
    · next free =>
      cases moved
      exact .lock id next inside runs free
    · cases moved
  · next next inside runs =>
    cases moved
    exact .unlock id next inside runs
  · next fn next inside runs =>
    cases moved
    exact .enter id fn next inside runs
  · next next inside runs =>
    cases moved
    exact .leave id next inside runs
  · next pool next inside runs =>
    cases moved
    exact .peek id pool next inside runs
  · next pool item rest next inside runs =>
    cases moved
    exact .take id pool item rest next inside runs
  · next pool item rest next inside runs =>
    cases moved
    exact .give id pool item rest next inside runs

theorem Move.step (moved : Move pools m label after) : Step pools m label after := by
  cases moved with
  | start id prog idle => exact .start id prog idle
  | advance id advanced => exact Machine.advance_step advanced

end Moves

section Serial
variable {Id State Fault Pool Item Fn α : Type} [DecidableEq Id] [DecidableEq Pool]

/-- A program that had its turn, with the thread that ran it and its result. -/
structure Turn (Id State Fault Pool Item Fn α : Type) where
  id : Id
  prog : Prog State Fault Pool Item Fn α
  result : α

/-- The turn of a thread that is alone. -/
def Turn.Runs (pools : Pools State Pool Item) (before : State) (turn : Turn Id State Fault Pool Item Fn α) (after : State) : Prop :=
  turn.prog.eval pools before = .ok (turn.result, after)

/-- The programs that the thread has started. -/
def startedBy (id : Id) (labels : List (Label Id State Fault Pool Item Fn α)) : List (Prog State Fault Pool Item Fn α) :=
  labels.filterMap fun
    | .started other prog => if other = id then some prog else none
    | _ => none

def turnsOf (id : Id) (turns : List (Turn Id State Fault Pool Item Fn α)) : List (Turn Id State Fault Pool Item Fn α) :=
  turns.filter fun turn => turn.id = id

variable (pools : Pools State Pool Item)

/-- Where a thread stands: the turns it had in `base`, and what it has started. Only the holder
of the lock is between `base` and the state. -/
inductive Progress (base state : State) (holder : Option Id) (id : Id) (turns : List (Turn Id State Fault Pool Item Fn α))
    (started : List (Prog State Fault Pool Item Fn α)) : Option (Prog State Fault Pool Item Fn α × List Fn) → Prop where
  | resting : holder ≠ some id → started = turns.map Turn.prog → Progress base state holder id turns started none
  | answered (result : α) (inside : List Fn) :
      holder ≠ some id → started = turns.map Turn.prog → turns.getLast?.map Turn.result = some result →
      Progress base state holder id turns started (some (.done result, inside))
  | broken (fault : Fault) (inside : List Fn) :
      holder ≠ some id → started = turns.map Turn.prog ++ [.fail fault] →
      Progress base state holder id turns started (some (.fail fault, inside))
  | waiting (next : Prog State Fault Pool Item Fn α) (inside : List Fn) :
      holder ≠ some id → next.Section → started = turns.map Turn.prog ++ [.lock next] →
      Progress base state holder id turns started (some (.lock next, inside))
  | holding (prog rest : Prog State Fault Pool Item Fn α) (inside : List Fn) :
      holder = some id → rest.Section → rest.eval pools state = prog.eval pools base → started = turns.map Turn.prog ++ [prog] →
      Progress base state holder id turns started (some (rest, inside))

/-- The turns so far, one after the other, lead to `base`. -/
structure Serial (first base : State) (turns : List (Turn Id State Fault Pool Item Fn α))
    (labels : List (Label Id State Fault Pool Item Fn α)) (m : Machine Id State Fault Pool Item Fn α) : Prop where
  run : Steps (Turn.Runs pools) first turns base
  free : m.holder = none → m.state = base
  threads : ∀ id, Progress pools base m.state m.holder id (turnsOf id turns) (startedBy id labels) (m.threads id)

variable {pools} {first base : State} {turns : List (Turn Id State Fault Pool Item Fn α)}
  {labels : List (Label Id State Fault Pool Item Fn α)} {m after : Machine Id State Fault Pool Item Fn α}
  {label : Label Id State Fault Pool Item Fn α} {id : Id}

section Threads
omit [DecidableEq Pool]

theorem startedBy_silent (quiet : ∀ prog, label ≠ .started id prog) : startedBy id (labels ++ [label]) = startedBy id labels := by
  rw [startedBy, startedBy, List.filterMap_append]
  cases label with
  | started other prog =>
    have distinct : other ≠ id := fun same => quiet prog (by rw [same])
    simp [distinct]
  | _ => simp

theorem startedBy_own (prog : Prog State Fault Pool Item Fn α) :
    startedBy id (labels ++ [.started id prog]) = startedBy id labels ++ [prog] := by
  rw [startedBy, startedBy, List.filterMap_append]
  simp

theorem turnsOf_own {more : List (Turn Id State Fault Pool Item Fn α)} (own : ∀ turn ∈ more, turn.id = id) :
    turnsOf id (turns ++ more) = turnsOf id turns ++ more := by
  rw [turnsOf, turnsOf, List.filter_append]
  congr 1
  exact List.filter_eq_self.mpr fun turn member => decide_eq_true (own turn member)

theorem turnsOf_other {other : Id} (distinct : other ≠ id) {more : List (Turn Id State Fault Pool Item Fn α)}
    (own : ∀ turn ∈ more, turn.id = id) : turnsOf other (turns ++ more) = turnsOf other turns := by
  rw [turnsOf, turnsOf, List.filter_append]
  have none : more.filter (fun turn => turn.id = other) = [] :=
    List.filter_eq_nil_iff.mpr fun turn member same => distinct ((of_decide_eq_true same).symm.trans (own turn member))
  rw [none, List.append_nil]

end Threads

omit [DecidableEq Id] in
/-- A thread without the lock does not see the state. -/
theorem Progress.elsewhere {state next later : State} {holder lock : Option Id} {turns : List (Turn Id State Fault Pool Item Fn α)}
    {started : List (Prog State Fault Pool Item Fn α)} {thread : Option (Prog State Fault Pool Item Fn α × List Fn)}
    (progress : Progress pools base state holder id turns started thread) (without : holder ≠ some id) (still : lock ≠ some id) :
    Progress pools later next lock id turns started thread := by
  cases progress with
  | resting _ same => exact .resting still same
  | answered result inside _ same last => exact .answered result inside still same last
  | broken fault inside _ same => exact .broken fault inside still same
  | waiting next inside _ rest same => exact .waiting next inside still rest same
  | holding prog rest inside holds => exact absurd holds without

/-- A step of one thread, with the turns that it gets by it. Of the others only the holder of
the lock looks at the state. -/
theorem Serial.move (serial : Serial pools first base turns labels m) {next state : State} {holder : Option Id}
    {thread : Option (Prog State Fault Pool Item Fn α × List Fn)} {more : List (Turn Id State Fault Pool Item Fn α)}
    (ran : Steps (Turn.Runs pools) base more next) (mine : ∀ turn ∈ more, turn.id = id)
    (own : Progress pools next state holder id (turnsOf id turns ++ more) (startedBy id (labels ++ [label])) thread)
    (quiet : ∀ other, other ≠ id → ∀ prog, label ≠ .started other prog)
    (kept : ∀ other, other ≠ id → m.holder ≠ some other ∧ holder ≠ some other ∨ next = base ∧ state = m.state ∧ holder = m.holder)
    (free : holder = none → state = next) :
    Serial pools first next (turns ++ more) (labels ++ [label]) (Machine.setThread { m with state, holder } id thread) := by
  refine ⟨serial.run.trans ran, free, fun other => ?_⟩
  by_cases same : other = id
  · subst same
    simp only [Machine.setThread, Function.update_self]
    rw [turnsOf_own mine]
    exact own
  · simp only [Machine.setThread, Function.update_of_ne same]
    rw [startedBy_silent (quiet other same), turnsOf_other same mine]
    have progress := serial.threads other
    rcases kept other same with ⟨without, still⟩ | ⟨rfl, rfl, rfl⟩
    · exact progress.elsewhere without still
    · exact progress

omit [DecidableEq Id] in
/-- A thread that does not wait and has not ended has the lock. -/
theorem Progress.section {state : State} {holder : Option Id} {turns : List (Turn Id State Fault Pool Item Fn α)}
    {started : List (Prog State Fault Pool Item Fn α)} {rest : Prog State Fault Pool Item Fn α} {inside : List Fn}
    (progress : Progress pools base state holder id turns started (some (rest, inside)))
    (going : rest.Going) :
    holder = some id ∧ rest.Section ∧ ∃ prog, rest.eval pools state = prog.eval pools base ∧ started = turns.map Turn.prog ++ [prog] := by
  cases progress with
  | answered => exact going.elim
  | broken => exact going.elim
  | waiting => exact going.elim
  | holding prog _ _ holds rest same begun => exact ⟨holds, rest, prog, same, begun⟩

/-- A step inside the locked section. -/
theorem Serial.inside (serial : Serial pools first base turns labels m) {rest next : Prog State Fault Pool Item Fn α}
    {entered left : List Fn} {state : State} (runs : m.threads id = some (rest, entered))
    (going : rest.Going)
    (later : rest.Section → next.Section) (same : next.eval pools state = rest.eval pools m.state) (quiet : ∀ other prog, label ≠ .started other prog) :
    Serial pools first base turns (labels ++ [label]) (Machine.setThread { m with state } id (some (next, left))) := by
  have progress := serial.threads id
  rw [runs] at progress
  obtain ⟨holds, section', prog, begun, started⟩ := progress.section going
  rw [← List.append_nil turns]
  refine serial.move (.refl base) (fun _ member => by cases member) ?_ (fun other _ => quiet other) ?_ ?_
  · rw [List.append_nil, startedBy_silent (quiet id)]
    exact .holding prog next left holds (later section') (same.trans begun) started
  · intro other distinct
    have without : m.holder ≠ some other := fun also => distinct (Option.some.inj (also.symm.trans holds))
    exact .inl ⟨without, without⟩
  · intro free
    cases free.symm.trans holds

private theorem Serial.started (serial : Serial pools first base turns labels m) {prog : Prog State Fault Pool Item Fn α}
    (resting : m.threads id = none) (whole : prog.Whole) :
    ∃ more, Serial pools first base (turns ++ more) (labels ++ [.started id prog]) (m.setThread id (some (prog, []))) := by
  have progress := serial.threads id
  rw [resting] at progress
  have begin' {more : List (Turn Id State Fault Pool Item Fn α)} (ran : Steps (Turn.Runs pools) base more base)
      (mine : ∀ turn ∈ more, turn.id = id)
      (own : Progress pools base m.state m.holder id (turnsOf id turns ++ more) (startedBy id labels ++ [prog]) (some (prog, []))) :
      Serial pools first base (turns ++ more) (labels ++ [.started id prog]) (m.setThread id (some (prog, []))) := by
    refine serial.move ran mine ?_ ?_ (fun other _ => .inr ⟨rfl, rfl, rfl⟩) serial.free
    · rw [startedBy_own]
      exact own
    · intro other distinct next same
      cases same
      exact distinct rfl
  have nothing : ∀ turn ∈ ([] : List (Turn Id State Fault Pool Item Fn α)), turn.id = id := fun _ member => by cases member
  cases progress with
  | resting without same =>
    cases whole with
    | done result =>
      refine ⟨[⟨id, .done result, result⟩], begin' (.single rfl) ?_ (.answered result [] without ?_ ?_)⟩
      · intro turn member
        rw [List.mem_singleton.mp member]
      · rw [same, List.map_append]
        rfl
      · rw [List.getLast?_append]
        rfl
    | fail fault =>
      refine ⟨[], begin' (.refl base) nothing (.broken fault [] without ?_)⟩
      rw [List.append_nil, same]
    | lock rest =>
      refine ⟨[], begin' (.refl base) nothing (.waiting _ [] without rest ?_)⟩
      rw [List.append_nil, same]

private theorem Serial.finished (serial : Serial pools first base turns labels m) {result : α} {inside : List Fn}
    (runs : m.threads id = some (.done result, inside)) :
    Serial pools first base turns (labels ++ [.silent]) (m.setThread id none) := by
  have progress := serial.threads id
  rw [runs] at progress
  have rested : Progress pools base m.state m.holder id (turnsOf id turns) (startedBy id labels) none := by
    cases progress with
    | answered _ _ without same _ => exact .resting without same
    | holding _ _ _ _ rest => cases rest
  rw [← List.append_nil turns]
  refine serial.move (.refl base) (fun _ member => by cases member) ?_ (fun _ _ _ same => by cases same)
    (fun other _ => .inr ⟨rfl, rfl, rfl⟩) serial.free
  rw [List.append_nil, startedBy_silent fun _ same => by cases same]
  exact rested

private theorem Serial.locked (serial : Serial pools first base turns labels m) {next : Prog State Fault Pool Item Fn α}
    {inside : List Fn} (runs : m.threads id = some (.lock next, inside)) (free : m.holder = none) :
    Serial pools first base turns (labels ++ [.silent]) ({ m with holder := some id }.setThread id (some (next, inside))) := by
  have progress := serial.threads id
  rw [runs] at progress
  have begun : next.Section ∧ startedBy id labels = (turnsOf id turns).map Turn.prog ++ [.lock next] := by
    cases progress with
    | waiting _ _ _ rest same => exact ⟨rest, same⟩
    | holding _ _ _ _ rest => cases rest
  have here := serial.free free
  rw [← List.append_nil turns]
  refine serial.move (.refl base) (fun _ member => by cases member) ?_ (fun _ _ _ same => by cases same) ?_ (fun none => by cases none)
  · rw [List.append_nil, startedBy_silent fun _ same => by cases same]
    refine .holding (.lock next) next inside rfl begun.1 ?_ begun.2
    rw [here]
    rfl
  · intro other distinct
    refine .inl ⟨by rw [free]; simp, fun same => distinct (Option.some.inj same).symm⟩

/-- The end of the section is where the turn is counted. -/
private theorem Serial.unlocked (serial : Serial pools first base turns labels m) {next : Prog State Fault Pool Item Fn α}
    {inside : List Fn} (runs : m.threads id = some (.unlock next, inside)) :
    ∃ turn, Serial pools first m.state (turns ++ [turn]) (labels ++ [.silent])
      ({ m with holder := none }.setThread id (some (next, inside))) := by
  have progress := serial.threads id
  rw [runs] at progress
  obtain ⟨holds, rest, prog, same, begun⟩ := progress.section trivial
  obtain ⟨result, rfl⟩ := rest
  refine ⟨⟨id, prog, result⟩, serial.move (.single same.symm) ?_ ?_ (fun _ _ _ same => by cases same) ?_ fun _ => rfl⟩
  · intro turn member
    rw [List.mem_singleton.mp member]
  · rw [startedBy_silent fun _ same => by cases same]
    refine .answered result inside (fun holds => by cases holds) ?_ ?_
    · rw [begun, List.map_append]
      rfl
    · rw [List.getLast?_append]
      rfl
  · intro other distinct
    exact .inl ⟨fun also => distinct (Option.some.inj (also.symm.trans holds)), fun holds => by cases holds⟩

/-- One step of one thread. -/
theorem Serial.step (serial : Serial pools first base turns labels m) (moved : Move pools m label after)
    (starts : ∀ id prog, label = .started id prog → prog.Whole) :
    ∃ next more, Serial pools first next (turns ++ more) (labels ++ [label]) after := by
  have same {after : Machine Id State Fault Pool Item Fn α} {labels : List (Label Id State Fault Pool Item Fn α)}
      (kept : Serial pools first base turns labels after) : ∃ next more, Serial pools first next (turns ++ more) labels after :=
    ⟨base, [], by rwa [List.append_nil]⟩
  cases moved with
  | start id prog resting =>
    obtain ⟨more, serial⟩ := serial.started resting (starts id prog rfl)
    exact ⟨base, more, serial⟩
  | advance id advanced =>
    unfold Machine.advance at advanced
    split at advanced
    · cases advanced
    · next result inside runs =>
      cases advanced
      exact same (serial.finished runs)
    · cases advanced
    · next f next inside runs =>
      split at advanced
      · next state ran =>
        cases advanced
        refine same (serial.inside runs trivial (fun rest => rest m.state) ?_ fun _ _ started => by cases started)
        rw [Prog.eval, ran]
      · cases advanced
    · next next inside runs =>
      split at advanced
      · next free =>
        cases advanced
        exact same (serial.locked runs free)
      · cases advanced
    · next next inside runs =>
      cases advanced
      obtain ⟨turn, serial⟩ := serial.unlocked runs
      exact ⟨m.state, [turn], serial⟩
    · next fn next inside runs =>
      cases advanced
      exact same (serial.inside runs trivial (fun rest => rest) rfl fun _ _ started => by cases started)
    · next next inside runs =>
      cases advanced
      exact same (serial.inside runs trivial (fun rest => rest) rfl fun _ _ started => by cases started)
    · next pool next inside runs =>
      cases advanced
      exact same (serial.inside runs trivial (fun rest => rest (pools.get m.state pool)) rfl fun _ _ started => by cases started)
    · next pool item rest next inside runs =>
      cases advanced
      exact same (serial.inside runs trivial (fun rest => rest) rfl fun _ _ started => by cases started)
    · next pool item rest next inside runs =>
      cases advanced
      exact same (serial.inside runs trivial (fun rest => rest) rfl fun _ _ started => by cases started)

/-- The steps of the threads, where each starts whole programs. -/
def WholeMove (pools : Pools State Pool Item) (m : Machine Id State Fault Pool Item Fn α)
    (label : Label Id State Fault Pool Item Fn α) (after : Machine Id State Fault Pool Item Fn α) : Prop :=
  Move pools m label after ∧ ∀ id prog, label = .started id prog → prog.Whole

theorem Serial.of_idle (idle : Idle m) : Serial pools m.state m.state [] [] m := by
  refine ⟨.refl _, fun _ => rfl, fun id => ?_⟩
  rw [idle.1, idle.2 id]
  exact .resting (fun holds => by cases holds) rfl

/-- The turns of a run that goes on come after those it had. -/
theorem Serial.later (serial : Serial pools first base turns labels m) {more : List (Label Id State Fault Pool Item Fn α)}
    (run : Steps (WholeMove pools) m more after) :
    ∃ next others, Serial pools first next (turns ++ others) (labels ++ more) after := by
  induction run with
  | refl => exact ⟨base, [], by rwa [List.append_nil, List.append_nil]⟩
  | tail _ taken ih =>
    obtain ⟨next, others, serial⟩ := ih
    obtain ⟨last, turn, serial⟩ := serial.step taken.1 taken.2
    rw [List.append_assoc, List.append_assoc] at serial
    exact ⟨last, _, serial⟩

/-- What a thread has started is what it had turns for and, until it has a result, the program it
is in; its last result is that of its last turn. -/
def Accounted (turns : List (Turn Id State Fault Pool Item Fn α)) (labels : List (Label Id State Fault Pool Item Fn α))
    (m : Machine Id State Fault Pool Item Fn α) (id : Id) : Prop :=
  match m.threads id with
  | none => startedBy id labels = (turnsOf id turns).map Turn.prog
  | some (.done result, _) =>
    startedBy id labels = (turnsOf id turns).map Turn.prog ∧ (turnsOf id turns).getLast?.map Turn.result = some result
  | some _ => ∃ prog, startedBy id labels = (turnsOf id turns).map Turn.prog ++ [prog]

theorem Serial.accounted (serial : Serial pools first base turns labels m) (id : Id) : Accounted turns labels m id := by
  have progress := serial.threads id
  unfold Accounted
  generalize m.threads id = thread at progress
  cases progress with
  | resting _ same => exact same
  | answered result inside _ same last => exact ⟨same, last⟩
  | broken fault inside _ same => exact ⟨.fail fault, same⟩
  | waiting next inside _ _ same => exact ⟨.lock next, same⟩
  | holding prog rest inside _ later _ same =>
    cases rest with
    | done => cases later
    | _ => exact ⟨prog, same⟩

omit [DecidableEq Pool] in
theorem Accounted.started {turn : Turn Id State Fault Pool Item Fn α} (accounted : Accounted turns labels m turn.id)
    (member : turn ∈ turns) : turn.prog ∈ startedBy turn.id labels := by
  have own : turn.prog ∈ (turnsOf turn.id turns).map Turn.prog :=
    List.mem_map_of_mem (List.mem_filter.mpr ⟨member, decide_eq_true rfl⟩)
  unfold Accounted at accounted
  split at accounted
  · rwa [accounted]
  · rwa [accounted.1]
  · obtain ⟨prog, same⟩ := accounted
    rw [same]
    exact List.mem_append_left _ own

/-- While the lock is free the state is that after all programs that gave up the lock, each run
alone. What has its turn before some moment stands before what has it later. -/
theorem serializable {middle last : Machine Id State Fault Pool Item Fn α} {earlier later : List (Label Id State Fault Pool Item Fn α)}
    (idle : Idle m) (run : Steps (WholeMove pools) m earlier middle) (rest : Steps (WholeMove pools) middle later last)
    (free : last.holder = none) :
    ∃ before after, Steps (Turn.Runs pools) m.state (before ++ after) last.state ∧
      (∀ id, Accounted before earlier middle id) ∧ ∀ id, Accounted (before ++ after) (earlier ++ later) last id := by
  obtain ⟨base, before, serial⟩ := (Serial.of_idle idle).later run
  obtain ⟨next, after, whole⟩ := serial.later rest
  rw [List.nil_append] at serial whole
  rw [List.nil_append] at serial whole
  refine ⟨before, after, ?_, serial.accounted, whole.accounted⟩
  rw [whole.free free]
  exact whole.run

end Serial

section Release
variable {Id State Fault Pool Item Fn α : Type} [DecidableEq Id] [DecidableEq Pool]

/-- A program that leaves the lock alone, or is one locked section. -/
def Prog.Fair (prog : Prog State Fault Pool Item Fn α) : Prop := prog.Plain ∨ prog.Whole

/-- The holder of the lock is on its way to give it up; no one else is in a section. -/
def Stands (holder : Option Id) (id : Id) : Option (Prog State Fault Pool Item Fn α × List Fn) → Prop
  | none => holder ≠ some id
  | some (prog, _) => holder = some id ∧ prog.Section ∨ holder ≠ some id ∧ prog.Fair

def Standing (m : Machine Id State Fault Pool Item Fn α) : Prop := ∀ id, Stands m.holder id (m.threads id)

/-- The thread is at an access that fails, or behind one. -/
def Prog.Faulty (state : State) : Prog State Fault Pool Item Fn α → Prop
  | .fail _ => True
  | .act f _ => ∃ fault, f state = .error fault
  | _ => False

variable {pools : Pools State Pool Item} {m after : Machine Id State Fault Pool Item Fn α}
  {label : Label Id State Fault Pool Item Fn α} {id : Id}

omit [DecidableEq Pool] in
/-- One thread moves, and the lock changes hands only by it. -/
theorem Standing.move (standing : Standing m) {state : State} {holder : Option Id}
    {thread : Option (Prog State Fault Pool Item Fn α × List Fn)} (own : Stands holder id thread)
    (lock : ∀ other, other ≠ id → (holder = some other ↔ m.holder = some other)) :
    Standing (Machine.setThread { m with state, holder } id thread) := by
  intro other
  by_cases same : other = id
  · subst same
    simp only [Machine.setThread, Function.update_self]
    exact own
  · have before := standing other
    simp only [Machine.setThread, Function.update_of_ne same]
    generalize m.threads other = thread at before
    cases thread <;> simpa only [Stands, ne_eq, lock other same] using before

omit [DecidableEq Pool] in
/-- A step that does not concern the lock. -/
theorem Standing.onward (standing : Standing m) {state : State} {prog next : Prog State Fault Pool Item Fn α} {inside entered : List Fn}
    (runs : m.threads id = some (prog, inside)) (going : prog.Going) (rest : prog.Section → next.Section)
    (plain : prog.Plain → next.Plain) : Standing (Machine.setThread { m with state } id (some (next, entered))) := by
  refine standing.move ?_ fun _ _ => Iff.rfl
  have was := standing id
  rw [runs] at was
  rcases was with ⟨holds, section'⟩ | ⟨without, fair⟩
  · exact .inl ⟨holds, rest section'⟩
  · refine .inr ⟨without, .inl ?_⟩
    rcases fair with off | whole
    · exact plain off
    · cases whole <;> exact going.elim

theorem Standing.step (standing : Standing m) (taken : Step pools m label after)
    (starts : ∀ id prog, label = .started id prog → prog.Fair) : Standing after := by
  cases taken with
  | start id prog resting =>
    have was := standing id
    rw [resting] at was
    exact standing.move (.inr ⟨was, starts id prog rfl⟩) fun _ _ => Iff.rfl
  | finish id result inside runs =>
    have was := standing id
    rw [runs] at was
    refine standing.move (?_ : Stands m.holder id (none : Option (Prog State Fault Pool Item Fn α × List Fn))) fun _ _ => Iff.rfl
    rcases was with ⟨_, rest⟩ | ⟨without, _⟩
    · cases rest
    · exact without
  | act id f next inside state runs ran =>
    exact standing.onward runs trivial (fun rest => rest m.state) fun plain => plain m.state
  | lock id next inside runs free =>
    have was := standing id
    rw [runs] at was
    refine standing.move (.inl ⟨rfl, ?_⟩) fun other distinct => ?_
    · rcases was with ⟨_, rest⟩ | ⟨_, plain | whole⟩
      · cases rest
      · cases plain
      · cases whole with
        | lock rest => exact rest
    · rw [free]
      exact iff_of_false (fun same => distinct (Option.some.inj same).symm) (by simp)
  | unlock id next inside runs =>
    have was := standing id
    rw [runs] at was
    rcases was with ⟨holds, result, rfl⟩ | ⟨_, plain | whole⟩
    · refine standing.move (.inr ⟨by simp, .inl trivial⟩) fun other distinct => ?_
      rw [holds]
      exact iff_of_false (by simp) fun same => distinct (Option.some.inj same).symm
    · cases plain
    · cases whole
  | enter id fn next inside runs => exact standing.onward runs trivial (fun rest => rest) fun plain => plain
  | leave id next inside runs => exact standing.onward runs trivial (fun rest => rest) fun plain => plain
  | peek id pool next inside runs => exact standing.onward runs trivial (fun rest => rest _) fun plain => plain _
  | take id pool item rest next inside runs => exact standing.onward runs trivial (fun rest => rest) fun plain => plain
  | give id pool item rest next inside runs => exact standing.onward runs trivial (fun rest => rest) fun plain => plain
  | others state same => exact standing

omit [DecidableEq Id] [DecidableEq Pool] in
theorem Standing.of_idle (idle : Idle m) : Standing m := by
  intro id
  rw [idle.1, idle.2 id]
  exact fun holds => by cases holds

/-- The steps of one thread alone. -/
def MovesOf (pools : Pools State Pool Item) (id : Id) (m : Machine Id State Fault Pool Item Fn α)
    (label : Label Id State Fault Pool Item Fn α) (after : Machine Id State Fault Pool Item Fn α) : Prop :=
  m.advance pools id = some (label, after)

/-- What the holder of the lock reaches without anyone's help: it gives up the lock, unless an
access of its own fails, and has not touched the other threads. -/
structure Released (pools : Pools State Pool Item) (id : Id) (m after : Machine Id State Fault Pool Item Fn α) : Prop where
  ends : after.holder = none ∨ ∃ prog inside, after.threads id = some (prog, inside) ∧ prog.Faulty after.state
  others : ∀ other, other ≠ id → after.threads other = m.threads other

/-- The holder has this to do and reaches its end. -/
def Reaches (pools : Pools State Pool Item) (id : Id) (m : Machine Id State Fault Pool Item Fn α) : Prop :=
  ∃ labels after, Steps (MovesOf pools id) m labels after ∧ Released pools id m after

theorem Reaches.cons {state : State} {holder : Option Id} {thread : Option (Prog State Fault Pool Item Fn α × List Fn)}
    (moved : m.advance pools id = some (label, Machine.setThread { m with state, holder } id thread))
    (later : Reaches pools id (Machine.setThread { m with state, holder } id thread)) : Reaches pools id m := by
  obtain ⟨labels, after, run, released⟩ := later
  refine ⟨label :: labels, after, .cons moved run, released.ends, fun other distinct => ?_⟩
  rw [released.others other distinct]
  exact Function.update_of_ne distinct ..

theorem Reaches.faulty {prog : Prog State Fault Pool Item Fn α} {inside : List Fn} (runs : m.threads id = some (prog, inside))
    (faulty : prog.Faulty m.state) : Reaches pools id m :=
  ⟨[], m, .refl m, .inr ⟨prog, inside, runs, faulty⟩, fun _ _ => rfl⟩

/-- The induction is on what the holder has left to do. -/
theorem releases (prog : Prog State Fault Pool Item Fn α) {inside : List Fn} (runs : m.threads id = some (prog, inside))
    (rest : prog.Section) : Reaches pools id m := by
  induction prog generalizing m inside with
  | done result => cases rest
  | fail fault => exact .faulty runs trivial
  | act f next ih =>
    cases ran : f m.state with
    | error fault => exact .faulty runs ⟨fault, ran⟩
    | ok state =>
      have moved : m.advance pools id = some (.silent, { m with state }.setThread id (some (next m.state, inside))) := by
        simp only [Machine.advance, runs, ran]
      exact .cons moved (ih m.state (Function.update_self ..) (rest m.state))
  | lock next => cases rest
  | unlock next =>
    have moved : m.advance pools id = some (.silent, { m with holder := none }.setThread id (some (next, inside))) := by
      simp only [Machine.advance, runs]
    exact .cons moved ⟨[], _, .refl _, .inl rfl, fun _ _ => rfl⟩
  | enter fn next ih =>
    have moved : m.advance pools id = some (.silent, m.setThread id (some (next, fn :: inside))) := by
      simp only [Machine.advance, runs]
    exact .cons moved (ih (Function.update_self ..) rest)
  | leave next ih =>
    have moved : m.advance pools id = some (.silent, m.setThread id (some (next, inside.tail))) := by
      simp only [Machine.advance, runs]
    exact .cons moved (ih (Function.update_self ..) rest)
  | peek pool next ih =>
    have moved : m.advance pools id = some (.silent, m.setThread id (some (next (pools.get m.state pool), inside))) := by
      simp only [Machine.advance, runs]
    exact .cons moved (ih _ (Function.update_self ..) (rest _))
  | take pool item others next ih =>
    have moved : m.advance pools id = some (.took id pool item,
        { m with state := pools.set m.state pool others }.setThread id (some (next, inside))) := by
      simp only [Machine.advance, runs]
    exact .cons moved (ih (Function.update_self ..) rest)
  | give pool item others next ih =>
    have moved : m.advance pools id = some (.gave id pool item,
        { m with state := pools.set m.state pool (item :: others) }.setThread id (some (next, inside))) := by
      simp only [Machine.advance, runs]
    exact .cons moved (ih (Function.update_self ..) rest)

/-- A thread that has something to do does it, unless an access of its own fails, or it waits for
another thread, which will give up the lock without anyone's help. -/
def Unblocked (pools : Pools State Pool Item) (m : Machine Id State Fault Pool Item Fn α) (id : Id) : Prop :=
  (∃ label after, m.advance pools id = some (label, after)) ∨
  (∃ prog inside, m.threads id = some (prog, inside) ∧ prog.Faulty m.state) ∨
  ∃ holder, m.holder = some holder ∧ holder ≠ id ∧ Reaches pools holder m

/-- There is no deadlock. -/
theorem Standing.unblocked (standing : Standing m) {prog : Prog State Fault Pool Item Fn α} {inside : List Fn}
    (runs : m.threads id = some (prog, inside)) : Unblocked pools m id := by
  cases prog with
  | fail fault => exact .inr (.inl ⟨.fail fault, inside, runs, trivial⟩)
  | act f next =>
    cases ran : f m.state with
    | error fault => exact .inr (.inl ⟨.act f next, inside, runs, fault, ran⟩)
    | ok state => exact .inl ⟨_, _, by simp only [Machine.advance, runs, ran]; rfl⟩
  | lock next =>
    cases holds : m.holder with
    | none => exact .inl ⟨_, _, by simp only [Machine.advance, runs, holds]; rfl⟩
    | some holder =>
      have was := standing id
      rw [runs] at was
      have apart : holder ≠ id := by
        rintro rfl
        rcases was with ⟨_, rest⟩ | ⟨without, _⟩
        · cases rest
        · exact without holds
      have stands := standing holder
      refine .inr (.inr ⟨holder, holds, apart, ?_⟩)
      cases thread : m.threads holder with
      | none =>
        rw [thread] at stands
        exact absurd holds stands
      | some running =>
        rw [thread] at stands
        rcases stands with ⟨_, rest⟩ | ⟨without, _⟩
        · exact releases running.1 thread rest
        · exact absurd holds without
  | _ => exact .inl ⟨_, _, by simp only [Machine.advance, runs]; rfl⟩

end Release
end Locking
