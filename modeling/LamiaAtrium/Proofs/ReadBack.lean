import LamiaAtrium.Cpu
import LamiaAtrium.Library.Run
import LamiaAtrium.Proofs.Access

/-! What a READ hands to the program. `libread` stores through a pointer to a field of the
local instruction copy of `run`, and the registers stay as they were. -/

namespace LamiaAtrium
open Run
variable {Proc : Type} [DecidableEq Proc]

/-- What happens to the processes. The loader builds one from fresh memory; a call of `run`
meets whatever queues the scheduler has at that moment. -/
inductive Act (Proc : Type) where
  | loaded (proc : Proc)
  | executed (proc : Proc) (ins : Inst) (stat : Int)

inductive ExecutionStep (text : Proc → List Inst) : Execution Proc → Act Proc → Execution Proc → Prop where
  | loaded (m : Execution Proc) (proc : Proc) (heap : List VmRg) (regs : Fin 10 → Addr) :
      ExecutionStep text m (.loaded proc)
        { mem := m.mem.setMm proc (initMm heap), pc := Function.update m.pc proc 0, regs := Function.update m.regs proc regs }
  | executed {env : Env Proc} {before after : Execution Proc} {proc : Proc} {ins : Inst} {copy : Option Inst} {stat : Int}
      (fetched : (text proc)[(before.pc proc).toNat]? = some ins)
      (ran : run env (text proc) before proc = .ok (stat, copy, after)) : ExecutionStep text before (.executed proc ins stat) after

/-- The acts that may change what register `r` of `proc` has at the offset, or `proc` itself. -/
def Disturbs (proc : Proc) (r offset : Addr) : Act Proc → Prop
  | .loaded p => p = proc
  | .executed p ins _ => p = proc ∧
      (ins.opcode = .alloc ∧ ins.arg1 = r ∨ ins.opcode = .free ∧ ins.arg0 = r ∨
        ins.opcode = .write ∧ ins.arg1 = r ∧ ins.arg2 = offset)

/-- `WRITE value r offset` and later `READ r offset d` of one process, both with result 0. -/
inductive WriteThenRead (proc : Proc) (value r offset : Addr) (d : Fin 10) : List (Act Proc) → Prop where
  | intro {write read : Inst} {between : List (Act Proc)}
      (writes : write.opcode = .write ∧ write.arg0 = value ∧ write.arg1 = r ∧ write.arg2 = offset)
      (quiet : ∀ act ∈ between, ¬Disturbs proc r offset act)
      (reads : read.opcode = .read ∧ read.arg0 = r ∧ read.arg1 = offset ∧ read.arg2 = BitVec.ofNat 64 d) :
      WriteThenRead proc value r offset d (.executed proc write 0 :: between ++ [.executed proc read 0])

section Steps
variable {env : Env Proc} {text : List Inst} {m after : Execution Proc} {proc : Proc} {ins : Inst} {copy : Option Inst} {stat : Int}

theorem storeArg2_low (ins : Inst) (word : CInt) : (ins.storeArg2 word).arg2.setWidth 32 = word := by
  apply BitVec.eq_of_getLsbD_eq
  intro i inside
  simp [Inst.storeArg2, inside]

theorem run_cases (fetched : text[(m.pc proc).toNat]? = some ins) (ran : run env text m proc = .ok (stat, copy, after)) :
    after.regs = m.regs ∧ after.pc = Function.update m.pc proc (m.pc proc + 1) ∧
      ((ins.opcode = .read ∧ ∃ word, libread (m.env env) m.mem proc (addrToInt ins.arg0) ins.arg1 = .ok (stat, word, after.mem) ∧
          copy = some (ins.storeArg2 word)) ∨
        ins.opcode ≠ .read ∧ runInst (m.env env) m.mem proc ins = .ok (stat, after.mem) ∧ copy = some ins) := by
  rw [run, fetched] at ran
  dsimp only at ran
  split at ran
  · next reads =>
    obtain ⟨⟨code, word, mem⟩, read, ran⟩ := Outcome.bind_eq_ok ran
    cases ran
    exact ⟨rfl, rfl, .inl ⟨reads, word, read, rfl⟩⟩
  · next other =>
    obtain ⟨⟨code, mem⟩, done, ran⟩ := Outcome.bind_eq_ok ran
    cases ran
    exact ⟨rfl, rfl, .inr ⟨other, done, rfl⟩⟩

theorem run_regs (ran : run env text m proc = .ok (stat, copy, after)) : after.regs = m.regs := by
  cases fetched : text[(m.pc proc).toNat]? with
  | none =>
    rw [run, fetched] at ran
    cases ran
    rfl
  | some ins => exact (run_cases fetched ran).1

/-- The byte that a READ finds ends in the low half of the local copy's `arg_2`. -/
theorem read_copy {destination : Inst} (fetched : text[(m.pc proc).toNat]? = some ins) (reads : ins.opcode = .read)
    (ran : run env text m proc = .ok (stat, some destination, after)) : ∃ data,
      read (m.env env) m.mem proc (addrToInt ins.arg0) ins.arg1 = .ok (stat, data, after.mem) ∧
      destination.arg2.setWidth 32 = (data.getD env.uninit).signExtend 32 := by
  obtain ⟨_, _, ⟨_, word, called, same⟩ | ⟨other, _⟩⟩ := run_cases fetched ran
  · obtain ⟨⟨code, data, mem⟩, read, called⟩ := Outcome.bind_eq_ok called
    cases called
    cases same
    exact ⟨data, read, storeArg2_low ins _⟩
  · exact absurd reads other

end Steps

section Sequence
variable {env : Env Proc} {text : List Inst} {m middle after : Execution Proc} {proc : Proc} {wr rd : Inst}
  {index : Fin pagingMaxSymtblSz} {copy : Option Inst} {destination : Inst} {stat : Int}

/-- The word that `libread` would deliver is the number written only below 128. -/
private theorem word_iff_small (value : Byte) : (value.signExtend 32 : CInt) = value.setWidth 32 ↔ value.toNat < 128 := by
  revert value
  decide

/-- Where no failure is swallowed, a READ right after a WRITE with result 0 puts the byte,
with its sign, into the copy that is dropped: the number written only if this is below 128. -/
theorem copy_holds_written_byte (unfailing : Unfailing (m.env env) m.mem proc 0 index wr.arg2)
    (register : addrToInt wr.arg1 = rgidOf index) (source : rd.arg0 = wr.arg1) (offset : rd.arg1 = wr.arg2)
    (writes : wr.opcode = .write) (reads : rd.opcode = .read)
    (fetched : text[(m.pc proc).toNat]? = some wr) (wrote : run env text m proc = .ok (0, copy, middle))
    (next : text[(middle.pc proc).toNat]? = some rd) (ran : run env text middle proc = .ok (stat, some destination, after)) :
    stat = 0 ∧ destination.arg2.setWidth 32 = ((wr.arg0.setWidth 8).signExtend 32 : CInt) ∧
      (destination.arg2.setWidth 32 = ((wr.arg0.setWidth 8).setWidth 32 : CInt) ↔ (wr.arg0.setWidth 8 : Byte).toNat < 128) := by
  have stored : write (m.env env) m.mem proc 0 (rgidOf index) wr.arg2 (wr.arg0.setWidth 8) = .ok (0, middle.mem) := by
    obtain ⟨_, _, ⟨reads, _⟩ | ⟨_, done, _⟩⟩ := run_cases fetched wrote
    · cases writes.symm.trans reads
    · rw [runInst, writes] at done
      rw [← register]
      exact done
  have regs : middle.env env = m.env env := by rw [Execution.env, Execution.env, run_regs wrote]
  obtain ⟨last, back⟩ := read_after_write unfailing stored
  obtain ⟨data, got, word⟩ := read_copy next reads ran
  rw [source, offset, register, regs, back] at got
  cases got
  refine ⟨rfl, word, ?_⟩
  rw [word]
  exact word_iff_small _

end Sequence

section Runs
variable {text : Proc → List Inst} {first last : Execution Proc} {history : List (Act Proc)} {proc : Proc}
  {value r offset : Addr} {d : Fin 10}

theorem ExecutionStep.regs {before after : Execution Proc} {act : Act Proc} (taken : ExecutionStep text before act after)
    (other : act ≠ .loaded proc) : after.regs proc = before.regs proc := by
  cases taken with
  | loaded m built heap regs =>
    refine Function.update_of_ne (fun same => other ?_) _ _
    rw [same]
  | executed fetched ran => rw [run_regs ran]

omit [DecidableEq Proc] in
theorem WriteThenRead.stays (pattern : WriteThenRead proc value r offset d history) : .loaded proc ∉ history := by
  cases pattern with
  | intro _ quiet _ =>
    intro listed
    simp only [List.cons_append, List.mem_cons, List.mem_append, List.not_mem_nil, or_false, reduceCtorEq, false_or] at listed
    exact quiet _ listed rfl

end Runs

end LamiaAtrium
