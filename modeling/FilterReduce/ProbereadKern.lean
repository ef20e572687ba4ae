import FilterReduce.RunTrace
import FilterReduce.UserMemory
import FilterReduce.CopyoutSystem

/-!
# `proberead_kern.c`

The probe on `vfs_write`: of the writes of four bytes it replaces those that begin with
`a`, in the memory of the writer and before the kernel copies it. It looks at thirteen
bytes to see the first, so a buffer with less than that behind it passes unchanged, and so
does one that the writer itself could not store to, such as a string literal.
-/
namespace FilterReduce.ProbereadKern
open CString Helpers UserMemory RunTrace
open CopyoutSystem (Pid)

/-- `PT_REGS_PARM2` and `PT_REGS_PARM3` of `vfs_write(file, buf, count, pos)`. -/
structure PtRegs where
  fromPtr : UInt64
  len : UInt64

structure Memory where
  bytes : UserMem
  writable : UInt64 → Bool
  readable : ∀ a, writable a = true → (bytes a).isSome = true

/-- `bpf_probe_write_user`, up to the first byte that is not writable. -/
def Memory.probeWriteUser (mem : Memory) (dst : UInt64) (text : List UInt8) : Memory where
  bytes := storeWhile mem.writable mem.bytes dst text
  writable := mem.writable
  readable a h := isSome_storeWhile (mem.readable a h) dst text

/-- `char mystring[] = "xyy"`, terminator included. -/
def mystring : List UInt8 := [120, 121, 121, 0]

/-- `bpf_prog11`; `userbuff` is what the stack holds where the array is declared. The second
store is to `len` on the stack of the program itself, a kernel address, and is refused. -/
def bpfProg11 (userbuff : Buf 13) (ctx : PtRegs) (mem : Memory) : ℤ × Memory :=
  if ctx.len = 4 then
    let userbuff := (bpfProbeRead userbuff (mem.bytes.src ctx.fromPtr)).2
    if userbuff 0 = 97 then (0, mem.probeWriteUser ctx.fromPtr mystring)
    else (0, mem)
  else (0, mem)

def room (mem : Memory) (ctx : PtRegs) : ℕ :=
  reach (fun p => mem.writable (ctx.fromPtr + UInt64.ofNat p)) mystring.length

structure System where
  mem : Pid → Memory
  /-- the registers of the call of `vfs_write` that a process is in -/
  inside : Pid → Option PtRegs

structure Write where
  pid : Pid
  ctx : PtRegs
  userbuff : Buf 13

inductive Event
  /-- a process outside of the call stores to its memory or has it mapped otherwise -/
  | compute (pid : Pid) (mem : Memory)
  /-- a process calls `vfs_write` and the probe fires; the kernel has copied nothing yet -/
  | enter (w : Write)
  | leave (pid : Pid)

def step (s : System) : Event → System
  | .compute pid mem =>
    if s.inside pid = none then { s with mem := Function.update s.mem pid mem } else s
  | .enter w =>
    if s.inside w.pid = none then
      { mem := Function.update s.mem w.pid (bpfProg11 w.userbuff w.ctx (s.mem w.pid)).2
        inside := Function.update s.inside w.pid (some w.ctx) }
    else s
  | .leave pid => { s with inside := Function.update s.inside pid none }

lemma step_enter {s : System} {w : Write} (h : s.inside w.pid = none) :
    (step s (.enter w)).inside w.pid = some w.ctx ∧
      (step s (.enter w)).mem w.pid = (bpfProg11 w.userbuff w.ctx (s.mem w.pid)).2 := by
  rw [step, if_pos h]
  exact ⟨Function.update_self .., Function.update_self ..⟩

def SameFor (q : Pid) (s t : System) : Prop := s.mem q = t.mem q ∧ s.inside q = t.inside q

lemma SameFor.enter (s : System) {w : Write} {q : Pid} (hq : q ≠ w.pid) :
    SameFor q (step s (.enter w)) s := by
  by_cases hin : s.inside w.pid = none
  · rw [step, if_pos hin]
    exact ⟨Function.update_of_ne hq .., Function.update_of_ne hq ..⟩
  · rw [step, if_neg hin]
    exact ⟨rfl, rfl⟩

/-- What an event does to a process depends on nothing of the others. -/
lemma SameFor.step {q : Pid} {s t : System} (h : SameFor q s t) (e : Event) :
    SameFor q (step s e) (step t e) := by
  obtain ⟨hmem, hin⟩ := h
  cases e with
  | compute r mem =>
    by_cases hr : q = r
    · subst hr
      by_cases hs : s.inside q = none
      · simp [SameFor, ProbereadKern.step, ← hin, hs]
      · simp [SameFor, ProbereadKern.step, ← hin, hs, hmem]
    · by_cases hs : s.inside r = none <;> by_cases ht : t.inside r = none <;>
        simp [SameFor, ProbereadKern.step, hs, ht, hr, hmem, hin]
  | enter w =>
    by_cases hr : q = w.pid
    · subst hr
      by_cases hs : s.inside w.pid = none <;>
        simp [SameFor, ProbereadKern.step, ← hin, hs, hmem]
    · by_cases hs : s.inside w.pid = none <;> by_cases ht : t.inside w.pid = none <;>
        simp [SameFor, ProbereadKern.step, hs, ht, hr, hmem, hin]
  | leave r =>
    refine ⟨hmem, ?_⟩
    by_cases hr : q = r
    · simp [ProbereadKern.step, hr]
    · simp [ProbereadKern.step, hr, hin]

def stack : Memory := ⟨poke (fun _ => some 0) 4096 [97, 98, 99, 100, 0], fun _ => true,
  fun _ _ => by simp [poke]⟩

end FilterReduce.ProbereadKern
