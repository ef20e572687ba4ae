import FilterReduce.CopyoutProbe

/-!
# `override_exec_kern.c` and `procfs_override_kern.c`

The probes of the override experiments. The first counts the copies it replaces, the
second replaces every read of `/proc/helloworld`; both hand `"42\n"` to the reader in
place of the data.
-/
namespace FilterReduce.OverrideExecKern
open Helpers CopyoutProbe

/-- The maps of the program that it uses, the memory of the caller and the return override. -/
structure Machine where
  myReadMap : ArrayMap UInt64 1
  counterMap : ArrayMap UInt64 1
  user : UserMem
  override : Option UInt64

def mystring : List UInt8 := [52, 50, 10, 0]

/-- `bpf_copyout`. The counter is incremented in place and then stored once more through
an update with the element itself as the value. -/
def bpfCopyout (ctx : PtRegs) (m : Machine) : ℤ × Machine :=
  match m.myReadMap.lookup 0 with
  | none => (0, m)
  | some val =>
    if ctx.toPtr = val then
      let m := match m.counterMap.lookup 0 with
        | none => m
        | some counter =>
          let counterMap := m.counterMap.assign 0 (counter + 1)
          { m with counterMap := (counterMap.update 0 (counter + 1)).2 }
      let m := { m with override := some 0 }
      (0, { m with user := (bpfProbeWriteUser m.user ctx.toPtr mystring).2 })
    else (0, m)

def Machine.count (m : Machine) : UInt64 := m.counterMap.first

def Machine.registered (m : Machine) : UInt64 := m.myReadMap.first

theorem bpfCopyout_unmatched {ctx : PtRegs} {m : Machine} (h : ctx.toPtr ≠ m.registered) :
    bpfCopyout ctx m = (0, m) := by
  unfold bpfCopyout
  rw [ArrayMap.lookup_zero]
  exact if_neg h

theorem bpfCopyout_matched {ctx : PtRegs} {m : Machine} (h : ctx.toPtr = m.registered) :
    ∃ counterMap, counterMap.first = m.count + 1 ∧
      bpfCopyout ctx m = (0, { m with
        counterMap := counterMap
        override := some 0
        user := (bpfProbeWriteUser m.user ctx.toPtr mystring).2 }) := by
  refine ⟨((m.counterMap.assign 0 (m.count + 1)).update 0 (m.count + 1)).2,
    ArrayMap.update_zero_first _ _, ?_⟩
  unfold bpfCopyout
  rw [ArrayMap.lookup_zero, ArrayMap.lookup_zero]
  exact if_pos h

end FilterReduce.OverrideExecKern

namespace FilterReduce.ProcfsOverrideKern
open Helpers

/-- `PT_REGS_PARM2` and `PT_REGS_PARM3` of `myread(file, ubuf, count, ppos)`. -/
structure PtRegs where
  ubuf : UInt64
  count : UInt64

structure Machine where
  user : UserMem
  override : Option UInt64

def mystring : List UInt8 := [52, 50, 10, 0]

/-- `bpf_read`. The count goes through an `int` on its way to the return value. -/
def bpfRead (ctx : PtRegs) (m : Machine) : ℤ × Machine :=
  let len : Int32 := ctx.count.toUInt32.toInt32
  let rc : UInt64 := len.toInt64.toUInt64
  let m := { m with override := some rc }
  (0, { m with user := (bpfProbeWriteUser m.user ctx.ubuf mystring).2 })

end FilterReduce.ProcfsOverrideKern
