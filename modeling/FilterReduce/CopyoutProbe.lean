import FilterReduce.ArrayMap
import FilterReduce.Helpers

/-!
# A probed `copyout_bpf`

State shared by the programs that are attached to `copyout_bpf(to, from, n)`: the
registers they parse, the two array maps they declare, the memory of the calling
process and the return override. The kernel's own `copyout` is a parameter.
-/
namespace FilterReduce.CopyoutProbe
open CString Helpers

/-- `PT_REGS_PARM1`, `PT_REGS_PARM2` and `PT_REGS_PARM3` of the probed call. -/
structure PtRegs where
  toPtr : UInt64
  fromPtr : Src
  blen : UInt64

structure Machine where
  myReadMap : ArrayMap UInt64 1
  resultMap : ArrayMap UInt64 1
  user : UserMem
  override : Option UInt64

namespace Machine

def bpfOverrideReturn (m : Machine) (rc : UInt64) : Machine := { m with override := some rc }

def publish (m : Machine) (avg : UInt64) : Machine :=
  { m with resultMap := (m.resultMap.update 0 avg).2 }

def writeUser (m : Machine) (dst : UInt64) (bytes : List UInt8) : Machine :=
  { m with user := (bpfProbeWriteUser m.user dst bytes).2 }

/-- How a reducer ends: it stops with 1, or publishes the mean, does what it does
after that and returns 0. -/
def settle (m : Machine) (after : Machine → Machine) : Option ℕ → ℤ × Machine
  | none => (1, m)
  | some avg => (0, after (m.publish (UInt64.ofNat avg)))

def registered (m : Machine) : UInt64 := m.myReadMap.first

def result (m : Machine) : UInt64 := m.resultMap.first

def Published (m m' : Machine) : Prop := m.resultMap.updates < m'.resultMap.updates

instance (m m' : Machine) : Decidable (Published m m') :=
  inferInstanceAs (Decidable (m.resultMap.updates < m'.resultMap.updates))

def Untouched (m m' : Machine) : Prop :=
  m'.override = m.override ∧ m'.resultMap = m.resultMap ∧ m'.user = m.user

lemma Untouched.refl (m : Machine) : Untouched m m := ⟨rfl, rfl, rfl⟩

@[simp] lemma settle_none (m : Machine) (after : Machine → Machine) :
    m.settle after none = (1, m) := rfl

@[simp] lemma settle_some (m : Machine) (after : Machine → Machine) (avg : ℕ) :
    m.settle after (some avg) = (0, after (m.publish (UInt64.ofNat avg))) := rfl

@[simp] lemma override_bpfOverrideReturn (m : Machine) (rc : UInt64) :
    (m.bpfOverrideReturn rc).override = some rc := rfl

@[simp] lemma resultMap_bpfOverrideReturn (m : Machine) (rc : UInt64) :
    (m.bpfOverrideReturn rc).resultMap = m.resultMap := rfl

@[simp] lemma override_publish (m : Machine) (avg : UInt64) :
    (m.publish avg).override = m.override := rfl

@[simp] lemma result_publish (m : Machine) (avg : UInt64) : (m.publish avg).result = avg :=
  ArrayMap.update_zero_first _ _

@[simp] lemma updates_publish (m : Machine) (avg : UInt64) :
    (m.publish avg).resultMap.updates = m.resultMap.updates + 1 :=
  ArrayMap.update_zero_updates _ _

@[simp] lemma override_writeUser (m : Machine) (dst : UInt64) (bytes : List UInt8) :
    (m.writeUser dst bytes).override = m.override := rfl

@[simp] lemma resultMap_writeUser (m : Machine) (dst : UInt64) (bytes : List UInt8) :
    (m.writeUser dst bytes).resultMap = m.resultMap := rfl

@[simp] lemma result_writeUser (m : Machine) (dst : UInt64) (bytes : List UInt8) :
    (m.writeUser dst bytes).result = m.result := rfl

end Machine

def Machine.ready (a : UInt64) : Machine :=
  ⟨ArrayMap.fill a, ArrayMap.fill 0, fun _ => some 0, none⟩

/-- The sample input `compiled/f`: `01 02 03` up to `20`, and a newline. -/
def sampleFile : List UInt8 :=
  (List.range 20).flatMap fun k =>
    [UInt8.ofNat (48 + (k + 1) / 10), UInt8.ofNat (48 + (k + 1) % 10), if k < 19 then 32 else 10]

/-- The page that holds the sample input; the kernel clears the rest of it. -/
def samplePage : Src := fun p => some (sampleFile.getD p 0)

/-- A program attached to `copyout_bpf`: its return code and what it leaves behind. -/
abbrev Program := PtRegs → Machine → ℤ × Machine

/-- The kernel's copy of `n` bytes to the user: bytes left to copy, and the memory after it. -/
abbrev Copyout := PtRegs → UserMem → UInt64 × UserMem

/-- The copy when neither side faults: `blen` bytes arrive and none is left. -/
def copyToUser : Copyout := fun ctx user =>
  (0, fun a =>
    let p := (a - ctx.toPtr).toNat
    if p < ctx.blen.toNat then (ctx.fromPtr p).or (user a) else user a)

/-- One call of the probed function. The probe fires first; an overridden call skips
the kernel's copy. The code returned by the probe itself decides nothing. -/
def copyoutBpf (probe : Program) (copyout : Copyout) (ctx : PtRegs) (m : Machine) :
    UInt64 × Machine :=
  let m := (probe ctx { m with override := none }).2
  match m.override with
  | some rc => (rc, m)
  | none =>
    let (left, user) := copyout ctx m.user
    (left, { m with user })

end FilterReduce.CopyoutProbe
