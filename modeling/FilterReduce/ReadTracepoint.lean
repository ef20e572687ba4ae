import FilterReduce.Helpers

/-!
# The `read` tracepoints

Arguments of `sys_enter_read` and `sys_exit_read`, and the events a capture program
meets: stores by its user side, and the two tracepoints on behalf of any process.
-/
namespace FilterReduce.ReadTracepoint
open Helpers

/-- `struct sys_enter_read_args`, with the caller's `bpf_get_current_pid_tgid()`. -/
structure EnterArgs where
  pidTgid : UInt64
  fd : UInt64
  buf : UInt64
  deriving DecidableEq

/-- `struct sys_exit_read_args`, with the caller's `bpf_get_current_pid_tgid()` and its
memory when the call returns. -/
structure ExitArgs where
  pidTgid : UInt64
  ret : Int64
  mem : UserMem

def tgid (pidTgid : UInt64) : UInt32 := (pidTgid >>> 32).toUInt32

structure Fired (M : Type) where
  ret : ℤ
  trace : List String
  maps : M

inductive Event (U : Type)
  | user (update : U)
  | enter (ctx : EnterArgs)
  | exit (ctx : ExitArgs)

def Event.tgid {U : Type} : Event U → Option UInt32
  | .user _ => none
  | .enter ctx => some (ReadTracepoint.tgid ctx.pidTgid)
  | .exit ctx => some (ReadTracepoint.tgid ctx.pidTgid)

end FilterReduce.ReadTracepoint
