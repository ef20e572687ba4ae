import FilterReduce.ArrayMap
import FilterReduce.ReadTracepoint

/-!
# `buffermap_kern.c`

Capture of the first byte a registered process reads into a registered buffer. The
entry handler only prints; the exit handler reads the byte. What the two do to the
maps is said once, in `attachRead_maps` and `attachExitRead_maps`.
-/
namespace FilterReduce.BuffermapKern
open CString Helpers ReadTracepoint

structure Maps where
  myMap : ArrayMap UInt32 1
  myReadMap : ArrayMap UInt64 1
  myBufferMap : ArrayMap UInt64 1
  myCharMap : ArrayMap UInt8 1

def Maps.boot : Maps := ⟨ArrayMap.fill 0, ArrayMap.fill 0, ArrayMap.fill 0, ArrayMap.fill 0⟩

def Maps.pid (maps : Maps) : UInt32 := maps.myMap.first

def Maps.buf (maps : Maps) : UInt64 := maps.myReadMap.first

def Maps.char (maps : Maps) : UInt8 := maps.myCharMap.first

def attachRead (ctx : EnterArgs) (maps : Maps) : Fired Maps :=
  match maps.myMap.lookup 0 with
  | none => ⟨0, ["error reading pid value from map\n"], maps⟩
  | some pid =>
    let trace := ["pid on map %ld\n", "tgid %ld\n"]
    if tgid ctx.pidTgid = pid then
      match maps.myReadMap.lookup 0 with
      | none => ⟨0, trace ++ ["error reading buffer value from map, read entry\n"], maps⟩
      | some val =>
        let trace := trace ++ ["buffer on params %lu, buffer on map %lu\n"]
        -- the update of my_read_map in this branch is commented out
        if val = ctx.buf then
          ⟨0, trace ++ ["matching targeted buffer with param buffer on read entry\n"], maps⟩
        else ⟨0, trace ++ ["buffer value mismatch on read entry\n"], maps⟩
    else ⟨0, trace ++ ["pid mismatch\n"], maps⟩

/-- `sys_exit_read`; neither `ctx->ret` nor the buffer of the call is looked at. -/
def attachExitRead (ctx : ExitArgs) (maps : Maps) : Fired Maps :=
  match maps.myMap.lookup 0 with
  | none => ⟨0, ["error reading pid value from map\n"], maps⟩
  | some pid =>
    let trace := ["pid on map %ld\n", "tgid %ld\n"]
    if tgid ctx.pidTgid = pid then
      -- the result of the delete is ignored
      let maps := { maps with myMap := (maps.myMap.delete 0).2 }
      match maps.myReadMap.lookup 0 with
      | none => ⟨0, trace ++ ["error reading buffer value from map\n"], maps⟩
      | some buf =>
        let trace := trace ++ ["read buffer from map on read exit %lu\n"]
        let read := bpfProbeRead (Buf.zeros 1) (ctx.mem.src buf)
        if read.1 ≠ 0 then ⟨0, trace ++ ["error reading char from user buff\n"], maps⟩
        else
          ⟨0, trace ++ ["read char from user buffer %c\n"],
            { maps with myCharMap := (maps.myCharMap.update 0 (read.2 (Fin.last 0))).2 }⟩
    else ⟨0, trace ++ ["pid mismatch on read exit\n"], maps⟩

def captured (ctx : ExitArgs) (maps : Maps) : Option UInt8 :=
  if tgid ctx.pidTgid = maps.pid then ctx.mem maps.buf else none

def Maps.capture (maps : Maps) : Option UInt8 → Maps
  | none => maps
  | some c => { maps with myCharMap := (maps.myCharMap.update 0 c).2 }

theorem attachRead_maps (ctx : EnterArgs) (maps : Maps) : (attachRead ctx maps).maps = maps := by
  simp only [attachRead, ArrayMap.lookup_zero]
  split_ifs <;> rfl

lemma bpfProbeRead_one (mem : UserMem) (a : UInt64) :
    bpfProbeRead (Buf.zeros 1) (mem.src a) =
      match mem a with
      | none => (-14, Buf.zeros 1)
      | some c => (0, fun _ => c) := by
  have hsrc : mem.src a 0 = mem a := by simp [UserMem.src]
  cases h : mem a <;> simp [bpfProbeRead, hsrc, h]

theorem attachExitRead_maps (ctx : ExitArgs) (maps : Maps) :
    (attachExitRead ctx maps).maps = maps.capture (captured ctx maps) := by
  by_cases hpid : tgid ctx.pidTgid = maps.myMap.first
  · cases hmem : ctx.mem (maps.myReadMap.first) <;>
      simp [attachExitRead, captured, Maps.pid, Maps.buf, Maps.capture, bpfProbeRead_one, hpid,
        hmem]
  · simp [attachExitRead, captured, Maps.pid, Maps.capture, hpid]

@[simp] lemma pid_capture (maps : Maps) (c : Option UInt8) : (maps.capture c).pid = maps.pid := by
  cases c <;> rfl

@[simp] lemma myBufferMap_capture (maps : Maps) (c : Option UInt8) :
    (maps.capture c).myBufferMap = maps.myBufferMap := by
  cases c <;> rfl

@[simp] lemma char_capture (maps : Maps) (c : Option UInt8) :
    (maps.capture c).char = c.getD maps.char := by
  cases c with
  | none => rfl
  | some c => exact ArrayMap.update_zero_first _ _

@[simp] lemma updates_capture (maps : Maps) (c : Option UInt8) :
    (maps.capture c).myCharMap.updates = maps.myCharMap.updates + if c.isSome then 1 else 0 := by
  cases c with
  | none => rfl
  | some c => exact ArrayMap.update_zero_updates _ _

/-! ## The user side -/

inductive MapName
  | myMap | myReadMap | myBufferMap | myCharMap
  deriving DecidableEq

/-- `map_fd`: the maps of the object file in the order of their declarations. -/
def mapFd : List MapName := [.myMap, .myReadMap, .myBufferMap, .myCharMap]

/-- `bpf_map_update_elem(map_fd[i], &key, value, BPF_ANY)` with `key = 0`. -/
def Maps.userUpdate (maps : Maps) (i : ℕ) (value : List UInt8) : Maps :=
  match mapFd[i]? with
  | none => maps
  | some .myMap => { maps with myMap := (maps.myMap.updateBytes 4 UInt32.ofNat 0 value).2 }
  | some .myReadMap =>
    { maps with myReadMap := (maps.myReadMap.updateBytes 8 UInt64.ofNat 0 value).2 }
  | some .myBufferMap =>
    { maps with myBufferMap := (maps.myBufferMap.updateBytes 8 UInt64.ofNat 0 value).2 }
  | some .myCharMap =>
    { maps with myCharMap := (maps.myCharMap.updateBytes 1 UInt8.ofNat 0 value).2 }

/-- `bpf_map_lookup_elem(map_fd[i], &key, value)` with `key = 0`: the bytes written to `value`. -/
def Maps.userLookup (maps : Maps) (i : ℕ) : Option (List UInt8) :=
  match mapFd[i]? with
  | none => none
  | some .myMap => maps.myMap.lookupBytes 4 UInt32.toNat 0
  | some .myReadMap => maps.myReadMap.lookupBytes 8 UInt64.toNat 0
  | some .myBufferMap => maps.myBufferMap.lookupBytes 8 UInt64.toNat 0
  | some .myCharMap => maps.myCharMap.lookupBytes 1 UInt8.toNat 0

/-- The two stores of `buffermap_user.c`: its pid, and the address of its buffer. -/
inductive UserUpdate
  | pid (pid : UInt32)
  | buf (buf : UInt64)

def Maps.register (maps : Maps) : UserUpdate → Maps
  | .pid pid => maps.userUpdate 0 (leBytes 4 pid.toNat)
  | .buf buf => maps.userUpdate 1 (leBytes 8 buf.toNat)

def step (maps : Maps) : Event UserUpdate → Maps
  | .user update => maps.register update
  | .enter ctx => (attachRead ctx maps).maps
  | .exit ctx => (attachExitRead ctx maps).maps

lemma register_pid (maps : Maps) (pid : UInt32) :
    maps.register (.pid pid) = { maps with myMap := (maps.myMap.update 0 pid).2 } := by
  have hlt : pid.toNat < 256 ^ 4 := pid.toNat_lt
  simp [Maps.register, Maps.userUpdate, mapFd, ArrayMap.updateBytes_leBytes _ hlt]

lemma register_buf (maps : Maps) (buf : UInt64) :
    maps.register (.buf buf) = { maps with myReadMap := (maps.myReadMap.update 0 buf).2 } := by
  have hlt : buf.toNat < 256 ^ 8 := buf.toNat_lt
  simp [Maps.register, Maps.userUpdate, mapFd, ArrayMap.updateBytes_leBytes _ hlt]

@[simp] lemma step_enter (maps : Maps) (ctx : EnterArgs) : step maps (.enter ctx) = maps :=
  attachRead_maps ctx maps

@[simp] lemma step_exit (maps : Maps) (ctx : ExitArgs) :
    step maps (.exit ctx) = maps.capture (captured ctx maps) :=
  attachExitRead_maps ctx maps

end FilterReduce.BuffermapKern
