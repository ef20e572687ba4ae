import FilterReduce.ArrayMap
import FilterReduce.ReadTracepoint

/-!
# `readbuff_kern.c`

The older capture program: the entry handler stores the buffer of a read from the
registered file descriptor, and the exit handler stores a byte whenever any process
returns from a read.
-/
namespace FilterReduce.ReadbuffKern
open ReadTracepoint

structure Maps where
  myMap : ArrayMap UInt32 1
  myReadMap : ArrayMap UInt64 1
  myCharMap : ArrayMap UInt8 1

def Maps.boot : Maps := ⟨ArrayMap.fill 0, ArrayMap.fill 0, ArrayMap.fill 0⟩

def Maps.fd (maps : Maps) : UInt32 := maps.myMap.first

def Maps.buf (maps : Maps) : UInt64 := maps.myReadMap.first

def Maps.char (maps : Maps) : UInt8 := maps.myCharMap.first

def attachRead (ctx : EnterArgs) (maps : Maps) : Fired Maps :=
  match maps.myMap.lookup 0 with
  | none => ⟨0, ["error reading fd value from map\n"], maps⟩
  | some val =>
    let trace := ["fd on params %d\n"]
    if val.toUInt64 = ctx.fd then
      ⟨0, trace ++ ["matching targeted file descriptor and pid on read entry\n"],
        { maps with myReadMap := (maps.myReadMap.update 0 ctx.buf).2 }⟩
    else ⟨0, trace, maps⟩

/-- The byte behind a pointer to a map element of type `u64`. -/
def firstByte (x : UInt64) : UInt8 := (leBytes 8 x.toNat).headD 0

/-- `sys_exit_read`. The pointer to the element of `my_read_map` is itself taken for
the user's buffer, so `*buf` is the first byte of the stored address. -/
def attachExitRead (_ctx : ExitArgs) (maps : Maps) : Fired Maps :=
  match maps.myReadMap.lookup 0 with
  | none => ⟨0, ["error reading buffer value from map\n"], maps⟩
  | some elem =>
    let singleChar := firstByte elem
    ⟨0, ["read value from map, should look for buffer %x, value %c\n"],
      { maps with myCharMap := (maps.myCharMap.update 0 singleChar).2 }⟩

theorem attachRead_maps (ctx : EnterArgs) (maps : Maps) :
    (attachRead ctx maps).maps = if maps.fd.toUInt64 = ctx.fd then
      { maps with myReadMap := (maps.myReadMap.update 0 ctx.buf).2 } else maps := by
  by_cases h : maps.fd.toUInt64 = ctx.fd
  · rw [if_pos h]
    unfold Maps.fd at h
    simp [attachRead, h]
  · rw [if_neg h]
    unfold Maps.fd at h
    simp [attachRead, h]

theorem attachExitRead_maps (ctx : ExitArgs) (maps : Maps) :
    (attachExitRead ctx maps).maps =
      { maps with myCharMap := (maps.myCharMap.update 0 (firstByte maps.buf)).2 } := by
  simp [attachExitRead, Maps.buf]

/-! ## The user side -/

inductive MapName
  | myMap | myReadMap | myCharMap
  deriving DecidableEq

def mapFd : List MapName := [.myMap, .myReadMap, .myCharMap]

def Maps.userUpdate (maps : Maps) (i : ℕ) (value : List UInt8) : Maps :=
  match mapFd[i]? with
  | none => maps
  | some .myMap => { maps with myMap := (maps.myMap.updateBytes 4 UInt32.ofNat 0 value).2 }
  | some .myReadMap =>
    { maps with myReadMap := (maps.myReadMap.updateBytes 8 UInt64.ofNat 0 value).2 }
  | some .myCharMap =>
    { maps with myCharMap := (maps.myCharMap.updateBytes 1 UInt8.ofNat 0 value).2 }

def Maps.userLookup (maps : Maps) (i : ℕ) : Option (List UInt8) :=
  match mapFd[i]? with
  | none => none
  | some .myMap => maps.myMap.lookupBytes 4 UInt32.toNat 0
  | some .myReadMap => maps.myReadMap.lookupBytes 8 UInt64.toNat 0
  | some .myCharMap => maps.myCharMap.lookupBytes 1 UInt8.toNat 0

/-- The one store of `readbuff_user.c`: the descriptor of its file. -/
structure UserUpdate where
  fd : UInt32

def Maps.register (maps : Maps) (update : UserUpdate) : Maps :=
  maps.userUpdate 0 (leBytes 4 update.fd.toNat)

def step (maps : Maps) : Event UserUpdate → Maps
  | .user update => maps.register update
  | .enter ctx => (attachRead ctx maps).maps
  | .exit ctx => (attachExitRead ctx maps).maps

@[simp] lemma fd_step_user (maps : Maps) (update : UserUpdate) :
    (step maps (.user update)).fd = update.fd := by
  have hlt : update.fd.toNat < 256 ^ 4 := update.fd.toNat_lt
  simp [step, Maps.register, Maps.userUpdate, mapFd, ArrayMap.updateBytes_leBytes _ hlt, Maps.fd]

@[simp] lemma buf_step_user (maps : Maps) (update : UserUpdate) :
    (step maps (.user update)).buf = maps.buf := rfl

@[simp] lemma char_step_user (maps : Maps) (update : UserUpdate) :
    (step maps (.user update)).char = maps.char := rfl

@[simp] lemma fd_step_enter (maps : Maps) (ctx : EnterArgs) :
    (step maps (.enter ctx)).fd = maps.fd := by
  rw [step, attachRead_maps]
  split <;> rfl

@[simp] lemma fd_step_exit (maps : Maps) (ctx : ExitArgs) :
    (step maps (.exit ctx)).fd = maps.fd := by
  rw [step, attachExitRead_maps]
  rfl

lemma buf_step_enter (maps : Maps) (ctx : EnterArgs) :
    (step maps (.enter ctx)).buf = if maps.fd.toUInt64 = ctx.fd then ctx.buf else maps.buf := by
  rw [step, attachRead_maps]
  split
  · exact ArrayMap.update_zero_first _ _
  · rfl

@[simp] lemma buf_step_exit (maps : Maps) (ctx : ExitArgs) :
    (step maps (.exit ctx)).buf = maps.buf := by
  rw [step, attachExitRead_maps]
  rfl

@[simp] lemma char_step_enter (maps : Maps) (ctx : EnterArgs) :
    (step maps (.enter ctx)).char = maps.char := by
  rw [step, attachRead_maps]
  split <;> rfl

@[simp] lemma char_step_exit (maps : Maps) (ctx : ExitArgs) :
    (step maps (.exit ctx)).char = firstByte maps.buf := by
  rw [step, attachExitRead_maps]
  exact ArrayMap.update_zero_first _ _

end FilterReduce.ReadbuffKern
