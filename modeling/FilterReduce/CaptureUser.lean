import FilterReduce.BuffermapKern
import FilterReduce.ReadbuffKern
import FilterReduce.RunTrace

/-!
# The capture programs end to end

`buffermap_user.c` and `readbuff_user.c` register themselves, read one byte and look up
`map_fd[2]`. This module runs each together with its kernel side, with the reads of
other processes in between, and says which byte the lookup delivers.
-/
namespace FilterReduce.CaptureUser
open Helpers ReadTracepoint RunTrace

/-- One execution of the user program: its process, the descriptor and the buffer of
its `read(fd, buf, 1)`, and its memory when that returns 1 with `byte` in the buffer. -/
structure Session where
  pidTgid : UInt64
  fd : UInt32
  buf : UInt64
  mem : UserMem
  byte : UInt8
  stored : mem buf = some byte

namespace Session

def enter (s : Session) : EnterArgs := ⟨s.pidTgid, s.fd.toUInt64, s.buf⟩

def exit (s : Session) : ExitArgs := ⟨s.pidTgid, 1, s.mem⟩

def buffermapMain (s : Session) : List (Event BuffermapKern.UserUpdate) :=
  [.user (.pid (tgid s.pidTgid)), .user (.buf s.buf), .enter s.enter, .exit s.exit]

def readbuffMain (s : Session) : List (Event ReadbuffKern.UserUpdate) :=
  [.user ⟨s.fd⟩, .enter s.enter, .exit s.exit]

/-- A read of another process, which has another tgid and no descriptor of that number. -/
def Others (s : Session) {U : Type} : Event U → Prop
  | .user _ => False
  | .enter ctx => tgid ctx.pidTgid ≠ tgid s.pidTgid ∧ ctx.fd ≠ s.fd.toUInt64
  | .exit ctx => tgid ctx.pidTgid ≠ tgid s.pidTgid

end Session

/-- `char charval` after a lookup: the first of the bytes that are written to it. -/
def charval (value : Option (List UInt8)) : Option UInt8 := value.bind List.head?

section Buffermap
open BuffermapKern

/-- `map_fd[2]` of `buffermap_kern.c` is `my_buffer_map`, which nobody writes. -/
lemma myBufferMap_step (maps : Maps) (e : Event UserUpdate) :
    (step maps e).myBufferMap = maps.myBufferMap := by
  cases e with
  | user update =>
    cases update with
    | pid pid => rw [step, register_pid]
    | buf buf => rw [step, register_buf]
  | enter ctx => rw [step_enter]
  | exit ctx => rw [step_exit, myBufferMap_capture]

theorem buffermap_charval (es : List (Event UserUpdate)) :
    charval ((run step Maps.boot es).userLookup 2) = some 0 := by
  have hmap : (run step Maps.boot es).myBufferMap = Maps.boot.myBufferMap :=
    run_invariant step (P := fun maps => maps.myBufferMap = Maps.boot.myBufferMap)
      (fun maps e h => (myBufferMap_step maps e).trans h) rfl es
  simp only [Maps.userLookup, mapFd, List.getElem?_cons_succ, List.getElem?_cons_zero, hmap]
  decide

end Buffermap

section Readbuff
open ReadbuffKern

lemma fd_step_others {s : Session} {maps : Maps} {e : Event UserUpdate} (he : s.Others e)
    (h : maps.fd = s.fd) : (step maps e).fd = s.fd := by
  cases e with
  | user update => exact he.elim
  | enter ctx => rw [fd_step_enter, h]
  | exit ctx => rw [fd_step_exit, h]

def Armed (s : Session) (maps : Maps) : Prop := maps.fd = s.fd ∧ maps.buf = s.buf

lemma armed_step_others {s : Session} {maps : Maps} {e : Event UserUpdate} (he : s.Others e)
    (h : Armed s maps) : Armed s (step maps e) := by
  refine ⟨fd_step_others he h.1, ?_⟩
  cases e with
  | user update => exact he.elim
  | enter ctx =>
    rw [buf_step_enter, h.1, h.2]
    exact if_neg he.2.symm
  | exit ctx => rw [buf_step_exit, h.2]

lemma char_step_others {s : Session} {maps : Maps} {e : Event UserUpdate} (he : s.Others e)
    (h : Armed s maps ∧ maps.char = firstByte s.buf) :
    Armed s (step maps e) ∧ (step maps e).char = firstByte s.buf := by
  refine ⟨armed_step_others he h.1, ?_⟩
  cases e with
  | user update => exact he.elim
  | enter ctx => rw [char_step_enter, h.2]
  | exit ctx => rw [char_step_exit, h.1.2]

theorem readbuff_char {s : Session} {es : List (Event UserUpdate)}
    (h : Interleaved s.Others s.readbuffMain es) :
    (run step Maps.boot es).char = firstByte s.buf := by
  obtain ⟨g₀, _, rfl, -, h⟩ := h.split
  obtain ⟨g₁, _, rfl, hg₁, h⟩ := h.split
  obtain ⟨g₂, g₃, rfl, hg₂, h⟩ := h.split
  have hg₃ := h.of_nil
  simp only [run_append, run_cons]
  have h₁ := run_invariant_of step (P := fun maps => maps.fd = s.fd)
    (fun _ _ he hfd => fd_step_others he hfd) (fd_step_user (run step Maps.boot g₀) ⟨s.fd⟩) hg₁
  generalize run step (step (run step Maps.boot g₀) (.user ⟨s.fd⟩)) g₁ = maps₁ at h₁ ⊢
  have hentered : Armed s (step maps₁ (.enter s.enter)) := by
    refine ⟨by rw [fd_step_enter, h₁], ?_⟩
    rw [buf_step_enter, h₁]
    exact if_pos rfl
  have h₂ := run_invariant_of step (fun _ _ he harmed => armed_step_others he harmed) hentered hg₂
  generalize run step (step maps₁ (.enter s.enter)) g₂ = maps₂ at h₂ ⊢
  have hexited : Armed s (step maps₂ (.exit s.exit)) ∧
      (step maps₂ (.exit s.exit)).char = firstByte s.buf := by
    refine ⟨⟨by rw [fd_step_exit, h₂.1], by rw [buf_step_exit, h₂.2]⟩, ?_⟩
    rw [char_step_exit, h₂.2]
  exact (run_invariant_of step (P := fun maps => Armed s maps ∧ maps.char = firstByte s.buf)
    (fun _ _ he hall => char_step_others he hall) hexited hg₃).2

lemma charval_lookup (maps : Maps) : charval (maps.userLookup 2) = some maps.char := by
  simp [Maps.userLookup, mapFd, ArrayMap.lookupBytes, leBytes, charval, Maps.char]

end Readbuff

/-- The lookup delivers the byte that was read only by coincidence: in `buffermap` if and
only if that byte is zero, in `readbuff` if and only if it is the low byte of the
buffer's address. -/
theorem captured_byte_iff (s : Session) :
    (∀ es, Interleaved s.Others s.buffermapMain es →
      (charval ((run BuffermapKern.step .boot es).userLookup 2) = some s.byte ↔ s.byte = 0)) ∧
    ∀ es, Interleaved s.Others s.readbuffMain es →
      (charval ((run ReadbuffKern.step .boot es).userLookup 2) = some s.byte ↔
        s.byte = ReadbuffKern.firstByte s.buf) := by
  constructor
  · intro es _
    rw [buffermap_charval, Option.some.injEq, eq_comm]
  · intro es h
    rw [charval_lookup, readbuff_char h, Option.some.injEq, eq_comm]

def sampleSession : Session :=
  ⟨(7 : UInt64) <<< 32, 3, 4096, fun a => if a = 4096 then some 97 else some 0, 97, rfl⟩

theorem captured_byte_sample :
    (charval ((run BuffermapKern.step .boot sampleSession.buffermapMain).userLookup 2) =
        some sampleSession.byte ↔ sampleSession.byte = 0) ∧
      (charval ((run ReadbuffKern.step .boot sampleSession.readbuffMain).userLookup 2) =
        some sampleSession.byte ↔
          sampleSession.byte = ReadbuffKern.firstByte sampleSession.buf) :=
  ⟨(captured_byte_iff sampleSession).1 _ (.own (.own (.own (.own .nil)))),
    (captured_byte_iff sampleSession).2 _ (.own (.own (.own .nil)))⟩

theorem letter_not_captured :
    sampleSession.byte = 97 ∧
    Interleaved sampleSession.Others sampleSession.buffermapMain sampleSession.buffermapMain ∧
    charval ((run BuffermapKern.step .boot sampleSession.buffermapMain).userLookup 2) = some 0 ∧
    Interleaved sampleSession.Others sampleSession.readbuffMain sampleSession.readbuffMain ∧
    charval ((run ReadbuffKern.step .boot sampleSession.readbuffMain).userLookup 2) = some 0 := by
  have hread : Interleaved sampleSession.Others sampleSession.readbuffMain
      sampleSession.readbuffMain := .own (.own (.own .nil))
  refine ⟨rfl, .own (.own (.own (.own .nil))), buffermap_charval _, hread, ?_⟩
  rw [charval_lookup, readbuff_char hread]
  decide

end FilterReduce.CaptureUser
