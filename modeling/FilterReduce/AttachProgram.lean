import FilterReduce.LoadMaps

/-!
# Loading and attaching one program

`load_and_attach` picks what to do from the name of the section. The twelve name
tests exclude one another, so a name stands for one way of being attached
(`hook`), and a program that is reported as attached is attached that way.
-/
namespace FilterReduce.BpfLoad

open CString ElfObject StateProgram

section Kinds

lemma startsWith_iff {s start : List UInt8} :
    startsWith s start = true ↔ s.take start.length = start := by
  simp [startsWith]

lemma take_take_of_startsWith {s a b : List UInt8} (ha : startsWith s a = true)
    (hb : startsWith s b = true) (hab : a.length ≤ b.length) : b.take a.length = a := by
  rw [startsWith_iff] at ha hb
  rw [← hb, List.take_take, Nat.min_eq_left hab, ha]

lemma Kind.tag_take {k k' : Kind} (hlen : k.tag.length ≤ k'.tag.length)
    (h : k'.tag.take k.tag.length = k.tag) : k = k' := by
  cases k <;> cases k' <;> first | rfl | exact absurd h (by decide)

/-- No section name is of two kinds. -/
theorem Kind.is_unique {k k' : Kind} {event : List UInt8} (h : k.is event = true)
    (h' : k'.is event = true) : k = k' := by
  rcases Nat.le_total k.tag.length k'.tag.length with hle | hle
  · exact Kind.tag_take hle (take_take_of_startsWith h h' hle)
  · exact (Kind.tag_take hle (take_take_of_startsWith h' h hle)).symm

lemma Kind.is_other {k k' : Kind} {event : List UInt8} (h : k.is event = true) (hne : k' ≠ k) :
    k'.is event = false := by
  rw [← Bool.not_eq_true]
  exact fun h' => hne (Kind.is_unique h' h)

def Kind.progType : Kind → ProgType
  | .socket => .socketFilter
  | .kprobe | .kretprobe => .kprobe
  | .tracepoint => .tracepoint
  | .rawTracepoint => .rawTracepoint
  | .xdp => .xdp
  | .perfEvent => .perfEvent
  | .cgroupSkb => .cgroupSkb
  | .cgroupSk => .cgroupSock
  | .sockops => .sockOps
  | .skSkb => .skSkb
  | .skMsg => .skMsg

/-- The chain of tests picks the type of the kind, whatever their order. -/
theorem progType_of_is {k : Kind} {event : List UInt8} (h : k.is event = true) :
    progType event = some k.progType := by
  have hother : ∀ k', k' ≠ k → k'.is event = false := fun k' hne => Kind.is_other h hne
  cases k <;> simp [progType, Kind.progType, h, hother]

theorem progType_eq_none_iff {event : List UInt8} :
    progType event = none ↔ ∀ k : Kind, k.is event = false := by
  constructor
  · intro hnone k
    rw [← Bool.not_eq_true]
    intro hk
    rw [progType_of_is hk] at hnone
    cases hnone
  · intro h
    simp [progType, h]

end Kinds

section Hooks

/-- The ways a program is attached. -/
inductive Hook
  | nothing
  | slot (index : Int32)
  | raw (name : List UInt8)
  | kprobe (entry : Bool) (function : List UInt8)
  | tracepoint (name : List UInt8)
  | refused
  deriving DecidableEq

def numberedHook : List UInt8 → Hook
  | 47 :: number =>
    match number with
    | b :: _ => if isDigit b then .slot (atoi number) else .refused
    | [] => .refused
  | _ => .nothing

def kprobeHook (isKprobe : Bool) : List UInt8 → Hook
  | [] => .refused
  | b :: event =>
    if isDigit b then .slot (atoi (b :: event)) else .kprobe isKprobe (b :: event)

def tracepointHook : List UInt8 → Hook
  | [] => .refused
  | b :: event => .tracepoint (b :: event)

def Kind.hook (event : List UInt8) : Kind → Hook
  | .xdp | .perfEvent | .cgroupSkb | .cgroupSk => .nothing
  | .socket => numberedHook (event.drop 6)
  | .sockops | .skSkb | .skMsg => numberedHook (event.drop 7)
  | .rawTracepoint => .raw (event.drop 15)
  | .kprobe => kprobeHook true (event.drop 7)
  | .kretprobe => kprobeHook false (event.drop 10)
  | .tracepoint => tracepointHook (event.drop 11)

def Offers (text : List UInt8) (answer : Answer) (talk : Log) : Prop :=
  ∃ file closed : Answer, talk =
    [(.openFile (debugfs ++ ascii "kprobe_events") .append, file), (.write file.ret text, answer),
      (.close file.ret, closed)]

/-- A probe is created, under the name of the function that `start` is put before. A system call
is tried under its other name first. -/
inductive Registers (text : List UInt8 → List UInt8) (function : List UInt8) :
    List UInt8 → Log → Prop
  | plain {a : Answer} {talk : Log} (hname : startsWith function (ascii "sys_") = false)
      (htalk : Offers (text []) a talk) (hok : ¬ a.ret < 0) : Registers text function [] talk
  | syscall {a : Answer} {talk : Log} (hname : startsWith function (ascii "sys_") = true)
      (htalk : Offers (text sysStart) a talk) (hok : ¬ a.ret < 0) :
      Registers text function sysStart talk
  | fallback {a a' : Answer} {talk talk' : Log}
      (hname : startsWith function (ascii "sys_") = true)
      (htalk : Offers (text sysStart) a talk) (hrefused : a.ret < 0)
      (htalk' : Offers (text []) a' talk') (hok : ¬ a'.ret < 0) :
      Registers text function [] (talk ++ talk')

/-- The event whose number stands in the file `path` is opened as `efd` and runs the program. -/
def Ties (path : List UInt8) (efd fd : Int32) (talk : Log) : Prop :=
  ∃ file number closed event enabled set : Answer,
    talk = [(.openFile path .rdonly, file), (.read file.ret 256, number), (.close file.ret, closed),
      (.perfEventOpen (atoi (number.bytes.take number.ret.toInt.toNat)), event),
      (.perfEnable efd, enabled), (.perfSetBpf efd fd, set)] ∧
    event.ret = efd ∧ ∀ a ∈ [file, number, event, enabled, set], ¬ a.ret < 0

/-- All that is said to the kernel, in order, for a program `fd` that is attached in this way. -/
def Installs (progArrayFd efd fd : Int32) : Hook → Log → Prop
  | .nothing, talk => talk = []
  | .slot index, talk => ∃ a : Answer, ¬ a.ret < 0 ∧ talk = [(.updateElem progArrayFd index fd, a)]
  | .raw name, talk => ∃ a : Answer, ¬ a.ret < 0 ∧ a.ret = efd ∧
      talk = [(.rawTracepointOpen name fd, a)]
  | .kprobe entry function, talk => ∃ start reg tie, talk = reg ++ tie ∧
      Registers (fun start => kprobeText entry start function) function start reg ∧
      Ties (debugfs ++ ascii "events/kprobes/" ++ start ++ function ++ ascii "/id") efd fd tie
  | .tracepoint name, talk => Ties (debugfs ++ ascii "events/" ++ name ++ ascii "/id") efd fd talk
  | .refused, _ => False

def Request.isLoadProgram : Request → Bool
  | .loadProgram .. => true
  | _ => false

def Request.isEvent : Request → Bool
  | .openFile .. | .read .. | .write .. | .close .. => true
  | .rawTracepointOpen .. | .perfEventOpen .. | .perfEnable .. | .perfSetBpf .. => true
  | _ => false

lemma Request.isLoadProgram_of_isEvent {q : Request} (h : q.isEvent = true) :
    q.isLoadProgram = false := by
  cases q <;> first | rfl | cases h

lemma Offers.isEvent {text : List UInt8} {a : Answer} {talk : Log} (h : Offers text a talk) :
    ∀ e ∈ talk, e.1.isEvent = true := by
  obtain ⟨file, closed, rfl⟩ := h
  simp [Request.isEvent]

lemma Registers.isEvent {text : List UInt8 → List UInt8} {function start : List UInt8} {talk : Log}
    (h : Registers text function start talk) : ∀ e ∈ talk, e.1.isEvent = true := by
  cases h with
  | plain _ htalk _ => exact htalk.isEvent
  | syscall _ htalk _ => exact htalk.isEvent
  | fallback _ htalk _ htalk' _ => exact List.forall_mem_append.mpr ⟨htalk.isEvent, htalk'.isEvent⟩

lemma Ties.isEvent {path : List UInt8} {efd fd : Int32} {talk : Log} (h : Ties path efd fd talk) :
    ∀ e ∈ talk, e.1.isEvent = true := by
  obtain ⟨file, number, closed, event, enabled, set, rfl, -⟩ := h
  simp [Request.isEvent]

/-- A program that does not go into a slot is attached by setting up an event, if at all. -/
lemma Installs.isEvent {progArrayFd efd fd : Int32} {hook : Hook} {talk : Log}
    (h : Installs progArrayFd efd fd hook talk) (hslot : ∀ index, hook ≠ .slot index) :
    ∀ e ∈ talk, e.1.isEvent = true := by
  cases hook with
  | nothing =>
    obtain rfl := h
    simp
  | slot index => exact absurd rfl (hslot index)
  | raw name =>
    obtain ⟨a, -, -, rfl⟩ := h
    simp [Request.isEvent]
  | kprobe entry function =>
    obtain ⟨start, reg, tie, rfl, hreg, htie⟩ := h
    exact List.forall_mem_append.mpr ⟨hreg.isEvent, htie.isEvent⟩
  | tracepoint name => exact Ties.isEvent h
  | refused => exact absurd h id

lemma Registers.congr {text text' : List UInt8 → List UInt8} {function start : List UInt8}
    {talk : Log} (h : Registers text function start talk) (hnil : text [] = text' [])
    (hsys : text sysStart = text' sysStart) : Registers text' function start talk := by
  cases h with
  | plain hname htalk hok => exact .plain hname (hnil ▸ htalk) hok
  | syscall hname htalk hok => exact .syscall hname (hsys ▸ htalk) hok
  | fallback hname htalk hrefused htalk' hok =>
    exact .fallback hname (hsys ▸ htalk) hrefused (hnil ▸ htalk') hok

end Hooks

section Attach

variable {kernel : Kernel}

@[simp] lemma ask_bind {α : Type} (q : Request) (f : Answer → Load α) (s : Loader) :
    (ask kernel q >>= f) s = f (kernel s.log q) (s.asked kernel q) := rfl

@[simp] lemma asked_log (s : Loader) (q : Request) :
    (s.asked kernel q).log = s.log ++ [(q, kernel s.log q)] := rfl

/-- What attaching may change: an event descriptor, and the log by anything but a program. -/
structure Attached (s t : Loader) : Prop where
  frame : t = { s with log := t.log, eventFd := t.eventFd }
  event : ∀ j, j ≠ s.progCnt - 1 → t.eventFd j = s.eventFd j
  log : ∃ new, t.log = s.log ++ new ∧ ∀ e ∈ new, e.1.isLoadProgram = false

lemma Attached.refl (s : Loader) : Attached s s := ⟨rfl, fun _ _ => rfl, [], by simp, by simp⟩

lemma Attached.progCnt {s t : Loader} (h : Attached s t) : t.progCnt = s.progCnt := by
  rw [h.frame]

lemma Attached.progArrayFd {s t : Loader} (h : Attached s t) : t.progArrayFd = s.progArrayFd := by
  rw [h.frame]

lemma Attached.trans (s t u : Loader) (h : Attached s t) (h' : Attached t u) : Attached s u := by
  obtain ⟨new, hnew, hq⟩ := h.log
  obtain ⟨new', hnew', hq'⟩ := h'.log
  refine ⟨?_, fun j hj => ?_, new ++ new', ?_, ?_⟩
  · rw [h'.frame, h.frame]
  · rw [h'.event j (by rw [h.progCnt]; exact hj), h.event j hj]
  · rw [hnew', hnew, List.append_assoc]
  · intro e he
    rcases List.mem_append.mp he with he | he
    · exact hq e he
    · exact hq' e he

/-- A relation between states that setting up an event cannot leave. -/
structure EventRules (kernel : Kernel) (R : Loader → Loader → Prop) : Prop where
  refl : ∀ s, R s s
  trans : ∀ s t u, R s t → R t u → R s u
  asks : ∀ q : Request, q.isEvent = true → ∀ s, R s (s.asked kernel q)
  events : ∀ (efd : Int32) (s : Loader),
    R s { s with eventFd := Function.update s.eventFd (s.progCnt - 1) efd }

/-- A relation between states that attaching cannot leave. -/
structure AttachRules (kernel : Kernel) (R : Loader → Loader → Prop) : Prop
    extends EventRules kernel R where
  slots : ∀ (fd key value : Int32) (s : Loader), R s (s.asked kernel (.updateElem fd key value))

namespace EventRules

variable {R : Loader → Loader → Prop} (hR : EventRules kernel R)

include hR

lemma respects_pure {α : Type} (a : α) : Respects R (pure a : Load α) := Respects.pure hR.refl a

lemma respects_bind {α β : Type} {m : Load α} {f : α → Load β} (hm : Respects R m)
    (hf : ∀ a, Respects R (f a)) : Respects R (m >>= f) := Respects.bind hR.trans hm hf

lemma respects_ask {q : Request} (hq : q.isEvent = true) : Respects R (ask kernel q) := by
  intro s a t h
  obtain ⟨-, rfl⟩ := Prod.mk.inj (Except.ok.inj h)
  exact hR.asks q hq s

lemma respects_setEventFd (efd : Int32) : Respects R (setEventFd efd) := by
  refine Respects.get_bind fun s => ?_
  split
  · exact Respects.modify (hR.events efd)
  · exact Respects.fail _

lemma respects_writeKprobeEvents (val : List UInt8) :
    Respects R (writeKprobeEvents kernel val) :=
  hR.respects_bind (hR.respects_ask rfl) fun _ => hR.respects_bind (hR.respects_ask rfl) fun _ =>
    hR.respects_bind (hR.respects_ask rfl) fun _ => hR.respects_pure _

lemma respects_registerKprobe (isKprobe : Bool) (event : List UInt8) :
    Respects R (registerKprobe kernel isKprobe event) := by
  refine hR.respects_bind ?_ fun err => ?_
  · rw [registerSyscall]
    split
    · exact hR.respects_writeKprobeEvents _
    · exact hR.respects_pure _
  · split
    · refine hR.respects_bind (hR.respects_writeKprobeEvents _) fun err => ?_
      split <;> exact hR.respects_pure _
    · exact hR.respects_pure _

lemma respects_perfAttach (buf : List UInt8) (fd : Int32) :
    Respects R (perfAttach kernel buf fd) := by
  rw [perfAttach]
  split
  · exact Respects.fail _
  refine hR.respects_bind (hR.respects_ask rfl) fun efd => ?_
  split
  · exact hR.respects_pure _
  refine hR.respects_bind (hR.respects_ask rfl) fun err => ?_
  split
  · exact hR.respects_pure _
  refine hR.respects_bind (hR.respects_ask rfl) fun _ => ?_
  refine hR.respects_bind (hR.respects_ask rfl) fun efd => ?_
  split
  · exact hR.respects_pure _
  refine hR.respects_bind (hR.respects_setEventFd _) fun _ => ?_
  refine hR.respects_bind (hR.respects_ask rfl) fun err => ?_
  split
  · exact hR.respects_pure _
  refine hR.respects_bind (hR.respects_ask rfl) fun err => ?_
  split <;> exact hR.respects_pure _

lemma respects_attachTracepoint (event : List UInt8) (fd : Int32) :
    Respects R (attachTracepoint kernel event fd) := by
  cases event with
  | nil => exact hR.respects_pure _
  | cons b event => exact hR.respects_perfAttach _ _

lemma respects_attachRawTracepoint (event : List UInt8) (fd : Int32) :
    Respects R (attachRawTracepoint kernel event fd) := by
  refine hR.respects_bind (hR.respects_ask rfl) fun efd => ?_
  split
  · exact hR.respects_pure _
  · exact hR.respects_bind (hR.respects_setEventFd _) fun _ => hR.respects_pure _

end EventRules

namespace AttachRules

variable {R : Loader → Loader → Prop} (hR : AttachRules kernel R)

include hR

lemma respects_populateProgArray (event : List UInt8) (fd : Int32) :
    Respects R (populateProgArray kernel event fd) := by
  refine Respects.get_bind fun s => hR.respects_bind ?_ fun err => ?_
  · intro u a t h
    obtain ⟨-, rfl⟩ := Prod.mk.inj (Except.ok.inj h)
    exact hR.slots _ _ _ u
  · split <;> exact hR.respects_pure _

lemma respects_attachNumbered (event : List UInt8) (fd : Int32) :
    Respects R (attachNumbered kernel event fd) := by
  rw [attachNumbered.eq_def]
  split
  · split
    · split
      · exact hR.respects_populateProgArray _ _
      · exact hR.respects_pure _
    · exact hR.respects_pure _
  · exact hR.respects_pure _

lemma respects_attachKprobe (isKprobe : Bool) (event : List UInt8) (fd : Int32) :
    Respects R (attachKprobe kernel isKprobe event fd) := by
  cases event with
  | nil => exact hR.respects_pure _
  | cons b event =>
    rw [attachKprobe]
    split
    · exact hR.respects_populateProgArray _ _
    · refine hR.respects_bind (hR.respects_registerKprobe _ _) fun eventStart => ?_
      cases eventStart with
      | none => exact hR.respects_pure _
      | some eventStart => exact hR.respects_perfAttach _ _

theorem respects_attach (event : List UInt8) (fd : Int32) :
    Respects R (attach kernel event fd) := by
  rw [attach]
  split
  · exact hR.respects_pure _
  split
  · generalize (if Kind.is .socket event = true then 6 else 7) = skip
    dsimp only
    split
    · exact Respects.fail _
    · exact hR.respects_attachNumbered _ _
  split
  · exact hR.respects_attachRawTracepoint _ _
  split
  · exact hR.respects_attachKprobe _ _ _
  split
  · exact hR.respects_attachKprobe _ _ _
  split
  · exact hR.respects_attachTracepoint _ _
  · exact Respects.fail _

end AttachRules

lemma attachRules_attached (kernel : Kernel) : AttachRules kernel Attached where
  refl := Attached.refl
  trans := Attached.trans
  asks q hq s := ⟨rfl, fun _ _ => rfl, [(q, kernel s.log q)], rfl,
    by simpa using Request.isLoadProgram_of_isEvent hq⟩
  slots fd key value s := ⟨rfl, fun _ _ => rfl, _, rfl, by simp [Request.isLoadProgram]⟩
  events efd s := ⟨rfl, fun j hj => Function.update_of_ne hj _ _, [], by simp, by simp⟩

def Kind.attach (kernel : Kernel) (event : List UInt8) (fd : Int32) : Kind → Load ℤ
  | .xdp | .perfEvent | .cgroupSkb | .cgroupSk => return 0
  | .socket => attachNumbered kernel (event.drop 6) fd
  | .sockops => attachNumbered kernel (event.drop 7) fd
  | .skSkb | .skMsg =>
    if event.length < 7 then fail .outOfBounds else attachNumbered kernel (event.drop 7) fd
  | .rawTracepoint => attachRawTracepoint kernel (event.drop 15) fd
  | .kprobe => attachKprobe kernel true (event.drop 7) fd
  | .kretprobe => attachKprobe kernel false (event.drop 10) fd
  | .tracepoint => attachTracepoint kernel (event.drop 11) fd

lemma length_le_of_startsWith {s start : List UInt8} (h : startsWith s start = true) :
    start.length ≤ s.length := by
  have := congrArg List.length (startsWith_iff.mp h)
  rw [List.length_take] at this
  omega

theorem attach_eq {k : Kind} {event : List UInt8} (h : k.is event = true) (fd : Int32) :
    attach kernel event fd = k.attach kernel event fd := by
  have hother : ∀ k', k' ≠ k → k'.is event = false := fun k' hne => Kind.is_other h hne
  have hlen : k.tag.length ≤ event.length := length_le_of_startsWith h
  cases k with
  | socket =>
    have hsix : ¬ event.length < 6 := not_lt.mpr hlen
    simp [attach, Kind.attach, h, hother, hsix]
  | sockops =>
    have hseven : ¬ event.length < 7 := not_lt.mpr hlen
    simp [attach, Kind.attach, h, hother, hseven]
  | _ => simp [attach, Kind.attach, h, hother]

def Loader.recordEvent (s : Loader) (efd : Int32) : Loader :=
  { s with eventFd := Function.update s.eventFd (s.progCnt - 1) efd }

@[simp] lemma setEventFd_bind {α : Type} (efd : Int32) (f : PUnit → Load α) (s : Loader) :
    (setEventFd efd >>= f) s = if 0 < s.progCnt ∧ s.progCnt ≤ maxProgs then
      f ⟨⟩ (s.recordEvent efd) else .error .progTable := by
  by_cases h : 0 < s.progCnt ∧ s.progCnt ≤ maxProgs
  · have hset : setEventFd efd s = .ok (⟨⟩, s.recordEvent efd) := by
      simp [setEventFd, h, Loader.recordEvent]
    rw [bind_of_ok hset, if_pos h]
  · have hset : setEventFd efd s = .error .progTable := by simp [setEventFd, h]
    rw [bind_of_error hset, if_neg h]

lemma populateProgArray_installs {event : List UInt8} {fd : Int32} {s t : Loader}
    (h : populateProgArray kernel event fd s = .ok (0, t)) (efd : Int32) :
    ∃ talk, t.log = s.log ++ talk ∧
      Installs s.progArrayFd efd fd (.slot (atoi event)) talk := by
  simp only [populateProgArray, get_bind, ask_bind] at h
  split at h
  · cases h
  · rename_i hneg
    obtain ⟨-, rfl⟩ := Prod.mk.inj (Except.ok.inj h)
    exact ⟨_, rfl, _, hneg, rfl⟩

lemma attachNumbered_other {event : List UInt8} (h : ¬ ∃ number, event = 47 :: number)
    (fd : Int32) : attachNumbered kernel event fd = pure 0 := by
  rw [attachNumbered.eq_def]
  split
  · exact absurd ⟨_, rfl⟩ h
  · rfl

lemma numberedHook_other {event : List UInt8} (h : ¬ ∃ number, event = 47 :: number) :
    numberedHook event = .nothing := by
  rw [numberedHook.eq_def]
  split
  · exact absurd ⟨_, rfl⟩ h
  · rfl

lemma attachNumbered_installs {event : List UInt8} {fd : Int32} {s t : Loader}
    (h : attachNumbered kernel event fd s = .ok (0, t)) (efd : Int32) :
    ∃ talk, t.log = s.log ++ talk ∧ Installs s.progArrayFd efd fd (numberedHook event) talk := by
  by_cases hslash : ∃ number, event = 47 :: number
  · obtain ⟨number, rfl⟩ := hslash
    cases number with
    | nil => cases h
    | cons b rest =>
      by_cases hdigit : isDigit b = true
      · simp only [attachNumbered, hdigit, ↓reduceIte] at h
        simp only [numberedHook, hdigit, ↓reduceIte]
        exact populateProgArray_installs h efd
      · rw [attachNumbered, if_neg hdigit] at h
        cases h
  · rw [attachNumbered_other hslash] at h
    obtain ⟨-, rfl⟩ := Prod.mk.inj (Except.ok.inj h)
    rw [numberedHook_other hslash]
    exact ⟨[], by simp, rfl⟩

lemma writeKprobeEvents_offers {val : List UInt8} (hval : val ≠ []) {s t : Loader} {r : Int32}
    (h : writeKprobeEvents kernel val s = .ok (r, t)) :
    ∃ a talk, t.log = s.log ++ talk ∧ Offers val a talk ∧ a.ret = r := by
  simp only [writeKprobeEvents, if_neg hval, ask_bind, pure_apply] at h
  obtain ⟨rfl, rfl⟩ := Prod.mk.inj (Except.ok.inj h)
  have hthree : ∀ (l : Log) a b c, l ++ [a] ++ [b] ++ [c] = l ++ [a, b, c] := by simp
  exact ⟨_, _, hthree _ _ _ _, ⟨_, _, rfl⟩, rfl⟩

lemma kprobeText_ne_nil (isKprobe : Bool) (start event : List UInt8) :
    kprobeText isKprobe start event ≠ [] := by
  cases isKprobe <;> simp [kprobeText, snprintf, ascii]

lemma registerKprobe_registers {isKprobe : Bool} {event start : List UInt8} {s t : Loader}
    (h : registerKprobe kernel isKprobe event s = .ok (some start, t)) :
    ∃ talk, t.log = s.log ++ talk ∧
      Registers (fun start => kprobeText isKprobe start event) event start talk := by
  obtain ⟨err, u, hsys, h⟩ := bind_eq_ok_iff.mp h
  rw [registerSyscall] at hsys
  cases hname : startsWith event (ascii "sys_") with
  | true =>
    rw [if_pos hname] at hsys
    obtain ⟨a, talk, hlog, htalk, rfl⟩ := writeKprobeEvents_offers (kprobeText_ne_nil _ _ _) hsys
    split at h
    · rename_i hneg
      obtain ⟨err', v, hplain, h⟩ := bind_eq_ok_iff.mp h
      obtain ⟨a', talk', hlog', htalk', rfl⟩ :=
        writeKprobeEvents_offers (kprobeText_ne_nil _ _ _) hplain
      split at h
      · cases h
      · rename_i hok
        obtain ⟨hstart, rfl⟩ := Prod.mk.inj (Except.ok.inj h)
        obtain rfl := Option.some.inj hstart
        exact ⟨_, by rw [hlog', hlog, List.append_assoc], .fallback hname htalk hneg htalk' hok⟩
    · rename_i hok
      obtain ⟨hstart, rfl⟩ := Prod.mk.inj (Except.ok.inj h)
      obtain rfl := Option.some.inj hstart
      exact ⟨_, hlog, .syscall hname htalk hok⟩
  | false =>
    rw [if_neg (by simp [hname])] at hsys
    obtain ⟨rfl, rfl⟩ := Prod.mk.inj (Except.ok.inj hsys)
    rw [if_pos (by decide)] at h
    obtain ⟨err', v, hplain, h⟩ := bind_eq_ok_iff.mp h
    obtain ⟨a, talk, hlog, htalk, rfl⟩ := writeKprobeEvents_offers (kprobeText_ne_nil _ _ _) hplain
    split at h
    · cases h
    · rename_i hok
      obtain ⟨hstart, rfl⟩ := Prod.mk.inj (Except.ok.inj h)
      obtain rfl := Option.some.inj hstart
      exact ⟨_, hlog, .plain hname htalk hok⟩

lemma perfAttach_ties {buf : List UInt8} {fd : Int32} {s t : Loader}
    (h : perfAttach kernel buf fd s = .ok (0, t)) :
    ∃ talk, t.log = s.log ++ talk ∧ Ties buf (t.eventFd (s.progCnt - 1)) fd talk := by
  rw [perfAttach] at h
  split at h
  · cases h
  simp only [ask_bind] at h
  split at h
  · cases h
  rename_i hfile
  simp only [ask_bind] at h
  split at h
  · cases h
  rename_i hnumber
  simp only [ask_bind] at h
  split at h
  · cases h
  rename_i hevent
  simp only [setEventFd_bind] at h
  split at h
  swap
  · cases h
  simp only [ask_bind] at h
  split at h
  · cases h
  rename_i hen
  simp only [ask_bind] at h
  split at h
  · cases h
  rename_i hset
  obtain ⟨-, rfl⟩ := Prod.mk.inj (Except.ok.inj h)
  have hsix : ∀ (l : Log) a b c d e f,
      l ++ [a] ++ [b] ++ [c] ++ [d] ++ [e] ++ [f] = l ++ [a, b, c, d, e, f] := by simp
  refine ⟨_, hsix _ _ _ _ _ _ _, ?_⟩
  simp only [Loader.asked, Loader.recordEvent, Function.update_self]
  refine ⟨_, _, _, _, _, _, rfl, rfl, ?_⟩
  simp only [List.forall_mem_cons]
  exact ⟨hfile, fun hneg => hnumber (Or.inl hneg), hevent, hen, hset, by simp⟩

lemma attachKprobe_installs {isKprobe : Bool} {event : List UInt8} {fd : Int32} {s t : Loader}
    (h : attachKprobe kernel isKprobe event fd s = .ok (0, t)) :
    ∃ talk, t.log = s.log ++ talk ∧
      Installs s.progArrayFd (t.eventFd (s.progCnt - 1)) fd (kprobeHook isKprobe event) talk := by
  cases event with
  | nil => cases h
  | cons b event =>
    rw [attachKprobe] at h
    rw [kprobeHook]
    split at h
    · rename_i hdigit
      rw [if_pos hdigit]
      exact populateProgArray_installs h _
    · rename_i hdigit
      rw [if_neg hdigit]
      obtain ⟨o, u, hreg, h⟩ := bind_eq_ok_iff.mp h
      have hu := (attachRules_attached kernel).respects_registerKprobe _ _ hreg
      cases o with
      | none => cases h
      | some start =>
        obtain ⟨reg, hreglog, hregisters⟩ := registerKprobe_registers hreg
        obtain ⟨tie, htielog, hties⟩ := perfAttach_ties h
        rw [hu.progCnt] at hties
        exact ⟨reg ++ tie, by rw [htielog, hreglog, List.append_assoc], start, reg, tie, rfl,
          hregisters, hties⟩

lemma attachTracepoint_installs {event : List UInt8} {fd : Int32} {s t : Loader}
    (h : attachTracepoint kernel event fd s = .ok (0, t)) :
    ∃ talk, t.log = s.log ++ talk ∧
      Installs s.progArrayFd (t.eventFd (s.progCnt - 1)) fd (tracepointHook event) talk := by
  cases event with
  | nil => cases h
  | cons b event => exact perfAttach_ties h

lemma attachRawTracepoint_installs {event : List UInt8} {fd : Int32} {s t : Loader}
    (h : attachRawTracepoint kernel event fd s = .ok (0, t)) :
    ∃ talk, t.log = s.log ++ talk ∧
      Installs s.progArrayFd (t.eventFd (s.progCnt - 1)) fd (.raw event) talk := by
  simp only [attachRawTracepoint, ask_bind] at h
  split at h
  · cases h
  · rename_i hneg
    simp only [setEventFd_bind] at h
    split at h
    · obtain ⟨-, rfl⟩ := Prod.mk.inj (Except.ok.inj h)
      exact ⟨_, rfl, _, hneg, by simp [Loader.asked, Loader.recordEvent], rfl⟩
    · cases h

/-- A program reported as attached is attached in the way its name asks for. -/
theorem attach_installs {k : Kind} {event : List UInt8} (hk : k.is event = true) {fd : Int32}
    {s t : Loader} (h : attach kernel event fd s = .ok (0, t)) :
    ∃ talk, t.log = s.log ++ talk ∧
      Installs s.progArrayFd (t.eventFd (s.progCnt - 1)) fd (k.hook event) talk := by
  rw [attach_eq hk] at h
  cases k with
  | xdp | perfEvent | cgroupSkb | cgroupSk =>
    obtain ⟨-, rfl⟩ := Prod.mk.inj (Except.ok.inj h)
    exact ⟨[], by simp, rfl⟩
  | socket | sockops => exact attachNumbered_installs h _
  | skSkb | skMsg =>
    rw [Kind.attach] at h
    split at h
    · cases h
    · exact attachNumbered_installs h _
  | rawTracepoint => exact attachRawTracepoint_installs h
  | kprobe | kretprobe => exact attachKprobe_installs h
  | tracepoint => exact attachTracepoint_installs h

end Attach

section Load

variable {kernel : Kernel}

/-- The state once a program is loaded and has its place in `prog_fd`. -/
def Loader.recordProg (s : Loader) (fd : Int32) : Loader :=
  { s with progFd := Function.update s.progFd s.progCnt fd, progCnt := s.progCnt + 1 }

@[simp] lemma addProgFd_bind {α : Type} (fd : Int32) (f : PUnit → Load α) (s : Loader) :
    (addProgFd fd >>= f) s =
      if s.progCnt < maxProgs then f ⟨⟩ (s.recordProg fd) else .error .progTable := by
  by_cases h : s.progCnt < maxProgs
  · have hadd : addProgFd fd s = .ok (⟨⟩, s.recordProg fd) := by
      simp [addProgFd, h, Loader.recordProg]
    rw [bind_of_ok hadd, if_pos h]
  · have hadd : addProgFd fd s = .error .progTable := by simp [addProgFd, h]
    rw [bind_of_error hadd, if_neg h]

/-- Everything `load_and_attach` can do. -/
theorem loadAndAttach_cases {event prog : List UInt8} {s t : Loader} {r : ℤ}
    (h : loadAndAttach kernel event prog s = .ok (r, t)) :
    (r = -1 ∧ t = s) ∨
    ∃ k : Kind, k.is event = true ∧
      let q := loadRequest s k.progType prog
      ((kernel s.log q).ret < 0 ∧ r = -1 ∧ t = s.asked kernel q) ∨
      (s.progCnt < maxProgs ∧ ¬ (kernel s.log q).ret < 0 ∧
        attach kernel event (kernel s.log q).ret
          ((s.asked kernel q).recordProg (kernel s.log q).ret) = .ok (r, t)) := by
  by_cases hk : ∃ k : Kind, k.is event = true
  · obtain ⟨k, hk⟩ := hk
    simp only [loadAndAttach, progType_of_is hk, get_bind] at h
    by_cases hfull : s.progCnt = maxProgs
    · rw [if_pos hfull] at h
      obtain ⟨rfl, rfl⟩ := Prod.mk.inj (Except.ok.inj h)
      exact Or.inl ⟨rfl, rfl⟩
    · rw [if_neg hfull] at h
      simp only [ask_bind] at h
      refine Or.inr ⟨k, hk, ?_⟩
      by_cases hneg : (kernel s.log (loadRequest s k.progType prog)).ret < 0
      · rw [if_pos hneg] at h
        obtain ⟨rfl, rfl⟩ := Prod.mk.inj (Except.ok.inj h)
        exact Or.inl ⟨hneg, rfl, rfl⟩
      · rw [if_neg hneg, addProgFd_bind] at h
        split at h
        · rename_i hroom
          exact Or.inr ⟨hroom, hneg, h⟩
        · cases h
  · have hnone : progType event = none := by
      rw [progType_eq_none_iff]
      intro k
      rw [← Bool.not_eq_true]
      exact fun h' => hk ⟨k, h'⟩
    simp only [loadAndAttach, hnone] at h
    obtain ⟨rfl, rfl⟩ := Prod.mk.inj (Except.ok.inj h)
    exact Or.inl ⟨rfl, rfl⟩

end Load

end FilterReduce.BpfLoad
