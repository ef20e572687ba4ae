import FilterReduce.ByteLayout
import FilterReduce.CircularBuffer
import FilterReduce.RunTrace

/-!
# `perfarray_kern.c` and `perfarray_user.c`

The probe writes a record with a cookie into the perf ring of processor 0. The program polls
the rings with `perf_buffer__poll` of `libbpf.c`, checks the cookie of each record and counts.
Kernel and program work on a ring at the same time: the program loads the head once, goes
through the records up to it one by one and stores the tail when it is done with them.
-/
namespace FilterReduce.PerfArray
open ByteLayout CircularBuffer RunTrace

def cookie : ℕ := 0x12345678

def maxCnt : ℕ := 100000

/-- `pb->mmap_size`, with pages of 4096 bytes -/
def mmapSize : ℕ := 8 * 4096

def perfRecordLost : ℕ := 2

def perfRecordSample : ℕ := 9

/-! ## The ring and the kernel -/

/-- What the kernel puts into a ring: the sample of a `bpf_perf_event_output`, padded to a
multiple of eight bytes, and the notice that it had to drop some. -/
inductive Record
  | sample (misc : UInt16) (pid : UInt64) (pad : UInt32)
  | lost (misc : UInt16) (id count : UInt64)

def header (type : ℕ) (misc : UInt16) (size : ℕ) : List UInt8 :=
  leBytes 4 type ++ leBytes 2 misc.toNat ++ leBytes 2 size

def Record.bytes : Record → List UInt8
  | .sample misc pid pad =>
    header perfRecordSample misc 32 ++ leBytes 4 20 ++
      (leBytes 8 pid.toNat ++ leBytes 8 cookie) ++ leBytes 4 pad.toNat
  | .lost misc id count =>
    header perfRecordLost misc 24 ++ leBytes 8 id.toNat ++ leBytes 8 count.toNat

def Record.isSample : Record → Bool
  | .sample .. => true
  | .lost .. => false

/-- The mapping of a ring: `data_head` and `data_tail` of its first page, and the pages behind
it. -/
structure Ring where
  data : ℕ → UInt8
  dataHead : ℕ
  dataTail : ℕ

/-- The kernel keeps one byte free, so that a full ring is not an empty one. -/
def Ring.hasSpace (r : Ring) (len : ℕ) : Bool := r.dataHead + len < r.dataTail + mmapSize

def Ring.output (r : Ring) (rec : Record) : Ring :=
  if r.hasSpace rec.bytes.length then
    { r with
      data := store mmapSize r.data r.dataHead rec.bytes
      dataHead := r.dataHead + rec.bytes.length }
  else r

/-! ## The program -/

inductive Output
  | bug (pid cookie size : ℕ)
  | rate
  deriving DecidableEq

inductive PerfEventRet
  | done
  | error
  | cont
  deriving DecidableEq

def PerfEventRet.value : PerfEventRet → ℤ
  | .done => 0
  | .error => -1
  | .cont => -2

inductive Stop
  /-- it reads outside of the ring or of a record -/
  | fault
  | noMemory
  deriving DecidableEq

structure CpuBuf where
  ring : Ring
  bufSize : ℕ

inductive Pc
  /-- in `epoll_wait`, called from the loop of `main` -/
  | main
  /-- in the loop over the `cnt` buffers that `epoll_wait` reported -/
  | events (rest : List ℕ) (cnt : ℕ)
  /-- in the loop of `bpf_perf_event_read_simple` -/
  | read (cpu dataHead dataTail : ℕ) (rest : List ℕ) (cnt : ℕ)
  | exit (ret : ℤ)
  | fault
  deriving DecidableEq

structure State where
  bufs : ℕ → CpuBuf
  cnt : ℕ
  out : List Output
  pc : Pc

def Ring.load (r : Ring) (off len : ℕ) : Except Stop (List UInt8) :=
  if off + len ≤ mmapSize then .ok ((List.range len).map fun i => r.data (off + i))
  else .error .fault

def peek (k off : ℕ) (e : List UInt8) : Except Stop ℕ :=
  if off + k ≤ e.length then .ok (field k off e) else .error .fault

def printBpfOutput (s : State) (data : List UInt8) (size : ℕ) : Except Stop State := do
  let found ← peek 8 8 data
  if found ≠ cookie then
    let pid ← peek 8 0 data
    return { s with out := s.out ++ [.bug pid found size] }
  else if s.cnt + 1 = maxCnt then return { s with cnt := s.cnt + 1, out := s.out ++ [.rate] }
  else return { s with cnt := s.cnt + 1 }

/-- `perf_buffer__process_record`, with `print_bpf_output` for samples and nothing for
notices. -/
def processRecord (s : State) (e : List UInt8) : Except Stop (PerfEventRet × State) := do
  let type ← peek 4 0 e
  if type = perfRecordSample then
    let size ← peek 4 8 e
    let s ← printBpfOutput s (e.drop 12) size
    return (.cont, s)
  else if type = perfRecordLost then return (.cont, s)
  else return (.error, s)

/-- The record at the tail, where it lies or, if it goes round the end of the ring, as it is
put together in the copy buffer; with the size of that buffer. -/
def CpuBuf.fetch (buf : CpuBuf) (dataTail : ℕ) (malloc : Bool) :
    Except Stop (List UInt8 × ℕ) := do
  let ehdr := dataTail &&& (mmapSize - 1)
  let ehdrSize := ofLeBytes (← buf.ring.load (ehdr + 6) 2)
  if mmapSize < ehdr + ehdrSize then
    let lenFirst := mmapSize - ehdr
    let lenSecnd := ehdrSize - lenFirst
    let bufSize ←
      if buf.bufSize < ehdrSize then
        if malloc then .ok ehdrSize else .error .noMemory
      else .ok buf.bufSize
    let first ← buf.ring.load ehdr lenFirst
    let second ← buf.ring.load 0 lenSecnd
    return (first ++ second, bufSize)
  else
    let e ← buf.ring.load ehdr ehdrSize
    return (e, buf.bufSize)

namespace State

def setBuf (s : State) (cpu : ℕ) (buf : CpuBuf) : State :=
  { s with bufs := Function.update s.bufs cpu buf }

def writeTail (s : State) (cpu dataTail bufSize : ℕ) : State :=
  s.setBuf cpu ⟨{ (s.bufs cpu).ring with dataTail := dataTail }, bufSize⟩

/-- `perf_buffer__poll` returns to the loop of `main`. -/
def returned (s : State) (ret : ℤ) : State :=
  { s with pc := if 0 ≤ ret ∧ s.cnt < maxCnt then .main else .exit ret }

/-- `bpf_perf_event_read_simple` returns through `perf_buffer__process_records`. -/
def processed (s : State) (ret : PerfEventRet) (rest : List ℕ) (cnt : ℕ) : State :=
  let err := if ret ≠ .cont then ret.value else 0
  if err ≠ 0 then s.returned err else { s with pc := .events rest cnt }

end State

def readRecord (s : State) (cpu dataHead dataTail : ℕ) (rest : List ℕ) (cnt : ℕ)
    (malloc : Bool) : State :=
  match (s.bufs cpu).fetch dataTail malloc with
  | .error .fault => { s with pc := .fault }
  | .error .noMemory => (s.writeTail cpu dataTail 0).processed .error rest cnt
  | .ok (e, bufSize) =>
    match processRecord s e with
    | .error _ => { s with pc := .fault }
    | .ok (ret, s) =>
      if ret ≠ .cont then
        (s.writeTail cpu (dataTail + e.length) bufSize).processed ret rest cnt
      else
        { s.setBuf cpu ⟨(s.bufs cpu).ring, bufSize⟩ with
          pc := .read cpu dataHead (dataTail + e.length) rest cnt }

def resume (s : State) (malloc : Bool) : State :=
  match s.pc with
  | .main | .exit _ | .fault => s
  | .events [] cnt => s.returned cnt
  | .events (cpu :: rest) cnt =>
    let ring := (s.bufs cpu).ring
    { s with pc := .read cpu ring.dataHead ring.dataTail rest cnt }
  | .read cpu dataHead dataTail rest cnt =>
    if dataHead ≠ dataTail then readRecord s cpu dataHead dataTail rest cnt malloc
    else (s.writeTail cpu dataTail (s.bufs cpu).bufSize).processed .cont rest cnt

/-! ## The system -/

inductive Event
  /-- a call of `copyout_bpf` on a processor -/
  | copyout (cpu : ℕ) (misc : UInt16) (pid : UInt64) (pad : UInt32)
  /-- the kernel reports what it dropped -/
  | lost (misc : UInt16) (id count : UInt64)
  /-- `epoll_wait` reports buffers, or fails -/
  | poll (ready : List ℕ)
  | pollError (errno : ℕ)
  | resume (malloc : Bool)

def State.output (s : State) (rec : Record) : State :=
  s.setBuf 0 { s.bufs 0 with ring := (s.bufs 0).ring.output rec }

/-- `bpf_prog1`. The flags name the ring of processor 0, which only that one may write. -/
def bpfProg1 (s : State) (cpu : ℕ) (misc : UInt16) (pid : UInt64) (pad : UInt32) : State :=
  if cpu = 0 then s.output (.sample misc pid pad) else s

def step (s : State) : Event → State
  | .copyout cpu misc pid pad => bpfProg1 s cpu misc pid pad
  | .lost misc id count => s.output (.lost misc id count)
  | .poll ready => if s.pc = .main then { s with pc := .events ready ready.length } else s
  | .pollError errno => if s.pc = .main then s.returned (-errno) else s
  | .resume malloc => resume s malloc

def start : State := ⟨fun _ => ⟨⟨fun _ => 0, 0, 0⟩, 0⟩, 0, [], .main⟩

/-- A call of the probe that finds the ring with space for its record. -/
def stored : State × Event → Bool
  | (s, .copyout cpu _ _ _) => cpu = 0 && (s.bufs 0).ring.hasSpace 32
  | _ => false

/-- One that does not, so that its record is lost. -/
def refused : State × Event → Bool
  | (s, .copyout cpu _ _ _) => cpu = 0 && !(s.bufs 0).ring.hasSpace 32
  | _ => false

lemma Record.length_bytes (rec : Record) :
    rec.bytes.length = if rec.isSample then 32 else 24 := by
  cases rec <;> simp [Record.bytes, Record.isSample, header, length_leBytes]

lemma field_header_type {type : ℕ} (h : type < 256 ^ 4) (misc : UInt16) (size : ℕ)
    (post : List UInt8) : field 4 0 (header type misc size ++ post) = type := by
  have hpre : ([] : List UInt8).length = 0 := rfl
  rw [header, List.append_assoc, List.append_assoc, ← List.nil_append (leBytes 4 type ++ _),
    field_leBytes hpre h]

lemma field_header_size {size : ℕ} (h : size < 256 ^ 2) (type : ℕ) (misc : UInt16)
    (post : List UInt8) : field 2 6 (header type misc size ++ post) = size := by
  have hpre : (leBytes 4 type ++ leBytes 2 misc.toNat).length = 6 := by simp [length_leBytes]
  rw [header, List.append_assoc, field_leBytes hpre h]

lemma Record.field_type (rec : Record) :
    field 4 0 rec.bytes = if rec.isSample then perfRecordSample else perfRecordLost := by
  cases rec with
  | sample misc pid pad =>
    rw [Record.bytes, List.append_assoc, List.append_assoc, field_header_type (by decide)]
    rfl
  | lost misc id count =>
    rw [Record.bytes, List.append_assoc, field_header_type (by decide)]
    rfl

lemma Record.field_size (rec : Record) : field 2 6 rec.bytes = rec.bytes.length := by
  rw [rec.length_bytes]
  cases rec with
  | sample misc pid pad =>
    rw [Record.bytes, List.append_assoc, List.append_assoc, field_header_size (by decide)]
    rfl
  | lost misc id count =>
    rw [Record.bytes, List.append_assoc, field_header_size (by decide)]
    rfl

lemma cookie_sample (misc : UInt16) (pid : UInt64) (pad : UInt32) :
    peek 8 8 ((Record.sample misc pid pad).bytes.drop 12) = .ok cookie := by
  have hdrop : (Record.sample misc pid pad).bytes.drop 12 =
      leBytes 8 pid.toNat ++ (leBytes 8 cookie ++ leBytes 4 pad.toNat) := by
    have hpre : (header perfRecordSample misc 32 ++ leBytes 4 20).length = 12 := by
      simp [header, length_leBytes]
    rw [Record.bytes, List.append_assoc, List.drop_left' hpre, List.append_assoc]
  rw [hdrop, peek, if_pos (by simp [length_leBytes]),
    field_leBytes (length_leBytes ..) (by decide)]

def reported (cnt : ℕ) : List Output := if maxCnt ≤ cnt then [.rate] else []

lemma reported_succ (cnt : ℕ) :
    reported (cnt + 1) = if cnt + 1 = maxCnt then reported cnt ++ [.rate] else reported cnt := by
  by_cases h : cnt + 1 = maxCnt
  · have hlt : ¬ maxCnt ≤ cnt := by omega
    simp [reported, h, hlt]
  · by_cases hle : maxCnt ≤ cnt
    · have hle' : maxCnt ≤ cnt + 1 := by omega
      simp [reported, h, hle, hle']
    · have hle' : ¬ maxCnt ≤ cnt + 1 := by omega
      simp [reported, h, hle, hle']

def State.counted (s : State) (rec : Record) : State :=
  let cnt := s.cnt + if rec.isSample then 1 else 0
  { s with cnt := cnt, out := reported cnt }

lemma processRecord_bytes {s : State} (h : s.out = reported s.cnt) (rec : Record) :
    processRecord s rec.bytes = .ok (.cont, s.counted rec) := by
  have htype : peek 4 0 rec.bytes =
      .ok (if rec.isSample then perfRecordSample else perfRecordLost) := by
    rw [peek, if_pos (by rw [rec.length_bytes]; split <;> omega), rec.field_type]
  cases rec with
  | sample misc pid pad =>
    have hsize : peek 4 8 (Record.sample misc pid pad).bytes =
        .ok (field 4 8 (Record.sample misc pid pad).bytes) :=
      if_pos (by rw [Record.length_bytes, Record.isSample]; decide)
    have hprint : printBpfOutput s ((Record.sample misc pid pad).bytes.drop 12)
        (field 4 8 (Record.sample misc pid pad).bytes) =
          .ok { s with cnt := s.cnt + 1, out := reported (s.cnt + 1) } := by
      rw [printBpfOutput, cookie_sample, reported_succ, ← h]
      by_cases hlast : s.cnt + 1 = maxCnt
      · simp [bind, Except.bind, hlast, pure, Except.pure]
      · simp [bind, Except.bind, hlast, pure, Except.pure]
    rw [processRecord, htype]
    simp only [bind, Except.bind, Record.isSample, if_true, hsize, hprint, pure, Except.pure]
    rfl
  | lost misc id count =>
    have hsame : s.counted (.lost misc id count) = s := by
      simp only [State.counted, Record.isSample, Bool.false_eq_true, if_false, Nat.add_zero, ← h]
    rw [processRecord, htype, hsame]
    rfl

/-! ## What a ring holds -/

def totalSize (rs : List Record) : ℕ := (rs.flatMap Record.bytes).length

@[simp] lemma totalSize_nil : totalSize [] = 0 := rfl

@[simp] lemma totalSize_cons (rec : Record) (rs : List Record) :
    totalSize (rec :: rs) = rec.bytes.length + totalSize rs := by
  simp [totalSize]

lemma totalSize_append (rs ts : List Record) :
    totalSize (rs ++ ts) = totalSize rs + totalSize ts := by
  simp [totalSize]

lemma Record.length_pos (rec : Record) : 0 < rec.bytes.length := by
  rw [rec.length_bytes]
  split <;> omega

/-- From position `p` on the ring holds the records `rs`, and what lies behind the tail is
not overwritten. -/
structure Ring.Holds (r : Ring) (p : ℕ) (rs : List Record) : Prop where
  behind : r.dataTail ≤ p
  ahead : r.dataHead = p + totalSize rs
  space : r.dataHead < r.dataTail + mmapSize
  aligned : 8 ∣ p
  bytes : window mmapSize r.data p (totalSize rs) = rs.flatMap Record.bytes

namespace Ring.Holds

variable {r : Ring} {p : ℕ} {rs : List Record}

lemma output (h : r.Holds p rs) (rec : Record) :
    (r.output rec).Holds p (if r.hasSpace rec.bytes.length then rs ++ [rec] else rs) := by
  rw [Ring.output]
  by_cases hspace : r.hasSpace rec.bytes.length = true
  · rw [if_pos hspace, if_pos hspace]
    have hlt : r.dataHead + rec.bytes.length < r.dataTail + mmapSize := of_decide_eq_true hspace
    have hbehind := h.behind
    have hahead := h.ahead
    have hsize : totalSize (rs ++ [rec]) = totalSize rs + rec.bytes.length := by
      simp [totalSize_append]
    refine ⟨h.behind, ?_, hlt, h.aligned, ?_⟩
    · rw [hsize, ← Nat.add_assoc, ← hahead]
    · rw [hsize, hahead, window_store (by omega), h.bytes, List.flatMap_append,
        List.flatMap_singleton]
  · rw [if_neg hspace, if_neg hspace]
    exact h

lemma release (h : r.Holds p rs) : ({ r with dataTail := p } : Ring).Holds p rs := by
  have := h.behind
  have := h.space
  exact ⟨le_rfl, h.ahead, by simp only; omega, h.aligned, h.bytes⟩

variable {rec : Record}

lemma next (h : r.Holds p (rec :: rs)) : r.Holds (p + rec.bytes.length) rs := by
  have hbytes := h.bytes
  rw [totalSize_cons, window_add, List.flatMap_cons] at hbytes
  refine ⟨h.behind.trans (Nat.le_add_right ..), ?_, h.space, ?_, ?_⟩
  · rw [h.ahead, totalSize_cons, Nat.add_assoc]
  · refine Nat.dvd_add h.aligned ?_
    rw [rec.length_bytes]
    split <;> decide
  · exact (List.append_inj hbytes (length_window ..)).2

lemma window_first (h : r.Holds p (rec :: rs)) :
    window mmapSize r.data (p % mmapSize) rec.bytes.length = rec.bytes := by
  have hbytes := h.bytes
  rw [totalSize_cons, window_add, List.flatMap_cons] at hbytes
  rw [window_congr (Nat.mod_mod p mmapSize)]
  exact (List.append_inj hbytes (length_window ..)).1

end Ring.Holds

lemma Ring.load_eq {off len : ℕ} (h : off + len ≤ mmapSize) (r : Ring) :
    r.load off len = .ok (window mmapSize r.data off len) := by
  rw [Ring.load, if_pos h, window_eq_map h]

lemma and_mask (p : ℕ) : p &&& (mmapSize - 1) = p % mmapSize :=
  Nat.and_two_pow_sub_one_eq_mod p 15

lemma header_inside {p : ℕ} (h : 8 ∣ p) : p % mmapSize + 8 ≤ mmapSize := by
  have haligned : 8 ∣ p % mmapSize := (Nat.dvd_mod_iff (by decide)).mpr h
  have hlt : p % mmapSize < mmapSize := Nat.mod_lt _ (by decide)
  generalize p % mmapSize = off at *
  rw [mmapSize] at *
  omega

/-- The program gets the first record as it was written, whether or not it goes round the end
of the ring, unless there is no memory to put it together. -/
lemma Ring.Holds.fetch {buf : CpuBuf} {p : ℕ} {rec : Record} {rs : List Record}
    (h : buf.ring.Holds p (rec :: rs)) (malloc : Bool) :
    (∃ bufSize, buf.fetch p malloc = .ok (rec.bytes, bufSize)) ∨
      malloc = false ∧ buf.fetch p malloc = .error .noMemory := by
  have hfirst := h.window_first
  have hhead := header_inside h.aligned
  have hlen : 8 ≤ rec.bytes.length ∧ rec.bytes.length ≤ mmapSize := by
    rw [rec.length_bytes, mmapSize]
    split <;> omega
  have hsize : ofLeBytes (window mmapSize buf.ring.data (p % mmapSize + 6) 2) =
      rec.bytes.length := by
    have hin : 6 + 2 ≤ rec.bytes.length := hlen.1
    rw [← take_drop_window _ hin, hfirst]
    exact rec.field_size
  rw [CpuBuf.fetch, and_mask]
  simp only [Ring.load_eq (by omega : p % mmapSize + 6 + 2 ≤ mmapSize), bind, Except.bind, hsize]
  by_cases hwrap : mmapSize < p % mmapSize + rec.bytes.length
  · have hjoin := window_wrap (by omega : p % mmapSize ≤ mmapSize) hwrap.le buf.ring.data
    have hfst := Ring.load_eq (by omega : p % mmapSize + (mmapSize - p % mmapSize) ≤ mmapSize)
      buf.ring
    have hsnd := Ring.load_eq
      (by omega : 0 + (rec.bytes.length - (mmapSize - p % mmapSize)) ≤ mmapSize) buf.ring
    simp only [hwrap, if_true, hfst, hsnd, ← hjoin, hfirst]
    by_cases hbuf : buf.bufSize < rec.bytes.length
    · cases malloc with
      | true => exact Or.inl ⟨rec.bytes.length, by simp [hbuf, pure, Except.pure]⟩
      | false => exact Or.inr ⟨rfl, by simp [hbuf]⟩
    · exact Or.inl ⟨buf.bufSize, by simp [hbuf, pure, Except.pure]⟩
  · simp only [hwrap, if_false, Ring.load_eq (not_lt.mp hwrap), hfirst]
    exact Or.inl ⟨_, rfl⟩

/-! ## The invariant -/

def State.position (s : State) : ℕ :=
  match s.pc with
  | .read cpu _ dataTail _ _ => if cpu = 0 then dataTail else (s.bufs 0).ring.dataTail
  | _ => (s.bufs 0).ring.dataTail

/-- The part of the records that the program has in sight, by the head that it loaded. -/
def State.InControl (s : State) (rs : List Record) : Prop :=
  match s.pc with
  | .main => s.cnt < maxCnt
  | .read cpu dataHead dataTail _ _ =>
    if cpu = 0 then ∃ seen, seen <+: rs ∧ dataHead = dataTail + totalSize seen
    else dataHead = dataTail ∧ dataTail = (s.bufs cpu).ring.dataTail
  | .fault => False
  | .events .. | .exit _ => True

/-- `rs` are the records that wait for the program, among `accepted` samples so far. -/
structure Inv (accepted : ℕ) (rs : List Record) (s : State) : Prop where
  holds : (s.bufs 0).ring.Holds s.position rs
  balance : s.cnt + rs.countP Record.isSample = accepted
  others : ∀ cpu, cpu ≠ 0 → (s.bufs cpu).ring.dataHead = (s.bufs cpu).ring.dataTail
  out : s.out = reported s.cnt
  control : s.InControl rs

variable {accepted : ℕ} {rs : List Record} {s : State}

@[simp] lemma Ring.dataTail_output (r : Ring) (rec : Record) :
    (r.output rec).dataTail = r.dataTail := by
  rw [Ring.output]
  split <;> rfl

@[simp] lemma setBuf_self (s : State) (cpu : ℕ) (buf : CpuBuf) :
    (s.setBuf cpu buf).bufs cpu = buf := Function.update_self ..

lemma setBuf_of_ne {cpu cpu' : ℕ} (h : cpu' ≠ cpu) (s : State) (buf : CpuBuf) :
    (s.setBuf cpu buf).bufs cpu' = s.bufs cpu' := Function.update_of_ne h ..

lemma State.InControl.mono {rs' : List Record} (h : s.InControl rs) (hrs : rs <+: rs')
    (buf : CpuBuf) : (s.setBuf 0 buf).InControl rs' := by
  rw [State.InControl] at h ⊢
  rw [show (s.setBuf 0 buf).pc = s.pc from rfl]
  cases hpc : s.pc with
  | read cpu dataHead dataTail rest cnt =>
    simp only [hpc] at h ⊢
    by_cases hcpu : cpu = 0
    · rw [if_pos hcpu] at h ⊢
      obtain ⟨seen, hseen, hhead⟩ := h
      exact ⟨seen, hseen.trans hrs, hhead⟩
    · rw [if_neg hcpu] at h ⊢
      rwa [setBuf_of_ne hcpu]
  | main => rwa [hpc] at h
  | fault => rwa [hpc] at h
  | _ => trivial

lemma Inv.output (h : Inv accepted rs s) (rec : Record) :
    ∃ rs', rs <+: rs' ∧
      Inv (accepted + if rec.isSample && (s.bufs 0).ring.hasSpace rec.bytes.length then 1 else 0)
        rs' (s.output rec) := by
  have hposition : (s.output rec).position = s.position := by
    simp only [State.position, State.output, State.setBuf, Function.update_self,
      Ring.dataTail_output]
  have hholds := h.holds.output rec
  have hothers : ∀ cpu, cpu ≠ 0 → (s.output rec).bufs cpu = s.bufs cpu := fun cpu hcpu =>
    setBuf_of_ne hcpu s _
  generalize hroom : (s.bufs 0).ring.hasSpace rec.bytes.length = room at hholds
  have hgrow : rs <+: if room then rs ++ [rec] else rs := by
    split
    · exact List.prefix_append _ _
    · exact List.prefix_rfl
  refine ⟨_, hgrow, ?_, ?_, fun cpu hcpu => ?_, h.out, h.control.mono hgrow _⟩
  · rw [hposition, State.output, setBuf_self]
    exact hholds
  · show s.cnt + _ = _
    rw [← h.balance]
    cases room <;> cases hrec : rec.isSample <;> simp [hrec, Nat.add_assoc]
  · rw [hothers cpu hcpu]
    exact h.others cpu hcpu

/-- Outside of the loop over the records the program may be anywhere, in the loop of `main`
below the limit only. -/
def Pc.Idle (cnt : ℕ) : Pc → Prop
  | .main => cnt < maxCnt
  | .events .. | .exit _ => True
  | .read .. | .fault => False

lemma idle_returned (s : State) (ret : ℤ) : (s.returned ret).pc.Idle (s.returned ret).cnt := by
  simp only [State.returned]
  split
  · next h => exact h.2
  · trivial

lemma position_idle (h : s.pc.Idle s.cnt) : s.position = (s.bufs 0).ring.dataTail := by
  rw [State.position]
  cases hpc : s.pc with
  | read cpu dataHead dataTail rest cnt => simp [hpc, Pc.Idle] at h
  | _ => rfl

lemma control_idle (h : s.pc.Idle s.cnt) : s.InControl rs := by
  rw [State.InControl]
  cases hpc : s.pc with
  | main => simpa [hpc, Pc.Idle] using h
  | read cpu dataHead dataTail rest cnt => simp [hpc, Pc.Idle] at h
  | fault => simp [hpc, Pc.Idle] at h
  | _ => trivial

lemma Inv.move {t : State} (h : Inv accepted rs s) (hs : s.pc.Idle s.cnt) (ht : t.pc.Idle t.cnt)
    (hbufs : t.bufs = s.bufs) (hcnt : t.cnt = s.cnt) (hout : t.out = s.out) :
    Inv accepted rs t := by
  refine ⟨?_, hcnt ▸ h.balance, hbufs ▸ h.others, ?_, control_idle ht⟩
  · rw [position_idle ht, hbufs, ← position_idle hs]
    exact h.holds
  · rw [hout, hcnt, h.out]

lemma Inv.leave {t : State} (h : Inv accepted rs s) (bufSize : ℕ) (ht : t.pc.Idle t.cnt)
    (hbufs : t.bufs = (s.writeTail 0 s.position bufSize).bufs) (hcnt : t.cnt = s.cnt)
    (hout : t.out = s.out) : Inv accepted rs t := by
  have hring : (t.bufs 0).ring = { (s.bufs 0).ring with dataTail := s.position } := by
    rw [hbufs, State.writeTail, setBuf_self]
  refine ⟨?_, hcnt ▸ h.balance, fun cpu hcpu => ?_, ?_, control_idle ht⟩
  · rw [position_idle ht, hring]
    exact h.holds.release
  · rw [hbufs, State.writeTail, setBuf_of_ne hcpu]
    exact h.others cpu hcpu
  · rw [hout, hcnt, h.out]

section Read

variable {head tail cnt : ℕ} {rest : List ℕ} {rec : Record} {seen : List Record}

/-- One round of the loop takes the first record, or finds no memory for it. -/
lemma Inv.read_next (h : Inv accepted (rec :: rs) s) (hpc : s.pc = .read 0 head tail rest cnt)
    (hseen : seen <+: rs) (hhead : head = tail + totalSize (rec :: seen)) (malloc : Bool) :
    (∃ t, resume s malloc = t ∧ Inv accepted rs t ∧
      t.pc = .read 0 head (tail + rec.bytes.length) rest cnt ∧
      t.cnt = s.cnt + if rec.isSample then 1 else 0) ∨
    malloc = false ∧ Inv accepted (rec :: rs) (resume s malloc) := by
  have hposition : s.position = tail := by rw [State.position, hpc]; rfl
  have hholds := h.holds
  rw [hposition] at hholds
  have hne : head ≠ tail := by
    have := rec.length_pos
    rw [hhead, totalSize_cons]
    omega
  have hround : resume s malloc = readRecord s 0 head tail rest cnt malloc := by
    simp only [resume, hpc]
    exact if_pos hne
  rw [hround, readRecord]
  rcases hholds.fetch malloc with ⟨bufSize, hfetch⟩ | ⟨hmalloc, hfetch⟩
  · simp only [hfetch, processRecord_bytes h.out, ne_eq, not_true_eq_false, if_false]
    refine Or.inl ⟨_, rfl, ⟨?_, ?_, fun cpu hcpu => ?_, rfl, ⟨seen, hseen, ?_⟩⟩, rfl, rfl⟩
    · rw [State.position]
      simp only [setBuf_self]
      exact hholds.next
    · have hbalance := h.balance
      rw [List.countP_cons] at hbalance
      show (s.cnt + if rec.isSample then 1 else 0) + _ = _
      omega
    · show ((State.setBuf _ 0 _).bufs cpu).ring.dataHead = _
      simp only [setBuf_of_ne hcpu]
      exact h.others cpu hcpu
    · rw [hhead, totalSize_cons, Nat.add_assoc]
  · simp only [hfetch]
    refine Or.inr ⟨hmalloc, h.leave 0 (idle_returned ..) ?_ rfl rfl⟩
    rw [hposition]
    rfl

lemma Inv.read_end (h : Inv accepted rs s) (hpc : s.pc = .read 0 head head rest cnt)
    (malloc : Bool) :
    Inv accepted rs (resume s malloc) ∧ (resume s malloc).pc = .events rest cnt ∧
      (resume s malloc).cnt = s.cnt := by
  have hposition : s.position = head := by rw [State.position, hpc]; rfl
  have hend : resume s malloc =
      (s.writeTail 0 head (s.bufs 0).bufSize).processed .cont rest cnt := by
    simp only [resume, hpc]
    exact if_neg (not_not.mpr rfl)
  rw [hend]
  refine ⟨h.leave (s.bufs 0).bufSize trivial ?_ rfl rfl, rfl, rfl⟩
  rw [hposition]
  rfl

lemma Inv.read_other {cpu : ℕ} (h : Inv accepted rs s)
    (hpc : s.pc = .read cpu head tail rest cnt) (hcpu : cpu ≠ 0) (malloc : Bool) :
    Inv accepted rs (resume s malloc) := by
  have hcontrol := h.control
  simp only [State.InControl, hpc, hcpu, if_false] at hcontrol
  obtain ⟨rfl, htail⟩ := hcontrol
  have hposition : s.position = (s.bufs 0).ring.dataTail := by
    simp only [State.position, hpc, hcpu, if_false]
  have hend : resume s malloc =
      (s.writeTail cpu head (s.bufs cpu).bufSize).processed .cont rest cnt := by
    simp only [resume, hpc]
    exact if_neg (not_not.mpr rfl)
  have hsame : s.writeTail cpu head (s.bufs cpu).bufSize = s := by
    rw [State.writeTail, htail]
    show s.setBuf cpu (s.bufs cpu) = s
    rw [State.setBuf, Function.update_eq_self]
  rw [hend, hsame]
  have hholds := h.holds
  rw [hposition] at hholds
  exact ⟨hholds, h.balance, h.others, h.out, trivial⟩

end Read

/-- The program loads the head and the tail of the next ring: of its own, what it then has in
sight is all there is. -/
lemma Inv.enter {cpu cnt : ℕ} {rest : List ℕ} (h : Inv accepted rs s)
    (hpc : s.pc = .events (cpu :: rest) cnt) (malloc : Bool) :
    Inv accepted rs (resume s malloc) ∧ (resume s malloc).cnt = s.cnt ∧
      (cpu = 0 → (resume s malloc).pc =
        .read 0 (s.position + totalSize rs) s.position rest cnt) := by
  have hposition : s.position = (s.bufs 0).ring.dataTail := position_idle (by rw [hpc]; trivial)
  have hentered : resume s malloc = { s with
      pc := .read cpu (s.bufs cpu).ring.dataHead (s.bufs cpu).ring.dataTail rest cnt } := by
    simp only [PerfArray.resume, hpc]
  rw [hentered]
  refine ⟨⟨?_, h.balance, h.others, h.out, ?_⟩, rfl, ?_⟩
  · have hsame : ∀ pc, pc = Pc.read cpu (s.bufs cpu).ring.dataHead (s.bufs cpu).ring.dataTail
        rest cnt → ({ s with pc := pc } : State).position = (s.bufs 0).ring.dataTail := by
      rintro pc rfl
      simp only [State.position]
      split
      · next hcpu => rw [hcpu]
      · rfl
    rw [hsame _ rfl, ← hposition]
    exact h.holds
  · simp only [State.InControl]
    split
    · next hcpu =>
      subst hcpu
      exact ⟨rs, List.prefix_rfl, by rw [h.holds.ahead, hposition]⟩
    · next hcpu => exact ⟨h.others cpu hcpu, trivial⟩
  · rintro rfl
    rw [h.holds.ahead, hposition]

lemma Inv.resume (h : Inv accepted rs s) (malloc : Bool) :
    ∃ rs', Inv accepted rs' (resume s malloc) := by
  cases hpc : s.pc with
  | main => exact ⟨rs, by simpa only [PerfArray.resume, hpc] using h⟩
  | exit ret => exact ⟨rs, by simpa only [PerfArray.resume, hpc] using h⟩
  | fault => exact ⟨rs, by simpa only [PerfArray.resume, hpc] using h⟩
  | events rest cnt =>
    have hidle : s.pc.Idle s.cnt := by rw [hpc]; trivial
    cases rest with
    | nil =>
      refine ⟨rs, ?_⟩
      simp only [PerfArray.resume, hpc]
      exact h.move hidle (idle_returned ..) rfl rfl rfl
    | cons cpu rest => exact ⟨rs, (h.enter hpc malloc).1⟩
  | read cpu head tail rest cnt =>
    by_cases hcpu : cpu = 0
    · subst hcpu
      have hcontrol := h.control
      simp only [State.InControl, hpc, if_true] at hcontrol
      obtain ⟨seen, ⟨ahead, rfl⟩, rfl⟩ := hcontrol
      cases seen with
      | nil => exact ⟨_, (h.read_end hpc malloc).1⟩
      | cons rec seen =>
        rcases h.read_next hpc (List.prefix_append ..) rfl malloc with
          ⟨t, ht, hnext, -⟩ | ⟨-, hstop⟩
        · exact ⟨_, ht ▸ hnext⟩
        · exact ⟨_, hstop⟩
    · exact ⟨rs, h.read_other hpc hcpu malloc⟩

/-! ## Runs -/

def Event.isResume : Event → Bool
  | .resume _ => true
  | _ => false

lemma Inv.below_limit (h : Inv accepted rs s) (hpc : s.pc = .main) : s.cnt < maxCnt := by
  have hcontrol := h.control
  rwa [State.InControl, hpc] at hcontrol

lemma Inv.idle_main (h : Inv accepted rs s) (hpc : s.pc = .main) : s.pc.Idle s.cnt := by
  rw [hpc]
  exact h.below_limit hpc

lemma Inv.step_other (h : Inv accepted rs s) {e : Event} (he : e.isResume = false) :
    ∃ rs', rs <+: rs' ∧ Inv (accepted + if stored (s, e) then 1 else 0) rs' (step s e) := by
  cases e with
  | copyout cpu misc pid pad =>
    by_cases hcpu : cpu = 0
    · simpa [step, bpfProg1, stored, hcpu, Record.isSample, Record.length_bytes] using
        h.output (.sample misc pid pad)
    · exact ⟨rs, List.prefix_rfl, by simpa [step, bpfProg1, stored, hcpu] using h⟩
  | lost misc id count =>
    simpa [step, stored, Record.isSample] using h.output (.lost misc id count)
  | poll ready =>
    refine ⟨rs, List.prefix_rfl, ?_⟩
    by_cases hpc : s.pc = .main
    · rw [step, if_pos hpc]
      exact h.move (h.idle_main hpc) trivial rfl rfl rfl
    · simpa [step, hpc, stored] using h
  | pollError errno =>
    refine ⟨rs, List.prefix_rfl, ?_⟩
    by_cases hpc : s.pc = .main
    · rw [step, if_pos hpc]
      exact h.move (h.idle_main hpc) (idle_returned ..) rfl rfl rfl
    · simpa [step, hpc, stored] using h
  | resume malloc => cases he

lemma Inv.step (h : Inv accepted rs s) (e : Event) :
    ∃ rs', Inv (accepted + if stored (s, e) then 1 else 0) rs' (step s e) := by
  cases he : e.isResume with
  | false =>
    obtain ⟨rs', -, h'⟩ := h.step_other he
    exact ⟨rs', h'⟩
  | true =>
    cases e with
    | resume malloc => exact h.resume malloc
    | _ => cases he

lemma Inv.run (h : Inv accepted rs s) (es : List Event) :
    ∃ rs', Inv (accepted + (visits PerfArray.step s es).countP stored) rs'
      (run PerfArray.step s es) := by
  induction es generalizing accepted rs s with
  | nil => exact ⟨rs, h⟩
  | cons e es ih =>
    obtain ⟨rs', h'⟩ := h.step e
    rw [run_cons, visits_cons, List.countP_cons, Nat.add_comm (List.countP ..), ← Nat.add_assoc]
    exact ih h'

/-- A record is counted while the next one arrives; the call on another processor writes none. -/
example :
    let t := run step start [.copyout 0 0 7 0, .copyout 1 0 7 0, .poll [0], .resume true,
      .resume true, .copyout 0 0 8 0, .resume true, .resume true]
    t.cnt = 1 ∧ t.pc = .main ∧ t.position = 32 ∧ (t.bufs 0).ring.dataHead = 64 := by
  decide +kernel

end FilterReduce.PerfArray
