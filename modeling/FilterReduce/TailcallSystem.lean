import FilterReduce.RunTrace
import FilterReduce.ReaditerRequest
import FilterReduce.UserMemory
import FilterReduce.TailcallKern
import FilterReduce.CopyoutSystem

/-!
# Runs of the tail-calling probe

`bpf_prog7` stands on `copyout_bpf` and jumps into slot `AVG_FUNC` of `jmp_table`. The
loader fills the table when the probe is in place already, so a call may still find the
slot empty. No program of the table overrides the return: the kernel's own copy comes
after the probe in every call.
-/
namespace FilterReduce.TailcallSystem
open CString Helpers Reduction CopyoutProbe CopyoutProbe.Machine UserMemory Records RunTrace
open ReaditerRequest (requestMean requestMean_lt)
open TailcallKern
open CopyoutSystem (Pid)

def avgFunc : ℕ := 1

def maxFunc : ℕ := 2

def minFunc : ℕ := 3

def bpfFuncMax : Program := fun _ m => (0, m)

def bpfFuncMin : Program := fun _ m => (0, m)

inductive Func
  | avg
  | max
  | min
  deriving DecidableEq

def Func.program (userbuff : Buf 9) (curr : Buf 3) : Func → Program
  | .avg => bpfFuncAvg userbuff curr
  | .max => bpfFuncMax
  | .min => bpfFuncMin

abbrev JmpTable := ArrayMap (Option Func) 8

/-- `bpf_tail_call`: the program in the slot takes over; with no program there, the caller
goes on. -/
def bpfTailCall (table : JmpTable) (index : ℕ) (userbuff : Buf 9) (curr : Buf 3)
    (rest : Program) : Program :=
  match (table.lookup index).join with
  | some f => f.program userbuff curr
  | none => rest

def bpfProg7 (table : JmpTable) (userbuff : Buf 9) (curr : Buf 3) : Program :=
  bpfTailCall table avgFunc userbuff curr fun _ m => (0, m)

structure System where
  myReadMap : ArrayMap UInt64 1
  resultMap : ArrayMap UInt64 1
  jmpTable : JmpTable
  user : Pid → UserMem
  /-- What the calls returned so far. -/
  returned : List UInt64

/-- A call of `copyout_bpf`, with the uninitialised stack of the program it ends up in. -/
structure Call where
  pid : Pid
  ctx : PtRegs
  userbuff : Buf 9
  curr : Buf 3

inductive Event
  /-- `populate_prog_array` -/
  | fill (index : ℕ) (f : Func)
  /-- `bpf_map_update_elem(map_fd[0], &key, &buf, BPF_ANY)` -/
  | register (pid : Pid) (buf : UInt64)
  | call (c : Call)

namespace System

def machine (s : System) (pid : Pid) : Machine := ⟨s.myReadMap, s.resultMap, s.user pid, none⟩

def registered (s : System) : UInt64 := s.myReadMap.first

def result (s : System) : UInt64 := s.resultMap.first

def slot (s : System) (index : ℕ) : Option Func := (s.jmpTable.lookup index).join

def fired (s : System) (c : Call) : ℤ × Machine :=
  bpfProg7 s.jmpTable c.userbuff c.curr c.ctx (s.machine c.pid)

end System

def step (copyout : Copyout) (s : System) : Event → System
  | .fill index f => { s with jmpTable := (s.jmpTable.update index (some f)).2 }
  | .register _ buf => { s with myReadMap := (s.myReadMap.update 0 buf).2 }
  | .call c =>
    let out := copyoutBpf (bpfProg7 s.jmpTable c.userbuff c.curr) copyout c.ctx (s.machine c.pid)
    { s with
      myReadMap := out.2.myReadMap
      resultMap := out.2.resultMap
      user := Function.update s.user c.pid out.2.user
      returned := s.returned ++ [out.1] }

section Step

/-- Two memories that are mapped alike and differ in the first `n` bytes from `dst` on at most,
as far as these are mapped without a gap. -/
structure SameButStart (dst : UInt64) (n : ℕ) (mem mem' : UserMem) : Prop where
  mapping : ∀ a, (mem' a).isSome = (mem a).isSome
  frame : ∀ a, mem' a ≠ mem a → (a - dst).toNat < reach (mapped mem dst) n

lemma SameButStart.refl (dst : UInt64) (n : ℕ) (mem : UserMem) : SameButStart dst n mem mem :=
  ⟨fun _ => rfl, fun _ h => absurd rfl h⟩

lemma sameButStart_write (mem : UserMem) (dst : UInt64) {bytes : List UInt8}
    (hlen : bytes.length ≤ 2 ^ 64) :
    SameButStart dst bytes.length mem (bpfProbeWriteUser mem dst bytes).2 := by
  rw [bpfProbeWriteUser_eq mem dst hlen]
  have hstored : ∀ a b, (bytes.take (reach (mapped mem dst) bytes.length))[(a - dst).toNat]? =
      some b → (a - dst).toNat < reach (mapped mem dst) bytes.length := by
    intro a b hb
    exact (List.getElem?_eq_some_iff.mp hb).1.trans_le (List.length_take_le _ _)
  refine ⟨fun a => ?_, fun a hne => ?_⟩
  · rw [poke]
    cases hb : (bytes.take (reach (mapped mem dst) bytes.length))[(a - dst).toNat]? with
    | none => rfl
    | some b =>
      have hmapped := (lt_reach_iff.mp (hstored a b hb)).2 _ le_rfl
      rw [mapped, UserMem.src, UInt64.ofNat_toNat, UInt64.add_comm, UInt64.sub_add_cancel]
        at hmapped
      rw [Option.some_or, hmapped]
      rfl
  · rw [poke] at hne
    cases hb : (bytes.take (reach (mapped mem dst) bytes.length))[(a - dst).toNat]? with
    | none => exact absurd (by rw [hb, Option.none_or]) hne
    | some b => exact hstored a b hb

structure Fired (s : System) (c : Call) (m : Machine) : Prop where
  myReadMap : m.myReadMap = s.myReadMap
  override : m.override = none
  user : SameButStart c.ctx.toPtr mystring.length (s.user c.pid) m.user

lemma fired_avg {s : System} {c : Call} (h : s.slot avgFunc = some .avg) :
    s.fired c = bpfFuncAvg c.userbuff c.curr c.ctx (s.machine c.pid) := by
  rw [System.fired, bpfProg7, bpfTailCall, show (s.jmpTable.lookup avgFunc).join = _ from h]
  rfl

lemma fired_idle {s : System} {c : Call}
    (h : s.slot avgFunc ≠ some .avg ∨ c.ctx.toPtr ≠ s.registered) :
    s.fired c = (0, s.machine c.pid) := by
  by_cases havg : s.slot avgFunc = some .avg
  · rw [fired_avg havg]
    exact bpfFuncAvg_unmatched _ _ (h.resolve_left (not_not.mpr havg))
  · rw [System.fired, bpfProg7, bpfTailCall]
    rw [System.slot] at havg
    cases hslot : (s.jmpTable.lookup avgFunc).join with
    | none => rfl
    | some f => cases f <;> first | rfl | exact absurd hslot havg

lemma fired_matched {s : System} {c : Call} (hslot : s.slot avgFunc = some .avg)
    (hto : c.ctx.toPtr = s.registered) :
    s.fired c = (s.machine c.pid).settle (·.writeUser c.ctx.toPtr mystring)
      (stagedMean c.userbuff c.ctx.fromPtr) := by
  rw [fired_avg hslot]
  exact bpfFuncAvg_matched _ _ hto

lemma fired_fired (s : System) (c : Call) : Fired s c (s.fired c).2 := by
  by_cases h : s.slot avgFunc ≠ some .avg ∨ c.ctx.toPtr ≠ s.registered
  · rw [fired_idle h]
    exact ⟨rfl, rfl, SameButStart.refl _ _ _⟩
  · push Not at h
    rw [fired_matched h.1 h.2]
    cases stagedMean c.userbuff c.ctx.fromPtr with
    | none => exact ⟨rfl, rfl, SameButStart.refl _ _ _⟩
    | some avg => exact ⟨rfl, rfl, sameButStart_write _ _ (by decide)⟩

/-- The kernel's copy always runs, on what the probe left of the memory. -/
lemma step_call (copyout : Copyout) (s : System) (c : Call) :
    step copyout s (.call c) =
      { s with
        resultMap := (s.fired c).2.resultMap
        user := Function.update s.user c.pid (copyout c.ctx (s.fired c).2.user).2
        returned := s.returned ++ [(copyout c.ctx (s.fired c).2.user).1] } := by
  have hover : (bpfProg7 s.jmpTable c.userbuff c.curr c.ctx
      { s.machine c.pid with override := none }).2.override = none := (fired_fired s c).override
  rw [step, copyoutBpf]
  simp only [hover]
  rw [show s.myReadMap = _ from (fired_fired s c).myReadMap.symm]
  rfl

end Step

section Transparent

/-- What the processes see of a system: their memory and what their calls returned. -/
structure View where
  user : Pid → UserMem
  returned : List UInt64

def System.view (s : System) : View := ⟨s.user, s.returned⟩

/-- The same kernel with no probe on `copyout_bpf`. -/
def plainStep (copyout : Copyout) (v : View) : Event → View
  | .fill _ _ => v
  | .register _ _ => v
  | .call c =>
    { user := Function.update v.user c.pid (copyout c.ctx (v.user c.pid)).2
      returned := v.returned ++ [(copyout c.ctx (v.user c.pid)).1] }

/-- The copy does not depend on what the first `n` bytes of the destination were, among memories
that are mapped alike. -/
def Covers (copyout : Copyout) (ctx : PtRegs) (n : ℕ) : Prop :=
  ∀ mem mem' : UserMem, SameButStart ctx.toPtr n mem mem' → copyout ctx mem' = copyout ctx mem

/-- A copy that goes as far as the destination is mapped, and what it leaves. -/
def copyUpTo : Copyout := fun ctx mem =>
  let bytes := ctx.fromPtr.bytes ctx.blen.toNat
  let count := reach (mapped mem ctx.toPtr) bytes.length
  (ctx.blen - UInt64.ofNat count, poke mem ctx.toPtr (bytes.take count))

lemma covers_copyUpTo {ctx : PtRegs} {n : ℕ}
    (hlen : n ≤ (ctx.fromPtr.bytes ctx.blen.toNat).length) : Covers copyUpTo ctx n := by
  intro mem mem' h
  have hmapped : mapped mem' ctx.toPtr = mapped mem ctx.toPtr := funext fun p => h.mapping _
  simp only [copyUpTo, hmapped, Prod.mk.injEq, true_and]
  generalize ctx.fromPtr.bytes ctx.blen.toNat = bytes at hlen
  funext a
  rw [poke, poke]
  by_cases hne : mem' a = mem a
  · rw [hne]
  · -- a byte that differs is among those that the copy stores
    obtain ⟨hlt, hall⟩ := lt_reach_iff.mp (h.frame a hne)
    have hin : (a - ctx.toPtr).toNat < reach (mapped mem ctx.toPtr) bytes.length :=
      lt_reach_iff.mpr ⟨hlt.trans_le hlen, hall⟩
    rw [List.getElem?_take_of_lt hin, List.getElem?_eq_getElem (hlt.trans_le hlen), Option.some_or,
      Option.some_or]

def Event.Covered (copyout : Copyout) : Event → Prop
  | .call c => Covers copyout c.ctx mystring.length
  | _ => True

lemma step_view (copyout : Copyout) (s : System) {e : Event} (he : e.Covered copyout) :
    (step copyout s e).view = plainStep copyout s.view e := by
  cases e with
  | fill index f => rfl
  | register pid buf => rfl
  | call c =>
    have hcopy : copyout c.ctx (s.fired c).2.user = copyout c.ctx (s.user c.pid) :=
      he _ _ (fired_fired s c).user
    rw [step_call, hcopy]
    rfl

/-- The probe cannot be noticed: over every run, with the table in any state and with any
buffer registered, memory and return values are those of a kernel without it, provided that
each copy overwrites the three bytes that the probe may have written. -/
theorem probe_transparent (copyout : Copyout) (s : System) (es : List Event)
    (hes : ∀ e ∈ es, e.Covered copyout) :
    (run (step copyout) s es).view = run (plainStep copyout) s.view es := by
  refine run_simulates (step copyout) (R := fun s v => s.view = v) ?_ rfl hes
  rintro s _ e he rfl
  exact step_view copyout s he

/-- Two processes; of the buffer of the second only two bytes are mapped. -/
theorem probe_transparent_sample :
    let c : Pid → Call := fun pid => ⟨pid, ⟨4096, samplePage, 9⟩, Buf.zeros 9, Buf.zeros 3⟩
    let s : System := ⟨ArrayMap.fill 0, ArrayMap.fill 0, ArrayMap.fill none,
      fun pid a => if pid = 2 ∧ a = 4098 then none else some 0, []⟩
    let es : List Event :=
      [.register 1 4096, .call (c 1), .fill avgFunc .avg, .call (c 1), .call (c 2)]
    (run (step copyUpTo) s es).view = run (plainStep copyUpTo) s.view es := by
  intro c s es
  have hlen : mystring.length ≤ (samplePage.bytes 9).length := by decide
  have hc : ∀ pid, (Event.call (c pid)).Covered copyUpTo := fun pid => covers_copyUpTo hlen
  refine probe_transparent copyUpTo s es ?_
  simp only [es, List.forall_mem_cons]
  exact ⟨trivial, hc 1, trivial, hc 1, hc 2, by simp⟩

end Transparent

section Mean

/-- A source that starts with `n` records of two digits and a separator. -/
def HasRecords (src : Src) (n : ℕ) : Prop := ∀ k < n, IsRecord src k

instance (src : Src) (n : ℕ) : Decidable (HasRecords src n) :=
  inferInstanceAs (Decidable (∀ k < n, IsRecord src k))

lemma HasRecords.byte {src : Src} {n p : ℕ} (h : HasRecords src n) (hp : p < 3 * n) :
    ∃ b, src p = some b ∧ b ≠ 0 := by
  obtain ⟨⟨t, ht, htd⟩, ⟨u, hu, hud⟩, ⟨b, hb, hsep⟩⟩ := h (p / 3) (by omega)
  have hmod : p = 3 * (p / 3) ∨ p = 3 * (p / 3) + 1 ∨ p = 3 * (p / 3) + 2 := by omega
  have hdigit : ∀ d : UInt8, isDigit d = true → d ≠ 0 := by
    rintro d hd rfl
    exact absurd hd (by decide)
  rcases hmod with h0 | h1 | h2
  · exact ⟨t, h0 ▸ ht, hdigit t htd⟩
  · exact ⟨u, h1 ▸ hu, hdigit u hud⟩
  · refine ⟨b, h2 ▸ hb, ?_⟩
    rintro rfl
    exact absurd hsep (by decide)

lemma stagedValue_record (userbuff : Buf 9) {src : Src} (h : HasRecords src 3) {k : ℕ}
    (hk : k < 3) : stagedValue userbuff src k = some (recordNumber src k) := by
  have hfull : ∀ p < 8, ∃ b, src p = some b ∧ b ≠ 0 := fun p hp => h.byte (by omega)
  obtain ⟨s, hs, hlen⟩ := str_full hfull
  obtain ⟨⟨t, ht, htd⟩, ⟨u, hu, hud⟩, -⟩ := h k hk
  have hbytes : (src.shift (3 * k)).bytes 2 = (s.drop (3 * k)).take 2 := by
    refine bytes_eq_take fun p hp => ?_
    rw [shift_apply, List.getElem?_drop]
    exact (str_eq_some_iff.mp hs).2.1 _ (by omega)
  rw [stagedValue_eq userbuff src hk, hs]
  simp only [if_pos (show 3 * k ≤ s.length by omega)]
  rw [← hbytes, bytes_two (b := t) (c := u) ht hu, fieldValue_two_digits htd hud rfl]
  simp [recordNumber, tens, units, ht, hu]

lemma stagedMean_records (userbuff : Buf 9) {src : Src} (h : HasRecords src 3) :
    stagedMean userbuff src = some (requestMean src 3) := by
  rw [stagedMean, requestMean, reduction_of_eq_some fun k hk => stagedValue_record userbuff h
    (Finset.mem_range.mp hk), Finset.card_range]

/-- What the rest of the system may do while a process reads: other processes copy to other
addresses, and slot `AVG_FUNC` is left alone. -/
def Event.Other (pid : Pid) (buf : UInt64) : Event → Prop
  | .fill index _ => index ≠ avgFunc
  | .register _ _ => False
  | .call c => c.pid ≠ pid ∧ c.ctx.toPtr ≠ buf

structure Armed (buf : UInt64) (s : System) : Prop where
  slot : s.slot avgFunc = some .avg
  registered : s.registered = buf

/-- Where the destination is mapped and the source readable, the bytes arrive. -/
def Delivers (copyout : Copyout) : Prop :=
  ∀ (ctx : PtRegs) (mem : UserMem), Mapped mem ctx.toPtr ctx.blen.toNat →
    (∀ p < ctx.blen.toNat, (ctx.fromPtr p).isSome) →
    ∀ p < ctx.blen.toNat, ((copyout ctx mem).2).src ctx.toPtr p = ctx.fromPtr p

lemma bytes_eq_map {src : Src} {n : ℕ} (h : ∀ p < n, (src p).isSome) :
    src.bytes n = (List.range n).map fun p => (src p).getD 0 := by
  have hlist : ∀ p < n, src p = ((List.range n).map fun q => (src q).getD 0)[p]? := by
    intro p hp
    obtain ⟨b, hb⟩ := Option.isSome_iff_exists.mp (h p hp)
    simp [hp, hb]
  rw [bytes_eq_take hlist, List.take_of_length_le (by simp)]

lemma delivers_copyUpTo : Delivers copyUpTo := by
  intro ctx mem hmapped hsrc p hp
  obtain ⟨b, hb⟩ := Option.isSome_iff_exists.mp (hsrc p hp)
  have hreach : reach (mapped mem ctx.toPtr) ctx.blen.toNat = ctx.blen.toNat := reach_eq hmapped
  simp only [copyUpTo, bytes_eq_map hsrc, List.length_map, List.length_range, hreach]
  rw [src_poke _ _ _ (hp.trans ctx.blen.toNat_lt), List.getElem?_take_of_lt hp]
  simp [hp, hb]

variable (copyout : Copyout)

lemma slot_fill {s : System} {index : ℕ} {f : Func} (h : index ≠ avgFunc) :
    (step copyout s (.fill index f)).slot avgFunc = s.slot avgFunc := by
  rw [System.slot, step, ArrayMap.lookup_update_of_ne _ h]
  rfl

lemma slot_fill_own (s : System) (f : Func) :
    (step copyout s (.fill avgFunc f)).slot avgFunc = some f := by
  rw [System.slot, step, ArrayMap.lookup_update_self _ (by decide)]
  rfl

lemma slot_step {pid : Pid} {buf : UInt64} {s : System} {e : Event}
    (he : e.Other pid buf) : (step copyout s e).slot avgFunc = s.slot avgFunc := by
  cases e with
  | fill index f => exact slot_fill copyout he
  | register pid buf => rfl
  | call c => rfl

lemma user_step {pid : Pid} {buf : UInt64} {s : System} {e : Event}
    (he : e.Other pid buf) : (step copyout s e).user pid = s.user pid := by
  cases e with
  | fill index f => rfl
  | register pid buf => rfl
  | call c =>
    rw [step_call]
    exact Function.update_of_ne he.1.symm _ _

lemma Armed.after_step {pid : Pid} {buf : UInt64} {s : System} {e : Event}
    (he : e.Other pid buf) (h : Armed buf s) :
    Armed buf (step copyout s e) ∧ (step copyout s e).result = s.result := by
  have hslot := (slot_step copyout he).trans h.slot
  cases e with
  | fill index f => exact ⟨⟨hslot, h.registered⟩, rfl⟩
  | register pid buf => exact he.elim
  | call c =>
    have hto : c.ctx.toPtr ≠ s.registered := h.registered ▸ he.2
    rw [step_call, fired_idle (Or.inr hto)]
    exact ⟨⟨h.slot, h.registered⟩, rfl⟩

lemma Armed.after_run {pid : Pid} {buf : UInt64} {s : System} {es : List Event}
    (hes : ∀ e ∈ es, e.Other pid buf) (h : Armed buf s) :
    Armed buf (run (step copyout) s es) ∧ (run (step copyout) s es).result = s.result := by
  refine run_invariant_of (step copyout) (P := fun t => Armed buf t ∧ t.result = s.result) ?_
    ⟨h, rfl⟩ hes
  rintro t e he ⟨ht, hresult⟩
  obtain ⟨ht', hresult'⟩ := ht.after_step copyout he
  exact ⟨ht', hresult'.trans hresult⟩

lemma user_run {pid : Pid} {buf : UInt64} (s : System) {es : List Event}
    (hes : ∀ e ∈ es, e.Other pid buf) : (run (step copyout) s es).user pid = s.user pid :=
  run_invariant_of (step copyout) (P := fun t => t.user pid = s.user pid)
    (fun _ _ he ht => (user_step copyout he).trans ht) rfl hes

lemma slot_run {pid : Pid} {buf : UInt64} (s : System) {es : List Event}
    (hes : ∀ e ∈ es, e.Other pid buf) :
    (run (step copyout) s es).slot avgFunc = s.slot avgFunc :=
  run_invariant_of (step copyout) (P := fun t => t.slot avgFunc = s.slot avgFunc)
    (fun _ _ he ht => (slot_step copyout he).trans ht) rfl hes

lemma Armed.own_call {c : Call} {s : System} (h : Armed c.ctx.toPtr s)
    (hrec : HasRecords c.ctx.fromPtr 3) :
    Armed c.ctx.toPtr (step copyout s (.call c)) ∧
      (step copyout s (.call c)).result = UInt64.ofNat (requestMean c.ctx.fromPtr 3) := by
  rw [step_call, fired_matched h.slot h.registered.symm, stagedMean_records _ hrec, settle_some]
  exact ⟨⟨h.slot, h.registered⟩, result_publish (s.machine c.pid) _⟩

lemma Delivers.own_call {copyout : Copyout} (hcopy : Delivers copyout) {s : System} {c : Call}
    (hmapped : Mapped (s.user c.pid) c.ctx.toPtr c.ctx.blen.toNat)
    (hsrc : ∀ p < c.ctx.blen.toNat, (c.ctx.fromPtr p).isSome) {p : ℕ}
    (hp : p < c.ctx.blen.toNat) :
    ((step copyout s (.call c)).user c.pid).src c.ctx.toPtr p = c.ctx.fromPtr p := by
  rw [step_call]
  simp only [Function.update_self]
  refine hcopy c.ctx _ (fun q hq => ?_) hsrc p hp
  rw [UserMem.src, (fired_fired s c).user.mapping]
  exact hmapped q hq

/-- What `tailcall_user` does: the loader fills the slots in the order of the sections, `main`
registers its buffer and reads into it. -/
def mainEvents (c : Call) : List Event :=
  [.fill avgFunc .avg, .fill minFunc .min, .fill maxFunc .max, .register c.pid c.ctx.toPtr,
    .call c]

/-- The reader of three records finds their mean in the result map and, in its buffer, the bytes
of the file. This holds whatever the table and the maps held at first, whatever the others do
in between, and whatever the program finds on its stack. -/
theorem reader_gets_mean_and_bytes (hcopy : Delivers copyout) (s : System) (c : Call)
    (es : List Event) (hrec : HasRecords c.ctx.fromPtr 3) (hlen : c.ctx.blen = 9)
    (hmapped : Mapped (s.user c.pid) c.ctx.toPtr 9)
    (hes : Interleaved (Event.Other c.pid c.ctx.toPtr) (mainEvents c) es) :
    (run (step copyout) s es).result.toNat = requestMean c.ctx.fromPtr 3 ∧
      ∀ p < 9, ((run (step copyout) s es).user c.pid).src c.ctx.toPtr p = c.ctx.fromPtr p := by
  have hmin : (Event.fill minFunc .min).Other c.pid c.ctx.toPtr := (by decide : minFunc ≠ avgFunc)
  have hmax : (Event.fill maxFunc .max).Other c.pid c.ctx.toPtr := (by decide : maxFunc ≠ avgFunc)
  obtain ⟨gap₁, rest, rfl, hgap₁, hes⟩ := hes.split
  -- the other two slots do not matter, whoever fills them
  obtain ⟨gap₂, rest, rfl, hgap₂, hes⟩ := ((hes.absorb hmin).absorb hmax).split
  obtain ⟨gap₃, gap₄, rfl, hgap₃, hes⟩ := hes.split
  have hgap₄ := hes.of_nil
  simp only [run_append, run_cons]
  set s₁ := run (step copyout) s gap₁ with hs₁
  set s₂ := run (step copyout) (step copyout s₁ (.fill avgFunc .avg)) gap₂ with hs₂
  have hslot : s₂.slot avgFunc = some .avg := by
    rw [hs₂, slot_run copyout _ hgap₂, slot_fill_own]
  have harmed : Armed c.ctx.toPtr (step copyout s₂ (.register c.pid c.ctx.toPtr)) :=
    ⟨hslot, ArrayMap.update_zero_first _ _⟩
  obtain ⟨hready, -⟩ := harmed.after_run copyout hgap₃
  have huser : (run (step copyout) (step copyout s₂ (.register c.pid c.ctx.toPtr)) gap₃).user
      c.pid = s.user c.pid := by
    rw [user_run copyout _ hgap₃]
    show s₂.user c.pid = _
    rw [hs₂, user_run copyout _ hgap₂]
    exact user_run copyout s hgap₁
  generalize run (step copyout) (step copyout s₂ (.register c.pid c.ctx.toPtr)) gap₃ = t
    at hready huser ⊢
  obtain ⟨hafter, hmean⟩ := hready.own_call copyout hrec
  have hblen : c.ctx.blen.toNat = 9 := by rw [hlen]; rfl
  constructor
  · rw [(hafter.after_run copyout hgap₄).2, hmean,
      UInt64.toNat_ofNat_of_lt' (requestMean_lt _ (by norm_num) hrec)]
  · intro p hp
    rw [user_run copyout _ hgap₄]
    refine hcopy.own_call (by rw [huser, hblen]; exact hmapped) (fun q hq => ?_) (by omega)
    obtain ⟨b, hb, -⟩ := hrec.byte (p := q) (by omega)
    simp [hb]

/-- The sample file `f` starts with `01 02 03`; another process reads in between. -/
theorem reader_gets_mean_and_bytes_sample :
    let c : Call := ⟨1, ⟨4096, samplePage, 9⟩, Buf.zeros 9, Buf.zeros 3⟩
    let other : Call := ⟨2, ⟨8192, samplePage, 9⟩, Buf.zeros 9, Buf.zeros 3⟩
    let s : System :=
      ⟨ArrayMap.fill 0, ArrayMap.fill 0, ArrayMap.fill none, fun _ _ => some 0, []⟩
    let t := run (step copyUpTo) s (.call other :: mainEvents c)
    t.result.toNat = 2 ∧ ∀ p < 9, (t.user 1).src 4096 p = samplePage p := by
  intro c other s t
  have hmean : requestMean samplePage 3 = 2 := by decide
  have hother : (Event.call other).Other c.pid c.ctx.toPtr :=
    ⟨(by decide : (2 : Pid) ≠ 1), (by decide : (8192 : UInt64) ≠ 4096)⟩
  rw [← hmean]
  exact reader_gets_mean_and_bytes copyUpTo delivers_copyUpTo s c _ (by decide) rfl
    (fun _ _ => rfl) (.other hother (.own (.own (.own (.own (.own .nil))))))

end Mean

end FilterReduce.TailcallSystem
