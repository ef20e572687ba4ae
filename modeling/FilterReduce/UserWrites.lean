import FilterReduce.ExactResults
import FilterReduce.TailcallKern
import FilterReduce.OverrideKern
import FilterReduce.UserMemory

/-!
# Where the probes write

Four programs write a fixed text to the caller's buffer. They parse the length of the
request and do not compare it with the length of the text, so a shorter request is
overrun. For each program the module says which calls keep to the request, whatever the
caller's memory holds.
-/
namespace FilterReduce.UserWrites
open CString Helpers Reduction CopyoutProbe CopyoutProbe.Machine UserMemory

def readiterStore (curr : Buf 3) (ctx : PtRegs) (m : Machine) (user : UserMem) : UserMem :=
  (ReaditerKern.bpfCopyout curr ctx { m with user }).2.user

def avgFuncStore (userbuff : Buf 9) (curr : Buf 3) (ctx : PtRegs) (m : Machine)
    (user : UserMem) : UserMem :=
  (TailcallKern.bpfFuncAvg userbuff curr ctx { m with user }).2.user

def overrideExecStore (ctx : PtRegs) (m : OverrideExecKern.Machine) (user : UserMem) : UserMem :=
  (OverrideExecKern.bpfCopyout ctx { m with user }).2.user

def procfsStore (ctx : ProcfsOverrideKern.PtRegs) (m : ProcfsOverrideKern.Machine)
    (user : UserMem) : UserMem :=
  (ProcfsOverrideKern.bpfRead ctx { m with user }).2.user

/-- A reducer that settles the registered calls and leaves the others alone: it writes
only if the mean is there. -/
lemma inside_reducer_iff (probe : Program) (start : Machine → Machine) (ctx : PtRegs)
    {bytes : List UInt8} {mean : Option ℕ} (hstart : ∀ m, (start m).user = m.user)
    (hin : ∀ m, ctx.toPtr = m.registered →
      probe ctx m = (start m).settle (·.writeUser ctx.toPtr bytes) mean)
    (hout : ∀ m, ctx.toPtr ≠ m.registered → probe ctx m = (0, m))
    (hlen : bytes.length ≤ 2 ^ 64) (m : Machine) (len : ℕ) :
    Inside ctx.toPtr len (fun user => (probe ctx { m with user }).2.user) ↔
      (ctx.toPtr = m.registered → mean.isSome → bytes.length ≤ len) := by
  by_cases h : ctx.toPtr = m.registered
  · have hprobe : ∀ user, probe ctx { m with user } =
        (start { m with user }).settle (·.writeUser ctx.toPtr bytes) mean :=
      fun user => hin { m with user } h
    simp only [hprobe, h, forall_const]
    cases mean with
    | none => simpa [hstart] using inside_id m.registered len
    | some avg =>
      simp only [settle_some, writeUser, publish, hstart, Option.isSome_some, forall_const]
      exact inside_write_iff m.registered len hlen
  · have hprobe : ∀ user, probe ctx { m with user } = (0, { m with user }) :=
      fun user => hout { m with user } h
    simpa [hprobe, h] using inside_id ctx.toPtr len

lemma readiter_inside_iff (curr : Buf 3) (ctx : PtRegs) (m : Machine) :
    Inside ctx.toPtr ctx.blen.toNat (readiterStore curr ctx m) ↔
      (ctx.toPtr = m.registered →
        (∀ k < 1365, (ReaditerKern.slotValue ctx.fromPtr k).isSome) → 4 ≤ ctx.blen.toNat) := by
  have h := inside_reducer_iff (ReaditerKern.bpfCopyout curr) (·.bpfOverrideReturn 0) ctx
    (fun _ => rfl)
    (fun m h => ReaditerKern.bpfCopyout_matched curr h)
    (fun m h => ReaditerKern.bpfCopyout_unmatched curr h) (by decide) m ctx.blen.toNat
  simp only [ReaditerKern.pageMean, reduction_isSome_iff, Finset.mem_range] at h
  exact h

lemma avgFunc_inside_iff (userbuff : Buf 9) (curr : Buf 3) (ctx : PtRegs) (m : Machine) :
    Inside ctx.toPtr ctx.blen.toNat (avgFuncStore userbuff curr ctx m) ↔
      (ctx.toPtr = m.registered →
        (∀ k < 3, (TailcallKern.stagedValue userbuff ctx.fromPtr k).isSome) →
          3 ≤ ctx.blen.toNat) := by
  have h := inside_reducer_iff (TailcallKern.bpfFuncAvg userbuff curr) id ctx (fun _ => rfl)
    (fun m h => TailcallKern.bpfFuncAvg_matched userbuff curr h)
    (fun m h => TailcallKern.bpfFuncAvg_unmatched userbuff curr h) (by decide) m ctx.blen.toNat
  simp only [TailcallKern.stagedMean, reduction_isSome_iff, Finset.mem_range] at h
  exact h

lemma overrideExec_inside_iff (ctx : PtRegs) (m : OverrideExecKern.Machine) :
    Inside ctx.toPtr ctx.blen.toNat (overrideExecStore ctx m) ↔
      (ctx.toPtr = m.registered → 4 ≤ ctx.blen.toNat) := by
  by_cases h : ctx.toPtr = m.registered
  · have hstore : overrideExecStore ctx m = fun user =>
        (bpfProbeWriteUser user ctx.toPtr OverrideExecKern.mystring).2 := by
      funext user
      obtain ⟨counterMap, -, hout⟩ :=
        OverrideExecKern.bpfCopyout_matched (m := { m with user }) h
      rw [overrideExecStore, hout]
    rw [hstore, inside_write_iff _ _ (by decide)]
    simp only [h, forall_const]
    rfl
  · have hstore : overrideExecStore ctx m = fun user => user := by
      funext user
      rw [overrideExecStore, OverrideExecKern.bpfCopyout_unmatched (m := { m with user }) h]
    simp [hstore, inside_id, h]

lemma procfs_inside_iff (ctx : ProcfsOverrideKern.PtRegs) (m : ProcfsOverrideKern.Machine) :
    Inside ctx.ubuf ctx.count.toNat (procfsStore ctx m) ↔ 4 ≤ ctx.count.toNat :=
  inside_write_iff ctx.ubuf ctx.count.toNat (by decide)

/-- Each program keeps to the request exactly if it does not reach its write or the
request has room for the text and its terminator. -/
theorem writes_inside_request_iff (curr : Buf 3) (userbuff : Buf 9) (ctx : PtRegs) (m : Machine)
    (mo : OverrideExecKern.Machine) (rd : ProcfsOverrideKern.PtRegs)
    (mp : ProcfsOverrideKern.Machine) :
    (Inside ctx.toPtr ctx.blen.toNat (readiterStore curr ctx m) ↔
      (ctx.toPtr = m.registered →
        (∀ k < 1365, (ReaditerKern.slotValue ctx.fromPtr k).isSome) → 4 ≤ ctx.blen.toNat)) ∧
    (Inside ctx.toPtr ctx.blen.toNat (avgFuncStore userbuff curr ctx m) ↔
      (ctx.toPtr = m.registered →
        (∀ k < 3, (TailcallKern.stagedValue userbuff ctx.fromPtr k).isSome) →
          3 ≤ ctx.blen.toNat)) ∧
    (Inside ctx.toPtr ctx.blen.toNat (overrideExecStore ctx mo) ↔
      (ctx.toPtr = mo.registered → 4 ≤ ctx.blen.toNat)) ∧
    (Inside rd.ubuf rd.count.toNat (procfsStore rd mp) ↔ 4 ≤ rd.count.toNat) :=
  ⟨readiter_inside_iff curr ctx m, avgFunc_inside_iff userbuff curr ctx m,
    overrideExec_inside_iff ctx mo, procfs_inside_iff rd mp⟩

/-- A request for one byte at 8192: each program also changes the byte at 8193. -/
theorem one_byte_request_overrun :
    let ctx : PtRegs := ⟨8192, ExactResults.onesPage, 1⟩
    let user : UserMem := fun _ => some 1
    readiterStore (Buf.zeros 3) ctx (Machine.ready 8192) user 8193 = some 50 ∧
    avgFuncStore (Buf.zeros 9) (Buf.zeros 3) ctx (Machine.ready 8192) user 8193 = some 50 ∧
    overrideExecStore ctx ⟨ArrayMap.fill 8192, ArrayMap.fill 0, user, none⟩ user 8193 = some 50 ∧
    procfsStore ⟨8192, 1⟩ ⟨user, none⟩ user 8193 = some 50 := by
  have hpage : ReaditerKern.pageMean ExactResults.onesPage = some 11 := by
    have hval : ∀ k ∈ Finset.range ReaditerKern.slots,
        ReaditerKern.slotValue ExactResults.onesPage k = some 11 := fun _ _ => rfl
    rw [ReaditerKern.pageMean, reduction_of_eq_some hval]
    simp [ReaditerKern.slots]
  refine ⟨?_, ?_, ?_, ?_⟩
  · rw [readiterStore, ReaditerKern.bpfCopyout_matched _ rfl, hpage]
    rfl
  · rw [avgFuncStore, TailcallKern.bpfFuncAvg_matched _ _ rfl]
    rfl
  · rfl
  · rfl

end FilterReduce.UserWrites
