import FilterReduce.ReaditerKern
import FilterReduce.BpfbenchKern

/-!
# What a stopped reduction leaves behind

Both reducers on `copyout_bpf` override the return before they look at the data. A
call that stops at a bad slot therefore suppresses the copy and publishes nothing.
-/
namespace FilterReduce.CopyoutIntercept
open CString Helpers Reduction CopyoutProbe CopyoutProbe.Machine

/-- A call that publishes no average leaves everything to the kernel's own copy, and
only a call that publishes one overrides the return. -/
def AllOrNothing (probe : Program) (copyout : Copyout) (ctx : PtRegs) (m : Machine) : Prop :=
  (¬ Published m (probe ctx m).2 → Untouched m (probe ctx m).2 ∧
    copyoutBpf probe copyout ctx m =
      ((copyout ctx m.user).1, { m with user := (copyout ctx m.user).2 })) ∧
  ((probe ctx m).2.override ≠ none → Published m (probe ctx m).2)

lemma allOrNothing_of_published {probe : Program} {copyout : Copyout} {ctx : PtRegs}
    {m : Machine} (h : Published m (probe ctx m).2) : AllOrNothing probe copyout ctx m :=
  ⟨fun hn => absurd h hn, fun _ => h⟩

lemma not_allOrNothing_of_stopped {probe : Program} {copyout : Copyout} {ctx : PtRegs}
    {m : Machine} {ret : ℤ} {rc : UInt64} (h : probe ctx m = (ret, m.bpfOverrideReturn rc)) :
    ¬ AllOrNothing probe copyout ctx m := by
  rintro ⟨-, honly⟩
  rw [h] at honly
  have hpub : Published m (m.bpfOverrideReturn rc) := honly (by simp)
  exact lt_irrefl _ hpub

/-- A probe that overrides first and then settles on a mean is all or nothing exactly
on the calls where the mean exists. -/
theorem allOrNothing_iff_isSome {probe : Program} {copyout : Copyout} {ctx : PtRegs}
    {m : Machine} {after : Machine → Machine} {mean : Option ℕ}
    (hafter : ∀ m, (after m).resultMap = m.resultMap)
    (h : probe ctx m = (m.bpfOverrideReturn 0).settle after mean) :
    AllOrNothing probe copyout ctx m ↔ mean.isSome := by
  cases mean with
  | none =>
    simp only [Option.isSome_none, Bool.false_eq_true, iff_false]
    exact not_allOrNothing_of_stopped h
  | some avg =>
    simp only [Option.isSome_some, iff_true]
    apply allOrNothing_of_published
    simp [h, Published, hafter]

lemma readiter_allOrNothing_iff (curr : Buf 3) (copyout : Copyout) {ctx : PtRegs} {m : Machine}
    (h : ctx.toPtr = m.registered) :
    AllOrNothing (ReaditerKern.bpfCopyout curr) copyout ctx m ↔
      (ReaditerKern.pageMean ctx.fromPtr).isSome := by
  apply allOrNothing_iff_isSome _ (ReaditerKern.bpfCopyout_matched curr h)
  intro m
  rw [resultMap_writeUser]

lemma bpfbench_allOrNothing_iff (userbuff : Buf 256) (copyout : Copyout) {ctx : PtRegs}
    {m : Machine} (h : ctx.toPtr = m.registered) :
    AllOrNothing (BpfbenchKern.bpfCopyout userbuff) copyout ctx m ↔
      (BpfbenchKern.stagedMean userbuff ctx.fromPtr).isSome := by
  apply allOrNothing_iff_isSome _ (BpfbenchKern.bpfCopyout_matched userbuff h)
  intro m
  rfl

/-- A matching call is all or nothing exactly when every slot converts: the 1365
records of the page for readiter, the 16 times 85 staged fields for bpfbench. -/
theorem matching_call_allOrNothing_iff (curr : Buf 3) (userbuff : Buf 256) (copyout : Copyout)
    {ctx : PtRegs} {m : Machine} (h : ctx.toPtr = m.registered) :
    (AllOrNothing (ReaditerKern.bpfCopyout curr) copyout ctx m ↔
      ∀ k < 1365, (ReaditerKern.slotValue ctx.fromPtr k).isSome) ∧
    (AllOrNothing (BpfbenchKern.bpfCopyout userbuff) copyout ctx m ↔
      ∀ i < 16, ∀ j < 85, (BpfbenchKern.windowValue userbuff ctx.fromPtr (i, j)).isSome) := by
  rw [readiter_allOrNothing_iff curr copyout h, bpfbench_allOrNothing_iff userbuff copyout h]
  constructor
  · rw [ReaditerKern.pageMean, reduction_isSome_iff]
    simp [ReaditerKern.slots]
  · rw [BpfbenchKern.stagedMean, reduction_isSome_iff]
    constructor
    · intro hall i hi j hj
      exact hall (i, j) (BpfbenchKern.mem_grid.mpr ⟨hi, hj⟩)
    · intro hall ij hij
      obtain ⟨hi, hj⟩ := BpfbenchKern.mem_grid.mp hij
      exact hall ij.1 hi ij.2 hj

theorem matching_call_allOrNothing_sample :
    let ctx : PtRegs := ⟨4096, samplePage, 4066⟩
    let m := Machine.ready 4096
    ctx.toPtr = m.registered ∧
    (AllOrNothing (ReaditerKern.bpfCopyout (Buf.zeros 3)) copyToUser ctx m ↔
      ∀ k < 1365, (ReaditerKern.slotValue ctx.fromPtr k).isSome) ∧
    (AllOrNothing (BpfbenchKern.bpfCopyout (Buf.zeros 256)) copyToUser ctx m ↔
      ∀ i < 16, ∀ j < 85,
        (BpfbenchKern.windowValue (Buf.zeros 256) ctx.fromPtr (i, j)).isSome) :=
  ⟨rfl, matching_call_allOrNothing_iff _ _ _ rfl⟩

lemma samplePage_str : samplePage.str 255 = some sampleFile := by decide

lemma sample_bpfbench_stops (userbuff : Buf 256) :
    BpfbenchKern.windowValue userbuff samplePage (0, 20) = none := by
  have hw : BpfbenchKern.window samplePage 0 = samplePage := shift_zero _
  rw [BpfbenchKern.windowValue, BpfbenchKern.bufferAt, BpfbenchKern.fieldAt_refill _ _ (by omega),
    hw, samplePage_str]
  exact (if_pos (by decide)).trans (by decide)

/-- The sample file is shorter than a page, so slot 20 is empty in both reducers: the
call returns 1 with the copy suppressed and no average published. -/
theorem sample_copy_suppressed :
    let ctx : PtRegs := ⟨4096, samplePage, 4066⟩
    let m := Machine.ready 4096
    ReaditerKern.bpfCopyout (Buf.zeros 3) ctx m = (1, m.bpfOverrideReturn 0) ∧
    ¬ AllOrNothing (ReaditerKern.bpfCopyout (Buf.zeros 3)) copyToUser ctx m ∧
    BpfbenchKern.bpfCopyout (Buf.zeros 256) ctx m = (1, m.bpfOverrideReturn 0) ∧
    ¬ AllOrNothing (BpfbenchKern.bpfCopyout (Buf.zeros 256)) copyToUser ctx m := by
  intro ctx m
  have hmatch : ctx.toPtr = m.registered := rfl
  have hpage : ReaditerKern.pageMean ctx.fromPtr = none :=
    reduction_eq_none_iff.mpr ⟨20, by simp [ReaditerKern.slots], by decide⟩
  have hstaged : BpfbenchKern.stagedMean (Buf.zeros 256) ctx.fromPtr = none :=
    reduction_eq_none_iff.mpr
      ⟨(0, 20), BpfbenchKern.mem_grid.mpr (by decide), sample_bpfbench_stops _⟩
  have hread : ReaditerKern.bpfCopyout (Buf.zeros 3) ctx m = (1, m.bpfOverrideReturn 0) := by
    rw [ReaditerKern.bpfCopyout_matched _ hmatch, hpage, settle_none]
  have hbench : BpfbenchKern.bpfCopyout (Buf.zeros 256) ctx m = (1, m.bpfOverrideReturn 0) := by
    rw [BpfbenchKern.bpfCopyout_matched _ hmatch, hstaged, settle_none]
  exact ⟨hread, not_allOrNothing_of_stopped hread, hbench, not_allOrNothing_of_stopped hbench⟩

end FilterReduce.CopyoutIntercept
