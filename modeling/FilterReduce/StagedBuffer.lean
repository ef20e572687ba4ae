import FilterReduce.BpfbenchKern
import FilterReduce.TailcallKern

/-!
# Old contents of the staging buffers

`bpf_probe_read_str` stops at the first NUL and leaves the rest of its destination
alone, so a reducer that converts fields of the destination can meet bytes that are
not of the source: uninitialised stack, or the previous chunk. This module settles for
which sources that happens in `bpfbench_kern.c` and `tailcall_kern.c`.
-/
namespace FilterReduce.StagedBuffer
open CString Helpers EarlyExit Reduction CopyoutProbe CopyoutProbe.Machine
open BpfbenchKern (window windowValue bufferAt fieldAt grid mem_grid)

/-! ## A string laid over old contents -/

/-- Field `j` of `k` bytes after the string was stored: the string decides the fields
up to its terminator, the old contents those behind it. -/
def overlaid (str : Option (List UInt8)) (k : ℕ) (old : ℕ → Option ℕ) (j : ℕ) : Option ℕ :=
  match str with
  | none => none
  | some s => if 3 * j ≤ s.length then fieldValue ((s.drop (3 * j)).take k) else old j

def Passes (str : Option (List UInt8)) (k n : ℕ) : Prop :=
  ∃ s, str = some s ∧ ∀ j < n, 3 * j ≤ s.length → (fieldValue ((s.drop (3 * j)).take k)).isSome

/-- The string decides the first of the `n` fields that fails, or all of them. -/
def Settled (str : Option (List UInt8)) (k n : ℕ) : Prop :=
  Passes str k n → ∀ s, str = some s → 3 * (n - 1) ≤ s.length

lemma passes_of_isSome {str : Option (List UInt8)} {k n : ℕ} {old : ℕ → Option ℕ} (hn : 0 < n)
    (h : ∀ j < n, (overlaid str k old j).isSome) : Passes str k n := by
  cases str with
  | none => exact absurd (h 0 hn) (by simp [overlaid])
  | some s =>
    refine ⟨s, rfl, fun j hj hle => ?_⟩
    simpa [overlaid, hle] using h j hj

lemma isSome_of_settled {str : Option (List UInt8)} {k n : ℕ} (hp : Passes str k n)
    (hs : Settled str k n) (old : ℕ → Option ℕ) : ∀ j < n, (overlaid str k old j).isSome := by
  obtain ⟨s, rfl, hall⟩ := hp
  intro j hj
  have hle : 3 * j ≤ s.length := by
    have := hs ⟨s, rfl, hall⟩ s rfl
    omega
  simpa [overlaid, hle] using hall j hj hle

theorem Settled.agree {str : Option (List UInt8)} {k n : ℕ} (h : Settled str k n)
    (old old' : ℕ → Option ℕ) : Agree n (overlaid str k old) (overlaid str k old') := by
  intro j hj hbefore
  cases str with
  | none => rfl
  | some s =>
    by_cases hle : 3 * j ≤ s.length
    · simp [overlaid, hle]
    · -- a field behind the terminator is reached only if all before it convert
      have hp : Passes (some s) k n := by
        refine ⟨s, rfl, fun i _ hile => ?_⟩
        simpa [overlaid, hile] using hbefore i (by omega)
      have := h hp s rfl
      omega

/-- A string that is not settled lets the old contents through from some field on. -/
theorem exposed_of_not_settled {str : Option (List UInt8)} {k n : ℕ} (h : ¬ Settled str k n) :
    ∃ j₀ < n, ∀ old, (∀ j < j₀, (overlaid str k old j).isSome) ∧
      ∀ j, j₀ ≤ j → overlaid str k old j = old j := by
  simp only [Settled, not_forall, not_le] at h
  obtain ⟨⟨s, rfl, hall⟩, t, ht, hlen⟩ := h
  obtain rfl := Option.some.inj ht
  refine ⟨s.length / 3 + 1, by omega, fun old => ⟨fun j hj => ?_, fun j hj => ?_⟩⟩
  · have hle : 3 * j ≤ s.length := by omega
    simpa [overlaid, hle] using hall j (by omega) hle
  · have hlt : ¬ 3 * j ≤ s.length := by omega
    simp [overlaid, hlt]

/-! ## The tail-called reducer -/

lemma stagedValue_overlaid (userbuff : Buf 9) (src : Src) {k : ℕ} (hk : k < 3) :
    TailcallKern.stagedValue userbuff src k = overlaid (src.str 8) 2
      (fun k => fieldValue ((userbuff.src.shift (3 * k)).bytes 2)) k :=
  TailcallKern.stagedValue_eq userbuff src hk

def TailSourceOnly (ctx : PtRegs) (m : Machine) : Prop :=
  ∀ (userbuff userbuff' : Buf 9) (curr : Buf 3),
    let out := TailcallKern.bpfFuncAvg userbuff curr ctx m
    let out' := TailcallKern.bpfFuncAvg userbuff' curr ctx m
    out.1 = out'.1 ∧ out.2.result = out'.2.result

def constBuf (n : ℕ) (c : UInt8) : Buf n := fun _ => c

lemma constBuf_field_two (c : UInt8) {k : ℕ} (hk : k < 3) :
    ((constBuf 9 c).src.shift (3 * k)).bytes 2 = [c, c] :=
  bytes_two (src_of_lt _ (by omega)) (src_of_lt _ (by omega))

lemma tail_mean_eq {src : Src} (h : Settled (src.str 8) 2 3) (userbuff userbuff' : Buf 9) :
    TailcallKern.stagedMean userbuff src = TailcallKern.stagedMean userbuff' src := by
  have hagree : ∀ u u', (∀ k ∈ Finset.range 3, (TailcallKern.stagedValue u src k).isSome) →
      ∀ k ∈ Finset.range 3, TailcallKern.stagedValue u src k =
        TailcallKern.stagedValue u' src k := by
    intro u u' hall k hk
    have hk' := Finset.mem_range.mp hk
    rw [stagedValue_overlaid u src hk', stagedValue_overlaid u' src hk']
    refine h.agree _ _ k hk' fun i hi => ?_
    rw [← stagedValue_overlaid u src (by omega)]
    exact hall i (Finset.mem_range.mpr (by omega))
  exact reduction_eq_of_imp (hagree _ _) (hagree _ _)

lemma tail_mean_isSome_of_ones {src : Src} (h : ¬ Settled (src.str 8) 2 3) :
    (TailcallKern.stagedMean (constBuf 9 49) src).isSome := by
  obtain ⟨j₀, -, hexp⟩ := exposed_of_not_settled h
  rw [TailcallKern.stagedMean, reduction_isSome_iff]
  intro k hk
  have hk' := Finset.mem_range.mp hk
  obtain ⟨hin, hout⟩ := hexp fun k => fieldValue (((constBuf 9 49).src.shift (3 * k)).bytes 2)
  rw [stagedValue_overlaid _ src hk']
  rcases lt_or_ge k j₀ with hlt | hge
  · exact hin k hlt
  · rw [hout k hge, constBuf_field_two 49 hk']
    decide

lemma tail_mean_none_of_letters {src : Src} (h : ¬ Settled (src.str 8) 2 3) :
    TailcallKern.stagedMean (constBuf 9 120) src = none := by
  obtain ⟨j₀, hj₀, hexp⟩ := exposed_of_not_settled h
  obtain ⟨-, hout⟩ := hexp fun k => fieldValue (((constBuf 9 120).src.shift (3 * k)).bytes 2)
  rw [TailcallKern.stagedMean, reduction_eq_none_iff]
  refine ⟨j₀, Finset.mem_range.mpr hj₀, ?_⟩
  rw [stagedValue_overlaid _ src hj₀, hout j₀ le_rfl, constBuf_field_two 120 hj₀]
  decide

theorem tail_sourceOnly_iff {ctx : PtRegs} {m : Machine} (h : ctx.toPtr = m.registered) :
    TailSourceOnly ctx m ↔ Settled (ctx.fromPtr.str 8) 2 3 := by
  constructor
  · intro hall
    by_contra hns
    -- ones on the stack make the call succeed, letters make it fail
    have hret := (hall (constBuf 9 49) (constBuf 9 120) (Buf.zeros 3)).1
    obtain ⟨avg, havg⟩ := Option.isSome_iff_exists.mp (tail_mean_isSome_of_ones hns)
    rw [TailcallKern.bpfFuncAvg_matched _ _ h, TailcallKern.bpfFuncAvg_matched _ _ h, havg,
      tail_mean_none_of_letters hns, settle_some, settle_none] at hret
    exact zero_ne_one hret
  · intro hs u u' curr
    simp only [TailcallKern.bpfFuncAvg_matched _ _ h, tail_mean_eq hs u u', and_self]

/-! ## The chunked reducer -/

lemma windowValue_overlaid (userbuff : Buf 256) (src : Src) (i : ℕ) {j : ℕ} (hj : j < 85) :
    windowValue userbuff src (i, j) =
      overlaid ((window src i).str 255) 3 (fieldAt (bufferAt userbuff src i)) j := by
  rw [windowValue, bufferAt, BpfbenchKern.fieldAt_refill _ _ hj, Nat.mul_comm j]
  rfl

def Reaches (userbuff : Buf 256) (src : Src) (i : ℕ) : Prop :=
  ∀ i' < i, ∀ j < 85, (windowValue userbuff src (i', j)).isSome

/-- What chunk `i` adds in its slot `j`; nothing if a slot before it failed. -/
def added (userbuff : Buf 256) (src : Src) (i j : ℕ) : Option ℕ :=
  upTo (fun j => windowValue userbuff src (i, j)) j

/-- The outcome does not depend on `userbuff`, and what a chunk adds depends on nothing
but the 255 bytes of its window, in this and any other source. -/
def BenchSourceOnly (ctx : PtRegs) (m : Machine) : Prop :=
  (∀ userbuff userbuff' : Buf 256,
    let out := BpfbenchKern.bpfCopyout userbuff ctx m
    let out' := BpfbenchKern.bpfCopyout userbuff' ctx m
    out.1 = out'.1 ∧ out.2.result = out'.2.result) ∧
  ∀ i < 16, ∀ (userbuff userbuff' : Buf 256) (src' : Src),
    (∀ p < 255, src' (256 * i + p) = ctx.fromPtr (256 * i + p)) →
    Reaches userbuff ctx.fromPtr i → Reaches userbuff' src' i →
    ∀ j < 85, added userbuff ctx.fromPtr i j = added userbuff' src' i j

/-- Every window that is reached because all before it convert is settled: its fields
before a NUL do not all convert, or no NUL stands before the last field. -/
def WindowsSettled (src : Src) : Prop :=
  ∀ i < 16, (∀ i' < i, Passes ((window src i').str 255) 3 85) →
    Settled ((window src i).str 255) 3 85

lemma Reaches.passes {userbuff : Buf 256} {src : Src} {i : ℕ} (h : Reaches userbuff src i) :
    ∀ i' < i, Passes ((window src i').str 255) 3 85 := by
  intro i' hi'
  refine @passes_of_isSome _ 3 85 (fieldAt (bufferAt userbuff src i')) (by omega) fun j hj => ?_
  rw [← windowValue_overlaid _ _ _ hj]
  exact h i' hi' j hj

lemma str_window_congr {src src' : Src} {i : ℕ}
    (h : ∀ p < 255, src' (256 * i + p) = src (256 * i + p)) :
    (window src' i).str 255 = (window src i).str 255 := by
  apply str_congr
  intro p hp
  rw [window, window, shift_apply, shift_apply, Nat.mul_comm i 256]
  exact h p hp

lemma chunk_agree {src src' : Src} {i : ℕ} (hs : Settled ((window src i).str 255) 3 85)
    (hwin : ∀ p < 255, src' (256 * i + p) = src (256 * i + p)) (userbuff userbuff' : Buf 256) :
    Agree 85 (fun j => windowValue userbuff src (i, j))
      (fun j => windowValue userbuff' src' (i, j)) := by
  intro j hj hbefore
  simp only [windowValue_overlaid _ _ _ hj, str_window_congr hwin]
  refine hs.agree _ _ j hj fun k hk => ?_
  rw [← windowValue_overlaid userbuff src i (by omega)]
  exact hbefore k hk

lemma bench_mean_eq {src : Src} (h : WindowsSettled src) (userbuff userbuff' : Buf 256) :
    BpfbenchKern.stagedMean userbuff src = BpfbenchKern.stagedMean userbuff' src := by
  have hagree : ∀ u u', (∀ ij ∈ grid, (windowValue u src ij).isSome) →
      ∀ ij ∈ grid, windowValue u src ij = windowValue u' src ij := by
    rintro u u' hall ⟨i, j⟩ hij
    obtain ⟨hi, hj⟩ := mem_grid.mp hij
    have hreach : Reaches u src i := fun i' hi' j' hj' =>
      hall (i', j') (mem_grid.mpr ⟨hi'.trans hi, hj'⟩)
    refine chunk_agree (h i hi hreach.passes) (fun _ _ => rfl) u u' j hj fun k hk => ?_
    exact hall (i, k) (mem_grid.mpr ⟨hi, hk.trans hj⟩)
  exact reduction_eq_of_imp (hagree _ _) (hagree _ _)

def patched (c : UInt8) (src : Src) (i : ℕ) : Src := fun p =>
  if 256 * i ≤ p ∧ p < 256 * i + 255 then src p else some c

lemma patched_window (c : UInt8) (src : Src) (i : ℕ) :
    ∀ p < 255, patched c src i (256 * i + p) = src (256 * i + p) := by
  intro p hp
  exact if_pos (by omega)

lemma constBuf_field_three (c : UInt8) {j : ℕ} (hj : j < 85) :
    fieldAt (constBuf 256 c) j = fieldValue [c, c, c] := by
  have hbytes : ((constBuf 256 c).src.shift (j * 3)).bytes 3 = [c, c, c] :=
    bytes_three (src_of_lt _ (by omega)) (src_of_lt _ (by omega)) (src_of_lt _ (by omega))
  rw [fieldAt, hbytes]

lemma windowValue_patched {c : UInt8} (hc : c ≠ 0) (userbuff : Buf 256) (src : Src) {i i' j : ℕ}
    (hi : i' < i) (hj : j < 85) :
    windowValue userbuff (patched c src i) (i', j) = fieldValue [c, c, c] := by
  have hout : ∀ p < 255, patched c src i (256 * i' + p) = some c := fun p hp =>
    if_neg (by omega)
  rw [BpfbenchKern.windowValue_source userbuff hj, bytes_three (hout (3 * j) (by omega))
    (hout (3 * j + 1) (by omega)) (hout (3 * j + 2) (by omega))]
  intro p hp
  refine ⟨c, ?_, hc⟩
  rw [window, shift_apply, Nat.mul_comm]
  exact hout p hp

lemma stale_patched {c : UInt8} (hc : c ≠ 0) {src : Src} {i j : ℕ} (hj : j < 85)
    (hout : ∀ old, overlaid ((window src i).str 255) 3 old j = old j) :
    fieldAt (bufferAt (constBuf 256 c) (patched c src i) i) j = fieldValue [c, c, c] := by
  cases i with
  | zero =>
    -- the buffer was filled from this very window before, over the stack contents
    have hwin : window (patched c src 0) 0 = patched c src 0 := shift_zero _
    have hstr := str_window_congr (patched_window c src 0)
    rw [hwin] at hstr
    rw [bufferAt, BpfbenchKern.fieldAt_refill _ _ hj, Nat.mul_comm j, hstr]
    exact (hout (fieldAt (constBuf 256 c))).trans (constBuf_field_three c hj)
  | succ i => exact windowValue_patched hc _ src (Nat.lt_succ_self i) hj

lemma added_patched {c : UInt8} (hc : c ≠ 0) {src : Src} {i j : ℕ} (hj : j < 85)
    (hexp : ∀ old, (∀ k < j, (overlaid ((window src i).str 255) 3 old k).isSome) ∧
      ∀ k, j ≤ k → overlaid ((window src i).str 255) 3 old k = old k) :
    added (constBuf 256 c) (patched c src i) i j = fieldValue [c, c, c] := by
  have hval : ∀ k < 85, windowValue (constBuf 256 c) (patched c src i) (i, k) =
      overlaid ((window src i).str 255) 3
        (fieldAt (bufferAt (constBuf 256 c) (patched c src i) i)) k := by
    intro k hk
    rw [windowValue_overlaid _ _ _ hk, str_window_congr (patched_window c src i)]
  have hbefore : ∀ k < j, (windowValue (constBuf 256 c) (patched c src i) (i, k)).isSome := by
    intro k hk
    rw [hval k (hk.trans hj)]
    exact (hexp _).1 k hk
  rw [added, upTo, if_pos hbefore, hval j hj, (hexp _).2 j le_rfl]
  exact stale_patched hc hj fun old => (hexp old).2 j le_rfl

/-- If the chunks use nothing but their windows, the windows are settled: otherwise old
bytes `111` and `222` could be told apart. -/
lemma windowsSettled_of_sourceOnly {ctx : PtRegs} {m : Machine} (h : BenchSourceOnly ctx m) :
    WindowsSettled ctx.fromPtr := by
  intro i
  induction i using Nat.strong_induction_on with
  | _ i ih =>
    intro hi hpass
    by_contra hns
    obtain ⟨j, hj, hexp⟩ := exposed_of_not_settled hns
    have hreach : Reaches (Buf.zeros 256) ctx.fromPtr i := by
      intro i' hi' k hk
      rw [windowValue_overlaid _ _ _ hk]
      have hs := ih i' hi' (hi'.trans hi) fun l hl => hpass l (hl.trans hi')
      exact isSome_of_settled (hpass i' hi') hs _ k hk
    have hadded : ∀ c : UInt8, c ≠ 0 → (fieldValue [c, c, c]).isSome →
        added (Buf.zeros 256) ctx.fromPtr i j = fieldValue [c, c, c] := by
      intro c hc hfield
      rw [← added_patched hc hj hexp]
      refine h.2 i hi _ _ _ (patched_window c ctx.fromPtr i) hreach ?_ j hj
      intro i' hi' k hk
      rwa [windowValue_patched hc _ _ hi' hk]
    have h111 := hadded 49 (by decide) (by decide)
    have h222 := hadded 50 (by decide) (by decide)
    exact absurd (h111.symm.trans h222) (by decide)

theorem bench_sourceOnly_iff {ctx : PtRegs} {m : Machine} (h : ctx.toPtr = m.registered) :
    BenchSourceOnly ctx m ↔ WindowsSettled ctx.fromPtr := by
  refine ⟨windowsSettled_of_sourceOnly, fun hs => ⟨fun u u' => ?_, ?_⟩⟩
  · simp only [BpfbenchKern.bpfCopyout_matched _ h, bench_mean_eq hs u u', and_self]
  · intro i hi u u' src' hwin hreach _ j hj
    exact (chunk_agree (hs i hi hreach.passes) hwin u u').upTo_eq hj

/-- The staged reducers use only the source if and only if the source is settled: in
each window that is reached, and in the eight bytes of the tail-called reducer, a field
at or before the first NUL fails to convert or no field starts behind it. -/
theorem staged_sourceOnly_iff {ctx : PtRegs} {m : Machine} (h : ctx.toPtr = m.registered) :
    (BenchSourceOnly ctx m ↔ WindowsSettled ctx.fromPtr) ∧
      (TailSourceOnly ctx m ↔ Settled (ctx.fromPtr.str 8) 2 3) :=
  ⟨bench_sourceOnly_iff h, tail_sourceOnly_iff h⟩

theorem staged_sourceOnly_sample :
    let ctx : PtRegs := ⟨4096, samplePage, 60⟩
    let m := Machine.ready 4096
    ctx.toPtr = m.registered ∧ (BenchSourceOnly ctx m ↔ WindowsSettled ctx.fromPtr) ∧
      (TailSourceOnly ctx m ↔ Settled (ctx.fromPtr.str 8) 2 3) := by
  intro ctx m
  have hmatch : ctx.toPtr = m.registered := rfl
  exact ⟨hmatch, staged_sourceOnly_iff hmatch⟩

/-- A source with `11` and a NUL at the start of every window, ones elsewhere. -/
def cutSource : Src := fun p => some (if p % 256 = 2 then 0 else 49)

lemma window_cutSource (i : ℕ) : window cutSource i = cutSource := by
  funext p
  rw [window, shift_apply, cutSource, cutSource, Nat.mul_add_mod_self_right]

lemma cutSource_not_settled : ¬ Settled (cutSource.str 8) 2 3 := by
  intro h
  have hlen := h ⟨[49, 49], by decide, by decide⟩ [49, 49] (by decide)
  exact absurd hlen (by decide)

lemma fieldAt_cutSource (userbuff : Buf 256) (i : ℕ) {j : ℕ} (hj : j < 85) (hpos : 0 < j) :
    fieldAt (bufferAt userbuff cutSource i) j = fieldAt userbuff j := by
  have hrefill : ∀ b, fieldAt (BpfbenchKern.refill b cutSource) j = fieldAt b j := by
    intro b
    rw [BpfbenchKern.fieldAt_refill _ _ hj, show cutSource.str 255 = some [49, 49] by decide]
    have hlt : ¬ j * 3 ≤ [(49 : UInt8), 49].length := by simp; omega
    exact if_neg hlt
  induction i with
  | zero => exact hrefill userbuff
  | succ i ih => rw [bufferAt, window_cutSource, hrefill, ih]

lemma windowValue_cutSource_first (userbuff : Buf 256) (i : ℕ) :
    windowValue userbuff cutSource (i, 0) = some 11 := by
  rw [windowValue, bufferAt, BpfbenchKern.fieldAt_refill _ _ (by omega), window_cutSource,
    show cutSource.str 255 = some [49, 49] by decide]
  rfl

/-- On this source the stack decides whether the reducers succeed. -/
theorem outcome_depends_on_stack :
    let ctx : PtRegs := ⟨4096, cutSource, 4096⟩
    let m := Machine.ready 4096
    ctx.toPtr = m.registered ∧
      (BpfbenchKern.bpfCopyout (constBuf 256 49) ctx m).1 = 0 ∧
      (BpfbenchKern.bpfCopyout (constBuf 256 120) ctx m).1 = 1 ∧
      (TailcallKern.bpfFuncAvg (constBuf 9 49) (Buf.zeros 3) ctx m).1 = 0 ∧
      (TailcallKern.bpfFuncAvg (constBuf 9 120) (Buf.zeros 3) ctx m).1 = 1 := by
  intro ctx m
  have hmatch : ctx.toPtr = m.registered := rfl
  have hones : (BpfbenchKern.stagedMean (constBuf 256 49) ctx.fromPtr).isSome := by
    rw [BpfbenchKern.stagedMean, reduction_isSome_iff]
    rintro ⟨i, j⟩ hij
    obtain ⟨-, hj⟩ := mem_grid.mp hij
    rcases Nat.eq_zero_or_pos j with rfl | hpos
    · rw [windowValue_cutSource_first]
      rfl
    · rw [windowValue, fieldAt_cutSource _ _ hj hpos, constBuf_field_three 49 hj]
      decide
  have hletters : BpfbenchKern.stagedMean (constBuf 256 120) ctx.fromPtr = none := by
    refine reduction_eq_none_iff.mpr ⟨(0, 1), mem_grid.mpr (by decide), ?_⟩
    rw [windowValue, fieldAt_cutSource _ _ (by omega) (by omega),
      constBuf_field_three 120 (by omega)]
    decide
  obtain ⟨avg, havg⟩ := Option.isSome_iff_exists.mp hones
  obtain ⟨avg', havg'⟩ :=
    Option.isSome_iff_exists.mp (tail_mean_isSome_of_ones cutSource_not_settled)
  have hletters' := tail_mean_none_of_letters cutSource_not_settled
  refine ⟨hmatch, ?_, ?_, ?_, ?_⟩
  · rw [BpfbenchKern.bpfCopyout_matched _ hmatch, havg, settle_some]
  · rw [BpfbenchKern.bpfCopyout_matched _ hmatch, hletters, settle_none]
  · rw [TailcallKern.bpfFuncAvg_matched _ _ hmatch, havg', settle_some]
  · rw [TailcallKern.bpfFuncAvg_matched _ _ hmatch, hletters', settle_none]

end FilterReduce.StagedBuffer
