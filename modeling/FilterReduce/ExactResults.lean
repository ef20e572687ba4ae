import FilterReduce.ReaditerKern
import FilterReduce.BpfbenchKern

/-!
# Exact results of the reducers

What `readiter_kern.c` and `bpfbench_kern.c` publish for a source that can be read, in
terms of the source alone: the floor of a sum of slot values over the number of slots,
where neither the 64-bit sum wraps nor the divisor is zero, and no scratch memory shows.
-/
namespace FilterReduce.ExactResults
open CString Helpers EarlyExit Reduction CopyoutProbe CopyoutProbe.Machine

/-! ## The per-record reducer -/

section Readiter
open ReaditerKern

/-- Slot `k`: the source bytes `3k` and `3k + 1`, cut at the first NUL. -/
def slotText (src : Src) (k : ℕ) : List UInt8 :=
  ((src.shift (3 * k)).bytes 2).takeWhile (· ≠ 0)

def numbers (l : Locals) : UInt64 × UInt64 × UInt64 := (l.num, l.sum, l.elems)

lemma slotValue_text {src : Src} (h : ∀ p < ubuffsize, (src p).isSome) {k : ℕ}
    (hk : k < slots) : slotValue src k = fieldValue (slotText src k) := by
  have hslot : ∀ p < 2, ((src.shift (3 * k)) p).isSome := by
    intro p hp
    apply h
    simp only [slots, ubuffsize] at hk ⊢
    omega
  rw [slotValue, recordValue, str_of_readable hslot]
  rfl

/-- An iteration overwrites as much of `curr` as the conversion looks at. -/
lemma iteration_curr (src : Src) {l l' : Locals} (h : numbers l = numbers l') (curr : Buf 3)
    (i : ℕ) :
    (iteration src { l with curr } i).map numbers = (iteration src l' i).map numbers := by
  simp only [numbers, Prod.mk.injEq] at h
  obtain ⟨-, hsum, helems⟩ := h
  cases hv : recordValue (src.shift i) with
  | none => simp [iteration, bpfStrtoul_curr_none hv, Except.map]
  | some v =>
    obtain ⟨hres, hnum⟩ := bpfStrtoul_curr_some hv curr l.num
    obtain ⟨hres', hnum'⟩ := bpfStrtoul_curr_some hv l'.curr l'.num
    simp only [iteration, if_neg (not_lt.mpr hres), if_neg (not_lt.mpr hres'), hnum, hnum',
      Except.map, numbers, hsum, helems]

lemma first_iterations (src : Src) {n : ℕ} (hn : n ≤ slots)
    (hdef : ∀ k < n, (slotValue src k).isSome) (curr : Buf 3) :
    ∃ l, ((indices 0 (ubuffsize - 3) 3).take n).foldlM (iteration src) ⟨curr, 0, 0, 0⟩ = .ok l ∧
      l.sum.toNat = total (Finset.range n) (slotValue src) ∧ l.elems.toNat = n := by
  have hstart : Inv src 0 ⟨curr, 0, 0, 0⟩ := ⟨by simp [total], rfl⟩
  obtain ⟨l, hl, hinv⟩ := loop_ok (fun k l hl hk => inv_step hl hk) hstart hdef
  refine ⟨l, ?_, ?_, ?_⟩
  · rw [foldlM_take_indices _ (by simpa [slots, ubuffsize] using hn)]
    simpa only [Nat.zero_add] using hl
  · have hlt : total (Finset.range n) (slotValue src) < 2 ^ 64 := by
      have hle := total_slots_le src n
      simp only [slots] at hn
      omega
    rw [hinv.1, UInt64.toNat_ofNat_of_lt' hlt]
  · have hlt : n < 2 ^ 64 := hn.trans_lt (by norm_num [slots])
    rw [hinv.2, UInt64.toNat_ofNat_of_lt' hlt]

lemma result_of_values (curr : Buf 3) {ctx : PtRegs} {m : Machine} {v : ℕ → ℕ}
    (h : ctx.toPtr = m.registered) (hv : ∀ k < slots, slotValue ctx.fromPtr k = some (v k)) :
    (bpfCopyout curr ctx m).1 = 0 ∧
      (bpfCopyout curr ctx m).2.result.toNat = (∑ k ∈ Finset.range slots, v k) / slots := by
  have hmean : pageMean ctx.fromPtr = some ((∑ k ∈ Finset.range slots, v k) / slots) := by
    rw [pageMean, reduction_of_eq_some fun k hk => hv k (Finset.mem_range.mp hk),
      Finset.card_range]
  have hlt := (pageMean_lt hmean).trans (by norm_num : 100 < 2 ^ 64)
  rw [bpfCopyout_matched curr h, hmean]
  simp [UInt64.toNat_ofNat_of_lt' hlt]

lemma stopped_of_undefined (curr : Buf 3) {ctx : PtRegs} {m : Machine}
    (h : ctx.toPtr = m.registered) (hnone : ∃ k < slots, slotValue ctx.fromPtr k = none) :
    bpfCopyout curr ctx m = (1, m.bpfOverrideReturn 0) := by
  have hmean : pageMean ctx.fromPtr = none := by
    rw [pageMean, reduction_eq_none_iff]
    simpa using hnone
  rw [bpfCopyout_matched curr h, hmean, settle_none]

/-- After every number `n` of iterations the sum is the sum of `n` slot values, so that
neither the addition wraps nor the final division is by zero; whatever `junk` stands in
`curr` when an iteration begins, the loop computes the same numbers. -/
theorem readiter_result_exact (curr : Buf 3) {ctx : PtRegs} {m : Machine}
    (h : ctx.toPtr = m.registered) (hread : ∀ p < ubuffsize, (ctx.fromPtr p).isSome) :
    let out := bpfCopyout curr ctx m
    let loop := indices 0 (ubuffsize - 3) 3
    (∀ v : ℕ → ℕ, (∀ k < 1365, fieldValue (slotText ctx.fromPtr k) = some (v k)) →
      out.1 = 0 ∧ out.2.result.toNat = (∑ k ∈ Finset.range 1365, v k) / 1365 ∧
      ∀ n ≤ 1365, ∃ l, (loop.take n).foldlM (iteration ctx.fromPtr) ⟨curr, 0, 0, 0⟩ = .ok l ∧
        l.sum.toNat = ∑ k ∈ Finset.range n, v k ∧ l.elems.toNat = n) ∧
    ((∃ k < 1365, fieldValue (slotText ctx.fromPtr k) = none) →
      out.1 = 1 ∧ out.2.resultMap = m.resultMap ∧ out.2.user = m.user) ∧
    ∀ junk : ℕ → Buf 3,
      (loop.foldlM (fun l i => iteration ctx.fromPtr { l with curr := junk i } i)
        ⟨curr, 0, 0, 0⟩).map numbers =
      (loop.foldlM (iteration ctx.fromPtr) ⟨curr, 0, 0, 0⟩).map numbers := by
  refine ⟨fun v hv => ?_, fun hnone => ?_, fun junk => ?_⟩
  · have hslot : ∀ k < slots, slotValue ctx.fromPtr k = some (v k) := by
      intro k hk
      rw [slotValue_text hread hk, hv k hk]
    obtain ⟨hret, hres⟩ := result_of_values curr h hslot
    refine ⟨hret, hres, fun n hn => ?_⟩
    obtain ⟨l, hl, hsum, helems⟩ := first_iterations ctx.fromPtr hn
      (fun k hk => by rw [hslot k (hk.trans_le hn)]; rfl) curr
    refine ⟨l, hl, hsum.trans (total_of_eq_some fun k hk => ?_), helems⟩
    exact hslot k ((Finset.mem_range.mp hk).trans_le hn)
  · obtain ⟨k, hk, hnone⟩ := hnone
    have hstop := stopped_of_undefined curr h ⟨k, hk, (slotValue_text hread hk).trans hnone⟩
    exact ⟨by rw [hstop], by rw [hstop]; rfl, by rw [hstop]; rfl⟩
  · refine foldlM_map_congr (fun l l' i hl => ?_) rfl _
    exact iteration_curr ctx.fromPtr hl (junk i) i

def onesPage : Src := fun _ => some 49

theorem readiter_result_ones :
    let out := bpfCopyout (Buf.zeros 3) ⟨8192, onesPage, 4096⟩ (Machine.ready 8192)
    out.1 = 0 ∧ out.2.result.toNat = 11 := by
  have hexact := @readiter_result_exact (Buf.zeros 3) ⟨8192, onesPage, 4096⟩
    (Machine.ready 8192) rfl fun _ _ => rfl
  obtain ⟨hret, hres, -⟩ := hexact.1 (fun _ => 11) fun _ _ => rfl
  exact ⟨hret, hres.trans (by simp)⟩

end Readiter

/-! ## The chunked reducer -/

section Bpfbench
open BpfbenchKern

/-- Slot `(i, j)`: the three source bytes at `256i + 3j`. -/
def fieldText (src : Src) (i j : ℕ) : List UInt8 := (src.shift (256 * i + 3 * j)).bytes 3

def loopsUpTo (userbuff : Buf 256) (src : Src) (n j : ℕ) : Except ℤ Locals :=
  ((indices 0 16 1).take n).foldlM (chunk src) ⟨(bpfProbeReadStr userbuff src).2, 0, 0, 0⟩ >>=
    fun l => ((indices 0 85 1).take j).foldlM slot
      { l with userbuff := (bpfProbeReadStr l.userbuff (src.shift (n * 256))).2 }

lemma windowValue_text {src : Src} (h : ∀ p < 4096, ∃ b, src p = some b ∧ b ≠ 0)
    (userbuff : Buf 256) {i j : ℕ} (hi : i < 16) (hj : j < 85) :
    windowValue userbuff src (i, j) = fieldValue (fieldText src i j) := by
  apply windowValue_source userbuff hj
  intro p hp
  exact h (i * 256 + p) (by omega)

lemma loopsUpTo_exact (userbuff : Buf 256) (src : Src) {n j : ℕ} (hn : n < 16) (hj : j ≤ 85)
    (hdef : ∀ i < 16, ∀ j < 85, (windowValue userbuff src (i, j)).isSome) :
    ∃ l, loopsUpTo userbuff src n j = .ok l ∧
      l.sum.toNat = total (Finset.range n ×ˢ Finset.range 85) (windowValue userbuff src) +
        total (Finset.range j) (fun j => windowValue userbuff src (n, j)) ∧
      l.elems.toNat = 85 * n + j := by
  obtain ⟨l, hl, hb, hs, he⟩ := loop_ok (fun i l hl hi => chunkInv_step hl hi)
    (chunkInv_start userbuff src) (n := n) fun i hi => hdef i (by omega)
  have hbuf : refill l.userbuff (window src n) = bufferAt userbuff src (n + 1) := by
    rw [hb]
    rfl
  have hstart : SlotInv (bufferAt userbuff src (n + 1)) l.sum l.elems 0
      { l with userbuff := refill l.userbuff (window src n) } :=
    ⟨hbuf, by simp [total], by simp⟩
  obtain ⟨t, ht, -, hts, hte⟩ := loop_ok (fun j l hl hj => slotInv_step hl hj) hstart (n := j)
    fun i hi => hdef n hn i (by omega)
  refine ⟨t, ?_, ?_, ?_⟩
  · rw [loopsUpTo, foldlM_take_indices _ (by omega)]
    simp only [Nat.zero_add, Nat.one_mul]
    unfold refill at hl
    rw [hl]
    change ((indices 0 85 1).take j).foldlM slot _ = _
    rw [foldlM_take_indices _ (by omega)]
    simp only [Nat.zero_add, Nat.one_mul]
    exact ht
  · have hchunks := total_chunks_le userbuff src n
    have hfields := total_fields_le (bufferAt userbuff src (n + 1)) j
    rw [hts, hs, ← UInt64.ofNat_add]
    exact UInt64.toNat_ofNat_of_lt' (show _ < 2 ^ 64 by omega)
  · rw [hte, he, ← UInt64.ofNat_add]
    exact UInt64.toNat_ofNat_of_lt' (show _ < 2 ^ 64 by omega)

/-- The read stops one byte short of the window: its last place is for the terminator. -/
lemma refill_congr (b : Buf 256) {w w' : Src} (h : ∀ p < 255, w p = w' p) :
    refill b w = refill b w' := by
  simp only [refill, bpfProbeReadStr, str_congr h]

lemma bufferAt_congr (userbuff : Buf 256) {src src' : Src}
    (h : ∀ p < 4096, p % 256 ≠ 255 → src' p = src p) {i : ℕ} (hi : i ≤ 16) :
    bufferAt userbuff src' i = bufferAt userbuff src i := by
  induction i with
  | zero => exact refill_congr userbuff fun p hp => h p (by omega) (by omega)
  | succ i ih =>
    rw [bufferAt, bufferAt, ih (by omega)]
    apply refill_congr
    intro p hp
    exact h (i * 256 + p) (by omega) (by omega)

lemma bpfCopyout_congr (userbuff : Buf 256) (ctx : PtRegs) (m : Machine) {src' : Src}
    (h : ∀ p < 4096, p % 256 ≠ 255 → src' p = ctx.fromPtr p) :
    bpfCopyout userbuff { ctx with fromPtr := src' } m = bpfCopyout userbuff ctx m := by
  let ctx' : PtRegs := { ctx with fromPtr := src' }
  by_cases hto : ctx.toPtr = m.registered
  · have hto' : ctx'.toPtr = m.registered := hto
    have hmean : stagedMean userbuff src' = stagedMean userbuff ctx.fromPtr := by
      apply reduction_congr
      intro ij hij
      have hi := (mem_grid.mp hij).1
      rw [windowValue, windowValue, bufferAt_congr userbuff h (by omega)]
    rw [bpfCopyout_matched userbuff hto', bpfCopyout_matched userbuff hto, hmean]
  · have hto' : ctx'.toPtr ≠ m.registered := hto
    rw [bpfCopyout_unmatched userbuff hto', bpfCopyout_unmatched userbuff hto]

lemma bench_result_of_values (userbuff : Buf 256) {ctx : PtRegs} {m : Machine} {v : ℕ → ℕ → ℕ}
    (h : ctx.toPtr = m.registered)
    (hv : ∀ i < 16, ∀ j < 85, windowValue userbuff ctx.fromPtr (i, j) = some (v i j)) :
    (bpfCopyout userbuff ctx m).1 = 0 ∧
      (bpfCopyout userbuff ctx m).2.result.toNat =
        (∑ i ∈ Finset.range 16, ∑ j ∈ Finset.range 85, v i j) / 1360 := by
  have hval : ∀ ij ∈ grid, windowValue userbuff ctx.fromPtr ij = some (v ij.1 ij.2) := by
    intro ij hij
    exact hv ij.1 (mem_grid.mp hij).1 ij.2 (mem_grid.mp hij).2
  have hmean : stagedMean userbuff ctx.fromPtr =
      some ((∑ i ∈ Finset.range 16, ∑ j ∈ Finset.range 85, v i j) / 1360) := by
    rw [stagedMean, reduction_of_eq_some hval, card_grid, grid, Finset.sum_product]
  have hlt := (stagedMean_lt hmean).trans (by norm_num : 1000 < 2 ^ 64)
  rw [bpfCopyout_matched userbuff h, hmean, settle_some, id_eq, result_publish,
    UInt64.toNat_ofNat_of_lt' hlt]
  exact ⟨rfl, rfl⟩

lemma loopsUpTo_values (userbuff : Buf 256) (src : Src) {v : ℕ → ℕ → ℕ}
    (hv : ∀ i < 16, ∀ j < 85, windowValue userbuff src (i, j) = some (v i j)) {n j : ℕ}
    (hn : n < 16) (hj : j ≤ 85) :
    ∃ l, loopsUpTo userbuff src n j = .ok l ∧
      l.sum.toNat = ∑ i ∈ Finset.range n, ∑ j ∈ Finset.range 85, v i j +
        ∑ j ∈ Finset.range j, v n j ∧
      l.elems.toNat = 85 * n + j := by
  obtain ⟨l, hl, hsum, helems⟩ := loopsUpTo_exact userbuff src hn hj
    fun i hi j hj => by rw [hv i hi j hj]; rfl
  refine ⟨l, hl, ?_, helems⟩
  rw [hsum, total_of_eq_some (f := fun ij => v ij.1 ij.2), total_of_eq_some (f := v n),
    Finset.sum_product]
  · intro i hi
    exact hv n hn i ((Finset.mem_range.mp hi).trans_le hj)
  · intro ij hij
    simp only [Finset.mem_product, Finset.mem_range] at hij
    exact hv ij.1 (hij.1.trans hn) ij.2 hij.2

lemma bench_stopped_of_undefined (userbuff : Buf 256) {ctx : PtRegs} {m : Machine}
    (h : ctx.toPtr = m.registered)
    (hnone : ∃ i < 16, ∃ j < 85, windowValue userbuff ctx.fromPtr (i, j) = none) :
    bpfCopyout userbuff ctx m = (1, m.bpfOverrideReturn 0) := by
  obtain ⟨i, hi, j, hj, hnone⟩ := hnone
  have hmean : stagedMean userbuff ctx.fromPtr = none := by
    rw [stagedMean, reduction_eq_none_iff]
    exact ⟨(i, j), mem_grid.mpr ⟨hi, hj⟩, hnone⟩
  rw [bpfCopyout_matched userbuff h, hmean, settle_none]

/-- The sum is exact before every slot of every chunk. The bytes at `256i + 255` take part
in the read but not in the outcome: any readable source that differs only there gives the
same outcome. -/
theorem bpfbench_result_exact (userbuff : Buf 256) {ctx : PtRegs} {m : Machine}
    (h : ctx.toPtr = m.registered) (hread : ∀ p < 4096, ∃ b, ctx.fromPtr p = some b ∧ b ≠ 0) :
    let out := bpfCopyout userbuff ctx m
    (∀ v : ℕ → ℕ → ℕ,
      (∀ i < 16, ∀ j < 85, fieldValue (fieldText ctx.fromPtr i j) = some (v i j)) →
      out.1 = 0 ∧
      out.2.result.toNat = (∑ i ∈ Finset.range 16, ∑ j ∈ Finset.range 85, v i j) / 1360 ∧
      ∀ n < 16, ∀ j ≤ 85, ∃ l, loopsUpTo userbuff ctx.fromPtr n j = .ok l ∧
        l.sum.toNat = ∑ i ∈ Finset.range n, ∑ j ∈ Finset.range 85, v i j +
          ∑ j ∈ Finset.range j, v n j ∧
        l.elems.toNat = 85 * n + j) ∧
    ((∃ i < 16, ∃ j < 85, fieldValue (fieldText ctx.fromPtr i j) = none) →
      out.1 = 1 ∧ out.2.resultMap = m.resultMap) ∧
    ∀ src' : Src, (∀ p < 4096, (src' p).isSome ∧ (p % 256 ≠ 255 → src' p = ctx.fromPtr p)) →
      bpfCopyout userbuff { ctx with fromPtr := src' } m = out := by
  refine ⟨fun v hv => ?_, fun hnone => ?_, fun src' hsame => ?_⟩
  · have hval : ∀ i < 16, ∀ j < 85, windowValue userbuff ctx.fromPtr (i, j) = some (v i j) := by
      intro i hi j hj
      rw [windowValue_text hread userbuff hi hj, hv i hi j hj]
    obtain ⟨hret, hres⟩ := bench_result_of_values userbuff h hval
    exact ⟨hret, hres, fun n hn j hj => loopsUpTo_values userbuff ctx.fromPtr hval hn hj⟩
  · obtain ⟨i, hi, j, hj, hnone⟩ := hnone
    have hstop := bench_stopped_of_undefined userbuff h
      ⟨i, hi, j, hj, (windowValue_text hread userbuff hi hj).trans hnone⟩
    exact ⟨by rw [hstop], by rw [hstop]; rfl⟩
  · exact bpfCopyout_congr userbuff ctx m fun p hp => (hsame p hp).2

theorem bpfbench_result_ones :
    let out := bpfCopyout (Buf.zeros 256) ⟨8192, onesPage, 4096⟩ (Machine.ready 8192)
    out.1 = 0 ∧ out.2.result.toNat = 111 := by
  have hexact := @bpfbench_result_exact (Buf.zeros 256) ⟨8192, onesPage, 4096⟩
    (Machine.ready 8192) rfl fun _ _ => ⟨49, rfl, by decide⟩
  obtain ⟨hret, hres, -⟩ := hexact.1 (fun _ _ => 111) fun _ _ _ _ => rfl
  exact ⟨hret, hres.trans (by simp)⟩

end Bpfbench

end FilterReduce.ExactResults
