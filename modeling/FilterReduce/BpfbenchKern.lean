import FilterReduce.EarlyExit
import FilterReduce.Reduction
import FilterReduce.CopyoutProbe

/-!
# `bpfbench_kern.c`

The reducer that stages the page through a 256-byte stack buffer, sixteen times,
and converts 85 three-byte fields of each stage. `userbuff` is not cleared between
stages, so a field is described through the contents of the buffer, `bufferAt`.
-/
namespace FilterReduce.BpfbenchKern
open CString Helpers EarlyExit Reduction CopyoutProbe CopyoutProbe.Machine

structure Locals where
  userbuff : Buf 256
  num : UInt64
  sum : UInt64
  elems : UInt64

def slot (l : Locals) (j : ℕ) : Except ℤ Locals :=
  let conv := bpfStrtoul (l.userbuff.src.shift (j * 3)) 3 l.num
  if conv.1 < 0 then .error 1
  else .ok { l with num := conv.2, elems := l.elems + 1, sum := l.sum + conv.2 }

def chunk (src : Src) (l : Locals) (i : ℕ) : Except ℤ Locals :=
  let userbuff := (bpfProbeReadStr l.userbuff (src.shift (i * 256))).2
  (indices 0 85 1).foldlM slot { l with userbuff }

/-- `bpf_copyout`; the argument is what the stack holds where `userbuff` is declared. -/
def bpfCopyout (userbuff : Buf 256) : Program := fun ctx m =>
  match m.myReadMap.lookup 0 with
  | none => (0, m)
  | some val =>
    if ctx.toPtr = val then
      let m := m.bpfOverrideReturn 0
      -- the loop repeats this first read
      let userbuff := (bpfProbeReadStr userbuff ctx.fromPtr).2
      match (indices 0 16 1).foldlM (chunk ctx.fromPtr) ⟨userbuff, 0, 0, 0⟩ with
      | .error ret => (ret, m)
      | .ok l => (0, m.publish (l.sum / l.elems))
    else (0, m)

def window (src : Src) (i : ℕ) : Src := src.shift (i * 256)

def refill (b : Buf 256) (w : Src) : Buf 256 := (bpfProbeReadStr b w).2

/-- Contents of `userbuff` when chunk `i` begins. -/
def bufferAt (userbuff : Buf 256) (src : Src) : ℕ → Buf 256
  | 0 => refill userbuff src
  | i + 1 => refill (bufferAt userbuff src i) (window src i)

def fieldAt (b : Buf 256) (j : ℕ) : Option ℕ := fieldValue ((b.src.shift (j * 3)).bytes 3)

/-- What chunk `ij.1` adds for its field `ij.2`. -/
def windowValue (userbuff : Buf 256) (src : Src) (ij : ℕ × ℕ) : Option ℕ :=
  fieldAt (bufferAt userbuff src (ij.1 + 1)) ij.2

def grid : Finset (ℕ × ℕ) := Finset.range 16 ×ˢ Finset.range 85

def stagedMean (userbuff : Buf 256) (src : Src) : Option ℕ :=
  reduction grid (windowValue userbuff src)

@[simp] lemma mem_grid {ij : ℕ × ℕ} : ij ∈ grid ↔ ij.1 < 16 ∧ ij.2 < 85 := by simp [grid]

lemma card_grid : grid.card = 1360 := by simp [grid]

lemma fieldAt_lt {b : Buf 256} {j v : ℕ} (h : fieldAt b j = some v) : v < 1000 := by
  have hlen : ((b.src.shift (j * 3)).bytes 3).length ≤ 3 := by
    refine (List.length_filterMap_le _ _).trans ?_
    simp
  calc v < 10 ^ ((b.src.shift (j * 3)).bytes 3).length := fieldValue_lt h
    _ ≤ 10 ^ 3 := Nat.pow_le_pow_right (by omega) hlen

/-- A field of a refilled buffer: the window decides it as long as it starts no later
than the window's first NUL, else the old contents show through. -/
theorem fieldAt_refill (b : Buf 256) (w : Src) {j : ℕ} (hj : j < 85) :
    fieldAt (refill b w) j =
      match w.str 255 with
      | none => none
      | some s => if j * 3 ≤ s.length then fieldValue ((s.drop (j * 3)).take 3)
          else fieldAt b j :=
  fieldValue_readStr (by omega) b w (by omega)

lemma windowValue_source (userbuff : Buf 256) {src : Src} {i j : ℕ} (hj : j < 85)
    (h : ∀ p < 255, ∃ b, window src i p = some b ∧ b ≠ 0) :
    windowValue userbuff src (i, j) = fieldValue ((src.shift (256 * i + 3 * j)).bytes 3) := by
  obtain ⟨s, hs, hlen⟩ := str_full h
  obtain ⟨-, hp, -⟩ := str_eq_some_iff.mp hs
  rw [windowValue, bufferAt, fieldAt_refill _ _ hj, hs]
  have hin : j * 3 ≤ s.length := by omega
  simp only [if_pos hin]
  congr 1
  symm
  apply bytes_eq_take
  intro p hp3
  rw [List.getElem?_drop, ← hp _ (by omega), window, shift_apply, shift_apply]
  congr 1
  omega

lemma slot_some {l : Locals} {j v : ℕ} (h : fieldAt l.userbuff j = some v) :
    ∃ t, slot l j = .ok t ∧ t.userbuff = l.userbuff ∧ t.sum = l.sum + UInt64.ofNat v ∧
      t.elems = l.elems + 1 := by
  obtain ⟨hres, hnum⟩ := bpfStrtoul_some h (by omega) l.num
  simp only [slot, if_neg (not_lt.mpr hres), hnum]
  exact ⟨_, rfl, rfl, rfl, rfl⟩

lemma slot_none {l : Locals} {j : ℕ} (h : fieldAt l.userbuff j = none) :
    slot l j = .error 1 := by
  simp [slot, bpfStrtoul_none h]

/-- Inner invariant, relative to the sum `s` and count `e` at the start of the chunk. -/
def SlotInv (b : Buf 256) (s e : UInt64) (j : ℕ) (l : Locals) : Prop :=
  l.userbuff = b ∧ l.sum = s + UInt64.ofNat (total (Finset.range j) (fieldAt b)) ∧
    l.elems = e + UInt64.ofNat j

lemma slotInv_step {b : Buf 256} {s e : UInt64} {j : ℕ} {l : Locals} (hl : SlotInv b s e j l)
    (hj : (fieldAt b j).isSome) : ∃ t, slot l j = .ok t ∧ SlotInv b s e (j + 1) t := by
  obtain ⟨hb, hs, he⟩ := hl
  obtain ⟨v, hv⟩ := Option.isSome_iff_exists.mp hj
  obtain ⟨t, ht, htb, hts, hte⟩ := slot_some (hb ▸ hv)
  refine ⟨t, ht, htb.trans hb, ?_, ?_⟩
  · rw [hts, hs, total, total, Finset.sum_range_succ, hv, UInt64.ofNat_add, UInt64.add_assoc]
    rfl
  · rw [hte, he, UInt64.ofNat_add, UInt64.add_assoc]
    rfl

lemma chunk_defined {src : Src} {l : Locals} {i : ℕ}
    (h : ∀ j < 85, (fieldAt (refill l.userbuff (window src i)) j).isSome) :
    ∃ t, chunk src l i = .ok t ∧
      SlotInv (refill l.userbuff (window src i)) l.sum l.elems 85 t := by
  simp only [chunk, foldlM_indices_unit]
  refine loop_ok (fun j l hl hj => slotInv_step hl hj) ⟨rfl, ?_, ?_⟩ h
  · simp [total]
  · simp

lemma chunk_undefined {src : Src} {l : Locals} {i : ℕ}
    (h : ∃ j < 85, ¬ (fieldAt (refill l.userbuff (window src i)) j).isSome) :
    chunk src l i = .error 1 := by
  simp only [chunk, foldlM_indices_unit]
  refine loop_error (I := SlotInv (refill l.userbuff (window src i)) l.sum l.elems)
    (fun j l hl hj => slotInv_step hl hj) ?_ ⟨rfl, ?_, ?_⟩ h
  · intro j t ht hj
    exact slot_none (by simpa [ht.1] using hj)
  · simp [total]
  · simp

/-- Outer invariant: the buffer is `bufferAt`, sum and count are those of `i` chunks. -/
def ChunkInv (userbuff : Buf 256) (src : Src) (i : ℕ) (l : Locals) : Prop :=
  l.userbuff = bufferAt userbuff src i ∧
    l.sum = UInt64.ofNat
      (total (Finset.range i ×ˢ Finset.range 85) (windowValue userbuff src)) ∧
    l.elems = UInt64.ofNat (85 * i)

lemma total_succ_chunks (userbuff : Buf 256) (src : Src) (i : ℕ) :
    total (Finset.range (i + 1) ×ˢ Finset.range 85) (windowValue userbuff src) =
      total (Finset.range i ×ˢ Finset.range 85) (windowValue userbuff src) +
        total (Finset.range 85) (fieldAt (bufferAt userbuff src (i + 1))) := by
  simp only [total, Finset.sum_product, Finset.sum_range_succ _ i]
  rfl

lemma chunkInv_step {userbuff : Buf 256} {src : Src} {i : ℕ} {l : Locals}
    (hl : ChunkInv userbuff src i l)
    (hi : ∀ j < 85, (windowValue userbuff src (i, j)).isSome) :
    ∃ t, chunk src l i = .ok t ∧ ChunkInv userbuff src (i + 1) t := by
  obtain ⟨hb, hs, he⟩ := hl
  have hbuf : refill l.userbuff (window src i) = bufferAt userbuff src (i + 1) := by
    rw [hb]
    rfl
  obtain ⟨t, ht, htb, hts, hte⟩ := chunk_defined (l := l) (i := i) (by rw [hbuf]; exact hi)
  refine ⟨t, ht, htb.trans hbuf, ?_, ?_⟩
  · rw [hts, hs, hbuf, total_succ_chunks, UInt64.ofNat_add]
  · rw [hte, he, Nat.mul_succ, UInt64.ofNat_add]

lemma chunk_stops {userbuff : Buf 256} {src : Src} {i : ℕ} {l : Locals}
    (hl : ChunkInv userbuff src i l)
    (hi : ¬ ∀ j < 85, (windowValue userbuff src (i, j)).isSome) :
    chunk src l i = .error 1 := by
  apply chunk_undefined
  rw [hl.1]
  push Not at hi
  exact hi

lemma chunkInv_start (userbuff : Buf 256) (src : Src) :
    ChunkInv userbuff src 0 ⟨refill userbuff src, 0, 0, 0⟩ :=
  ⟨rfl, by simp [total], rfl⟩

lemma total_fields_le (b : Buf 256) (n : ℕ) : total (Finset.range n) (fieldAt b) ≤ n * 999 := by
  refine (total_le (b := 999) ?_).trans_eq (by simp)
  intro j _ v hv
  have := fieldAt_lt hv
  omega

lemma total_chunks_le (userbuff : Buf 256) (src : Src) (n : ℕ) :
    total (Finset.range n ×ˢ Finset.range 85) (windowValue userbuff src) ≤ n * 85 * 999 := by
  refine (total_le (b := 999) ?_).trans_eq (by simp)
  intro ij _ v hv
  have := fieldAt_lt hv
  omega

lemma avg_eq {userbuff : Buf 256} {src : Src} {l : Locals} (hl : ChunkInv userbuff src 16 l) :
    l.sum / l.elems =
      UInt64.ofNat (total grid (windowValue userbuff src) / grid.card) := by
  have hlt : total grid (windowValue userbuff src) < 2 ^ 64 :=
    (total_chunks_le userbuff src 16).trans_lt (by norm_num)
  rw [card_grid, hl.2.1, hl.2.2, UInt64.ofNat_div hlt (by norm_num)]
  rfl

lemma stagedMean_lt {userbuff : Buf 256} {src : Src} {avg : ℕ}
    (h : stagedMean userbuff src = some avg) : avg < 1000 := by
  have hsome : ∀ ij ∈ grid, (windowValue userbuff src ij).isSome :=
    reduction_isSome_iff.mp (by rw [← stagedMean, h]; rfl)
  rw [stagedMean, reduction_of_defined hsome, card_grid] at h
  obtain rfl := Option.some.inj h
  have hle : total grid (windowValue userbuff src) ≤ 16 * 85 * 999 :=
    total_chunks_le userbuff src 16
  omega

/-- A call whose `to` is registered: overridden at once, then it either publishes the
mean of all staged fields, or stops with 1 at the first field without a number. -/
theorem bpfCopyout_matched (userbuff : Buf 256) {ctx : PtRegs} {m : Machine}
    (h : ctx.toPtr = m.registered) :
    bpfCopyout userbuff ctx m =
      (m.bpfOverrideReturn 0).settle id (stagedMean userbuff ctx.fromPtr) := by
  unfold bpfCopyout
  rw [ArrayMap.lookup_zero]
  simp only [show ctx.toPtr = m.myReadMap.first from h, if_true]
  have hstart := chunkInv_start userbuff ctx.fromPtr
  rw [foldlM_indices_unit]
  by_cases hall : ∀ i < 16, ∀ j < 85, (windowValue userbuff ctx.fromPtr (i, j)).isSome
  · obtain ⟨l, hl, hinv⟩ := loop_ok (fun i l hl hi => chunkInv_step hl hi) hstart hall
    have hdef : ∀ ij ∈ grid, (windowValue userbuff ctx.fromPtr ij).isSome := by
      intro ij hij
      exact hall ij.1 (mem_grid.mp hij).1 ij.2 (mem_grid.mp hij).2
    rw [stagedMean, reduction_of_defined hdef]
    unfold refill at hl
    simp [hl, avg_eq hinv]
  · have hnone : stagedMean userbuff ctx.fromPtr = none := by
      rw [stagedMean, reduction_eq_none_iff]
      push Not at hall
      obtain ⟨i, hi, j, hj, hij⟩ := hall
      exact ⟨(i, j), mem_grid.mpr ⟨hi, hj⟩, by simpa using hij⟩
    have hstop : ∃ i < 16, ¬ ∀ j < 85, (windowValue userbuff ctx.fromPtr (i, j)).isSome := by
      simpa using hall
    have hl := loop_error (fun i l hl hi => chunkInv_step hl hi)
      (fun i l hl hi => chunk_stops hl hi) hstart hstop
    unfold refill at hl
    simp [hl, hnone]

theorem bpfCopyout_unmatched (userbuff : Buf 256) {ctx : PtRegs} {m : Machine}
    (h : ctx.toPtr ≠ m.registered) : bpfCopyout userbuff ctx m = (0, m) := by
  unfold bpfCopyout
  rw [ArrayMap.lookup_zero]
  exact if_neg h

end FilterReduce.BpfbenchKern
