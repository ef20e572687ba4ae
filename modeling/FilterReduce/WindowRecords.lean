import FilterReduce.BpfbenchKern
import FilterReduce.Records

/-!
# The chunked reducer on two-digit records

A window of 256 bytes is no multiple of a record, so the fields of the chunks drift
against the records: chunk `3m` reads whole records, chunk `3m + 1` starts at their
second digit, chunk `3m + 2` at the separator before them. The module computes what
the sixteen chunks miss, and from that when the chunked and the per-record reducer agree.
-/
namespace FilterReduce.WindowRecords
open CString Helpers Reduction CopyoutProbe CopyoutProbe.Machine Records
open BpfbenchKern (window windowValue windowValue_source grid stagedMean mem_grid card_grid)
open ReaditerKern (slotValue pageMean slots)

/-- A page of records: digits everywhere but a blank at every third byte. -/
def RecordPage (src : Src) : Prop :=
  ∀ p < 4096, ByteIs src p (if p % 3 = 2 then fun b => b = 32 else isDigit)

def offsetValue (src : Src) (q : ℕ) : ℕ :=
  if q % 3 = 0 then recordNumber src (q / 3)
  else if q % 3 = 1 then units src (q / 3)
  else recordNumber src (q / 3 + 1)

def windowTotal (src : Src) : ℕ :=
  ∑ i ∈ Finset.range 16, ∑ j ∈ Finset.range 85, offsetValue src (256 * i + 3 * j)

def pageTotal (src : Src) : ℕ := ∑ k ∈ Finset.range slots, recordNumber src k

/-- What the chunks miss: of every 256 records the tens of the 85 records in the middle
window, and the record that the end of this window cuts. -/
def dropped (src : Src) : ℕ :=
  ∑ m ∈ Finset.range 5,
    (∑ j ∈ Finset.range 85, 10 * tens src (256 * m + 85 + j) + recordNumber src (256 * m + 170))

lemma byteIs_digit {src : Src} (h : RecordPage src) {p : ℕ} (hp : p < 4096) (hmod : p % 3 ≠ 2) :
    ByteIs src p isDigit := by
  have := h p hp
  rwa [if_neg hmod] at this

lemma byte_blank {src : Src} (h : RecordPage src) {p : ℕ} (hp : p < 4096) (hmod : p % 3 = 2) :
    src p = some 32 := by
  have hb := h p hp
  rw [if_pos hmod] at hb
  obtain ⟨b, hb, hval⟩ := hb
  rw [hb, of_decide_eq_true hval]

lemma byte_ne_nul {src : Src} (h : RecordPage src) {p : ℕ} (hp : p < 4096) :
    ∃ b, src p = some b ∧ b ≠ 0 := by
  by_cases hmod : p % 3 = 2
  · exact ⟨32, byte_blank h hp hmod, by decide⟩
  · obtain ⟨b, hb, hd⟩ := byteIs_digit h hp hmod
    refine ⟨b, hb, ?_⟩
    rintro rfl
    exact absurd hd (by decide)

/-- The three alignments of a field: `dd␣`, `d␣d` and `␣dd`. -/
lemma fieldValue_page {src : Src} (h : RecordPage src) {q : ℕ} (hq : q + 2 < 4096) :
    fieldValue ((src.shift q).bytes 3) = some (offsetValue src q) := by
  have hblank : isDigit 32 = false := by decide
  have hcases : q % 3 = 0 ∨ q % 3 = 1 ∨ q % 3 = 2 := by omega
  rcases hcases with h0 | h1 | h2
  · obtain ⟨b, hb, hbd⟩ := byteIs_digit h (p := q) (by omega) (by omega)
    obtain ⟨c, hc, hcd⟩ := byteIs_digit h (p := q + 1) (by omega) (by omega)
    have hd := byte_blank h hq (by omega)
    have hk : 3 * (q / 3) = q := by omega
    rw [bytes_three (b := b) (c := c) (d := 32) hb hc hd,
      fieldValue_two_digits hbd hcd (by simp [hblank])]
    simp [offsetValue, h0, recordNumber, tens, units, hk, hb, hc]
  · obtain ⟨b, hb, hbd⟩ := byteIs_digit h (p := q) (by omega) (by omega)
    have hc := byte_blank h (p := q + 1) (by omega) (by omega)
    obtain ⟨d, hd, -⟩ := byteIs_digit h (p := q + 2) (by omega) (by omega)
    have hk : 3 * (q / 3) + 1 = q := by omega
    rw [bytes_three (b := b) (c := 32) (d := d) hb hc hd,
      fieldValue_one_digit hbd (by simp [hblank])]
    simp [offsetValue, h1, units, hk, hb]
  · have hb := byte_blank h (p := q) (by omega) (by omega)
    obtain ⟨c, hc, hcd⟩ := byteIs_digit h (p := q + 1) (by omega) (by omega)
    obtain ⟨d, hd, hdd⟩ := byteIs_digit h (p := q + 2) (by omega) (by omega)
    have hk : 3 * (q / 3 + 1) = q + 1 := by omega
    rw [bytes_three (b := 32) (c := c) (d := d) hb hc hd, fieldValue_space (by decide),
      fieldValue_two_digits hcd hdd (by simp)]
    simp [offsetValue, h2, recordNumber, tens, units, hk, hc, hd]

lemma windowValue_page {src : Src} (h : RecordPage src) (userbuff : Buf 256) {i j : ℕ}
    (hi : i < 16) (hj : j < 85) :
    windowValue userbuff src (i, j) = some (offsetValue src (256 * i + 3 * j)) := by
  have hwin : ∀ p < 255, ∃ b, window src i p = some b ∧ b ≠ 0 := by
    intro p hp
    exact byte_ne_nul h (p := i * 256 + p) (by omega)
  rw [windowValue_source userbuff hj hwin, fieldValue_page h (by omega)]

theorem stagedMean_page {src : Src} (h : RecordPage src) (userbuff : Buf 256) :
    stagedMean userbuff src = some (windowTotal src / 1360) := by
  have hval : ∀ ij ∈ grid,
      windowValue userbuff src ij = some (offsetValue src (256 * ij.1 + 3 * ij.2)) := by
    intro ij hij
    exact windowValue_page h userbuff (mem_grid.mp hij).1 (mem_grid.mp hij).2
  rw [stagedMean, reduction_of_eq_some hval, card_grid, grid, Finset.sum_product, windowTotal]

theorem pageMean_page {src : Src} (h : RecordPage src) :
    pageMean src = some (pageTotal src / 1365) := by
  have hval : ∀ k ∈ Finset.range slots, slotValue src k = some (recordNumber src k) := by
    intro k hk
    have hk' := Finset.mem_range.mp hk
    simp only [slots] at hk'
    exact slotValue_digits (byteIs_digit h (by omega) (by omega))
      (byteIs_digit h (by omega) (by omega))
  rw [pageMean, reduction_of_eq_some hval, Finset.card_range, pageTotal, slots]

lemma aligned_chunk (src : Src) (m j : ℕ) :
    offsetValue src (256 * (3 * m) + 3 * j) = recordNumber src (256 * m + j) := by
  have hmod : (256 * (3 * m) + 3 * j) % 3 = 0 := by omega
  have hdiv : (256 * (3 * m) + 3 * j) / 3 = 256 * m + j := by omega
  rw [offsetValue, if_pos hmod, hdiv]

lemma shifted_chunk (src : Src) (m j : ℕ) :
    offsetValue src (256 * (3 * m + 1) + 3 * j) = units src (256 * m + 85 + j) := by
  have hmod : (256 * (3 * m + 1) + 3 * j) % 3 = 1 := by omega
  have hdiv : (256 * (3 * m + 1) + 3 * j) / 3 = 256 * m + 85 + j := by omega
  rw [offsetValue, if_neg (by omega), if_pos hmod, hdiv]

lemma blank_chunk (src : Src) (m j : ℕ) :
    offsetValue src (256 * (3 * m + 2) + 3 * j) = recordNumber src (256 * m + 171 + j) := by
  have hdiv : (256 * (3 * m + 2) + 3 * j) / 3 + 1 = 256 * m + 171 + j := by omega
  rw [offsetValue, if_neg (by omega), if_neg (by omega), hdiv]

/-- 256 records: the middle window misses the tens of its 85 records, and the record
after them lies in no window. -/
lemma block_total (src : Src) (m : ℕ) :
    ∑ k ∈ Finset.range 256, recordNumber src (256 * m + k) =
      ∑ i ∈ Finset.range 3, ∑ j ∈ Finset.range 85, offsetValue src (256 * (3 * m + i) + 3 * j) +
        (∑ j ∈ Finset.range 85, 10 * tens src (256 * m + 85 + j) +
          recordNumber src (256 * m + 170)) := by
  have hmid : ∑ j ∈ Finset.range 85, recordNumber src (256 * m + 85 + j) =
      ∑ j ∈ Finset.range 85, 10 * tens src (256 * m + 85 + j) +
        ∑ j ∈ Finset.range 85, units src (256 * m + 85 + j) := Finset.sum_add_distrib
  have hsplit : (256 : ℕ) = 85 + 85 + 1 + 85 := rfl
  have hchunks : ∑ i ∈ Finset.range 3, ∑ j ∈ Finset.range 85,
      offsetValue src (256 * (3 * m + i) + 3 * j) =
        ∑ j ∈ Finset.range 85, recordNumber src (256 * m + j) +
          ∑ j ∈ Finset.range 85, units src (256 * m + 85 + j) +
          ∑ j ∈ Finset.range 85, recordNumber src (256 * m + 171 + j) := by
    rw [Finset.sum_range_succ, Finset.sum_range_succ, Finset.sum_range_one]
    simp only [Nat.add_zero, aligned_chunk, shifted_chunk, blank_chunk]
  rw [hchunks]
  conv_lhs => rw [hsplit]
  rw [Finset.sum_range_add, Finset.sum_range_succ, Finset.sum_range_add]
  simp only [← Nat.add_assoc, hmid]
  ring

theorem windowTotal_add_dropped (src : Src) : windowTotal src + dropped src = pageTotal src := by
  have hlast : ∀ j, offsetValue src (256 * 15 + 3 * j) = recordNumber src (1280 + j) :=
    fun j => aligned_chunk src 5 j
  rw [windowTotal, show 16 = 3 * 5 + 1 from rfl, Finset.sum_range_succ, sum_range_blocks,
    pageTotal, show slots = 256 * 5 + 85 from rfl, Finset.sum_range_add, sum_range_blocks]
  simp only [block_total, Finset.sum_add_distrib, dropped, hlast]
  ring

lemma bench_publishes (userbuff : Buf 256) {ctx : PtRegs} {m : Machine}
    (hpage : RecordPage ctx.fromPtr) (h : ctx.toPtr = m.registered) :
    (BpfbenchKern.bpfCopyout userbuff ctx m).1 = 0 ∧
      (BpfbenchKern.bpfCopyout userbuff ctx m).2.result =
        UInt64.ofNat (windowTotal ctx.fromPtr / 1360) := by
  rw [BpfbenchKern.bpfCopyout_matched userbuff h, stagedMean_page hpage, settle_some]
  exact ⟨rfl, result_publish _ _⟩

lemma plain_publishes (curr : Buf 3) {ctx : PtRegs} {m : Machine}
    (hpage : RecordPage ctx.fromPtr) (h : ctx.toPtr = m.registered) :
    (ReaditerKern.bpfCopyout curr ctx m).1 = 0 ∧
      (ReaditerKern.bpfCopyout curr ctx m).2.result =
        UInt64.ofNat (pageTotal ctx.fromPtr / 1365) := by
  rw [ReaditerKern.bpfCopyout_matched curr h, pageMean_page hpage, settle_some]
  exact ⟨rfl, result_publish _ _⟩

lemma div_eq_div_iff_slack {w d t : ℕ} (h : w + d = t) :
    w / 1360 = t / 1365 ↔ d ≤ 5 * (t / 1365) + t % 1365 ∧
      5 * (t / 1365) + t % 1365 < d + 1360 := by
  omega

/-- On a page of records both reducers return 0; they store the same value if and only
if the loss is within what dividing by five elements less makes up for. -/
theorem reducers_agree_iff (userbuff : Buf 256) (curr : Buf 3) {ctx : PtRegs} {mb mr : Machine}
    (hpage : RecordPage ctx.fromPtr) (hb : ctx.toPtr = mb.registered)
    (hr : ctx.toPtr = mr.registered) :
    let bench := BpfbenchKern.bpfCopyout userbuff ctx mb
    let plain := ReaditerKern.bpfCopyout curr ctx mr
    let slack := 5 * (pageTotal ctx.fromPtr / 1365) + pageTotal ctx.fromPtr % 1365
    (bench.1 = 0 ∧ plain.1 = 0 ∧ bench.2.result = plain.2.result) ↔
      dropped ctx.fromPtr ≤ slack ∧ slack < dropped ctx.fromPtr + 1360 := by
  intro bench plain slack
  obtain ⟨hb0, hbres⟩ := bench_publishes userbuff hpage hb
  obtain ⟨hr0, hrres⟩ := plain_publishes curr hpage hr
  have hsum := windowTotal_add_dropped ctx.fromPtr
  have hmean := ReaditerKern.pageMean_lt (pageMean_page hpage)
  rw [hb0, hr0, hbres, hrres, ofNat_eq_ofNat_iff (by omega) (by omega),
    div_eq_div_iff_slack hsum]
  simp [slack]

def tenPage : Src := fun p => some (if p % 3 = 2 then 32 else if p % 3 = 1 then 48 else 49)

lemma tenPage_recordPage : RecordPage tenPage := by
  intro p _
  refine ⟨_, rfl, ?_⟩
  split_ifs <;> decide

lemma tenPage_tens (k : ℕ) : tens tenPage k = 1 := by
  have hmod : 3 * k % 3 = 0 := by omega
  simp [tens, tenPage, hmod, digit]

lemma tenPage_recordNumber (k : ℕ) : recordNumber tenPage k = 10 := by
  have hmod : (3 * k + 1) % 3 = 1 := by omega
  simp [recordNumber, tenPage_tens, units, tenPage, hmod, digit]

lemma tenPage_pageTotal : pageTotal tenPage = 13650 := by
  simp [pageTotal, tenPage_recordNumber, slots]

lemma tenPage_dropped : dropped tenPage = 4300 := by
  simp [dropped, tenPage_tens, tenPage_recordNumber]

lemma tenPage_windowTotal : windowTotal tenPage = 9350 := by
  have hsum := windowTotal_add_dropped tenPage
  rw [tenPage_pageTotal, tenPage_dropped] at hsum
  generalize windowTotal tenPage = total at *
  omega

theorem reducers_agree_tens :
    let ctx : PtRegs := ⟨4096, tenPage, 4096⟩
    let m := Machine.ready 4096
    let bench := BpfbenchKern.bpfCopyout (Buf.zeros 256) ctx m
    let plain := ReaditerKern.bpfCopyout (Buf.zeros 3) ctx m
    let slack := 5 * (pageTotal ctx.fromPtr / 1365) + pageTotal ctx.fromPtr % 1365
    RecordPage ctx.fromPtr ∧ ctx.toPtr = m.registered ∧
      ((bench.1 = 0 ∧ plain.1 = 0 ∧ bench.2.result = plain.2.result) ↔
        dropped ctx.fromPtr ≤ slack ∧ slack < dropped ctx.fromPtr + 1360) := by
  intro ctx m
  have hmatch : ctx.toPtr = m.registered := rfl
  exact ⟨tenPage_recordPage, hmatch,
    reducers_agree_iff (Buf.zeros 256) (Buf.zeros 3) tenPage_recordPage hmatch hmatch⟩

/-- On a page of `10`s the chunked reducer publishes 6, the per-record reducer 10. -/
theorem tens_reduced_differently :
    let ctx : PtRegs := ⟨4096, tenPage, 4096⟩
    let m := Machine.ready 4096
    RecordPage ctx.fromPtr ∧ ctx.toPtr = m.registered ∧
      (BpfbenchKern.bpfCopyout (Buf.zeros 256) ctx m).2.result = 6 ∧
      (ReaditerKern.bpfCopyout (Buf.zeros 3) ctx m).2.result = 10 := by
  intro ctx m
  have hmatch : ctx.toPtr = m.registered := rfl
  refine ⟨tenPage_recordPage, hmatch, ?_, ?_⟩
  · refine (bench_publishes _ tenPage_recordPage hmatch).2.trans ?_
    rw [show windowTotal ctx.fromPtr = 9350 from tenPage_windowTotal]
    rfl
  · refine (plain_publishes _ tenPage_recordPage hmatch).2.trans ?_
    rw [show pageTotal ctx.fromPtr = 13650 from tenPage_pageTotal]
    rfl

end FilterReduce.WindowRecords
