import FilterReduce.Records

/-!
# The requested length and the reduced data

`readiter_kern.c` parses the length of the request and does not use it: the loop always
runs over the 1365 slots of a page. This module settles for which requests the
published average is nevertheless that of the requested records.
-/
namespace FilterReduce.ReaditerRequest
open CString Helpers Reduction CopyoutProbe CopyoutProbe.Machine ReaditerKern Records

def requestMean (src : Src) (n : ℕ) : ℕ := (∑ k ∈ Finset.range n, recordNumber src k) / n

/-- Whatever stands behind the requested bytes, the call returns 0 and publishes the
mean of the requested records. -/
def CoversRequest (curr : Buf 3) (ctx : PtRegs) (m : Machine) : Prop :=
  ∀ page : Src, (∀ p < 4096, (page p).isSome) →
    (∀ p < ctx.blen.toNat, page p = ctx.fromPtr p) →
    let out := bpfCopyout curr { ctx with fromPtr := page } m
    out.1 = 0 ∧
      out.2.result = UInt64.ofNat (requestMean ctx.fromPtr (ctx.blen.toNat / 3))

/-- The request decides the outcome: all slots lie in it, or the last slot does and
changes no digit of the mean, or its first byte does and no second byte changes it. -/
def RequestDecides (src : Src) (blen : ℕ) : Prop :=
  let s := ∑ k ∈ Finset.range 1364, recordNumber src k
  4095 ≤ blen ∨
  (blen = 4094 ∧ ∃ v, slotValue src 1364 = some v ∧ (s + v) / 1365 = s / 1364) ∨
  (blen = 4093 ∧ ∃ b, src 4092 = some b ∧ isDigit b = true ∧
    (s + digit b) / 1365 = s / 1364 ∧ (s + (10 * digit b + 9)) / 1365 = s / 1364)

lemma requestMean_lt (src : Src) {n : ℕ} (hn : n ≤ 1365) (h : ∀ k < n, IsRecord src k) :
    requestMean src n < 2 ^ 64 := by
  have hle : ∑ k ∈ Finset.range n, recordNumber src k ≤ (Finset.range n).card * 99 := by
    apply Finset.sum_le_card_nsmul
    intro k hk
    obtain ⟨ht, hu, -⟩ := h k (Finset.mem_range.mp hk)
    have := recordValue_lt (slotValue_digits ht hu)
    omega
  rw [Finset.card_range] at hle
  calc requestMean src n ≤ ∑ k ∈ Finset.range n, recordNumber src k := Nat.div_le_self _ _
    _ ≤ n * 99 := hle
    _ < 2 ^ 64 := by omega

lemma coversRequest_iff (curr : Buf 3) {ctx : PtRegs} {m : Machine} (h : ctx.toPtr = m.registered)
    (hlen : ctx.blen.toNat ≤ 4096) (hrec : ∀ k < ctx.blen.toNat / 3, IsRecord ctx.fromPtr k) :
    CoversRequest curr ctx m ↔
      ∀ page : Src, (∀ p < 4096, (page p).isSome) →
        (∀ p < ctx.blen.toNat, page p = ctx.fromPtr p) →
        pageMean page = some (requestMean ctx.fromPtr (ctx.blen.toNat / 3)) := by
  have hq := requestMean_lt ctx.fromPtr (by omega) hrec
  refine forall_congr' fun page => ?_
  refine imp_congr_right fun _ => imp_congr_right fun _ => ?_
  exact @publishes_iff curr { ctx with fromPtr := page } m h _ hq

lemma slotValue_agree {src page : Src} {k n : ℕ} (hn : 3 * k + 1 < n)
    (hag : ∀ p < n, page p = src p) : slotValue page k = slotValue src k := by
  have hstr : (page.shift (3 * k)).str 2 = (src.shift (3 * k)).str 2 :=
    str_congr fun p hp => hag (3 * k + p) (by omega)
  simp only [slotValue, recordValue, hstr]

lemma slotValue_record {src page : Src} {k n : ℕ} (hn : 3 * k + 1 < n)
    (hag : ∀ p < n, page p = src p) (h : IsRecord src k) :
    slotValue page k = some (recordNumber src k) := by
  rw [slotValue_agree hn hag]
  exact slotValue_digits h.1 h.2.1

lemma pageMean_full {src page : Src}
    (h : ∀ k < slots, slotValue page k = some (recordNumber src k)) :
    pageMean page = some (requestMean src slots) := by
  have hmem : ∀ k ∈ Finset.range slots, slotValue page k = some (recordNumber src k) := by
    intro k hk
    exact h k (Finset.mem_range.mp hk)
  rw [pageMean, reduction_of_eq_some hmem, requestMean, Finset.card_range]

lemma pageMean_last {src page : Src}
    (h : ∀ k < 1364, slotValue page k = some (recordNumber src k)) :
    pageMean page = (slotValue page 1364).map fun v =>
      (∑ k ∈ Finset.range 1364, recordNumber src k + v) / 1365 :=
  reduction_range_succ h

def padded (src : Src) (blen : ℕ) (b : UInt8) : Src := fun p =>
  if p < blen then src p else if p = blen then some b else some 120

lemma padded_agree (src : Src) (blen : ℕ) (b : UInt8) :
    ∀ p < blen, padded src blen b p = src p := by
  intro p hp
  simp [padded, hp]

lemma padded_readable {src : Src} {blen : ℕ} (h : ∀ p < blen, (src p).isSome) (b : UInt8) :
    ∀ p < 4096, (padded src blen b p).isSome := by
  intro p _
  unfold padded
  split_ifs with hp
  · exact h p hp
  · rfl
  · rfl

lemma pageMean_padded_short {src : Src} {blen : ℕ} (h : blen ≤ 4092) :
    pageMean (padded src blen 120) = none := by
  apply reduction_eq_none_iff.mpr
  refine ⟨1364, by simp [slots], ?_⟩
  have hx : ∀ p, 4092 ≤ p → padded src blen 120 p = some 120 := by
    intro p hp
    have hnot : ¬ p < blen := by omega
    simp [padded, hnot]
  exact recordValue_bytes (b := 120) (c := 120) (hx _ (by omega)) (hx _ (by omega))

lemma div_eq_of_between {s a b v n q : ℕ} (ha : (s + a) / n = q) (hb : (s + b) / n = q)
    (hav : a ≤ v) (hvb : v ≤ b) : (s + v) / n = q := by
  apply le_antisymm
  · exact (Nat.div_le_div_right (by omega)).trans_eq hb
  · exact ha.symm.le.trans (Nat.div_le_div_right (by omega))

/-- The last slot, when its first byte is requested and its second is not: it must be
a digit, and then its value ranges from that digit to a number ending in nine. -/
lemma last_byte_iff {src : Src} {b : UInt8} (hb : src 4092 = some b)
    (hread : ∀ p < 4093, (src p).isSome) {s q : ℕ} :
    (∀ page : Src, (∀ p < 4096, (page p).isSome) → (∀ p < 4093, page p = src p) →
      (slotValue page 1364).map (fun v => (s + v) / 1365) = some q) ↔
    isDigit b = true ∧ (s + digit b) / 1365 = q ∧ (s + (10 * digit b + 9)) / 1365 = q := by
  have hslot : ∀ {page : Src} {c : UInt8}, (∀ p < 4093, page p = src p) → page 4093 = some c →
      slotValue page 1364 = fieldValue [b, c] := by
    intro page c hag hc
    exact recordValue_bytes ((hag 4092 (by omega)).trans hb) hc
  have hpad : ∀ c, slotValue (padded src 4093 c) 1364 = fieldValue [b, c] := by
    intro c
    exact hslot (padded_agree src 4093 c) (by simp [padded])
  constructor
  · intro hall
    have hx := hall _ (padded_readable hread 120) (padded_agree src 4093 120)
    have h9 := hall _ (padded_readable hread 57) (padded_agree src 4093 57)
    rw [hpad] at hx h9
    by_cases hd : isDigit b = true
    · rw [fieldValue_one_digit hd (by decide)] at hx
      rw [fieldValue_two_digits hd (by decide) rfl] at h9
      exact ⟨hd, Option.some.inj hx, Option.some.inj h9⟩
    · -- no digit: a letter behind it leaves the slot without value
      have hnone : fieldValue [b, 120] = none := by
        by_cases hs : isspace b = true
        · rw [fieldValue_space hs]
          decide
        · exact fieldValue_other (by simpa using hs) (by simpa using hd) _
      rw [hnone] at hx
      cases hx
  · rintro ⟨hd, hlo, hhi⟩ page hpage hag
    obtain ⟨c, hc⟩ := Option.isSome_iff_exists.mp (hpage 4093 (by omega))
    rw [hslot hag hc]
    by_cases hcd : isDigit c = true
    · have hc10 := digit_lt hcd
      rw [fieldValue_two_digits hd hcd rfl, Option.map_some,
        div_eq_of_between hlo hhi (by omega) (by omega)]
    · rw [fieldValue_one_digit hd (by simp [hcd]), Option.map_some, hlo]

lemma decides_first_byte {src : Src} (hread : ∀ p < 4093, (src p).isSome) :
    RequestDecides src 4093 ↔
      ∀ page : Src, (∀ p < 4096, (page p).isSome) → (∀ p < 4093, page p = src p) →
        (slotValue page 1364).map (fun v =>
          (∑ k ∈ Finset.range 1364, recordNumber src k + v) / 1365) =
            some (requestMean src 1364) := by
  obtain ⟨b, hb⟩ := Option.isSome_iff_exists.mp (hread 4092 (by omega))
  rw [last_byte_iff hb hread]
  simp [RequestDecides, requestMean, hb]

lemma decides_both_bytes {src : Src} (hread : ∀ p < 4094, (src p).isSome) :
    RequestDecides src 4094 ↔
      ∀ page : Src, (∀ p < 4096, (page p).isSome) → (∀ p < 4094, page p = src p) →
        (slotValue page 1364).map (fun v =>
          (∑ k ∈ Finset.range 1364, recordNumber src k + v) / 1365) =
            some (requestMean src 1364) := by
  have hslot : ∀ page : Src, (∀ p < 4094, page p = src p) →
      slotValue page 1364 = slotValue src 1364 := fun page hag => slotValue_agree (by omega) hag
  have hdec : RequestDecides src 4094 ↔ (slotValue src 1364).map (fun v =>
      (∑ k ∈ Finset.range 1364, recordNumber src k + v) / 1365) = some (requestMean src 1364) := by
    simp [RequestDecides, requestMean, Option.map_eq_some_iff]
  rw [hdec]
  constructor
  · intro hv page _ hag
    rwa [hslot page hag]
  · intro hall
    rw [← hslot _ (padded_agree src 4094 0)]
    exact hall _ (padded_readable hread 0) (padded_agree src 4094 0)

/-- The published average is that of the requested records, whatever stands behind
them, if and only if the request reaches far enough into the last slot of the page. -/
theorem request_reduced_iff (curr : Buf 3) {ctx : PtRegs} {m : Machine}
    (h : ctx.toPtr = m.registered) (hmin : 3 ≤ ctx.blen.toNat) (hmax : ctx.blen.toNat ≤ 4096)
    (hread : ∀ p < ctx.blen.toNat, (ctx.fromPtr p).isSome)
    (hrec : ∀ k < ctx.blen.toNat / 3, IsRecord ctx.fromPtr k) :
    CoversRequest curr ctx m ↔ RequestDecides ctx.fromPtr ctx.blen.toNat := by
  rw [coversRequest_iff curr h hmax hrec]
  generalize ctx.blen.toNat = blen at *
  generalize ctx.fromPtr = src at *
  have hcases : blen ≤ 4092 ∨ blen = 4093 ∨ blen = 4094 ∨ 4095 ≤ blen := by omega
  rcases hcases with hshort | rfl | rfl | hfull
  · apply iff_of_false
    · intro hall
      have hpad := hall _ (padded_readable hread 120) (padded_agree src blen 120)
      rw [pageMean_padded_short hshort] at hpad
      cases hpad
    · unfold RequestDecides
      omega
  · rw [decides_first_byte hread]
    refine forall_congr' fun page => imp_congr_right fun _ => forall_congr' fun hag => ?_
    rw [pageMean_last fun k hk => slotValue_record (by omega) hag (hrec k hk)]
  · rw [decides_both_bytes hread]
    refine forall_congr' fun page => imp_congr_right fun _ => forall_congr' fun hag => ?_
    rw [pageMean_last fun k hk => slotValue_record (by omega) hag (hrec k hk)]
  · refine iff_of_true ?_ (Or.inl hfull)
    intro page _ hag
    have hn : blen / 3 = slots := by
      simp only [slots]
      omega
    rw [hn] at hrec ⊢
    refine pageMean_full fun k hk => slotValue_record ?_ hag (hrec k hk)
    simp only [slots] at hk
    omega

theorem request_reduced_sample :
    let ctx : PtRegs := ⟨4096, samplePage, 60⟩
    let m := Machine.ready 4096
    ctx.toPtr = m.registered ∧ (∀ k < 20, IsRecord ctx.fromPtr k) ∧
      (CoversRequest (Buf.zeros 3) ctx m ↔ RequestDecides ctx.fromPtr 60) := by
  intro ctx m
  have hmatch : ctx.toPtr = m.registered := rfl
  exact ⟨hmatch, by decide,
    request_reduced_iff _ hmatch (by decide) (by decide) (fun _ _ => rfl) (by decide)⟩

/-- A request for the 60 bytes of the sample file: 20 records with the mean 10. The
call goes on behind them, fails to convert slot 20 and returns 1. -/
theorem sample_request_not_reduced :
    let ctx : PtRegs := ⟨4096, samplePage, 60⟩
    let m := Machine.ready 4096
    ctx.toPtr = m.registered ∧ (∀ k < 20, IsRecord ctx.fromPtr k) ∧
      requestMean ctx.fromPtr 20 = 10 ∧
      bpfCopyout (Buf.zeros 3) ctx m = (1, m.bpfOverrideReturn 0) ∧
      ¬ CoversRequest (Buf.zeros 3) ctx m := by
  intro ctx m
  have hpage : pageMean ctx.fromPtr = none :=
    reduction_eq_none_iff.mpr ⟨20, by simp [slots], by decide⟩
  have hstop : bpfCopyout (Buf.zeros 3) ctx m = (1, m.bpfOverrideReturn 0) := by
    rw [bpfCopyout_matched _ (rfl : ctx.toPtr = m.registered), hpage, settle_none]
  refine ⟨rfl, by decide, by decide, hstop, ?_⟩
  intro hcov
  have hret := (hcov ctx.fromPtr (fun _ _ => rfl) fun _ _ => rfl).1
  rw [show ({ ctx with fromPtr := ctx.fromPtr } : PtRegs) = ctx from rfl, hstop] at hret
  cases hret

end FilterReduce.ReaditerRequest
