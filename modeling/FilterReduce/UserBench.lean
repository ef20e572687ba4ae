import FilterReduce.ReaditerRequest
import FilterReduce.WindowRecords

/-!
# `userbench.c`

The baseline of the benchmarks: the same reduction, in user space. It copies three bytes
of the buffer into an array without room for a terminator and hands that to `strtoul`,
and it counts every field, one without digits as zero.
-/
namespace FilterReduce.UserBench
open CString Helpers EarlyExit Reduction Records ReaditerRequest
open CopyoutProbe CopyoutProbe.Machine
open ReaditerKern (slotValue slots pageMean)
open WindowRecords (tenPage tenPage_recordPage tenPage_pageTotal plain_publishes pageTotal)

inductive Crash
  | segv
  | fpe
  deriving DecidableEq

/-- `strtoul(str, NULL, 10)` on the bytes from `str` to the end of the mapping; `none` if it
runs over that end. -/
def strtoul (str : List UInt8) : Option UInt64 :=
  match str.dropWhile isspace with
  | [] => none
  | b :: rest =>
    let digits := if b = 45 ∨ b = 43 then rest else b :: rest
    let value := digitsValue (digits.takeWhile isDigit)
    if digits.all isDigit then none
    else if 2 ^ 64 ≤ value then some (UInt64.ofNat (2 ^ 64 - 1))
    else some (if b = 45 then -UInt64.ofNat value else UInt64.ofNat value)

structure Locals where
  num : UInt64
  sum : UInt64
  elems : UInt64

/-- One iteration; `stack` is what follows `curr` at that time. The tests `curr != NULL` and
`num < 0` have one outcome only. -/
def iteration (buf : Src) (stack : ℕ → List UInt8) (l : Locals) (i : ℕ) : Except Crash Locals :=
  match strtoul ((buf.shift i).bytes 3 ++ stack i) with
  | none => .error .segv
  | some num => .ok ⟨num, l.sum + num, l.elems + 1⟩

/-- `main` from the read on: `buf` is the buffer after it, `readbytes` what it returned. -/
def main (buf : Src) (stack : ℕ → List UInt8) (readbytes : ℤ) : Except Crash UInt64 :=
  match (indices 0 (readbytes - 3).toNat 3).foldlM (iteration buf stack) ⟨0, 0, 0⟩ with
  | .error e => .error e
  | .ok l => if l.elems = 0 then .error .fpe else .ok (l.sum / l.elems)

def fields (readbytes : ℤ) : ℕ := ((readbytes - 3).toNat + 2) / 3

section Loop

def Inv (v : ℕ → ℕ) (k : ℕ) (l : Locals) : Prop :=
  l.sum = UInt64.ofNat (∑ i ∈ Finset.range k, v i) ∧ l.elems = UInt64.ofNat k

lemma inv_step {buf : Src} {stack : ℕ → List UInt8} {v : ℕ → ℕ} {k : ℕ} {l : Locals}
    (hl : Inv v k l)
    (hk : strtoul ((buf.shift (3 * k)).bytes 3 ++ stack (3 * k)) = some (UInt64.ofNat (v k))) :
    ∃ t, iteration buf stack l (3 * k) = .ok t ∧ Inv v (k + 1) t := by
  simp only [iteration, hk]
  refine ⟨_, rfl, ?_, ?_⟩
  · rw [hl.1, Finset.sum_range_succ, UInt64.ofNat_add]
  · rw [hl.2, UInt64.ofNat_add]
    rfl

theorem main_of_values (buf : Src) (stack : ℕ → List UInt8) {readbytes : ℤ}
    (hlen : readbytes ≤ 4096) {v : ℕ → ℕ} (hlt : ∀ k < fields readbytes, v k < 100)
    (hv : ∀ k < fields readbytes,
      strtoul ((buf.shift (3 * k)).bytes 3 ++ stack (3 * k)) = some (UInt64.ofNat (v k))) :
    main buf stack readbytes =
      if fields readbytes = 0 then .error .fpe
      else .ok (UInt64.ofNat
        ((∑ k ∈ Finset.range (fields readbytes), v k) / fields readbytes)) := by
  have hstart : Inv v 0 ⟨0, 0, 0⟩ := ⟨by simp, rfl⟩
  obtain ⟨l, hl, hsum, helems⟩ := loop_ok (fun k l hl hk => inv_step hl hk) hstart hv
  have hrange : (indices 0 (readbytes - 3).toNat 3).foldlM (iteration buf stack) ⟨0, 0, 0⟩ =
      .ok l := by
    rw [foldlM_indices]
    simp only [Nat.zero_add, Nat.sub_zero]
    exact hl
  have hfew : fields readbytes ≤ 1365 := by
    rw [fields]
    omega
  have htotal : ∑ k ∈ Finset.range (fields readbytes), v k ≤ fields readbytes * 100 := by
    refine (Finset.sum_le_card_nsmul _ _ 100 fun k hk => ?_).trans_eq (by simp)
    exact (hlt k (Finset.mem_range.mp hk)).le
  rw [main, hrange]
  simp only [hsum, helems]
  by_cases hzero : fields readbytes = 0
  · simp [hzero]
  · have hne : UInt64.ofNat (fields readbytes) ≠ 0 := by
      intro h
      have := congrArg UInt64.toNat h
      rw [UInt64.toNat_ofNat_of_lt' (hfew.trans_lt (by norm_num))] at this
      exact hzero this
    have hsmall : ∑ k ∈ Finset.range (fields readbytes), v k < 2 ^ 64 :=
      htotal.trans_lt (by omega)
    rw [if_neg hne, if_neg hzero, UInt64.ofNat_div hsmall (by omega)]

end Loop

section Fields

lemma strtoul_space {a : UInt8} (h : isspace a = true) (str : List UInt8) :
    strtoul (a :: str) = strtoul str := by
  rw [strtoul, List.dropWhile_cons_of_pos h, ← strtoul]

lemma takeWhile_append_stop {c : UInt8} (hc : isDigit c = false) (s rest : List UInt8) :
    (s ++ c :: rest).takeWhile isDigit = s.takeWhile isDigit := by
  induction s with
  | nil => simp [hc]
  | cons b s ih => simp only [List.cons_append, List.takeWhile_cons, ih]

/-- `strtoul` finds the number that a field starts with, if something other than a digit
follows the field. -/
theorem strtoul_field {s : List UInt8} {v : ℕ} (h : fieldValue s = some v) (hv : v < 2 ^ 64)
    {c : UInt8} (hc : isDigit c = false) (rest : List UInt8) :
    strtoul (s ++ c :: rest) = some (UInt64.ofNat v) := by
  induction s with
  | nil => cases h
  | cons b s ih =>
    by_cases hspace : isspace b = true
    · rw [fieldValue_space hspace] at h
      rw [List.cons_append, strtoul_space hspace, ih h]
    by_cases hb : isDigit b = true
    · rw [fieldValue_digit hb, Option.some.injEq] at h
      have hminus : b ≠ 45 := by
        rintro rfl
        exact absurd hb (by decide)
      have hplus : b ≠ 43 := by
        rintro rfl
        exact absurd hb (by decide)
      have hall : (b :: (s ++ c :: rest)).all isDigit = false := by simp [hc]
      rw [strtoul, List.cons_append, List.dropWhile_cons_of_neg hspace]
      simp only [hminus, hplus, or_self, if_false, hall, Bool.false_eq_true,
        List.takeWhile_cons_of_pos hb, takeWhile_append_stop hc, h, if_neg (not_le.mpr hv)]
    · rw [fieldValue_other (by simpa using hspace) (by simpa using hb)] at h
      cases h

/-- The byte after the two that the kernel looks at is there and is no digit. -/
def Delimited (src : Src) (k : ℕ) : Prop := ByteIs src (3 * k + 2) fun b => !isDigit b

lemma strtoul_slot {src : Src} {k v : ℕ} (hread : ∀ p < 2, (src (3 * k + p)).isSome)
    (hv : slotValue src k = some v) (hdel : Delimited src k) (stack : List UInt8) :
    strtoul ((src.shift (3 * k)).bytes 3 ++ stack) = some (UInt64.ofNat v) := by
  obtain ⟨a, ha⟩ := Option.isSome_iff_exists.mp (hread 0 (by omega))
  obtain ⟨b, hb⟩ := Option.isSome_iff_exists.mp (hread 1 (by omega))
  obtain ⟨c, hc, hcd⟩ := hdel
  have hlt := (recordValue_lt hv).trans (show 100 < 2 ^ 64 by norm_num)
  rw [slotValue, recordValue_bytes (b := a) (c := b) ha hb] at hv
  rw [bytes_three (b := a) (c := b) (d := c) ha hb hc]
  exact strtoul_field hv hlt (by simpa using hcd) stack

lemma IsRecord.delimited {src : Src} {k : ℕ} (h : IsRecord src k) : Delimited src k := by
  obtain ⟨-, -, b, hb, hsep⟩ := h
  refine ⟨b, hb, ?_⟩
  rw [Bool.or_eq_true, decide_eq_true_eq, decide_eq_true_eq] at hsep
  rcases hsep with rfl | rfl <;> decide

end Fields

section Results

/-- The baseline on records: a read of three bytes or less, or one that failed, ends in a
division by zero; else the mean of the records is printed, where the last one is left out if
the read ended with it. -/
theorem baseline_prints_mean (buf : Src) (stack : ℕ → List UInt8) (readbytes : ℤ)
    (hlen : readbytes ≤ 4096) (hrec : ∀ k < fields readbytes, IsRecord buf k) :
    (readbytes ≤ 3 → main buf stack readbytes = .error .fpe) ∧
    (3 < readbytes → main buf stack readbytes =
      .ok (UInt64.ofNat (requestMean buf (fields readbytes)))) ∧
    ∀ n : ℕ, readbytes = 3 * n → fields readbytes = n - 1 := by
  have hvalue : ∀ k < fields readbytes, slotValue buf k = some (recordNumber buf k) :=
    fun k hk => slotValue_digits (hrec k hk).1 (hrec k hk).2.1
  have hmain := main_of_values buf stack hlen (v := recordNumber buf)
    (fun k hk => recordValue_lt (hvalue k hk)) (by
      intro k hk
      obtain ⟨⟨a, ha, -⟩, ⟨b, hb, -⟩, -⟩ := hrec k hk
      refine strtoul_slot (fun p hp => ?_) (hvalue k hk) (IsRecord.delimited (hrec k hk)) _
      interval_cases p
      · simp [ha]
      · simp [hb])
  refine ⟨fun h => ?_, fun h => ?_, fun n hn => ?_⟩
  · rw [hmain, if_pos]
    rw [fields]
    omega
  · rw [hmain, if_neg, requestMean]
    rw [fields]
    omega
  · rw [fields]
    omega

/-- The sample file has twenty records, the mean is that of nineteen. -/
theorem baseline_prints_mean_sample :
    main samplePage (fun _ => []) 60 = .ok (UInt64.ofNat (requestMean samplePage 19)) ∧
      requestMean samplePage 19 = 10 := by
  have hrec : ∀ k < fields 60, IsRecord samplePage k := by decide
  exact ⟨(baseline_prints_mean samplePage (fun _ => []) 60 (by norm_num) hrec).2.1 (by norm_num),
    by decide⟩

/-- The reduction in the kernel is the one of the baseline: when the probe accepts a page of
which no third byte is a digit, `userbench` prints the average that the probe publishes. -/
theorem offload_agrees_with_baseline (curr : Buf 3) (stack : ℕ → List UInt8) {ctx : PtRegs}
    {m : Machine} (h : ctx.toPtr = m.registered) (hread : ∀ p < 4096, (ctx.fromPtr p).isSome)
    (hdel : ∀ k < 1365, Delimited ctx.fromPtr k)
    (hok : (ReaditerKern.bpfCopyout curr ctx m).1 = 0) :
    main ctx.fromPtr stack 4096 = .ok (ReaditerKern.bpfCopyout curr ctx m).2.result := by
  have hfields : fields 4096 = 1365 := by decide
  rw [ReaditerKern.bpfCopyout_matched curr h] at hok ⊢
  cases hmean : pageMean ctx.fromPtr with
  | none => simp [hmean] at hok
  | some avg =>
    have hsome : ∀ k ∈ Finset.range slots, (slotValue ctx.fromPtr k).isSome :=
      reduction_isSome_iff.mp (by rw [← pageMean, hmean]; rfl)
    have hvalue : ∀ k < 1365,
        slotValue ctx.fromPtr k = some ((slotValue ctx.fromPtr k).getD 0) := by
      intro k hk
      obtain ⟨v, hv⟩ := Option.isSome_iff_exists.mp (hsome k (Finset.mem_range.mpr hk))
      rw [hv, Option.getD_some]
    rw [pageMean, reduction_of_defined hsome, Option.some.injEq] at hmean
    rw [main_of_values ctx.fromPtr stack le_rfl (v := fun k => (slotValue ctx.fromPtr k).getD 0)
      (fun k hk => recordValue_lt (hvalue k (hfields ▸ hk))) ?_, if_neg (by rw [hfields]; omega),
      hfields, settle_some, result_writeUser, result_publish, ← hmean, Finset.card_range]
    · rfl
    intro k hk
    rw [hfields] at hk
    exact strtoul_slot (fun p hp => hread _ (by omega)) (hvalue k hk) (hdel k hk) _

theorem offload_agrees_tens :
    let ctx : PtRegs := ⟨4096, tenPage, 4096⟩
    let m := Machine.ready 4096
    main ctx.fromPtr (fun _ => []) 4096 =
        .ok (ReaditerKern.bpfCopyout (Buf.zeros 3) ctx m).2.result ∧
      (ReaditerKern.bpfCopyout (Buf.zeros 3) ctx m).2.result = 10 := by
  intro ctx m
  obtain ⟨hok, hresult⟩ := plain_publishes (Buf.zeros 3) tenPage_recordPage
    (show ctx.toPtr = m.registered from rfl)
  refine ⟨offload_agrees_with_baseline _ _ rfl (fun _ _ => rfl) (fun k _ => ?_) hok, ?_⟩
  · refine ⟨32, ?_, by decide⟩
    have hmod : (3 * k + 2) % 3 = 2 := by omega
    simp [ctx, tenPage, hmod]
  · rw [hresult, show pageTotal ctx.fromPtr = 13650 from tenPage_pageTotal]
    rfl

end Results

end FilterReduce.UserBench
