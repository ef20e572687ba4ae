import FilterReduce.EarlyExit
import FilterReduce.Reduction
import FilterReduce.CopyoutProbe

/-!
# `readiter_kern.c`

The reducer that reads one three-byte record per `bpf_probe_read_str`. The loop is
translated iteration by iteration; `bpfCopyout_matched` says what a matching call
computes in terms of the slots of the source.
-/
namespace FilterReduce.ReaditerKern
open CString Helpers EarlyExit Reduction CopyoutProbe CopyoutProbe.Machine

def ubuffsize : ℕ := 4096

structure Locals where
  curr : Buf 3
  num : UInt64
  sum : UInt64
  elems : UInt64

/-- One iteration; the test `curr != NULL` on an array is always true. -/
def iteration (src : Src) (l : Locals) (i : ℕ) : Except ℤ Locals :=
  let curr := (bpfProbeReadStr l.curr (src.shift i)).2
  let conv := bpfStrtoul curr.src 3 l.num
  if conv.1 < 0 then .error 1
  else .ok { curr, num := conv.2, elems := l.elems + 1, sum := l.sum + conv.2 }

/-- `char mystring[] = "42\n"`, terminator included. -/
def mystring : List UInt8 := [52, 50, 10, 0]

/-- `bpf_copyout`; `curr` is what the stack holds where the array is declared. -/
def bpfCopyout (curr : Buf 3) : Program := fun ctx m =>
  match m.myReadMap.lookup 0 with
  | none => (0, m)
  | some val =>
    if ctx.toPtr = val then
      -- the override comes before the loop, so no later exit undoes it
      let m := m.bpfOverrideReturn 0
      match (indices 0 (ubuffsize - 3) 3).foldlM (iteration ctx.fromPtr) ⟨curr, 0, 0, 0⟩ with
      | .error ret => (ret, m)
      | .ok l =>
        let avg := l.sum / l.elems
        (0, (m.publish avg).writeUser ctx.toPtr mystring)
    else (0, m)

def slotValue (src : Src) (k : ℕ) : Option ℕ := recordValue (src.shift (3 * k))

def slots : ℕ := 1365

def pageMean (src : Src) : Option ℕ := reduction (Finset.range slots) (slotValue src)

lemma iteration_some {src : Src} {k v : ℕ} (h : slotValue src k = some v) (l : Locals) :
    ∃ t, iteration src l (3 * k) = .ok t ∧ t.sum = l.sum + UInt64.ofNat v ∧
      t.elems = l.elems + 1 := by
  obtain ⟨hres, hnum⟩ := bpfStrtoul_curr_some h l.curr l.num
  simp only [iteration, if_neg (not_lt.mpr hres), hnum]
  exact ⟨_, rfl, rfl, rfl⟩

lemma iteration_none {src : Src} {k : ℕ} (h : slotValue src k = none) (l : Locals) :
    iteration src l (3 * k) = .error 1 := by
  simp [iteration, bpfStrtoul_curr_none h]

def Inv (src : Src) (k : ℕ) (l : Locals) : Prop :=
  l.sum = UInt64.ofNat (total (Finset.range k) (slotValue src)) ∧ l.elems = UInt64.ofNat k

lemma inv_step {src : Src} {k : ℕ} {l : Locals} (hl : Inv src k l)
    (hk : (slotValue src k).isSome) :
    ∃ t, iteration src l (3 * k) = .ok t ∧ Inv src (k + 1) t := by
  obtain ⟨v, hv⟩ := Option.isSome_iff_exists.mp hk
  obtain ⟨t, ht, hsum, helems⟩ := iteration_some hv l
  refine ⟨t, ht, ?_, ?_⟩
  · rw [hsum, hl.1, total, total, Finset.sum_range_succ, hv, UInt64.ofNat_add]
    rfl
  · rw [helems, hl.2, UInt64.ofNat_add]
    rfl

lemma loop_eq_range (src : Src) (l : Locals) :
    (indices 0 (ubuffsize - 3) 3).foldlM (iteration src) l =
      (List.range slots).foldlM (fun l k => iteration src l (3 * k)) l := by
  rw [foldlM_indices]
  simp only [Nat.zero_add]
  rfl

/-- The loop: it ends with the sum and number of all slots, or stops at the first bad one. -/
lemma loop_spec (src : Src) (curr : Buf 3) :
    let loop := (indices 0 (ubuffsize - 3) 3).foldlM (iteration src) ⟨curr, 0, 0, 0⟩
    (∃ l, loop = .ok l ∧ Inv src slots l ∧
      pageMean src = some (total (Finset.range slots) (slotValue src) / slots)) ∨
    (loop = .error 1 ∧ pageMean src = none) := by
  intro loop
  have hstart : Inv src 0 ⟨curr, 0, 0, 0⟩ := ⟨by simp [total], rfl⟩
  rw [show loop = _ from loop_eq_range src _]
  exact loop_reduction (fun k l hl hk => inv_step hl hk)
    (fun k l hk => iteration_none hk l) hstart slots

lemma total_slots_le (src : Src) (n : ℕ) :
    total (Finset.range n) (slotValue src) ≤ n * 99 := by
  refine (total_le (b := 99) ?_).trans_eq (by simp)
  intro k _ v hv
  have := recordValue_lt hv
  omega

lemma avg_eq {src : Src} {l : Locals} (hl : Inv src slots l) :
    l.sum / l.elems = UInt64.ofNat (total (Finset.range slots) (slotValue src) / slots) := by
  have hlt : total (Finset.range slots) (slotValue src) < 2 ^ 64 :=
    (total_slots_le src slots).trans_lt (by norm_num [slots])
  rw [hl.1, hl.2, UInt64.ofNat_div hlt (by norm_num [slots])]

/-- A call whose `to` is registered: overridden at once, then it either publishes the
mean of all slots and writes `"42\n"` to the user, or stops with 1 at the first bad slot. -/
theorem bpfCopyout_matched (curr : Buf 3) {ctx : PtRegs} {m : Machine}
    (h : ctx.toPtr = m.registered) :
    bpfCopyout curr ctx m =
      (m.bpfOverrideReturn 0).settle (·.writeUser ctx.toPtr mystring) (pageMean ctx.fromPtr) := by
  unfold bpfCopyout
  rw [ArrayMap.lookup_zero]
  simp only [show ctx.toPtr = m.myReadMap.first from h, if_true]
  rcases loop_spec ctx.fromPtr curr with ⟨l, hl, hinv, hmean⟩ | ⟨hl, hmean⟩
  · rw [hl, hmean]
    simp [avg_eq hinv]
  · rw [hl, hmean, settle_none]

theorem bpfCopyout_unmatched (curr : Buf 3) {ctx : PtRegs} {m : Machine}
    (h : ctx.toPtr ≠ m.registered) : bpfCopyout curr ctx m = (0, m) := by
  unfold bpfCopyout
  rw [ArrayMap.lookup_zero]
  exact if_neg h

lemma pageMean_lt {src : Src} {avg : ℕ} (h : pageMean src = some avg) : avg < 100 := by
  have hsome : ∀ k ∈ Finset.range slots, (slotValue src k).isSome :=
    reduction_isSome_iff.mp (by rw [← pageMean, h]; rfl)
  rw [pageMean, reduction_of_defined hsome] at h
  obtain rfl := Option.some.inj h
  have hle := total_slots_le src slots
  rw [Finset.card_range]
  apply Nat.div_lt_of_lt_mul
  simp only [slots] at hle ⊢
  omega

theorem publishes_iff (curr : Buf 3) {ctx : PtRegs} {m : Machine} (h : ctx.toPtr = m.registered)
    {q : ℕ} (hq : q < 2 ^ 64) :
    (bpfCopyout curr ctx m).1 = 0 ∧ (bpfCopyout curr ctx m).2.result = UInt64.ofNat q ↔
      pageMean ctx.fromPtr = some q := by
  rw [bpfCopyout_matched curr h]
  cases hmean : pageMean ctx.fromPtr with
  | none => simp
  | some avg =>
    have havg : avg < 2 ^ 64 := (pageMean_lt hmean).trans (by norm_num)
    simp only [settle_some, result_writeUser, result_publish, true_and, Option.some.injEq,
      ofNat_eq_ofNat_iff havg hq]

end FilterReduce.ReaditerKern
