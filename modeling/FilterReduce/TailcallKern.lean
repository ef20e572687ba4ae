import FilterReduce.EarlyExit
import FilterReduce.Reduction
import FilterReduce.CopyoutProbe

/-!
# `tailcall_kern.c`, program `AVG_FUNC`

The tail-called reducer: one read of the source into a nine-byte buffer, then three
records of that buffer. It never overrides the return, and its divisor is the
constant 3.
-/
namespace FilterReduce.TailcallKern
open CString Helpers EarlyExit Reduction CopyoutProbe CopyoutProbe.Machine

def ubuffsize : ℕ := 9

structure Locals where
  curr : Buf 3
  num : UInt64
  sum : UInt64

def iteration (userbuff : Buf 9) (l : Locals) (i : ℕ) : Except ℤ Locals :=
  let curr := (bpfProbeReadStr l.curr (userbuff.src.shift i)).2
  let conv := bpfStrtoul curr.src 3 l.num
  if conv.1 < 0 then .error 1
  else .ok { curr, num := conv.2, sum := l.sum + conv.2 }

/-- `char mystring[] = "42"`, terminator included. -/
def mystring : List UInt8 := [52, 50, 0]

/-- `bpf_func_AVG_FUNC`; the arguments are what the stack holds where `userbuff` and
`curr` are declared. -/
def bpfFuncAvg (userbuff : Buf 9) (curr : Buf 3) : Program := fun ctx m =>
  match m.myReadMap.lookup 0 with
  | none => (0, m)
  | some val =>
    if ctx.toPtr = val then
      let userbuff := (bpfProbeReadStr userbuff ctx.fromPtr).2
      match (indices 0 ubuffsize 3).foldlM (iteration userbuff) ⟨curr, 0, 0⟩ with
      | .error ret => (ret, m)
      | .ok l => (0, (m.publish (l.sum / 3)).writeUser ctx.toPtr mystring)
    else (0, m)

def stagedValue (userbuff : Buf 9) (src : Src) (k : ℕ) : Option ℕ :=
  recordValue ((bpfProbeReadStr userbuff src).2.src.shift (3 * k))

def stagedMean (userbuff : Buf 9) (src : Src) : Option ℕ :=
  reduction (Finset.range 3) (stagedValue userbuff src)

/-- A staged record: the source decides it as long as it starts no later than the
first NUL, else the uninitialised buffer shows through. -/
theorem stagedValue_eq (userbuff : Buf 9) (src : Src) {k : ℕ} (hk : k < 3) :
    stagedValue userbuff src k =
      match src.str 8 with
      | none => none
      | some s => if 3 * k ≤ s.length then fieldValue ((s.drop (3 * k)).take 2)
          else fieldValue ((userbuff.src.shift (3 * k)).bytes 2) := by
  rw [stagedValue, recordValue_eq]
  · exact fieldValue_readStr (by omega) userbuff src (by omega)
  · intro p hp
    rw [shift_apply, src_of_lt _ (by omega)]
    rfl

lemma iteration_some {b : Buf 9} {i v : ℕ} (h : recordValue (b.src.shift i) = some v)
    (l : Locals) : ∃ t, iteration b l i = .ok t ∧ t.sum = l.sum + UInt64.ofNat v := by
  obtain ⟨hres, hnum⟩ := bpfStrtoul_curr_some h l.curr l.num
  simp only [iteration, if_neg (not_lt.mpr hres), hnum]
  exact ⟨_, rfl, rfl⟩

lemma iteration_none {b : Buf 9} {i : ℕ} (h : recordValue (b.src.shift i) = none)
    (l : Locals) : iteration b l i = .error 1 := by
  simp [iteration, bpfStrtoul_curr_none h]

def Inv (userbuff : Buf 9) (src : Src) (k : ℕ) (l : Locals) : Prop :=
  l.sum = UInt64.ofNat (total (Finset.range k) (stagedValue userbuff src))

lemma inv_step {userbuff : Buf 9} {src : Src} {k : ℕ} {l : Locals} (hl : Inv userbuff src k l)
    (hk : (stagedValue userbuff src k).isSome) :
    ∃ t, iteration (bpfProbeReadStr userbuff src).2 l (3 * k) = .ok t ∧
      Inv userbuff src (k + 1) t := by
  obtain ⟨v, hv⟩ := Option.isSome_iff_exists.mp hk
  obtain ⟨t, ht, hsum⟩ := iteration_some hv l
  refine ⟨t, ht, ?_⟩
  rw [Inv, hsum, hl, total, total, Finset.sum_range_succ, hv, UInt64.ofNat_add]
  rfl

lemma loop_eq_range (b : Buf 9) (l : Locals) :
    (indices 0 ubuffsize 3).foldlM (iteration b) l =
      (List.range 3).foldlM (fun l k => iteration b l (3 * k)) l := by
  rw [foldlM_indices]
  simp only [Nat.zero_add]
  rfl

lemma avg_eq {userbuff : Buf 9} {src : Src} {l : Locals} (hl : Inv userbuff src 3 l) :
    l.sum / 3 = UInt64.ofNat (total (Finset.range 3) (stagedValue userbuff src) / 3) := by
  have hle : total (Finset.range 3) (stagedValue userbuff src) ≤ 3 * 99 := by
    refine (total_le (b := 99) ?_).trans_eq (by simp)
    intro k _ v hv
    have := recordValue_lt hv
    omega
  have hlt : total (Finset.range 3) (stagedValue userbuff src) < 2 ^ 64 :=
    hle.trans_lt (by norm_num)
  rw [hl, UInt64.ofNat_div hlt (by norm_num)]
  rfl

/-- A call whose `to` is registered publishes the mean of three staged records and
writes `"42"` to the user, or stops with 1; the return is never overridden. -/
theorem bpfFuncAvg_matched (userbuff : Buf 9) (curr : Buf 3) {ctx : PtRegs} {m : Machine}
    (h : ctx.toPtr = m.registered) :
    bpfFuncAvg userbuff curr ctx m =
      m.settle (·.writeUser ctx.toPtr mystring) (stagedMean userbuff ctx.fromPtr) := by
  unfold bpfFuncAvg
  rw [ArrayMap.lookup_zero]
  simp only [show ctx.toPtr = m.myReadMap.first from h, if_true, loop_eq_range]
  have hstart : Inv userbuff ctx.fromPtr 0 ⟨curr, 0, 0⟩ := by simp [Inv, total]
  have hstop : ∀ k (l : Locals), stagedValue userbuff ctx.fromPtr k = none →
      iteration (bpfProbeReadStr userbuff ctx.fromPtr).2 l (3 * k) = .error 1 :=
    fun k l hk => iteration_none hk l
  rcases loop_reduction (fun k l hl hk => inv_step hl hk) hstop hstart 3 with
    ⟨l, hl, hinv, hmean⟩ | ⟨hl, hmean⟩
  · rw [hl, stagedMean, hmean]
    simp [avg_eq hinv]
  · rw [hl, stagedMean, hmean, settle_none]

theorem bpfFuncAvg_unmatched (userbuff : Buf 9) (curr : Buf 3) {ctx : PtRegs} {m : Machine}
    (h : ctx.toPtr ≠ m.registered) : bpfFuncAvg userbuff curr ctx m = (0, m) := by
  unfold bpfFuncAvg
  rw [ArrayMap.lookup_zero]
  exact if_neg h

end FilterReduce.TailcallKern
