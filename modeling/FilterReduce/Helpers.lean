import FilterReduce.CString

/-!
# Kernel helpers

The helpers that the programs call, as `kernel/include/uapi/linux/bpf.h` documents
them. A negative result is an errno.
-/
namespace FilterReduce.Helpers
open CString

/-- Memory of one process, by virtual address; `none` is an unmapped address. -/
abbrev UserMem := UInt64 → Option UInt8

def UserMem.src (mem : UserMem) (a : UInt64) : Src := fun p => mem (a + UInt64.ofNat p)

/-- `bpf_probe_read_str(dst, sizeof(dst), src)`: the string without its tail beyond
`sizeof(dst) - 1` bytes, then a NUL; the rest of `dst` is not padded. A fault is
reported with `dst` cleared, which is the only safe state of an argument that the
verifier lets a program pass uninitialised. -/
def bpfProbeReadStr {n : ℕ} (dst : Buf n) (src : Src) : ℤ × Buf n :=
  match src.str (n - 1) with
  | some s => (s.length + 1, dst.store (s ++ [0]))
  | none => (-14, Buf.zeros n)

/-- `bpf_probe_read(dst, sizeof(dst), src)`: all bytes or none. -/
def bpfProbeRead {n : ℕ} (dst : Buf n) (src : Src) : ℤ × Buf n :=
  if ∀ p : Fin n, (src p).isSome then (0, fun p => (src p).getD (dst p)) else (-14, Buf.zeros n)

/-- `bpf_strtoul(buf, buf_len, 10, &num)`. No digit after the blanks is `-EINVAL`,
so is a sign; a number beyond 64 bits is `-ERANGE`. Failures leave `num` alone. -/
def bpfStrtoul (buf : Src) (bufLen : ℕ) (num : UInt64) : ℤ × UInt64 :=
  let bs := buf.bytes bufLen
  let blanks := bs.takeWhile isspace
  let ds := (bs.dropWhile isspace).takeWhile isDigit
  if ds = [] then (-22, num)
  else if 2 ^ 64 ≤ digitsValue ds then (-34, num)
  else (blanks.length + ds.length, UInt64.ofNat (digitsValue ds))

/-- `bpf_probe_write_user(dst, src, len)`: stores byte by byte, up to the first
address that is not mapped. -/
def bpfProbeWriteUser (mem : UserMem) (dst : UInt64) : List UInt8 → ℤ × UserMem
  | [] => (0, mem)
  | b :: bs =>
    match mem dst with
    | none => (-14, mem)
    | some _ => bpfProbeWriteUser (Function.update mem dst (some b)) (dst + 1) bs

lemma bpfProbeReadStr_some {n : ℕ} (dst : Buf n) {src : Src} {s : List UInt8}
    (h : src.str (n - 1) = some s) : (bpfProbeReadStr dst src).2 = dst.store (s ++ [0]) := by
  simp [bpfProbeReadStr, h]

lemma bpfProbeReadStr_none {n : ℕ} (dst : Buf n) {src : Src} (h : src.str (n - 1) = none) :
    (bpfProbeReadStr dst src).2 = Buf.zeros n := by
  simp [bpfProbeReadStr, h]

lemma fieldValue_cleared {n i k : ℕ} :
    fieldValue (((Buf.zeros n).src.shift i).bytes k) = none := by
  have hz : ∀ b ∈ ((Buf.zeros n).src.shift i).bytes k, b = 0 := by
    intro b hb
    obtain ⟨p, -, hp⟩ := List.mem_filterMap.mp hb
    simp only [shift_apply, Buf.src, Option.dite_none_right_eq_some, Option.some.injEq] at hp
    obtain ⟨_, hp⟩ := hp
    exact hp.symm
  cases hbs : ((Buf.zeros n).src.shift i).bytes k with
  | nil => exact fieldValue_nil
  | cons b bs =>
    have hb : b = 0 := hz b (by simp [hbs])
    rw [hb, fieldValue_nul]

/-- The field at `i` after a read into `dst`: its own bytes of the string while it
starts no later than the terminator, else the field that stood there before. -/
theorem fieldValue_readStr {n : ℕ} (hn : 0 < n) (dst : Buf n) (src : Src) {i k : ℕ}
    (hk : i + k ≤ n) :
    fieldValue (((bpfProbeReadStr dst src).2.src.shift i).bytes k) =
      match src.str (n - 1) with
      | none => none
      | some s => if i ≤ s.length then fieldValue ((s.drop i).take k)
          else fieldValue ((dst.src.shift i).bytes k) := by
  cases h : src.str (n - 1) with
  | none => rw [bpfProbeReadStr_none dst h, fieldValue_cleared]
  | some s =>
    have hs : s.length < n := by
      have := (str_eq_some_iff.mp h).1
      omega
    rw [bpfProbeReadStr_some dst h, fieldValue_store dst hs hk]

lemma bpfStrtoul_none {buf : Src} {bufLen : ℕ} (h : fieldValue (buf.bytes bufLen) = none)
    (num : UInt64) : bpfStrtoul buf bufLen num = (-22, num) := by
  simp only [fieldValue] at h
  split at h
  · simp [bpfStrtoul, *]
  · cases h

lemma bpfStrtoul_some {buf : Src} {bufLen v : ℕ} (h : fieldValue (buf.bytes bufLen) = some v)
    (hlen : bufLen ≤ 19) (num : UInt64) :
    0 ≤ (bpfStrtoul buf bufLen num).1 ∧ (bpfStrtoul buf bufLen num).2 = UInt64.ofNat v := by
  have hb : (buf.bytes bufLen).length ≤ 19 := by
    refine (List.length_filterMap_le _ _).trans ?_
    simpa using hlen
  have hv : v < 2 ^ 64 :=
    calc v < 10 ^ (buf.bytes bufLen).length := fieldValue_lt h
      _ ≤ 10 ^ 19 := Nat.pow_le_pow_right (by omega) hb
      _ < 2 ^ 64 := by norm_num
  simp only [fieldValue] at h
  split at h
  · cases h
  · rename_i hne
    obtain rfl := Option.some.inj h
    simp only [bpfStrtoul, hne, if_false, if_neg (not_le.mpr hv)]
    exact ⟨by positivity, trivial⟩

lemma ofNat_eq_ofNat_iff {a b : ℕ} (ha : a < 2 ^ 64) (hb : b < 2 ^ 64) :
    UInt64.ofNat a = UInt64.ofNat b ↔ a = b := by
  rw [← UInt64.toNat_inj, UInt64.toNat_ofNat_of_lt' ha, UInt64.toNat_ofNat_of_lt' hb]

/-- The number that `bpf_probe_read_str(curr, 3, src)` and a conversion of `curr`
find at `src`: two source bytes, cut at a NUL. -/
def recordValue (src : Src) : Option ℕ := (src.str 2).bind fieldValue

lemma recordValue_lt {src : Src} {v : ℕ} (h : recordValue src = some v) : v < 100 := by
  obtain ⟨s, hs, hv⟩ := Option.bind_eq_some_iff.mp h
  have hlen : s.length ≤ 2 := (str_eq_some_iff.mp hs).1
  calc v < 10 ^ s.length := fieldValue_lt hv
    _ ≤ 10 ^ 2 := Nat.pow_le_pow_right (by omega) hlen

theorem fieldValue_curr (curr : Buf 3) (src : Src) :
    fieldValue ((bpfProbeReadStr curr src).2.src.bytes 3) = recordValue src := by
  have h := fieldValue_readStr (by omega) curr src (i := 0) (k := 3) le_rfl
  rw [shift_zero] at h
  rw [h, recordValue]
  cases hs : src.str (3 - 1) with
  | none => rfl
  | some s =>
    have hlen : s.length ≤ 2 := (str_eq_some_iff.mp hs).1
    simp [List.take_of_length_le (by omega : s.length ≤ 3)]

lemma bpfStrtoul_curr_some {src : Src} {v : ℕ} (h : recordValue src = some v) (curr : Buf 3)
    (num : UInt64) :
    0 ≤ (bpfStrtoul (bpfProbeReadStr curr src).2.src 3 num).1 ∧
      (bpfStrtoul (bpfProbeReadStr curr src).2.src 3 num).2 = UInt64.ofNat v := by
  rw [← fieldValue_curr curr] at h
  exact bpfStrtoul_some h (by omega) num

lemma bpfStrtoul_curr_none {src : Src} (h : recordValue src = none) (curr : Buf 3)
    (num : UInt64) : bpfStrtoul (bpfProbeReadStr curr src).2.src 3 num = (-22, num) := by
  rw [← fieldValue_curr curr] at h
  exact bpfStrtoul_none h num

lemma recordValue_eq {src : Src} (h : ∀ p < 2, (src p).isSome) :
    recordValue src = fieldValue (src.bytes 2) := by
  obtain ⟨s, hs⟩ := Option.isSome_iff_exists.mp (str_isSome h)
  rw [recordValue, hs, fieldValue_bytes_of_str hs]
  rfl

end FilterReduce.Helpers
