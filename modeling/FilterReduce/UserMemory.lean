import FilterReduce.Helpers

/-!
# Stores to user memory

Everything that changes a process's memory here lays a list of bytes over it from some
address on: `memset`, a copy by the kernel, `bpf_probe_write_user`. `poke` is that
operation. An offset is a difference of addresses, so addresses may wrap.
-/
namespace FilterReduce.UserMemory
open CString Helpers

/-- The memory with `bytes` laid over it at `dst`. -/
def poke (mem : UserMem) (dst : UInt64) (bytes : List UInt8) : UserMem :=
  fun a => (bytes[(a - dst).toNat]?).or (mem a)

def Mapped (mem : UserMem) (dst : UInt64) (n : ℕ) : Prop :=
  ∀ p < n, (mem.src dst p).isSome

lemma toNat_offset (dst : UInt64) {p : ℕ} (hp : p < 2 ^ 64) :
    (dst + UInt64.ofNat p - dst).toNat = p := by
  rw [UInt64.add_comm, UInt64.add_sub_cancel, UInt64.toNat_ofNat_of_lt' hp]

lemma toNat_offset_succ {a dst : UInt64} (h : a ≠ dst) :
    (a - dst).toNat = (a - (dst + 1)).toNat + 1 := by
  have hne : a.toNat ≠ dst.toNat := fun he => h (UInt64.toNat_inj.mp he)
  have ha := a.toNat_lt
  have hd := dst.toNat_lt
  simp only [UInt64.toNat_sub, UInt64.toNat_add, UInt64.reduceToNat]
  omega

@[simp] lemma poke_nil (mem : UserMem) (dst : UInt64) : poke mem dst [] = mem := by
  funext a
  simp [poke]

/-- The first byte, then the others one address further, as long as they do not come
round to `dst` again. -/
lemma poke_cons (mem : UserMem) (dst : UInt64) (b : UInt8) {bs : List UInt8}
    (h : bs.length < 2 ^ 64) :
    poke mem dst (b :: bs) = poke (Function.update mem dst (some b)) (dst + 1) bs := by
  funext a
  simp only [poke]
  by_cases ha : a = dst
  · subst ha
    have hlast : (a - (a + 1)).toNat = 2 ^ 64 - 1 := by
      have := a.toNat_lt
      simp only [UInt64.toNat_sub, UInt64.toNat_add, UInt64.reduceToNat]
      omega
    have hout : bs[(a - (a + 1)).toNat]? = none :=
      List.getElem?_eq_none (by omega)
    rw [hout, UInt64.sub_self, Function.update_self]
    rfl
  · rw [toNat_offset_succ ha, List.getElem?_cons_succ, Function.update_of_ne ha]

lemma src_poke (mem : UserMem) (dst : UInt64) (bytes : List UInt8) {p : ℕ} (hp : p < 2 ^ 64) :
    (poke mem dst bytes).src dst p = (bytes[p]?).or (mem.src dst p) := by
  simp only [UserMem.src, poke, toNat_offset dst hp]

lemma Mapped.poke {mem : UserMem} {dst : UInt64} {n : ℕ} (h : Mapped mem dst n) (a : UInt64)
    (bytes : List UInt8) : Mapped (poke mem a bytes) dst n := by
  intro p hp
  simp only [UserMem.src, UserMemory.poke, Option.isSome_or]
  rw [show (mem (dst + UInt64.ofNat p)).isSome = true from h p hp, Bool.or_true]

/-- A store changes nothing outside the bytes it is asked for, even if it faults. -/
theorem bpfProbeWriteUser_frame (mem : UserMem) {dst a : UInt64} {bytes : List UInt8}
    (h : bytes.length ≤ (a - dst).toNat) : (bpfProbeWriteUser mem dst bytes).2 a = mem a := by
  induction bytes generalizing mem dst with
  | nil => rfl
  | cons b bs ih =>
    have hne : a ≠ dst := by
      rintro rfl
      simp at h
    rw [toNat_offset_succ hne, List.length_cons] at h
    rw [bpfProbeWriteUser]
    cases mem dst with
    | none => rfl
    | some _ => exact (ih _ (by omega)).trans (Function.update_of_ne hne _ _)

theorem bpfProbeWriteUser_mapped {mem : UserMem} {dst : UInt64} {bytes : List UInt8}
    (hlen : bytes.length ≤ 2 ^ 64) (h : Mapped mem dst bytes.length) :
    bpfProbeWriteUser mem dst bytes = (0, poke mem dst bytes) := by
  induction bytes generalizing mem dst with
  | nil => rw [bpfProbeWriteUser, poke_nil]
  | cons b bs ih =>
    obtain ⟨c, hc⟩ := Option.isSome_iff_exists.mp (h 0 (by simp))
    have hdst : mem dst = some c := by simpa [UserMem.src] using hc
    rw [List.length_cons] at hlen
    have htail : Mapped (Function.update mem dst (some b)) (dst + 1) bs.length := by
      intro p hp
      have hp' := h (p + 1) (by simpa using hp)
      simp only [UserMem.src, UInt64.ofNat_add] at hp' ⊢
      by_cases he : dst + 1 + UInt64.ofNat p = dst
      · rw [he, Function.update_self]
        rfl
      · rw [Function.update_of_ne he, UInt64.add_assoc, UInt64.add_comm 1]
        exact hp'
    rw [bpfProbeWriteUser, hdst, poke_cons mem dst b (by omega)]
    exact ih (by omega) htail

/-! ## Stores that stop half way -/

/-- How many of the first `n` indices are fine, up to the first one that is not. -/
def reach (ok : ℕ → Bool) : ℕ → ℕ
  | 0 => 0
  | n + 1 => if ok 0 then reach (fun p => ok (p + 1)) n + 1 else 0

lemma lt_reach_iff {ok : ℕ → Bool} {n p : ℕ} :
    p < reach ok n ↔ p < n ∧ ∀ q ≤ p, ok q = true := by
  induction n generalizing ok p with
  | zero => simp [reach]
  | succ n ih =>
    rw [reach]
    by_cases hzero : ok 0 = true
    · rw [if_pos hzero]
      cases p with
      | zero => simp [hzero]
      | succ p =>
        rw [Nat.succ_lt_succ_iff, ih, Nat.succ_lt_succ_iff]
        refine and_congr_right fun _ => ⟨fun h q hq => ?_, fun h q hq => h (q + 1) (by omega)⟩
        cases q with
        | zero => exact hzero
        | succ q => exact h q (by omega)
    · rw [if_neg hzero]
      exact iff_of_false (Nat.not_lt_zero p) fun h => hzero (h.2 0 (Nat.zero_le p))

lemma reach_le (ok : ℕ → Bool) (n : ℕ) : reach ok n ≤ n := by
  by_contra hlt
  exact absurd (lt_reach_iff.mp (not_le.mp hlt)).1 (lt_irrefl n)

lemma reach_eq {ok : ℕ → Bool} {n : ℕ} (h : ∀ p < n, ok p = true) : reach ok n = n := by
  refine (reach_le ok n).antisymm ?_
  by_contra hlt
  have := lt_reach_iff.mpr ⟨not_le.mp hlt, fun q hq => h q (hq.trans_lt (not_le.mp hlt))⟩
  exact absurd this (lt_irrefl _)

def storeWhile (ok : UInt64 → Bool) (mem : UserMem) (dst : UInt64) : List UInt8 → UserMem
  | [] => mem
  | b :: bs =>
    if ok dst then storeWhile ok (Function.update mem dst (some b)) (dst + 1) bs else mem

theorem storeWhile_eq (ok : UInt64 → Bool) (mem : UserMem) (dst : UInt64) {bytes : List UInt8}
    (hlen : bytes.length ≤ 2 ^ 64) :
    storeWhile ok mem dst bytes =
      poke mem dst (bytes.take (reach (fun p => ok (dst + UInt64.ofNat p)) bytes.length)) := by
  induction bytes generalizing mem dst with
  | nil => rw [storeWhile, List.take_nil, poke_nil]
  | cons b bs ih =>
    rw [List.length_cons] at hlen
    have hzero : dst + UInt64.ofNat 0 = dst := by simp
    have hsucc : ∀ p, dst + UInt64.ofNat (p + 1) = dst + 1 + UInt64.ofNat p := by
      intro p
      rw [Nat.add_comm, UInt64.ofNat_add, UInt64.add_assoc]
      rfl
    simp only [storeWhile, List.length_cons, reach, hzero, hsucc]
    by_cases hdst : ok dst = true
    · rw [if_pos hdst, if_pos hdst, List.take_succ_cons,
        poke_cons mem dst b (by rw [List.length_take]; omega)]
      exact ih _ _ (by omega)
    · rw [if_neg hdst, if_neg hdst, List.take_zero, poke_nil]

lemma isSome_storeWhile {ok : UInt64 → Bool} {mem : UserMem} {a : UInt64}
    (h : (mem a).isSome = true) (dst : UInt64) (bytes : List UInt8) :
    (storeWhile ok mem dst bytes a).isSome = true := by
  induction bytes generalizing mem dst with
  | nil => exact h
  | cons b bs ih =>
    rw [storeWhile]
    by_cases hdst : ok dst = true
    · rw [if_pos hdst]
      refine ih ?_ _
      by_cases ha : a = dst
      · rw [ha, Function.update_self]
        rfl
      · rw [Function.update_of_ne ha, h]
    · rw [if_neg hdst, h]

lemma bpfProbeWriteUser_eq_storeWhile {ok : UInt64 → Bool} {mem : UserMem}
    (hok : ∀ a, ok a = (mem a).isSome) (dst : UInt64) (bytes : List UInt8) :
    (bpfProbeWriteUser mem dst bytes).2 = storeWhile ok mem dst bytes := by
  induction bytes generalizing mem dst with
  | nil => rfl
  | cons b bs ih =>
    rw [bpfProbeWriteUser, storeWhile, hok]
    cases hdst : mem dst with
    | none => rfl
    | some c =>
      rw [Option.isSome_some, if_pos rfl]
      refine ih (fun a => ?_) _
      by_cases ha : a = dst
      · rw [ha, Function.update_self, hok, hdst]
        rfl
      · rw [Function.update_of_ne ha, hok]

def mapped (mem : UserMem) (dst : UInt64) (p : ℕ) : Bool := (mem.src dst p).isSome

/-- A store of bytes goes as far as the memory is mapped, and no further. -/
theorem bpfProbeWriteUser_eq (mem : UserMem) (dst : UInt64) {bytes : List UInt8}
    (hlen : bytes.length ≤ 2 ^ 64) :
    (bpfProbeWriteUser mem dst bytes).2 =
      poke mem dst (bytes.take (reach (mapped mem dst) bytes.length)) := by
  rw [bpfProbeWriteUser_eq_storeWhile fun _ => rfl, storeWhile_eq _ _ _ hlen]
  rfl

/-! ## Stores inside a request -/

/-- Whatever the memory, the store changes only bytes among the `len` from `dst` on. -/
def Inside (dst : UInt64) (len : ℕ) (store : UserMem → UserMem) : Prop :=
  ∀ mem a, store mem a ≠ mem a → (a - dst).toNat < len

lemma inside_id (dst : UInt64) (len : ℕ) : Inside dst len fun mem => mem :=
  fun _ _ h => absurd rfl h

theorem inside_write_iff (dst : UInt64) (len : ℕ) {bytes : List UInt8}
    (hlen : bytes.length ≤ 2 ^ 64) :
    Inside dst len (fun mem => (bpfProbeWriteUser mem dst bytes).2) ↔ bytes.length ≤ len := by
  constructor
  · intro hin
    by_contra hlt
    push Not at hlt
    -- a memory whose every byte differs from the first one beyond the request
    let mem : UserMem := fun _ => some (bytes[len] + 1)
    have hwrite : (bpfProbeWriteUser mem dst bytes).2 = poke mem dst bytes := by
      rw [bpfProbeWriteUser_mapped hlen fun _ _ => rfl]
    have hoff := toNat_offset dst (by omega : len < 2 ^ 64)
    have hchanged : (bpfProbeWriteUser mem dst bytes).2 (dst + UInt64.ofNat len) ≠
        mem (dst + UInt64.ofNat len) := by
      rw [hwrite, poke, hoff, List.getElem?_eq_getElem hlt]
      simp [mem]
    have := hin mem _ hchanged
    omega
  · intro hle mem a hne
    by_contra hout
    exact hne (bpfProbeWriteUser_frame mem (by omega))

/-! ## The C library of a user program -/

inductive Signal
  | segv
  deriving DecidableEq

/-- `memset(dst, c, n)`; a byte that is not mapped kills the process. -/
def memset (mem : UserMem) (dst : UInt64) (c : UInt8) (n : ℕ) : Except Signal UserMem :=
  if ∀ p : Fin n, (mem.src dst p).isSome then .ok (poke mem dst (List.replicate n c))
  else .error .segv

def literal (text : List UInt8) : Src := fun p => (text ++ [0])[p]?

def strncmp : Src → Src → ℕ → Except Signal ℤ
  | _, _, 0 => .ok 0
  | s, t, n + 1 =>
    match s 0, t 0 with
    | some a, some b =>
      if a ≠ b then .ok ((a.toNat : ℤ) - b.toNat)
      else if a = 0 then .ok 0
      else strncmp (s.shift 1) (t.shift 1) n
    | _, _ => .error .segv

/-- `strcmp` with a literal, whose terminator bounds the comparison. -/
def strcmp (s : Src) (text : List UInt8) : Except Signal ℤ :=
  strncmp s (literal text) (text.length + 1)

lemma memset_mapped {mem : UserMem} {dst : UInt64} {n : ℕ} (h : Mapped mem dst n) (c : UInt8) :
    memset mem dst c n = .ok (poke mem dst (List.replicate n c)) := by
  have hall : ∀ p : Fin n, (mem.src dst p).isSome := fun p => h p p.isLt
  rw [memset, if_pos hall]

lemma src_add (mem : UserMem) (a : UInt64) (k : ℕ) :
    mem.src (a + UInt64.ofNat k) = (mem.src a).shift k := by
  funext p
  simp [UserMem.src, UInt64.ofNat_add, UInt64.add_assoc]

/-- A comparison of readable bytes returns, with 0 for equal strings and only for them. -/
theorem strncmp_eq_zero_iff {s t : Src} {n : ℕ} (hs : ∀ p < n, (s p).isSome)
    (ht : ∀ p < n, (t p).isSome) :
    ∃ c, strncmp s t n = .ok c ∧ (c = 0 ↔ s.str n = t.str n) := by
  induction n generalizing s t with
  | zero => exact ⟨0, rfl, by simp [Src.str]⟩
  | succ n ih =>
    obtain ⟨a, ha⟩ := Option.isSome_iff_exists.mp (hs 0 (by omega))
    obtain ⟨b, hb⟩ := Option.isSome_iff_exists.mp (ht 0 (by omega))
    have hs' : ∀ p < n, ((s.shift 1) p).isSome := fun p hp => hs (1 + p) (by omega)
    have ht' : ∀ p < n, ((t.shift 1) p).isSome := fun p hp => ht (1 + p) (by omega)
    obtain ⟨u, hu⟩ := Option.isSome_iff_exists.mp (str_isSome hs')
    obtain ⟨v, hv⟩ := Option.isSome_iff_exists.mp (str_isSome ht')
    simp only [strncmp, Src.str, ha, hb, hu, hv, Option.map_some]
    by_cases hab : a = b
    · subst hab
      by_cases hz : a = 0
      · exact ⟨0, by simp [hz], by simp [hz]⟩
      · obtain ⟨c, hc, hiff⟩ := ih hs' ht'
        rw [hu, hv] at hiff
        exact ⟨c, by simp [hz, hc], by simpa [hz] using hiff⟩
    · have hne : (a.toNat : ℤ) - b.toNat ≠ 0 := by
        have := mt UInt8.toNat_inj.mp hab
        omega
      refine ⟨(a.toNat : ℤ) - b.toNat, by simp [hab], iff_of_false hne ?_⟩
      by_cases hz : a = 0
      · have hbz : b ≠ 0 := fun h => hab (hz.trans h.symm)
        simp [hz, hbz]
      · by_cases hbz : b = 0 <;> simp [hz, hbz, hab]

end FilterReduce.UserMemory
