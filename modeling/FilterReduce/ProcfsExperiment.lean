import FilterReduce.EarlyExit
import FilterReduce.OverrideKern
import FilterReduce.ProcfsRead

/-!
# `procfs_override_user.c`

The override experiment on `/proc/helloworld`: the probe, the handler it replaces and the
program that counts how often it did. The program asks for 4095 bytes, one less than the
handler answers to, so a read that the probe misses delivers nothing and costs the kernel
the buffer that the handler allocated for it.
-/
namespace FilterReduce.ProcfsExperiment
open CString Helpers EarlyExit UserMemory ProcfsRead
open ProcfsOverrideKern (bpfRead mystring)

def iterations : ℕ := 10000

def readSize : ℕ := 4095

def maxRead : ℕ := 4096

def expected : List UInt8 := [52, 50]

inductive Death
  | segv
  | oops
  deriving DecidableEq

def orDie {α : Type} : Except Signal α → Except Death α
  | .ok a => .ok a
  | .error .segv => .error .segv

/-- `myread` with the probe on it, hit or missed. An overridden call returns at once. -/
def probedRead (copyToUser : CopyToUser) (hit : Bool) (c : Call) (outstanding : ℕ) : Result :=
  let m := if hit then (bpfRead ⟨c.ubuf, c.count⟩ ⟨c.mem, none⟩).2 else ⟨c.mem, none⟩
  match m.override with
  | some rc => ⟨some rc.toInt64.toInt, c.ppos, m.user, outstanding⟩
  | none => myread copyToUser { c with mem := m.user } outstanding

structure State where
  user : UserMem
  outstanding : ℕ
  overrideCount : ℕ
  execCount : ℕ

/-- What the probe and the allocator do in the `i`th read. -/
structure Pattern where
  hit : ℕ → Bool
  allocates : ℕ → Bool

variable (copyToUser : CopyToUser) (pat : Pattern)

/-- One iteration; each opens the file anew and so reads at offset 0. -/
def iteration (buf : UInt64) (readsize : ℕ) (s : State) (i : ℕ) : Except Death State := do
  let user ← orDie (memset s.user buf 0 (readsize + 1))
  let r := probedRead copyToUser (pat.hit i)
    ⟨buf, UInt64.ofNat readsize, 0, user, pat.allocates i⟩ s.outstanding
  if r.ret = none then .error .oops else do
  let cmp ← orDie (strncmp (r.mem.src buf) (literal expected) 2)
  let user ← orDie (memset r.mem buf 0 (readsize + 1))
  if cmp = 0 then return ⟨user, r.outstanding, s.overrideCount + 1, s.execCount⟩
  else return ⟨user, r.outstanding, s.overrideCount, s.execCount + 1⟩

def round (malloc : ℕ → UInt64) (readsize : ℕ) (s : State) : Except Death State :=
  (indices 0 iterations 1).foldlM (iteration copyToUser pat (malloc (readsize + 1)) readsize)
    { s with overrideCount := 0, execCount := 0 }

/-- The reports that `main` prints, each with the size, the successes and the failures, and
the state it ends in. -/
def main (malloc : ℕ → UInt64) (s : State) : Except Death (List (ℕ × ℕ × ℕ) × State) :=
  (doublings readSize maxRead).foldlM
    (fun acc readsize => do
      let s ← round copyToUser pat malloc readsize acc.2
      return (acc.1 ++ [(readsize, s.overrideCount, s.execCount)], s)) ([], s)

def hits (n : ℕ) : ℕ := (List.range n).countP pat.hit

def misses (n : ℕ) : ℕ := (List.range n).countP fun i => !pat.hit i && pat.allocates i

structure Account (buf : UInt64) (readsize before k : ℕ) (s : State) : Prop where
  mapped : Mapped s.user buf (readsize + 1)
  overrideCount : s.overrideCount = hits pat k
  execCount : s.execCount = k - hits pat k
  outstanding : s.outstanding = before + misses pat k

lemma hits_succ (k : ℕ) : hits pat (k + 1) = hits pat k + if pat.hit k then 1 else 0 := by
  simp [hits, List.range_succ, List.countP_append, List.countP_singleton]

lemma misses_succ (k : ℕ) :
    misses pat (k + 1) = misses pat k + if !pat.hit k && pat.allocates k then 1 else 0 := by
  simp [misses, List.range_succ, List.countP_append, List.countP_singleton]

lemma hits_le (k : ℕ) : hits pat k ≤ k := by
  simpa [hits] using (List.range k).countP_le_length (p := pat.hit)

section Read

variable {copyToUser}

lemma probedRead_hit (c : Call) (k : ℕ) (hmap : Mapped c.mem c.ubuf mystring.length) :
    ∃ ret, probedRead copyToUser true c k =
      ⟨some ret, c.ppos, poke c.mem c.ubuf mystring, k⟩ := by
  have hwrite := bpfProbeWriteUser_mapped (by decide) hmap
  simp only [probedRead, bpfRead, if_true, hwrite]
  exact ⟨_, rfl⟩

/-- A miss of a read that is too short returns nothing and costs the buffer. -/
lemma probedRead_miss (c : Call) (k : ℕ) (hcount : c.count < UInt64.ofNat bufsize) :
    probedRead copyToUser false c k =
      ⟨some 0, c.ppos, c.mem, if c.allocates then k + 1 else k⟩ := by
  simp only [probedRead, myread, Bool.false_eq_true, if_false, if_pos (Or.inr hcount)]

lemma strncmp_text (mem : UserMem) (buf : UInt64) :
    strncmp ((poke mem buf mystring).src buf) (literal expected) 2 = .ok 0 := by
  have h0 : (poke mem buf mystring).src buf 0 = some 52 := by
    rw [src_poke _ _ _ (by norm_num)]
    rfl
  have h1 : (poke mem buf mystring).src buf 1 = some 50 := by
    rw [src_poke _ _ _ (by norm_num)]
    rfl
  simp [strncmp, literal, expected, h0, h1]

lemma strncmp_cleared (mem : UserMem) (buf : UInt64) (n : ℕ) :
    strncmp ((poke mem buf (List.replicate (n + 1) 0)).src buf) (literal expected) 2 =
      .ok (-52) := by
  have h0 : (poke mem buf (List.replicate (n + 1) 0)).src buf 0 = some 0 := by
    rw [src_poke _ _ _ (by norm_num)]
    rfl
  simp [strncmp, literal, expected, h0]

end Read

lemma iteration_eq {buf : UInt64} {readsize : ℕ} {s : State} {i : ℕ}
    (hmap : Mapped s.user buf (readsize + 1)) (h3 : 3 ≤ readsize) (hsmall : readsize < 4096) :
    ∃ user, Mapped user buf (readsize + 1) ∧
      iteration copyToUser pat buf readsize s i =
        .ok (if pat.hit i then ⟨user, s.outstanding, s.overrideCount + 1, s.execCount⟩
          else ⟨user, if pat.allocates i then s.outstanding + 1 else s.outstanding,
            s.overrideCount, s.execCount + 1⟩) := by
  have hclear := hmap.poke buf (List.replicate (readsize + 1) 0)
  by_cases hhit : pat.hit i = true
  · obtain ⟨ret, hread⟩ := @probedRead_hit copyToUser
      ⟨buf, UInt64.ofNat readsize, 0, poke s.user buf (List.replicate (readsize + 1) 0),
        pat.allocates i⟩ s.outstanding
      fun p hp => hclear p (hp.trans_le (by simp [mystring]; omega))
    have hafter := hclear.poke buf mystring
    refine ⟨_, hafter.poke buf (List.replicate (readsize + 1) 0), ?_⟩
    simp only [iteration, memset_mapped hmap, orDie, hhit, hread, strncmp_text,
      memset_mapped hafter, bind, Except.bind, reduceCtorEq, if_true, if_false]
    rfl
  · have hcount : UInt64.ofNat readsize < UInt64.ofNat bufsize := by
      rw [UInt64.lt_iff_toNat_lt, UInt64.toNat_ofNat_of_lt' (hsmall.trans (by norm_num))]
      exact hsmall
    have hread := @probedRead_miss copyToUser
      ⟨buf, UInt64.ofNat readsize, 0, poke s.user buf (List.replicate (readsize + 1) 0),
        pat.allocates i⟩ s.outstanding hcount
    refine ⟨_, hclear.poke buf (List.replicate (readsize + 1) 0), ?_⟩
    simp only [Bool.not_eq_true] at hhit
    simp only [iteration, memset_mapped hmap, orDie, hhit, hread, strncmp_cleared,
      memset_mapped hclear, bind, Except.bind, reduceCtorEq, if_false, Bool.false_eq_true]
    rfl

lemma Account.step {buf : UInt64} {readsize before k : ℕ} {s : State} (h3 : 3 ≤ readsize)
    (hsmall : readsize < 4096) (h : Account pat buf readsize before k s) :
    ∃ t, iteration copyToUser pat buf readsize s k = .ok t ∧
      Account pat buf readsize before (k + 1) t := by
  obtain ⟨user, hmap, hrun⟩ := iteration_eq copyToUser pat h.mapped h3 hsmall
  refine ⟨_, hrun, ?_⟩
  have hle := hits_le pat k
  by_cases hhit : pat.hit k = true
  · rw [if_pos hhit]
    refine ⟨hmap, ?_, ?_, ?_⟩
    · simp [hits_succ, hhit, h.overrideCount]
    · simp only [hits_succ, hhit, h.execCount, if_true]
      omega
    · simp [misses_succ, hhit, h.outstanding]
  · rw [if_neg hhit]
    refine ⟨hmap, ?_, ?_, ?_⟩
    · simp [hits_succ, hhit, h.overrideCount]
    · simp only [hits_succ, hhit, h.execCount, Bool.false_eq_true, if_false]
      omega
    · simp only [misses_succ, hhit, h.outstanding]
      cases pat.allocates k <;> rfl

lemma main_eq (malloc : ℕ → UInt64) (s : State) :
    main copyToUser pat malloc s = (round copyToUser pat malloc readSize s).map
      fun t => ([(readSize, t.overrideCount, t.execCount)], t) := by
  have hsizes : doublings readSize maxRead = [readSize] :=
    doublings_singleton (by decide) (by decide)
  rw [main, hsizes, List.foldlM_cons]
  simp only [List.foldlM_nil]
  cases round copyToUser pat malloc readSize s with
  | error e => rfl
  | ok t => rfl

/-- The experiment for every pattern of hits and misses: it reports the hits as successes and
the other reads as failures, and each failure for which the allocator found memory has left
a buffer behind in the kernel. -/
theorem failures_leak_buffers (malloc : ℕ → UInt64) (s : State)
    (hbuf : Mapped s.user (malloc (readSize + 1)) (readSize + 1)) :
    ∃ t, main copyToUser pat malloc s =
        .ok ([(readSize, hits pat iterations, iterations - hits pat iterations)], t) ∧
      t.outstanding = s.outstanding + misses pat iterations := by
  have hstart : Account pat (malloc (readSize + 1)) readSize s.outstanding 0
      { s with overrideCount := 0, execCount := 0 } := ⟨hbuf, rfl, rfl, rfl⟩
  have hstep : ∀ k u, Account pat (malloc (readSize + 1)) readSize s.outstanding k u → True →
      ∃ t, iteration copyToUser pat (malloc (readSize + 1)) readSize u k = .ok t ∧
        Account pat (malloc (readSize + 1)) readSize s.outstanding (k + 1) t :=
    fun k u hu _ => hu.step copyToUser pat (by decide) (by decide)
  obtain ⟨t, ht, hacc⟩ := loop_ok hstep hstart (n := iterations) fun _ _ => trivial
  have hround : round copyToUser pat malloc readSize s = .ok t := by
    rw [round, foldlM_indices_unit]
    exact ht
  refine ⟨t, ?_, hacc.outstanding⟩
  rw [main_eq, hround, Except.map, hacc.overrideCount, hacc.execCount]

/-- With no hit at all, ten thousand buffers are lost. -/
theorem failures_leak_buffers_unprobed : ∃ t,
    main (fun mem dst bytes => (0, poke mem dst bytes)) ⟨fun _ => false, fun _ => true⟩
      (fun _ => 8192) ⟨fun _ => some 1, 0, 0, 0⟩ = .ok ([(readSize, 0, iterations)], t) ∧
    t.outstanding = iterations := by
  have hnone : hits ⟨fun _ => false, fun _ => true⟩ iterations = 0 := by simp [hits]
  have hall : misses ⟨fun _ => false, fun _ => true⟩ iterations = iterations := by simp [misses]
  obtain ⟨t, hmain, hleft⟩ := failures_leak_buffers (fun mem dst bytes => (0, poke mem dst bytes))
    ⟨fun _ => false, fun _ => true⟩ (fun _ => 8192) ⟨fun _ => some 1, 0, 0, 0⟩ fun _ _ => rfl
  rw [hnone] at hmain
  rw [hall] at hleft
  exact ⟨t, hmain, hleft.trans (Nat.zero_add _)⟩

end FilterReduce.ProcfsExperiment
