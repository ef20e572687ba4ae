import FilterReduce.EarlyExit
import FilterReduce.OverrideKern
import FilterReduce.UserMemory

/-!
# `override_exec_user.c`

The override experiment: the second phase of `main` reads a known file many times and
sorts the reads by what it finds in the buffer, while the probe counts the copies it
replaces. The module runs both sides together for every pattern of probe hits and misses
and shows that the two accounts agree.
-/
namespace FilterReduce.OverrideExecUser
open CString Helpers EarlyExit UserMemory OverrideExecKern
open CopyoutProbe (PtRegs copyToUser)

def iterations : ℕ := 10000

def readSize : ℕ := 4095

def maxRead : ℕ := 4096

def expected : List UInt8 := [52, 50]

structure Counts where
  overrideCount : ℕ
  partialOverrideCount : ℕ
  execCount : ℕ
  deriving DecidableEq

structure State where
  machine : Machine
  counts : Counts

/-- `read(fd, buf, readsize)` at offset 0. A file that is not empty takes one call of
`copyout_bpf`, whose probe runs if it is hit; an overridden call does not copy. -/
def read (hit : Bool) (file : List UInt8) (buf : UInt64) (readsize : ℕ) (m : Machine) : Machine :=
  if file = [] then m
  else
    let ctx : PtRegs := ⟨buf, fun p => file[p]?, UInt64.ofNat (min readsize file.length)⟩
    let m := { m with override := none }
    let m := if hit then (bpfCopyout ctx m).2 else m
    match m.override with
    | some _ => m
    | none => { m with user := (copyToUser ctx m.user).2 }

def classify (mem : UserMem) (buf : UInt64) (counts : Counts) : Except Signal Counts := do
  let cmp ← strncmp (mem.src buf) (literal expected) 2
  if cmp = 0 then
    let rest ← strcmp (mem.src (buf + 2)) [97]
    if rest = 0 then
      return { counts with partialOverrideCount := counts.partialOverrideCount + 1 }
    else return { counts with overrideCount := counts.overrideCount + 1 }
  else return { counts with execCount := counts.execCount + 1 }

def iteration (hit : ℕ → Bool) (file : List UInt8) (buf : UInt64) (readsize : ℕ) (s : State)
    (i : ℕ) : Except Signal State := do
  let user ← memset s.machine.user buf 0 (readsize + 1)
  let m := read (hit i) file buf readsize { s.machine with user }
  let counts ← classify m.user buf s.counts
  let user ← memset m.user buf 0 (readsize + 1)
  return ⟨{ m with user }, counts⟩

/-- One pass of the `while` loop: the counts are those of the report it prints. -/
def round (hit : ℕ → Bool) (file : List UInt8) (malloc : ℕ → UInt64) (readsize : ℕ)
    (m : Machine) : Except Signal State :=
  let buf := malloc (readsize + 1)
  let m := { m with myReadMap := (m.myReadMap.update 0 buf).2 }
  (indices 0 iterations 1).foldlM (iteration hit file buf readsize) ⟨m, ⟨0, 0, 0⟩⟩

/-- `main` with its second phase switched on and its first one off: the reports it prints,
and the count it looks up at the end. -/
def main (hit : ℕ → Bool) (file : List UInt8) (malloc : ℕ → UInt64) (m : Machine) :
    Except Signal (List Counts × Option UInt64) := do
  let m := { m with counterMap := (m.counterMap.update 0 0).2 }
  let (m, reports) ← (doublings readSize maxRead).foldlM
    (fun (m, reports) readsize => do
      let s ← round hit file malloc readsize m
      return (s.machine, reports ++ [s.counts])) (m, [])
  return (reports, m.counterMap.lookup 0)

def hits (hit : ℕ → Bool) (file : List UInt8) (n : ℕ) : ℕ :=
  if file = [] then 0 else (List.range n).countP hit

lemma hits_succ (hit : ℕ → Bool) (file : List UInt8) (n : ℕ) :
    hits hit file (n + 1) = hits hit file n + if hit n ∧ file ≠ [] then 1 else 0 := by
  by_cases hf : file = []
  · simp [hits, hf]
  · by_cases hn : hit n = true <;> simp [hits, hf, hn, List.range_succ]

lemma hits_le (hit : ℕ → Bool) (file : List UInt8) (n : ℕ) : hits hit file n ≤ n := by
  unfold hits
  split
  · exact Nat.zero_le n
  · simpa using (List.range n).countP_le_length (p := hit)

lemma copyToUser_file (file : List UInt8) (buf : UInt64) {n : ℕ} (hn : n < 2 ^ 64)
    (user : UserMem) :
    (copyToUser ⟨buf, fun p => file[p]?, UInt64.ofNat (min n file.length)⟩ user).2 =
      poke user buf (file.take n) := by
  have hmin : min n file.length < 2 ^ 64 := (min_le_left _ _).trans_lt hn
  funext a
  simp only [copyToUser, poke, UInt64.toNat_ofNat_of_lt' hmin, List.getElem?_take]
  by_cases ha : (a - buf).toNat < min n file.length
  · rw [if_pos ha, if_pos (lt_min_iff.mp ha).1]
  · rw [if_neg ha]
    by_cases hn' : (a - buf).toNat < n
    · rw [if_pos hn', List.getElem?_eq_none (by omega)]
      rfl
    · rw [if_neg hn']
      rfl

/-- What a read leaves in the buffer: the probe's text after a hit, else the start of the
file; only a hit moves the counter. -/
lemma read_spec (hit : Bool) (file : List UInt8) {buf : UInt64} {readsize : ℕ} {m : Machine}
    (hreg : m.registered = buf) (hmap : Mapped m.user buf (readsize + 1)) (h3 : 3 ≤ readsize)
    (hn : readsize < 2 ^ 64) :
    let m' := read hit file buf readsize m
    m'.registered = buf ∧
      m'.count = m.count + (if hit ∧ file ≠ [] then 1 else 0) ∧
      m'.user = poke m.user buf (if hit ∧ file ≠ [] then mystring else file.take readsize) := by
  by_cases hf : file = []
  · simp [read, hf, hreg]
  · by_cases hh : hit = true
    · let ctx : PtRegs := ⟨buf, fun p => file[p]?, UInt64.ofNat (min readsize file.length)⟩
      obtain ⟨counterMap, hfirst, hout⟩ :=
        @bpfCopyout_matched ctx { m with override := none } hreg.symm
      have hwrite : bpfProbeWriteUser m.user buf mystring = (0, poke m.user buf mystring) :=
        bpfProbeWriteUser_mapped (by decide) fun p hp =>
          hmap p (hp.trans_le (by simp [mystring]; omega))
      simp only [read, hf, hh, if_false, if_true, hout, ctx, hwrite]
      refine ⟨hreg, ?_, ?_⟩
      · simpa [hf, Machine.count] using hfirst
      · simp [hf]
    · simp only [read, hf, hh, if_false, copyToUser_file file buf hn]
      exact ⟨hreg, by simp [Machine.count], by simp⟩

lemma classify_text {mem : UserMem} {buf : UInt64} (h0 : mem.src buf 0 = some 52)
    (h1 : mem.src buf 1 = some 50) (h2 : mem.src buf 2 = some 10) (counts : Counts) :
    classify mem buf counts = .ok { counts with overrideCount := counts.overrideCount + 1 } := by
  have hcmp : strncmp (mem.src buf) (literal expected) 2 = .ok 0 := by
    simp [strncmp, literal, expected, h0, h1]
  have hrest : strcmp (mem.src (buf + 2)) [97] = .ok (-87) := by
    have hsrc : mem.src (buf + 2) = (mem.src buf).shift 2 := src_add mem buf 2
    simp [strcmp, strncmp, literal, hsrc, h2]
  simp only [classify, hcmp, hrest]
  rfl

lemma classify_data {mem : UserMem} {buf : UInt64} (hmap : Mapped mem buf 2)
    (h : (mem.src buf).str 2 ≠ some expected) (counts : Counts) :
    classify mem buf counts = .ok { counts with execCount := counts.execCount + 1 } := by
  have hlit : ∀ p < 2, (literal expected p).isSome := by decide
  obtain ⟨c, hc, hiff⟩ := strncmp_eq_zero_iff hmap hlit
  have hne : c ≠ 0 := fun hz => h (hiff.mp hz)
  simp only [classify, hc]
  exact if_neg hne

/-- A file that begins otherwise, read into a cleared buffer, does not look like the text. -/
lemma data_ne_expected {file : List UInt8} (hfile : file.take 2 ≠ expected) (mem : UserMem)
    (buf : UInt64) {n : ℕ} (hn : 2 ≤ n) :
    ((poke (poke mem buf (List.replicate (n + 1) 0)) buf (file.take n)).src buf).str 2 ≠
      some expected := by
  intro h
  apply hfile
  obtain ⟨-, hp, -⟩ := str_eq_some_iff.mp h
  have hbyte : ∀ p < 2, file[p]? = expected[p]? := by
    intro p hp2
    have hlt : p < n + 1 := by omega
    have hpe := hp p hp2
    rw [src_poke _ _ _ (by omega), src_poke _ _ _ (by omega), List.getElem?_take_of_lt (by omega),
      List.getElem?_replicate_of_lt hlt] at hpe
    cases hf : file[p]? with
    | some b => rw [← hpe, hf]; rfl
    | none =>
      rw [hf] at hpe
      interval_cases p <;> simp [expected] at hpe
  apply List.ext_getElem?
  intro p
  rw [List.getElem?_take]
  split
  · exact hbyte p ‹_›
  · exact (List.getElem?_eq_none (by simp [expected]; omega)).symm

def filled (replaced : Prop) [Decidable replaced] (file : List UInt8) (buf : UInt64)
    (readsize : ℕ) (mem : UserMem) : UserMem :=
  poke (poke mem buf (List.replicate (readsize + 1) 0)) buf
    (if replaced then mystring else file.take readsize)

lemma classify_filled {file : List UInt8} (hfile : file.take 2 ≠ expected) {mem : UserMem}
    {buf : UInt64} {readsize : ℕ} (hmap : Mapped mem buf (readsize + 1)) (h3 : 3 ≤ readsize)
    (replaced : Prop) [Decidable replaced] (counts : Counts) :
    classify (filled replaced file buf readsize mem) buf counts =
      .ok (if replaced then { counts with overrideCount := counts.overrideCount + 1 }
        else { counts with execCount := counts.execCount + 1 }) := by
  by_cases h : replaced
  · have hbyte : ∀ p < 3, (filled replaced file buf readsize mem).src buf p = mystring[p]? := by
      intro p hp
      rw [filled, if_pos h, src_poke _ _ _ (by omega)]
      interval_cases p <;> rfl
    rw [classify_text (hbyte 0 (by omega)) (hbyte 1 (by omega)) (hbyte 2 (by omega)), if_pos h]
  · have hmap' : Mapped (filled replaced file buf readsize mem) buf 2 :=
      fun p hp => ((hmap.poke _ _).poke _ _) p (by omega)
    have hstr : ((filled replaced file buf readsize mem).src buf).str 2 ≠ some expected := by
      rw [filled, if_neg h]
      exact data_ne_expected hfile mem buf (by omega)
    rw [classify_data hmap' hstr, if_neg h]

def Inv (hit : ℕ → Bool) (file : List UInt8) (buf : UInt64) (readsize k : ℕ) (s : State) : Prop :=
  s.machine.registered = buf ∧ Mapped s.machine.user buf (readsize + 1) ∧
    s.counts = ⟨hits hit file k, 0, k - hits hit file k⟩ ∧
    s.machine.count = UInt64.ofNat (hits hit file k)

lemma counts_succ (hit : ℕ → Bool) (file : List UInt8) (k : ℕ) :
    (if hit k ∧ file ≠ [] then Counts.mk (hits hit file k + 1) 0 (k - hits hit file k)
      else Counts.mk (hits hit file k) 0 (k - hits hit file k + 1)) =
      ⟨hits hit file (k + 1), 0, k + 1 - hits hit file (k + 1)⟩ := by
  have hle := hits_le hit file k
  rw [hits_succ]
  split
  · simp only [Counts.mk.injEq, true_and]
    omega
  · simp only [Counts.mk.injEq, Nat.add_zero, true_and]
    omega

lemma inv_step {hit : ℕ → Bool} {file : List UInt8} {buf : UInt64} {readsize k : ℕ} {s : State}
    (hfile : file.take 2 ≠ expected) (h3 : 3 ≤ readsize) (hn : readsize < 2 ^ 64)
    (hs : Inv hit file buf readsize k s) :
    ∃ t, iteration hit file buf readsize s k = .ok t ∧ Inv hit file buf readsize (k + 1) t := by
  obtain ⟨hreg, hmap, hcounts, hcount⟩ := hs
  let m : Machine :=
    { s.machine with user := poke s.machine.user buf (List.replicate (readsize + 1) 0) }
  obtain ⟨hreg', hcount', huser⟩ :=
    read_spec (hit k) file (m := m) hreg (hmap.poke _ _) h3 hn
  have hmap' : Mapped (read (hit k) file buf readsize m).user buf (readsize + 1) := by
    rw [huser]
    exact (hmap.poke _ _).poke _ _
  have hclass : classify (read (hit k) file buf readsize m).user buf s.counts =
      .ok ⟨hits hit file (k + 1), 0, k + 1 - hits hit file (k + 1)⟩ := by
    have hfilled := classify_filled hfile hmap h3 (hit k ∧ file ≠ []) s.counts
    rw [hcounts, counts_succ] at hfilled
    rw [huser, hcounts]
    exact hfilled
  refine ⟨⟨{ read (hit k) file buf readsize m with
      user := poke (read (hit k) file buf readsize m).user buf
        (List.replicate (readsize + 1) 0) }, _⟩, ?_, hreg', hmap'.poke _ _, rfl, ?_⟩
  · simp only [iteration, memset_mapped hmap]
    change (classify (read (hit k) file buf readsize m).user buf s.counts >>= _) = _
    rw [hclass]
    change (memset (read (hit k) file buf readsize m).user buf 0 (readsize + 1) >>= _) = _
    rw [memset_mapped hmap']
    rfl
  · refine hcount'.trans ?_
    rw [show m.count = _ from hcount, hits_succ, UInt64.ofNat_add]
    split <;> rfl

lemma round_spec {hit : ℕ → Bool} {file : List UInt8} {malloc : ℕ → UInt64} {readsize : ℕ}
    {m : Machine} (hfile : file.take 2 ≠ expected) (h3 : 3 ≤ readsize) (hn : readsize < 2 ^ 64)
    (hbuf : Mapped m.user (malloc (readsize + 1)) (readsize + 1)) (hzero : m.count = 0) :
    ∃ s, round hit file malloc readsize m = .ok s ∧
      Inv hit file (malloc (readsize + 1)) readsize iterations s := by
  have hstart : Inv hit file (malloc (readsize + 1)) readsize 0
      ⟨{ m with myReadMap := (m.myReadMap.update 0 (malloc (readsize + 1))).2 }, ⟨0, 0, 0⟩⟩ := by
    refine ⟨ArrayMap.update_zero_first _ _, hbuf, by simp [hits], ?_⟩
    have hnone : hits hit file 0 = 0 := by simp [hits]
    rw [hnone]
    exact hzero
  have hgo : ∀ k s, Inv hit file (malloc (readsize + 1)) readsize k s → True →
      ∃ t, iteration hit file (malloc (readsize + 1)) readsize s k = .ok t ∧
        Inv hit file (malloc (readsize + 1)) readsize (k + 1) t :=
    fun k s hs _ => inv_step hfile h3 hn hs
  obtain ⟨s, hs, hinv⟩ := loop_ok hgo hstart (n := iterations) fun _ _ => trivial
  refine ⟨s, ?_, hinv⟩
  rw [round, foldlM_indices_unit]
  exact hs

/-- The size doubles past the limit, so there is one pass. -/
lemma main_eq (hit : ℕ → Bool) (file : List UInt8) (malloc : ℕ → UInt64) (m : Machine) :
    main hit file malloc m =
      (round hit file malloc readSize
        { m with counterMap := (m.counterMap.update 0 0).2 }).map
        fun s => ([s.counts], some s.machine.count) := by
  have hsizes : doublings readSize maxRead = [readSize] :=
    doublings_singleton (by decide) (by decide)
  simp only [main, hsizes, List.foldlM_cons, List.foldlM_nil, ArrayMap.lookup_zero]
  cases round hit file malloc readSize { m with counterMap := (m.counterMap.update 0 0).2 } with
  | error e => rfl
  | ok s => rfl

theorem experiment_counts_hits (hit : ℕ → Bool) (file : List UInt8) (malloc : ℕ → UInt64)
    (m : Machine) (hfile : file.take 2 ≠ expected) (hbuf : Mapped m.user (malloc 4096) 4096) :
    ∃ counts count, main hit file malloc m = .ok ([counts], some count) ∧
      counts.overrideCount + counts.partialOverrideCount = hits hit file iterations ∧
      counts.execCount = iterations - hits hit file iterations ∧
      count.toNat = hits hit file iterations := by
  have hsmall : 3 ≤ readSize ∧ readSize < 2 ^ 64 := by decide
  obtain ⟨s, hs, -, -, hcounts, hcount⟩ := @round_spec hit file malloc readSize
    { m with counterMap := (m.counterMap.update 0 0).2 } hfile hsmall.1 hsmall.2 hbuf
    (ArrayMap.update_zero_first _ _)
  refine ⟨s.counts, s.machine.count, ?_, ?_, ?_, ?_⟩
  · rw [main_eq, hs]
    rfl
  · rw [hcounts]
    rfl
  · rw [hcounts]
  · have hle : hits hit file iterations < 2 ^ 64 :=
      (hits_le hit file iterations).trans_lt (by norm_num [iterations])
    rw [hcount, UInt64.toNat_ofNat_of_lt' hle]

theorem experiment_counts_sample :
    ∃ counts count, main (fun _ => true) CopyoutProbe.sampleFile (fun _ => 8192)
        ⟨ArrayMap.fill 0, ArrayMap.fill 7, fun _ => some 1, none⟩ = .ok ([counts], some count) ∧
      counts.overrideCount + counts.partialOverrideCount = 10000 ∧ counts.execCount = 0 ∧
      count.toNat = 10000 := by
  have hall : hits (fun _ => true) CopyoutProbe.sampleFile iterations = 10000 := by
    rw [hits, if_neg (by decide)]
    simp [iterations]
  obtain ⟨counts, count, hmain, hover, hexec, hcount⟩ := experiment_counts_hits (fun _ => true)
    CopyoutProbe.sampleFile (fun _ => 8192)
    ⟨ArrayMap.fill 0, ArrayMap.fill 7, fun _ => some 1, none⟩ (by decide) fun _ _ => rfl
  rw [hall] at hover hexec hcount
  exact ⟨counts, count, hmain, hover, hexec, hcount⟩

end FilterReduce.OverrideExecUser
