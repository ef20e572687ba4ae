import FilterReduce.UserMemory
import FilterReduce.RunTrace

/-!
# `procfs_read.c`

The read handler of `/proc/helloworld`. It allocates a buffer before it looks at the
request and frees it on one of its exits only. The state of the module is the number of
buffers that were allocated and not freed; `copy_to_user` is a parameter, which returns
the number of bytes it could not copy and the memory after the copy.
-/
namespace FilterReduce.ProcfsRead
open Helpers RunTrace

abbrev CopyToUser := UserMem → UInt64 → List UInt8 → ℕ × UserMem

def bufsize : ℕ := 4096

/-- One call of the handler: its arguments, the memory of the caller and whether
`kmalloc` finds memory. -/
structure Call where
  ubuf : UInt64
  count : UInt64
  ppos : Int64
  mem : UserMem
  allocates : Bool

structure Result where
  ret : Option ℤ
  ppos : Int64
  mem : UserMem
  outstanding : ℕ

/-- The two `sprintf` calls: a zero in a field of `BUFSIZE - 2` digits, and a newline. -/
def text : List UInt8 := List.replicate (bufsize - 2) 48 ++ [10]

def myread (copyToUser : CopyToUser) (c : Call) (outstanding : ℕ) : Result :=
  let outstanding := if c.allocates then outstanding + 1 else outstanding
  if 0 < c.ppos ∨ c.count < UInt64.ofNat bufsize then ⟨some 0, c.ppos, c.mem, outstanding⟩
  else if c.allocates then
    let len := text.length
    let (left, mem) := copyToUser c.mem c.ubuf text
    if left ≠ 0 then ⟨some (-14), c.ppos, mem, outstanding⟩
    else ⟨some len, Int64.ofNat len, mem, outstanding - 1⟩
  else
    -- `sprintf` writes through the null pointer
    ⟨none, c.ppos, c.mem, outstanding⟩

def step (copyToUser : CopyToUser) (outstanding : ℕ) (c : Call) : ℕ :=
  (myread copyToUser c outstanding).outstanding

/-- The call comes to its end: a first read with room for a page, and no fault. -/
def Completes (copyToUser : CopyToUser) (c : Call) : Prop :=
  c.ppos ≤ 0 ∧ UInt64.ofNat bufsize ≤ c.count ∧ (copyToUser c.mem c.ubuf text).1 = 0

instance (copyToUser : CopyToUser) (c : Call) : Decidable (Completes copyToUser c) :=
  inferInstanceAs (Decidable (_ ∧ _ ∧ _))

variable (copyToUser : CopyToUser)

lemma length_text : text.length = 4095 := by
  rw [text, List.length_append, List.length_replicate]
  rfl

lemma step_eq (k : ℕ) (c : Call) :
    step copyToUser k c = k + if c.allocates ∧ ¬ Completes copyToUser c then 1 else 0 := by
  by_cases ha : c.allocates = true
  · by_cases hearly : 0 < c.ppos ∨ c.count < UInt64.ofNat bufsize
    · have hnot : ¬ Completes copyToUser c := by
        rintro ⟨hpos, hcount, -⟩
        rcases hearly with h | h
        · exact Int64.not_le.mpr h hpos
        · exact UInt64.not_le.mpr h hcount
      simp [step, myread, ha, hearly, hnot]
    · have hroom : c.ppos ≤ 0 ∧ UInt64.ofNat bufsize ≤ c.count := by
        rw [not_or, Int64.not_lt, UInt64.not_lt] at hearly
        exact hearly
      by_cases hleft : (copyToUser c.mem c.ubuf text).1 = 0
      · have hdone : Completes copyToUser c := ⟨hroom.1, hroom.2, hleft⟩
        simp [step, myread, ha, hearly, hleft, hdone]
      · have hnot : ¬ Completes copyToUser c := fun h => hleft h.2.2
        simp [step, myread, ha, hearly, hleft, hnot]
  · by_cases hearly : 0 < c.ppos ∨ c.count < UInt64.ofNat bufsize <;>
      simp [step, myread, ha, hearly]

lemma ppos_of_ret_ne {c : Call} {k : ℕ} (h : (myread copyToUser c k).ret ≠ some 4095) :
    (myread copyToUser c k).ppos = c.ppos := by
  by_cases hearly : 0 < c.ppos ∨ c.count < UInt64.ofNat bufsize
  · simp [myread, hearly]
  · by_cases ha : c.allocates = true
    · by_cases hleft : (copyToUser c.mem c.ubuf text).1 = 0
      · simp [myread, hearly, ha, hleft, length_text] at h
      · simp [myread, hearly, ha, hleft]
    · simp [myread, hearly, ha]

/-- Over a run the handler loses one buffer for each call that does not complete. -/
theorem outstanding_run (k : ℕ) (calls : List Call) :
    run (step copyToUser) k calls =
      k + calls.countP fun c => c.allocates ∧ ¬ Completes copyToUser c := by
  induction calls generalizing k with
  | nil => rfl
  | cons c calls ih =>
    rw [run_cons, ih, step_eq, List.countP_cons]
    simp only [decide_eq_true_eq]
    omega

theorem buffers_balanced_iff (k : ℕ) (calls : List Call) :
    (∀ x ∈ visits (step copyToUser) k calls,
      step copyToUser x.1 x.2 = x.1 ∧
      ((myread copyToUser x.2 x.1).ret ≠ some 4095 →
        (myread copyToUser x.2 x.1).ppos = x.2.ppos)) ↔
    ∀ c ∈ calls, c.allocates → c.ppos ≤ 0 ∧ 4096 ≤ c.count ∧
      (copyToUser c.mem c.ubuf text).1 = 0 := by
  have hstep : ∀ k c, (step copyToUser k c = k ∧
      ((myread copyToUser c k).ret ≠ some 4095 → (myread copyToUser c k).ppos = c.ppos)) ↔
      (c.allocates → Completes copyToUser c) := by
    intro k c
    rw [and_iff_left (ppos_of_ret_ne copyToUser), step_eq]
    by_cases h : c.allocates = true ∧ ¬ Completes copyToUser c
    · simp [h.1, h.2]
    · rw [if_neg h]
      simpa using h
  simp only [hstep]
  exact forall_visits_snd (step copyToUser) (P := fun c => c.allocates → Completes copyToUser c)
    k calls

/-- A reader such as `cat`: the first read delivers the page, the second finds the end of
the file and leaves a buffer behind. -/
theorem end_of_file_leaks :
    let copy : CopyToUser := fun mem dst bytes => (0, UserMemory.poke mem dst bytes)
    let first : Call := ⟨8192, 4096, 0, fun _ => some 0, true⟩
    let second : Call := ⟨8192, 4096, 4095, fun _ => some 0, true⟩
    step copy 0 first = 0 ∧ step copy 0 second = 1 := by
  intro copy first second
  refine ⟨?_, rfl⟩
  rw [step_eq, if_neg (fun h => h.2 (by decide))]

end FilterReduce.ProcfsRead
