import FilterReduce.EarlyExit

/-!
# Means of partial values

The purpose of the reducers in their own terms: the integer mean of a family of
values, some of which may be missing, over a finite index set. A missing value
makes the mean undefined.
-/
namespace FilterReduce.Reduction
open EarlyExit

variable {ι : Type*}

def total (s : Finset ι) (value : ι → Option ℕ) : ℕ := ∑ i ∈ s, (value i).getD 0

/-- The floor of the mean, if every value is there. -/
def reduction (s : Finset ι) (value : ι → Option ℕ) : Option ℕ :=
  if ∀ i ∈ s, (value i).isSome then some (total s value / s.card) else none

lemma reduction_of_defined {s : Finset ι} {value : ι → Option ℕ}
    (h : ∀ i ∈ s, (value i).isSome) : reduction s value = some (total s value / s.card) :=
  if_pos h

lemma total_of_eq_some {s : Finset ι} {value : ι → Option ℕ} {f : ι → ℕ}
    (h : ∀ i ∈ s, value i = some (f i)) : total s value = ∑ i ∈ s, f i := by
  apply Finset.sum_congr rfl
  intro i hi
  rw [h i hi, Option.getD_some]

lemma reduction_of_eq_some {s : Finset ι} {value : ι → Option ℕ} {f : ι → ℕ}
    (h : ∀ i ∈ s, value i = some (f i)) :
    reduction s value = some ((∑ i ∈ s, f i) / s.card) := by
  rw [reduction_of_defined fun i hi => by simp [h i hi], total_of_eq_some h]

lemma reduction_eq_none_iff {s : Finset ι} {value : ι → Option ℕ} :
    reduction s value = none ↔ ∃ i ∈ s, value i = none := by
  simp [reduction]

lemma reduction_isSome_iff {s : Finset ι} {value : ι → Option ℕ} :
    (reduction s value).isSome ↔ ∀ i ∈ s, (value i).isSome := by
  unfold reduction
  split_ifs with h
  · exact iff_of_true rfl h
  · exact iff_of_false Bool.false_ne_true h

lemma total_congr {s : Finset ι} {value value' : ι → Option ℕ}
    (h : ∀ i ∈ s, value i = value' i) : total s value = total s value' :=
  Finset.sum_congr rfl fun i hi => by rw [h i hi]

lemma reduction_congr {s : Finset ι} {value value' : ι → Option ℕ}
    (h : ∀ i ∈ s, value i = value' i) : reduction s value = reduction s value' := by
  have hd : (∀ i ∈ s, (value i).isSome) ↔ ∀ i ∈ s, (value' i).isSome :=
    forall₂_congr fun i hi => by rw [h i hi]
  simp only [reduction, hd, total_congr h]

lemma reduction_eq_of_imp {s : Finset ι} {f g : ι → Option ℕ}
    (hfg : (∀ i ∈ s, (f i).isSome) → ∀ i ∈ s, f i = g i)
    (hgf : (∀ i ∈ s, (g i).isSome) → ∀ i ∈ s, g i = f i) : reduction s f = reduction s g := by
  by_cases hf : ∀ i ∈ s, (f i).isSome
  · exact reduction_congr (hfg hf)
  · by_cases hg : ∀ i ∈ s, (g i).isSome
    · exact (reduction_congr (hgf hg)).symm
    · rw [reduction, reduction, if_neg hf, if_neg hg]

lemma reduction_range_succ {value : ℕ → Option ℕ} {f : ℕ → ℕ} {n : ℕ}
    (h : ∀ k < n, value k = some (f k)) :
    reduction (Finset.range (n + 1)) value =
      (value n).map fun v => (∑ k ∈ Finset.range n, f k + v) / (n + 1) := by
  cases hlast : value n with
  | none =>
    rw [reduction_eq_none_iff.mpr ⟨n, Finset.self_mem_range_succ n, hlast⟩]
    rfl
  | some v =>
    have hval : ∀ k ∈ Finset.range (n + 1), value k = some (if k < n then f k else v) := by
      intro k hk
      rcases Nat.lt_succ_iff_lt_or_eq.mp (Finset.mem_range.mp hk) with hlt | rfl
      · rw [h k hlt, if_pos hlt]
      · rw [hlast, if_neg (lt_irrefl k)]
    have hsum : ∑ k ∈ Finset.range n, (if k < n then f k else v) = ∑ k ∈ Finset.range n, f k := by
      apply Finset.sum_congr rfl
      intro k hk
      rw [if_pos (Finset.mem_range.mp hk)]
    rw [reduction_of_eq_some hval, Finset.card_range, Finset.sum_range_succ, hsum,
      if_neg (lt_irrefl n), Option.map_some]

theorem total_le {s : Finset ι} {value : ι → Option ℕ} {b : ℕ}
    (h : ∀ i ∈ s, ∀ v, value i = some v → v ≤ b) : total s value ≤ s.card * b := by
  apply Finset.sum_le_card_nsmul
  intro i hi
  cases hv : value i with
  | none => simp
  | some v => exact h i hi v hv

/-- Loop rule: a loop that exits with `e` at the first missing value ends in its invariant
with the mean defined, or exits with the mean undefined. -/
theorem loop_reduction {σ ε : Type*} {f : σ → ℕ → Except ε σ} {I : ℕ → σ → Prop}
    {value : ℕ → Option ℕ} {e : ε}
    (hgo : ∀ k s, I k s → (value k).isSome → ∃ t, f s k = .ok t ∧ I (k + 1) t)
    (hstop : ∀ k s, value k = none → f s k = .error e) {s : σ} (hs : I 0 s) (n : ℕ) :
    (∃ t, (List.range n).foldlM f s = .ok t ∧ I n t ∧
      reduction (Finset.range n) value = some (total (Finset.range n) value / n)) ∨
    ((List.range n).foldlM f s = .error e ∧ reduction (Finset.range n) value = none) := by
  by_cases hall : ∀ k < n, (value k).isSome
  · obtain ⟨t, ht, hI⟩ := loop_ok hgo hs hall
    have hdef : ∀ k ∈ Finset.range n, (value k).isSome := by simpa using hall
    refine Or.inl ⟨t, ht, hI, ?_⟩
    rw [reduction_of_defined hdef, Finset.card_range]
  · push Not at hall
    have hexit : ∀ k s, I k s → ¬ (value k).isSome → f s k = .error e := by
      intro k s _ hk
      exact hstop k s (by simpa using hk)
    refine Or.inr ⟨loop_error hgo hexit hs hall, reduction_eq_none_iff.mpr ?_⟩
    simpa using hall

lemma sum_range_blocks (f : ℕ → ℕ) (c n : ℕ) :
    ∑ k ∈ Finset.range (c * n), f k =
      ∑ i ∈ Finset.range n, ∑ r ∈ Finset.range c, f (c * i + r) := by
  induction n with
  | zero => simp
  | succ n ih => rw [Nat.mul_succ, Finset.sum_range_add, ih, Finset.sum_range_succ]

end FilterReduce.Reduction
