import Mathlib

/-!
# Counted loops with an early exit

The body of a C loop that may `return` from inside is a step in `Except`: `error`
carries the returned code, `ok` the locals for the next iteration. A loop is the
monadic fold of its body over the values of the loop variable.
-/
namespace FilterReduce.EarlyExit

variable {σ ε : Type*}

/-- The values of `i` in `for (i = lo; i < hi; i += stride)`. -/
def indices (lo hi stride : ℕ) : List ℕ :=
  List.range' lo ((hi - lo + (stride - 1)) / stride) stride

/-- The values of `i` in `while (i <= hi) { ...; i = i * 2; }`, for a positive start `lo`. -/
def doublings (lo hi : ℕ) : List ℕ :=
  ((List.range (hi + 1)).map (lo * 2 ^ ·)).takeWhile (· ≤ hi)

lemma doublings_singleton {lo hi : ℕ} (h : lo ≤ hi) (h2 : hi < lo * 2) :
    doublings lo hi = [lo] := by
  obtain ⟨n, rfl⟩ : ∃ n, hi = n + 1 := ⟨hi - 1, by omega⟩
  have hstop : ¬ lo * 2 ≤ n + 1 := by omega
  simp [doublings, List.range_succ_eq_map, h, hstop]

lemma indices_eq_map (lo hi stride : ℕ) :
    indices lo hi stride =
      (List.range ((hi - lo + (stride - 1)) / stride)).map (lo + stride * ·) := by
  apply List.ext_getElem
  · simp [indices]
  · intro k _ _
    simp [indices]

lemma foldlM_indices (f : σ → ℕ → Except ε σ) (lo hi stride : ℕ) (s : σ) :
    (indices lo hi stride).foldlM f s =
      (List.range ((hi - lo + (stride - 1)) / stride)).foldlM
        (fun s k => f s (lo + stride * k)) s := by
  rw [indices_eq_map, List.foldlM_map]

lemma foldlM_indices_unit (f : σ → ℕ → Except ε σ) (n : ℕ) (s : σ) :
    (indices 0 n 1).foldlM f s = (List.range n).foldlM f s := by
  rw [foldlM_indices]
  simp

lemma foldlM_take_indices (f : σ → ℕ → Except ε σ) {lo hi stride n : ℕ}
    (hn : n ≤ (hi - lo + (stride - 1)) / stride) (s : σ) :
    ((indices lo hi stride).take n).foldlM f s =
      (List.range n).foldlM (fun s k => f s (lo + stride * k)) s := by
  rw [indices_eq_map, ← List.map_take, List.take_range, Nat.min_eq_left hn, List.foldlM_map]

lemma foldlM_range_succ (f : σ → ℕ → Except ε σ) (n : ℕ) (s : σ) :
    (List.range (n + 1)).foldlM f s = (List.range n).foldlM f s >>= fun t => f t n := by
  simp [List.range_succ, List.foldlM_append]

/-- Loop rule, completed loop: when no iteration exits, the invariant holds at the end. -/
theorem loop_ok {f : σ → ℕ → Except ε σ} {I : ℕ → σ → Prop} {go : ℕ → Prop}
    (hgo : ∀ k s, I k s → go k → ∃ t, f s k = .ok t ∧ I (k + 1) t)
    {s : σ} (hs : I 0 s) {n : ℕ} (hn : ∀ k < n, go k) :
    ∃ t, (List.range n).foldlM f s = .ok t ∧ I n t := by
  induction n with
  | zero => exact ⟨s, rfl, hs⟩
  | succ n ih =>
    obtain ⟨t, ht, hI⟩ := ih fun k hk => hn k (by omega)
    obtain ⟨u, hu, hI'⟩ := hgo n t hI (hn n (by omega))
    refine ⟨u, ?_, hI'⟩
    rw [foldlM_range_succ, ht]
    exact hu

/-- Loop rule, early exit: one iteration that exits makes the whole loop exit. -/
theorem loop_error {f : σ → ℕ → Except ε σ} {I : ℕ → σ → Prop} {go : ℕ → Prop} {e : ε}
    (hgo : ∀ k s, I k s → go k → ∃ t, f s k = .ok t ∧ I (k + 1) t)
    (hstop : ∀ k s, I k s → ¬ go k → f s k = .error e)
    {s : σ} (hs : I 0 s) {n : ℕ} (hn : ∃ k < n, ¬ go k) :
    (List.range n).foldlM f s = .error e := by
  induction n with
  | zero =>
    obtain ⟨k, hk, _⟩ := hn
    omega
  | succ n ih =>
    rw [foldlM_range_succ]
    by_cases hbefore : ∃ k < n, ¬ go k
    · rw [ih hbefore]
      rfl
    · -- the first exit is the last iteration, so the invariant still holds there
      push Not at hbefore
      obtain ⟨t, ht, hI⟩ := loop_ok hgo hs hbefore
      obtain ⟨k, hk, hng⟩ := hn
      have hkn : k = n := by
        by_contra hne
        exact hng (hbefore k (by omega))
      rw [ht]
      exact hstop n t hI (hkn ▸ hng)

/-- Two loops whose iterations agree on a part of the locals, whatever the rest is, agree
on that part at the end. -/
theorem foldlM_map_congr {β : Type*} {f g : σ → ℕ → Except ε σ} {obs : σ → β}
    (h : ∀ s t k, obs s = obs t → (f s k).map obs = (g t k).map obs) {s t : σ}
    (hst : obs s = obs t) (ks : List ℕ) :
    (ks.foldlM f s).map obs = (ks.foldlM g t).map obs := by
  induction ks generalizing s t with
  | nil => exact congrArg Except.ok hst
  | cons k ks ih =>
    have hk := h s t k hst
    rw [List.foldlM_cons, List.foldlM_cons]
    cases hf : f s k with
    | error e =>
      cases hg : g t k with
      | error e' => simpa [hf, hg, Except.map, bind, Except.bind] using hk
      | ok t' => simp [hf, hg, Except.map] at hk
    | ok s' =>
      cases hg : g t k with
      | error e' => simp [hf, hg, Except.map] at hk
      | ok t' =>
        rw [hf, hg] at hk
        exact ih (Except.ok.inj hk)

section Missing

variable {α : Type*}

/-- A loop over `f` that stops at its first missing value cannot be told from one over `g`. -/
def Agree (n : ℕ) (f g : ℕ → Option α) : Prop := ∀ j < n, (∀ i < j, (f i).isSome) → f j = g j

def upTo (f : ℕ → Option α) (j : ℕ) : Option α := if ∀ i < j, (f i).isSome then f j else none

lemma Agree.symm {n : ℕ} {f g : ℕ → Option α} (h : Agree n f g) : Agree n g f := by
  intro j
  induction j using Nat.strong_induction_on with
  | _ j ih =>
    intro hj hg
    refine (h j hj fun i hi => ?_).symm
    rw [← ih i hi (by omega) fun k hk => hg k (by omega)]
    exact hg i hi

lemma Agree.isSome {n j : ℕ} {f g : ℕ → Option α} (h : Agree n f g) (hj : j ≤ n)
    (hf : ∀ i < j, (f i).isSome) : ∀ i < j, (g i).isSome := by
  intro i hi
  rw [← h i (by omega) fun k hk => hf k (by omega)]
  exact hf i hi

lemma Agree.upTo_eq {n j : ℕ} {f g : ℕ → Option α} (h : Agree n f g) (hj : j < n) :
    upTo f j = upTo g j := by
  by_cases hf : ∀ i < j, (f i).isSome
  · rw [upTo, upTo, if_pos hf, if_pos (h.isSome hj.le hf), h j hj hf]
  · have hg : ¬ ∀ i < j, (g i).isSome := fun hg => hf (h.symm.isSome hj.le hg)
    rw [upTo, upTo, if_neg hf, if_neg hg]

end Missing

end FilterReduce.EarlyExit
