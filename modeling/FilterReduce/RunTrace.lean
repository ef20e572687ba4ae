import Mathlib

/-!
# Runs of a deterministic event system

A system is a step function on states. `visits` pairs every event of a run with
the state it met, so that a statement about all moments of a run is a statement
about the members of one list.
-/
namespace FilterReduce.RunTrace

variable {S E V : Type*}

def run (step : S → E → S) (s : S) (es : List E) : S := es.foldl step s

/-- Each event of the run, paired with the state in which it was handled. -/
def visits (step : S → E → S) : S → List E → List (S × E)
  | _, [] => []
  | s, e :: es => (s, e) :: visits step (step s e) es

variable (step : S → E → S)

@[simp] lemma run_nil (s : S) : run step s [] = s := rfl

@[simp] lemma run_cons (s : S) (e : E) (es : List E) :
    run step s (e :: es) = run step (step s e) es := rfl

lemma run_append (s : S) (es fs : List E) :
    run step s (es ++ fs) = run step (run step s es) fs := by
  simp [run, List.foldl_append]

@[simp] lemma visits_nil (s : S) : visits step s [] = [] := rfl

@[simp] lemma visits_cons (s : S) (e : E) (es : List E) :
    visits step s (e :: es) = (s, e) :: visits step (step s e) es := rfl

/-- A visit is a cut of the run: the events before it lead to its state. -/
theorem mem_visits {s t : S} {e : E} {es : List E} :
    (t, e) ∈ visits step s es ↔ ∃ pre post, es = pre ++ e :: post ∧ t = run step s pre := by
  induction es generalizing s with
  | nil => simp
  | cons a es ih =>
    rw [visits_cons, List.mem_cons, ih]
    constructor
    · rintro (h | ⟨pre, post, rfl, rfl⟩)
      · obtain ⟨rfl, rfl⟩ := Prod.mk.inj h
        exact ⟨[], es, rfl, rfl⟩
      · exact ⟨a :: pre, post, rfl, rfl⟩
    · rintro ⟨pre, post, he, rfl⟩
      cases pre with
      | nil =>
        obtain ⟨rfl, rfl⟩ := List.cons.inj he
        exact Or.inl rfl
      | cons b pre =>
        obtain ⟨rfl, rfl⟩ := List.cons.inj he
        exact Or.inr ⟨pre, post, rfl, rfl⟩

lemma forall_visits_snd {P : E → Prop} (s : S) (es : List E) :
    (∀ x ∈ visits step s es, P x.2) ↔ ∀ e ∈ es, P e := by
  induction es generalizing s with
  | nil => simp
  | cons e es ih => rw [visits_cons, List.forall_mem_cons, List.forall_mem_cons, ih]

theorem run_invariant {P : S → Prop} (hstep : ∀ s e, P s → P (step s e)) {s : S} (hs : P s)
    (es : List E) : P (run step s es) := by
  induction es generalizing s with
  | nil => exact hs
  | cons e es ih => exact ih (hstep s e hs)

theorem run_invariant_of {P : S → Prop} {ok : E → Prop}
    (hstep : ∀ s e, ok e → P s → P (step s e)) {s : S} (hs : P s) {es : List E}
    (hes : ∀ e ∈ es, ok e) : P (run step s es) := by
  induction es generalizing s with
  | nil => exact hs
  | cons e es ih =>
    have he := hes e (by simp)
    exact ih (hstep s e he hs) fun f hf => hes f (by simp [hf])

/-- If a step either stores the value `pub s e` in `obs` or leaves `obs` alone,
then after a run `obs` holds the last value stored, its initial value if none was. -/
theorem run_obs_getLastD {obs : S → V} {pub : S × E → Option V}
    (hstep : ∀ s e, obs (step s e) = (pub (s, e)).getD (obs s)) (s : S) (es : List E) :
    obs (run step s es) = ((visits step s es).filterMap pub).getLastD (obs s) := by
  induction es generalizing s with
  | nil => rfl
  | cons e es ih =>
    rw [run_cons, ih, hstep, visits_cons, List.filterMap_cons]
    cases pub (s, e) with
    | none => rfl
    | some v => rw [List.getLastD_cons]; rfl

/-- Such a value stays as it was through a run if and only if every value stored is the
one it started with. -/
theorem run_obs_const_iff {obs : S → V} {pub : S × E → Option V}
    (hstep : ∀ s e, obs (step s e) = (pub (s, e)).getD (obs s)) (s : S) (es : List E) :
    (∀ x ∈ visits step s es, obs (step x.1 x.2) = obs x.1) ↔
      ∀ x ∈ visits step s es, ∀ v, pub x = some v → v = obs s := by
  induction es generalizing s with
  | nil => simp
  | cons e es ih =>
    have hhead : obs (step s e) = obs s ↔ ∀ v, pub (s, e) = some v → v = obs s := by
      rw [hstep]
      cases pub (s, e) <;> simp
    rw [visits_cons, List.forall_mem_cons, List.forall_mem_cons, ih, ← hhead]
    refine and_congr_right fun hsame => ?_
    rw [hsame]

lemma obs_of_const {obs : S → V} {s : S} {es : List E}
    (h : ∀ x ∈ visits step s es, obs (step x.1 x.2) = obs x.1) :
    obs (run step s es) = obs s ∧ ∀ x ∈ visits step s es, obs x.1 = obs s := by
  induction es generalizing s with
  | nil => simp
  | cons e es ih =>
    rw [visits_cons, List.forall_mem_cons] at h
    obtain ⟨hrun, hall⟩ := ih h.2
    refine ⟨hrun.trans h.1, ?_⟩
    rw [visits_cons, List.forall_mem_cons]
    exact ⟨rfl, fun x hx => (hall x hx).trans h.1⟩

lemma exists_visit {s : S} {e : E} {es : List E} (h : e ∈ es) :
    ∃ t, (t, e) ∈ visits step s es := by
  obtain ⟨pre, post, rfl⟩ := List.append_of_mem h
  exact ⟨_, (mem_visits step).mpr ⟨pre, post, rfl, rfl⟩⟩

lemma mem_of_mem_visits {s : S} {x : S × E} {es : List E} (h : x ∈ visits step s es) :
    x.2 ∈ es := by
  obtain ⟨pre, post, rfl, -⟩ := (mem_visits step).mp h
  simp

theorem run_count {cnt : S → ℕ} {hit : S × E → Bool}
    (hstep : ∀ s e, cnt (step s e) = cnt s + if hit (s, e) then 1 else 0)
    (s : S) (es : List E) :
    cnt (run step s es) = cnt s + (visits step s es).countP hit := by
  induction es generalizing s with
  | nil => rfl
  | cons e es ih =>
    rw [run_cons, ih, hstep, visits_cons, List.countP_cons]
    omega

/-- `Erases drop s es fs`: `fs` is `es` without some events that `drop` allows to
delete in the state in which `es` handles them. -/
inductive Erases (drop : S → E → Prop) : S → List E → List E → Prop
  | nil (s : S) : Erases drop s [] []
  | keep {s : S} {e : E} {es fs : List E} (rest : Erases drop (step s e) es fs) :
      Erases drop s (e :: es) (e :: fs)
  | erase {s : S} {e : E} {es fs : List E} (may : drop s e)
      (rest : Erases drop (step s e) es fs) : Erases drop s (e :: es) fs

theorem Erases.run_eq {drop : S → E → Prop} (hdrop : ∀ s e, drop s e → step s e = s)
    {s : S} {es fs : List E} (h : Erases step drop s es fs) :
    run step s es = run step s fs := by
  induction h with
  | nil s => rfl
  | keep _ ih => exact ih
  | erase may _ ih => rw [run_cons, ih, hdrop _ _ may]

/-- `Interleaved others own es`: `es` is `own` with other events put in anywhere. -/
inductive Interleaved (others : E → Prop) : List E → List E → Prop
  | nil : Interleaved others [] []
  | own {e : E} {own es : List E} (rest : Interleaved others own es) :
      Interleaved others (e :: own) (e :: es)
  | other {e : E} {own es : List E} (he : others e) (rest : Interleaved others own es) :
      Interleaved others own (e :: es)

lemma Interleaved.of_nil {others : E → Prop} {es : List E} (h : Interleaved others [] es) :
    ∀ e ∈ es, others e := by
  generalize hown : ([] : List E) = own at h
  induction h with
  | nil => simp
  | own => cases hown
  | other he _ ih => exact List.forall_mem_cons.mpr ⟨he, ih hown⟩

lemma Interleaved.split {others : E → Prop} {a : E} {own es : List E}
    (h : Interleaved others (a :: own) es) :
    ∃ gap rest, es = gap ++ a :: rest ∧ (∀ e ∈ gap, others e) ∧ Interleaved others own rest := by
  generalize hown : a :: own = all at h
  induction h with
  | nil => cases hown
  | own rest =>
    obtain ⟨rfl, rfl⟩ := List.cons.inj hown
    exact ⟨[], _, rfl, by simp, rest⟩
  | @other e _ _ he _ ih =>
    obtain ⟨gap, rest, rfl, hgap, hrest⟩ := ih hown
    exact ⟨e :: gap, rest, rfl, List.forall_mem_cons.mpr ⟨he, hgap⟩, hrest⟩

/-- An own event of the kind that others may do as well can be counted among theirs. -/
lemma Interleaved.absorb {others : E → Prop} {a : E} {own es : List E}
    (h : Interleaved others (a :: own) es) (ha : others a) : Interleaved others own es := by
  generalize hown : a :: own = all at h
  induction h with
  | nil => cases hown
  | own rest =>
    obtain ⟨rfl, rfl⟩ := List.cons.inj hown
    exact .other ha rest
  | other he _ ih => exact .other he (ih hown)

/-- Two systems that keep up with each other in every step do so in every run. -/
theorem run_simulates {T : Type*} {step' : T → E → T} {R : S → T → Prop} {ok : E → Prop}
    (hstep : ∀ s t e, ok e → R s t → R (step s e) (step' t e)) {s : S} {t : T} (h : R s t)
    {es : List E} (hes : ∀ e ∈ es, ok e) : R (run step s es) (run step' t es) := by
  induction es generalizing s t with
  | nil => exact h
  | cons e es ih =>
    exact ih (hstep s t e (hes e (by simp)) h) fun f hf => hes f (by simp [hf])

end FilterReduce.RunTrace
