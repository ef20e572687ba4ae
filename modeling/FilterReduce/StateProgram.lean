import Mathlib

/-!
# Programs with a state that can go wrong

A C function that works on global variables is a function from the state to a
value and a new state, or to a fault: an execution that C leaves undefined. A
result about all executions that end is a relation between the states before and
after (`Respects`); a result that promises an end keeps an invariant on the way (`Ends`).
-/
namespace FilterReduce.StateProgram

abbrev Prog (σ ε α : Type) := StateT σ (Except ε) α

variable {σ ε α β γ : Type}

/-- A computation without state. -/
def pureOr (e : Except ε α) : Prog σ ε α := fun s => e.map fun a => (a, s)

def fail (e : ε) : Prog σ ε α := fun _ => .error e

@[simp] lemma pure_apply (a : α) (s : σ) : (pure a : Prog σ ε α) s = .ok (a, s) := rfl

@[simp] lemma modify_apply (f : σ → σ) (s : σ) :
    (modify f : Prog σ ε PUnit) s = .ok (⟨⟩, f s) := rfl

@[simp] lemma fail_apply (e : ε) (s : σ) : (fail e : Prog σ ε α) s = .error e := rfl

@[simp] lemma pureOr_ok (a : α) (s : σ) : (pureOr (.ok a) : Prog σ ε α) s = .ok (a, s) := rfl

@[simp] lemma pureOr_error (e : ε) (s : σ) :
    (pureOr (.error e) : Prog σ ε α) s = .error e := rfl

lemma pureOr_eq_ok_iff {e : Except ε α} {s t : σ} {a : α} :
    (pureOr e : Prog σ ε α) s = .ok (a, t) ↔ e = .ok a ∧ t = s := by
  cases e with
  | error x => simp
  | ok b =>
    rw [pureOr_ok, Except.ok.injEq, Prod.mk.injEq, Except.ok.injEq, eq_comm (a := s)]

lemma bind_of_ok {m : Prog σ ε α} {f : α → Prog σ ε β} {s t : σ} {a : α}
    (h : m s = .ok (a, t)) : (m >>= f) s = f a t := by
  simp [bind, StateT.bind, Except.bind, h]

lemma bind_of_error {m : Prog σ ε α} {f : α → Prog σ ε β} {s : σ} {e : ε}
    (h : m s = .error e) : (m >>= f) s = .error e := by
  simp [bind, StateT.bind, Except.bind, h]

@[simp] lemma get_bind (f : σ → Prog σ ε β) (s : σ) :
    ((get : Prog σ ε σ) >>= f) s = f s s := rfl

@[simp] lemma modify_bind (g : σ → σ) (f : PUnit → Prog σ ε β) (s : σ) :
    ((modify g : Prog σ ε PUnit) >>= f) s = f ⟨⟩ (g s) := rfl

/-- Inversion of a sequence: both parts ended. -/
theorem bind_eq_ok_iff {m : Prog σ ε α} {f : α → Prog σ ε β} {s u : σ} {b : β} :
    (m >>= f) s = .ok (b, u) ↔ ∃ a t, m s = .ok (a, t) ∧ f a t = .ok (b, u) := by
  cases hm : m s with
  | error e => simp [bind_of_error hm]
  | ok x =>
    obtain ⟨a, t⟩ := x
    rw [bind_of_ok hm]
    constructor
    · intro h
      exact ⟨a, t, rfl, h⟩
    · rintro ⟨a', t', h, h'⟩
      obtain ⟨rfl, rfl⟩ := Prod.mk.inj (Except.ok.inj h)
      exact h'

/-- Every execution that ends leads to a related state. -/
def Respects (R : σ → σ → Prop) (m : Prog σ ε α) : Prop := ∀ ⦃s a t⦄, m s = .ok (a, t) → R s t

section Respects

variable {R : σ → σ → Prop}

lemma Respects.pure (hrefl : ∀ s, R s s) (a : α) : Respects R (pure a : Prog σ ε α) := by
  intro s b t h
  obtain ⟨-, rfl⟩ := Prod.mk.inj (Except.ok.inj h)
  exact hrefl s

lemma Respects.fail (e : ε) : Respects R (fail e : Prog σ ε α) := by
  intro s a t h
  cases h

lemma Respects.pureOr (hrefl : ∀ s, R s s) (e : Except ε α) :
    Respects R (pureOr e : Prog σ ε α) := by
  intro s a t h
  obtain ⟨-, rfl⟩ := pureOr_eq_ok_iff.mp h
  exact hrefl t

lemma Respects.modify {f : σ → σ} (hf : ∀ s, R s (f s)) :
    Respects R (modify f : Prog σ ε PUnit) := by
  intro s a t h
  obtain ⟨-, rfl⟩ := Prod.mk.inj (Except.ok.inj h)
  exact hf s

theorem Respects.bind (htrans : ∀ s t u, R s t → R t u → R s u) {m : Prog σ ε α}
    {f : α → Prog σ ε β} (hm : Respects R m) (hf : ∀ a, Respects R (f a)) :
    Respects R (m >>= f) := by
  intro s b u h
  obtain ⟨a, t, h₁, h₂⟩ := bind_eq_ok_iff.mp h
  exact htrans s t u (hm h₁) (hf a h₂)

/-- Reading the state changes nothing, so what follows may use the state it starts in. -/
lemma Respects.get_bind {f : σ → Prog σ ε β} (hf : ∀ s, Respects R (f s)) :
    Respects R ((get : Prog σ ε σ) >>= f) := fun s _ _ h => hf s h

theorem Respects.foldlM (hrefl : ∀ s, R s s) (htrans : ∀ s t u, R s t → R t u → R s u)
    {f : β → α → Prog σ ε β} (hf : ∀ b a, Respects R (f b a)) (l : List α) (b : β) :
    Respects R (l.foldlM f b) := by
  induction l generalizing b with
  | nil => exact Respects.pure hrefl b
  | cons a l ih =>
    rw [List.foldlM_cons]
    exact Respects.bind htrans (hf b a) fun b' => ih b'

end Respects

/-- A test of how a run ended, to be evaluated. -/
def returns (p : α → σ → Bool) : Except ε (α × σ) → Bool
  | .ok (a, s) => p a s
  | .error _ => false

lemma exists_of_returns {p : α → σ → Bool} {x : Except ε (α × σ)} (h : returns p x = true) :
    ∃ a s, x = .ok (a, s) ∧ p a s = true := by
  cases x with
  | error e => cases h
  | ok y => exact ⟨y.1, y.2, rfl, h⟩

/-- From every state in `I` the program ends, in `I` again and with a result in `Q`. -/
def Ends (I : σ → Prop) (m : Prog σ ε α) (Q : α → Prop) : Prop :=
  ∀ s, I s → ∃ a t, m s = .ok (a, t) ∧ I t ∧ Q a

section Ends

variable {I : σ → Prop} {Q : α → Prop} {Q' : β → Prop}

lemma ends_pure {a : α} (h : Q a) : Ends I (pure a : Prog σ ε α) Q :=
  fun s hs => ⟨a, s, rfl, hs, h⟩

lemma Ends.mono {m : Prog σ ε α} {Q₁ : α → Prop} (h : Ends I m Q) (hQ : ∀ a, Q a → Q₁ a) :
    Ends I m Q₁ := by
  intro s hs
  obtain ⟨a, t, hm, ht, hq⟩ := h s hs
  exact ⟨a, t, hm, ht, hQ a hq⟩

theorem Ends.bind {m : Prog σ ε α} {f : α → Prog σ ε β} (hm : Ends I m Q)
    (hf : ∀ a, Q a → Ends I (f a) Q') : Ends I (m >>= f) Q' := by
  intro s hs
  obtain ⟨a, t, hm, ht, hq⟩ := hm s hs
  obtain ⟨b, u, hu, hiu, hq'⟩ := hf a hq t ht
  exact ⟨b, u, by rw [bind_of_ok hm, hu], hiu, hq'⟩

lemma Ends.get_bind {f : σ → Prog σ ε β} (hf : ∀ s, I s → Ends I (f s) Q') :
    Ends I ((get : Prog σ ε σ) >>= f) Q' := fun s hs => hf s hs s hs

lemma Ends.modify_bind {g : σ → σ} {f : PUnit → Prog σ ε β} (hg : ∀ s, I s → I (g s))
    (hf : Ends I (f ⟨⟩) Q') : Ends I ((modify g : Prog σ ε PUnit) >>= f) Q' :=
  fun s hs => hf (g s) (hg s hs)

end Ends

end FilterReduce.StateProgram
