import FilterReduce.RunTrace
import FilterReduce.ReaditerKern

/-!
# Runs of the readiter probe

Processes register buffers and call `copyout_bpf` in any order. The maps are shared
by all of them, memory is per process. `owner` and `overrides` are history variables:
the process that registered last, and the number of overridden returns.
-/
namespace FilterReduce.CopyoutSystem
open CString Helpers Reduction CopyoutProbe CopyoutProbe.Machine ReaditerKern RunTrace

abbrev Pid := UInt32

structure System where
  myReadMap : ArrayMap UInt64 1
  resultMap : ArrayMap UInt64 1
  user : Pid → UserMem
  owner : Option Pid
  overrides : ℕ

/-- A call of `copyout_bpf` by a process; `curr` is the uninitialised stack of the probe. -/
structure Call where
  pid : Pid
  ctx : PtRegs
  curr : Buf 3

inductive Event
  /-- `bpf_map_update_elem(map_fd[0], &key, &buf, BPF_ANY)` -/
  | register (pid : Pid) (buf : UInt64)
  | call (c : Call)

namespace System

def boot (user : Pid → UserMem) : System := ⟨ArrayMap.fill 0, ArrayMap.fill 0, user, none, 0⟩

def machine (s : System) (pid : Pid) : Machine := ⟨s.myReadMap, s.resultMap, s.user pid, none⟩

def registered (s : System) : UInt64 := s.myReadMap.first

def result (s : System) : UInt64 := s.resultMap.first

def fired (s : System) (c : Call) : ℤ × Machine := bpfCopyout c.curr c.ctx (s.machine c.pid)

end System

def Matches (s : System) (c : Call) : Prop := c.ctx.toPtr = s.registered

instance (s : System) (c : Call) : Decidable (Matches s c) :=
  inferInstanceAs (Decidable (c.ctx.toPtr = s.registered))

def step (copyout : Copyout) (s : System) : Event → System
  | .register pid buf =>
    { s with myReadMap := (s.myReadMap.update 0 buf).2, owner := some pid }
  | .call c =>
    let out := (copyoutBpf (bpfCopyout c.curr) copyout c.ctx (s.machine c.pid)).2
    { s with
      myReadMap := out.myReadMap
      resultMap := out.resultMap
      user := Function.update s.user c.pid out.user
      overrides := s.overrides + if out.override.isSome then 1 else 0 }

def published : System × Event → Option UInt64
  | (_, .register _ _) => none
  | (s, .call c) =>
    if Matches s c then (pageMean c.ctx.fromPtr).map UInt64.ofNat else none

def matched : System × Event → Bool
  | (_, .register _ _) => false
  | (s, .call c) => decide (Matches s c)

lemma fired_unmatched {s : System} {c : Call} (h : ¬ Matches s c) :
    s.fired c = (0, s.machine c.pid) := bpfCopyout_unmatched c.curr h

lemma fired_matched {s : System} {c : Call} (h : Matches s c) :
    s.fired c = ((s.machine c.pid).bpfOverrideReturn 0).settle
      (·.writeUser c.ctx.toPtr mystring) (pageMean c.ctx.fromPtr) := by
  have hto : c.ctx.toPtr = (s.machine c.pid).registered := h
  rw [System.fired, bpfCopyout_matched c.curr hto]

lemma fired_result (s : System) (c : Call) :
    (s.fired c).2.result = (published (s, .call c)).getD s.result := by
  by_cases h : Matches s c
  · rw [fired_matched h, published, if_pos h]
    cases pageMean c.ctx.fromPtr with
    | none => rfl
    | some avg => simp
  · rw [fired_unmatched h, published, if_neg h]
    rfl

lemma fired_override (s : System) (c : Call) :
    (s.fired c).2.override.isSome = decide (Matches s c) := by
  by_cases h : Matches s c
  · rw [fired_matched h, decide_eq_true h]
    cases pageMean c.ctx.fromPtr <;> simp
  · rw [fired_unmatched h, decide_eq_false h]
    rfl

lemma fired_untouched {s : System} {c : Call} (h : ¬ Matches s c) :
    Untouched (s.machine c.pid) (s.fired c).2 := by
  rw [fired_unmatched h]
  exact Untouched.refl _

lemma not_untouched_of_matches {s : System} {c : Call} (h : Matches s c) :
    ¬ Untouched (s.machine c.pid) (s.fired c).2 := by
  rintro ⟨ho, -, -⟩
  have hsome := fired_override s c
  rw [ho, decide_eq_true h] at hsome
  exact Bool.false_ne_true hsome

lemma copyoutBpf_maps (probe : Program) (copyout : Copyout) (ctx : PtRegs) (m : Machine) :
    (copyoutBpf probe copyout ctx m).2.resultMap =
        (probe ctx { m with override := none }).2.resultMap ∧
      (copyoutBpf probe copyout ctx m).2.override =
        (probe ctx { m with override := none }).2.override := by
  unfold copyoutBpf
  cases h : (probe ctx { m with override := none }).2.override <;> simp [h]

lemma step_result (copyout : Copyout) (s : System) (e : Event) :
    (step copyout s e).result = (published (s, e)).getD s.result := by
  cases e with
  | register pid buf => rfl
  | call c =>
    rw [← fired_result]
    exact congrArg (fun r : ArrayMap UInt64 1 => r.first)
      (copyoutBpf_maps (bpfCopyout c.curr) copyout c.ctx (s.machine c.pid)).1

lemma step_overrides (copyout : Copyout) (s : System) (e : Event) :
    (step copyout s e).overrides = s.overrides + if matched (s, e) then 1 else 0 := by
  cases e with
  | register pid buf => rfl
  | call c =>
    rw [matched, ← fired_override]
    exact congrArg (fun o : Option UInt64 => s.overrides + if o.isSome then 1 else 0)
      (copyoutBpf_maps (bpfCopyout c.curr) copyout c.ctx (s.machine c.pid)).2

/-- The result map over whole runs: it holds the mean of the last matching call whose
slots all converted, overrides are counted by the matching calls, other calls change
nothing, and a matching call that fails leaves the previous mean visible. -/
theorem result_map_over_runs (copyout : Copyout) (s : System) (es : List Event) :
    (run (step copyout) s es).result =
      ((visits (step copyout) s es).filterMap published).getLastD s.result ∧
    (run (step copyout) s es).overrides =
      s.overrides + (visits (step copyout) s es).countP matched ∧
    (∀ t c, (t, .call c) ∈ visits (step copyout) s es → ¬ Matches t c →
      Untouched (t.machine c.pid) (t.fired c).2) ∧
    (∀ t c, (t, .call c) ∈ visits (step copyout) s es → Matches t c →
      pageMean c.ctx.fromPtr = none → (step copyout t (.call c)).result = t.result) := by
  refine ⟨?_, ?_, ?_, ?_⟩
  · exact run_obs_getLastD (step copyout) (step_result copyout) s es
  · exact run_count (step copyout) (step_overrides copyout) s es
  · intro t c _ hc
    exact fired_untouched hc
  · intro t c _ hc hfail
    rw [step_result, published, if_pos hc, hfail]
    rfl

/-- Over every run from loading on, the probe leaves alone the calls of all processes
but the last one to register, if and only if none of those calls passes the
registered address (zero before the first registration) as its `to`. -/
theorem only_registrant_intercepted_iff (copyout : Copyout) (user : Pid → UserMem)
    (es : List Event) :
    (∀ s c, (s, .call c) ∈ visits (step copyout) (System.boot user) es →
      s.owner ≠ some c.pid → Untouched (s.machine c.pid) (s.fired c).2) ↔
    ∀ s c, (s, .call c) ∈ visits (step copyout) (System.boot user) es →
      s.owner ≠ some c.pid → c.ctx.toPtr ≠ s.registered := by
  constructor
  · intro hall s c hv hforeign hto
    exact not_untouched_of_matches hto (hall s c hv hforeign)
  · intro hall s c hv hforeign
    exact fired_untouched (hall s c hv hforeign)

/-- Two ways to be intercepted by mistake: another process whose buffer has the same
virtual address, and a null buffer before anybody registered. -/
theorem foreign_call_intercepted :
    let copyout := copyToUser
    let user : Pid → UserMem := fun _ _ => some 0
    let other : Call := ⟨2, ⟨4096, samplePage, 60⟩, Buf.zeros 3⟩
    let early : Call := ⟨2, ⟨0, samplePage, 60⟩, Buf.zeros 3⟩
    (∃ s, (s, .call other) ∈
        visits (step copyout) (System.boot user) [.register 1 4096, .call other] ∧
      s.owner ≠ some other.pid ∧ ¬ Untouched (s.machine other.pid) (s.fired other).2) ∧
    ∃ s, (s, .call early) ∈ visits (step copyout) (System.boot user) [.call early] ∧
      s.owner ≠ some early.pid ∧ ¬ Untouched (s.machine early.pid) (s.fired early).2 := by
  intro copyout user other early
  refine ⟨⟨step copyout (System.boot user) (.register 1 4096), by simp, by decide, ?_⟩,
    ⟨System.boot user, by simp, by decide, ?_⟩⟩
  · exact not_untouched_of_matches (c := other) rfl
  · exact not_untouched_of_matches (c := early) rfl

end FilterReduce.CopyoutSystem
