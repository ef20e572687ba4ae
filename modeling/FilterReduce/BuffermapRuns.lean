import FilterReduce.BuffermapKern
import FilterReduce.RunTrace

/-!
# Runs of `buffermap`

What the maps of `buffermap_kern.c` hold after any interleaving of the user's stores
and the reads of all processes. The only event that stores a byte is the return of the
registered process from a read (`char_step`); the results on whole runs follow from that.
-/
namespace FilterReduce.BuffermapRuns
open Helpers ReadTracepoint RunTrace BuffermapKern

def stores : Maps × Event UserUpdate → Option UInt8
  | (maps, .exit ctx) => captured ctx maps
  | _ => none

def Foreign (maps : Maps) (e : Event UserUpdate) : Prop := ∃ t, e.tgid = some t ∧ t ≠ maps.pid

lemma captured_of_tgid {ctx : ExitArgs} {maps : Maps} (h : tgid ctx.pidTgid = maps.pid) :
    captured ctx maps = ctx.mem maps.buf :=
  if_pos h

lemma char_step (maps : Maps) (e : Event UserUpdate) :
    (step maps e).char = (stores (maps, e)).getD maps.char := by
  cases e with
  | user update =>
    cases update with
    | pid pid =>
      rw [step, register_pid]
      rfl
    | buf buf =>
      rw [step, register_buf]
      rfl
  | enter ctx =>
    rw [step_enter]
    rfl
  | exit ctx => rw [step_exit, char_capture, stores]

lemma step_foreign {maps : Maps} {e : Event UserUpdate} (h : Foreign maps e) :
    step maps e = maps := by
  obtain ⟨t, ht, hne⟩ := h
  cases e with
  | user update => cases ht
  | enter ctx => rw [step_enter]
  | exit ctx =>
    obtain rfl := Option.some.inj ht
    rw [step_exit, captured, if_neg hne]
    rfl

/-- Isolation: tracepoints of unregistered processes can be deleted from a run without
changing what it ends in, and the captured byte is always that of the last return of the
registered process that found a readable byte at the registered address. -/
theorem isolated_from_foreign (maps : Maps) (es : List (Event UserUpdate)) :
    (∀ fs, Erases step Foreign maps es fs → run step maps es = run step maps fs) ∧
      (run step maps es).char = ((visits step maps es).filterMap stores).getLastD maps.char := by
  constructor
  · intro fs h
    exact h.run_eq step fun _ _ => step_foreign
  · exact run_obs_getLastD step char_step maps es

def memWith (c : UInt8) : UserMem := fun a => if a = 4096 then some c else some 0

def exitOf (pid : UInt64) (ret : Int64) (c : UInt8) : Event UserUpdate :=
  .exit ⟨pid <<< 32, ret, memWith c⟩

theorem isolated_from_foreign_sample :
    let es := [.user (.pid 7), .user (.buf 4096), exitOf 8 1 98, exitOf 7 1 97]
    let fs := [.user (.pid 7), .user (.buf 4096), exitOf 7 1 97]
    Erases step Foreign Maps.boot es fs ∧ run step Maps.boot es = run step Maps.boot fs := by
  intro es fs
  have herase : Erases step Foreign Maps.boot es fs :=
    .keep (.keep (.erase ⟨8, by decide, by decide⟩ (.keep (.nil _))))
  exact ⟨herase, (isolated_from_foreign Maps.boot es).1 fs herase⟩

/-! ## Which reads are captured -/

/-- The read that process `pid` is in after the events of the run: its last event, if
that is an entry. -/
def openRead (pid : UInt32) (es : List (Event UserUpdate)) : Option EnterArgs :=
  match (es.filter fun e => e.tgid = some pid).getLast? with
  | some (.enter ctx) => some ctx
  | _ => none

/-- In the run the registered process returns with `x` from the read it entered with
`ctx`, and the return meets the maps `t`. -/
def Returns (maps : Maps) (es : List (Event UserUpdate)) (t : Maps) (ctx : EnterArgs)
    (x : ExitArgs) : Prop :=
  ∃ pre post, es = pre ++ .exit x :: post ∧ t = run step maps pre ∧
    tgid x.pidTgid = t.pid ∧ openRead t.pid pre = some ctx

def Selected (t : Maps) (ctx : EnterArgs) (x : ExitArgs) : Prop := ctx.buf = t.buf ∧ 0 < x.ret

def Updates (t : Maps) (e : Event UserUpdate) : Prop :=
  t.myCharMap.updates < (step t e).myCharMap.updates

instance (t : Maps) (ctx : EnterArgs) (x : ExitArgs) : Decidable (Selected t ctx x) :=
  inferInstanceAs (Decidable (_ ∧ _))

instance (t : Maps) (e : Event UserUpdate) : Decidable (Updates t e) :=
  inferInstanceAs (Decidable (_ < _))

lemma updates_exit_iff {t : Maps} {x : ExitArgs} (h : tgid x.pidTgid = t.pid) :
    Updates t (.exit x) ↔ (x.mem t.buf).isSome := by
  rw [Updates, step_exit, updates_capture, captured_of_tgid h]
  cases x.mem t.buf <;> simp

/-- The exit handler captures the selected reads and no others if and only if, at every
return of the registered process, the byte at the registered address can be read exactly
when the read is selected. -/
theorem captures_selected_iff (maps : Maps) (es : List (Event UserUpdate)) :
    (∀ t ctx x, Returns maps es t ctx x →
      (Updates t (.exit x) ↔ Selected t ctx x) ∧
        (¬ Selected t ctx x → (step t (.exit x)).char = t.char)) ↔
    ∀ t ctx x, Returns maps es t ctx x → ((x.mem t.buf).isSome ↔ Selected t ctx x) := by
  refine forall_congr' fun t => forall_congr' fun ctx => forall_congr' fun x => ?_
  refine forall_congr' fun hret => ?_
  obtain ⟨_, _, -, -, htgid, -⟩ := hret
  rw [updates_exit_iff htgid]
  refine ⟨And.left, fun h => ⟨h, fun hns => ?_⟩⟩
  have hnone : x.mem t.buf = none := by simpa [hns] using h
  rw [char_step, stores, captured_of_tgid htgid, hnone]
  rfl

def registered : Maps := run step Maps.boot [.user (.pid 7), .user (.buf 4096)]

/-- A read of the registered process into another buffer, at end of file: captured. -/
theorem unselected_read_captured :
    let ctx : EnterArgs := ⟨(7 : UInt64) <<< 32, 3, 8192⟩
    let x : ExitArgs := ⟨(7 : UInt64) <<< 32, 0, memWith 97⟩
    Returns registered [.enter ctx, .exit x] registered ctx x ∧
      ¬ Selected registered ctx x ∧ Updates registered (.exit x) ∧
      registered.char = 0 ∧ (step registered (.exit x)).char = 97 := by
  intro ctx x
  have hmaps : registered = run step registered [.enter ctx] := by
    rw [run_cons, step_enter, run_nil]
  exact ⟨⟨[.enter ctx], [], rfl, hmaps, by decide, by decide⟩, by decide⟩

/-! ## How often a registration captures -/

def IsPid : Event UserUpdate → Prop
  | .user (.pid _) => True
  | _ => False

def IsExitOf (pid : UInt32) : Event UserUpdate → Prop
  | .exit ctx => tgid ctx.pidTgid = pid
  | _ => False

lemma pid_step {maps : Maps} {e : Event UserUpdate} (h : ¬ IsPid e) :
    (step maps e).pid = maps.pid := by
  cases e with
  | user update =>
    cases update with
    | pid pid => exact absurd trivial h
    | buf buf =>
      rw [step, register_buf]
      rfl
  | enter ctx => rw [step_enter]
  | exit ctx => rw [step_exit, pid_capture]

lemma pid_const {maps : Maps} {es : List (Event UserUpdate)} (h : ∀ e ∈ es, ¬ IsPid e) :
    (run step maps es).pid = maps.pid ∧ ∀ x ∈ visits step maps es, x.1.pid = maps.pid :=
  obs_of_const step fun x hx => pid_step (h x.2 (mem_of_mem_visits step hx))

lemma stores_eq_some_iff {t : Maps} {e : Event UserUpdate} {b : UInt8} :
    stores (t, e) = some b ↔
      ∃ y, e = .exit y ∧ tgid y.pidTgid = t.pid ∧ y.mem t.buf = some b := by
  cases e with
  | user update => simp [stores]
  | enter ctx => simp [stores]
  | exit ctx => simp [stores, captured]

lemma stores_before_exit {maps : Maps} {es : List (Event UserUpdate)}
    (h : ∀ e ∈ es, ¬ IsPid e ∧ ¬ IsExitOf maps.pid e) :
    ∀ v ∈ visits step maps es, stores v = none := by
  rintro ⟨t, e⟩ hv
  have he : e ∈ es := mem_of_mem_visits step hv
  have hpid : t.pid = maps.pid := (pid_const fun e he => (h e he).1).2 _ hv
  rw [Option.eq_none_iff_forall_ne_some]
  intro b hb
  obtain ⟨y, rfl, htgid, -⟩ := stores_eq_some_iff.mp hb
  exact (h _ he).2 (htgid.trans hpid)

lemma char_after_first {maps : Maps} {pre : List (Event UserUpdate)} {x : ExitArgs}
    (hpre : ∀ e ∈ pre, ¬ IsPid e ∧ ¬ IsExitOf maps.pid e) (hx : tgid x.pidTgid = maps.pid) :
    (step (run step maps pre) (.exit x)).char =
      (x.mem (run step maps pre).buf).getD maps.char := by
  have hpid : (run step maps pre).pid = maps.pid := (pid_const fun e he => (hpre e he).1).1
  have hnone := List.filterMap_eq_nil_iff.mpr (stores_before_exit hpre)
  rw [char_step, stores, captured_of_tgid (hx.trans hpid.symm),
    run_obs_getLastD step char_step maps pre, hnone]
  rfl

/-- After process `P` was registered, only its first return from a read changes the
captured byte until a process is registered again, if and only if every later return of
`P` finds, at the address registered then, no readable byte or the byte that was in the
map after the first. -/
theorem one_shot_iff {maps : Maps} {pre post : List (Event UserUpdate)} {x : ExitArgs}
    (hpre : ∀ e ∈ pre, ¬ IsPid e ∧ ¬ IsExitOf maps.pid e) (hx : tgid x.pidTgid = maps.pid)
    (hpost : ∀ e ∈ post, ¬ IsPid e) :
    let first := step (run step maps pre) (.exit x)
    ((∀ v ∈ visits step maps pre, (step v.1 v.2).char = v.1.char) ∧
      ∀ v ∈ visits step first post, (step v.1 v.2).char = v.1.char) ↔
    ∀ t y, (t, .exit y) ∈ visits step first post → tgid y.pidTgid = maps.pid →
      ∀ b, y.mem t.buf = some b → b = (x.mem (run step maps pre).buf).getD maps.char := by
  intro first
  have hbefore : ∀ v ∈ visits step maps pre, (step v.1 v.2).char = v.1.char := by
    rw [run_obs_const_iff step char_step]
    intro v hv b hb
    rw [stores_before_exit hpre v hv] at hb
    cases hb
  have hfirst : first.pid = maps.pid := by
    rw [pid_step id, (pid_const fun e he => (hpre e he).1).1]
  rw [and_iff_right hbefore, run_obs_const_iff step char_step, ← char_after_first hpre hx]
  constructor
  · intro h t y hv hy b hb
    have hpid := ((pid_const hpost).2 _ hv).trans hfirst
    exact h _ hv b (stores_eq_some_iff.mpr ⟨y, rfl, hy.trans hpid.symm, hb⟩)
  · rintro h ⟨t, e⟩ hv b hb
    obtain ⟨y, rfl, hy, hb⟩ := stores_eq_some_iff.mp hb
    have hpid := ((pid_const hpost).2 _ hv).trans hfirst
    exact h t y hv (hy.trans hpid) b hb

theorem one_shot_two_reads :
    let x : ExitArgs := ⟨(7 : UInt64) <<< 32, 1, memWith 97⟩
    let first := step registered (.exit x)
    tgid x.pidTgid = registered.pid ∧
    (((∀ v ∈ visits step registered [], (step v.1 v.2).char = v.1.char) ∧
      ∀ v ∈ visits step first [exitOf 7 1 98], (step v.1 v.2).char = v.1.char) ↔
    ∀ t y, (t, .exit y) ∈ visits step first [exitOf 7 1 98] →
      tgid y.pidTgid = registered.pid →
      ∀ b, y.mem t.buf = some b → b = (x.mem registered.buf).getD registered.char) := by
  intro x first
  have hx : tgid x.pidTgid = registered.pid := by decide
  have hpre : ∀ e ∈ [], ¬ IsPid e ∧ ¬ IsExitOf registered.pid e := by simp
  have hpost : ∀ e ∈ [exitOf 7 1 98], ¬ IsPid e := by simp [exitOf, IsPid]
  exact ⟨hx, one_shot_iff hpre hx hpost⟩

/-- Two reads of process 7 after one registration: both change the captured byte. -/
theorem second_read_captured :
    let first := step registered (exitOf 7 1 97)
    let second := step first (exitOf 7 1 98)
    registered.pid = 7 ∧ registered.char = 0 ∧ first.char = 97 ∧ second.char = 98 := by
  decide

end FilterReduce.BuffermapRuns
