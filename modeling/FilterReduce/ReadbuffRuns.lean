import FilterReduce.ReadbuffKern
import FilterReduce.RunTrace

/-!
# Runs of `readbuff`

The entry handler knows the target by its descriptor number and the exit handler not at
all, so the reads of other processes can get between the target and its maps. For a run
in which the target registers and reads once, the module says when they do.
-/
namespace FilterReduce.ReadbuffRuns
open Helpers ReadTracepoint RunTrace ReadbuffKern

/-- The target process: the descriptor and buffer of its read, and how that returns. -/
structure Target where
  pidTgid : UInt64
  fd : UInt32
  buf : UInt64
  ret : Int64
  mem : UserMem

def Target.enter (t : Target) : EnterArgs := ⟨t.pidTgid, t.fd.toUInt64, t.buf⟩

def Target.exit (t : Target) : ExitArgs := ⟨t.pidTgid, t.ret, t.mem⟩

def Foreign (t : Target) (e : Event UserUpdate) : Prop :=
  ∃ p, e.tgid = some p ∧ p ≠ tgid t.pidTgid

def bufStored : Maps × Event UserUpdate → Option UInt64
  | (maps, .enter ctx) => if maps.fd.toUInt64 = ctx.fd then some ctx.buf else none
  | _ => none

def charStored : Maps × Event UserUpdate → Option UInt8
  | (maps, .exit _) => some (firstByte maps.buf)
  | _ => none

lemma buf_step (maps : Maps) (e : Event UserUpdate) :
    (step maps e).buf = (bufStored (maps, e)).getD maps.buf := by
  cases e with
  | user update => exact buf_step_user maps update
  | enter ctx =>
    rw [buf_step_enter, bufStored]
    split <;> rfl
  | exit ctx => exact buf_step_exit maps ctx

lemma char_step (maps : Maps) (e : Event UserUpdate) :
    (step maps e).char = (charStored (maps, e)).getD maps.char := by
  cases e with
  | user update => exact char_step_user maps update
  | enter ctx => exact char_step_enter maps ctx
  | exit ctx => exact char_step_exit maps ctx

lemma fd_step_foreign {t : Target} {maps : Maps} {e : Event UserUpdate} (he : Foreign t e) :
    (step maps e).fd = maps.fd := by
  cases e with
  | user update =>
    obtain ⟨p, hp, -⟩ := he
    cases hp
  | enter ctx => exact fd_step_enter maps ctx
  | exit ctx => exact fd_step_exit maps ctx

lemma fd_foreign {t : Target} {maps : Maps} {g : List (Event UserUpdate)}
    (hg : ∀ e ∈ g, Foreign t e) :
    (run step maps g).fd = maps.fd ∧ ∀ x ∈ visits step maps g, x.1.fd = maps.fd :=
  obs_of_const step fun x hx => fd_step_foreign (hg x.2 (mem_of_mem_visits step hx))

/-- The buffer survives a gap if and only if every read in it from the same descriptor
number is into the same buffer. -/
lemma buf_const_iff {t : Target} {maps : Maps} {g : List (Event UserUpdate)}
    (hg : ∀ e ∈ g, Foreign t e) (hfd : maps.fd = t.fd) (hbuf : maps.buf = t.buf) :
    (∀ x ∈ visits step maps g, (step x.1 x.2).buf = x.1.buf) ↔
      ∀ ctx, .enter ctx ∈ g → ctx.fd = t.fd.toUInt64 → ctx.buf = t.buf := by
  have hfds : ∀ x ∈ visits step maps g, x.1.fd = t.fd :=
    fun x hx => ((fd_foreign hg).2 x hx).trans hfd
  rw [run_obs_const_iff step buf_step, hbuf]
  constructor
  · intro h ctx hctx hsame
    obtain ⟨u, hu⟩ := exists_visit step (s := maps) hctx
    refine h _ hu ctx.buf ?_
    rw [bufStored, hfds _ hu, if_pos hsame.symm]
  · rintro h ⟨u, e⟩ hx b hb
    cases e with
    | user update => cases hb
    | exit ctx => cases hb
    | enter ctx =>
      rw [bufStored, hfds _ hx] at hb
      split at hb
      · obtain rfl := Option.some.inj hb
        exact h ctx (mem_of_mem_visits step hx) (Eq.symm ‹_›)
      · cases hb

/-- With the buffer fixed, any exit stores the first byte of its address. -/
lemma char_const_iff {maps : Maps} {g : List (Event UserUpdate)}
    (hbuf : ∀ x ∈ visits step maps g, (step x.1 x.2).buf = x.1.buf) :
    (∀ x ∈ visits step maps g, (step x.1 x.2).char = x.1.char) ↔
      ((∃ ctx, .exit ctx ∈ g) → maps.char = firstByte maps.buf) := by
  have hbufs := (obs_of_const step hbuf).2
  rw [run_obs_const_iff step char_step]
  constructor
  · rintro h ⟨ctx, hctx⟩
    obtain ⟨u, hu⟩ := exists_visit step (s := maps) hctx
    refine (h _ hu (firstByte maps.buf) ?_).symm
    rw [charStored, hbufs _ hu]
  · rintro h ⟨u, e⟩ hx b hb
    cases e with
    | user update => cases hb
    | enter ctx => cases hb
    | exit ctx =>
      rw [charStored, hbufs _ hx] at hb
      rw [h ⟨ctx, mem_of_mem_visits step hx⟩]
      exact (Option.some.inj hb).symm

lemma undisturbed_iff {t : Target} {maps : Maps} {g : List (Event UserUpdate)}
    (hg : ∀ e ∈ g, Foreign t e) (hfd : maps.fd = t.fd) (hbuf : maps.buf = t.buf) :
    (∀ x ∈ visits step maps g,
      (step x.1 x.2).buf = x.1.buf ∧ (step x.1 x.2).char = x.1.char) ↔
    (∀ ctx, .enter ctx ∈ g → ctx.fd = t.fd.toUInt64 → ctx.buf = t.buf) ∧
      ((∃ ctx, .exit ctx ∈ g) → maps.char = firstByte t.buf) := by
  simp only [forall_and]
  rw [← buf_const_iff hg hfd hbuf]
  refine and_congr_right fun hconst => ?_
  rw [char_const_iff hconst, hbuf]

/-- The events of another process change nothing and the target's buffer is there at its
exit, if and only if no other process reads from the same descriptor number into another
buffer after the target's entry, and an exit of another process that comes before the
target's own finds the byte it stores already there. -/
theorem readbuff_tracks_iff (t : Target) (maps : Maps) {g₀ g₁ g₂ g₃ : List (Event UserUpdate)}
    (hg : ∀ e ∈ g₀ ++ g₁ ++ g₂ ++ g₃, Foreign t e) :
    let armed := run step maps (g₀ ++ .user ⟨t.fd⟩ :: g₁)
    let entered := step armed (.enter t.enter)
    let waiting := run step entered g₂
    let exited := step waiting (.exit t.exit)
    (waiting.buf = t.buf ∧
      ∀ x ∈ visits step entered g₂ ++ visits step exited g₃,
        (step x.1 x.2).buf = x.1.buf ∧ (step x.1 x.2).char = x.1.char) ↔
    (∀ ctx, .enter ctx ∈ g₂ ++ g₃ → ctx.fd = t.fd.toUInt64 → ctx.buf = t.buf) ∧
      ((∃ ctx, .exit ctx ∈ g₂) → armed.char = firstByte t.buf) := by
  intro armed entered waiting exited
  have hg₁ : ∀ e ∈ g₁, Foreign t e := fun e he => hg e (by simp [he])
  have hg₂ : ∀ e ∈ g₂, Foreign t e := fun e he => hg e (by simp [he])
  have hg₃ : ∀ e ∈ g₃, Foreign t e := fun e he => hg e (by simp [he])
  have hfd : armed.fd = t.fd := by
    simp only [armed, run_append, run_cons]
    exact (fd_foreign hg₁).1.trans (fd_step_user _ _)
  have hfd₂ : entered.fd = t.fd := (fd_step_enter _ _).trans hfd
  have hbuf₂ : entered.buf = t.buf := by
    rw [buf_step_enter, hfd]
    exact if_pos rfl
  have hchar₂ : entered.char = armed.char := char_step_enter _ _
  have hfd₃ : exited.fd = t.fd := (fd_step_exit _ _).trans ((fd_foreign hg₂).1.trans hfd₂)
  have hsecond := undisturbed_iff hg₂ hfd₂ hbuf₂
  rw [hchar₂] at hsecond
  have hwait (h : ∀ x ∈ visits step entered g₂,
      (step x.1 x.2).buf = x.1.buf ∧ (step x.1 x.2).char = x.1.char) : waiting.buf = t.buf :=
    (obs_of_const step fun x hx => (h x hx).1).1.trans hbuf₂
  have hthird (hw : waiting.buf = t.buf) :
      (∀ x ∈ visits step exited g₃,
        (step x.1 x.2).buf = x.1.buf ∧ (step x.1 x.2).char = x.1.char) ↔
      ∀ ctx, .enter ctx ∈ g₃ → ctx.fd = t.fd.toUInt64 → ctx.buf = t.buf := by
    have hchar₃ : exited.char = firstByte t.buf := by rw [char_step_exit, hw]
    have hbuf₃ : exited.buf = t.buf := (buf_step_exit _ _).trans hw
    rw [undisturbed_iff hg₃ hfd₃ hbuf₃, and_iff_left fun _ => hchar₃]
  have hcut : (∀ ctx, .enter ctx ∈ g₂ ++ g₃ → ctx.fd = t.fd.toUInt64 → ctx.buf = t.buf) ↔
      (∀ ctx, .enter ctx ∈ g₂ → ctx.fd = t.fd.toUInt64 → ctx.buf = t.buf) ∧
      ∀ ctx, .enter ctx ∈ g₃ → ctx.fd = t.fd.toUInt64 → ctx.buf = t.buf := by
    simp only [List.mem_append, or_imp, forall_and]
  rw [hcut, List.forall_mem_append]
  constructor
  · rintro ⟨hw, h₂, h₃⟩
    obtain ⟨henter, hchar⟩ := hsecond.mp h₂
    exact ⟨⟨henter, (hthird hw).mp h₃⟩, hchar⟩
  · rintro ⟨⟨henter₂, henter₃⟩, hchar⟩
    have h₂ := hsecond.mpr ⟨henter₂, hchar⟩
    exact ⟨hwait h₂, h₂, (hthird (hwait h₂)).mpr henter₃⟩

def sampleTarget : Target := ⟨(7 : UInt64) <<< 32, 3, 4097, 1, fun _ => some 97⟩

def otherEnter (fd : UInt64) : Event UserUpdate := .enter ⟨(9 : UInt64) <<< 32, fd, 8192⟩

def otherExit : Event UserUpdate := .exit ⟨(9 : UInt64) <<< 32, 1, fun _ => some 98⟩

lemma otherEnter_foreign (fd : UInt64) : Foreign sampleTarget (otherEnter fd) :=
  ⟨tgid ((9 : UInt64) <<< 32), rfl, by decide⟩

lemma otherExit_foreign : Foreign sampleTarget otherExit :=
  ⟨tgid ((9 : UInt64) <<< 32), rfl, by decide⟩

/-- Another process reads from its descriptor 4 around the target's exit. -/
theorem readbuff_tracks_sample :
    let armed := run step Maps.boot ([] ++ .user ⟨sampleTarget.fd⟩ :: [])
    let entered := step armed (.enter sampleTarget.enter)
    let waiting := run step entered [otherEnter 4]
    let exited := step waiting (.exit sampleTarget.exit)
    waiting.buf = sampleTarget.buf ∧
      ∀ x ∈ visits step entered [otherEnter 4] ++ visits step exited [otherExit],
        (step x.1 x.2).buf = x.1.buf ∧ (step x.1 x.2).char = x.1.char := by
  refine (readbuff_tracks_iff sampleTarget Maps.boot ?_).mpr ⟨?_, ?_⟩
  · simp [otherEnter_foreign, otherExit_foreign]
  · intro ctx hctx hfd
    simp only [otherEnter, otherExit, List.cons_append, List.nil_append, List.mem_cons,
      Event.enter.injEq, reduceCtorEq, List.not_mem_nil, or_self, or_false] at hctx
    subst hctx
    exact absurd hfd (by decide)
  · rintro ⟨ctx, hctx⟩
    simp [otherEnter] at hctx

/-- Another process that reads from its own descriptor 3 between the target's entry and
exit puts its buffer in the place of the target's, and its exit changes the byte. -/
theorem same_descriptor_number_overwrites :
    let entered := step (step Maps.boot (.user ⟨3⟩)) (.enter sampleTarget.enter)
    let waiting := step entered (otherEnter 3)
    Foreign sampleTarget (otherEnter 3) ∧ Foreign sampleTarget otherExit ∧
      entered.buf = sampleTarget.buf ∧ waiting.buf = 8192 ∧ waiting.buf ≠ sampleTarget.buf ∧
      entered.char = 0 ∧ (step entered otherExit).char = 1 :=
  ⟨otherEnter_foreign 3, otherExit_foreign, by decide⟩

end FilterReduce.ReadbuffRuns
