import FilterReduce.LoaderMoves

/-!
# The third pass

All program sections are handed to `load_and_attach` in the order of the file, up
to the first that fails.
-/
namespace FilterReduce.BpfLoad

open CString ElfObject StateProgram

abbrev ProgSection := List UInt8 × List UInt8

/-- The names that `memcmp` finds to begin like a program section. -/
def isProgram (shname : List UInt8) : Bool := programStarts.any (startsWith shname)

def programs (elf : Elf) (processed : ℕ → Bool) (is : List ℕ) : List ProgSection :=
  is.filterMap fun i =>
    if processed i then none
    else (getSec elf i).bind fun x => if isProgram x.1 then some (x.1, x.2.data) else none

def attachAll (kernel : Kernel) : ℤ → List ProgSection → Load ℤ
  | ret, [] => return ret
  | _, p :: ps => do
    let ret ← loadAndAttach kernel p.1 p.2
    if ret ≠ 0 then return ret else attachAll kernel ret ps

def loadsOf (log : Log) : Log := log.filter fun e => e.1.isLoadProgram

@[simp] lemma loadsOf_append (log log' : Log) :
    loadsOf (log ++ log') = loadsOf log ++ loadsOf log' := List.filter_append ..

lemma loadsOf_eq_nil {log : Log} (h : ∀ e ∈ log, e.1.isLoadProgram = false) : loadsOf log = [] := by
  rw [loadsOf, List.filter_eq_nil_iff]
  intro e he
  simp [h e he]

section One

variable {kernel : Kernel}

def ProgFrame (s t : Loader) : Prop :=
  t = { s with log := t.log, eventFd := t.eventFd, progFd := t.progFd, progCnt := t.progCnt }

lemma ProgFrame.trans {s t u : Loader} (h : ProgFrame s t) (h' : ProgFrame t u) :
    ProgFrame s u := by
  unfold ProgFrame at *
  rw [h', h]

lemma loadAndAttach_frame {event prog : List UInt8} {s t : Loader} {r : ℤ}
    (h : loadAndAttach kernel event prog s = .ok (r, t)) : ProgFrame s t := by
  rcases loadAndAttach_cases h with ⟨-, rfl⟩ | ⟨k, -, ⟨-, -, rfl⟩ | ⟨-, -, hattach⟩⟩
  · rfl
  · rfl
  · have hatt := (attachRules_attached kernel).respects_attach _ _ hattach
    unfold ProgFrame
    rw [hatt.frame]
    rfl

/-- The request to load a program with its answer, and all that was said to attach it. -/
structure Submission where
  entry : Request × Answer
  talk : Log

def Submission.log (c : Submission) : Log := c.entry :: c.talk

structure ProgLoaded (s t : Loader) (p : ProgSection) (idx : ℕ) (c : Submission) : Prop where
  accepted : ¬ c.entry.2.ret < 0
  progFd : t.progFd idx = c.entry.2.ret
  kind : ∃ k : Kind, k.is p.1 = true ∧ c.entry.1 = loadRequest s k.progType p.2 ∧
    Installs s.progArrayFd (t.eventFd idx) c.entry.2.ret (k.hook p.1) c.talk
  talk : loadsOf c.talk = []

lemma loadAndAttach_zero {event prog : List UInt8} {s t : Loader}
    (h : loadAndAttach kernel event prog s = .ok (0, t)) :
    t.progCnt = s.progCnt + 1 ∧
      (∀ j < s.progCnt, t.progFd j = s.progFd j ∧ t.eventFd j = s.eventFd j) ∧
      ∃ c, t.log = s.log ++ c.log ∧ ProgLoaded s t (event, prog) s.progCnt c := by
  rcases loadAndAttach_cases h with ⟨h0, -⟩ | ⟨k, hk, ⟨-, h0, -⟩ | ⟨-, hpos, hattach⟩⟩
  · cases h0
  · cases h0
  · set q := loadRequest s k.progType prog with hq
    set u := (s.asked kernel q).recordProg (kernel s.log q).ret with hu
    have hatt := (attachRules_attached kernel).respects_attach _ _ hattach
    have hcnt : u.progCnt - 1 = s.progCnt := rfl
    have hfd : t.progFd = u.progFd := by rw [hatt.frame]
    have hlog : u.log = s.log ++ [(q, kernel s.log q)] := rfl
    obtain ⟨talk, htalk, hinst⟩ := attach_installs hk hattach
    obtain ⟨new, hnew, hquiet⟩ := hatt.log
    rw [htalk, List.append_cancel_left_eq] at hnew
    subst hnew
    rw [hcnt] at hinst
    refine ⟨hatt.progCnt, fun j hj => ⟨?_, ?_⟩, ⟨(q, kernel s.log q), talk⟩, ?_, hpos, ?_,
      ⟨k, hk, rfl, hinst⟩, loadsOf_eq_nil hquiet⟩
    · rw [hfd]
      exact Function.update_of_ne hj.ne _ _
    · rw [hatt.event j (by rw [hcnt]; exact hj.ne)]
      rfl
    · rw [htalk, hlog, List.append_assoc]
      rfl
    · rw [hfd]
      exact Function.update_self _ _ _

/-- Up to this length `snprintf` cuts nothing off. -/
lemma kprobeText_eq {start function : List UInt8} (h : 2 * (start.length + function.length) ≤ 252)
    (isKprobe : Bool) :
    kprobeText isKprobe start function = ascii (if isKprobe then "p:" else "r:") ++ start ++
      function ++ ascii " " ++ start ++ function := by
  refine List.take_of_length_le ?_
  have hhead : (ascii (if isKprobe then "p:" else "r:")).length = 2 := by cases isKprobe <;> rfl
  have hblank : (ascii " ").length = 1 := rfl
  simp only [List.length_append, hhead, hblank]
  omega

/-- A program of a section `kprobe/f` that is reported as attached runs on the function `f`. All
that the kernel was asked is, in this order: to accept the program, to create a probe on `f`,
under its own name or that of the system call, and to run the program on the event that has
the number of this probe. -/
theorem kprobe_runs_on_named_function (kernel : Kernel) (function prog : List UInt8)
    (s t : Loader) (h : loadAndAttach kernel (ascii "kprobe/" ++ function) prog s = .ok (0, t))
    (hname : ∀ b, function.head? = some b → isDigit b = false) (hlen : function.length ≤ 120) :
    ∃ (loaded : Answer) (start : List UInt8) (reg tie : Log),
      t.log = s.log ++ (loadRequest s .kprobe prog, loaded) :: (reg ++ tie) ∧
      Answered kernel s.log ((loadRequest s .kprobe prog, loaded) :: (reg ++ tie)) ∧
      ¬ loaded.ret < 0 ∧ t.progFd s.progCnt = loaded.ret ∧
      Registers (fun start => ascii "p:" ++ start ++ function ++ ascii " " ++ start ++ function)
        function start reg ∧
      Ties (debugfs ++ ascii "events/kprobes/" ++ start ++ function ++ ascii "/id")
        (t.eventFd s.progCnt) loaded.ret tie := by
  obtain ⟨-, -, ⟨⟨q, loaded⟩, talk⟩, hlog, hloaded⟩ := loadAndAttach_zero h
  obtain ⟨k, hk, rfl, hinst⟩ := hloaded.kind
  have htag : (ascii "kprobe/").length = 7 := rfl
  have hkprobe : Kind.is .kprobe (ascii "kprobe/" ++ function) = true := by
    rw [Kind.is, startsWith_iff]
    exact List.take_left' rfl
  obtain rfl := Kind.is_unique hk hkprobe
  simp only [Kind.hook, List.drop_left' htag] at hinst
  cases function with
  | nil => exact absurd hinst id
  | cons b rest =>
    rw [kprobeHook, if_neg (by rw [hname b rfl]; simp)] at hinst
    obtain ⟨start, reg, tie, rfl, hreg, htie⟩ := hinst
    have hsys : sysStart.length = 6 := by decide
    exact ⟨loaded, start, reg, tie, hlog, (moves_loadAndAttach _ _ h).answered hlog,
      hloaded.accepted, hloaded.progFd,
      hreg.congr (kprobeText_eq (by simp only [List.length_nil]; omega) true)
        (kprobeText_eq (by omega) true), htie⟩

theorem kprobe_runs_on_named_function_copyout : ∃ (t : Loader) (loaded : Answer) (reg tie : Log),
    loadAndAttach grantingKernel (ascii "kprobe/" ++ ascii "copyout_bpf") [] Loader.initial =
      .ok (0, t) ∧
    t.log = (loadRequest Loader.initial .kprobe [], loaded) :: (reg ++ tie) ∧
    (∃ a, Offers (ascii "p:copyout_bpf copyout_bpf") a reg) ∧
    Ties (ascii "/sys/kernel/debug/tracing/events/kprobes/copyout_bpf/id") (t.eventFd 0)
      loaded.ret tie := by
  have hrun : returns (fun r _ => r = 0) (loadAndAttach grantingKernel
      (ascii "kprobe/" ++ ascii "copyout_bpf") [] Loader.initial) = true := by decide +kernel
  obtain ⟨r, t, heq, hr⟩ := exists_of_returns hrun
  obtain rfl := of_decide_eq_true hr
  have hhead : (ascii "copyout_bpf").head? = some 99 := by decide
  have hplain : startsWith (ascii "copyout_bpf") (ascii "sys_") = false := by decide
  obtain ⟨loaded, start, reg, tie, hlog, -, -, -, hreg, htie⟩ :=
    kprobe_runs_on_named_function _ _ _ _ t heq
      (fun b hb => Option.some.inj (hhead.symm.trans hb) ▸ by decide) (by decide)
  cases hreg with
  | plain hname htalk hok => exact ⟨t, loaded, reg, tie, heq, hlog, ⟨_, htalk⟩, htie⟩
  | syscall hname htalk hok => exact absurd (hname.symm.trans hplain) (by simp)
  | fallback hname htalk hrefused htalk' hok => exact absurd (hname.symm.trans hplain) (by simp)

end One

section All

variable {kernel : Kernel}

structure ProgramsLoaded (s t : Loader) (ps : List ProgSection) (cs : List Submission) : Prop where
  frame : ProgFrame s t
  count : t.progCnt = s.progCnt + ps.length
  older : ∀ j < s.progCnt, t.progFd j = s.progFd j ∧ t.eventFd j = s.eventFd j
  length : cs.length = ps.length
  log : t.log = s.log ++ cs.flatMap Submission.log
  each : ∀ k p c, ps[k]? = some p → cs[k]? = some c → ProgLoaded s t p (s.progCnt + k) c

lemma ProgLoaded.later {s t u : Loader} {p : ProgSection} {idx : ℕ} {c : Submission}
    (h : ProgLoaded s t p idx c) (hfd : u.progFd idx = t.progFd idx)
    (hevent : u.eventFd idx = t.eventFd idx) : ProgLoaded s u p idx c :=
  ⟨h.accepted, hfd.trans h.progFd, hevent ▸ h.kind, h.talk⟩

lemma loadRequest_frame {s t : Loader} (h : ProgFrame s t) (type : ProgType) (prog : List UInt8) :
    loadRequest t type prog = loadRequest s type prog := by
  rw [h]
  rfl

lemma ProgLoaded.earlier {s t u : Loader} {p : ProgSection} {idx : ℕ} {c : Submission}
    (h : ProgLoaded t u p idx c) (hframe : ProgFrame s t) : ProgLoaded s u p idx c := by
  obtain ⟨k, hk, hreq, hinst⟩ := h.kind
  have harray : t.progArrayFd = s.progArrayFd := by rw [hframe]
  exact ⟨h.accepted, h.progFd, ⟨k, hk, hreq.trans (loadRequest_frame hframe _ _), harray ▸ hinst⟩,
    h.talk⟩

lemma ProgramsLoaded.submitted {s t : Loader} {ps : List ProgSection} {cs : List Submission}
    (h : ProgramsLoaded s t ps cs) :
    loadsOf t.log = loadsOf s.log ++ cs.map Submission.entry := by
  have hone : ∀ c ∈ cs, loadsOf c.log = [c.entry] := by
    intro c hc
    obtain ⟨k, hk⟩ := List.getElem?_of_mem hc
    have hlt : k < ps.length := h.length ▸ (List.getElem?_eq_some_iff.mp hk).1
    have hloaded := h.each k _ c (List.getElem?_eq_getElem hlt) hk
    obtain ⟨kind, -, hreq, -⟩ := hloaded.kind
    have htalk := hloaded.talk
    rw [loadsOf] at htalk
    rw [loadsOf, Submission.log, List.filter_cons_of_pos (by rw [hreq]; rfl), htalk]
  rw [h.log, loadsOf_append, List.append_cancel_left_eq]
  have hflat : loadsOf (cs.flatMap Submission.log) = cs.flatMap fun c => loadsOf c.log := by
    simp [loadsOf, List.filter_flatMap]
  rw [hflat, List.map_eq_flatMap]
  exact List.flatMap_congr hone

/-- When the pass ends with zero, every section was loaded, in order. -/
theorem attachAll_zero {ps : List ProgSection} {ret : ℤ} {s t : Loader}
    (h : attachAll kernel ret ps s = .ok (0, t)) :
    (ps = [] → ret = 0) ∧ ∃ cs, ProgramsLoaded s t ps cs := by
  induction ps generalizing ret s with
  | nil =>
    obtain ⟨rfl, rfl⟩ := Prod.mk.inj (Except.ok.inj h)
    refine ⟨fun _ => rfl, [], rfl, rfl, fun _ _ => ⟨rfl, rfl⟩, rfl, by simp, ?_⟩
    intro k p e hp
    simp at hp
  | cons p ps ih =>
    rw [attachAll] at h
    obtain ⟨r, u, hhead, h⟩ := bind_eq_ok_iff.mp h
    by_cases hr : r = 0
    · subst hr
      rw [if_neg (not_not.mpr rfl)] at h
      obtain ⟨hcnt, holder, c, hlog, hone⟩ := loadAndAttach_zero hhead
      obtain ⟨-, cs, hrest⟩ := ih h
      have hframe := loadAndAttach_frame hhead
      refine ⟨by simp, c :: cs, hframe.trans hrest.frame, ?_, ?_, ?_, ?_, ?_⟩
      · rw [hrest.count, hcnt, List.length_cons]
        omega
      · intro j hj
        obtain ⟨hfd, hev⟩ := hrest.older j (by omega)
        obtain ⟨hfd', hev'⟩ := holder j hj
        exact ⟨hfd.trans hfd', hev.trans hev'⟩
      · rw [List.length_cons, List.length_cons, hrest.length]
      · rw [hrest.log, hlog, List.flatMap_cons, List.append_assoc]
      · intro k p' c' hp hc
        cases k with
        | zero =>
          obtain rfl := Option.some.inj hp
          obtain rfl := Option.some.inj hc
          obtain ⟨hfd, hev⟩ := hrest.older s.progCnt (by omega)
          exact hone.later hfd hev
        | succ k =>
          have := hrest.each k p' c' hp hc
          rw [hcnt, Nat.add_assoc, Nat.add_comm 1 k] at this
          exact this.earlier hframe
    · rw [if_pos hr] at h
      exact absurd (Prod.mk.inj (Except.ok.inj h)).1 hr

end All

section Names

/-- No pattern has a zero byte, so that the end of the name does not matter. -/
lemma startsWith_takeWhile {bytes start : List UInt8} (h : ∀ b ∈ start, b ≠ 0) :
    startsWith (bytes.takeWhile (· ≠ 0)) start = startsWith bytes start := by
  rw [Bool.eq_iff_iff, startsWith_iff, startsWith_iff, eq_comm, ← List.prefix_iff_eq_take,
    eq_comm, ← List.prefix_iff_eq_take]
  constructor
  · exact fun hstart => hstart.trans (List.takeWhile_prefix _)
  · rintro ⟨rest, rfl⟩
    rw [List.takeWhile_append_of_pos (by simpa using h)]
    exact List.prefix_append _ _

lemma getSec_name {elf : Elf} {i : ℕ} {shname : List UInt8} {sec : Section}
    (h : getSec elf i = some (shname, sec)) :
    shname = (strBytes elf elf.shstrndx sec.name).takeWhile (· ≠ 0) := by
  rw [getSec] at h
  split at h
  · cases h
  · split at h
    · cases h
    · rename_i name hname
      split at h
      · cases h
      · obtain ⟨rfl, rfl⟩ := Prod.mk.inj (Option.some.inj h)
        rw [elfStrptr] at hname
        split at hname
        · cases hname
        · rename_i tab htab
          split at hname
          · rw [strBytes, htab]
            exact (Option.some.inj hname).symm
          · cases hname

lemma isProgram_eq {elf : Elf} {i : ℕ} {shname : List UInt8} {sec : Section}
    (h : getSec elf i = some (shname, sec)) :
    isProgram shname = programStarts.any (startsWith (strBytes elf elf.shstrndx sec.name)) := by
  have hstarts : ∀ start ∈ programStarts, ∀ b ∈ start, b ≠ 0 := by
    decide +kernel
  rw [isProgram, getSec_name h, Bool.eq_iff_iff, List.any_eq_true, List.any_eq_true]
  refine exists_congr fun start => and_congr_right fun hmem => ?_
  rw [startsWith_takeWhile (hstarts start hmem)]

lemma memcmpAny_cases (s : List UInt8) (starts : List (List UInt8)) :
    memcmpAny s starts = .ok (starts.any (startsWith s)) ∨
      memcmpAny s starts = .error .outOfBounds := by
  induction starts with
  | nil => exact Or.inl rfl
  | cons start starts ih =>
    rw [memcmpAny, memcmpEq]
    by_cases hshort : s.length < start.length
    · rw [if_pos hshort]
      exact Or.inr rfl
    · rw [if_neg hshort, List.any_cons]
      cases startsWith s start with
      | true => exact Or.inl rfl
      | false => exact ih

end Names

section Pass

variable {kernel : Kernel}

/-- A section that the pass comes to and whose name is too close to the end of its table. -/
def NameUnreadable (elf : Elf) (processed : ℕ → Bool) (i : ℕ) : Prop :=
  processed i = false ∧ ∃ x, getSec elf i = some x ∧
    memcmpAny (strBytes elf elf.shstrndx x.2.name) programStarts = .error .outOfBounds

/-- The pass is `attachAll` on the sections it takes up, unless a name ends too early. -/
theorem loadPrograms_cases (kernel : Kernel) (elf : Elf) (ret : ℤ) {is : List ℕ}
    (his : ∀ i ∈ is, i < 128) (s : Loader) :
    loadPrograms kernel elf ret is s = attachAll kernel ret (programs elf s.processedSec is) s ∨
      loadPrograms kernel elf ret is s = .error .outOfBounds ∧
        ∃ i ∈ is, NameUnreadable elf s.processedSec i := by
  induction is generalizing ret s with
  | nil => exact Or.inl rfl
  | cons i is ih =>
    have hi := his i (by simp)
    have hlater : ∀ (P : Prop) (processed : ℕ → Bool),
        (P ∧ ∃ j ∈ is, NameUnreadable elf processed j) →
          P ∧ ∃ j ∈ i :: is, NameUnreadable elf processed j := by
      rintro P processed ⟨hP, j, hj, hun⟩
      exact ⟨hP, j, by simp [hj], hun⟩
    have hrest := fun (ret : ℤ) (s : Loader) => ih ret (fun j hj => his j (by simp [hj])) s
    have hskip : programs elf s.processedSec (i :: is) = programs elf s.processedSec is →
        loadPrograms kernel elf ret is s =
            attachAll kernel ret (programs elf s.processedSec (i :: is)) s ∨
          loadPrograms kernel elf ret is s = .error .outOfBounds ∧
            ∃ j ∈ i :: is, NameUnreadable elf s.processedSec j := by
      intro hps
      rw [hps]
      exact (hrest ret s).imp id (hlater _ _)
    have hproc : isProcessed i s = .ok (s.processedSec i, s) := by simp [isProcessed, hi]
    rw [loadPrograms, bind_of_ok hproc]
    by_cases hdone : s.processedSec i = true
    · rw [if_pos hdone]
      exact hskip (by simp [programs, hdone])
    rw [if_neg hdone]
    cases hsec : getSec elf i with
    | none => exact hskip (by simp [programs, hdone, hsec])
    | some x =>
      obtain ⟨shname, sec⟩ := x
      dsimp only
      rcases memcmpAny_cases (strBytes elf elf.shstrndx sec.name) programStarts with hok | herr
      · rw [hok, ← isProgram_eq hsec, bind_of_ok (pureOr_ok _ s)]
        cases hprog : isProgram shname with
        | false =>
          rw [if_neg (by simp)]
          exact hskip (by simp [programs, hdone, hsec, hprog])
        | true =>
          have hps : programs elf s.processedSec (i :: is) =
              (shname, sec.data) :: programs elf s.processedSec is := by
            simp [programs, hdone, hsec, hprog]
          rw [if_pos rfl, hps, attachAll]
          cases hrun : loadAndAttach kernel shname sec.data s with
          | error e => exact Or.inl (by rw [bind_of_error hrun, bind_of_error hrun])
          | ok x =>
            obtain ⟨r, u⟩ := x
            have hsame : u.processedSec = s.processedSec := by rw [loadAndAttach_frame hrun]
            rw [bind_of_ok hrun, bind_of_ok hrun, ← hsame]
            split
            · exact Or.inl rfl
            · exact (hrest r u).imp id (hlater _ _)
      · refine Or.inr ⟨?_, i, by simp, by simpa using hdone, _, hsec, herr⟩
        rw [herr, bind_of_error (pureOr_error _ s)]

end Pass

end FilterReduce.BpfLoad
