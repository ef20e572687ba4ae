import FilterReduce.LoadFile

/-!
# Objects that load

The loader copies names into fixed buffers and follows offsets found in the file.
The conditions under which it stays inside its memory whatever the kernel answers
are collected here, and those under which it then succeeds.
-/
namespace FilterReduce.BpfLoad

open CString ByteLayout ElfObject StateProgram RunTrace

section Attach

variable {kernel : Kernel}

/-- A kernel that refuses nothing; the number of an event is a short text. -/
structure Willing (kernel : Kernel) : Prop where
  grants : ∀ log q, ¬ (kernel log q).ret < 0
  short : ∀ log fd count, (kernel log (.read fd count)).ret.toInt < 256

/-- A program was added last, and `prog_cnt - 1` is its index in the tables. -/
def HasProg (s : Loader) : Prop := 0 < s.progCnt ∧ s.progCnt ≤ maxProgs

lemma ends_ask {α : Type} {q : Request} {f : Answer → Load α} {Q : α → Prop}
    (h : ∀ log, Ends HasProg (f (kernel log q)) Q) : Ends HasProg (ask kernel q >>= f) Q :=
  fun s hs => h s.log _ hs

lemma ends_setEventFd {α : Type} {efd : Int32} {f : PUnit → Load α} {Q : α → Prop}
    (h : Ends HasProg (f ⟨⟩) Q) : Ends HasProg (setEventFd efd >>= f) Q := by
  rintro s ⟨hpos, hroom⟩
  rw [setEventFd_bind, if_pos ⟨hpos, hroom⟩]
  exact h _ ⟨hpos, hroom⟩

lemma ends_granted {log : Log} {q : Request} {m : Load ℤ} {ok : Prop}
    (h : Ends HasProg m fun r => Willing kernel → ok → r = 0) :
    Ends HasProg (if (kernel log q).ret < 0 then pure (-1) else m)
      fun r => Willing kernel → ok → r = 0 := by
  split
  · rename_i hneg
    exact ends_pure fun hw => absurd hneg (hw.grants _ _)
  · exact h

def kprobeFits : List UInt8 → Prop
  | [] => True
  | b :: event => isDigit b = true ∨
      (b :: event).length + (if startsWith (b :: event) (ascii "sys_") then 6 else 0) ≤ 211

def Kind.fits (event : List UInt8) : Kind → Prop
  | .kprobe => kprobeFits (event.drop 7)
  | .kretprobe => kprobeFits (event.drop 10)
  | .tracepoint => (event.drop 11).length ≤ 219
  | .skSkb | .skMsg => 7 ≤ event.length
  | _ => True

lemma ends_populateProgArray (event : List UInt8) (fd : Int32) :
    Ends HasProg (populateProgArray kernel event fd) fun r => Willing kernel → True → r = 0 :=
  Ends.get_bind fun _ _ => ends_ask fun _ => ends_granted (ends_pure fun _ _ => rfl)

lemma ends_writeKprobeEvents (val : List UInt8) :
    Ends HasProg (writeKprobeEvents kernel val) fun r => Willing kernel → ¬ r < 0 :=
  ends_ask fun _ => ends_ask fun log => ends_ask fun _ => ends_pure fun hw => hw.grants log _

lemma ends_registerKprobe (isKprobe : Bool) (event : List UInt8) :
    Ends HasProg (registerKprobe kernel isKprobe event) fun o =>
      (Willing kernel → o = some (if startsWith event (ascii "sys_") then sysStart else [])) ∧
      ∀ start, o = some start →
        start = [] ∨ start = sysStart ∧ startsWith event (ascii "sys_") = true := by
  have hfirst : Ends HasProg (registerSyscall kernel isKprobe event) fun err =>
      (startsWith event (ascii "sys_") = true → Willing kernel → ¬ err < 0) ∧
      (startsWith event (ascii "sys_") = false → err < 0) := by
    rw [registerSyscall]
    split
    · rename_i hsys
      exact (ends_writeKprobeEvents _).mono fun r hr => ⟨fun _ => hr, by simp [hsys]⟩
    · rename_i hsys
      exact ends_pure ⟨fun h => absurd h hsys, fun _ => by decide⟩
  refine hfirst.bind fun err herr => ?_
  obtain ⟨hsys, hother⟩ := herr
  split
  · rename_i hneg
    have hnot : Willing kernel → startsWith event (ascii "sys_") = false := by
      intro hw
      rw [← Bool.not_eq_true]
      exact fun h => hsys h hw hneg
    refine (ends_writeKprobeEvents _).bind fun err' herr => ?_
    split
    · rename_i hneg'
      exact ends_pure ⟨fun hw => absurd hneg' (herr hw), by simp⟩
    · exact ends_pure ⟨fun hw => by rw [hnot hw]; rfl, by simp⟩
  · rename_i hpos
    have hstarts : startsWith event (ascii "sys_") = true := by
      rw [← Bool.not_eq_false]
      exact fun h => hpos (hother h)
    exact ends_pure ⟨fun _ => by rw [if_pos hstarts], by simp [hstarts]⟩

lemma ends_perfAttach {buf : List UInt8} (h : buf.length < 256) (fd : Int32) :
    Ends HasProg (perfAttach kernel buf fd) fun r => Willing kernel → True → r = 0 := by
  rw [perfAttach, if_neg (by omega)]
  refine ends_ask fun log => ends_granted (ends_ask fun log' => ?_)
  split
  · rename_i hbad
    refine ends_pure fun hw => ?_
    have hshort := hw.short log' (kernel log (.openFile buf .rdonly)).ret 256
    have hpos := hw.grants log' (.read (kernel log (.openFile buf .rdonly)).ret 256)
    rcases hbad with hneg | hlong
    · exact absurd hneg hpos
    · omega
  refine ends_ask fun _ => ends_ask fun _ => ends_granted ?_
  exact ends_setEventFd (ends_ask fun _ => ends_granted
    (ends_ask fun _ => ends_granted (ends_pure fun _ _ => rfl)))

lemma ends_attachNumbered (event : List UInt8) (fd : Int32) :
    Ends HasProg (attachNumbered kernel event fd) fun r =>
      Willing kernel → numberedHook event ≠ .refused → r = 0 := by
  by_cases hslash : ∃ number, event = 47 :: number
  · obtain ⟨number, rfl⟩ := hslash
    cases number with
    | nil => exact ends_pure fun _ h => absurd rfl h
    | cons b rest =>
      by_cases hdigit : isDigit b = true
      · simp only [attachNumbered, hdigit, ↓reduceIte]
        exact (ends_populateProgArray _ _).mono fun r hr hw _ => hr hw trivial
      · simp only [attachNumbered, numberedHook, hdigit, Bool.false_eq_true, ↓reduceIte]
        exact ends_pure fun _ h => absurd rfl h
  · rw [attachNumbered.eq_def]
    split
    · exact absurd ⟨_, rfl⟩ hslash
    · exact ends_pure fun _ _ => rfl

lemma ends_attachKprobe (isKprobe : Bool) {event : List UInt8} (h : kprobeFits event)
    (fd : Int32) :
    Ends HasProg (attachKprobe kernel isKprobe event fd) fun r =>
      Willing kernel → kprobeHook isKprobe event ≠ .refused → r = 0 := by
  cases event with
  | nil => exact ends_pure fun _ h => absurd rfl h
  | cons b event =>
    rw [attachKprobe]
    split
    · exact (ends_populateProgArray _ _).mono fun r hr hw _ => hr hw trivial
    · rename_i hdigit
      have hlen := h.resolve_left hdigit
      refine (ends_registerKprobe _ _).bind fun o ho => ?_
      obtain ⟨hsome, hstart⟩ := ho
      cases o with
      | none => exact ends_pure fun hw => absurd (hsome hw) (by simp)
      | some start =>
        refine (ends_perfAttach ?_ fd).mono fun r hr hw _ => hr hw trivial
        have hdir : (debugfs ++ ascii "events/kprobes/").length = 41 := by decide
        have hid : (ascii "/id").length = 3 := by decide
        have hpre : start.length ≤ if startsWith (b :: event) (ascii "sys_") then 6 else 0 := by
          rcases hstart start rfl with rfl | ⟨rfl, hsys⟩
          · simp
          · rw [if_pos hsys]
            decide
        rw [List.length_append, List.length_append, List.length_append, hdir, hid]
        omega

lemma ends_attachTracepoint {event : List UInt8} (h : event.length ≤ 219) (fd : Int32) :
    Ends HasProg (attachTracepoint kernel event fd) fun r =>
      Willing kernel → tracepointHook event ≠ .refused → r = 0 := by
  cases event with
  | nil => exact ends_pure fun _ h => absurd rfl h
  | cons b event =>
    refine (ends_perfAttach ?_ fd).mono fun r hr hw _ => hr hw trivial
    have hdir : (debugfs ++ ascii "events/").length = 33 := by decide
    have hid : (ascii "/id").length = 3 := by decide
    rw [List.length_append, List.length_append, hdir, hid]
    omega

lemma ends_attachRawTracepoint (event : List UInt8) (fd : Int32) :
    Ends HasProg (attachRawTracepoint kernel event fd) fun r => Willing kernel → True → r = 0 :=
  ends_ask fun _ => ends_granted (ends_setEventFd (ends_pure fun _ _ => rfl))

theorem ends_attach {k : Kind} {event : List UInt8} (hk : k.is event = true)
    (hfits : k.fits event) (fd : Int32) :
    Ends HasProg (attach kernel event fd) fun r =>
      Willing kernel → k.hook event ≠ .refused → r = 0 := by
  rw [attach_eq hk]
  cases k with
  | xdp | perfEvent | cgroupSkb | cgroupSk => exact ends_pure fun _ _ => rfl
  | socket | sockops => exact ends_attachNumbered _ fd
  | skSkb | skMsg =>
    rw [Kind.attach, if_neg (not_lt.mpr hfits)]
    exact ends_attachNumbered _ fd
  | rawTracepoint => exact (ends_attachRawTracepoint _ fd).mono fun r hr hw _ => hr hw trivial
  | kprobe => exact ends_attachKprobe true hfits fd
  | kretprobe => exact ends_attachKprobe false hfits fd
  | tracepoint => exact ends_attachTracepoint hfits fd

lemma loadAndAttach_granted {k : Kind} {event prog : List UInt8} {s : Loader}
    (hk : k.is event = true) (hroom : s.progCnt < maxProgs)
    (hpos : ¬ (kernel s.log (loadRequest s k.progType prog)).ret < 0) :
    loadAndAttach kernel event prog s =
      attach kernel event (kernel s.log (loadRequest s k.progType prog)).ret
        ((s.asked kernel (loadRequest s k.progType prog)).recordProg
          (kernel s.log (loadRequest s k.progType prog)).ret) := by
  simp only [loadAndAttach, progType_of_is hk, get_bind, if_neg hroom.ne, ask_bind, if_neg hpos,
    addProgFd_bind]
  exact if_pos hroom

lemma loadAndAttach_ends {event : List UInt8}
    (hfits : ∀ k : Kind, k.is event = true → k.fits event) (prog : List UInt8) {s : Loader}
    (hs : s.progCnt ≤ maxProgs) :
    ∃ r t, loadAndAttach kernel event prog s = .ok (r, t) ∧
      (Willing kernel → (∃ k : Kind, k.is event = true ∧ k.hook event ≠ .refused) →
        s.progCnt ≠ maxProgs → r = 0) := by
  by_cases hk : ∃ k : Kind, k.is event = true
  · obtain ⟨k, hk⟩ := hk
    by_cases hfull : s.progCnt = maxProgs
    · simp only [loadAndAttach, progType_of_is hk, get_bind, if_pos hfull]
      exact ⟨_, _, rfl, fun _ _ h => absurd hfull h⟩
    · by_cases hneg : (kernel s.log (loadRequest s k.progType prog)).ret < 0
      · simp only [loadAndAttach, progType_of_is hk, get_bind, if_neg hfull, ask_bind, if_pos hneg]
        exact ⟨_, _, rfl, fun hw => absurd hneg (hw.grants _ _)⟩
      · have hroom : s.progCnt < maxProgs := lt_of_le_of_ne hs hfull
        rw [loadAndAttach_granted hk hroom hneg]
        obtain ⟨r, t, hrun, -, hr⟩ := ends_attach hk (hfits k hk)
          (kernel s.log (loadRequest s k.progType prog)).ret
          ((s.asked kernel (loadRequest s k.progType prog)).recordProg
            (kernel s.log (loadRequest s k.progType prog)).ret) ⟨Nat.succ_pos _, hroom⟩
        refine ⟨r, t, hrun, fun hw hhook _ => hr hw ?_⟩
        obtain ⟨k', hk', hhook⟩ := hhook
        rwa [Kind.is_unique hk hk']
  · have hnone : progType event = none := by
      rw [progType_eq_none_iff]
      intro k
      rw [← Bool.not_eq_true]
      exact fun h => hk ⟨k, h⟩
    simp only [loadAndAttach, hnone]
    exact ⟨_, _, rfl, fun _ h => absurd (h.imp fun _ h => h.1) hk⟩

/-- With more programs counted than there is room for, the next one is stored outside. -/
lemma loadAndAttach_overfull {event prog : List UInt8} {s : Loader} (hs : maxProgs < s.progCnt) :
    (∃ r t, loadAndAttach kernel event prog s = .ok (r, t)) ∨
      loadAndAttach kernel event prog s = .error .progTable := by
  simp only [loadAndAttach]
  cases progType event with
  | none => exact Or.inl ⟨_, _, rfl⟩
  | some type =>
    simp only [get_bind, if_neg hs.ne', ask_bind]
    split
    · exact Or.inl ⟨_, _, rfl⟩
    · rw [addProgFd_bind]
      exact Or.inr (if_neg (not_lt.mpr hs.le))

lemma attachKprobe_overflows (hw : Willing kernel) (isKprobe : Bool) {event : List UInt8}
    (h : ¬ kprobeFits event) (fd : Int32) {s : Loader} (hs : HasProg s) :
    attachKprobe kernel isKprobe event fd s = .error .outOfBounds := by
  cases event with
  | nil => exact absurd trivial h
  | cons b event =>
    obtain ⟨hdigit, hlong⟩ := not_or.mp h
    obtain ⟨o, t, hrun, -, hsome, -⟩ := ends_registerKprobe isKprobe (b :: event) s hs
    rw [hsome hw] at hrun
    have hdir : (debugfs ++ ascii "events/kprobes/").length = 41 := by decide
    have hid : (ascii "/id").length = 3 := by decide
    have hpre : (if startsWith (b :: event) (ascii "sys_") then sysStart else []).length =
        if startsWith (b :: event) (ascii "sys_") then 6 else 0 := by split <;> rfl
    rw [attachKprobe, if_neg hdigit, bind_of_ok hrun]
    simp only [perfAttach]
    rw [if_pos]
    · rfl
    · rw [List.length_append, List.length_append, List.length_append, hdir, hid, hpre]
      omega

lemma attach_overflows (hw : Willing kernel) {k : Kind} {event : List UInt8}
    (hk : k.is event = true) (h : ¬ k.fits event) (fd : Int32) {s : Loader} (hs : HasProg s) :
    attach kernel event fd s = .error .outOfBounds := by
  rw [attach_eq hk]
  cases k with
  | socket | sockops | rawTracepoint | xdp | perfEvent | cgroupSkb | cgroupSk =>
    exact absurd trivial h
  | skSkb | skMsg =>
    rw [Kind.attach, if_pos (not_le.mp h)]
    rfl
  | kprobe => exact attachKprobe_overflows hw true h fd hs
  | kretprobe => exact attachKprobe_overflows hw false h fd hs
  | tracepoint =>
    have hlong : 219 < (event.drop 11).length := not_le.mp h
    have hdir : (debugfs ++ ascii "events/").length = 33 := by decide
    have hid : (ascii "/id").length = 3 := by decide
    rw [Kind.attach]
    cases hevent : event.drop 11 with
    | nil => simp [hevent] at hlong
    | cons b rest =>
      rw [hevent] at hlong
      simp only [attachTracepoint, perfAttach]
      rw [if_pos]
      · rfl
      · rw [List.length_append, List.length_append, hdir, hid]
        omega

def zeroKernel : Kernel := fun _ _ => ⟨0, []⟩

lemma willing_zeroKernel : Willing zeroKernel := ⟨fun _ _ => by simp [zeroKernel], by
  intro log fd count
  simp [zeroKernel]⟩

/-- `load_and_attach` stays inside its buffer and the name for every kernel, program and state
exactly when the name of the section fits: a probed function has at most 211 characters, 205
for a system call, a tracepoint 219, and `sk_skb` and `sk_msg` are followed by something. What
can go wrong otherwise is a table index in a state that counts too many programs. -/
theorem loadAndAttach_safe_iff (event : List UInt8) :
    (∀ kernel prog s, (∃ r t, loadAndAttach kernel event prog s = .ok (r, t)) ∨
      maxProgs < s.progCnt ∧ loadAndAttach kernel event prog s = .error .progTable) ↔
      ∀ k : Kind, k.is event = true → k.fits event := by
  constructor
  · intro hsafe k hk
    by_contra hno
    have hrun : loadAndAttach zeroKernel event [] Loader.initial = .error .outOfBounds := by
      rw [loadAndAttach_granted hk (by decide) (willing_zeroKernel.grants _ _)]
      exact attach_overflows willing_zeroKernel hk hno _
        ⟨Nat.one_pos, (by decide : 1 ≤ maxProgs)⟩
    rcases hsafe zeroKernel [] Loader.initial with ⟨r, t, hok⟩ | ⟨-, herr⟩
    · rw [hrun] at hok
      cases hok
    · rw [hrun] at herr
      cases herr
  · intro hfits kernel prog s
    rcases Nat.lt_or_ge maxProgs s.progCnt with hfull | hroom
    · exact Or.imp id (fun herr => ⟨hfull, herr⟩) (loadAndAttach_overfull hfull)
    · obtain ⟨r, t, hrun, -⟩ := loadAndAttach_ends hfits prog hroom
      exact Or.inl ⟨r, t, hrun⟩

end Attach

section Passes

variable {kernel : Kernel}

def VersionOk (elf : Elf) (is : List ℕ) : Prop :=
  ∀ i ∈ is, ∀ x, getSec elf i = some x → x.1 = ascii "version" → x.2.data.length = 4

lemma ends_setProcessed {i : ℕ} (hi : i < 128) :
    Ends (fun _ => True) (setProcessed i) fun _ => True := by
  rw [setProcessed, if_pos hi]
  exact fun s _ => ⟨_, _, rfl, trivial, trivial⟩

lemma ends_scanSection {elf : Elf} {i : ℕ} (hi : i < 128)
    (hlic : ∀ x, getSec elf i = some x → x.1 = ascii "license" → x.2.data.length ≤ 128)
    (scan : Scan) :
    Ends (fun _ => True) (scanSection elf scan i) fun o => (o.isSome ↔ VersionOk elf [i]) := by
  have hne : ascii "license" ≠ ascii "version" := by decide
  have hmaps : ascii "maps" ≠ ascii "version" := by decide
  have hok : VersionOk elf [i] ↔
      ∀ x, getSec elf i = some x → x.1 = ascii "version" → x.2.data.length = 4 := by
    simp [VersionOk]
  rw [hok, scanSection]
  cases hsec : getSec elf i with
  | none => exact ends_pure (by simp)
  | some x =>
    obtain ⟨shname, sec⟩ := x
    dsimp only
    by_cases hl : shname = ascii "license"
    · rw [if_pos hl]
      refine (ends_setProcessed hi).bind fun _ _ => ?_
      rw [if_neg (not_lt.mpr (hlic _ hsec hl))]
      exact Ends.modify_bind (fun _ _ => trivial) (ends_pure (by simp [hl, hne]))
    rw [if_neg hl]
    by_cases hv : shname = ascii "version"
    · rw [if_pos hv]
      refine (ends_setProcessed hi).bind fun _ _ => ?_
      split
      · rename_i hsize
        exact ends_pure (by simpa [hv] using hsize)
      · rename_i hsize
        exact Ends.modify_bind (fun _ _ => trivial) (ends_pure (by simpa [hv] using hsize))
    rw [if_neg hv]
    by_cases hm : shname = ascii "maps"
    · rw [if_pos hm]
      exact Ends.modify_bind (fun _ _ => trivial) (ends_pure (by simp [hv]))
    rw [if_neg hm]
    split <;> exact ends_pure (by simp [hv])

lemma ends_scanSections {elf : Elf} {is : List ℕ} (his : ∀ i ∈ is, i < 128)
    (hlic : ∀ i x, getSec elf i = some x → x.1 = ascii "license" → x.2.data.length ≤ 128)
    (scan : Scan) :
    Ends (fun _ => True) (scanSections elf scan is) fun o => (o.isSome ↔ VersionOk elf is) := by
  induction is generalizing scan with
  | nil => exact ends_pure (by simp [VersionOk])
  | cons i is ih =>
    refine (ends_scanSection (his i (by simp)) (hlic i) scan).bind fun next hnext => ?_
    have hcons : VersionOk elf (i :: is) ↔ VersionOk elf [i] ∧ VersionOk elf is := by
      simp [VersionOk]
    cases next with
    | none =>
      refine ends_pure ?_
      rw [hcons, ← hnext]
      simp
    | some scan' =>
      refine (ih (fun k hk => his k (by simp [hk])) scan').mono fun o ho => ?_
      rw [hcons, ← hnext, ho]
      simp

/-- A table of relocations that is counted rightly and points into the program and into the
symbol table. -/
structure RelsInside (symbols : List Sym) (size : ℕ) (sec : Section) : Prop where
  table : RelTable sec
  inside : ∀ rel ∈ relsIn sec, 8 * insnIdx rel + 8 ≤ size ∧ rel.sym < symbols.length

lemma applyRels_total {symbols : List Sym} {maps : ℕ → MapData} {nrMaps : ℕ} {rels : List Rel}
    {data : List UInt8}
    (h : ∀ rel ∈ rels, 8 * insnIdx rel + 8 ≤ data.length ∧ rel.sym < symbols.length) :
    ∃ x, applyRels symbols maps nrMaps data (rels.map some) = .ok x := by
  induction rels generalizing data with
  | nil => exact ⟨_, rfl⟩
  | cons rel rels ih =>
    obtain ⟨hfull, hsym⟩ := h rel (by simp)
    obtain ⟨⟨go, mid⟩, happly⟩ : ∃ x, applyRel symbols maps nrMaps data rel = .ok x := by
      rw [applyRel, List.getElem?_eq_getElem (show 8 * insnIdx rel < data.length by omega),
        List.getElem?_eq_getElem hsym]
      dsimp only
      rw [if_neg (show ¬ data.length < 8 * insnIdx rel + 8 by omega)]
      split
      · exact ⟨_, rfl⟩
      · split <;> exact ⟨_, rfl⟩
    have hlen := (applyRel_preserved happly).length
    rw [List.map_cons, applyRels, happly]
    cases go with
    | false => exact ⟨_, rfl⟩
    | true => exact ih fun r hr => hlen ▸ h r (by simp [hr])

lemma parseReloAndApply_total {symbols : List Sym} {maps : ℕ → MapData} {nrMaps : ℕ}
    {sec : Section} {data : List UInt8} (h : RelsInside symbols data.length sec) :
    ∃ x, parseReloAndApply symbols maps nrMaps sec data = .ok x := by
  obtain ⟨⟨r, data'⟩, hrun⟩ := @applyRels_total symbols maps nrMaps _ _ h.inside
  exact ⟨(r, data'), parseReloAndApply_eq_ok_iff.mpr ⟨h.table.entsize, hrun, fun _ => h.table⟩⟩

lemma relocates_le {elf : Elf} {p : ℕ → Bool} {i : ℕ} {x : ℕ × Section}
    (h : relocates elf p i = some x) : relocates elf (fun _ => false) i = some x := by
  rw [relocates] at h ⊢
  split at h
  · cases h
  · simpa using h

lemma Patched.length_dataOf {elf elf' : Elf} (h : Patched elf elf') (j : ℕ) :
    (dataOf elf' j).length = (dataOf elf j).length := by
  cases hs : elf.sections[j]? with
  | none =>
    have hnone : elf'.sections[j]? = none := by
      rw [List.getElem?_eq_none_iff] at hs ⊢
      rw [h.length]
      exact hs
    simp [dataOf, hs, hnone]
  | some sec => rw [(h.sec j sec hs).2.1, dataOf_of_some hs]

lemma relocateSections_total {symbols : List Sym} {nrMaps : ℕ} {is : List ℕ}
    (his : ∀ i ∈ is, i < 128) {elf : Elf}
    (hrels : ∀ i j sec, relocates elf (fun _ => false) i = some (j, sec) →
      RelsInside symbols (dataOf elf j).length sec) (s : Loader) :
    ∃ elf' t, is.foldlM (relocateSection symbols nrMaps) elf s = .ok (elf', t) := by
  induction is generalizing elf s with
  | nil => exact ⟨_, _, rfl⟩
  | cons i is ih =>
    obtain ⟨elf₁, s₁, hone⟩ : ∃ elf₁ s₁,
        relocateSection symbols nrMaps elf i s = .ok (elf₁, s₁) := by
      rw [relocateSection_eq symbols nrMaps elf (his i (by simp))]
      cases hrel : relocates elf s.processedSec i with
      | none => exact ⟨_, _, rfl⟩
      | some x =>
        obtain ⟨y, hparse⟩ := @parseReloAndApply_total symbols s.mapData nrMaps _ _
          (hrels i _ _ (relocates_le hrel))
        exact ⟨_, _, by simp only [hparse]; rfl⟩
    have hpatched := (relinked_one hone).patched
    have hrels₁ : ∀ k j sec, relocates elf₁ (fun _ => false) k = some (j, sec) →
        RelsInside symbols (dataOf elf₁ j).length sec := by
      intro k j sec hk
      rw [relocates_patched hpatched] at hk
      rw [hpatched.length_dataOf]
      exact hrels k j sec hk
    obtain ⟨elf', t, hrest⟩ := ih (fun k hk => his k (by simp [hk])) hrels₁ s₁
    exact ⟨elf', t, by rw [List.foldlM_cons, bind_of_ok hone, hrest]⟩

lemma attachAll_total {ps : List ProgSection}
    (hfits : ∀ p ∈ ps, ∀ k : Kind, k.is p.1 = true → k.fits p.1) (ret : ℤ) {s : Loader}
    (hs : s.progCnt ≤ maxProgs) :
    ∃ r t, attachAll kernel ret ps s = .ok (r, t) ∧
      (Willing kernel → (∀ p ∈ ps, ∃ k : Kind, k.is p.1 = true ∧ k.hook p.1 ≠ .refused) →
        s.progCnt + ps.length ≤ maxProgs → (ps = [] → ret = 0) → r = 0) := by
  induction ps generalizing ret s with
  | nil => exact ⟨ret, s, rfl, fun _ _ _ h => h rfl⟩
  | cons p ps ih =>
    obtain ⟨r, t, hone, hr⟩ := loadAndAttach_ends (hfits p (by simp)) p.2 hs
    rw [attachAll, bind_of_ok hone]
    by_cases hzero : r = 0
    · subst hzero
      rw [if_neg (not_not.mpr rfl)]
      obtain ⟨r', t', hrest, hr'⟩ := ih (fun q hq => hfits q (by simp [hq])) 0
        ((moves_loadAndAttach _ _ hone).room hs)
      refine ⟨r', t', hrest, fun hw hhooks hroom _ => ?_⟩
      have hcnt := (loadAndAttach_zero hone).1
      rw [List.length_cons] at hroom
      exact hr' hw (fun q hq => hhooks q (by simp [hq])) (by omega) fun _ => rfl
    · rw [if_pos hzero]
      refine ⟨r, t, rfl, fun hw hhooks hroom _ => absurd (hr hw (hhooks p (by simp)) ?_) hzero⟩
      rw [List.length_cons] at hroom
      omega

/-- What stands behind a name, as far as the comparisons of the third pass read it. -/
def NameReadable (s : List UInt8) : Prop :=
  15 ≤ s.length ∨
    ∃ start ∈ [ascii "kprobe/", ascii "kretprobe/", ascii "tracepoint/"], startsWith s start = true

lemma memcmpAny_total {s : List UInt8} {before after : List (List UInt8)}
    (hlen : ∀ start ∈ before, start.length ≤ s.length)
    (hends : after = [] ∨ ∃ start ∈ before, startsWith s start = true) :
    ∃ b, memcmpAny s (before ++ after) = .ok b := by
  induction before with
  | nil =>
    rcases hends with rfl | ⟨start, hmem, -⟩
    · exact ⟨_, rfl⟩
    · cases hmem
  | cons start before ih =>
    rw [List.cons_append, memcmpAny, memcmpEq, if_neg (not_lt.mpr (hlen start (by simp)))]
    cases hstart : startsWith s start with
    | true => exact ⟨_, rfl⟩
    | false =>
      refine ih (fun p hp => hlen p (by simp [hp])) (hends.imp id ?_)
      rintro ⟨p, hp, hpstart⟩
      rcases List.mem_cons.mp hp with rfl | hp
      · rw [hstart] at hpstart
        cases hpstart
      · exact ⟨p, hp, hpstart⟩

lemma NameReadable.memcmpAny {s : List UInt8} (h : NameReadable s) :
    ∃ b, memcmpAny s programStarts = .ok b := by
  rcases h with hlong | ⟨start, hmem, hstart⟩
  · have hshort : ∀ start ∈ programStarts, start.length ≤ 15 := by decide
    rw [← List.append_nil programStarts]
    exact memcmpAny_total (fun p hp => (hshort p hp).trans hlong) (Or.inl rfl)
  · have hlen := length_le_of_startsWith hstart
    simp only [List.mem_cons, List.not_mem_nil, or_false] at hmem
    -- each comparison before the one that holds is with a shorter text
    have hread : ∀ n, (∀ p ∈ programStarts.take n, p.length ≤ start.length) →
        start ∈ programStarts.take n → ∃ b, BpfLoad.memcmpAny s programStarts = .ok b := by
      intro n hle hin
      rw [← List.take_append_drop n programStarts]
      exact memcmpAny_total (fun p hp => (hle p hp).trans hlen) (Or.inr ⟨start, hin, hstart⟩)
    rcases hmem with rfl | rfl | rfl
    · exact hread 1 (by decide) (by decide)
    · exact hread 2 (by decide) (by decide)
    · exact hread 3 (by decide) (by decide)

lemma Patched.strBytes_eq {elf elf' : Elf} (h : Patched elf elf') {idx off : ℕ}
    (hs : (elfStrptr elf idx off).isSome) : strBytes elf' idx off = strBytes elf idx off := by
  rw [elfStrptr] at hs
  split at hs
  · cases hs
  · rename_i tab htab
    split at hs
    · rename_i htype
      obtain ⟨hsec, -, hdata⟩ := h.sec idx tab htab
      rw [strBytes, strBytes, hsec, htab, hdata (by rw [htype.1]; simp)]
    · cases hs

end Passes

section Objects

variable {kernel : Kernel} {qsort : Qsort} {elf : Elf}

/-- The size that the loader takes the structures of a maps section to have. -/
def mapSzElf (elf : Elf) (shndx : ℕ) (symData : List UInt8) : ℕ :=
  (dataOf elf shndx).length / (mapSyms shndx symData).length

/-- A maps section that can be read and whose maps can be asked for. -/
structure SafeMaps (elf : Elf) (shndx : ℕ) (symData : List UInt8) (strtabidx : ℕ) : Prop where
  some : mapSyms shndx symData ≠ []
  count : (mapSyms shndx symData).length ≤ maxMaps
  inside : ∀ sym ∈ mapSyms shndx symData,
    InSection elf strtabidx (dataOf elf shndx) (mapSzElf elf shndx symData) sym
  inner : ∀ sym ∈ mapSyms shndx symData,
    InnerOk (entry elf strtabidx (dataOf elf shndx) (mapSzElf elf shndx symData) 0 sym)

/-- What an object must satisfy for the loader to stay inside its memory. -/
structure SafeObject (elf : Elf) : Prop where
  sections : elf.sections.length ≤ 128
  license : ∀ i x, getSec elf i = some x → x.1 = ascii "license" → x.2.data.length ≤ 128
  maps : ∀ shndx symData strtabidx, scanOf elf = ⟨some shndx, some (symData, strtabidx)⟩ →
    SafeMaps elf shndx symData strtabidx
  relocs : ∀ symData strtabidx, (scanOf elf).symbols = some (symData, strtabidx) →
    ∀ i j sec, relocates elf (fun _ => false) i = some (j, sec) →
      RelsInside (symtab symData) (dataOf elf j).length sec
  readable : ∀ i ∈ sectionIndices elf,
    (usedUp elf i || (relocates elf (usedUp elf) i).isSome) = false →
    ∀ x, getSec elf i = some x → NameReadable (strBytes elf elf.shstrndx x.2.name)
  names : ∀ i ∈ progIdx elf, ∀ k : Kind, k.is (nameOf elf i) = true → k.fits (nameOf elf i)

def MapsKnown (elf : Elf) : Prop :=
  ∀ shndx symData strtabidx, scanOf elf = ⟨some shndx, some (symData, strtabidx)⟩ →
    ∀ sym ∈ mapSyms shndx symData, KnownOnly (dataOf elf shndx) (mapSzElf elf shndx symData) sym

/-- What an object must have to be loaded at all. -/
structure Complete (elf : Elf) : Prop where
  version : VersionOk elf (sectionIndices elf)
  symbols : (scanOf elf).symbols.isSome
  known : MapsKnown elf
  programs : progIdx elf ≠ []
  hooks : ∀ i ∈ progIdx elf, ∃ k : Kind, k.is (nameOf elf i) = true ∧
    k.hook (nameOf elf i) ≠ .refused

lemma SafeObject.index (h : SafeObject elf) : ∀ i ∈ sectionIndices elf, i < 128 := by
  intro i hi
  have := h.sections
  have := (mem_sectionIndices.mp hi).2
  omega

lemma mapsShndx_some {is : List ℕ} {scan : Scan} {j : ℕ}
    (h : (is.foldl (scanStep elf) scan).mapsShndx = some j) :
    scan.mapsShndx = some j ∨ j ∈ is ∧ (getSec elf j).isSome := by
  induction is generalizing scan with
  | nil => exact Or.inl h
  | cons i is ih =>
    rcases ih h with hstep | ⟨hj, hsec⟩
    · rw [scanStep] at hstep
      cases hsec : getSec elf i with
      | none => exact Or.inl (by simpa [hsec] using hstep)
      | some x =>
        simp only [hsec] at hstep
        split at hstep
        · exact Or.inl hstep
        · split at hstep
          · obtain rfl := Option.some.inj hstep
            exact Or.inr ⟨by simp, by simp [hsec]⟩
          · split at hstep <;> exact Or.inl hstep
    · exact Or.inr ⟨by simp [hj], hsec⟩

lemma getSec_strptr {i : ℕ} {x : List UInt8 × Section} (h : getSec elf i = some x) :
    (elfStrptr elf elf.shstrndx x.2.name).isSome := by
  rw [getSec, getSec_sections h] at h
  cases hname : elfStrptr elf elf.shstrndx x.2.name with
  | none => simp [hname] at h
  | some shname => rfl

/-- Relocation changes no name, so that all names can still be read in the third pass. -/
lemma SafeObject.not_unreadable (h : SafeObject elf) {elf' : Elf} (hpatched : Patched elf elf')
    {p : ℕ → Bool} (hp : ∀ i ∈ sectionIndices elf,
      p i = (usedUp elf i || (relocates elf (usedUp elf) i).isSome)) {i : ℕ}
    (hi : i ∈ sectionIndices elf) : ¬ NameUnreadable elf' p i := by
  rintro ⟨hproc, x, hx, herr⟩
  rw [hpatched.getSec_eq, Option.map_eq_some_iff] at hx
  obtain ⟨y, hy, rfl⟩ := hx
  rw [hp i hi] at hproc
  obtain ⟨b, hok⟩ := (h.readable i hi hproc y hy).memcmpAny
  rw [hpatched.shstrndx, hpatched.strBytes_eq (getSec_strptr hy), hok] at herr
  cases herr

lemma linkPrograms_total (h : SafeObject elf) {symData : List UInt8} {strtabidx : ℕ}
    (hsym : (scanOf elf).symbols = some (symData, strtabidx)) (n : ℕ) {s : Loader}
    (hs : s.processedSec = usedUp elf) (hroom : s.progCnt ≤ maxProgs) :
    ∃ r t, linkPrograms kernel elf symData n s = .ok (r, t) ∧
      (Willing kernel → Complete elf → s.progCnt + (progIdx elf).length ≤ maxProgs → r = 0) := by
  obtain ⟨elf', w, hrel⟩ := @relocateSections_total (symtab symData) n (sectionIndices elf)
    h.index elf (h.relocs symData strtabidx hsym) s
  have hnodup : (sectionIndices elf).Nodup := List.nodup_range' ..
  obtain ⟨hlt, hlink⟩ := relinked_sections hnodup hrel
  have hprocs : ∀ i ∈ sectionIndices elf,
      w.processedSec i = (usedUp elf i || (relocates elf (usedUp elf) i).isSome) := by
    intro i hi
    rw [hlink.processed, hs]
    simp [hi]
  have hcnt : w.progCnt = s.progCnt := by rw [hlink.frame]
  rcases loadPrograms_cases kernel elf' 1 hlt w with heq | ⟨-, i, hi, hun⟩
  swap
  · exact absurd hun (h.not_unreadable hlink.patched hprocs hi)
  rw [linkPrograms, bind_of_ok hrel, heq, programs_eq hlink.patched hprocs]
  obtain ⟨r, t, hrun, hr⟩ := @attachAll_total kernel
    ((progIdx elf).map fun i => (nameOf elf i, dataOf elf' i)) (by
      intro p hp
      obtain ⟨i, hi, rfl⟩ := List.mem_map.mp hp
      exact h.names i hi) 1 w (hcnt ▸ hroom)
  refine ⟨r, t, hrun, fun hw hc hroom => hr hw ?_ ?_ ?_⟩
  · intro p hp
    obtain ⟨i, hi, rfl⟩ := List.mem_map.mp hp
    exact hc.hooks i hi
  · rw [List.length_map, hcnt]
    exact hroom
  · intro hnil
    exact absurd (List.map_eq_nil_iff.mp hnil) hc.programs

lemma mapsShndx_section {shndx : ℕ} (h : (scanOf elf).mapsShndx = some shndx) :
    shndx ∈ sectionIndices elf ∧ ∃ scn, elf.sections[shndx]? = some scn := by
  rcases mapsShndx_some h with hinit | ⟨hmem, hget⟩
  · cases hinit
  · obtain ⟨x, hx⟩ := Option.isSome_iff_exists.mp hget
    exact ⟨hmem, x.2, getSec_sections hx⟩

lemma readMaps_total {shndx strtabidx : ℕ} {symData : List UInt8}
    (h : SafeMaps elf shndx symData strtabidx) (hscn : ∃ scn, elf.sections[shndx]? = some scn)
    (s : Loader) :
    ((∀ sym ∈ mapSyms shndx symData,
        KnownOnly (dataOf elf shndx) (mapSzElf elf shndx symData) sym) ∧
      ∃ maps, loadElfMapsSection qsort (some shndx) elf (some (symData, strtabidx)) s =
          .ok (((mapSyms shndx symData).length : ℤ), { s with mapData := maps }) ∧
        ∀ k < (mapSyms shndx symData).length, InnerOk (maps k)) ∨
    ((¬ ∀ sym ∈ mapSyms shndx symData,
        KnownOnly (dataOf elf shndx) (mapSzElf elf shndx symData) sym) ∧
      ∃ maps, loadElfMapsSection qsort (some shndx) elf (some (symData, strtabidx)) s =
        .ok (-efbig, { s with mapData := maps })) := by
  obtain ⟨scn, hscn⟩ := hscn
  have hdata := dataOf_of_some hscn
  have hinside := h.inside
  simp only [mapSzElf, hdata] at hinside ⊢
  rcases loadElfMapsSection_cases qsort hscn h.count h.some hinside s with
    ⟨hknown, hread⟩ | ⟨hnew, maps, hread, -⟩
  · refine Or.inl ⟨hknown, _, hread, fun k hk => ?_⟩
    have hperm := qsort.perm (mapSyms shndx symData)
    have hget := List.getElem?_eq_getElem (hperm.length_eq.symm ▸ hk)
    have hinner := h.inner _ (hperm.mem_iff.mp (List.mem_of_getElem? hget))
    simp only [mapSzElf, hdata] at hinner
    rw [placed_zero hget]
    exact hinner
  · exact Or.inr ⟨hnew, maps, hread⟩

lemma loadMapsAndLink_total (h : SafeObject elf) {shndx strtabidx : ℕ} {symData : List UInt8}
    (hscan : scanOf elf = ⟨some shndx, some (symData, strtabidx)⟩) {s : Loader}
    (hs : ∀ i, s.processedSec i = decide (i ∈ sectionIndices elf ∧ isHeader elf i))
    (hroom : s.progCnt ≤ maxProgs) :
    ∃ r t, loadScanned kernel qsort none elf (scanOf elf) s = .ok (r, t) ∧
      (Willing kernel → Complete elf → s.progCnt + (progIdx elf).length ≤ maxProgs → r = 0) ∧
      (r = 0 → MapsKnown elf) := by
  have hsym : (scanOf elf).symbols = some (symData, strtabidx) := by rw [hscan]
  have hmaps : (scanOf elf).mapsShndx = some shndx := by rw [hscan]
  obtain ⟨hmem, hscn⟩ := mapsShndx_section hmaps
  have hsafe := h.maps shndx symData strtabidx hscan
  have hcount := hsafe.count
  simp only [loadScanned, hsym, hmaps]
  rcases @readMaps_total qsort elf shndx strtabidx symData hsafe hscn s with
    ⟨hknown, maps, hread, hinner⟩ | ⟨hnew, maps, hread⟩
  · rw [bind_of_ok hread, if_neg (by omega), Int.toNat_natCast]
    have hok : MapsKnown elf := by
      intro shndx' symData' strtabidx' hscan'
      obtain ⟨hm, hd⟩ := Scan.mk.inj (hscan.symm.trans hscan')
      obtain rfl := Option.some.inj hm
      obtain ⟨rfl, rfl⟩ := Prod.mk.inj (Option.some.inj hd)
      exact hknown
    have hinner' : ∀ k < (mapSyms shndx symData).length,
        InnerOk (({ s with mapData := maps } : Loader).mapData (0 + k)) := by simpa using hinner
    rcases loadMaps_eq kernel (show 0 + (mapSyms shndx symData).length ≤ maxMaps by omega)
      hinner' with ⟨-, hload⟩ | ⟨c, -, -, href, hload⟩
    · have hframe := (mapRules_frame kernel).respects_loadMaps none 0 _ hload
      rw [bind_of_ok hload, if_neg (not_not.mpr rfl), modify_bind]
      simp only [setProcessed, h.index shndx hmem, ↓reduceIte, modify_bind]
      generalize grantMaps kernel 0 _ _ = w at hframe
      have hproc : w.processedSec = s.processedSec := by rw [hframe.frame]
      have hcnt : w.progCnt = s.progCnt := by rw [hframe.frame]
      have hused : Function.update w.processedSec shndx true = usedUp elf := by
        funext i
        rw [usedUp, hmaps, hproc]
        by_cases hi : i = shndx
        · simp [hi]
        · simp [hi, Ne.symm hi, hs]
      obtain ⟨r, t, hrun, hr⟩ := @linkPrograms_total kernel elf h symData strtabidx hsym
        (mapSyms shndx symData).length { w with
          mapDataCount := (mapSyms shndx symData).length
          processedSec := Function.update w.processedSec shndx true } hused (hcnt ▸ hroom)
      rw [← hcnt]
      exact ⟨r, t, hrun, hr, fun _ => hok⟩
    · rw [bind_of_ok hload, if_pos (by decide)]
      refine ⟨1, _, rfl, fun hw => absurd href (hw.grants _ _), fun hr => ?_⟩
      cases hr
  · rw [bind_of_ok hread, if_pos (by decide)]
    refine ⟨1, _, rfl, fun _ hc => absurd (hc.known _ _ _ hscan) hnew, fun hr => ?_⟩
    cases hr

lemma loadScanned_total (h : SafeObject elf) {s : Loader}
    (hs : ∀ i, s.processedSec i = decide (i ∈ sectionIndices elf ∧ isHeader elf i))
    (hroom : s.progCnt ≤ maxProgs) :
    ∃ r t, loadScanned kernel qsort none elf (scanOf elf) s = .ok (r, t) ∧
      (Willing kernel → Complete elf → s.progCnt + (progIdx elf).length ≤ maxProgs → r = 0) ∧
      (r = 0 → MapsKnown elf) := by
  cases hsym : (scanOf elf).symbols with
  | none =>
    simp only [loadScanned, hsym]
    refine ⟨1, s, rfl, fun _ hc => absurd hc.symbols (by simp [hsym]), fun hr => ?_⟩
    cases hr
  | some x =>
    obtain ⟨symData, strtabidx⟩ := x
    cases hmaps : (scanOf elf).mapsShndx with
    | none =>
      have hused : s.processedSec = usedUp elf := by
        funext i
        rw [hs, usedUp, hmaps]
        simp
      simp only [loadScanned, hsym, hmaps]
      obtain ⟨r, t, hrun, hr⟩ := @linkPrograms_total kernel elf h symData strtabidx hsym 0 s hused
        hroom
      refine ⟨r, t, hrun, hr, fun _ shndx _ _ hscan => ?_⟩
      rw [hscan] at hmaps
      cases hmaps
    | some shndx => exact loadMapsAndLink_total h (by rw [← hsym, ← hmaps]) hs hroom

lemma load_total (h : SafeObject elf) (path : List UInt8) {s : Loader}
    (hroom : s.progCnt ≤ maxProgs) :
    ∃ r t, loadBpfFile kernel qsort path (some elf) s = .ok (r, t) ∧
      (Willing kernel → Complete elf → s.progCnt + (progIdx elf).length ≤ maxProgs → r = 0) ∧
      (r = 0 → VersionOk elf (sectionIndices elf) ∧ MapsKnown elf) := by
  simp only [loadBpfFile, doLoadBpfFile, modify_bind, ask_bind]
  split
  · rename_i hneg
    exact ⟨1, _, rfl, fun hw => absurd hneg (hw.grants _ _), fun hr => by cases hr⟩
  obtain ⟨r₀, u₀, hwrite⟩ : ∃ r u, writeKprobeEvents kernel [] (Loader.asked kernel
      { s with
        kernVersion := 0, license := List.replicate 128 0, processedSec := fun _ => false }
      (.openFile path .rdonly)) = .ok (r, u) := ⟨_, _, rfl⟩
  obtain ⟨probes, cleared, closed, hframe⟩ := writeKprobeEvents_clears hwrite
  rw [bind_of_ok hwrite]
  obtain ⟨o, u, hscan, -, ho⟩ := ends_scanSections h.index h.license ⟨none, none⟩ u₀ trivial
  rw [bind_of_ok hscan]
  cases o with
  | none =>
    refine ⟨1, _, rfl, fun _ hc => absurd (ho.mpr hc.version) (by simp), fun hr => by cases hr⟩
  | some scan =>
    obtain ⟨rfl, hscanned⟩ := scanSections_some hscan
    have hs : ∀ i, u.processedSec i = decide (i ∈ sectionIndices elf ∧ isHeader elf i) := by
      intro i
      rw [hscanned.processed, hframe]
      simp [Loader.asked]
    have hcnt : u.progCnt = s.progCnt := by
      rw [hscanned.frame, hframe]
      rfl
    obtain ⟨r, t, hrun, hr, hknown⟩ := @loadScanned_total kernel qsort elf h u hs (hcnt ▸ hroom)
    have hrun' : loadScanned kernel qsort none elf
        ((sectionIndices elf).foldl (scanStep elf) ⟨none, none⟩) u = .ok (r, t) := hrun
    simp only [bind_of_ok hrun', ask_bind, pure_apply]
    rw [← hcnt]
    exact ⟨r, _, rfl, hr, fun hz => ⟨ho.mp rfl, hknown hz⟩⟩

end Objects

section Sample

lemma getSec_sample {i : ℕ} {x : List UInt8 × Section} (h : getSec sampleObject i = some x) :
    i < 9 := by
  obtain ⟨hi, -⟩ := List.getElem?_eq_some_iff.mp (getSec_sections h)
  exact hi

lemma sampleObject_safe : SafeObject sampleObject where
  sections := by decide
  license := by
    have h : ∀ i < 9, ∀ x ∈ getSec sampleObject i, x.1 = ascii "license" →
        x.2.data.length ≤ 128 := by decide +kernel
    exact fun i x hx => h i (getSec_sample hx) x hx
  maps := by
    intro shndx symData strtabidx hscan
    obtain ⟨hm, hd⟩ := Scan.mk.inj (sampleObject_scan.symm.trans hscan)
    obtain rfl := Option.some.inj hm
    obtain ⟨rfl, rfl⟩ := Prod.mk.inj (Option.some.inj hd)
    refine ⟨by decide +kernel, by decide +kernel, by decide +kernel, ?_⟩
    have h : ∀ sym ∈ mapSyms 3 sampleSymbols, ¬ (entry sampleObject 7 (dataOf sampleObject 3)
        (mapSzElf sampleObject 3 sampleSymbols) 0 sym).mapDef.isMapInMap := by decide +kernel
    exact fun sym hsym hm => absurd hm (h sym hsym)
  relocs := by
    intro symData strtabidx hsym i j sec hrel
    rw [sampleObject_scan] at hsym
    obtain ⟨rfl, rfl⟩ := Prod.mk.inj (Option.some.inj hsym)
    have h : ∀ i < 9, ∀ y ∈ relocates sampleObject (fun _ => false) i,
        (y.2.entsize ≠ 0 ∧ y.2.data.length / y.2.entsize ≤ (reltab y.2.data).length) ∧
          ∀ rel ∈ relsIn y.2, 8 * insnIdx rel + 8 ≤ (dataOf sampleObject y.1).length ∧
            rel.sym < (symtab sampleSymbols).length := by decide +kernel
    have hi : i < 9 := by
      rw [relocates, if_neg (by simp)] at hrel
      obtain ⟨x, hx, -⟩ := Option.bind_eq_some_iff.mp hrel
      exact getSec_sample hx
    obtain ⟨⟨hsize, hfull⟩, hinside⟩ := h i hi _ hrel
    exact ⟨⟨hsize, hfull⟩, hinside⟩
  readable := by
    have h : ∀ i ∈ sectionIndices sampleObject,
        (usedUp sampleObject i || (relocates sampleObject (usedUp sampleObject) i).isSome) = false →
        ∀ x ∈ getSec sampleObject i,
          let name := strBytes sampleObject sampleObject.shstrndx x.2.name
          15 ≤ name.length ∨ ∃ start ∈ [ascii "kprobe/", ascii "kretprobe/", ascii "tracepoint/"],
            startsWith name start = true := by decide +kernel
    exact h
  names := by
    obtain ⟨hidx, hname⟩ := sampleObject_programs
    intro i hi k hk
    rw [hidx, List.mem_singleton] at hi
    subst hi
    rw [hname] at hk ⊢
    obtain rfl : k = .kprobe := Kind.is_unique hk (by decide)
    exact Or.inl (by decide)

lemma sampleObject_complete : Complete sampleObject where
  version := by
    have h : ∀ i ∈ sectionIndices sampleObject, ∀ x ∈ getSec sampleObject i,
        x.1 = ascii "version" → x.2.data.length = 4 := by decide +kernel
    exact h
  symbols := by rw [sampleObject_scan]; rfl
  known := by
    intro shndx symData strtabidx hscan
    obtain ⟨hm, hd⟩ := Scan.mk.inj (sampleObject_scan.symm.trans hscan)
    obtain rfl := Option.some.inj hm
    obtain ⟨rfl, rfl⟩ := Prod.mk.inj (Option.some.inj hd)
    decide +kernel
  programs := by rw [sampleObject_programs.1]; simp
  hooks := by
    obtain ⟨hidx, hname⟩ := sampleObject_programs
    intro i hi
    rw [hidx, List.mem_singleton] at hi
    subst hi
    rw [hname]
    exact ⟨.kprobe, by decide, by decide⟩

end Sample

section Loads

variable (kernel : Kernel) (qsort : Qsort)

def LoadCall.Safe (c : LoadCall) : Prop :=
  c.fixupMap = none ∧ ∀ elf, c.file = some elf → SafeObject elf

/-- However many safe objects a process loads, and whatever the kernel answers, the loader
never leaves its memory, divides by zero or fails its assertion. -/
theorem safe_loads_never_fault (cs : List LoadCall) (hsafe : ∀ c ∈ cs, c.Safe) (s : Loader)
    (hs : s.progCnt ≤ maxProgs) :
    ∃ t, run (loadStep kernel qsort) (some s) cs = some t := by
  induction cs generalizing s with
  | nil => exact ⟨s, rfl⟩
  | cons c cs ih =>
    obtain ⟨t, hstep⟩ : ∃ t, loadStep kernel qsort (some s) c = some t := by
      obtain ⟨hfix, hfile⟩ := hsafe c (by simp)
      rw [loadStep, Option.bind_some, hfix]
      cases hf : c.file with
      | none =>
        obtain ⟨r, t, hrun⟩ : ∃ r t,
            doLoadBpfFile kernel qsort c.path none none s = .ok (r, t) := by
          simp only [doLoadBpfFile, modify_bind, ask_bind]
          split <;> exact ⟨_, _, rfl⟩
        exact ⟨t, by rw [hrun]⟩
      | some elf =>
        obtain ⟨r, t, hrun, -⟩ := @load_total kernel qsort elf (hfile elf hf) c.path s hs
        rw [loadBpfFile] at hrun
        exact ⟨t, by rw [hrun]⟩
    obtain ⟨u, hrun⟩ := ih (fun c' hc' => hsafe c' (by simp [hc'])) t
      ((loadStep_moves hstep).room hs)
    exact ⟨u, by rw [run_cons, hstep, hrun]⟩

theorem safe_loads_never_fault_sample : ∃ t,
    run (loadStep zeroKernel insertionQsort) (some Loader.initial)
      [⟨ascii "tailcall_kern.o", some sampleObject, none⟩, ⟨ascii "tailcall_user", none, none⟩] =
        some t := by
  refine safe_loads_never_fault _ _ _ (fun c hc => ?_) _ (by decide)
  simp only [List.mem_cons, List.not_mem_nil, or_false] at hc
  rcases hc with rfl | rfl
  · exact ⟨rfl, fun elf h => Option.some.inj h ▸ sampleObject_safe⟩
  · exact ⟨rfl, fun elf h => by cases h⟩

/-- At any point in the life of a process, and when the kernel refuses nothing, a safe object is
loaded exactly when it is complete and there is room for its programs. -/
theorem load_succeeds_iff (cs : List LoadCall) (s : Loader) (path : List UInt8) (elf : Elf)
    (hs : run (loadStep kernel qsort) (some Loader.initial) cs = some s)
    (hsafe : SafeObject elf) (hw : Willing kernel) :
    (∃ t, loadBpfFile kernel qsort path (some elf) s = .ok (0, t)) ↔
      Complete elf ∧ s.progCnt + (progIdx elf).length ≤ maxProgs := by
  have hroom₀ : s.progCnt ≤ maxProgs :=
    run_loads (fun _ _ hm h => hm.room h) (show Loader.initial.progCnt ≤ maxProgs by decide) hs
  obtain ⟨r, t, hrun, hr, hback⟩ := @load_total kernel qsort elf hsafe path s hroom₀
  constructor
  · rintro ⟨t', ht'⟩
    rw [hrun] at ht'
    obtain ⟨rfl, rfl⟩ := Prod.mk.inj (Except.ok.inj ht')
    obtain ⟨hversion, hknown⟩ := hback rfl
    obtain ⟨_, heq, hstages⟩ := load_zero hrun
    obtain rfl := Option.some.inj heq
    obtain ⟨elf', symData, n, maps, subs, hres⟩ := load_result hstages
    refine ⟨⟨hversion, ?_, hknown, hres.nonempty, fun i hi => ?_⟩, ?_⟩
    · obtain ⟨strtabidx, hsym, -⟩ := hres.symbols
      simp [hsym]
    · obtain ⟨k, hk⟩ := List.getElem?_of_mem hi
      have hlt : k < subs.length := by
        rw [hres.length]
        exact (List.getElem?_eq_some_iff.mp hk).1
      obtain ⟨-, -, kind, hkind, -, hinst⟩ :=
        hres.each k i _ hk (List.getElem?_eq_getElem hlt)
      refine ⟨kind, hkind, fun hrefused => ?_⟩
      rw [hrefused] at hinst
      exact hinst
    · rw [← hres.count]
      exact (moves_doLoadBpfFile qsort path (some elf) none hrun).room hroom₀
  · rintro ⟨hc, hroom⟩
    obtain rfl := hr hw hc hroom
    exact ⟨t, hrun⟩

theorem load_succeeds_iff_sample : ∃ t,
    loadBpfFile zeroKernel insertionQsort (ascii "tailcall_kern.o") (some sampleObject)
      Loader.initial = .ok (0, t) := by
  refine (load_succeeds_iff _ _ [] _ _ _ rfl sampleObject_safe willing_zeroKernel).mpr
    ⟨sampleObject_complete, ?_⟩
  rw [sampleObject_programs.1]
  decide

end Loads

end FilterReduce.BpfLoad
