import FilterReduce.MapsSection
import FilterReduce.LinkPass
import FilterReduce.LoadPrograms

/-!
# A whole load

The three passes together. A load that returns zero is taken apart into the states
between its stages (`load_zero`), and what each stage establishes is carried to
the end.
-/
namespace FilterReduce.BpfLoad

open ByteLayout ElfObject StateProgram RunTrace

section First

/-- The first pass, as far as later stages depend on it. -/
def scanStep (elf : Elf) (scan : Scan) (i : ℕ) : Scan :=
  match getSec elf i with
  | none => scan
  | some (shname, sec) =>
    if shname = ascii "license" ∨ shname = ascii "version" then scan
    else if shname = ascii "maps" then { scan with mapsShndx := some i }
    else if sec.type = .symtab then { scan with symbols := some (sec.data, sec.link) }
    else scan

def licenseStep (elf : Elf) (license : List UInt8) (i : ℕ) : List UInt8 :=
  match getSec elf i with
  | none => license
  | some (shname, sec) =>
    if shname = ascii "license" then splice license 0 sec.data else license

def versionStep (elf : Elf) (version i : ℕ) : ℕ :=
  match getSec elf i with
  | none => version
  | some (shname, sec) => if shname = ascii "version" then ofLeBytes sec.data else version

def scanOf (elf : Elf) : Scan := (sectionIndices elf).foldl (scanStep elf) ⟨none, none⟩

def licenseOf (elf : Elf) : List UInt8 :=
  (sectionIndices elf).foldl (licenseStep elf) (List.replicate 128 0)

def versionOf (elf : Elf) : ℕ := (sectionIndices elf).foldl (versionStep elf) 0

def isHeader (elf : Elf) (i : ℕ) : Bool :=
  match getSec elf i with
  | none => false
  | some (shname, _) => shname = ascii "license" || shname = ascii "version"

def isMaps (elf : Elf) (i : ℕ) : Bool := (getSec elf i).any fun x => x.1 = ascii "maps"

structure Scanned (elf : Elf) (s : Loader) (is : List ℕ) (t : Loader) : Prop where
  frame : t = { s with
    license := is.foldl (licenseStep elf) s.license
    kernVersion := is.foldl (versionStep elf) s.kernVersion
    processedSec := t.processedSec
    mapData := t.mapData }
  processed : ∀ i, t.processedSec i = (s.processedSec i || decide (i ∈ is ∧ isHeader elf i))
  maps : (∀ i ∈ is, isMaps elf i = false) → t.mapData = s.mapData

lemma setProcessed_eq {i : ℕ} {s t : Loader} {u : PUnit} (h : setProcessed i s = .ok (u, t)) :
    i < 128 ∧ t = { s with processedSec := Function.update s.processedSec i true } := by
  by_cases hi : i < 128
  · simp only [setProcessed, hi, ↓reduceIte, modify_apply] at h
    obtain ⟨-, rfl⟩ := Prod.mk.inj (Except.ok.inj h)
    exact ⟨hi, rfl⟩
  · simp [setProcessed, hi] at h

/-- A section that is neither the license nor the version leaves the variables alone. -/
lemma scanned_plain {elf : Elf} {i : ℕ} (hhead : isHeader elf i = false) {s : Loader}
    {maps : ℕ → MapData} (hmaps : isMaps elf i = false → maps = s.mapData) :
    Scanned elf s [i] { s with mapData := maps } := by
  have hlic : licenseStep elf s.license i = s.license := by
    rw [licenseStep]
    cases hsec : getSec elf i with
    | none => rfl
    | some x => simp_all [isHeader]
  have hver : versionStep elf s.kernVersion i = s.kernVersion := by
    rw [versionStep]
    cases hsec : getSec elf i with
    | none => rfl
    | some x => simp_all [isHeader]
  refine ⟨by simp [hlic, hver], fun k => ?_, fun h => hmaps (h i (by simp))⟩
  by_cases hk : k = i
  · simp [hk, hhead]
  · simp [hk]

lemma scanned_header {elf : Elf} {i : ℕ} (hhead : isHeader elf i = true) (s : Loader) :
    Scanned elf s [i] { s with
      license := licenseStep elf s.license i
      kernVersion := versionStep elf s.kernVersion i
      processedSec := Function.update s.processedSec i true } := by
  refine ⟨rfl, fun k => ?_, fun _ => rfl⟩
  by_cases hk : k = i
  · simp [hk, hhead]
  · simp [hk]

lemma scanSection_some {elf : Elf} {scan scan' : Scan} {i : ℕ} {s t : Loader}
    (h : scanSection elf scan i s = .ok (some scan', t)) :
    scan' = scanStep elf scan i ∧ Scanned elf s [i] t := by
  have hne : ascii "license" ≠ ascii "version" := by decide
  rw [scanSection] at h
  cases hsec : getSec elf i with
  | none =>
    simp only [hsec, pure_apply, Except.ok.injEq, Prod.mk.injEq, Option.some.injEq] at h
    obtain ⟨rfl, rfl⟩ := h
    exact ⟨by simp [scanStep, hsec], scanned_plain (by simp [isHeader, hsec]) fun _ => rfl⟩
  | some x =>
    obtain ⟨shname, sec⟩ := x
    simp only [hsec] at h
    by_cases hl : shname = ascii "license"
    · subst hl
      rw [if_pos rfl] at h
      obtain ⟨_, u, hset, h⟩ := bind_eq_ok_iff.mp h
      obtain ⟨-, rfl⟩ := setProcessed_eq hset
      split at h
      · cases h
      · simp only [modify_bind, pure_apply, Except.ok.injEq, Prod.mk.injEq,
          Option.some.injEq] at h
        obtain ⟨rfl, rfl⟩ := h
        have hhead : isHeader elf i = true := by simp [isHeader, hsec]
        have := scanned_header hhead s
        exact ⟨by simp [scanStep, hsec], by simpa [licenseStep, versionStep, hsec, hne] using this⟩
    rw [if_neg hl] at h
    by_cases hv : shname = ascii "version"
    · subst hv
      rw [if_pos rfl] at h
      obtain ⟨_, u, hset, h⟩ := bind_eq_ok_iff.mp h
      obtain ⟨-, rfl⟩ := setProcessed_eq hset
      split at h
      · cases h
      · simp only [modify_bind, pure_apply, Except.ok.injEq, Prod.mk.injEq,
          Option.some.injEq] at h
        obtain ⟨rfl, rfl⟩ := h
        have hhead : isHeader elf i = true := by simp [isHeader, hsec]
        have := scanned_header hhead s
        exact ⟨by simp [scanStep, hsec], by simpa [licenseStep, versionStep, hsec, hl] using this⟩
    rw [if_neg hv] at h
    have hplain : isHeader elf i = false := by simp [isHeader, hsec, hl, hv]
    by_cases hm : shname = ascii "maps"
    · subst hm
      rw [if_pos rfl] at h
      simp only [modify_bind, pure_apply, Except.ok.injEq, Prod.mk.injEq, Option.some.injEq] at h
      obtain ⟨rfl, rfl⟩ := h
      refine ⟨by simp [scanStep, hsec, hl, hv], scanned_plain hplain fun h => ?_⟩
      simp [isMaps, hsec] at h
    rw [if_neg hm] at h
    by_cases hs : sec.type = .symtab
    · rw [if_pos hs] at h
      simp only [pure_apply, Except.ok.injEq, Prod.mk.injEq, Option.some.injEq] at h
      obtain ⟨rfl, rfl⟩ := h
      exact ⟨by simp [scanStep, hsec, hl, hv, hm, hs], scanned_plain hplain fun _ => rfl⟩
    · rw [if_neg hs] at h
      simp only [pure_apply, Except.ok.injEq, Prod.mk.injEq, Option.some.injEq] at h
      obtain ⟨rfl, rfl⟩ := h
      exact ⟨by simp [scanStep, hsec, hl, hv, hm, hs], scanned_plain hplain fun _ => rfl⟩

lemma scanSections_some {elf : Elf} {is : List ℕ} {scan scan' : Scan} {s t : Loader}
    (h : scanSections elf scan is s = .ok (some scan', t)) :
    scan' = is.foldl (scanStep elf) scan ∧ Scanned elf s is t := by
  induction is generalizing scan s with
  | nil =>
    obtain ⟨heq, rfl⟩ := Prod.mk.inj (Except.ok.inj h)
    exact ⟨(Option.some.inj heq).symm, rfl, by simp, fun _ => rfl⟩
  | cons i is ih =>
    rw [scanSections] at h
    obtain ⟨next, u, hhead, h⟩ := bind_eq_ok_iff.mp h
    cases next with
    | none => cases h
    | some scan₁ =>
      obtain ⟨rfl, hone⟩ := scanSection_some hhead
      obtain ⟨hres, hrest⟩ := ih h
      refine ⟨hres, ?_, fun k => ?_, fun hmaps => ?_⟩
      · rw [hrest.frame, hone.frame]
        rfl
      · rw [hrest.processed, hone.processed, Bool.or_assoc, ← Bool.decide_or]
        congr 2
        simp only [List.mem_cons, List.not_mem_nil, or_false]
        exact propext ⟨by tauto, by tauto⟩
      · rw [hrest.maps fun k hk => hmaps k (by simp [hk]),
          hone.maps fun k hk => hmaps k (by simp at hk; simp [hk])]

lemma mapsShndx_none {elf : Elf} {is : List ℕ} {scan : Scan}
    (h : (is.foldl (scanStep elf) scan).mapsShndx = none) :
    scan.mapsShndx = none ∧ ∀ i ∈ is, isMaps elf i = false := by
  have hlic : ascii "maps" ≠ ascii "license" := by decide
  have hver : ascii "maps" ≠ ascii "version" := by decide
  induction is generalizing scan with
  | nil => exact ⟨h, by simp⟩
  | cons i is ih =>
    obtain ⟨hstep, hrest⟩ := ih h
    have hone : scan.mapsShndx = none ∧ isMaps elf i = false := by
      rw [scanStep] at hstep
      cases hsec : getSec elf i with
      | none => simpa [hsec, isMaps] using hstep
      | some x =>
        obtain ⟨shname, sec⟩ := x
        simp only [hsec] at hstep
        by_cases hm : shname = ascii "maps"
        · simp [hm, hlic, hver] at hstep
        · refine ⟨?_, by simp [isMaps, hsec, hm]⟩
          rw [if_neg hm] at hstep
          split at hstep
          · exact hstep
          · split at hstep <;> exact hstep
    refine ⟨hone.1, fun k hk => ?_⟩
    rcases List.mem_cons.mp hk with rfl | hk
    · exact hone.2
    · exact hrest k hk

end First

section Stages

/-- What is said before the sections are read: the file is opened, old probes are cleared. -/
def Opens (path : List UInt8) (file : Answer) (talk : Log) : Prop :=
  ¬ file.ret < 0 ∧ ∃ probes cleared closed : Answer, talk =
    [(.openFile path .rdonly, file),
      (.openFile (debugfs ++ ascii "kprobe_events") .trunc, probes),
      (.write probes.ret [], cleared), (.close probes.ret, closed)]

structure Opened (path : List UInt8) (s u : Loader) (file : Answer) (opening : Log) : Prop where
  frame : u = { s with
    kernVersion := 0, license := List.replicate 128 0, processedSec := fun _ => false
    log := s.log ++ opening }
  opens : Opens path file opening

inductive MapsStage (kernel : Kernel) (qsort : Qsort) (fixupMap : Option FixupMap) (elf : Elf)
    (symData : List UInt8) (strtabidx : ℕ) (u : Loader) : Option ℕ → ℕ → Loader → Prop
  | absent : MapsStage kernel qsort fixupMap elf symData strtabidx u none 0 u
  | created {shndx n : ℕ} {v w : Loader}
      (hread : loadElfMapsSection qsort (some shndx) elf (some (symData, strtabidx)) u =
        .ok ((n : ℤ), v))
      (hload : loadMaps kernel fixupMap 0 n v = .ok (0, w)) :
      MapsStage kernel qsort fixupMap elf symData strtabidx u (some shndx) n { w with
        mapDataCount := n, processedSec := Function.update w.processedSec shndx true }

/-- The states between the stages of a load that returned zero. -/
structure LoadStages (kernel : Kernel) (qsort : Qsort) (path : List UInt8)
    (fixupMap : Option FixupMap) (elf : Elf) (s t : Loader) : Prop where
  stages : ∃ (symData : List UInt8) (strtabidx n : ℕ) (u₀ u v w x : Loader) (elf' : Elf)
    (file : Answer) (opening : Log),
    Opened path s u₀ file opening ∧ Scanned elf u₀ (sectionIndices elf) u ∧
    (scanOf elf).symbols = some (symData, strtabidx) ∧
    MapsStage kernel qsort fixupMap elf symData strtabidx u (scanOf elf).mapsShndx n v ∧
    (sectionIndices elf).foldlM (relocateSection (symtab symData) n) elf v = .ok (elf', w) ∧
    loadPrograms kernel elf' 1 (sectionIndices elf) w = .ok (0, x) ∧
    t = x.asked kernel (.close file.ret)

lemma linkPrograms_zero {kernel : Kernel} {elf : Elf} {symbols : List UInt8} {n : ℕ}
    {s t : Loader} (h : linkPrograms kernel elf symbols n s = .ok (0, t)) :
    ∃ elf' w, (sectionIndices elf).foldlM (relocateSection (symtab symbols) n) elf s =
        .ok (elf', w) ∧ loadPrograms kernel elf' 1 (sectionIndices elf) w = .ok (0, t) :=
  bind_eq_ok_iff.mp h

lemma loadScanned_zero {kernel : Kernel} {qsort : Qsort} {fixupMap : Option FixupMap} {elf : Elf}
    {scan : Scan} {u t : Loader}
    (h : loadScanned kernel qsort fixupMap elf scan u = .ok (0, t)) :
    ∃ symData strtabidx n v, scan.symbols = some (symData, strtabidx) ∧
      MapsStage kernel qsort fixupMap elf symData strtabidx u scan.mapsShndx n v ∧
      linkPrograms kernel elf symData n v = .ok (0, t) := by
  rw [loadScanned] at h
  cases hsym : scan.symbols with
  | none => simp [hsym] at h
  | some x =>
    obtain ⟨symData, strtabidx⟩ := x
    simp only [hsym] at h
    cases hmaps : scan.mapsShndx with
    | none =>
      simp only [hmaps] at h
      exact ⟨symData, strtabidx, 0, u, rfl, .absent, h⟩
    | some shndx =>
      simp only [hmaps] at h
      obtain ⟨nrMaps, v, hread, h⟩ := bind_eq_ok_iff.mp h
      by_cases hneg : nrMaps < 0
      · rw [if_pos hneg] at h
        cases h
      rw [if_neg hneg] at h
      obtain ⟨err, w, hload, h⟩ := bind_eq_ok_iff.mp h
      by_cases herr : err = 0
      · subst herr
        rw [if_neg (not_not.mpr rfl), modify_bind] at h
        obtain ⟨_, x, hset, h⟩ := bind_eq_ok_iff.mp h
        obtain ⟨-, rfl⟩ := setProcessed_eq hset
        obtain ⟨n, rfl⟩ := Int.eq_ofNat_of_zero_le (not_lt.mp hneg)
        exact ⟨symData, strtabidx, n, _, rfl, .created hread hload, h⟩
      · rw [if_pos herr] at h
        cases h

lemma writeKprobeEvents_clears {kernel : Kernel} {s t : Loader} {r : Int32}
    (h : writeKprobeEvents kernel [] s = .ok (r, t)) :
    ∃ probes cleared closed : Answer, t = { s with log := s.log ++
      [(.openFile (debugfs ++ ascii "kprobe_events") .trunc, probes),
        (.write probes.ret [], cleared), (.close probes.ret, closed)] } := by
  simp only [writeKprobeEvents, ↓reduceIte, ask_bind, pure_apply] at h
  obtain ⟨-, rfl⟩ := Prod.mk.inj (Except.ok.inj h)
  have hthree : ∀ (l : Log) a b c, l ++ [a, b, c] = l ++ [a] ++ [b] ++ [c] := by simp
  simp only [hthree]
  exact ⟨_, _, _, rfl⟩

/-- Inversion of a load that returned zero. -/
theorem load_zero {kernel : Kernel} {qsort : Qsort} {path : List UInt8} {file : Option Elf}
    {fixupMap : Option FixupMap} {s t : Loader}
    (h : doLoadBpfFile kernel qsort path file fixupMap s = .ok (0, t)) :
    ∃ elf, file = some elf ∧ LoadStages kernel qsort path fixupMap elf s t := by
  simp only [doLoadBpfFile, modify_bind, ask_bind] at h
  split at h
  · cases h
  rename_i hopen
  cases file with
  | none => cases h
  | some elf =>
    refine ⟨elf, rfl, ?_⟩
    dsimp only at h
    obtain ⟨_, u₀, hwrite, h⟩ := bind_eq_ok_iff.mp h
    obtain ⟨scan, u, hscan, h⟩ := bind_eq_ok_iff.mp h
    cases scan with
    | none => cases h
    | some scan =>
      obtain ⟨ret, x, hload, h⟩ := bind_eq_ok_iff.mp h
      simp only [ask_bind, pure_apply, Except.ok.injEq, Prod.mk.injEq] at h
      obtain ⟨rfl, rfl⟩ := h
      obtain ⟨rfl, hscanned⟩ := scanSections_some hscan
      obtain ⟨symData, strtabidx, n, v, hsym, hmaps, hlink⟩ := loadScanned_zero hload
      obtain ⟨elf', w, hrel, hprog⟩ := linkPrograms_zero hlink
      obtain ⟨probes, cleared, closed, rfl⟩ := writeKprobeEvents_clears hwrite
      refine ⟨symData, strtabidx, n, _, u, v, w, x, elf', _, _, ⟨?_, hopen, probes, cleared,
        closed, rfl⟩, hscanned, hsym, hmaps, hrel, hprog, rfl⟩
      simp [Loader.asked]

structure MapsFrame (s t : Loader) : Prop where
  frame : t = { s with
    log := t.log, mapFd := t.mapFd, mapData := t.mapData, progArrayFd := t.progArrayFd }
  creates : ∃ new, t.log = s.log ++ new ∧ ∀ e ∈ new, e.1.isCreate = true

lemma mapRules_frame (kernel : Kernel) : MapRules kernel MapsFrame where
  refl s := ⟨rfl, [], by simp, by simp⟩
  trans s t u h h' := by
    obtain ⟨new, hnew, hcreate⟩ := h.creates
    obtain ⟨new', hnew', hcreate'⟩ := h'.creates
    refine ⟨by rw [h'.frame, h.frame], new ++ new', by rw [hnew', hnew, List.append_assoc], ?_⟩
    exact List.forall_mem_append.mpr ⟨hcreate, hcreate'⟩
  asks q hq s := ⟨rfl, _, rfl, by simpa using hq⟩
  maps s t h := ⟨by rw [h], [], by rw [h]; simp, by simp⟩

lemma MapsStage.frame {kernel : Kernel} {qsort : Qsort} {fixupMap : Option FixupMap} {elf : Elf}
    {symData : List UInt8} {strtabidx n : ℕ} {u v : Loader} {m : Option ℕ}
    (h : MapsStage kernel qsort fixupMap elf symData strtabidx u m n v) :
    v = { u with
      log := v.log, mapFd := v.mapFd, mapData := v.mapData, progArrayFd := v.progArrayFd
      mapDataCount := v.mapDataCount, processedSec := v.processedSec } ∧
    (∃ new, v.log = u.log ++ new ∧ ∀ e ∈ new, e.1.isCreate = true) ∧
    ∀ i, v.processedSec i = (u.processedSec i || decide (m = some i)) := by
  cases h with
  | absent => exact ⟨rfl, ⟨[], by simp, by simp⟩, by simp⟩
  | @created shndx n v₁ w hread hload =>
    have hframe := (mapRules_frame kernel).trans _ _ _
      ((mapRules_frame kernel).respects_loadElfMapsSection _ _ _ _ hread)
      ((mapRules_frame kernel).respects_loadMaps _ _ _ hload)
    refine ⟨?_, hframe.creates, fun i => ?_⟩
    · rw [hframe.frame]
    · have hsame : w.processedSec = u.processedSec := by rw [hframe.frame]
      by_cases hi : i = shndx
      · simp [hi]
      · simp [hi, Ne.symm hi, hsame]

end Stages

section Result

def usedUp (elf : Elf) (i : ℕ) : Bool :=
  decide (i ∈ sectionIndices elf ∧ isHeader elf i) || decide ((scanOf elf).mapsShndx = some i)

/-- The sections that are loaded as programs, in the order of the file. -/
def progIdx (elf : Elf) : List ℕ :=
  (sectionIndices elf).filter fun i =>
    !(usedUp elf i || (relocates elf (usedUp elf) i).isSome) &&
      (getSec elf i).any fun x => isProgram x.1

def nameOf (elf : Elf) (i : ℕ) : List UInt8 := ((getSec elf i).map Prod.fst).getD []

def relsOf (elf : Elf) (i : ℕ) : List Rel := relsTo elf (usedUp elf) (sectionIndices elf) i

lemma filterMap_eq_map_filter {α β : Type*} {f : α → Option β} {c : α → Bool} {g : α → β}
    {l : List α} (h : ∀ a ∈ l, f a = if c a then some (g a) else none) :
    l.filterMap f = (l.filter c).map g := by
  induction l with
  | nil => rfl
  | cons a l ih =>
    have hrest := ih fun b hb => h b (by simp [hb])
    by_cases hc : c a = true
    · simp [hc, h a (by simp), hrest]
    · simp [hc, h a (by simp), hrest]

lemma programs_eq {elf elf' : Elf} (h : Patched elf elf') {p : ℕ → Bool}
    (hp : ∀ i ∈ sectionIndices elf,
      p i = (usedUp elf i || (relocates elf (usedUp elf) i).isSome)) :
    programs elf' p (sectionIndices elf) =
      (progIdx elf).map fun i => (nameOf elf i, dataOf elf' i) := by
  refine filterMap_eq_map_filter fun i hi => ?_
  rw [hp i hi, h.getSec_eq]
  by_cases hused : (usedUp elf i || (relocates elf (usedUp elf) i).isSome) = true
  · simp [hused]
  · cases hsec : getSec elf i with
    | none => simp [hused]
    | some x => by_cases hprog : isProgram x.1 = true <;> simp_all [nameOf]

structure MapsBefore (elf : Elf) (s u : Loader) : Prop where
  mapFd : u.mapFd = s.mapFd
  count : u.mapDataCount = s.mapDataCount
  mapData : (scanOf elf).mapsShndx = none → u.mapData = s.mapData

/-- What a load that returned zero leaves behind; `elf'` is the file with its programs linked,
`maps` what was said to create the maps and `cs` what was said about the programs. -/
structure LoadResult (kernel : Kernel) (qsort : Qsort) (path : List UInt8)
    (fixupMap : Option FixupMap) (elf : Elf) (s t : Loader) (elf' : Elf) (symData : List UInt8)
    (n : ℕ) (maps : Log) (cs : List Submission) : Prop where
  symbols : ∃ strtabidx, (scanOf elf).symbols = some (symData, strtabidx) ∧
    ∃ u v, MapsBefore elf s u ∧
      MapsStage kernel qsort fixupMap elf symData strtabidx u (scanOf elf).mapsShndx n v ∧
      (t.mapFd = v.mapFd ∧ t.mapData = v.mapData ∧ t.progArrayFd = v.progArrayFd) ∧
      t.mapDataCount = v.mapDataCount ∧ v.log = u.log ++ maps
  creates : ∀ e ∈ maps, e.1.isCreate = true
  log : ∃ (file closed : Answer) (opening : Log), Opens path file opening ∧
    t.log = s.log ++ (opening ++ maps ++ cs.flatMap Submission.log ++ [(.close file.ret, closed)])
  patched : Patched elf elf'
  preserved : ∀ i, Preserved (relsOf elf i) (dataOf elf i) (dataOf elf' i)
  linked : ∀ i, (∀ rel ∈ relsOf elf i, Linkable (symtab symData) t.mapData n (dataOf elf i) rel) →
    insns (dataOf elf' i) =
      linked (target (symtab symData) t.mapData n (relsOf elf i)) (insns (dataOf elf i))
  nonempty : progIdx elf ≠ []
  count : t.progCnt = s.progCnt + (progIdx elf).length
  older : ∀ j < s.progCnt, t.progFd j = s.progFd j ∧ t.eventFd j = s.eventFd j
  length : cs.length = (progIdx elf).length
  submitted : loadsOf t.log = loadsOf s.log ++ cs.map Submission.entry
  each : ∀ k i c, (progIdx elf)[k]? = some i → cs[k]? = some c →
    ¬ c.entry.2.ret < 0 ∧ t.progFd (s.progCnt + k) = c.entry.2.ret ∧
    ∃ kind : Kind, kind.is (nameOf elf i) = true ∧
      c.entry.1 = .loadProgram kind.progType
        ((dataOf elf' i).take (8 * ((dataOf elf' i).length / 8))) (licenseOf elf) (versionOf elf) ∧
      Installs t.progArrayFd (t.eventFd (s.progCnt + k)) c.entry.2.ret
        (kind.hook (nameOf elf i)) c.talk

lemma mem_sectionIndices {elf : Elf} {i : ℕ} :
    i ∈ sectionIndices elf ↔ 1 ≤ i ∧ i < elf.sections.length := by
  rw [sectionIndices, List.mem_range'_1]
  omega

lemma Opens.loadsOf_eq {path : List UInt8} {file : Answer} {talk : Log}
    (h : Opens path file talk) : loadsOf talk = [] := by
  obtain ⟨-, probes, cleared, closed, rfl⟩ := h
  rfl

/-- The state `w` in which the third pass starts; in `v` the maps were created. -/
structure Ready (elf : Elf) (symbols : List Sym) (n : ℕ) (s v w : Loader) (elf' : Elf)
    (before : Log) : Prop where
  tables : w.progCnt = s.progCnt ∧ w.progFd = s.progFd ∧ w.eventFd = s.eventFd
  license : w.license = licenseOf elf
  version : w.kernVersion = versionOf elf
  frame : w = { v with processedSec := w.processedSec }
  log : w.log = s.log ++ before
  indices : ∀ i ∈ sectionIndices elf, i < 128
  patched : Patched elf elf'
  programs : programs elf' w.processedSec (sectionIndices elf) =
    (progIdx elf).map fun i => (nameOf elf i, dataOf elf' i)
  preserved : ∀ i, Preserved (relsOf elf i) (dataOf elf i) (dataOf elf' i)
  linked : ∀ i, (∀ rel ∈ relsOf elf i, Linkable symbols v.mapData n (dataOf elf i) rel) →
    insns (dataOf elf' i) =
      linked (target symbols v.mapData n (relsOf elf i)) (insns (dataOf elf i))

lemma ready_of_stages {kernel : Kernel} {qsort : Qsort} {path : List UInt8}
    {fixupMap : Option FixupMap} {elf elf' : Elf} {s u₀ u v w : Loader} {file : Answer}
    {opening maps : Log} {symData : List UInt8} {strtabidx n : ℕ}
    (hopen : Opened path s u₀ file opening) (hscan : Scanned elf u₀ (sectionIndices elf) u)
    (hmaps : MapsStage kernel qsort fixupMap elf symData strtabidx u (scanOf elf).mapsShndx n v)
    (hlog : v.log = u.log ++ maps)
    (hrel : (sectionIndices elf).foldlM (relocateSection (symtab symData) n) elf v =
      .ok (elf', w)) :
    Ready elf (symtab symData) n s v w elf' (opening ++ maps) := by
  have hnodup : (sectionIndices elf).Nodup := List.nodup_range' ..
  obtain ⟨hlt, hlink⟩ := relinked_sections hnodup hrel
  obtain ⟨hvframe, -, hvproc⟩ := hmaps.frame
  have hused : v.processedSec = usedUp elf := by
    funext i
    rw [hvproc, hscan.processed, hopen.frame]
    rfl
  have hprocs : ∀ i ∈ sectionIndices elf,
      w.processedSec i = (usedUp elf i || (relocates elf (usedUp elf) i).isSome) := by
    intro i hi
    rw [hlink.processed, hused]
    simp [hi]
  have hwv := hlink.frame
  refine ⟨⟨?_, ?_, ?_⟩, ?_, ?_, hwv, ?_, hlt, hlink.patched, programs_eq hlink.patched hprocs,
    fun i => ?_, fun i => ?_⟩
  · rw [hwv, hvframe, hscan.frame, hopen.frame]
  · rw [hwv, hvframe, hscan.frame, hopen.frame]
  · rw [hwv, hvframe, hscan.frame, hopen.frame]
  · rw [hwv, hvframe, hscan.frame, hopen.frame]
    rfl
  · rw [hwv, hvframe, hscan.frame, hopen.frame]
    rfl
  · rw [hwv, hlog, hscan.frame, hopen.frame, List.append_assoc]
  · rw [relsOf, ← hused]
    exact hlink.preserved i
  · rw [relsOf, ← hused]
    exact hlink.linked i

theorem load_result {kernel : Kernel} {qsort : Qsort} {path : List UInt8}
    {fixupMap : Option FixupMap} {elf : Elf} {s t : Loader}
    (h : LoadStages kernel qsort path fixupMap elf s t) :
    ∃ elf' symData n maps cs,
      LoadResult kernel qsort path fixupMap elf s t elf' symData n maps cs := by
  obtain ⟨symData, strtabidx, n, u₀, u, v, w, x, elf', file, opening, hopen, hscan, hsym, hmaps,
    hrel, hprog, rfl⟩ := h.stages
  obtain ⟨-, ⟨maps, hmapslog, hcreates⟩, -⟩ := hmaps.frame
  have hready := ready_of_stages hopen hscan hmaps hmapslog hrel
  rcases loadPrograms_cases kernel elf' 1 hready.indices w with heq | ⟨herr, -⟩
  swap
  · rw [herr] at hprog
    cases hprog
  rw [heq, hready.programs] at hprog
  obtain ⟨hne, cs, hloaded⟩ := attachAll_zero hprog
  obtain ⟨hcnt, hfd, hev⟩ := hready.tables
  have hxw := hloaded.frame
  have hmapData : x.mapData = v.mapData := by rw [hxw, hready.frame]
  have harray : w.progArrayFd = x.progArrayFd := by rw [hxw]
  refine ⟨elf', symData, n, maps, cs, ?_⟩
  constructor
  · refine ⟨strtabidx, hsym, u, v, ⟨?_, ?_, fun hnone => ?_⟩, hmaps, ⟨?_, hmapData, ?_⟩, ?_,
      hmapslog⟩
    · rw [hscan.frame, hopen.frame]
    · rw [hscan.frame, hopen.frame]
    · rw [hscan.maps (mapsShndx_none hnone).2, hopen.frame]
    · show x.mapFd = v.mapFd
      rw [hxw, hready.frame]
    · show x.progArrayFd = v.progArrayFd
      rw [hxw, hready.frame]
    · show x.mapDataCount = v.mapDataCount
      rw [hxw, hready.frame]
  · exact hcreates
  · refine ⟨file, kernel x.log (.close file.ret), opening, hopen.opens, ?_⟩
    rw [asked_log, hloaded.log, hready.log]
    simp only [List.append_assoc]
  · exact hready.patched
  · exact hready.preserved
  · intro i hi
    show _ = linked (target _ x.mapData _ _) _
    rw [hmapData]
    exact hready.linked i fun rel hr => hmapData ▸ hi rel hr
  · intro hnil
    rw [hnil] at hne
    exact absurd (hne rfl) (by decide)
  · show x.progCnt = _
    rw [hloaded.count, hcnt, List.length_map]
  · intro j hj
    have := hloaded.older j (by rw [hcnt]; exact hj)
    rwa [hfd, hev] at this
  · rw [hloaded.length, List.length_map]
  · have hnone : loadsOf maps = [] :=
      loadsOf_eq_nil fun e he => Request.isLoadProgram_of_isCreate (hcreates e he)
    have hclose : loadsOf [(Request.close file.ret, kernel x.log (.close file.ret))] = [] := rfl
    rw [asked_log, loadsOf_append, hclose, List.append_nil, hloaded.submitted, hready.log,
      loadsOf_append, loadsOf_append, hopen.opens.loadsOf_eq, hnone]
    simp
  · intro k i c hi hc
    have hp : ((progIdx elf).map fun i => (nameOf elf i, dataOf elf' i))[k]? =
        some (nameOf elf i, dataOf elf' i) := by rw [List.getElem?_map, hi]; rfl
    have heach := hloaded.each k _ c hp hc
    obtain ⟨kind, hkind, hreq, hinst⟩ := heach.kind
    have hfd := heach.progFd
    rw [hcnt] at hfd hinst
    refine ⟨heach.accepted, hfd, kind, hkind, ?_, harray ▸ hinst⟩
    rw [hreq, loadRequest, hready.license, hready.version]

lemma sampleObject_scan : scanOf sampleObject = ⟨some 3, some (sampleSymbols, 7)⟩ := by
  have h : (scanOf sampleObject).mapsShndx = some 3 ∧
      (scanOf sampleObject).symbols = some (sampleSymbols, 7) := by decide +kernel
  rw [← h.1, ← h.2]

lemma sampleObject_programs :
    progIdx sampleObject = [4] ∧ nameOf sampleObject 4 = ascii "kprobe/1" := by decide +kernel

end Result

section Paired

def Paired (s : Loader) : Prop := ∀ j < s.mapDataCount, s.mapFd j = (s.mapData j).fd

lemma LoadResult.paired {kernel : Kernel} {qsort : Qsort} {path : List UInt8}
    {fixupMap : Option FixupMap} {elf elf' : Elf} {s t : Loader} {symData : List UInt8} {n : ℕ}
    {maps : Log} {cs : List Submission}
    (h : LoadResult kernel qsort path fixupMap elf s t elf' symData n maps cs) (hs : Paired s) :
    Paired t := by
  obtain ⟨strtabidx, -, u, v, hbefore, hstage, ⟨hfd, hdata, -⟩, hcount, -⟩ := h.symbols
  rw [Paired, hfd, hdata, hcount]
  generalize hm : (scanOf elf).mapsShndx = m at hstage
  cases hstage with
  | absent =>
    rw [hbefore.mapFd, hbefore.mapData hm, hbefore.count]
    exact hs
  | created hread hload =>
    intro j hj
    exact (loadMaps_paired hload).1 j (Nat.zero_le j) (by simpa using hj)

/-- A process that goes on only as long as its loads return zero. -/
def successStep (kernel : Kernel) (qsort : Qsort) (s : Option Loader) (c : LoadCall) :
    Option Loader :=
  s.bind fun s =>
    match doLoadBpfFile kernel qsort c.path c.file c.fixupMap s with
    | .ok (0, t) => some t
    | _ => none

lemma successStep_paired {kernel : Kernel} {qsort : Qsort} {s t : Loader} {c : LoadCall}
    (h : successStep kernel qsort (some s) c = some t) (hs : Paired s) : Paired t := by
  rw [successStep, Option.bind_some] at h
  split at h
  · rename_i u hrun
    obtain rfl := Option.some.inj h
    obtain ⟨elf, -, hstages⟩ := load_zero hrun
    obtain ⟨elf', symData, n, maps, cs, hres⟩ := load_result hstages
    exact hres.paired hs
  · cases h

/-- After any number of loads that returned zero, with or without a fix-up callback, each map
has one descriptor: `map_fd` and `map_data` agree on all maps that are counted. -/
theorem mapFd_paired_after_loads (kernel : Kernel) (qsort : Qsort) (cs : List LoadCall)
    (t : Loader) (h : run (successStep kernel qsort) (some Loader.initial) cs = some t) :
    Paired t := by
  have hinv : ∀ o c, (∀ u, o = some u → Paired u) →
      ∀ u, successStep kernel qsort o c = some u → Paired u := by
    intro o c ho u hu
    cases o with
    | none => cases hu
    | some v => exact successStep_paired hu (ho v rfl)
  have hinit : ∀ u, some Loader.initial = some u → Paired u := by
    rintro u ⟨⟩ j hj
    exact absurd hj (Nat.not_lt_zero j)
  exact run_invariant (successStep kernel qsort) hinv hinit cs t h

/-- A plain load, then one that reuses a descriptor for its first map. -/
theorem mapFd_paired_after_loads_sample : ∃ t,
    run (successStep grantingKernel insertionQsort) (some Loader.initial)
      [⟨ascii "tailcall_kern.o", some sampleObject, none⟩,
        ⟨ascii "tailcall_kern.o", some sampleObject,
          some fun m i => if i = 0 then { m with fd := 7 } else m⟩] = some t ∧
    t.mapDataCount = 2 ∧ t.mapFd 0 = 7 ∧ Paired t := by
  have hrun : ((run (successStep grantingKernel insertionQsort) (some Loader.initial)
      [⟨ascii "tailcall_kern.o", some sampleObject, none⟩,
        ⟨ascii "tailcall_kern.o", some sampleObject,
          some fun m i => if i = 0 then { m with fd := 7 } else m⟩]).any
        fun t => t.mapDataCount = 2 ∧ t.mapFd 0 = 7) = true := by decide +kernel
  obtain ⟨t, ht, hval⟩ := (Option.any_eq_true _ _).mp hrun
  obtain ⟨hcount, hfd⟩ := of_decide_eq_true hval
  exact ⟨t, ht, hcount, hfd, mapFd_paired_after_loads _ _ _ t ht⟩

end Paired

end FilterReduce.BpfLoad
