import FilterReduce.AttachProgram
import FilterReduce.MapsSection
import FilterReduce.RunTrace

/-!
# What the loader can do to its tables

Every function of the loader is a sequence of four kinds of moves, and the program
tables change in one of them only. What holds of the tables after any number of
loads, with whatever the kernel answered, is checked against the moves.
-/
namespace FilterReduce.BpfLoad

open ElfObject StateProgram RunTrace

inductive Move (kernel : Kernel) : Loader → Loader → Prop
  | asked {s : Loader} (q : Request) (hq : q.isLoadProgram = false) :
      Move kernel s (s.asked kernel q)
  | refused {s : Loader} (type : ProgType) (prog : List UInt8)
      (hneg : (kernel s.log (loadRequest s type prog)).ret < 0) :
      Move kernel s (s.asked kernel (loadRequest s type prog))
  | loaded {s : Loader} (type : ProgType) (prog : List UInt8) (hroom : s.progCnt < maxProgs)
      (hpos : ¬ (kernel s.log (loadRequest s type prog)).ret < 0) :
      Move kernel s ((s.asked kernel (loadRequest s type prog)).recordProg
        (kernel s.log (loadRequest s type prog)).ret)
  | other {s t : Loader} (hlog : t.log = s.log) (hcnt : t.progCnt = s.progCnt)
      (hfd : t.progFd = s.progFd) : Move kernel s t

def Moves (kernel : Kernel) : Loader → Loader → Prop := Relation.ReflTransGen (Move kernel)

def Request.isCreate : Request → Bool
  | .createMap .. => true
  | .createMapInMap .. => true
  | _ => false

lemma isCreate_mapRequest (mapFd : ℕ → Int32) (m : MapData) :
    (mapRequest mapFd m).isCreate = true := by
  rw [mapRequest]
  split <;> rfl

lemma Request.isLoadProgram_of_isCreate {q : Request} (h : q.isCreate = true) :
    q.isLoadProgram = false := by
  cases q <;> first | rfl | cases h

/-- A relation between states that reading and creating maps cannot leave. -/
structure MapRules (kernel : Kernel) (R : Loader → Loader → Prop) : Prop where
  refl : ∀ s, R s s
  trans : ∀ s t u, R s t → R t u → R s u
  asks : ∀ q : Request, q.isCreate = true → ∀ s, R s (s.asked kernel q)
  maps : ∀ s t : Loader,
    t = { s with mapFd := t.mapFd, mapData := t.mapData, progArrayFd := t.progArrayFd } → R s t

namespace MapRules

variable {kernel : Kernel} {R : Loader → Loader → Prop} (hR : MapRules kernel R)

include hR

lemma respects_pure {α : Type} (a : α) : Respects R (pure a : Load α) := Respects.pure hR.refl a

lemma respects_bind {α β : Type} {m : Load α} {f : α → Load β} (hm : Respects R m)
    (hf : ∀ a, Respects R (f a)) : Respects R (m >>= f) := Respects.bind hR.trans hm hf

lemma respects_mapAt (i : ℕ) : Respects R (mapAt i) := by
  refine Respects.get_bind fun s => ?_
  split
  · exact hR.respects_pure _
  · exact Respects.fail _

lemma respects_setMapData (i : ℕ) (m : MapData) : Respects R (setMapData i m) := by
  rw [setMapData]
  split
  · exact Respects.modify fun s => hR.maps _ _ rfl
  · exact Respects.fail _

lemma respects_setMapFd (i : ℕ) (fd : Int32) : Respects R (setMapFd i fd) := by
  rw [setMapFd]
  split
  · exact Respects.modify fun s => hR.maps _ _ rfl
  · exact Respects.fail _

lemma respects_createMap (m : MapData) : Respects R (createMap kernel m) := by
  intro s fd t h
  obtain ⟨-, -, rfl⟩ := createMap_ok h
  exact hR.asks _ (isCreate_mapRequest _ _) s

lemma respects_loadMap (fixupMap : Option FixupMap) (i : ℕ) :
    Respects R (loadMap kernel fixupMap i) := by
  refine hR.respects_bind (hR.respects_mapAt i) fun m =>
    hR.respects_bind (hR.respects_setMapData i _) fun _ => ?_
  split
  · exact hR.respects_bind (hR.respects_setMapFd i _) fun _ => hR.respects_pure _
  refine hR.respects_bind (hR.respects_createMap _) fun fd =>
    hR.respects_bind (hR.respects_setMapFd i fd) fun _ => ?_
  split
  · exact hR.respects_pure _
  refine hR.respects_bind (hR.respects_setMapData i _) fun _ => ?_
  split
  · exact hR.respects_bind (Respects.modify fun s => hR.maps _ _ rfl) fun _ => hR.respects_pure _
  · exact hR.respects_pure _

lemma respects_loadMaps (fixupMap : Option FixupMap) (i n : ℕ) :
    Respects R (loadMaps kernel fixupMap i n) := by
  induction n generalizing i with
  | zero => exact hR.respects_pure _
  | succ n ih =>
    refine hR.respects_bind (hR.respects_loadMap fixupMap i) fun created => ?_
    split
    · exact ih (i + 1)
    · exact hR.respects_pure _

lemma respects_copyMap (elf : Elf) (strtabidx : ℕ) (dataMaps : List UInt8) (mapSzElf i : ℕ)
    (sym : Sym) : Respects R (copyMap elf strtabidx dataMaps mapSzElf i sym) := by
  rw [copyMap]
  split
  · exact Respects.fail _
  refine hR.respects_bind (hR.respects_mapAt i) fun m => ?_
  split
  · exact Respects.fail _
  refine hR.respects_bind (hR.respects_setMapData i _) fun _ => ?_
  split
  · exact Respects.pureOr hR.refl _
  · exact hR.respects_pure _

lemma respects_copyMaps (elf : Elf) (strtabidx : ℕ) (dataMaps : List UInt8) (mapSzElf i : ℕ)
    (syms : List Sym) : Respects R (copyMaps elf strtabidx dataMaps mapSzElf i syms) := by
  induction syms generalizing i with
  | nil => exact hR.respects_pure _
  | cons sym syms ih =>
    refine hR.respects_bind (hR.respects_copyMap elf strtabidx dataMaps mapSzElf i sym)
      fun copied => ?_
    split
    · exact ih (i + 1)
    · exact hR.respects_pure _

lemma respects_loadElfMapsSection (qsort : Qsort) (mapsShndx : Option ℕ) (elf : Elf)
    (symbols : Option (List UInt8 × ℕ)) :
    Respects R (loadElfMapsSection qsort mapsShndx elf symbols) := by
  rw [loadElfMapsSection.eq_def]
  split
  · split
    · exact hR.respects_pure _
    refine hR.respects_bind (Respects.pureOr hR.refl _) fun found => ?_
    dsimp only
    split
    · exact Respects.fail _
    · exact hR.respects_copyMaps _ _ _ _ _ _
  · exact hR.respects_pure _

end MapRules

section Functions

variable {kernel : Kernel}

lemma Moves.refl (s : Loader) : Moves kernel s s := Relation.ReflTransGen.refl

lemma Moves.trans (s t u : Loader) (h : Moves kernel s t) (h' : Moves kernel t u) :
    Moves kernel s u := Relation.ReflTransGen.trans h h'

lemma Moves.other {s t : Loader} (hlog : t.log = s.log) (hcnt : t.progCnt = s.progCnt)
    (hfd : t.progFd = s.progFd) : Moves kernel s t :=
  Relation.ReflTransGen.single (.other hlog hcnt hfd)

lemma Moves.asked (q : Request) (hq : q.isLoadProgram = false) (s : Loader) :
    Moves kernel s (s.asked kernel q) := Relation.ReflTransGen.single (.asked q hq)

lemma attachRules_moves (kernel : Kernel) : AttachRules kernel (Moves kernel) where
  refl := Moves.refl
  trans := Moves.trans
  asks q hq s := Moves.asked q (Request.isLoadProgram_of_isEvent hq) s
  slots _ _ _ s := Moves.asked _ rfl s
  events _ _ := Moves.other rfl rfl rfl

lemma mapRules_moves (kernel : Kernel) : MapRules kernel (Moves kernel) where
  refl := Moves.refl
  trans := Moves.trans
  asks q hq := Moves.asked q (Request.isLoadProgram_of_isCreate hq)
  maps s t h := Moves.other (by rw [h]) (by rw [h]) (by rw [h])

lemma moves_pure {α : Type} (a : α) : Respects (Moves kernel) (pure a : Load α) :=
  Respects.pure Moves.refl a

lemma moves_bind {α β : Type} {m : Load α} {f : α → Load β} (hm : Respects (Moves kernel) m)
    (hf : ∀ a, Respects (Moves kernel) (f a)) : Respects (Moves kernel) (m >>= f) :=
  Respects.bind Moves.trans hm hf

/-- A change to any variable other than the program table. -/
lemma moves_modify {f : Loader → Loader} (hlog : ∀ s, (f s).log = s.log)
    (hcnt : ∀ s, (f s).progCnt = s.progCnt) (hfd : ∀ s, (f s).progFd = s.progFd) :
    Respects (Moves kernel) (modify f : Load PUnit) :=
  Respects.modify fun s => Moves.other (hlog s) (hcnt s) (hfd s)

lemma moves_ask {q : Request} (hq : q.isEvent = true) :
    Respects (Moves kernel) (ask kernel q) := (attachRules_moves kernel).respects_ask hq

theorem moves_loadAndAttach (event prog : List UInt8) :
    Respects (Moves kernel) (loadAndAttach kernel event prog) := by
  intro s r t h
  rcases loadAndAttach_cases h with ⟨-, rfl⟩ | ⟨k, -, ⟨hneg, -, rfl⟩ | ⟨hroom, hpos, hattach⟩⟩
  · exact Moves.refl _
  · exact Relation.ReflTransGen.single (.refused _ _ hneg)
  · exact Moves.trans _ _ _ (Relation.ReflTransGen.single (.loaded _ _ hroom hpos))
      ((attachRules_moves kernel).respects_attach _ _ hattach)

lemma moves_isProcessed (i : ℕ) : Respects (Moves kernel) (isProcessed i) := by
  refine Respects.get_bind fun s => ?_
  split
  · exact moves_pure _
  · exact Respects.fail _

lemma moves_setProcessed (i : ℕ) : Respects (Moves kernel) (setProcessed i) := by
  rw [setProcessed]
  split
  · exact moves_modify (fun _ => rfl) (fun _ => rfl) (fun _ => rfl)
  · exact Respects.fail _

lemma moves_scanSection (elf : Elf) (scan : Scan) (i : ℕ) :
    Respects (Moves kernel) (scanSection elf scan i) := by
  rw [scanSection]
  split
  · exact moves_pure _
  split
  · refine moves_bind (moves_setProcessed i) fun _ => ?_
    split
    · exact Respects.fail _
    · exact moves_bind (moves_modify (fun _ => rfl) (fun _ => rfl) (fun _ => rfl)) fun _ =>
        moves_pure _
  split
  · refine moves_bind (moves_setProcessed i) fun _ => ?_
    split
    · exact moves_pure _
    · exact moves_bind (moves_modify (fun _ => rfl) (fun _ => rfl) (fun _ => rfl)) fun _ =>
        moves_pure _
  split
  · exact moves_bind (moves_modify (fun _ => rfl) (fun _ => rfl) (fun _ => rfl)) fun _ =>
      moves_pure _
  split <;> exact moves_pure _

lemma moves_scanSections (elf : Elf) (scan : Scan) (is : List ℕ) :
    Respects (Moves kernel) (scanSections elf scan is) := by
  induction is generalizing scan with
  | nil => exact moves_pure _
  | cons i is ih =>
    refine moves_bind (moves_scanSection elf scan i) fun next => ?_
    cases next with
    | none => exact moves_pure _
    | some scan => exact ih scan

lemma moves_relocateSection (symbols : List Sym) (nrMaps : ℕ) (elf : Elf) (i : ℕ) :
    Respects (Moves kernel) (relocateSection symbols nrMaps elf i) := by
  refine moves_bind (moves_isProcessed i) fun done => ?_
  split
  · exact moves_pure _
  split
  · exact moves_pure _
  split
  · exact moves_pure _
  split
  · exact moves_pure _
  split
  · exact moves_pure _
  exact moves_bind (moves_setProcessed i) fun _ => Respects.get_bind fun s =>
    moves_bind (Respects.pureOr Moves.refl _) fun _ => moves_pure _

lemma moves_loadPrograms (elf : Elf) (ret : ℤ) (is : List ℕ) :
    Respects (Moves kernel) (loadPrograms kernel elf ret is) := by
  induction is generalizing ret with
  | nil => exact moves_pure _
  | cons i is ih =>
    refine moves_bind (moves_isProcessed i) fun done => ?_
    split
    · exact ih ret
    split
    · exact ih ret
    refine moves_bind (Respects.pureOr Moves.refl _) fun found => ?_
    split
    · refine moves_bind (moves_loadAndAttach _ _) fun r => ?_
      split
      · exact moves_pure _
      · exact ih r
    · exact ih ret

lemma moves_linkPrograms (elf : Elf) (symbols : List UInt8) (nrMaps : ℕ) :
    Respects (Moves kernel) (linkPrograms kernel elf symbols nrMaps) :=
  moves_bind (Respects.foldlM Moves.refl Moves.trans (moves_relocateSection _ _) _ _) fun elf' =>
    moves_loadPrograms elf' 1 _

lemma moves_loadScanned (qsort : Qsort) (fixupMap : Option FixupMap) (elf : Elf) (scan : Scan) :
    Respects (Moves kernel) (loadScanned kernel qsort fixupMap elf scan) := by
  rw [loadScanned]
  split
  · exact moves_pure _
  split
  · exact moves_linkPrograms _ _ _
  refine moves_bind ((mapRules_moves kernel).respects_loadElfMapsSection _ _ _ _) fun nrMaps => ?_
  split
  · exact moves_pure _
  refine moves_bind ((mapRules_moves kernel).respects_loadMaps _ _ _) fun err => ?_
  split
  · exact moves_pure _
  exact moves_bind (moves_modify (fun _ => rfl) (fun _ => rfl) (fun _ => rfl)) fun _ =>
    moves_bind (moves_setProcessed _) fun _ => moves_linkPrograms _ _ _

/-- A whole load is a sequence of moves, however it ends. -/
theorem moves_doLoadBpfFile (qsort : Qsort) (path : List UInt8) (file : Option Elf)
    (fixupMap : Option FixupMap) :
    Respects (Moves kernel) (doLoadBpfFile kernel qsort path file fixupMap) := by
  refine moves_bind (moves_modify (fun _ => rfl) (fun _ => rfl) (fun _ => rfl)) fun _ =>
    moves_bind (moves_ask rfl) fun fd => ?_
  split
  · exact moves_pure _
  split
  · exact moves_pure _
  refine moves_bind ((attachRules_moves kernel).respects_writeKprobeEvents _) fun _ =>
    moves_bind (moves_scanSections _ _ _) fun scan => ?_
  cases scan with
  | none => exact moves_pure _
  | some scan =>
    exact moves_bind (moves_loadScanned _ _ _ _) fun ret => moves_bind (moves_ask rfl) fun _ =>
      moves_pure _

end Functions

section Invariants

variable {kernel : Kernel}

/-- The descriptors of the programs that the kernel accepted. -/
def granted (log : Log) : List Int32 :=
  (log.filter fun e => e.1.isLoadProgram && !decide (e.2.ret < 0)).map fun e => e.2.ret

/-- The table of programs is exactly what the kernel accepted. -/
structure TableOk (s : Loader) : Prop where
  room : s.progCnt ≤ maxProgs
  table : (List.range s.progCnt).map s.progFd = granted s.log

lemma granted_append (log log' : Log) : granted (log ++ log') = granted log ++ granted log' := by
  simp [granted]

lemma map_range_update (f : ℕ → Int32) (n : ℕ) (fd : Int32) :
    (List.range (n + 1)).map (Function.update f n fd) = (List.range n).map f ++ [fd] := by
  rw [List.range_succ, List.map_append, List.map_singleton, Function.update_self]
  congr 1
  refine List.map_congr_left fun i hi => Function.update_of_ne ?_ _ _
  exact (List.mem_range.mp hi).ne

@[simp] lemma isLoadProgram_loadRequest (s : Loader) (type : ProgType) (prog : List UInt8) :
    (loadRequest s type prog).isLoadProgram = true := rfl

lemma Move.room {s t : Loader} (h : Move kernel s t) (hs : s.progCnt ≤ maxProgs) :
    t.progCnt ≤ maxProgs := by
  cases h with
  | asked q hq => exact hs
  | refused type prog hneg => exact hs
  | loaded type prog hroom hpos => exact hroom
  | other hlog hcnt hfd => exact hcnt ▸ hs

lemma Move.tableOk {s t : Loader} (h : Move kernel s t) (hs : TableOk s) : TableOk t := by
  refine ⟨h.room hs.room, ?_⟩
  cases h with
  | asked q hq =>
    have hnone : granted [(q, kernel s.log q)] = [] := by simp [granted, hq]
    rw [asked_log, granted_append, hnone, List.append_nil]
    exact hs.table
  | refused type prog hneg =>
    have hnone :
        granted [(loadRequest s type prog, kernel s.log (loadRequest s type prog))] = [] := by
      simp [granted, hneg]
    rw [asked_log, granted_append, hnone, List.append_nil]
    exact hs.table
  | loaded type prog hroom hpos =>
    have hone : granted [(loadRequest s type prog, kernel s.log (loadRequest s type prog))] =
        [(kernel s.log (loadRequest s type prog)).ret] := by
      simp [granted, hpos]
    simp only [Loader.recordProg, asked_log, granted_append, hone, ← hs.table]
    exact map_range_update _ _ _
  | other hlog hcnt hfd =>
    rw [hlog, hcnt, hfd]
    exact hs.table

lemma Move.log {s t : Loader} (h : Move kernel s t) :
    ∃ new, t.log = s.log ++ new ∧ Answered kernel s.log new := by
  cases h with
  | asked q hq => exact ⟨_, rfl, answered_singleton _ _ _⟩
  | refused type prog hneg => exact ⟨_, rfl, answered_singleton _ _ _⟩
  | loaded type prog hroom hpos => exact ⟨_, rfl, answered_singleton _ _ _⟩
  | other hlog hcnt hfd => exact ⟨[], by rw [hlog, List.append_nil], trivial⟩

lemma Moves.room {s t : Loader} (h : Moves kernel s t) (hs : s.progCnt ≤ maxProgs) :
    t.progCnt ≤ maxProgs := by
  induction h with
  | refl => exact hs
  | tail _ hmove ih => exact hmove.room ih

lemma Moves.tableOk {s t : Loader} (h : Moves kernel s t) (hs : TableOk s) : TableOk t := by
  induction h with
  | refl => exact hs
  | tail _ hmove ih => exact hmove.tableOk ih

lemma Moves.log {s t : Loader} (h : Moves kernel s t) :
    ∃ new, t.log = s.log ++ new ∧ Answered kernel s.log new := by
  induction h with
  | refl => exact ⟨[], by rw [List.append_nil], trivial⟩
  | tail _ hmove ih =>
    obtain ⟨new, hnew, hans⟩ := ih
    obtain ⟨last, hlast, hans'⟩ := hmove.log
    rw [hnew] at hlast hans'
    exact ⟨new ++ last, by rw [hlast, List.append_assoc], answered_append.mpr ⟨hans, hans'⟩⟩

/-- What was said on the way is what the kernel answered. -/
lemma Moves.answered {s t : Loader} (h : Moves kernel s t) {new : Log}
    (hnew : t.log = s.log ++ new) : Answered kernel s.log new := by
  obtain ⟨new', hnew', hans⟩ := h.log
  rw [hnew, List.append_cancel_left_eq] at hnew'
  exact hnew' ▸ hans

end Invariants

section Runs

/-- A call of `load_bpf_file` or `load_bpf_file_fixup_map`. -/
structure LoadCall where
  path : List UInt8
  file : Option Elf
  fixupMap : Option FixupMap

/-- The state of the process after a call; `none` once it has met a fault. -/
def loadStep (kernel : Kernel) (qsort : Qsort) (s : Option Loader) (c : LoadCall) :
    Option Loader :=
  s.bind fun s =>
    match doLoadBpfFile kernel qsort c.path c.file c.fixupMap s with
    | .ok (_, t) => some t
    | .error _ => none

variable {kernel : Kernel} {qsort : Qsort}

lemma loadStep_moves {s t : Loader} {c : LoadCall}
    (h : loadStep kernel qsort (some s) c = some t) : Moves kernel s t := by
  rw [loadStep, Option.bind_some] at h
  cases hrun : doLoadBpfFile kernel qsort c.path c.file c.fixupMap s with
  | error e => simp [hrun] at h
  | ok x =>
    obtain ⟨r, u⟩ := x
    simp only [hrun, Option.some.injEq] at h
    subst h
    exact moves_doLoadBpfFile qsort c.path c.file c.fixupMap hrun

/-- What moves preserve holds after any calls. -/
lemma run_loads {P : Loader → Prop} (hP : ∀ s t, Moves kernel s t → P s → P t) {s t : Loader}
    (hs : P s) {cs : List LoadCall} (h : run (loadStep kernel qsort) (some s) cs = some t) :
    P t := by
  have hinv : ∀ o c, (∀ u, o = some u → P u) →
      ∀ u, loadStep kernel qsort o c = some u → P u := by
    intro o c ho u hu
    cases o with
    | none => cases hu
    | some v => exact hP v u (loadStep_moves hu) (ho v rfl)
  exact run_invariant (loadStep kernel qsort) hinv (fun u hu => Option.some.inj hu ▸ hs) cs t h

/-- However many objects a process loads, and whichever loads fail on the way, `prog_fd`
lists exactly the programs that the kernel accepted, in the order in which it did, and
never more than there is room for; a later load leaves the entries of earlier ones alone. -/
theorem progFd_lists_accepted (kernel : Kernel) (qsort : Qsort) (cs ds : List LoadCall)
    (t u : Loader) (ht : run (loadStep kernel qsort) (some Loader.initial) cs = some t)
    (hu : run (loadStep kernel qsort) (some t) ds = some u) :
    u.progCnt ≤ maxProgs ∧ (List.range u.progCnt).map u.progFd = granted u.log ∧
      t.progCnt ≤ u.progCnt ∧ ∀ j < t.progCnt, u.progFd j = t.progFd j := by
  have htable : TableOk t :=
    run_loads (fun _ _ hm h => hm.tableOk h) ⟨Nat.zero_le _, rfl⟩ ht
  have hmoves : Moves kernel t u :=
    run_loads (P := Moves kernel t) (fun _ _ hm h => Moves.trans _ _ _ h hm) (Moves.refl t) hu
  have htable' := hmoves.tableOk htable
  obtain ⟨new, hnew, -⟩ := hmoves.log
  have hext : (List.range u.progCnt).map u.progFd =
      (List.range t.progCnt).map t.progFd ++ granted new := by
    rw [htable'.table, htable.table, hnew, granted_append]
  have hle : t.progCnt ≤ u.progCnt := by
    have := congrArg List.length hext
    simp only [List.length_map, List.length_range, List.length_append] at this
    omega
  refine ⟨htable'.room, htable'.table, hle, fun j hj => ?_⟩
  have hget := congrArg (fun l => l[j]?) hext
  simpa [hj, List.getElem?_append_left, show j < u.progCnt by omega] using hget

/-- Two loads of an object with a failed one between them. -/
theorem progFd_lists_accepted_sample : ∃ u,
    run (loadStep grantingKernel insertionQsort) (some Loader.initial)
      [⟨ascii "tailcall_kern.o", some sampleObject, none⟩, ⟨ascii "missing.o", none, none⟩,
        ⟨ascii "tailcall_kern.o", some sampleObject, none⟩] = some u ∧
    u.progCnt = 2 ∧ [u.progFd 0, u.progFd 1] = granted u.log := by
  let cs : List LoadCall :=
    [⟨ascii "tailcall_kern.o", some sampleObject, none⟩, ⟨ascii "missing.o", none, none⟩]
  let ds : List LoadCall := [⟨ascii "tailcall_kern.o", some sampleObject, none⟩]
  have hrun : ((run (loadStep grantingKernel insertionQsort) (some Loader.initial)
      (cs ++ ds)).any fun u => u.progCnt = 2) = true := by decide +kernel
  obtain ⟨u, hu, hcount⟩ := (Option.any_eq_true _ _).mp hrun
  have hcount : u.progCnt = 2 := of_decide_eq_true hcount
  have hall := hu
  rw [run_append] at hu
  cases ht : run (loadStep grantingKernel insertionQsort) (some Loader.initial) cs with
  | none =>
    rw [ht] at hu
    cases hu
  | some t =>
    rw [ht] at hu
    obtain ⟨-, hlist, -⟩ := progFd_lists_accepted _ _ cs ds t u ht hu
    rw [hcount] at hlist
    exact ⟨u, hall, hcount, hlist⟩

end Runs

end FilterReduce.BpfLoad
