import FilterReduce.Linking

/-!
# Program arrays

A section `kprobe/1` is not attached to a function `1` but put into slot 1 of the
program array, from where other programs jump to it. The slots that the kernel
holds after a load are read off the log.
-/
namespace FilterReduce.BpfLoad

open CString ElfObject StateProgram

section Slots

def stored (array index : Int32) : Request × Answer → Option Int32
  | (.updateElem fd key value, a) =>
    if fd = array ∧ key = index ∧ ¬ a.ret < 0 then some value else none
  | _ => none

/-- The program in a slot: the last one that the kernel accepted for it. -/
def slotAt (log : Log) (array index : Int32) : Option Int32 :=
  log.reverse.findSome? (stored array index)

lemma slotAt_append (log new : Log) (array index : Int32) :
    slotAt (log ++ new) array index = (slotAt new array index).or (slotAt log array index) := by
  rw [slotAt, List.reverse_append, List.findSome?_append]
  rfl

lemma slotAt_eq_none {new : Log} {array index : Int32}
    (h : ∀ e ∈ new, stored array index e = none) : slotAt new array index = none :=
  List.findSome?_eq_none_iff.mpr fun e he => h e (List.mem_reverse.mp he)

lemma stored_isEvent {e : Request × Answer} (he : e.1.isEvent = true) (array index : Int32) :
    stored array index e = none := by
  obtain ⟨q, a⟩ := e
  cases q <;> first | rfl | cases he

lemma stored_isCreate {e : Request × Answer} (he : e.1.isCreate = true) (array index : Int32) :
    stored array index e = none := by
  obtain ⟨q, a⟩ := e
  cases q <;> first | rfl | cases he

lemma stored_isLoadProgram {e : Request × Answer} (he : e.1.isLoadProgram = true)
    (array index : Int32) : stored array index e = none := by
  obtain ⟨q, a⟩ := e
  cases q <;> first | rfl | cases he

def WantsSlot (event : List UInt8) (index : Int32) : Prop :=
  ∃ k : Kind, k.is event = true ∧ k.hook event = .slot index

structure Attaches (progArrayFd : Int32) (event : List UInt8) (c : Submission) : Prop where
  loads : c.entry.1.isLoadProgram = true
  installs : ∃ (k : Kind) (efd : Int32), k.is event = true ∧
    Installs progArrayFd efd c.entry.2.ret (k.hook event) c.talk

variable {progArrayFd array index : Int32} {event : List UInt8} {c : Submission}

lemma Attaches.slotAt_eq (h : Attaches progArrayFd event c) (array index : Int32) :
    slotAt c.log array index = slotAt c.talk array index := by
  have hentry : slotAt [c.entry] array index = none :=
    slotAt_eq_none fun e he => List.mem_singleton.mp he ▸ stored_isLoadProgram h.loads _ _
  rw [Submission.log, ← List.singleton_append, slotAt_append, hentry, Option.or_none]

lemma Attaches.slotAt_own (h : Attaches progArrayFd event c) (hwant : WantsSlot event index) :
    slotAt c.log progArrayFd index = some c.entry.2.ret := by
  obtain ⟨k, efd, hk, hinst⟩ := h.installs
  obtain ⟨k', hk', hhook⟩ := hwant
  rw [Kind.is_unique hk hk', hhook] at hinst
  obtain ⟨a, hok, htalk⟩ := hinst
  rw [h.slotAt_eq, htalk]
  simp [slotAt, stored, hok]

lemma Attaches.slotAt_other (h : Attaches progArrayFd event c)
    (hother : ¬ (array = progArrayFd ∧ WantsSlot event index)) :
    slotAt c.log array index = none := by
  obtain ⟨k, efd, hk, hinst⟩ := h.installs
  rw [h.slotAt_eq]
  by_cases hslot : ∃ i, k.hook event = .slot i
  · obtain ⟨i, hhook⟩ := hslot
    rw [hhook] at hinst
    obtain ⟨a, -, htalk⟩ := hinst
    refine slotAt_eq_none fun e he => ?_
    rw [htalk, List.mem_singleton] at he
    rw [he, stored, if_neg]
    rintro ⟨rfl, rfl, -⟩
    exact hother ⟨rfl, k, hk, hhook⟩
  · exact slotAt_eq_none fun e he =>
      stored_isEvent (hinst.isEvent (fun i hi => hslot ⟨i, hi⟩) e he) _ _

variable {events : List (List UInt8)} {cs : List Submission}

/-- A slot that no program of a pass asks for, or one of another array, stays as it is. -/
lemma slotAt_pass_other (h : List.Forall₂ (Attaches progArrayFd) events cs)
    (hother : ∀ event ∈ events, ¬ (array = progArrayFd ∧ WantsSlot event index)) :
    slotAt (cs.flatMap Submission.log) array index = none := by
  induction h with
  | nil => rfl
  | cons hone _ ih =>
    rw [List.flatMap_cons, slotAt_append, ih fun e he => hother e (by simp [he]),
      hone.slotAt_other (hother _ (by simp))]
    rfl

theorem slotAt_pass (h : List.Forall₂ (Attaches progArrayFd) events cs) {k : ℕ}
    (hk : events[k]? = some event) (hwant : WantsSlot event index)
    (hlast : ∀ (j : ℕ) (e : List UInt8), k < j → events[j]? = some e → ¬ WantsSlot e index) :
    ∃ c, cs[k]? = some c ∧
      slotAt (cs.flatMap Submission.log) progArrayFd index = some c.entry.2.ret := by
  induction h generalizing k with
  | nil => simp at hk
  | @cons _ c _ cs hone hrest ih =>
    rw [List.flatMap_cons, slotAt_append]
    cases k with
    | zero =>
      obtain rfl := Option.some.inj hk
      refine ⟨c, rfl, ?_⟩
      rw [slotAt_pass_other hrest, hone.slotAt_own hwant]
      · rfl
      · rintro e he ⟨-, hwants⟩
        obtain ⟨j, hj⟩ := List.getElem?_of_mem he
        exact hlast (j + 1) e (by omega) hj hwants
    | succ k =>
      obtain ⟨c', hc', hslot⟩ := ih hk fun j e hj he => hlast (j + 1) e (by omega) he
      exact ⟨c', hc', by rw [hslot]; rfl⟩

end Slots

section Loads

/-- The `k`th program of the object is the last to ask for this slot. -/
structure LastInSlot (elf : Elf) (k : ℕ) (index : Int32) : Prop where
  wants : ∃ i, (progIdx elf)[k]? = some i ∧ WantsSlot (nameOf elf i) index
  last : ∀ j i, k < j → (progIdx elf)[j]? = some i → ¬ WantsSlot (nameOf elf i) index

variable {kernel : Kernel} {qsort : Qsort} {path : List UInt8} {fixupMap : Option FixupMap}
  {elf elf' : Elf} {s t : Loader} {symData : List UInt8} {n : ℕ} {maps : Log}
  {cs : List Submission} (h : LoadResult kernel qsort path fixupMap elf s t elf' symData n maps cs)

include h

lemma LoadResult.attaches :
    List.Forall₂ (Attaches t.progArrayFd) ((progIdx elf).map (nameOf elf)) cs := by
  rw [List.forall₂_map_left_iff, List.forall₂_iff_get]
  refine ⟨h.length.symm, fun k hk hc => ?_⟩
  obtain ⟨-, -, kind, hkind, hreq, hinst⟩ :=
    h.each k _ _ (List.getElem?_eq_getElem hk) (List.getElem?_eq_getElem hc)
  exact ⟨by rw [List.get_eq_getElem, hreq]; rfl, kind, _, hkind, hinst⟩

lemma LoadResult.slotAt_eq (array index : Int32) :
    slotAt t.log array index =
      (slotAt (cs.flatMap Submission.log) array index).or (slotAt s.log array index) := by
  obtain ⟨file, closed, opening, ⟨-, probes, cleared, closed', hopening⟩, hlog⟩ := h.log
  have hopen : slotAt opening array index = none := by rw [hopening]; rfl
  have hmaps : slotAt maps array index = none :=
    slotAt_eq_none fun e he => stored_isCreate (h.creates e he) _ _
  have hclose : slotAt [(Request.close file.ret, closed)] array index = none := rfl
  rw [hlog, slotAt_append, slotAt_append, slotAt_append, slotAt_append, hopen, hmaps, hclose,
    Option.or_none, Option.or_none, Option.none_or]

lemma LoadResult.slot_of_last {k : ℕ} {index : Int32} (hk : LastInSlot elf k index) :
    ∃ c, cs[k]? = some c ∧ slotAt t.log t.progArrayFd index = some c.entry.2.ret := by
  obtain ⟨i, hi, hwant⟩ := hk.wants
  obtain ⟨c, hc, hslot⟩ := slotAt_pass h.attaches (by rw [List.getElem?_map, hi]; rfl) hwant (by
    intro j e hj he
    rw [List.getElem?_map, Option.map_eq_some_iff] at he
    obtain ⟨i', hi', rfl⟩ := he
    exact hk.last j i' hj hi')
  exact ⟨c, hc, by rw [h.slotAt_eq, hslot]; rfl⟩

lemma LoadResult.slot {k : ℕ} {index : Int32} (hk : LastInSlot elf k index) :
    slotAt t.log t.progArrayFd index = some (t.progFd (s.progCnt + k)) := by
  obtain ⟨c, hc, hslot⟩ := h.slot_of_last hk
  obtain ⟨i, hi, -⟩ := hk.wants
  obtain ⟨-, hfd, -⟩ := h.each k i c hi hc
  rw [hslot, hfd]

lemma LoadResult.slot_other {array index : Int32} (hother : ∀ i ∈ progIdx elf,
      ¬ (array = t.progArrayFd ∧ WantsSlot (nameOf elf i) index)) :
    slotAt t.log array index = slotAt s.log array index := by
  rw [h.slotAt_eq, slotAt_pass_other h.attaches fun e he => ?_, Option.none_or]
  obtain ⟨i, hi, rfl⟩ := List.mem_map.mp he
  exact hother i hi

omit h

/-- What a load that returned zero does to the program arrays of the kernel: each slot of the
current array that sections of the object ask for holds the program of the last of them,
and all other slots, those of other arrays included, are as they were. -/
theorem load_fills_prog_array (kernel : Kernel) (qsort : Qsort) (path : List UInt8) (elf : Elf)
    (fixupMap : Option FixupMap) (s t : Loader)
    (h : doLoadBpfFile kernel qsort path (some elf) fixupMap s = .ok (0, t)) :
    (∀ k index, LastInSlot elf k index →
      slotAt t.log t.progArrayFd index = some (t.progFd (s.progCnt + k))) ∧
    ∀ array index,
      (∀ i ∈ progIdx elf, ¬ (array = t.progArrayFd ∧ WantsSlot (nameOf elf i) index)) →
      slotAt t.log array index = slotAt s.log array index := by
  obtain ⟨_, heq, hstages⟩ := load_zero h
  obtain rfl := Option.some.inj heq
  obtain ⟨elf', symData, n, maps, cs, hres⟩ := load_result hstages
  exact ⟨fun k index hk => hres.slot hk, fun array index hother => hres.slot_other hother⟩

lemma sampleObject_lastInSlot : LastInSlot sampleObject 0 1 := by
  obtain ⟨hidx, hname⟩ := sampleObject_programs
  refine ⟨⟨4, by rw [hidx]; rfl, ?_⟩, fun j i hj hi => ?_⟩
  · rw [hname]
    exact ⟨.kprobe, by decide, by decide⟩
  · rw [hidx, List.getElem?_eq_none (Nat.succ_le_of_lt hj)] at hi
    cases hi

theorem load_fills_prog_array_sample : ∃ t,
    loadBpfFile grantingKernel insertionQsort (ascii "tailcall_kern.o") (some sampleObject)
      Loader.initial = .ok (0, t) ∧
    slotAt t.log t.progArrayFd 1 = some (t.progFd 0) := by
  obtain ⟨t, ht, -⟩ := sampleObject_loads
  exact ⟨t, ht, (load_fills_prog_array _ _ _ _ none _ t ht).1 0 1 sampleObject_lastInSlot⟩

end Loads

section TailCalls

/-- The program that a tail call enters when this instruction loaded its array. -/
def Insn.jump (log : Log) (insn : Insn) (index : Int32) : Option Int32 :=
  if insn.code = bpfLdImmDw ∧ insn.srcReg = bpfPseudoMapFd then slotAt log insn.imm index
  else none

variable {kernel : Kernel} {qsort : Qsort} {path : List UInt8} {elf elf' : Elf} {s t : Loader}
  {n : ℕ} {maps : Log} {cs : List Submission}

lemma LoadResult.jump_eq {shndx strtabidx size i j m : ℕ} {symData symData' : List UInt8}
    {decls : List Decl} (h : LoadResult kernel qsort path none elf s t elf' symData' n maps cs)
    (hd : Declares elf shndx strtabidx symData size decls)
    (hrels : ∀ rel ∈ relsOf elf i, PointsToRecord (symtab symData) size decls (dataOf elf i) rel)
    (hm : lastTo (recordAt (symtab symData) size decls) (relsOf elf i) m = some j) :
    ∃ insn, (insns ((dataOf elf' i).take (8 * ((dataOf elf' i).length / 8))))[m]? = some insn ∧
      insn.jump t.log = slotAt t.log (t.mapFd j) := by
  obtain ⟨-, -, hready, -⟩ := h.maps_ready hd
  obtain ⟨rel, hrel, rfl, -⟩ := lastTo_some hm
  obtain ⟨insn, hinsn, hcode⟩ := (hrels rel hrel).insn
  refine ⟨insn.link (t.mapFd j), ?_, ?_⟩
  · rw [h.submitted_linked hd hrels, BpfLoad.linked, List.getElem?_mapIdx, hinsn,
      target_ready hd.layout.size_pos hready fun r hr => (hrels r hr).record, hm]
    rfl
  · funext index
    simp [Insn.jump, Insn.link, hcode]

/-- After a load that returned zero, every tail call of the object through its last program
array enters the program of the last section that is named for the slot. -/
theorem tail_calls_enter_named_sections (kernel : Kernel) (qsort : Qsort) (path : List UInt8)
    (elf : Elf) (s t : Loader) (shndx strtabidx size array : ℕ) (symData : List UInt8)
    (decls : List Decl) (h : loadBpfFile kernel qsort path (some elf) s = .ok (0, t))
    (hd : Declares elf shndx strtabidx symData size decls) (harray : LastProgArray decls array)
    (hrels : ∀ i ∈ progIdx elf, ∀ rel ∈ relsOf elf i,
      PointsToRecord (symtab symData) size decls (dataOf elf i) rel) :
    ∃ es : Log, loadsOf t.log = loadsOf s.log ++ es ∧ es.length = (progIdx elf).length ∧
      ∀ (c i m : ℕ) (e : Request × Answer), (progIdx elf)[c]? = some i → es[c]? = some e →
        lastTo (recordAt (symtab symData) size decls) (relsOf elf i) m = some array →
        ∃ (type : ProgType) (prog : List UInt8) (insn : Insn),
          e.1 = .loadProgram type prog (licenseOf elf) (versionOf elf) ∧
          (insns prog)[m]? = some insn ∧
          ∀ k index, LastInSlot elf k index →
            ∃ e' : Request × Answer, es[k]? = some e' ∧ insn.jump t.log index = some e'.2.ret := by
  obtain ⟨_, heq, hstages⟩ := load_zero h
  obtain rfl := Option.some.inj heq
  obtain ⟨elf', symData', n, maps, cs, hres⟩ := load_result hstages
  refine ⟨_, hres.submitted, by rw [List.length_map, hres.length], fun c i m e hi he hm => ?_⟩
  obtain ⟨sub, hsub, rfl⟩ := Option.map_eq_some_iff.mp (List.getElem?_map .. ▸ he)
  obtain ⟨-, -, kind, -, hreq, -⟩ := hres.each c i sub hi hsub
  obtain ⟨insn, hinsn, hjump⟩ := hres.jump_eq hd (hrels i (List.mem_of_getElem? hi)) hm
  refine ⟨_, _, insn, hreq, hinsn, fun k index hk => ?_⟩
  obtain ⟨-, -, -, hfd⟩ := hres.maps_ready hd
  obtain ⟨sub', hsub', hslot⟩ := hres.slot_of_last hk
  exact ⟨sub'.entry, by rw [List.getElem?_map, hsub']; rfl,
    by rw [hjump, ← hfd array harray, hslot]⟩

/-- The program of the sample loads `jmp_table` first; a tail call through its slot 1 enters
the program again. -/
theorem tail_calls_enter_named_sections_sample : ∃ t e type prog license version insn,
    loadBpfFile grantingKernel insertionQsort (ascii "tailcall_kern.o") (some sampleObject)
      Loader.initial = .ok (0, t) ∧ loadsOf t.log = [e] ∧
    e.1 = .loadProgram type prog license version ∧ (insns prog)[0]? = some insn ∧
    insn.jump t.log 1 = some e.2.ret := by
  obtain ⟨t, ht, -⟩ := sampleObject_loads
  have hidx := sampleObject_programs.1
  obtain ⟨es, hlog, hlen, heach⟩ := tail_calls_enter_named_sections _ _ _ _ _ t _ _ _ 1 _ _ ht
    sampleObject_declares sampleDecls_lastProgArray (by
      intro i hi
      rw [hidx, List.mem_singleton] at hi
      exact hi ▸ fun rel hrel => (sampleObject_namesMap rel hrel).toPointsToRecord)
  obtain ⟨e, rfl⟩ := List.length_eq_one_iff.mp (hidx ▸ hlen)
  obtain ⟨type, prog, insn, hreq, hinsn, hjump⟩ := heach 0 4 0 e (by rw [hidx]; rfl) rfl
    sampleObject_first_rel
  obtain ⟨e', he', hjump⟩ := hjump 0 1 sampleObject_lastInSlot
  obtain rfl := Option.some.inj he'
  exact ⟨t, e, type, prog, _, _, insn, ht, hlog, hreq, hinsn, hjump⟩

end TailCalls

end FilterReduce.BpfLoad
