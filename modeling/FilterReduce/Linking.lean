import FilterReduce.LoadFile

/-!
# Linking keeps the meaning of a program

In the object a program refers to a map by a symbol; the kernel reads a
descriptor. A load that succeeds hands over programs that, read by the kernel, say
what the source said, with each declared map created as declared.
-/
namespace FilterReduce.BpfLoad

open ByteLayout ElfObject StateProgram

section Maps

def Decl.request (mapFd : ℕ → Int32) (d : Decl) : Request :=
  mapRequest mapFd ⟨-1, d.name, 0, d.mapDef⟩

/-- An object that declares these maps; a map of maps comes after the one it refers to. -/
structure Declares (elf : Elf) (shndx strtabidx : ℕ) (symData : List UInt8) (size : ℕ)
    (decls : List Decl) : Prop where
  scan : scanOf elf = ⟨some shndx, some (symData, strtabidx)⟩
  layout : MapsLayout elf shndx strtabidx symData size decls
  inner : ∀ (k : ℕ) (d : Decl), decls[k]? = some d → d.mapDef.isMapInMap →
    d.mapDef.innerMapIdx.toNat < k

lemma inner_of_flat {decls : List Decl} (h : ∀ d ∈ decls, ¬ d.mapDef.isMapInMap) (k : ℕ) (d : Decl)
    (hd : decls[k]? = some d) (hm : d.mapDef.isMapInMap) : d.mapDef.innerMapIdx.toNat < k :=
  absurd hm (h d (List.mem_of_getElem? hd))

lemma Declares.innerOk {elf : Elf} {shndx strtabidx size : ℕ} {symData : List UInt8}
    {decls : List Decl} (h : Declares elf shndx strtabidx symData size decls) {k : ℕ} {d : Decl}
    (hk : decls[k]? = some d) (fd : Int32) (name : List UInt8) (off : ℕ) :
    InnerOk ⟨fd, name, off, d.mapDef⟩ := by
  intro hm
  have hlt : k < decls.length := (List.getElem?_eq_some_iff.mp hk).1
  exact lt_of_lt_of_le ((h.inner k d hk hm).trans hlt) h.layout.count

structure LastProgArray (decls : List Decl) (k : ℕ) : Prop where
  array : ∃ d : Decl, decls[k]? = some d ∧ d.mapDef.type = bpfMapTypeProgArray
  last : ∀ (j : ℕ) (d : Decl), k < j → decls[j]? = some d → d.mapDef.type ≠ bpfMapTypeProgArray

/-- A declared map after the load; `maps` is what was said to create the maps. -/
structure MapReady (t : Loader) (maps : Log) (size k : ℕ) (d : Decl) (a : Answer) : Prop where
  granted : ¬ a.ret < 0
  asked : maps[k]? = some (d.request t.mapFd, a)
  mapFd : t.mapFd k = a.ret
  mapData : t.mapData k = ⟨a.ret, d.name, k * size, d.mapDef⟩

variable {kernel : Kernel} {qsort : Qsort} {path : List UInt8} {elf elf' : Elf}
  {shndx strtabidx size n : ℕ} {symData symData' : List UInt8} {decls : List Decl} {s t : Loader}
  {maps : Log} {cs : List Submission}

/-- All declared maps are created, in the order of declaration, and recorded at their place.
The last program array among them is the one that programs are put into. -/
theorem LoadResult.maps_ready
    (h : LoadResult kernel qsort path none elf s t elf' symData' n maps cs)
    (hd : Declares elf shndx strtabidx symData size decls) :
    (symData' = symData ∧ n = decls.length ∧ t.mapDataCount = decls.length) ∧
      maps.length = decls.length ∧
      (∀ k d, decls[k]? = some d → ∃ a, MapReady t maps size k d a) ∧
      ∀ k, LastProgArray decls k → t.progArrayFd = t.mapFd k := by
  obtain ⟨strtabidx', hsym, u, v, -, hstage, ⟨hfd, hdata, harray⟩, hcount, hlog⟩ := h.symbols
  rw [hd.scan] at hsym hstage
  obtain ⟨rfl, rfl⟩ := Prod.mk.inj (Option.some.inj hsym)
  obtain ⟨records, hread', hrecords, -⟩ := loadElfMapsSection_layout qsort hd.layout u
  cases hstage with
  | @created _ n v₁ w hread hload =>
    rw [hread'] at hread
    obtain ⟨hn, rfl⟩ := Prod.mk.inj (Except.ok.inj hread)
    obtain rfl : decls.length = n := by exact_mod_cast hn
    have hlen := hd.layout.count
    have hinner : ∀ k < decls.length,
        InnerOk (({ u with mapData := records } : Loader).mapData (0 + k)) := by
      intro k hk
      simp only [Nat.zero_add, hrecords k _ (List.getElem?_eq_getElem hk)]
      exact hd.innerOk (List.getElem?_eq_getElem hk) _ _ _
    rcases loadMaps_eq kernel (show 0 + decls.length ≤ maxMaps by omega) hinner with
      ⟨hgrants, hrun⟩ | ⟨c, -, -, -, hrun⟩
    · rw [hrun] at hload
      obtain ⟨-, rfl⟩ := Prod.mk.inj (Except.ok.inj hload)
      obtain ⟨new, hnewlen, hcreated⟩ := created_grantMaps kernel hgrants
      obtain rfl : maps = new := List.append_cancel_left (hlog.symm.trans hcreated.log)
      refine ⟨⟨rfl, rfl, hcount⟩, hnewlen, fun k d hk => ?_, fun k hk => ?_⟩
      · have hk' : k < decls.length := (List.getElem?_eq_some_iff.mp hk).1
        obtain ⟨a, hpos, hentry, hfdk, hdatak⟩ := hcreated.each k hk'
        simp only [hrecords k d hk] at hentry hdatak
        refine ⟨a, hpos, ?_, hfd ▸ hfdk, hdata ▸ hdatak⟩
        rw [hentry]
        refine congrArg some (congrArg (fun q => (q, a)) (mapRequest_congr fun hmim => ?_))
        rw [hfd, fdsBefore, if_pos (hd.inner k d hk hmim)]
      · obtain ⟨d, hkd, htype⟩ := hk.array
        have hlt : k < decls.length := (List.getElem?_eq_some_iff.mp hkd).1
        rw [harray, hfd]
        refine hcreated.array k hlt (by simp only [hrecords k d hkd, htype]) fun j hkj hj => ?_
        have hjd := List.getElem?_eq_getElem hj
        simp only [hrecords j _ hjd]
        exact hk.last j _ hkj hjd
    · rw [hrun] at hload
      cases hload

lemma LoadResult.mem_log {fixupMap : Option FixupMap}
    (h : LoadResult kernel qsort path fixupMap elf s t elf' symData n maps cs)
    {e : Request × Answer} (he : e ∈ maps) : e ∈ t.log := by
  obtain ⟨file, closed, opening, -, hlog⟩ := h.log
  rw [hlog]
  simp [he]

end Maps

section Meaning

def createdFd (e : Request × Answer) : Option Int32 :=
  if e.1.isCreate ∧ ¬ e.2.ret < 0 then some e.2.ret else none

/-- No two maps were given the same descriptor. The loader closes none of them. -/
def DistinctMaps (log : Log) : Prop := (log.filterMap createdFd).Nodup

instance (log : Log) : Decidable (DistinctMaps log) := inferInstanceAs (Decidable (List.Nodup _))

def mapBehind (log : Log) (fd : Int32) : Option Request :=
  (log.find? fun e => createdFd e = some fd).map Prod.fst

lemma mapBehind_of_mem {log : Log} (hd : DistinctMaps log) {q : Request} {a : Answer}
    (hmem : (q, a) ∈ log) (hq : q.isCreate = true) (ha : ¬ a.ret < 0) :
    mapBehind log a.ret = some q := by
  have hfd : createdFd (q, a) = some a.ret := if_pos ⟨hq, ha⟩
  induction log with
  | nil => cases hmem
  | cons e log ih =>
    rw [mapBehind, List.find?_cons]
    by_cases he : createdFd e = some a.ret
    · -- the same descriptor once more is ruled out
      rw [DistinctMaps, List.filterMap_cons_some he, List.nodup_cons] at hd
      rcases List.mem_cons.mp hmem with rfl | hlog
      · simp [he]
      · exact absurd (List.mem_filterMap.mpr ⟨_, hlog, hfd⟩) hd.1
    · have hrest : DistinctMaps log := by
        refine List.Nodup.sublist ?_ hd
        exact (List.sublist_cons_self e log).filterMap createdFd
      rcases List.mem_cons.mp hmem with rfl | hlog
      · exact absurd hfd he
      · simpa [he, mapBehind] using ih hrest hlog

inductive Operand
  | value (srcReg : UInt8) (imm : Int32)
  | map (q : Option Request)
  deriving DecidableEq

def Insn.read (log : Log) (i : Insn) : (UInt8 × UInt8 × ℕ) × Operand :=
  (i.shape, if i.code = bpfLdImmDw ∧ i.srcReg = bpfPseudoMapFd then .map (mapBehind log i.imm)
    else .value i.srcReg i.imm)

/-- The declaration whose record a relocation's symbol points to, taken as an offset into the
maps section. -/
def recordAt (symbols : List Sym) (size : ℕ) (decls : List Decl) (rel : Rel) : Option ℕ :=
  (symbols[rel.sym]?).bind fun sym =>
    if sym.value % size = 0 ∧ sym.value / size < decls.length then some (sym.value / size)
    else none

/-- The declaration that a relocation names: its symbol is one of the maps section `shndx`. -/
def relDecl (shndx : ℕ) (symbols : List Sym) (size : ℕ) (decls : List Decl) (rel : Rel) :
    Option ℕ :=
  (symbols[rel.sym]?).bind fun sym =>
    if sym.shndx = shndx then recordAt symbols size decls rel else none

/-- A relocation of an instruction that loads an address, to the record of a map. -/
structure PointsToRecord (symbols : List Sym) (size : ℕ) (decls : List Decl) (data : List UInt8)
    (rel : Rel) : Prop where
  full : 8 * insnIdx rel + 8 ≤ data.length
  code : data[8 * insnIdx rel]? = some bpfLdImmDw
  record : (recordAt symbols size decls rel).isSome

/-- A relocation as a compiler makes it. -/
structure NamesMap (shndx : ℕ) (symbols : List Sym) (size : ℕ) (decls : List Decl)
    (data : List UInt8) (rel : Rel) : Prop extends PointsToRecord symbols size decls data rel where
  inMaps : ∀ sym, symbols[rel.sym]? = some sym → sym.shndx = shndx

/-- The program that the source means: an instruction with a relocation works on the map that
this names, the others on what they contain. -/
def sourceProgram (log : Log) (mapFd : ℕ → Int32) (shndx : ℕ) (symbols : List Sym) (size : ℕ)
    (decls : List Decl) (rels : List Rel) (data : List UInt8) :
    List ((UInt8 × UInt8 × ℕ) × Operand) :=
  (insns data).mapIdx fun i insn =>
    match lastTo (relDecl shndx symbols size decls) rels i with
    | some k => (insn.shape, .map ((decls[k]?).map (Decl.request mapFd)))
    | none => insn.read log

lemma NamesMap.relDecl_eq {shndx size : ℕ} {symbols : List Sym} {decls : List Decl}
    {data : List UInt8} {rel : Rel} (h : NamesMap shndx symbols size decls data rel) :
    relDecl shndx symbols size decls rel = recordAt symbols size decls rel := by
  rw [relDecl]
  cases hsym : symbols[rel.sym]? with
  | none => rw [recordAt, hsym]; rfl
  | some sym => rw [Option.bind_some, if_pos (h.inMaps sym hsym)]

lemma insns_take (data : List UInt8) : insns (data.take (8 * (data.length / 8))) = insns data := by
  apply List.ext_getElem?
  intro i
  rw [getElem?_insns, getElem?_insns, List.length_take]
  by_cases hi : 8 * i + 8 ≤ data.length
  · have hcut : data.take (8 * (data.length / 8)) = slice data 0 (8 * (data.length / 8)) := by
      simp [slice]
    rw [if_pos (by omega), if_pos hi, hcut, slice_slice (by omega), Nat.zero_add]
  · rw [if_neg (by omega), if_neg hi]

lemma lastTo_map {α β : Type} (f : Rel → Option α) (g : α → β) (rels : List Rel) (i : ℕ) :
    lastTo (fun rel => (f rel).map g) rels i = (lastTo f rels i).map g := by
  induction rels with
  | nil => rfl
  | cons rel rels ih =>
    rw [lastTo, lastTo, ih, Option.map_or]
    split <;> rfl

lemma lastTo_congr {α : Type} {f g : Rel → Option α} {rels : List Rel}
    (h : ∀ rel ∈ rels, f rel = g rel) (i : ℕ) : lastTo f rels i = lastTo g rels i := by
  induction rels with
  | nil => rfl
  | cons rel rels ih =>
    rw [lastTo, lastTo, h rel (by simp), ih fun r hr => h r (by simp [hr])]

lemma lastTo_some {α : Type} {f : Rel → Option α} {rels : List Rel} {i : ℕ} {a : α}
    (h : lastTo f rels i = some a) : ∃ rel ∈ rels, insnIdx rel = i ∧ f rel = some a := by
  induction rels with
  | nil => cases h
  | cons rel rels ih =>
    rw [lastTo, Option.or_eq_some_iff] at h
    rcases h with h | ⟨-, h⟩
    · obtain ⟨r, hr, hi, ha⟩ := ih h
      exact ⟨r, by simp [hr], hi, ha⟩
    · by_cases hi : insnIdx rel = i
      · rw [if_pos hi] at h
        exact ⟨rel, by simp, hi, h⟩
      · rw [if_neg hi] at h
        cases h

variable {t : Loader} {maps : Log} {size : ℕ} {decls : List Decl} {symbols : List Sym}

lemma relMap_ready (hsize : 0 < size)
    (hready : ∀ k d, decls[k]? = some d → ∃ a, MapReady t maps size k d a) {rel : Rel}
    (h : (recordAt symbols size decls rel).isSome) :
    relMap symbols t.mapData decls.length rel =
      (recordAt symbols size decls rel).map t.mapData := by
  obtain ⟨k, hk⟩ := Option.isSome_iff_exists.mp h
  obtain ⟨sym, hsym, hval⟩ := Option.bind_eq_some_iff.mp hk
  have hoff : ∀ j < decls.length, (t.mapData j).elfOffset = j * size := by
    intro j hj
    obtain ⟨a, ha⟩ := hready j _ (List.getElem?_eq_getElem hj)
    rw [ha.mapData]
  by_cases hin : sym.value % size = 0 ∧ sym.value / size < decls.length
  · rw [if_pos hin, Option.some.injEq] at hval
    have hlt : k < decls.length := hval ▸ hin.2
    have hmul : sym.value = k * size := by
      rw [← hval]
      exact (Nat.div_mul_cancel (Nat.dvd_of_mod_eq_zero hin.1)).symm
    rw [hk, Option.map_some, relMap_eq_some_iff]
    refine ⟨k, ⟨hlt, sym, hsym, by rw [hoff k hlt, hmul], fun i hi => ?_⟩, rfl⟩
    rw [hoff i (hi.trans hlt), hmul]
    exact (Nat.mul_lt_mul_of_pos_right hi hsize).ne
  · rw [if_neg hin] at hval
    cases hval

lemma recordAt_lt {rel : Rel} {k : ℕ} (h : recordAt symbols size decls rel = some k) :
    k < decls.length := by
  obtain ⟨sym, -, hval⟩ := Option.bind_eq_some_iff.mp h
  by_cases hin : sym.value % size = 0 ∧ sym.value / size < decls.length
  · rw [if_pos hin, Option.some.injEq] at hval
    exact hval ▸ hin.2
  · rw [if_neg hin] at hval
    cases hval

lemma PointsToRecord.insn {data : List UInt8} {rel : Rel}
    (h : PointsToRecord symbols size decls data rel) :
    ∃ insn, (insns data)[insnIdx rel]? = some insn ∧ insn.code = bpfLdImmDw := by
  refine ⟨_, by rw [getElem?_insns, if_pos h.full], ?_⟩
  rw [ofBytes_slice]
  simp [byteAt, slice, List.headD_eq_head?_getD, List.head?_take, List.head?_drop, h.code]

lemma target_ready (hsize : 0 < size)
    (hready : ∀ k d, decls[k]? = some d → ∃ a, MapReady t maps size k d a) {rels : List Rel}
    (hrels : ∀ rel ∈ rels, (recordAt symbols size decls rel).isSome) (i : ℕ) :
    target symbols t.mapData decls.length rels i =
      (lastTo (recordAt symbols size decls) rels i).map t.mapFd := by
  rw [target, ← lastTo_map]
  refine lastTo_congr (fun rel hrel => ?_) i
  obtain ⟨k, hk⟩ := Option.isSome_iff_exists.mp (hrels rel hrel)
  obtain ⟨a, ha⟩ := hready k _ (List.getElem?_eq_getElem (recordAt_lt hk))
  rw [relMap_ready hsize hready (hrels rel hrel), hk, Option.map_some, Option.map_some,
    Option.map_some, ha.mapData, ha.mapFd]

lemma read_linked {shndx : ℕ} (hsize : 0 < size)
    (hready : ∀ k d, decls[k]? = some d → ∃ a, MapReady t maps size k d a)
    (hlog : ∀ e ∈ maps, e ∈ t.log) (hdistinct : DistinctMaps t.log) {data : List UInt8}
    {rels : List Rel} (hrels : ∀ rel ∈ rels, NamesMap shndx symbols size decls data rel) :
    (linked (target symbols t.mapData decls.length rels) (insns data)).map (Insn.read t.log) =
      sourceProgram t.log t.mapFd shndx symbols size decls rels data := by
  apply List.ext_getElem?
  intro i
  rw [List.getElem?_map, linked, List.getElem?_mapIdx, sourceProgram, List.getElem?_mapIdx,
    Option.map_map, target_ready hsize hready fun rel hrel => (hrels rel hrel).record,
    lastTo_congr fun rel hrel => (hrels rel hrel).relDecl_eq]
  cases hinsn : (insns data)[i]? with
  | none => rfl
  | some insn =>
    cases hlast : lastTo (recordAt symbols size decls) rels i with
    | none => rfl
    | some k =>
      obtain ⟨rel, hrel, rfl, hk⟩ := lastTo_some hlast
      have hcode : insn.code = bpfLdImmDw := by
        obtain ⟨insn', hinsn', hcode⟩ := (hrels rel hrel).insn
        rw [hinsn, Option.some.injEq] at hinsn'
        exact hinsn' ▸ hcode
      have hd := List.getElem?_eq_getElem (recordAt_lt hk)
      obtain ⟨a, ha⟩ := hready k _ hd
      have hbehind := mapBehind_of_mem hdistinct (hlog _ (List.mem_of_getElem? ha.asked))
        (isCreate_mapRequest _ _) ha.granted
      simp [Insn.link, Insn.read, Insn.shape, hcode, hd, ha.mapFd, hbehind, Decl.request]

variable {kernel : Kernel} {qsort : Qsort} {path : List UInt8} {elf elf' : Elf}
  {shndx strtabidx n : ℕ} {symData symData' : List UInt8} {s : Loader} {cs : List Submission}

lemma LoadResult.submitted_linked
    (h : LoadResult kernel qsort path none elf s t elf' symData' n maps cs)
    (hd : Declares elf shndx strtabidx symData size decls) {i : ℕ}
    (hrels : ∀ rel ∈ relsOf elf i,
      PointsToRecord (symtab symData) size decls (dataOf elf i) rel) :
    insns ((dataOf elf' i).take (8 * ((dataOf elf' i).length / 8))) =
      BpfLoad.linked (target (symtab symData) t.mapData decls.length (relsOf elf i))
        (insns (dataOf elf i)) := by
  obtain ⟨⟨rfl, rfl, -⟩, -, hready, -⟩ := h.maps_ready hd
  have hlink : ∀ rel ∈ relsOf elf i,
      Linkable (symtab symData') t.mapData decls.length (dataOf elf i) rel := by
    intro rel hrel
    have hpoints := hrels rel hrel
    refine ⟨hpoints.full, hpoints.code, ?_⟩
    rw [exists_refersTo_iff, relMap_ready hd.layout.size_pos hready hpoints.record,
      Option.isSome_map]
    exact hpoints.record
  rw [insns_take, h.linked i hlink]

theorem LoadResult.submitted_reads
    (h : LoadResult kernel qsort path none elf s t elf' symData' n maps cs)
    (hd : Declares elf shndx strtabidx symData size decls) (hdistinct : DistinctMaps t.log)
    {i : ℕ} (hrels : ∀ rel ∈ relsOf elf i,
      NamesMap shndx (symtab symData) size decls (dataOf elf i) rel) :
    (insns ((dataOf elf' i).take (8 * ((dataOf elf' i).length / 8)))).map (Insn.read t.log) =
      sourceProgram t.log t.mapFd shndx (symtab symData) size decls (relsOf elf i)
        (dataOf elf i) := by
  obtain ⟨-, -, hready, -⟩ := h.maps_ready hd
  rw [h.submitted_linked hd fun rel hrel => (hrels rel hrel).toPointsToRecord]
  exact read_linked hd.layout.size_pos hready (fun _ => h.mem_log) hdistinct hrels

end Meaning

section Sample

lemma sampleObject_loads : ∃ t,
    loadBpfFile grantingKernel insertionQsort (ascii "tailcall_kern.o") (some sampleObject)
      Loader.initial = .ok (0, t) ∧ DistinctMaps t.log := by
  have h : returns (fun r t => r = 0 ∧ DistinctMaps t.log) (loadBpfFile grantingKernel
      insertionQsort (ascii "tailcall_kern.o") (some sampleObject) Loader.initial) = true := by
    decide +kernel
  obtain ⟨r, t, heq, ht⟩ := exists_of_returns h
  obtain ⟨rfl, hd⟩ := of_decide_eq_true ht
  exact ⟨t, heq, hd⟩

lemma sampleObject_declares : Declares sampleObject 3 7 sampleSymbols 28 sampleDecls where
  scan := sampleObject_scan
  layout := sampleObject_layout
  inner := inner_of_flat (by decide)

lemma sampleObject_namesMap : ∀ rel ∈ relsOf sampleObject 4,
    NamesMap 3 (symtab sampleSymbols) 28 sampleDecls (dataOf sampleObject 4) rel := by
  have h : ∀ rel ∈ relsOf sampleObject 4,
      8 * insnIdx rel + 8 ≤ (dataOf sampleObject 4).length ∧
        (dataOf sampleObject 4)[8 * insnIdx rel]? = some bpfLdImmDw ∧
        (recordAt (symtab sampleSymbols) 28 sampleDecls rel).isSome ∧
        ∀ sym ∈ (symtab sampleSymbols)[rel.sym]?, sym.shndx = 3 := by decide +kernel
  intro rel hrel
  obtain ⟨hfull, hcode, hrecord, hmaps⟩ := h rel hrel
  exact ⟨⟨hfull, hcode, hrecord⟩, hmaps⟩

lemma sampleDecls_lastProgArray : LastProgArray sampleDecls 1 := by
  refine ⟨⟨_, rfl, rfl⟩, ?_⟩
  rintro (_ | _ | j) d hj hd
  · omega
  · omega
  · cases hd

lemma sampleObject_first_rel :
    lastTo (recordAt (symtab sampleSymbols) 28 sampleDecls) (relsOf sampleObject 4) 0 = some 1 := by
  decide +kernel

end Sample

section Submissions

lemma Request.isCreate_of_isEvent {q : Request} (h : q.isEvent = true) : q.isCreate = false := by
  cases q <;> first | rfl | cases h

lemma Opens.isCreate {path : List UInt8} {file : Answer} {talk : Log} (h : Opens path file talk) :
    ∀ e ∈ talk, e.1.isCreate = false := by
  obtain ⟨-, probes, cleared, closed, rfl⟩ := h
  simp [Request.isCreate]

lemma Installs.isCreate {progArrayFd efd fd : Int32} {hook : Hook} {talk : Log}
    (h : Installs progArrayFd efd fd hook talk) : ∀ e ∈ talk, e.1.isCreate = false := by
  by_cases hslot : ∃ index, hook = .slot index
  · obtain ⟨index, rfl⟩ := hslot
    obtain ⟨a, -, rfl⟩ := h
    simp [Request.isCreate]
  · exact fun e he => Request.isCreate_of_isEvent
      (h.isEvent (fun index heq => hslot ⟨index, heq⟩) e he)

/-- The program of a section, up to the references in relocated instructions. -/
structure SameProgram (rels : List Rel) (data prog : List UInt8) : Prop where
  length : prog.length = 8 * (data.length / 8)
  shape : (insns prog).map Insn.shape = (insns data).map Insn.shape
  untouched : ∀ m, (∀ rel ∈ rels, insnIdx rel ≠ m) → (insns prog)[m]? = (insns data)[m]?

variable {kernel : Kernel} {qsort : Qsort} {path : List UInt8} {fixupMap : Option FixupMap}
  {elf elf' : Elf} {s t : Loader} {symData : List UInt8} {n : ℕ} {maps : Log}
  {cs : List Submission} (h : LoadResult kernel qsort path fixupMap elf s t elf' symData n maps cs)

include h

lemma LoadResult.isCreate_submissions :
    ∀ e ∈ cs.flatMap Submission.log, e.1.isCreate = false := by
  intro e he
  obtain ⟨c, hc, he⟩ := List.mem_flatMap.mp he
  obtain ⟨k, hk⟩ := List.getElem?_of_mem hc
  have hlt : k < (progIdx elf).length := h.length ▸ (List.getElem?_eq_some_iff.mp hk).1
  obtain ⟨-, -, kind, -, hreq, hinst⟩ := h.each k _ c (List.getElem?_eq_getElem hlt) hk
  rcases List.mem_cons.mp he with rfl | he
  · rw [hreq]
    rfl
  · exact hinst.isCreate e he

lemma LoadResult.sameProgram (i : ℕ) :
    SameProgram (relsOf elf i) (dataOf elf i)
      ((dataOf elf' i).take (8 * ((dataOf elf' i).length / 8))) := by
  have hpres := h.preserved i
  refine ⟨?_, by rw [insns_take, hpres.shape], fun m hm => ?_⟩
  · rw [List.length_take, hpres.length]
    omega
  · rw [insns_take, hpres.untouched m hm]

end Submissions

section Loads

variable (kernel : Kernel) (qsort : Qsort) (path : List UInt8) (elf : Elf) (s t : Loader)

/-- After a load that returned zero, `map_fd` and `map_data` list the maps of the object in the
order of declaration. In what this load said to the kernel there is one request for each of
them, in that order and with the declared values, and no other request for a map. The array
for programs is the last program array. -/
theorem load_creates_declared_maps (shndx strtabidx size : ℕ) (symData : List UInt8)
    (decls : List Decl) (h : loadBpfFile kernel qsort path (some elf) s = .ok (0, t))
    (hd : Declares elf shndx strtabidx symData size decls) :
    t.mapDataCount = decls.length ∧
      (∃ before maps after : Log, t.log = s.log ++ (before ++ maps ++ after) ∧
        Answered kernel s.log (before ++ maps ++ after) ∧ maps.length = decls.length ∧
        (∀ e ∈ before ++ after, e.1.isCreate = false) ∧
        ∀ k d, decls[k]? = some d → ∃ a, MapReady t maps size k d a) ∧
      ∀ k, LastProgArray decls k → t.progArrayFd = t.mapFd k := by
  obtain ⟨_, heq, hstages⟩ := load_zero h
  obtain rfl := Option.some.inj heq
  obtain ⟨elf', symData', n, maps, cs, hres⟩ := load_result hstages
  obtain ⟨⟨-, -, hcount⟩, hlen, hready, harray⟩ := hres.maps_ready hd
  obtain ⟨file, closed, opening, hopens, hlog⟩ := hres.log
  have hans := (moves_doLoadBpfFile qsort path (some elf) none h).answered hlog
  rw [List.append_assoc (opening ++ maps)] at hlog hans
  refine ⟨hcount, ⟨opening, maps, _, hlog, hans, hlen, ?_, hready⟩, harray⟩
  refine List.forall_mem_append.mpr ⟨hopens.isCreate, List.forall_mem_append.mpr ⟨?_, ?_⟩⟩
  · exact hres.isCreate_submissions
  · simp [Request.isCreate]

theorem load_creates_declared_maps_sample : ∃ (t : Loader) (before maps after : Log),
    loadBpfFile grantingKernel insertionQsort (ascii "tailcall_kern.o") (some sampleObject)
      Loader.initial = .ok (0, t) ∧ t.mapDataCount = 2 ∧ t.progArrayFd = t.mapFd 1 ∧
    t.log = before ++ maps ++ after ∧
    maps.map Prod.fst = sampleDecls.map (Decl.request t.mapFd) := by
  obtain ⟨t, ht, -⟩ := sampleObject_loads
  obtain ⟨hcount, ⟨before, maps, after, hlog, -, hlen, -, hready⟩, harray⟩ :=
    load_creates_declared_maps _ _ _ _ _ t _ _ _ _ _ ht sampleObject_declares
  refine ⟨t, before, maps, after, ht, hcount, harray 1 sampleDecls_lastProgArray, hlog, ?_⟩
  apply List.ext_getElem?
  intro k
  rw [List.getElem?_map, List.getElem?_map]
  cases hd : sampleDecls[k]? with
  | none =>
    rw [List.getElem?_eq_none (by rw [hlen]; exact List.getElem?_eq_none_iff.mp hd)]
    rfl
  | some d =>
    obtain ⟨a, ha⟩ := hready k d hd
    rw [ha.asked]
    rfl

/-- A load that returned zero submitted the program sections of the object in their order, each
with its license, version and type and its instructions, changed in the references of
relocated ones at most. All were accepted, recorded in `prog_fd` after the earlier ones, and
hooked up as their names say. The kernel was asked for nothing else than this, for maps before
it, and to open and close files. -/
theorem load_submits_every_program (fixupMap : Option FixupMap)
    (h : doLoadBpfFile kernel qsort path (some elf) fixupMap s = .ok (0, t)) :
    progIdx elf ≠ [] ∧ t.progCnt = s.progCnt + (progIdx elf).length ∧
      (∀ j < s.progCnt, t.progFd j = s.progFd j ∧ t.eventFd j = s.eventFd j) ∧
      ∃ (opening maps new : Log) (file closed : Answer) (cs : List Submission),
        t.log = s.log ++ new ∧ Answered kernel s.log new ∧
        new = opening ++ maps ++ cs.flatMap Submission.log ++ [(.close file.ret, closed)] ∧
        Opens path file opening ∧ (∀ e ∈ maps, e.1.isCreate = true) ∧
        cs.length = (progIdx elf).length ∧
        ∀ (k i : ℕ) (c : Submission), (progIdx elf)[k]? = some i → cs[k]? = some c →
          ¬ c.entry.2.ret < 0 ∧ t.progFd (s.progCnt + k) = c.entry.2.ret ∧
          ∃ (kind : Kind) (prog : List UInt8), kind.is (nameOf elf i) = true ∧
            c.entry.1 = .loadProgram kind.progType prog (licenseOf elf) (versionOf elf) ∧
            SameProgram (relsOf elf i) (dataOf elf i) prog ∧
            Installs t.progArrayFd (t.eventFd (s.progCnt + k)) c.entry.2.ret
              (kind.hook (nameOf elf i)) c.talk := by
  obtain ⟨_, heq, hstages⟩ := load_zero h
  obtain rfl := Option.some.inj heq
  obtain ⟨elf', symData', n, maps, cs, hres⟩ := load_result hstages
  obtain ⟨file, closed, opening, hopens, hlog⟩ := hres.log
  have hans := (moves_doLoadBpfFile qsort path (some elf) fixupMap h).answered hlog
  refine ⟨hres.nonempty, hres.count, hres.older, opening, maps, _, file, closed, cs, hlog, hans,
    rfl, hopens, hres.creates, hres.length, fun k i c hi hc => ?_⟩
  obtain ⟨hok, hfd, kind, hkind, hreq, hinst⟩ := hres.each k i c hi hc
  exact ⟨hok, hfd, kind, _, hkind, hreq, hres.sameProgram i, hinst⟩

theorem load_submits_every_program_sample : ∃ (t : Loader) (c : Submission) (prog : List UInt8),
    loadBpfFile grantingKernel insertionQsort (ascii "tailcall_kern.o") (some sampleObject)
      Loader.initial = .ok (0, t) ∧ t.progCnt = 1 ∧
    c.entry.1 = .loadProgram .kprobe prog (licenseOf sampleObject) (versionOf sampleObject) ∧
    SameProgram (relsOf sampleObject 4) (dataOf sampleObject 4) prog ∧
    Installs t.progArrayFd (t.eventFd 0) c.entry.2.ret (.slot 1) c.talk := by
  obtain ⟨t, ht, -⟩ := sampleObject_loads
  obtain ⟨hidx, hname⟩ := sampleObject_programs
  obtain ⟨-, hcount, -, opening, maps, new, file, closed, cs, -, -, -, -, -, hlen, heach⟩ :=
    load_submits_every_program _ _ _ _ _ t none ht
  obtain ⟨c, rfl⟩ := List.length_eq_one_iff.mp (hidx ▸ hlen)
  obtain ⟨-, -, kind, prog, hkind, hreq, hsame, hinst⟩ := heach 0 4 c (by rw [hidx]; rfl) rfl
  rw [hname] at hkind hinst
  obtain rfl : kind = .kprobe := Kind.is_unique hkind (by decide)
  exact ⟨t, c, prog, ht, by rw [hcount, hidx]; rfl, hreq, hsame, hinst⟩

/-- Linking keeps the meaning of programs: what the kernel reads in a submitted program, with
descriptors standing for the maps it created, is the program of the object with each
relocated instruction standing for the map that its symbol declares. -/
theorem load_preserves_meaning (shndx strtabidx size : ℕ) (symData : List UInt8)
    (decls : List Decl) (h : loadBpfFile kernel qsort path (some elf) s = .ok (0, t))
    (hd : Declares elf shndx strtabidx symData size decls) (hdistinct : DistinctMaps t.log)
    (hrels : ∀ i ∈ progIdx elf, ∀ rel ∈ relsOf elf i,
      NamesMap shndx (symtab symData) size decls (dataOf elf i) rel) :
    ∃ es : Log, loadsOf t.log = loadsOf s.log ++ es ∧ es.length = (progIdx elf).length ∧
      ∀ (k i : ℕ) (e : Request × Answer), (progIdx elf)[k]? = some i → es[k]? = some e →
        ∃ (type : ProgType) (prog : List UInt8),
          e.1 = .loadProgram type prog (licenseOf elf) (versionOf elf) ∧
          (insns prog).map (Insn.read t.log) =
            sourceProgram t.log t.mapFd shndx (symtab symData) size decls (relsOf elf i)
              (dataOf elf i) := by
  obtain ⟨_, heq, hstages⟩ := load_zero h
  obtain rfl := Option.some.inj heq
  obtain ⟨elf', symData', n, maps, cs, hres⟩ := load_result hstages
  refine ⟨_, hres.submitted, by rw [List.length_map, hres.length], fun k i e hi he => ?_⟩
  obtain ⟨c, hc, rfl⟩ := Option.map_eq_some_iff.mp (List.getElem?_map .. ▸ he)
  obtain ⟨-, -, kind, -, hreq, -⟩ := hres.each k i c hi hc
  exact ⟨_, _, hreq, hres.submitted_reads hd hdistinct (hrels i (List.mem_of_getElem? hi))⟩

theorem load_preserves_meaning_sample : ∃ t e type prog license version,
    loadBpfFile grantingKernel insertionQsort (ascii "tailcall_kern.o") (some sampleObject)
      Loader.initial = .ok (0, t) ∧ loadsOf t.log = [e] ∧
    e.1 = .loadProgram type prog license version ∧
    ((insns prog).map (Insn.read t.log))[0]? = some ((0x18, 2, 0),
      .map (some (.createMap 3 (ascii "jmp_table") 4 4 8 0 (-1)))) := by
  obtain ⟨t, ht, hdistinct⟩ := sampleObject_loads
  have hidx := sampleObject_programs.1
  obtain ⟨es, hlog, hlen, heach⟩ := load_preserves_meaning _ _ _ _ _ t _ _ _ _ _ ht
    sampleObject_declares hdistinct (by
      intro i hi
      rw [hidx, List.mem_singleton] at hi
      exact hi ▸ sampleObject_namesMap)
  obtain ⟨e, rfl⟩ := List.length_eq_one_iff.mp (hidx ▸ hlen)
  obtain ⟨type, prog, hreq, hread⟩ := heach 0 4 e (by rw [hidx]; rfl) rfl
  refine ⟨t, e, type, prog, _, _, ht, hlog, hreq, ?_⟩
  rw [hread, sourceProgram, List.getElem?_mapIdx]
  have hinsn : (insns (dataOf sampleObject 4))[0]? = some ⟨0x18, 2, 0, 0, 0⟩ := by decide +kernel
  rw [hinsn, Option.map_some,
    lastTo_congr fun rel hrel => (sampleObject_namesMap rel hrel).relDecl_eq,
    sampleObject_first_rel]
  rfl

end Loads

end FilterReduce.BpfLoad
