import FilterReduce.BpfLoad

/-!
# Relocation

`parse_relo_and_apply` writes into raw bytes. Seen as a list of instructions, it
puts the descriptor of a map into every instruction that a relocation points to,
and leaves the rest of the program as it was.
-/
namespace FilterReduce.BpfLoad

open ByteLayout ElfObject

structure Insn where
  code : UInt8
  dstReg : UInt8
  srcReg : UInt8
  off : ℕ
  imm : Int32
  deriving DecidableEq

def byteAt (o : ℕ) (bs : List UInt8) : UInt8 := (slice bs o 1).headD 0

def Insn.ofBytes (bs : List UInt8) : Insn :=
  ⟨byteAt 0 bs, byteAt 1 bs % 16, byteAt 1 bs / 16, field 2 2 bs,
    (UInt32.ofNat (field 4 4 bs)).toInt32⟩

def insns (data : List UInt8) : List Insn := table 8 Insn.ofBytes data

def Insn.link (fd : Int32) (i : Insn) : Insn := { i with srcReg := bpfPseudoMapFd, imm := fd }

/-- The parts of an instruction that are no reference. -/
def Insn.shape (i : Insn) : UInt8 × UInt8 × ℕ := (i.code, i.dstReg, i.off)

section Patch

lemma getElem?_insns (data : List UInt8) (i : ℕ) :
    (insns data)[i]? =
      if 8 * i + 8 ≤ data.length then some (Insn.ofBytes (slice data (8 * i) 8)) else none := by
  rw [insns, table, List.getElem?_map]
  by_cases h : 8 * i + 8 ≤ data.length
  · rw [List.getElem?_range (by omega), Option.map_some, if_pos h]
  · rw [List.getElem?_eq_none (by rw [List.length_range]; omega), if_neg h]
    rfl

lemma ofBytes_slice (data : List UInt8) (o : ℕ) :
    Insn.ofBytes (slice data o 8) =
      ⟨byteAt o data, byteAt (o + 1) data % 16, byteAt (o + 1) data / 16, field 2 (o + 2) data,
        (UInt32.ofNat (field 4 (o + 4) data)).toInt32⟩ := by
  simp only [Insn.ofBytes, byteAt, field]
  rw [slice_slice (by omega), slice_slice (by omega), slice_slice (by omega),
    slice_slice (by omega), Nat.add_zero]

/-- Bytes overwritten inside one instruction change that instruction only. -/
lemma insns_splice {data new : List UInt8} {idx o : ℕ} {f : Insn → Insn}
    (hfull : 8 * idx + 8 ≤ data.length) (ho : o + new.length ≤ 8)
    (hf : Insn.ofBytes (slice (splice data (8 * idx + o) new) (8 * idx) 8) =
      f (Insn.ofBytes (slice data (8 * idx) 8))) :
    insns (splice data (8 * idx + o) new) = (insns data).modify idx f := by
  have hin : 8 * idx + o + new.length ≤ data.length := by omega
  apply List.ext_getElem?
  intro i
  rw [List.getElem?_modify, getElem?_insns, getElem?_insns, length_splice hin]
  by_cases hi : idx = i
  · subst hi
    rw [if_pos hfull, if_pos hfull, hf]
    simp
  · have hdis : slice (splice data (8 * idx + o) new) (8 * i) 8 = slice data (8 * i) 8 :=
      slice_splice_of_disjoint hin (by omega)
    rw [hdis]
    simp [hi]

lemma length_setSrcReg {data : List UInt8} {idx : ℕ} (h : 8 * idx + 8 ≤ data.length) :
    (setSrcReg data idx).length = data.length := by
  apply length_splice
  rw [List.length_singleton]
  omega

lemma length_setImm {data : List UInt8} {idx : ℕ} (fd : Int32) (h : 8 * idx + 8 ≤ data.length) :
    (setImm data idx fd).length = data.length := length_splice (by rw [length_leBytes]; omega)

lemma nibble_join (b : UInt8) :
    (b % 16 + 16 * bpfPseudoMapFd) % 16 = b % 16 ∧
      (b % 16 + 16 * bpfPseudoMapFd) / 16 = bpfPseudoMapFd := by
  have hlt : b.toNat < 256 := b.toNat_lt
  constructor
  · apply UInt8.toNat_inj.mp
    simp [bpfPseudoMapFd]
  · apply UInt8.toNat_inj.mp
    simp [bpfPseudoMapFd]
    omega

lemma insns_setSrcReg {data : List UInt8} {idx : ℕ} (h : 8 * idx + 8 ≤ data.length) :
    insns (setSrcReg data idx) =
      (insns data).modify idx fun i => { i with srcReg := bpfPseudoMapFd } := by
  refine insns_splice h (by simp) ?_
  set b := (slice data (8 * idx + 1) 1).headD 0 % 16 + 16 * bpfPseudoMapFd with hb
  obtain ⟨hlow, hhigh⟩ := nibble_join ((slice data (8 * idx + 1) 1).headD 0)
  have hlen : [b].length = 1 := rfl
  have hin : 8 * idx + 1 + [b].length ≤ data.length := by omega
  have hcode := slice_splice_of_disjoint hin (o := 8 * idx) (n := 1) (by omega)
  have hoff := slice_splice_of_disjoint hin (o := 8 * idx + 2) (n := 2) (by omega)
  have himm := slice_splice_of_disjoint hin (o := 8 * idx + 4) (n := 4) (by omega)
  have hregs := slice_splice_self hin
  rw [hlen] at hregs
  rw [ofBytes_slice, ofBytes_slice]
  simp only [byteAt, field, hcode, hoff, himm, hregs, List.headD_cons]
  rw [hb, hlow, hhigh]

lemma insns_setImm {data : List UInt8} {idx : ℕ} (fd : Int32) (h : 8 * idx + 8 ≤ data.length) :
    insns (setImm data idx fd) = (insns data).modify idx fun i => { i with imm := fd } := by
  refine insns_splice h (by rw [length_leBytes]) ?_
  have hlen : (leBytes 4 fd.toUInt32.toNat).length = 4 := length_leBytes _ _
  have hin : 8 * idx + 4 + (leBytes 4 fd.toUInt32.toNat).length ≤ data.length := by omega
  have hself := slice_splice_self hin
  have hval : ofLeBytes (leBytes 4 fd.toUInt32.toNat) = fd.toUInt32.toNat := by
    rw [ofLeBytes_leBytes, Nat.mod_eq_of_lt]
    exact fd.toUInt32.toNat_lt
  rw [hlen] at hself
  rw [ofBytes_slice, ofBytes_slice]
  simp only [byteAt, field]
  rw [slice_splice_of_disjoint hin (Or.inl (by omega)),
    slice_splice_of_disjoint hin (Or.inl (by omega)),
    slice_splice_of_disjoint hin (Or.inl (by omega)), hself, hval]
  simp

lemma insns_patch {data : List UInt8} {idx : ℕ} (fd : Int32) (h : 8 * idx + 8 ≤ data.length) :
    insns (setImm (setSrcReg data idx) idx fd) = (insns data).modify idx (Insn.link fd) := by
  rw [insns_setImm fd (by rw [length_setSrcReg h]; exact h), insns_setSrcReg h,
    List.modify_modify_eq]
  rfl

end Patch

section Relocate

def relsIn (sec : Section) : List Rel := (reltab sec.data).take (sec.data.length / sec.entsize)

/-- The header promises no more entries than the section has. -/
structure RelTable (sec : Section) : Prop where
  entsize : sec.entsize ≠ 0
  full : sec.data.length / sec.entsize ≤ (reltab sec.data).length

variable (symbols : List Sym) (maps : ℕ → MapData) (nrMaps : ℕ)

/-- The relocation is to map `j`, the first one recorded at the value of its symbol. -/
def RefersTo (rel : Rel) (j : ℕ) : Prop :=
  j < nrMaps ∧ ∃ sym, symbols[rel.sym]? = some sym ∧ (maps j).elfOffset = sym.value ∧
    ∀ i < j, (maps i).elfOffset ≠ sym.value

/-- The relocation points to a complete instruction that can hold a map, and to a map. -/
structure Linkable (data : List UInt8) (rel : Rel) : Prop where
  full : 8 * insnIdx rel + 8 ≤ data.length
  code : data[8 * insnIdx rel]? = some bpfLdImmDw
  map : ∃ j, RefersTo symbols maps nrMaps rel j

def relMap (rel : Rel) : Option MapData :=
  (symbols[rel.sym]?).bind fun sym => findMap maps nrMaps sym.value

def lastTo {α : Type} (f : Rel → Option α) : List Rel → ℕ → Option α
  | [], _ => none
  | rel :: rels, i => (lastTo f rels i).or (if insnIdx rel = i then f rel else none)

def target (rels : List Rel) (i : ℕ) : Option Int32 :=
  lastTo (fun rel => (relMap symbols maps nrMaps rel).map MapData.fd) rels i

def linked (fds : ℕ → Option Int32) (is : List Insn) : List Insn :=
  is.mapIdx fun i insn => match fds i with
    | some fd => insn.link fd
    | none => insn

variable {symbols maps nrMaps}

lemma findMap_eq_some_iff {value : ℕ} {m : MapData} :
    findMap maps nrMaps value = some m ↔ ∃ j < nrMaps, maps j = m ∧ (maps j).elfOffset = value ∧
      ∀ i < j, (maps i).elfOffset ≠ value := by
  rw [findMap, List.find?_map, Option.map_eq_some_iff]
  constructor
  · rintro ⟨j, hj, rfl⟩
    rw [List.find?_range_eq_some] at hj
    obtain ⟨hoff, hmem, hfirst⟩ := hj
    exact ⟨j, List.mem_range.mp hmem, rfl, by simpa using hoff, fun i hi => by
      simpa using hfirst i hi⟩
  · rintro ⟨j, hlt, rfl, hoff, hfirst⟩
    refine ⟨j, ?_, rfl⟩
    rw [List.find?_range_eq_some]
    exact ⟨by simpa using hoff, List.mem_range.mpr hlt, fun i hi => by simpa using hfirst i hi⟩

lemma relMap_eq_some_iff {rel : Rel} {m : MapData} :
    relMap symbols maps nrMaps rel = some m ↔
      ∃ j, RefersTo symbols maps nrMaps rel j ∧ maps j = m := by
  simp only [relMap, Option.bind_eq_some_iff, findMap_eq_some_iff, RefersTo]
  constructor
  · rintro ⟨sym, hsym, j, hlt, rfl, hoff⟩
    exact ⟨j, ⟨hlt, sym, hsym, hoff⟩, rfl⟩
  · rintro ⟨j, ⟨hlt, sym, hsym, hoff⟩, rfl⟩
    exact ⟨sym, hsym, j, hlt, rfl, hoff⟩

lemma exists_refersTo_iff {rel : Rel} :
    (∃ j, RefersTo symbols maps nrMaps rel j) ↔ (relMap symbols maps nrMaps rel).isSome := by
  rw [Option.isSome_iff_exists]
  simp only [relMap_eq_some_iff]
  exact ⟨fun ⟨j, hj⟩ => ⟨maps j, j, hj, rfl⟩, fun ⟨_, j, hj, _⟩ => ⟨j, hj⟩⟩

lemma applyRel_cases {data data' : List UInt8} {rel : Rel} {go : Bool}
    (h : applyRel symbols maps nrMaps data rel = .ok (go, data')) :
    (go = true ∧ Linkable symbols maps nrMaps data rel ∧
      ∃ m, relMap symbols maps nrMaps rel = some m ∧
        data' = setImm (setSrcReg data (insnIdx rel)) (insnIdx rel) m.fd) ∨
    (go = false ∧ ¬ Linkable symbols maps nrMaps data rel ∧
      (data' = data ∨
        8 * insnIdx rel + 8 ≤ data.length ∧ data' = setSrcReg data (insnIdx rel))) := by
  rw [applyRel] at h
  cases hc : data[8 * insnIdx rel]? with
  | none => simp [hc] at h
  | some code =>
    simp only [hc] at h
    by_cases hcode : code = bpfLdImmDw
    · rw [if_neg (not_not.mpr hcode)] at h
      by_cases hfull : data.length < 8 * insnIdx rel + 8
      · rw [if_pos hfull] at h
        cases h
      · rw [if_neg hfull] at h
        cases hs : symbols[rel.sym]? with
        | none => simp [hs] at h
        | some sym =>
          simp only [hs] at h
          cases hm : findMap maps nrMaps sym.value with
          | some m =>
            simp only [hm, Except.ok.injEq, Prod.mk.injEq] at h
            have hrel : relMap symbols maps nrMaps rel = some m := by simp [relMap, hs, hm]
            have hmap := exists_refersTo_iff.mpr (Option.isSome_of_eq_some hrel)
            exact Or.inl ⟨h.1.symm, ⟨by omega, hcode ▸ hc, hmap⟩, m, hrel, h.2.symm⟩
          | none =>
            simp only [hm, Except.ok.injEq, Prod.mk.injEq] at h
            have hrel : relMap symbols maps nrMaps rel = none := by simp [relMap, hs, hm]
            refine Or.inr ⟨h.1.symm, ?_, Or.inr ⟨by omega, h.2.symm⟩⟩
            intro hl
            simpa [hrel] using exists_refersTo_iff.mp hl.map
    · rw [if_pos hcode] at h
      simp only [Except.ok.injEq, Prod.mk.injEq] at h
      refine Or.inr ⟨h.1.symm, ?_, Or.inl h.2.symm⟩
      intro hl
      have := hl.code
      rw [hc, Option.some.injEq] at this
      exact hcode this

lemma applyRel_linkable {data : List UInt8} {rel : Rel}
    (h : Linkable symbols maps nrMaps data rel) :
    ∃ m, relMap symbols maps nrMaps rel = some m ∧
      applyRel symbols maps nrMaps data rel =
        .ok (true, setImm (setSrcReg data (insnIdx rel)) (insnIdx rel) m.fd) := by
  obtain ⟨m, hm⟩ := Option.isSome_iff_exists.mp (exists_refersTo_iff.mp h.map)
  refine ⟨m, hm, ?_⟩
  obtain ⟨sym, hs, hf⟩ := Option.bind_eq_some_iff.mp hm
  have hfull := h.full
  rw [applyRel]
  simp only [h.code, hs, hf]
  rw [if_neg (by simp), if_neg (by omega)]

lemma getElem?_setSrcReg {data : List UInt8} {idx : ℕ} (h : 8 * idx + 8 ≤ data.length) (i : ℕ) :
    (setSrcReg data idx)[8 * i]? = data[8 * i]? := by
  rw [setSrcReg, getElem?_splice (by rw [List.length_singleton]; omega), List.length_singleton,
    if_neg (by omega)]

lemma getElem?_setImm {data : List UInt8} {idx : ℕ} (fd : Int32)
    (h : 8 * idx + 8 ≤ data.length) (i : ℕ) : (setImm data idx fd)[8 * i]? = data[8 * i]? := by
  rw [setImm, getElem?_splice (by rw [length_leBytes]; omega), length_leBytes, if_neg (by omega)]

lemma linkable_patch_iff {data : List UInt8} {idx : ℕ} (fd : Int32)
    (h : 8 * idx + 8 ≤ data.length) (rel : Rel) :
    Linkable symbols maps nrMaps (setImm (setSrcReg data idx) idx fd) rel ↔
      Linkable symbols maps nrMaps data rel := by
  have h' : 8 * idx + 8 ≤ (setSrcReg data idx).length := by rw [length_setSrcReg h]; exact h
  constructor
  · intro hl
    have hfull := hl.full
    have hcode := hl.code
    rw [length_setImm fd h', length_setSrcReg h] at hfull
    rw [getElem?_setImm fd h', getElem?_setSrcReg h] at hcode
    exact ⟨hfull, hcode, hl.map⟩
  · intro hl
    refine ⟨?_, ?_, hl.map⟩
    · rw [length_setImm fd h', length_setSrcReg h]
      exact hl.full
    · rw [getElem?_setImm fd h', getElem?_setSrcReg h]
      exact hl.code

lemma linked_none (is : List Insn) : linked (fun _ => none) is = is := by
  apply List.ext_getElem?
  intro i
  simp [linked]

lemma linked_target_nil (is : List Insn) : linked (target symbols maps nrMaps []) is = is :=
  linked_none is

lemma linked_modify (rels : List Rel) {rel : Rel} {m : MapData}
    (hm : relMap symbols maps nrMaps rel = some m) (is : List Insn) :
    linked (target symbols maps nrMaps rels) (is.modify (insnIdx rel) (Insn.link m.fd)) =
      linked (target symbols maps nrMaps (rel :: rels)) is := by
  apply List.ext_getElem?
  intro i
  simp only [linked, List.getElem?_mapIdx, List.getElem?_modify, target, lastTo, hm,
    Option.map_some]
  by_cases hi : insnIdx rel = i
  · cases lastTo (fun rel => (relMap symbols maps nrMaps rel).map MapData.fd) rels i <;>
      cases is[i]? <;> simp [hi, Insn.link]
  · cases lastTo (fun rel => (relMap symbols maps nrMaps rel).map MapData.fd) rels i <;>
      cases is[i]? <;> simp [hi]

lemma applyRels_linkable {rels : List Rel} {data : List UInt8}
    (h : ∀ rel ∈ rels, Linkable symbols maps nrMaps data rel) :
    ∃ data', applyRels symbols maps nrMaps data (rels.map some) = .ok (0, data') ∧
      insns data' = linked (target symbols maps nrMaps rels) (insns data) := by
  induction rels generalizing data with
  | nil => exact ⟨data, rfl, (linked_target_nil _).symm⟩
  | cons rel rels ih =>
    have hrel := h rel (by simp)
    obtain ⟨m, hm, happly⟩ := applyRel_linkable hrel
    obtain ⟨data', hrun, hins⟩ := ih fun r hr =>
      (linkable_patch_iff m.fd hrel.full r).mpr (h r (by simp [hr]))
    refine ⟨data', ?_, ?_⟩
    · rw [List.map_cons, applyRels, happly]
      exact hrun
    · rw [hins, insns_patch m.fd hrel.full, linked_modify rels hm]

/-- What survives relocation in every case, also when it is given up half way. -/
structure Preserved (rels : List Rel) (data data' : List UInt8) : Prop where
  length : data'.length = data.length
  shape : (insns data').map Insn.shape = (insns data).map Insn.shape
  untouched : ∀ i, (∀ rel ∈ rels, insnIdx rel ≠ i) → (insns data')[i]? = (insns data)[i]?

lemma Preserved.refl (rels : List Rel) (data : List UInt8) : Preserved rels data data :=
  ⟨rfl, rfl, fun _ _ => rfl⟩

lemma Preserved.of_modify {data data' : List UInt8} {rel : Rel} {f : Insn → Insn}
    (hlen : data'.length = data.length) (h : insns data' = (insns data).modify (insnIdx rel) f)
    (hf : ∀ i, (f i).shape = i.shape) (rels : List Rel) : Preserved (rel :: rels) data data' := by
  refine ⟨hlen, ?_, ?_⟩
  · apply List.ext_getElem?
    intro i
    rw [h, List.getElem?_map, List.getElem?_map, List.getElem?_modify]
    cases (insns data)[i]? with
    | none => rfl
    | some insn => by_cases hi : insnIdx rel = i <;> simp [hi, hf]
  · intro i hi
    have hne : insnIdx rel ≠ i := hi rel (by simp)
    rw [h, List.getElem?_modify]
    simp [hne]

lemma Preserved.append {rels rels' : List Rel} {data data' data'' : List UInt8}
    (h : Preserved rels data data') (h' : Preserved rels' data' data'') :
    Preserved (rels ++ rels') data data'' := by
  refine ⟨h'.length.trans h.length, h'.shape.trans h.shape, fun i hi => ?_⟩
  rw [h'.untouched i fun r hr => hi r (List.mem_append_right _ hr),
    h.untouched i fun r hr => hi r (List.mem_append_left _ hr)]

lemma Preserved.mono {rels rels' : List Rel} {data data' : List UInt8}
    (h : Preserved rels data data') (hsub : ∀ r ∈ rels, r ∈ rels') : Preserved rels' data data' :=
  ⟨h.length, h.shape, fun i hi => h.untouched i fun r hr => hi r (hsub r hr)⟩

lemma applyRel_preserved {data data' : List UInt8} {rel : Rel} {go : Bool}
    (h : applyRel symbols maps nrMaps data rel = .ok (go, data')) :
    Preserved [rel] data data' := by
  rcases applyRel_cases h with ⟨-, hl, m, -, rfl⟩ | ⟨-, -, rfl | ⟨hfull, rfl⟩⟩
  · have hlen := length_setSrcReg hl.full
    refine Preserved.of_modify ?_ (insns_patch m.fd hl.full) (fun _ => rfl) []
    rw [length_setImm _ (by rw [hlen]; exact hl.full), hlen]
  · exact Preserved.refl _ _
  · exact Preserved.of_modify (length_setSrcReg hfull) (insns_setSrcReg hfull) (fun _ => rfl) []

lemma applyRels_cons {data data' : List UInt8} {rel : Rel} {es : List (Option Rel)} {r : ℤ}
    (h : applyRels symbols maps nrMaps data (some rel :: es) = .ok (r, data')) :
    ∃ go mid, applyRel symbols maps nrMaps data rel = .ok (go, mid) ∧
      ((go = true ∧ applyRels symbols maps nrMaps mid es = .ok (r, data')) ∨
        (go = false ∧ r = 1 ∧ data' = mid)) := by
  rw [applyRels] at h
  cases ha : applyRel symbols maps nrMaps data rel with
  | error e => rw [ha] at h; cases h
  | ok x =>
    obtain ⟨go, mid⟩ := x
    rw [ha] at h
    refine ⟨go, mid, rfl, ?_⟩
    cases go with
    | true => exact Or.inl ⟨rfl, h⟩
    | false =>
      have heq : (1, mid) = (r, data') := Except.ok.inj h
      exact Or.inr ⟨rfl, (Prod.mk.inj heq).1.symm, (Prod.mk.inj heq).2.symm⟩

lemma applyRels_preserved {rels : List Rel} {data data' : List UInt8} {r : ℤ}
    (h : applyRels symbols maps nrMaps data (rels.map some) = .ok (r, data')) :
    Preserved rels data data' := by
  induction rels generalizing data with
  | nil =>
    obtain ⟨-, rfl⟩ := Prod.mk.inj (Except.ok.inj h)
    exact Preserved.refl _ _
  | cons rel rels ih =>
    obtain ⟨go, mid, ha, ⟨-, hrest⟩ | ⟨-, -, rfl⟩⟩ := applyRels_cons h
    · exact (applyRel_preserved ha).append (ih hrest)
    · exact (applyRel_preserved ha).mono (by simp)

/-- The loop ends with entries to spare exactly when it gives up before it comes to them. -/
lemma applyRels_append_none {rels : List Rel} {k : ℕ} {data data' : List UInt8} {r : ℤ} :
    applyRels symbols maps nrMaps data (rels.map some ++ List.replicate k none) = .ok (r, data') ↔
      applyRels symbols maps nrMaps data (rels.map some) = .ok (r, data') ∧ (r = 0 → k = 0) := by
  induction rels generalizing data with
  | nil =>
    cases k with
    | zero => simp
    | succ k =>
      rw [List.map_nil, List.nil_append, List.replicate_succ, applyRels, applyRels]
      constructor
      · intro h
        cases h
      · rintro ⟨h, hk⟩
        obtain ⟨rfl, -⟩ := Prod.mk.inj (Except.ok.inj h)
        cases hk rfl
  | cons rel rels ih =>
    rw [List.map_cons, List.cons_append, applyRels, applyRels]
    cases applyRel symbols maps nrMaps data rel with
    | error e => exact ⟨fun h => (by cases h), fun h => (by cases h.1)⟩
    | ok x =>
      obtain ⟨go, mid⟩ := x
      cases go with
      | true => exact ih
      | false =>
        have hone : (1 : ℤ) ≠ 0 := by decide
        constructor
        · intro h
          obtain ⟨rfl, -⟩ := Prod.mk.inj (Except.ok.inj h)
          exact ⟨h, fun h0 => absurd h0 hone⟩
        · exact fun h => h.1

lemma range_map_getElem? {α : Type} (l : List α) (n : ℕ) :
    (List.range n).map (fun i => l[i]?) =
      (l.take n).map some ++ List.replicate (n - l.length) none := by
  apply List.ext_getElem?
  intro i
  rw [List.getElem?_map, List.getElem?_append, List.length_map, List.length_take,
    List.getElem?_map, List.getElem?_take, List.getElem?_replicate]
  by_cases hi : i < n
  · rw [List.getElem?_range hi, Option.map_some, if_pos hi]
    by_cases hl : i < l.length
    · rw [if_pos (by omega), List.getElem?_eq_getElem hl]
      rfl
    · rw [if_neg (by omega), if_pos (by omega), List.getElem?_eq_none (by omega)]
  · rw [List.getElem?_eq_none (by rw [List.length_range]; omega), if_neg (by omega),
      if_neg (by omega)]
    rfl

lemma parseReloAndApply_eq_ok_iff {sec : Section} {data data' : List UInt8} {r : ℤ} :
    parseReloAndApply symbols maps nrMaps sec data = .ok (r, data') ↔
      sec.entsize ≠ 0 ∧
        applyRels symbols maps nrMaps data ((relsIn sec).map some) = .ok (r, data') ∧
        (r = 0 → RelTable sec) := by
  rw [parseReloAndApply]
  by_cases hsize : sec.entsize = 0
  · rw [if_pos hsize]
    exact ⟨fun h => (by cases h), fun h => absurd hsize h.1⟩
  · rw [if_neg hsize]
    dsimp only
    rw [range_map_getElem?, applyRels_append_none]
    refine ⟨fun h => ⟨hsize, h.1, fun h0 => ⟨hsize, ?_⟩⟩, fun h => ⟨h.2.1, fun h0 => ?_⟩⟩
    · have := h.2 h0
      omega
    · have := (h.2.2 h0).full
      omega

lemma lastTo_append {α : Type} (f : Rel → Option α) (l l' : List Rel) (i : ℕ) :
    lastTo f (l ++ l') i = (lastTo f l' i).or (lastTo f l i) := by
  induction l with
  | nil => simp [lastTo]
  | cons rel l ih => rw [List.cons_append, lastTo, lastTo, ih, Option.or_assoc]

end Relocate

end FilterReduce.BpfLoad
