import FilterReduce.BpfLoad

/-!
# The maps section

What `load_elf_maps_section` makes of the declarations `struct bpf_map_def SEC("maps") ...`.
The section holds one structure per map, of a size that the loader has to guess
from the number of symbols; the symbols come in any order.
-/
namespace FilterReduce.BpfLoad

open ByteLayout ElfObject StateProgram

section Copy

variable (elf : Elf) (strtabidx : ℕ) (dataMaps : List UInt8) (mapSzElf : ℕ)

def entry (fd : Int32) (sym : Sym) : MapData :=
  ⟨fd, (elfStrptr elf strtabidx sym.name).getD [], sym.value,
    .ofBytes (slice dataMaps sym.value (min mapDefSize mapSzElf))⟩

/-- `map_data` after the entries of `syms` were written from index `i` on. -/
def placed (i : ℕ) (syms : List Sym) (maps : ℕ → MapData) : ℕ → MapData := fun j =>
  if i ≤ j then
    match syms[j - i]? with
    | some sym => entry elf strtabidx dataMaps mapSzElf (maps j).fd sym
    | none => maps j
  else maps j

/-- The symbol has a name, and its structure lies inside the section. -/
def InSection (sym : Sym) : Prop :=
  (elfStrptr elf strtabidx sym.name).isSome ∧ sym.value + mapSzElf ≤ dataMaps.length

instance (sym : Sym) : Decidable (InSection elf strtabidx dataMaps mapSzElf sym) :=
  inferInstanceAs (Decidable (_ ∧ _))

def KnownOnly (sym : Sym) : Prop :=
  ∀ b ∈ slice dataMaps (sym.value + mapDefSize) (mapSzElf - mapDefSize), b = 0

instance (sym : Sym) : Decidable (KnownOnly dataMaps mapSzElf sym) :=
  inferInstanceAs (Decidable (∀ b ∈ _, _))

variable {elf strtabidx dataMaps mapSzElf}

@[simp] lemma placed_nil (i : ℕ) (maps : ℕ → MapData) :
    placed elf strtabidx dataMaps mapSzElf i [] maps = maps := by
  funext j
  simp [placed]

lemma placed_cons (i : ℕ) (sym : Sym) (syms : List Sym) (maps : ℕ → MapData) :
    placed elf strtabidx dataMaps mapSzElf i (sym :: syms) maps =
      placed elf strtabidx dataMaps mapSzElf (i + 1) syms
        (Function.update maps i (entry elf strtabidx dataMaps mapSzElf (maps i).fd sym)) := by
  funext j
  rcases Nat.lt_trichotomy j i with h | rfl | h
  · simp [placed, Function.update_of_ne h.ne, show ¬ i ≤ j by omega, show ¬ i + 1 ≤ j by omega]
  · simp [placed]
  · have hsub : j - i = j - (i + 1) + 1 := by omega
    simp [placed, Function.update_of_ne h.ne', h.le, show i + 1 ≤ j by omega, hsub]

lemma placed_of_le {i j : ℕ} {syms : List Sym} (h : i + syms.length ≤ j) (maps : ℕ → MapData) :
    placed elf strtabidx dataMaps mapSzElf i syms maps j = maps j := by
  have hnone : syms[j - i]? = none := List.getElem?_eq_none (by omega)
  simp [placed, hnone]

lemma placed_zero {syms : List Sym} {sym : Sym} {k : ℕ} (h : syms[k]? = some sym)
    (maps : ℕ → MapData) :
    placed elf strtabidx dataMaps mapSzElf 0 syms maps k =
      entry elf strtabidx dataMaps mapSzElf (maps k).fd sym := by
  simp [placed, h]

lemma validateZero_eq {data : List UInt8} {addr n : ℕ} (h : addr + n ≤ data.length) :
    validateZero data addr n = .ok (decide (∀ b ∈ slice data addr n, b = 0)) := by
  induction n generalizing addr with
  | zero => simp [validateZero, slice]
  | succ n ih =>
    have hlt : addr < data.length := by omega
    have hslice : slice data addr (n + 1) = data[addr] :: slice data (addr + 1) n := by
      rw [slice, slice, List.drop_eq_getElem_cons hlt, List.take_succ_cons]
    rw [validateZero, List.getElem?_eq_getElem hlt, hslice]
    by_cases hb : data[addr] = 0
    · simp [hb, ih (show addr + 1 + n ≤ data.length by omega)]
    · simp [hb]

lemma copyMap_eq {sym : Sym} (hin : InSection elf strtabidx dataMaps mapSzElf sym) {i : ℕ}
    (hi : i < maxMaps) (s : Loader) :
    copyMap elf strtabidx dataMaps mapSzElf i sym s =
      .ok (decide (KnownOnly dataMaps mapSzElf sym), { s with
        mapData := Function.update s.mapData i
          (entry elf strtabidx dataMaps mapSzElf (s.mapData i).fd sym) }) := by
  obtain ⟨hname, hrange⟩ := hin
  obtain ⟨name, hname⟩ := Option.isSome_iff_exists.mp hname
  have hcopy : ¬ dataMaps.length < sym.value + min mapDefSize mapSzElf := by omega
  have hmap : mapAt i s = .ok (s.mapData i, s) := by simp [mapAt, hi]
  simp only [copyMap, hname]
  rw [bind_of_ok hmap, if_neg hcopy]
  simp only [setMapData, hi, ↓reduceIte, modify_bind]
  by_cases hsz : mapDefSize < mapSzElf
  · have hmin : min mapDefSize mapSzElf = mapDefSize := by omega
    have hzero : validateZero dataMaps (sym.value + mapDefSize) (mapSzElf - mapDefSize) =
        .ok (decide (KnownOnly dataMaps mapSzElf sym)) := validateZero_eq (by omega)
    rw [if_pos hsz, hmin, hzero]
    simp [entry, hname, hmin]
  · have hempty : mapSzElf - mapDefSize = 0 := by omega
    simp [hsz, KnownOnly, entry, hname, hempty, slice]

lemma copyMaps_known {syms : List Sym} {i : ℕ}
    (hin : ∀ sym ∈ syms, InSection elf strtabidx dataMaps mapSzElf sym)
    (hknown : ∀ sym ∈ syms, KnownOnly dataMaps mapSzElf sym)
    (hi : i + syms.length ≤ maxMaps) (s : Loader) :
    copyMaps elf strtabidx dataMaps mapSzElf i syms s = .ok (((i + syms.length : ℕ) : ℤ),
      { s with mapData := placed elf strtabidx dataMaps mapSzElf i syms s.mapData }) := by
  induction syms generalizing i s with
  | nil => simp [copyMaps]
  | cons sym syms ih =>
    rw [List.length_cons] at hi
    have hhead := copyMap_eq (hin sym (by simp)) (show i < maxMaps by omega) s
    rw [decide_eq_true (hknown sym (by simp))] at hhead
    rw [copyMaps, bind_of_ok hhead, if_pos rfl,
      ih (fun x hx => hin x (by simp [hx])) (fun x hx => hknown x (by simp [hx])) (by omega),
      placed_cons, List.length_cons]
    congr 3
    omega

/-- The copy loop stops at the first newer feature in use, having copied that map as well. -/
lemma copyMaps_newer {before : List Sym} (after : List Sym) {sym : Sym} {i : ℕ}
    (hin : ∀ x ∈ before ++ [sym], InSection elf strtabidx dataMaps mapSzElf x)
    (hknown : ∀ x ∈ before, KnownOnly dataMaps mapSzElf x)
    (hnew : ¬ KnownOnly dataMaps mapSzElf sym) (hi : i + before.length < maxMaps) (s : Loader) :
    copyMaps elf strtabidx dataMaps mapSzElf i (before ++ sym :: after) s = .ok (-efbig,
      { s with
        mapData := placed elf strtabidx dataMaps mapSzElf i (before ++ [sym]) s.mapData }) := by
  induction before generalizing i s with
  | nil =>
    have hhead := copyMap_eq (hin sym (by simp)) (show i < maxMaps by simpa using hi) s
    rw [decide_eq_false hnew] at hhead
    rw [List.nil_append, copyMaps, bind_of_ok hhead]
    simp [placed_cons]
  | cons x before ih =>
    rw [List.length_cons] at hi
    have hhead := copyMap_eq (hin x (by simp)) (show i < maxMaps by omega) s
    rw [decide_eq_true (hknown x (by simp))] at hhead
    rw [List.cons_append, copyMaps, bind_of_ok hhead, if_pos rfl,
      ih (fun y hy => hin y (by simp only [List.cons_append, List.mem_cons]; exact Or.inr hy))
        (fun y hy => hknown y (by simp [hy])) (by omega), List.cons_append, placed_cons]

end Copy

section Section

lemma exists_first {α : Type*} {P : α → Prop} {l : List α} {x : α} (hx : x ∈ l) (hP : ¬ P x) :
    ∃ before y after, l = before ++ y :: after ∧ (∀ z ∈ before, P z) ∧ ¬ P y := by
  induction l with
  | nil => simp at hx
  | cons a l ih =>
    by_cases ha : P a
    · have hxl : x ∈ l := by
        rcases List.mem_cons.mp hx with rfl | h
        · exact absurd ha hP
        · exact h
      obtain ⟨before, y, after, rfl, hbefore, hy⟩ := ih hxl
      exact ⟨a :: before, y, after, rfl, by simpa [ha] using hbefore, hy⟩
    · exact ⟨[], a, l, rfl, by simp, ha⟩

def mapSyms (shndx : ℕ) (symData : List UInt8) : List Sym :=
  (symtab symData).filter fun s => s.shndx = shndx

lemma collectSyms_eq {shndx : ℕ} {acc syms : List Sym}
    (h : acc.length + (syms.filter fun s => s.shndx = shndx).length ≤ maxMaps) :
    collectSyms shndx acc syms = .ok (acc ++ syms.filter fun s => s.shndx = shndx) := by
  induction syms generalizing acc with
  | nil => simp [collectSyms]
  | cons s syms ih =>
    have hacc : acc.length < maxMaps + 1 := by omega
    rw [collectSyms, if_pos hacc]
    by_cases hs : s.shndx = shndx
    · rw [if_pos hs, ih]
      · simp [hs]
      · simp only [hs, decide_true, List.filter_cons_of_pos, List.length_cons] at h
        rw [List.length_append, List.length_singleton]
        omega
    · rw [if_neg hs, ih]
      · simp [hs]
      · simpa [hs] using h

variable (qsort : Qsort) {elf : Elf} {shndx strtabidx : ℕ} {symData : List UInt8} {scn : Section}

lemma loadElfMapsSection_eq (hscn : elf.sections[shndx]? = some scn)
    (hcount : (mapSyms shndx symData).length ≤ maxMaps) (hsome : mapSyms shndx symData ≠ [])
    (s : Loader) :
    loadElfMapsSection qsort (some shndx) elf (some (symData, strtabidx)) s =
      copyMaps elf strtabidx scn.data (scn.data.length / (mapSyms shndx symData).length) 0
        (qsort.sort (mapSyms shndx symData)) s := by
  have hcollect : collectSyms shndx [] (symtab symData) = .ok (mapSyms shndx symData) :=
    collectSyms_eq (by simpa [mapSyms] using hcount)
  have hlen := (qsort.perm (mapSyms shndx symData)).length_eq
  have hpos : ¬ (qsort.sort (mapSyms shndx symData)).length = 0 := by
    rw [hlen]
    exact fun h => hsome (List.length_eq_zero_iff.mp h)
  have hpure : (pureOr (collectSyms shndx [] (symtab symData)) : Load (List Sym)) s =
      .ok (mapSyms shndx symData, s) := by rw [hcollect]; rfl
  simp only [loadElfMapsSection, hscn]
  rw [bind_of_ok hpure, if_neg hpos, hlen]

/-- The two ways in which the function ends when all structures lie inside the section. -/
lemma loadElfMapsSection_cases (hscn : elf.sections[shndx]? = some scn)
    (hcount : (mapSyms shndx symData).length ≤ maxMaps) (hsome : mapSyms shndx symData ≠ [])
    (hin : ∀ sym ∈ mapSyms shndx symData, InSection elf strtabidx scn.data
      (scn.data.length / (mapSyms shndx symData).length) sym) (s : Loader) :
    ((∀ sym ∈ mapSyms shndx symData,
        KnownOnly scn.data (scn.data.length / (mapSyms shndx symData).length) sym) ∧
      loadElfMapsSection qsort (some shndx) elf (some (symData, strtabidx)) s =
        .ok (((mapSyms shndx symData).length : ℤ), { s with
          mapData := placed elf strtabidx scn.data
            (scn.data.length / (mapSyms shndx symData).length) 0
            (qsort.sort (mapSyms shndx symData)) s.mapData })) ∨
    ((¬ ∀ sym ∈ mapSyms shndx symData,
        KnownOnly scn.data (scn.data.length / (mapSyms shndx symData).length) sym) ∧
      ∃ maps, loadElfMapsSection qsort (some shndx) elf (some (symData, strtabidx)) s =
          .ok (-efbig, { s with mapData := maps }) ∧
        ∀ j, (mapSyms shndx symData).length ≤ j → maps j = s.mapData j) := by
  rw [loadElfMapsSection_eq qsort hscn hcount hsome]
  set syms := mapSyms shndx symData
  set size := scn.data.length / syms.length
  have hperm := qsort.perm syms
  have hlen := hperm.length_eq
  have hin' : ∀ sym ∈ qsort.sort syms, InSection elf strtabidx scn.data size sym :=
    fun sym h => hin sym (hperm.mem_iff.mp h)
  by_cases hknown : ∀ sym ∈ syms, KnownOnly scn.data size sym
  · have hrun := copyMaps_known hin' (fun sym h => hknown sym (hperm.mem_iff.mp h))
      (show 0 + (qsort.sort syms).length ≤ maxMaps by omega) s
    rw [Nat.zero_add, hlen] at hrun
    exact Or.inl ⟨hknown, hrun⟩
  · refine Or.inr ⟨hknown, ?_⟩
    push Not at hknown
    obtain ⟨x, hx, hnew⟩ := hknown
    obtain ⟨before, sym, after, hcut, hbefore, hnewer⟩ :=
      exists_first (hperm.mem_iff.mpr hx) hnew
    have hsum := congrArg List.length hcut
    rw [List.length_append, List.length_cons] at hsum
    have hrun := copyMaps_newer after (i := 0) (fun y hy => hin' y ?_) hbefore hnewer (by omega) s
    · rw [← hcut] at hrun
      refine ⟨_, hrun, fun j hj => placed_of_le ?_ _⟩
      rw [List.length_append, List.length_singleton]
      omega
    · rw [hcut]
      simp only [List.mem_append, List.mem_cons, List.not_mem_nil, or_false] at hy ⊢
      tauto

end Section

section Layout

def MapDef.words (d : MapDef) : List UInt32 :=
  [d.type, d.keySize, d.valueSize, d.maxEntries, d.mapFlags, d.innerMapIdx, d.numaNode]

def MapDef.toBytes (d : MapDef) : List UInt8 := d.words.flatMap fun w => leBytes 4 w.toNat

lemma MapDef.length_toBytes (d : MapDef) : d.toBytes.length = mapDefSize := by
  rw [toBytes, length_flatMap_records fun w _ => length_leBytes 4 w.toNat]
  rfl

lemma MapDef.field_toBytes (d : MapDef) {k : ℕ} {w : UInt32} (h : d.words[k]? = some w) :
    UInt32.ofNat (field 4 (k * 4) d.toBytes) = w := by
  have hlt : w.toNat < 256 ^ 4 := w.toNat_lt
  rw [field, toBytes, slice_flatMap (fun w _ => length_leBytes 4 w.toNat) h, ofLeBytes_leBytes,
    Nat.mod_eq_of_lt hlt, UInt32.ofNat_toNat]

/-- A structure of this loader's own size is read back field by field. -/
theorem MapDef.ofBytes_toBytes (d : MapDef) : MapDef.ofBytes d.toBytes = d := by
  have h0 := d.field_toBytes (k := 0) rfl
  have h1 := d.field_toBytes (k := 1) rfl
  have h2 := d.field_toBytes (k := 2) rfl
  have h3 := d.field_toBytes (k := 3) rfl
  have h4 := d.field_toBytes (k := 4) rfl
  have h5 := d.field_toBytes (k := 5) rfl
  have h6 := d.field_toBytes (k := 6) rfl
  simp only [Nat.zero_mul, Nat.one_mul, Nat.reduceMul] at h0 h1 h2 h3 h4 h5 h6
  simp only [ofBytes, h0, h1, h2, h3, h4, h5, h6]

lemma MapDef.ofBytes_append_zeros {bs zs : List UInt8} (h : ∀ b ∈ zs, b = 0) :
    MapDef.ofBytes (bs ++ zs) = MapDef.ofBytes bs := by
  simp only [ofBytes, field_append_zeros h]

/-- A map as the program source declares it. -/
structure Decl where
  name : List UInt8
  mapDef : MapDef
  deriving DecidableEq

/-- A declaration in an object whose structure has `size` bytes: an older, shorter one stops
early, a newer one goes on with zeros. -/
def Decl.record (size : ℕ) (d : Decl) : List UInt8 :=
  (d.mapDef.toBytes ++ List.replicate (size - mapDefSize) 0).take size

/-- The section `shndx` holds the declared maps one after the other, and the symbol table has
one symbol per map, in any order and among others. -/
structure MapsLayout (elf : Elf) (shndx strtabidx : ℕ) (symData : List UInt8) (size : ℕ)
    (decls : List Decl) : Prop where
  size_pos : 0 < size
  nonempty : decls ≠ []
  count : decls.length ≤ maxMaps
  fits : ∀ d ∈ decls, ∀ b ∈ d.mapDef.toBytes.drop size, b = 0
  body : ∃ scn, elf.sections[shndx]? = some scn ∧ scn.data = decls.flatMap (Decl.record size)
  symbols : ∃ sym : ℕ → Sym,
    (mapSyms shndx symData).Perm ((List.range decls.length).map sym) ∧
    ∀ k d, decls[k]? = some d →
      (sym k).value = k * size ∧ elfStrptr elf strtabidx (sym k).name = some d.name

lemma Decl.length_record (size : ℕ) (d : Decl) : (d.record size).length = size := by
  simp only [record, List.length_take, List.length_append, d.mapDef.length_toBytes,
    List.length_replicate]
  omega

lemma Decl.ofBytes_record {size : ℕ} {d : Decl} (h : ∀ b ∈ d.mapDef.toBytes.drop size, b = 0) :
    MapDef.ofBytes (slice (d.record size) 0 (min mapDefSize size)) = d.mapDef := by
  have hlen := d.mapDef.length_toBytes
  have hknown : slice (d.record size) 0 (min mapDefSize size) = d.mapDef.toBytes.take size := by
    rw [slice, List.drop_zero, record, List.take_take, List.take_append_of_le_length (by omega),
      show min (min mapDefSize size) size = min size d.mapDef.toBytes.length by omega,
      ← List.take_eq_take_min]
  have hpad : MapDef.ofBytes (d.mapDef.toBytes.take size ++ d.mapDef.toBytes.drop size) =
      MapDef.ofBytes (d.mapDef.toBytes.take size) := MapDef.ofBytes_append_zeros h
  rw [List.take_append_drop] at hpad
  rw [hknown, ← hpad, MapDef.ofBytes_toBytes]

lemma Decl.rest_record (size : ℕ) (d : Decl) :
    ∀ b ∈ slice (d.record size) mapDefSize (size - mapDefSize), b = 0 := by
  intro b hb
  have hlen := d.mapDef.length_toBytes
  by_cases hsz : mapDefSize ≤ size
  · have hrec : d.record size = d.mapDef.toBytes ++ List.replicate (size - mapDefSize) 0 := by
      apply List.take_of_length_le
      rw [List.length_append, hlen, List.length_replicate]
      omega
    rw [hrec, slice, List.drop_left' hlen] at hb
    exact List.eq_of_mem_replicate (List.mem_of_mem_take hb)
  · simp [slice, show size - mapDefSize = 0 by omega] at hb

variable (qsort : Qsort) {elf : Elf} {shndx strtabidx size : ℕ} {symData : List UInt8}
  {decls : List Decl}

/-- Sorting by offset puts the symbols in the order of declaration. -/
lemma sort_layout {sym : ℕ → Sym} {n : ℕ} (hsize : 0 < size) {l : List Sym}
    (hperm : l.Perm ((List.range n).map sym)) (hval : ∀ k < n, (sym k).value = k * size) :
    qsort.sort l = (List.range n).map sym := by
  have hsorted : ((List.range n).map sym).Pairwise fun a b => a.value ≤ b.value := by
    rw [List.pairwise_map]
    refine List.pairwise_lt_range.imp_of_mem fun {j k} hj hk hjk => ?_
    rw [hval j (List.mem_range.mp hj), hval k (List.mem_range.mp hk)]
    exact Nat.mul_le_mul_right size hjk.le
  have hperm' := (qsort.perm l).trans hperm
  refine hperm'.eq_of_pairwise ?_ (qsort.sorted l) hsorted
  intro a b ha hb hab hba
  obtain ⟨j, hj, rfl⟩ := List.mem_map.mp (hperm'.mem_iff.mp ha)
  obtain ⟨k, hk, rfl⟩ := List.mem_map.mp hb
  have heq : j * size = k * size := by
    rw [← hval j (List.mem_range.mp hj), ← hval k (List.mem_range.mp hk)]
    omega
  rw [Nat.eq_of_mul_eq_mul_right hsize heq]

lemma knownOnly_record {data : List UInt8} {sym : Sym} {d : Decl}
    (h : slice data sym.value size = d.record size) : KnownOnly data size sym := by
  intro b hb
  by_cases hle : mapDefSize ≤ size
  · have hrest := d.rest_record size
    rw [← h, slice_slice (by omega)] at hrest
    exact hrest b hb
  · simp [slice, show size - mapDefSize = 0 by omega] at hb

lemma entry_record {data : List UInt8} {sym : Sym} {d : Decl} (fd : Int32)
    (h : slice data sym.value size = d.record size)
    (hfits : ∀ b ∈ d.mapDef.toBytes.drop size, b = 0)
    (hname : elfStrptr elf strtabidx sym.name = some d.name) :
    entry elf strtabidx data size fd sym = ⟨fd, d.name, sym.value, d.mapDef⟩ := by
  have hdef := Decl.ofBytes_record hfits
  rw [← h, slice_slice (by omega), Nat.add_zero] at hdef
  rw [entry, hname, hdef, Option.getD_some]

/-- Whatever the order of the symbols and the age of the compiler, the loader recovers the
declarations, in their order. -/
theorem loadElfMapsSection_layout
    (h : MapsLayout elf shndx strtabidx symData size decls) (s : Loader) :
    ∃ maps : ℕ → MapData,
      loadElfMapsSection qsort (some shndx) elf (some (symData, strtabidx)) s =
        .ok ((decls.length : ℤ), { s with mapData := maps }) ∧
      (∀ k d, decls[k]? = some d →
        maps k = ⟨(s.mapData k).fd, d.name, k * size, d.mapDef⟩) ∧
      ∀ j, decls.length ≤ j → maps j = s.mapData j := by
  obtain ⟨scn, hscn, hdata⟩ := h.body
  obtain ⟨sym, hperm, hsym⟩ := h.symbols
  have hlen : (mapSyms shndx symData).length = decls.length := by simpa using hperm.length_eq
  have hsome : mapSyms shndx symData ≠ [] := by
    intro hnil
    rw [hnil] at hlen
    exact h.nonempty (List.length_eq_zero_iff.mp hlen.symm)
  have hbytes : scn.data.length = decls.length * size := by
    rw [hdata]
    exact length_flatMap_records fun d _ => d.length_record size
  have hsz : scn.data.length / (mapSyms shndx symData).length = size := by
    rw [hbytes, hlen, Nat.mul_div_cancel_left]
    exact List.length_pos_iff.mpr h.nonempty
  have hrec : ∀ k d, decls[k]? = some d → slice scn.data (sym k).value size = d.record size := by
    intro k d hd
    rw [(hsym k d hd).1, hdata]
    exact slice_flatMap (fun d _ => d.length_record size) hd
  have hsort : qsort.sort (mapSyms shndx symData) = (List.range decls.length).map sym :=
    sort_layout qsort h.size_pos hperm fun k hk => (hsym k _ (List.getElem?_eq_getElem hk)).1
  have hall : ∀ x ∈ (List.range decls.length).map sym,
      InSection elf strtabidx scn.data size x ∧ KnownOnly scn.data size x := by
    intro x hx
    obtain ⟨k, hk, rfl⟩ := List.mem_map.mp hx
    have hk' := List.mem_range.mp hk
    have hd := List.getElem?_eq_getElem hk'
    obtain ⟨hv, hn⟩ := hsym k _ hd
    refine ⟨⟨by simp [hn], ?_⟩, knownOnly_record (hrec k _ hd)⟩
    rw [hv, hbytes, ← Nat.succ_mul]
    exact Nat.mul_le_mul_right size hk'
  have hrun := copyMaps_known (fun x hx => (hall x hx).1) (fun x hx => (hall x hx).2)
    (show 0 + _ ≤ maxMaps by simpa using h.count) s
  rw [Nat.zero_add, List.length_map, List.length_range] at hrun
  rw [loadElfMapsSection_eq qsort hscn (hlen ▸ h.count) hsome, hsz, hsort, hrun]
  refine ⟨_, rfl, ?_, fun j hj => placed_of_le (by simpa using hj) _⟩
  intro k d hd
  have hk : k < decls.length := (List.getElem?_eq_some_iff.mp hd).1
  obtain ⟨hv, hn⟩ := hsym k d hd
  have hget : ((List.range decls.length).map sym)[k]? = some (sym k) := by simp [hk]
  rw [placed_zero hget, entry_record _ (hrec k d hd) (h.fits d (List.mem_of_getElem? hd)) hn,
    hv]

end Layout

section Sample

def insertionQsort : Qsort where
  sort := List.insertionSort fun a b => a.value ≤ b.value
  perm := List.perm_insertionSort _
  sorted l := by
    have : Std.Total fun a b : Sym => a.value ≤ b.value := ⟨fun a b => Nat.le_total _ _⟩
    have : IsTrans Sym fun a b => a.value ≤ b.value := ⟨fun a b c => Nat.le_trans⟩
    exact List.pairwise_insertionSort _ l

def cstr (text : String) : List UInt8 := ascii text ++ [0]

def symBytes (name shndx value : ℕ) : List UInt8 :=
  leBytes 4 name ++ [0, 0] ++ leBytes 2 shndx ++ leBytes 8 value ++ leBytes 8 0

def sampleDecls : List Decl :=
  [⟨ascii "my_read_map", ⟨2, 4, 16, 1, 0, 0, 0⟩⟩, ⟨ascii "jmp_table", ⟨3, 4, 4, 8, 0, 0, 0⟩⟩]

def sampleSymbols : List UInt8 := symBytes 0 0 0 ++ symBytes 13 3 28 ++ symBytes 1 3 0

/-- An object with two maps and one program that refers to the second of them. -/
def sampleObject : Elf where
  shstrndx := 8
  sections :=
    [⟨0, .null, false, 0, 0, 0, []⟩,
      ⟨1, .progbits, false, 0, 0, 0, cstr "GPL"⟩,
      ⟨9, .progbits, false, 0, 0, 0, [0, 15, 4, 0]⟩,
      ⟨17, .progbits, false, 0, 0, 0, sampleDecls.flatMap (Decl.record 28)⟩,
      ⟨22, .progbits, true, 0, 0, 0,
        [0x18, 2, 0, 0, 0, 0, 0, 0] ++ [0, 0, 0, 0, 0, 0, 0, 0] ++ [0x95, 0, 0, 0, 0, 0, 0, 0]⟩,
      ⟨57, .rel, false, 6, 4, 16, leBytes 8 0 ++ leBytes 4 1 ++ leBytes 4 1⟩,
      ⟨31, .symtab, false, 7, 0, 24, sampleSymbols⟩,
      ⟨49, .strtab, false, 0, 0, 0, [0] ++ cstr "my_read_map" ++ cstr "jmp_table"⟩,
      ⟨39, .strtab, false, 0, 0, 0, [0] ++ cstr "license" ++ cstr "version" ++ cstr "maps" ++
        cstr "kprobe/1" ++ cstr ".symtab" ++ cstr ".shstrtab" ++ cstr ".strtab" ++
        cstr ".relkprobe/1"⟩]

def grantingKernel : Kernel := fun log _ => ⟨.ofNat (3 + log.length), []⟩

lemma sampleObject_layout : MapsLayout sampleObject 3 7 sampleSymbols 28 sampleDecls where
  size_pos := by decide
  nonempty := by decide
  count := by decide
  fits := by decide +kernel
  body := ⟨_, rfl, rfl⟩
  symbols := by
    refine ⟨fun k => if k = 0 then ⟨1, 3, 0⟩ else ⟨13, 3, 28⟩, by decide +kernel, ?_⟩
    rintro (_ | _ | k) d hd
    · obtain rfl := Option.some.inj hd
      decide +kernel
    · obtain rfl := Option.some.inj hd
      decide +kernel
    · cases hd

end Sample

section Accept

variable (qsort : Qsort) {elf : Elf} {shndx strtabidx : ℕ} {symData : List UInt8} {scn : Section}

/-- For a section whose structures lie inside it, the loader accepts the section exactly
when no structure is in use beyond what it knows, and otherwise refuses it as too big; in
either case only the entries of its maps are written. -/
theorem loadElfMapsSection_accepts_iff (hscn : elf.sections[shndx]? = some scn)
    (hcount : (mapSyms shndx symData).length ≤ maxMaps) (hsome : mapSyms shndx symData ≠ [])
    (hin : ∀ sym ∈ mapSyms shndx symData, InSection elf strtabidx scn.data
      (scn.data.length / (mapSyms shndx symData).length) sym) (s : Loader) :
    ∃ (r : ℤ) (maps : ℕ → MapData),
      loadElfMapsSection qsort (some shndx) elf (some (symData, strtabidx)) s =
        .ok (r, { s with mapData := maps }) ∧
      (∀ j, (mapSyms shndx symData).length ≤ j → maps j = s.mapData j) ∧
      (r = (mapSyms shndx symData).length ↔ ∀ sym ∈ mapSyms shndx symData,
        KnownOnly scn.data (scn.data.length / (mapSyms shndx symData).length) sym) ∧
      (r = (mapSyms shndx symData).length ∨ r = -efbig) := by
  rcases loadElfMapsSection_cases qsort hscn hcount hsome hin s with
    ⟨hknown, hrun⟩ | ⟨hnew, maps, hrun, hframe⟩
  · refine ⟨_, _, hrun, fun j hj => placed_of_le ?_ _, ⟨fun _ => hknown, fun _ => rfl⟩, Or.inl rfl⟩
    rw [(qsort.perm _).length_eq, Nat.zero_add]
    exact hj
  · refine ⟨_, maps, hrun, hframe, ⟨fun h => ?_, fun h => absurd h hnew⟩, Or.inr rfl⟩
    simp only [efbig] at h
    omega

theorem loadElfMapsSection_accepts_iff_sample : ∃ (r : ℤ) (maps : ℕ → MapData),
    loadElfMapsSection insertionQsort (some 3) sampleObject (some (sampleSymbols, 7))
      Loader.initial = .ok (r, { Loader.initial with mapData := maps }) ∧ r = 2 := by
  have hlen : (mapSyms 3 sampleSymbols).length = 2 := by decide +kernel
  obtain ⟨r, maps, hrun, -, hiff, -⟩ := @loadElfMapsSection_accepts_iff insertionQsort
    sampleObject 3 7 sampleSymbols _ rfl (by decide +kernel) (by decide +kernel)
    (by decide +kernel) Loader.initial
  refine ⟨r, maps, hrun, ?_⟩
  rw [hlen] at hiff
  exact hiff.mpr (by decide +kernel)

end Accept

end FilterReduce.BpfLoad
