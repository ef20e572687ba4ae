import FilterReduce.Relocation
import FilterReduce.LoadMaps

/-!
# The second pass

The relocation sections are applied one after the other. Only the bytes of
executable sections change, so what a later step reads of the file, names and
headers and symbols, is what the compiler wrote.
-/
namespace FilterReduce.BpfLoad

open ByteLayout ElfObject StateProgram

section Patched

def dataOf (elf : Elf) (i : ℕ) : List UInt8 := ((elf.sections[i]?).map Section.data).getD []

lemma dataOf_of_some {elf : Elf} {i : ℕ} {sec : Section} (h : elf.sections[i]? = some sec) :
    dataOf elf i = sec.data := by simp [dataOf, h]

/-- The same file, up to the bytes of its `SHT_PROGBITS` sections. -/
structure Patched (elf elf' : Elf) : Prop where
  shstrndx : elf'.shstrndx = elf.shstrndx
  length : elf'.sections.length = elf.sections.length
  sec : ∀ i sec, elf.sections[i]? = some sec →
    elf'.sections[i]? = some { sec with data := dataOf elf' i } ∧
    (dataOf elf' i).length = sec.data.length ∧
    (sec.type ≠ .progbits → dataOf elf' i = sec.data)

lemma Patched.refl (elf : Elf) : Patched elf elf := by
  refine ⟨rfl, rfl, fun i sec h => ?_⟩
  rw [dataOf_of_some h]
  exact ⟨h, rfl, fun _ => rfl⟩

lemma Patched.trans {elf elf' elf'' : Elf} (h : Patched elf elf') (h' : Patched elf' elf'') :
    Patched elf elf'' := by
  refine ⟨h'.shstrndx.trans h.shstrndx, h'.length.trans h.length, fun i sec hi => ?_⟩
  obtain ⟨h1, h2, h3⟩ := h.sec i sec hi
  obtain ⟨h1', h2', h3'⟩ := h'.sec i _ h1
  exact ⟨h1', h2'.trans h2, fun hne => (h3' hne).trans (h3 hne)⟩

lemma getElem?_setData (elf : Elf) (j : ℕ) (data : List UInt8) (i : ℕ) :
    (elf.setData j data).sections[i]? =
      (elf.sections[i]?).map fun s => if j = i then { s with data := data } else s := by
  rw [Elf.setData, List.getElem?_modify]
  rfl

lemma patched_setData {elf : Elf} {j : ℕ} {prog : Section} (hj : elf.sections[j]? = some prog)
    (htype : prog.type = .progbits) {data : List UInt8} (hlen : data.length = prog.data.length) :
    Patched elf (elf.setData j data) := by
  refine ⟨rfl, List.length_modify .., fun i sec hi => ?_⟩
  have hget := getElem?_setData elf j data i
  rw [hi, Option.map_some] at hget
  by_cases hij : j = i
  · subst hij
    obtain rfl : prog = sec := Option.some.inj (hj.symm.trans hi)
    rw [if_pos rfl] at hget
    rw [dataOf_of_some hget]
    exact ⟨hget, hlen, fun hne => absurd htype hne⟩
  · rw [if_neg hij] at hget
    rw [dataOf_of_some hget]
    exact ⟨hget, rfl, fun _ => rfl⟩

lemma Patched.strptr_eq {elf elf' : Elf} (h : Patched elf elf') (idx off : ℕ) :
    elfStrptr elf' idx off = elfStrptr elf idx off := by
  rw [elfStrptr, elfStrptr]
  cases hs : elf.sections[idx]? with
  | none =>
    have hnone : elf'.sections[idx]? = none := by
      rw [List.getElem?_eq_none_iff] at hs ⊢
      rw [h.length]
      exact hs
    rw [hnone]
  | some sec =>
    obtain ⟨h1, -, h3⟩ := h.sec idx sec hs
    rw [h1]
    by_cases htype : sec.type = .strtab
    · have hdata := h3 (by rw [htype]; simp)
      simp [htype, hdata]
    · simp [htype]

/-- Names and headers are those of the original file. -/
lemma Patched.getSec_eq {elf elf' : Elf} (h : Patched elf elf') (i : ℕ) :
    getSec elf' i = (getSec elf i).map fun x => (x.1, { x.2 with data := dataOf elf' i }) := by
  rw [getSec, getSec]
  cases hs : elf.sections[i]? with
  | none =>
    have hnone : elf'.sections[i]? = none := by
      rw [List.getElem?_eq_none_iff] at hs ⊢
      rw [h.length]
      exact hs
    rw [hnone]
    rfl
  | some sec =>
    obtain ⟨h1, h2, -⟩ := h.sec i sec hs
    have hempty : dataOf elf' i = [] ↔ sec.data = [] := by
      rw [← List.length_eq_zero_iff, h2, List.length_eq_zero_iff]
    rw [h1]
    simp only [h.shstrndx, h.strptr_eq]
    cases elfStrptr elf elf.shstrndx sec.name with
    | none => rfl
    | some shname =>
      by_cases hd : sec.data = []
      · simp [hd, hempty.mpr hd]
      · simp [hd, mt hempty.mp hd]

lemma getSec_sections {elf : Elf} {i : ℕ} {x : List UInt8 × Section}
    (h : getSec elf i = some x) : elf.sections[i]? = some x.2 := by
  rw [getSec] at h
  cases hs : elf.sections[i]? with
  | none => simp [hs] at h
  | some sec =>
    simp only [hs] at h
    cases hn : elfStrptr elf elf.shstrndx sec.name with
    | none => simp [hn] at h
    | some shname =>
      simp only [hn] at h
      split at h
      · cases h
      · obtain rfl := Option.some.inj h
        rfl

end Patched

section Pass

/-- What the second pass does with section `i`: which section it relocates, and with what. -/
def relocates (elf : Elf) (processed : ℕ → Bool) (i : ℕ) : Option (ℕ × Section) :=
  if processed i then none
  else
    (getSec elf i).bind fun x =>
      if x.2.type ≠ .rel then none
      else
        (getSec elf x.2.info).bind fun y =>
          if y.2.type ≠ .progbits ∨ y.2.execinstr = false then none
          else some (x.2.info, x.2)

/-- All relocations to section `j`, in the order in which they are made. -/
def relsTo (elf : Elf) (processed : ℕ → Bool) (is : List ℕ) (j : ℕ) : List Rel :=
  is.flatMap fun i =>
    match relocates elf processed i with
    | some (j', sec) => if j' = j then relsIn sec else []
    | none => []

lemma relocates_patched {elf elf' : Elf} (h : Patched elf elf') (processed : ℕ → Bool) (i : ℕ) :
    relocates elf' processed i = relocates elf processed i := by
  rw [relocates, relocates, h.getSec_eq]
  cases hx : getSec elf i with
  | none => rfl
  | some x =>
    simp only [Option.map_some, Option.bind_some, h.getSec_eq]
    by_cases htype : x.2.type = .rel
    · -- a relocation section is no program, so its entries are the original ones
      have hdata : dataOf elf' i = x.2.data :=
        (h.sec i x.2 (getSec_sections hx)).2.2 (by rw [htype]; simp)
      cases getSec elf x.2.info with
      | none => rfl
      | some y => simp only [hdata, Option.map_some, Option.bind_some]
    · simp [htype]

lemma relocates_target {elf : Elf} {processed : ℕ → Bool} {i j : ℕ} {sec : Section}
    (h : relocates elf processed i = some (j, sec)) :
    ∃ prog, elf.sections[j]? = some prog ∧ prog.type = .progbits := by
  rw [relocates] at h
  split at h
  · cases h
  obtain ⟨x, -, h⟩ := Option.bind_eq_some_iff.mp h
  split at h
  · cases h
  obtain ⟨y, hy, h⟩ := Option.bind_eq_some_iff.mp h
  split at h
  · cases h
  rename_i hprog
  obtain ⟨rfl, -⟩ := Prod.mk.inj (Option.some.inj h)
  push Not at hprog
  exact ⟨y.2, getSec_sections hy, hprog.1⟩

lemma relocateSection_eq (symbols : List Sym) (nrMaps : ℕ) (elf : Elf) {i : ℕ} (hi : i < 128)
    (s : Loader) :
    relocateSection symbols nrMaps elf i s =
      match relocates elf s.processedSec i with
      | none => .ok (elf, s)
      | some (j, sec) =>
        (parseReloAndApply symbols s.mapData nrMaps sec (dataOf elf j)).map fun x =>
          (elf.setData j x.2,
            { s with processedSec := Function.update s.processedSec i true }) := by
  have hproc : isProcessed i s = .ok (s.processedSec i, s) := by simp [isProcessed, hi]
  rw [relocateSection, bind_of_ok hproc, relocates]
  by_cases hdone : s.processedSec i = true
  · simp [hdone]
  cases hx : getSec elf i with
  | none => simp [hdone]
  | some x =>
    obtain ⟨shname, sec⟩ := x
    simp only [hdone, Bool.false_eq_true, ↓reduceIte, Option.bind_some]
    by_cases htype : sec.type = .rel
    · cases hy : getSec elf sec.info with
      | none => simp [htype]
      | some y =>
        obtain ⟨progname, prog⟩ := y
        by_cases hprog : prog.type ≠ .progbits ∨ prog.execinstr = false
        · simp [htype, hprog]
        · have hdata : dataOf elf sec.info = prog.data := dataOf_of_some (getSec_sections hy)
          simp only [htype, ne_eq, not_true_eq_false, ↓reduceIte, Option.bind_some]
          rw [if_neg hprog, if_neg hprog]
          simp only [setProcessed, hi, ↓reduceIte, modify_bind, get_bind]
          cases hparse : parseReloAndApply symbols s.mapData nrMaps sec prog.data with
          | error e =>
            rw [bind_of_error (pureOr_error e _)]
            simp [hdata, hparse, Except.map]
          | ok x =>
            rw [bind_of_ok (pureOr_ok x _)]
            simp [hdata, hparse, Except.map]
    · simp [htype]

lemma linkable_iff {symbols : List Sym} {maps : ℕ → MapData} {nrMaps : ℕ} {data : List UInt8}
    {rel : Rel} :
    Linkable symbols maps nrMaps data rel ↔
      ((insns data)[insnIdx rel]?.map fun i => i.shape.1) = some bpfLdImmDw ∧
        ∃ j, RefersTo symbols maps nrMaps rel j := by
  have hcode : 8 * insnIdx rel + 8 ≤ data.length →
      data[8 * insnIdx rel]? = some (byteAt (8 * insnIdx rel) data) := by
    intro hfull
    have hlt : 8 * insnIdx rel < data.length := by omega
    rw [byteAt, slice, List.drop_eq_getElem_cons hlt, List.getElem?_eq_getElem hlt]
    rfl
  rw [getElem?_insns]
  by_cases hfull : 8 * insnIdx rel + 8 ≤ data.length
  · rw [if_pos hfull, ofBytes_slice, Option.map_some]
    constructor
    · intro h
      exact ⟨(hcode hfull).symm.trans h.code, h.map⟩
    · rintro ⟨hc, hm⟩
      exact ⟨hfull, (hcode hfull).trans hc, hm⟩
  · rw [if_neg hfull]
    constructor
    · intro h
      exact absurd h.full hfull
    · rintro ⟨hc, -⟩
      cases hc

/-- Earlier relocations decide nothing about later ones. -/
lemma linkable_preserved_iff {symbols : List Sym} {maps : ℕ → MapData} {nrMaps : ℕ}
    {data data' : List UInt8} (hshape : (insns data').map Insn.shape = (insns data).map Insn.shape)
    (rel : Rel) :
    Linkable symbols maps nrMaps data' rel ↔ Linkable symbols maps nrMaps data rel := by
  have hget := congrArg (fun l => l[insnIdx rel]?.map fun x => x.1) hshape
  simp only [List.getElem?_map, Option.map_map] at hget
  rw [linkable_iff, linkable_iff]
  exact and_congr_left fun _ => iff_of_eq (congrArg (· = some bpfLdImmDw) hget)

lemma linked_linked (f g : ℕ → Option Int32) (is : List Insn) :
    linked f (linked g is) = linked (fun i => (f i).or (g i)) is := by
  apply List.ext_getElem?
  intro i
  simp only [linked, List.getElem?_mapIdx, Option.map_map]
  cases f i <;> cases g i <;> cases is[i]? <;> simp [Insn.link]

structure Relinked (symbols : List Sym) (nrMaps : ℕ) (elf : Elf) (s : Loader) (is : List ℕ)
    (elf' : Elf) (t : Loader) : Prop where
  patched : Patched elf elf'
  frame : t = { s with processedSec := t.processedSec }
  processed : ∀ i, t.processedSec i =
    (s.processedSec i || decide (i ∈ is ∧ (relocates elf s.processedSec i).isSome))
  preserved : ∀ j, Preserved (relsTo elf s.processedSec is j) (dataOf elf j) (dataOf elf' j)
  linked : ∀ j, (∀ rel ∈ relsTo elf s.processedSec is j,
      Linkable symbols s.mapData nrMaps (dataOf elf j) rel) →
    insns (dataOf elf' j) =
      linked (target symbols s.mapData nrMaps (relsTo elf s.processedSec is j))
        (insns (dataOf elf j))

lemma Relinked.nil (symbols : List Sym) (nrMaps : ℕ) (elf : Elf) (s : Loader) :
    Relinked symbols nrMaps elf s [] elf s :=
  ⟨Patched.refl elf, rfl, by simp, fun _ => Preserved.refl _ _,
    fun _ _ => (linked_target_nil _).symm⟩

lemma dataOf_setData {elf : Elf} {j : ℕ} {prog : Section} (hj : elf.sections[j]? = some prog)
    (data : List UInt8) (i : ℕ) :
    dataOf (elf.setData j data) i = if j = i then data else dataOf elf i := by
  rw [dataOf, getElem?_setData, dataOf]
  by_cases hij : j = i
  · subst hij
    simp [hj]
  · simp [hij]

lemma relsTo_cons (elf : Elf) (processed : ℕ → Bool) (i : ℕ) (is : List ℕ) (j : ℕ) :
    relsTo elf processed (i :: is) j =
      relsTo elf processed [i] j ++ relsTo elf processed is j := by
  simp [relsTo]

lemma relocates_congr {p q : ℕ → Bool} {i : ℕ} (h : p i = q i) (elf : Elf) :
    relocates elf p i = relocates elf q i := by
  rw [relocates, relocates, h]

lemma relsTo_congr {elf elf' : Elf} (h : Patched elf elf') {p q : ℕ → Bool} {is : List ℕ}
    (hpq : ∀ i ∈ is, q i = p i) (j : ℕ) : relsTo elf' q is j = relsTo elf p is j := by
  rw [relsTo, relsTo]
  refine List.flatMap_congr fun i hi => ?_
  rw [relocates_patched h, relocates_congr (hpq i hi)]

lemma relocateSection_lt {symbols : List Sym} {nrMaps : ℕ} {elf elf' : Elf} {i : ℕ}
    {s t : Loader} (h : relocateSection symbols nrMaps elf i s = .ok (elf', t)) : i < 128 := by
  by_contra hi
  have hproc : isProcessed i s = .error .outOfBounds := by simp [isProcessed, hi]
  rw [relocateSection, bind_of_error hproc] at h
  cases h

lemma relinked_one {symbols : List Sym} {nrMaps : ℕ} {elf elf' : Elf} {i : ℕ} {s t : Loader}
    (h : relocateSection symbols nrMaps elf i s = .ok (elf', t)) :
    Relinked symbols nrMaps elf s [i] elf' t := by
  rw [relocateSection_eq symbols nrMaps elf (relocateSection_lt h)] at h
  cases hrel : relocates elf s.processedSec i with
  | none =>
    rw [hrel] at h
    obtain ⟨rfl, rfl⟩ := Prod.mk.inj (Except.ok.inj h)
    refine ⟨Patched.refl _, rfl, fun k => ?_, fun _ => Preserved.refl _ _, fun j _ => ?_⟩
    · by_cases hk : k = i
      · simp [hk, hrel]
      · simp [hk]
    · simp [relsTo, hrel, linked_target_nil]
  | some x =>
    obtain ⟨j₀, sec⟩ := x
    rw [hrel] at h
    obtain ⟨prog, hprog, htype⟩ := relocates_target hrel
    have hdata := dataOf_of_some hprog
    cases hparse : parseReloAndApply symbols s.mapData nrMaps sec (dataOf elf j₀) with
    | error e => simp [hparse, Except.map] at h
    | ok y =>
      obtain ⟨r, insn⟩ := y
      simp only [hparse, Except.map, Except.ok.injEq, Prod.mk.injEq] at h
      obtain ⟨rfl, rfl⟩ := h
      obtain ⟨-, hloop, -⟩ := parseReloAndApply_eq_ok_iff.mp hparse
      have hpres := applyRels_preserved hloop
      have hrels : ∀ j, relsTo elf s.processedSec [i] j = if j₀ = j then relsIn sec else [] := by
        simp [relsTo, hrel]
      refine ⟨patched_setData hprog htype (hdata ▸ hpres.length), rfl, fun k => ?_, fun j => ?_,
        fun j hj => ?_⟩
      · by_cases hk : k = i
        · simp [hk, hrel]
        · simp [hk]
      · rw [dataOf_setData hprog, hrels]
        split
        · rename_i heq
          rw [← heq]
          exact hpres
        · exact Preserved.refl _ _
      · rw [hrels] at hj ⊢
        rw [dataOf_setData hprog]
        by_cases hjj : j₀ = j
        · subst hjj
          rw [if_pos rfl] at hj
          obtain ⟨insn', hrun, hins⟩ := applyRels_linkable hj
          rw [hloop] at hrun
          obtain ⟨-, rfl⟩ := Prod.mk.inj (Except.ok.inj hrun)
          rw [if_pos rfl, if_pos rfl, hins]
        · rw [if_neg hjj, if_neg hjj, linked_target_nil]

lemma Relinked.cons {symbols : List Sym} {nrMaps : ℕ} {elf elf' elf'' : Elf} {s t u : Loader}
    {i : ℕ} {is : List ℕ} (hi : i ∉ is) (h : Relinked symbols nrMaps elf s [i] elf' t)
    (h' : Relinked symbols nrMaps elf' t is elf'' u) :
    Relinked symbols nrMaps elf s (i :: is) elf'' u := by
  have hsame : ∀ k ∈ is, t.processedSec k = s.processedSec k := by
    intro k hk
    have hki : k ≠ i := fun heq => hi (heq ▸ hk)
    rw [h.processed]
    simp [hki]
  have hmaps : t.mapData = s.mapData := by rw [h.frame]
  refine ⟨h.patched.trans h'.patched, ?_, fun k => ?_, fun j => ?_, fun j hj => ?_⟩
  · rw [h'.frame, h.frame]
  · rw [h'.processed, h.processed, relocates_patched h.patched]
    by_cases hk : k ∈ is
    · have hki : k ≠ i := fun heq => hi (heq ▸ hk)
      rw [relocates_congr (hsame k hk)]
      simp [hk, hki]
    · simp [hk]
  · have hlater := h'.preserved j
    rw [relsTo_congr h.patched hsame] at hlater
    rw [relsTo_cons]
    exact (h.preserved j).append hlater
  · rw [relsTo_cons] at hj ⊢
    have hfirst := h.linked j fun rel hr => hj rel (List.mem_append_left _ hr)
    have hsecond := h'.linked j
    rw [relsTo_congr h.patched hsame, hmaps] at hsecond
    have hlater : ∀ rel ∈ relsTo elf s.processedSec is j,
        Linkable symbols s.mapData nrMaps (dataOf elf' j) rel := fun rel hr =>
      (linkable_preserved_iff (h.preserved j).shape rel).mpr (hj rel (List.mem_append_right _ hr))
    rw [hsecond hlater, hfirst, linked_linked]
    congr 1
    funext k
    exact (lastTo_append _ _ _ k).symm

theorem relinked_sections {symbols : List Sym} {nrMaps : ℕ} {is : List ℕ} (hnodup : is.Nodup)
    {elf elf' : Elf} {s t : Loader}
    (h : is.foldlM (relocateSection symbols nrMaps) elf s = .ok (elf', t)) :
    (∀ i ∈ is, i < 128) ∧ Relinked symbols nrMaps elf s is elf' t := by
  induction is generalizing elf s with
  | nil =>
    obtain ⟨rfl, rfl⟩ := Prod.mk.inj (Except.ok.inj h)
    exact ⟨by simp, Relinked.nil _ _ _ _⟩
  | cons i is ih =>
    rw [List.foldlM_cons] at h
    obtain ⟨elf₁, s₁, hhead, h⟩ := bind_eq_ok_iff.mp h
    obtain ⟨hni, hnd⟩ := List.nodup_cons.mp hnodup
    obtain ⟨hlt, hrest⟩ := ih hnd h
    exact ⟨List.forall_mem_cons.mpr ⟨relocateSection_lt hhead, hlt⟩,
      Relinked.cons hni (relinked_one hhead) hrest⟩

end Pass

end FilterReduce.BpfLoad
