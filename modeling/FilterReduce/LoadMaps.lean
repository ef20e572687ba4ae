import FilterReduce.BpfLoad

/-!
# Creating the maps

`load_maps` asks the kernel for the maps in the order of `map_data` and stops at
the first refusal. What it records and what the kernel saw are described together,
since later maps may refer to the descriptors of earlier ones.
-/
namespace FilterReduce.BpfLoad

open StateProgram

section Request

def Loader.asked (kernel : Kernel) (s : Loader) (q : Request) : Loader :=
  { s with log := s.log ++ [(q, kernel s.log q)] }

lemma ask_apply (kernel : Kernel) (q : Request) (s : Loader) :
    ask kernel q s = .ok (kernel s.log q, s.asked kernel q) := rfl

/-- The answers in `new` are those of the kernel, after all that was asked before. -/
def Answered (kernel : Kernel) : Log → Log → Prop
  | _, [] => True
  | log, e :: new => e.2 = kernel log e.1 ∧ Answered kernel (log ++ [e]) new

lemma answered_append {kernel : Kernel} {log new new' : Log} :
    Answered kernel log (new ++ new') ↔
      Answered kernel log new ∧ Answered kernel (log ++ new) new' := by
  induction new generalizing log with
  | nil => simp [Answered]
  | cons e new ih =>
    rw [List.cons_append, Answered, ih, Answered, and_assoc, List.append_assoc]
    rfl

lemma answered_singleton (kernel : Kernel) (log : Log) (q : Request) :
    Answered kernel log [(q, kernel log q)] := ⟨rfl, trivial⟩

def mapRequest (mapFd : ℕ → Int32) (m : MapData) : Request :=
  if m.mapDef.isMapInMap then
    .createMapInMap m.mapDef.type m.name m.mapDef.keySize (mapFd m.mapDef.innerMapIdx.toNat)
      m.mapDef.maxEntries m.mapDef.mapFlags (numaNode m.mapDef)
  else
    .createMap m.mapDef.type m.name m.mapDef.keySize m.mapDef.valueSize m.mapDef.maxEntries
      m.mapDef.mapFlags (numaNode m.mapDef)

def InnerOk (m : MapData) : Prop :=
  m.mapDef.isMapInMap → m.mapDef.innerMapIdx.toNat < maxMaps

lemma mapRequest_congr {f g : ℕ → Int32} {m : MapData}
    (h : m.mapDef.isMapInMap → f m.mapDef.innerMapIdx.toNat = g m.mapDef.innerMapIdx.toNat) :
    mapRequest f m = mapRequest g m := by
  by_cases hm : m.mapDef.isMapInMap
  · simp [mapRequest, hm, h hm]
  · simp [mapRequest, hm]

/-- The request of a map that refers to no other says what was declared, nothing more. -/
lemma mapRequest_plain {m : MapData} (h : ¬ m.mapDef.isMapInMap) (f : ℕ → Int32) :
    mapRequest f m = .createMap m.mapDef.type m.name m.mapDef.keySize m.mapDef.valueSize
      m.mapDef.maxEntries m.mapDef.mapFlags (numaNode m.mapDef) := if_neg h

lemma createMap_eq (kernel : Kernel) {m : MapData} (h : InnerOk m) (s : Loader) :
    createMap kernel m s = .ok ((kernel s.log (mapRequest s.mapFd m)).ret,
      s.asked kernel (mapRequest s.mapFd m)) := by
  by_cases hm : m.mapDef.isMapInMap
  · have hidx := h hm
    have hreq : mapRequest s.mapFd m = _ := if_pos hm
    rw [hreq]
    simp only [createMap]
    rw [if_pos hm]
    simp only [get_bind, hidx, ↓reduceIte]
    rw [bind_of_ok (ask_apply _ _ _)]
    rfl
  · rw [mapRequest_plain hm]
    simp only [createMap]
    rw [if_neg hm, bind_of_ok (ask_apply _ _ _)]
    rfl

lemma createMap_ok {kernel : Kernel} {m : MapData} {s t : Loader} {fd : Int32}
    (h : createMap kernel m s = .ok (fd, t)) :
    InnerOk m ∧ fd = (kernel s.log (mapRequest s.mapFd m)).ret ∧
      t = s.asked kernel (mapRequest s.mapFd m) := by
  by_cases hin : InnerOk m
  · rw [createMap_eq kernel hin] at h
    obtain ⟨rfl, rfl⟩ := Prod.mk.inj (Except.ok.inj h)
    exact ⟨hin, rfl, rfl⟩
  · obtain ⟨hm, hidx⟩ := Classical.not_imp.mp hin
    simp [createMap, hm, hidx] at h

end Request

section Loop

variable (kernel : Kernel)

def Loader.recordMap (s : Loader) (i : ℕ) (m : MapData) (fd : Int32) : Loader :=
  { s with
    mapFd := Function.update s.mapFd i fd
    mapData := Function.update s.mapData i { m with fd := fd }
    progArrayFd := if m.mapDef.type = bpfMapTypeProgArray then fd else s.progArrayFd }

def mapAnswer (i : ℕ) (s : Loader) : Answer :=
  kernel s.log (mapRequest s.mapFd (s.mapData i))

def grantMap (i : ℕ) (s : Loader) : Loader :=
  (s.asked kernel (mapRequest s.mapFd (s.mapData i))).recordMap i (s.mapData i)
    (mapAnswer kernel i s).ret

def refuseMap (i : ℕ) (s : Loader) : Loader :=
  { s.asked kernel (mapRequest s.mapFd (s.mapData i)) with
    mapFd := Function.update s.mapFd i (mapAnswer kernel i s).ret }

lemma loadMap_eq {i : ℕ} (hi : i < maxMaps) {s : Loader} (hinner : InnerOk (s.mapData i)) :
    loadMap kernel none i s =
      if (mapAnswer kernel i s).ret < 0 then .ok (false, refuseMap kernel i s)
      else .ok (true, grantMap kernel i s) := by
  have hmap : mapAt i s = .ok (s.mapData i, s) := by simp [mapAt, hi]
  have hset : setMapData i (s.mapData i) s = .ok (⟨⟩, s) := by
    simp [setMapData, hi, Function.update_eq_self]
  have hfd : ∀ (fd : Int32) (t : Loader),
      setMapFd i fd t = .ok (⟨⟩, { t with mapFd := Function.update t.mapFd i fd }) := by
    intro fd t
    simp [setMapFd, hi]
  have hcreate : createMap kernel (s.mapData i) s =
      .ok ((mapAnswer kernel i s).ret, s.asked kernel (mapRequest s.mapFd (s.mapData i))) :=
    createMap_eq kernel hinner s
  simp only [loadMap]
  rw [bind_of_ok hmap]
  simp only [applyFixup, Option.isSome_none, Bool.false_eq_true, false_and, ↓reduceIte]
  rw [bind_of_ok hset, bind_of_ok hcreate, bind_of_ok (hfd _ _)]
  by_cases hneg : (mapAnswer kernel i s).ret < 0
  · rw [if_pos hneg, if_pos hneg]
    rfl
  · rw [if_neg hneg, if_neg hneg]
    by_cases htype : (s.mapData i).mapDef.type = bpfMapTypeProgArray
    · simp [setMapData, hi, htype, grantMap, Loader.recordMap, Loader.asked, -bind_pure_comp]
    · simp [setMapData, hi, htype, grantMap, Loader.recordMap, Loader.asked]

def grantMaps : ℕ → ℕ → Loader → Loader
  | _, 0, s => s
  | i, n + 1, s => grantMaps (i + 1) n (grantMap kernel i s)

def Grants : ℕ → ℕ → Loader → Prop
  | _, 0, _ => True
  | i, n + 1, s => ¬ (mapAnswer kernel i s).ret < 0 ∧ Grants (i + 1) n (grantMap kernel i s)

lemma grantMap_mapData_of_ne {i j : ℕ} (h : j ≠ i) (s : Loader) :
    (grantMap kernel i s).mapData j = s.mapData j := by
  simp [grantMap, Loader.recordMap, Loader.asked, Function.update_of_ne h]

lemma grantMap_mapFd_of_ne {i j : ℕ} (h : j ≠ i) (s : Loader) :
    (grantMap kernel i s).mapFd j = s.mapFd j := by
  simp [grantMap, Loader.recordMap, Loader.asked, Function.update_of_ne h]

lemma grantMaps_mapData_of_lt {i j : ℕ} (h : j < i) (n : ℕ) (s : Loader) :
    (grantMaps kernel i n s).mapData j = s.mapData j := by
  induction n generalizing i s with
  | zero => rfl
  | succ n ih => rw [grantMaps, ih (by omega), grantMap_mapData_of_ne kernel (by omega)]

lemma grantMaps_mapData_of_le {i j n : ℕ} (h : i + n ≤ j) (s : Loader) :
    (grantMaps kernel i n s).mapData j = s.mapData j := by
  induction n generalizing i s with
  | zero => rfl
  | succ n ih => rw [grantMaps, ih (by omega), grantMap_mapData_of_ne kernel (by omega)]

lemma grantMaps_mapFd_of_lt {i j : ℕ} (h : j < i) (n : ℕ) (s : Loader) :
    (grantMaps kernel i n s).mapFd j = s.mapFd j := by
  induction n generalizing i s with
  | zero => rfl
  | succ n ih => rw [grantMaps, ih (by omega), grantMap_mapFd_of_ne kernel (by omega)]

lemma grantMaps_mapFd_of_le {i j n : ℕ} (h : i + n ≤ j) (s : Loader) :
    (grantMaps kernel i n s).mapFd j = s.mapFd j := by
  induction n generalizing i s with
  | zero => rfl
  | succ n ih => rw [grantMaps, ih (by omega), grantMap_mapFd_of_ne kernel (by omega)]

/-- `prog_array_fd` is left alone by the maps of other types. -/
lemma grantMaps_progArrayFd {i n : ℕ} {s : Loader}
    (h : ∀ k < n, (s.mapData (i + k)).mapDef.type ≠ bpfMapTypeProgArray) :
    (grantMaps kernel i n s).progArrayFd = s.progArrayFd := by
  induction n generalizing i s with
  | zero => rfl
  | succ n ih =>
    rw [grantMaps, ih]
    · exact if_neg (h 0 (by omega))
    · intro k hk
      rw [grantMap_mapData_of_ne kernel (by omega), Nat.add_assoc, Nat.add_comm 1]
      exact h (k + 1) (by omega)

lemma grantMaps_add (i m n : ℕ) (s : Loader) :
    grantMaps kernel i (m + n) s = grantMaps kernel (i + m) n (grantMaps kernel i m s) := by
  induction m generalizing i s with
  | zero => simp [grantMaps]
  | succ m ih =>
    rw [Nat.succ_add_eq_add_succ, Nat.add_succ, grantMaps, ih, grantMaps]
    congr 1
    omega

lemma grantMaps_succ (i n : ℕ) (s : Loader) :
    grantMaps kernel i (n + 1) s = grantMap kernel (i + n) (grantMaps kernel i n s) := by
  rw [grantMaps_add]
  rfl

lemma grants_add {i m n : ℕ} {s : Loader} :
    Grants kernel i (m + n) s ↔
      Grants kernel i m s ∧ Grants kernel (i + m) n (grantMaps kernel i m s) := by
  induction m generalizing i s with
  | zero => simp [Grants, grantMaps]
  | succ m ih =>
    rw [Nat.succ_add_eq_add_succ, Nat.add_succ, Grants, ih, Grants, grantMaps, and_assoc,
      show i + 1 + m = i + (m + 1) by omega]

/-- The maps are created one by one, up to the first refusal; then nothing more is asked. -/
theorem loadMaps_eq {i n : ℕ} (hin : i + n ≤ maxMaps) {s : Loader}
    (hinner : ∀ k < n, InnerOk (s.mapData (i + k))) :
    (Grants kernel i n s ∧ loadMaps kernel none i n s = .ok (0, grantMaps kernel i n s)) ∨
      ∃ c < n, Grants kernel i c s ∧
        (mapAnswer kernel (i + c) (grantMaps kernel i c s)).ret < 0 ∧
        loadMaps kernel none i n s =
          .ok (1, refuseMap kernel (i + c) (grantMaps kernel i c s)) := by
  induction n generalizing i s with
  | zero => exact Or.inl ⟨trivial, rfl⟩
  | succ n ih =>
    have hhead := loadMap_eq kernel (show i < maxMaps by omega) (hinner 0 (by omega))
    by_cases hneg : (mapAnswer kernel i s).ret < 0
    · refine Or.inr ⟨0, by omega, trivial, hneg, ?_⟩
      rw [if_pos hneg] at hhead
      rw [loadMaps, bind_of_ok hhead]
      rfl
    · rw [if_neg hneg] at hhead
      have hrest : ∀ k < n, InnerOk ((grantMap kernel i s).mapData (i + 1 + k)) := by
        intro k hk
        rw [grantMap_mapData_of_ne kernel (by omega), Nat.add_assoc, Nat.add_comm 1]
        exact hinner (k + 1) (by omega)
      rw [loadMaps, bind_of_ok hhead, if_pos rfl]
      rcases ih (by omega) hrest with ⟨hg, hrun⟩ | ⟨c, hc, hg, href, hrun⟩
      · exact Or.inl ⟨⟨hneg, hg⟩, hrun⟩
      · rw [show i + 1 + c = i + (c + 1) by omega] at href hrun
        exact Or.inr ⟨c + 1, by omega, ⟨hneg, hg⟩, href, hrun⟩

lemma grantMap_log (i : ℕ) (s : Loader) :
    (grantMap kernel i s).log =
      s.log ++ [(mapRequest s.mapFd (s.mapData i), mapAnswer kernel i s)] := rfl

lemma grantMaps_log (i n : ℕ) (s : Loader) :
    ∃ new, (grantMaps kernel i n s).log = s.log ++ new ∧ new.length = n ∧
      Answered kernel s.log new := by
  induction n generalizing i s with
  | zero => exact ⟨[], by simp [grantMaps], rfl, trivial⟩
  | succ n ih =>
    obtain ⟨new, hnew, hlen, hans⟩ := ih (i + 1) (grantMap kernel i s)
    rw [grantMap_log] at hnew hans
    rw [List.append_assoc] at hnew
    exact ⟨_, hnew, by simp [hlen], answered_append.mpr ⟨answered_singleton _ _ _, hans⟩⟩

theorem grantMaps_created {i n k : ℕ} {s : Loader} (hg : Grants kernel i n s) (hk : k < n) :
    ∃ a : Answer, ¬ a.ret < 0 ∧
      (grantMaps kernel i n s).log[s.log.length + k]? =
        some (mapRequest (grantMaps kernel i k s).mapFd (s.mapData (i + k)), a) ∧
      (grantMaps kernel i n s).mapFd (i + k) = a.ret ∧
      (grantMaps kernel i n s).mapData (i + k) = { s.mapData (i + k) with fd := a.ret } := by
  obtain ⟨m, rfl⟩ : ∃ m, n = k + (m + 1) := ⟨n - k - 1, by omega⟩
  obtain ⟨-, hneg, -⟩ := (grants_add kernel).mp hg
  have hcut : grantMaps kernel i (k + (m + 1)) s =
      grantMaps kernel (i + k + 1) m (grantMap kernel (i + k) (grantMaps kernel i k s)) := by
    rw [grantMaps_add]
    rfl
  have hdata : (grantMaps kernel i k s).mapData (i + k) = s.mapData (i + k) :=
    grantMaps_mapData_of_le kernel le_rfl s
  obtain ⟨before, hbefore, hlen, -⟩ := grantMaps_log kernel i k s
  obtain ⟨after, hafter, -, -⟩ :=
    grantMaps_log kernel (i + k + 1) m (grantMap kernel (i + k) (grantMaps kernel i k s))
  refine ⟨mapAnswer kernel (i + k) (grantMaps kernel i k s), hneg, ?_, ?_, ?_⟩
  · rw [hcut, hafter, grantMap_log, hbefore, hdata, List.append_assoc, List.append_assoc,
      List.getElem?_append_right (by omega), Nat.add_sub_cancel_left,
      List.getElem?_append_right hlen.le, hlen, Nat.sub_self]
    rfl
  · rw [hcut, grantMaps_mapFd_of_lt kernel (by omega)]
    simp [grantMap, Loader.recordMap]
  · rw [hcut, grantMaps_mapData_of_lt kernel (by omega), ← hdata]
    simp [grantMap, Loader.recordMap]

/-- The descriptors known in round `k` are those of the earlier maps and what was there before. -/
lemma grantMaps_mapFd {k n : ℕ} (hk : k ≤ n) (s : Loader) :
    (grantMaps kernel 0 k s).mapFd =
      fun j => if j < k then (grantMaps kernel 0 n s).mapFd j else s.mapFd j := by
  obtain ⟨m, rfl⟩ := Nat.exists_eq_add_of_le hk
  funext j
  by_cases hj : j < k
  · have hlater := grantMaps_mapFd_of_lt kernel (show j < 0 + k by omega) m
    rw [if_pos hj, grantMaps_add, hlater]
  · rw [if_neg hj, grantMaps_mapFd_of_le kernel (by omega)]

/-- The last program array of an object is the one that programs are put into. -/
lemma grantMaps_progArray {i n k : ℕ} {s : Loader} (hk : k < n)
    (htype : (s.mapData (i + k)).mapDef.type = bpfMapTypeProgArray)
    (hlast : ∀ j, k < j → j < n → (s.mapData (i + j)).mapDef.type ≠ bpfMapTypeProgArray) :
    (grantMaps kernel i n s).progArrayFd = (grantMaps kernel i n s).mapFd (i + k) := by
  obtain ⟨m, rfl⟩ : ∃ m, n = k + 1 + m := ⟨n - k - 1, by omega⟩
  have hdata : ∀ j, k ≤ j → (grantMaps kernel i k s).mapData (i + j) = s.mapData (i + j) :=
    fun j hj => grantMaps_mapData_of_le kernel (by omega) s
  have hother : ∀ j < m, ((grantMaps kernel i (k + 1) s).mapData (i + (k + 1) + j)).mapDef.type ≠
      bpfMapTypeProgArray := by
    intro j hj
    rw [grantMaps_mapData_of_le kernel (by omega), Nat.add_assoc]
    exact hlast _ (by omega) (by omega)
  rw [grantMaps_add, grantMaps_progArrayFd kernel hother, grantMaps_mapFd_of_lt kernel (by omega),
    grantMaps_succ]
  simp [grantMap, Loader.recordMap, hdata k le_rfl, htype]

def fdsBefore (s t : Loader) (k : ℕ) : ℕ → Int32 := fun j => if j < k then t.mapFd j else s.mapFd j

/-- `c` maps were created: for each the kernel was asked once, in order, with the declared
values and the descriptors known by then, and its answer was recorded. -/
structure Created (kernel : Kernel) (s t : Loader) (new : Log) (c : ℕ) : Prop where
  log : t.log = s.log ++ new
  answers : Answered kernel s.log new
  each : ∀ k < c, ∃ a : Answer, ¬ a.ret < 0 ∧
    new[k]? = some (mapRequest (fdsBefore s t k) (s.mapData k), a) ∧
    t.mapFd k = a.ret ∧ t.mapData k = { s.mapData k with fd := a.ret }
  others : ∀ j, c ≤ j → t.mapData j = s.mapData j
  array : ∀ k < c, (s.mapData k).mapDef.type = bpfMapTypeProgArray →
    (∀ j, k < j → j < c → (s.mapData j).mapDef.type ≠ bpfMapTypeProgArray) →
    t.progArrayFd = t.mapFd k
  noArray : (∀ k < c, (s.mapData k).mapDef.type ≠ bpfMapTypeProgArray) →
    t.progArrayFd = s.progArrayFd

lemma created_grantMaps {n : ℕ} {s : Loader} (hg : Grants kernel 0 n s) :
    ∃ new, new.length = n ∧ Created kernel s (grantMaps kernel 0 n s) new n := by
  obtain ⟨new, hnew, hlen, hans⟩ := grantMaps_log kernel 0 n s
  refine ⟨new, hlen, hnew, hans, fun k hk => ?_,
    fun j hj => grantMaps_mapData_of_le kernel (by omega) s, fun k hk htype hlast => ?_,
    fun hnone => grantMaps_progArrayFd kernel (by simpa using hnone)⟩
  · obtain ⟨a, hpos, hentry, hfd, hdata⟩ := grantMaps_created kernel hg hk
    rw [Nat.zero_add] at hentry hfd hdata
    rw [hnew, List.getElem?_append_right (by omega), Nat.add_sub_cancel_left,
      grantMaps_mapFd kernel hk.le] at hentry
    exact ⟨a, hpos, hentry, hfd, hdata⟩
  · have := grantMaps_progArray kernel (i := 0) hk (by simpa using htype) (by simpa using hlast)
    simpa using this

/-- The round of a map that is refused records the answer and nothing else. -/
lemma Created.refused {s t : Loader} {new : Log} {c : ℕ} (h : Created kernel s t new c)
    (hlen : new.length = c) (hfds : ∀ j, c ≤ j → t.mapFd j = s.mapFd j) :
    Created kernel s (refuseMap kernel c t)
      (new ++ [(mapRequest (fdsBefore s t c) (s.mapData c), mapAnswer kernel c t)]) c := by
  have hother : ∀ j < c, (refuseMap kernel c t).mapFd j = t.mapFd j :=
    fun j hj => Function.update_of_ne hj.ne _ _
  have hknown : ∀ k ≤ c, fdsBefore s (refuseMap kernel c t) k = fdsBefore s t k := by
    intro k hk
    funext j
    by_cases hj : j < k
    · simp [fdsBefore, hj, hother j (by omega)]
    · simp [fdsBefore, hj]
  have hnow : t.mapFd = fdsBefore s t c := by
    funext j
    by_cases hj : j < c
    · simp [fdsBefore, hj]
    · simp [fdsBefore, hj, hfds j (not_lt.mp hj)]
  have hreq : mapRequest t.mapFd (t.mapData c) = mapRequest (fdsBefore s t c) (s.mapData c) := by
    rw [h.others c le_rfl, hnow]
  have hlog : (refuseMap kernel c t).log =
      t.log ++ [(mapRequest t.mapFd (t.mapData c), mapAnswer kernel c t)] := rfl
  refine ⟨?_, ?_, fun k hk => ?_, h.others, fun k hk htype hlast => ?_, h.noArray⟩
  · rw [hlog, hreq, h.log, List.append_assoc]
  · rw [answered_append, ← h.log, ← hreq]
    exact ⟨h.answers, answered_singleton _ _ _⟩
  · obtain ⟨a, hpos, hentry, hfd, hdata⟩ := h.each k hk
    refine ⟨a, hpos, ?_, (hother k hk).trans hfd, hdata⟩
    rw [hknown k hk.le, List.getElem?_append_left (by omega)]
    exact hentry
  · rw [hother k hk]
    exact h.array k hk htype hlast

end Loop

section Paired

variable {kernel : Kernel}

lemma loadMap_paired {fixupMap : Option FixupMap} {i : ℕ} {s t : Loader}
    (h : loadMap kernel fixupMap i s = .ok (true, t)) :
    t.mapFd i = (t.mapData i).fd ∧
      ∀ j, j ≠ i → t.mapFd j = s.mapFd j ∧ t.mapData j = s.mapData j := by
  by_cases hi : i < maxMaps
  · have hmap : mapAt i s = .ok (s.mapData i, s) := by simp [mapAt, hi]
    simp only [loadMap] at h
    rw [bind_of_ok hmap] at h
    generalize applyFixup fixupMap (s.mapData i) i = m at h
    simp only [setMapData, hi, ↓reduceIte, modify_bind] at h
    by_cases hfix : fixupMap.isSome ∧ m.fd ≠ -1
    · rw [if_pos hfix] at h
      simp only [setMapFd, hi, ↓reduceIte, modify_bind, pure_apply] at h
      obtain ⟨-, rfl⟩ := Prod.mk.inj (Except.ok.inj h)
      refine ⟨by simp, fun j hj => ?_⟩
      simp [Function.update_of_ne hj]
    · rw [if_neg hfix] at h
      obtain ⟨fd, u, hcreate, h⟩ := bind_eq_ok_iff.mp h
      obtain ⟨-, -, rfl⟩ := createMap_ok hcreate
      simp only [setMapFd, hi, ↓reduceIte, modify_bind] at h
      by_cases hneg : fd < 0
      · rw [if_pos hneg] at h
        cases h
      · rw [if_neg hneg] at h
        by_cases htype : m.mapDef.type = bpfMapTypeProgArray <;>
        · simp only [htype, ↓reduceIte, modify_bind, pure_apply] at h
          obtain ⟨-, rfl⟩ := Prod.mk.inj (Except.ok.inj h)
          refine ⟨by simp, fun j hj => ?_⟩
          simp [Loader.asked, Function.update_of_ne hj]
  · have hfault : mapAt i s = .error .outOfBounds := by simp [mapAt, hi]
    rw [loadMap, bind_of_error hfault] at h
    cases h

lemma loadMaps_paired {fixupMap : Option FixupMap} {i n : ℕ} {s t : Loader}
    (h : loadMaps kernel fixupMap i n s = .ok (0, t)) :
    (∀ j, i ≤ j → j < i + n → t.mapFd j = (t.mapData j).fd) ∧
      ∀ j < i, t.mapFd j = s.mapFd j ∧ t.mapData j = s.mapData j := by
  induction n generalizing i s with
  | zero =>
    obtain ⟨-, rfl⟩ := Prod.mk.inj (Except.ok.inj h)
    exact ⟨fun j _ _ => by omega, fun j _ => ⟨rfl, rfl⟩⟩
  | succ n ih =>
    rw [loadMaps] at h
    obtain ⟨created, u, hhead, h⟩ := bind_eq_ok_iff.mp h
    cases created with
    | false => cases h
    | true =>
      obtain ⟨hpair, hother⟩ := loadMap_paired hhead
      obtain ⟨hrest, hbefore⟩ := ih h
      refine ⟨fun j hij hj => ?_, fun j hj => ?_⟩
      · rcases Nat.eq_or_lt_of_le hij with rfl | hlt
        · obtain ⟨hfd, hdata⟩ := hbefore i (by omega)
          rw [hfd, hdata, hpair]
        · exact hrest j hlt (by omega)
      · obtain ⟨hfd, hdata⟩ := hbefore j (by omega)
        obtain ⟨hfd', hdata'⟩ := hother j (by omega)
        exact ⟨hfd.trans hfd', hdata.trans hdata'⟩

end Paired

end FilterReduce.BpfLoad
