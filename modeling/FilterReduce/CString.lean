import Mathlib

/-!
# C strings and decimal fields

Pointers into memory that may fault, fixed-size arrays, NUL-terminated strings
and the decimal number at the start of a byte string. An array that is partly
overwritten by a shorter string keeps its old bytes after the terminator; what a
field of such an array is worth is settled once, in `fieldValue_store`.
-/
namespace FilterReduce.CString

/-- What a pointer reads: the byte at each offset, `none` where the access faults. -/
abbrev Src := ℕ → Option UInt8

def Src.shift (s : Src) (i : ℕ) : Src := fun p => s (i + p)

/-- The first `n` bytes behind the pointer, those that can be read. -/
def Src.bytes (s : Src) (n : ℕ) : List UInt8 := (List.range n).filterMap s

/-- The string behind the pointer: up to the first NUL and at most `n` bytes;
`none` if a byte needed to find it faults. -/
def Src.str (s : Src) : ℕ → Option (List UInt8)
  | 0 => some []
  | n + 1 =>
    match s 0 with
    | none => none
    | some b => if b = 0 then some [] else ((s.shift 1).str n).map (b :: ·)

abbrev Buf (n : ℕ) := Fin n → UInt8

def Buf.src {n : ℕ} (b : Buf n) : Src := fun p => if h : p < n then some (b ⟨p, h⟩) else none

def Buf.zeros (n : ℕ) : Buf n := fun _ => 0

/-- Overwrite the start of the array; bytes beyond the list stay. -/
def Buf.store {n : ℕ} (b : Buf n) (l : List UInt8) : Buf n := fun p => (l[p.val]?).getD (b p)

def isspace (b : UInt8) : Bool := b = 32 || (9 ≤ b && b ≤ 13)

def isDigit (b : UInt8) : Bool := 48 ≤ b && b ≤ 57

def digit (b : UInt8) : ℕ := b.toNat - 48

def digitsValue (ds : List UInt8) : ℕ := ds.foldl (fun v d => 10 * v + digit d) 0

/-- The number a byte string starts with: after leading whitespace, the maximal
run of decimal digits; `none` when that run is empty. -/
def fieldValue (bs : List UInt8) : Option ℕ :=
  let ds := (bs.dropWhile isspace).takeWhile isDigit
  if ds = [] then none else some (digitsValue ds)

@[simp] lemma shift_apply (s : Src) (i p : ℕ) : s.shift i p = s (i + p) := rfl

@[simp] lemma shift_shift (s : Src) (i j : ℕ) : (s.shift i).shift j = s.shift (i + j) := by
  funext p
  simp [Nat.add_assoc]

@[simp] lemma shift_zero (s : Src) : s.shift 0 = s := by
  funext p
  simp

lemma bytes_add (s : Src) (m n : ℕ) : s.bytes (m + n) = s.bytes m ++ (s.shift m).bytes n := by
  simp only [Src.bytes, List.range_add, List.filterMap_append, List.filterMap_map]
  rfl

lemma bytes_congr {s t : Src} {n : ℕ} (h : ∀ p < n, s p = t p) : s.bytes n = t.bytes n := by
  apply List.filterMap_congr
  intro p hp
  exact h p (List.mem_range.mp hp)

lemma bytes_eq_take {s : Src} {l : List UInt8} {n : ℕ} (h : ∀ p < n, s p = l[p]?) :
    s.bytes n = l.take n := by
  induction n with
  | zero => simp [Src.bytes]
  | succ n ih =>
    have hn := ih fun p hp => h p (by omega)
    rw [bytes_add, hn, List.take_add_one]
    cases hl : l[n]? <;> simp [Src.bytes, h n (by omega), hl]

lemma bytes_two {src : Src} {b c : UInt8} (hb : src 0 = some b) (hc : src 1 = some c) :
    src.bytes 2 = [b, c] := by
  simp [Src.bytes, List.range_succ, hb, hc]

lemma bytes_three {src : Src} {b c d : UInt8} (hb : src 0 = some b) (hc : src 1 = some c)
    (hd : src 2 = some d) : src.bytes 3 = [b, c, d] := by
  simp [Src.bytes, List.range_succ, hb, hc, hd]

/-- `str` finds exactly the bytes before the first NUL, capped at `n`. -/
theorem str_eq_some_iff {s : Src} {n : ℕ} {l : List UInt8} :
    s.str n = some l ↔ l.length ≤ n ∧ (∀ p < l.length, s p = l[p]?) ∧ (∀ b ∈ l, b ≠ 0) ∧
      (l.length < n → s l.length = some 0) := by
  induction n generalizing s l with
  | zero =>
    simp only [Src.str, Option.some.injEq]
    constructor
    · rintro rfl
      simp
    · rintro ⟨h, -⟩
      exact (List.length_eq_zero_iff.mp (by omega)).symm
  | succ n ih =>
    cases h0 : s 0 with
    | none =>
      simp only [Src.str, h0, reduceCtorEq, false_iff]
      rintro ⟨-, hp, -, hz⟩
      cases l with
      | nil => simp [h0] at hz
      | cons b l => simpa [h0] using hp 0 (by simp)
    | some b =>
      by_cases hb : b = 0
      · subst hb
        simp only [Src.str, h0, ↓reduceIte, Option.some.injEq]
        constructor
        · rintro rfl
          simp [h0]
        · rintro ⟨-, hp, hne, -⟩
          cases l with
          | nil => rfl
          | cons c l =>
            have hc : c = 0 := by simpa [h0] using (hp 0 (by simp)).symm
            exact absurd hc (hne c (by simp))
      · simp only [Src.str, h0, hb, ↓reduceIte, Option.map_eq_some_iff]
        constructor
        · rintro ⟨t, ht, rfl⟩
          obtain ⟨hlen, hp, hne, hz⟩ := ih.mp ht
          refine ⟨by simpa using hlen, ?_, ?_, ?_⟩
          · intro p hp'
            cases p with
            | zero => simpa using h0
            | succ p => simpa [Nat.add_comm 1 p] using hp p (by simpa using hp')
          · intro c hc
            rcases List.mem_cons.mp hc with rfl | hc
            · exact hb
            · exact hne c hc
          · intro hlt
            simpa [Nat.add_comm 1] using hz (by simpa using hlt)
        · rintro ⟨hlen, hp, hne, hz⟩
          cases l with
          | nil => simp [h0, hb] at hz
          | cons c l =>
            have hc : b = c := by simpa [h0] using hp 0 (by simp)
            refine ⟨l, ih.mpr ⟨by simpa using hlen, ?_, ?_, ?_⟩, by rw [hc]⟩
            · intro p hp'
              simpa [Nat.add_comm 1 p] using hp (p + 1) (by simpa using hp')
            · intro d hd
              exact hne d (by simp [hd])
            · intro hlt
              simpa [Nat.add_comm 1] using hz (by simpa using hlt)

lemma str_congr {s t : Src} {n : ℕ} (h : ∀ p < n, s p = t p) : s.str n = t.str n := by
  induction n generalizing s t with
  | zero => rfl
  | succ n ih =>
    have hs := ih (s := s.shift 1) (t := t.shift 1) fun p hp => h (1 + p) (by omega)
    simp only [Src.str, h 0 (by omega), hs]

lemma str_isSome {s : Src} {n : ℕ} (h : ∀ p < n, (s p).isSome) : (s.str n).isSome := by
  induction n generalizing s with
  | zero => rfl
  | succ n ih =>
    obtain ⟨b, hb⟩ := Option.isSome_iff_exists.mp (h 0 (by omega))
    have ht := ih (s := s.shift 1) fun p hp => h (1 + p) (by omega)
    by_cases hz : b = 0 <;> simp [Src.str, hb, hz, ht]

lemma str_of_readable {s : Src} {n : ℕ} (h : ∀ p < n, (s p).isSome) :
    s.str n = some ((s.bytes n).takeWhile (· ≠ 0)) := by
  induction n generalizing s with
  | zero => rfl
  | succ n ih =>
    obtain ⟨b, hb⟩ := Option.isSome_iff_exists.mp (h 0 (by omega))
    have ht := ih (s := s.shift 1) fun p hp => h (1 + p) (by omega)
    have hbytes : s.bytes (n + 1) = b :: (s.shift 1).bytes n := by
      rw [Nat.add_comm, bytes_add]
      simp [Src.bytes, hb]
    rw [hbytes, Src.str, hb, ht]
    by_cases hz : b = 0 <;> simp [hz]

lemma str_full {s : Src} {n : ℕ} (h : ∀ p < n, ∃ b, s p = some b ∧ b ≠ 0) :
    ∃ l, s.str n = some l ∧ l.length = n := by
  have hread : ∀ p < n, (s p).isSome := by
    intro p hp
    obtain ⟨b, hb, -⟩ := h p hp
    simp [hb]
  obtain ⟨l, hl⟩ := Option.isSome_iff_exists.mp (str_isSome hread)
  obtain ⟨hlen, -, -, hz⟩ := str_eq_some_iff.mp hl
  refine ⟨l, hl, hlen.antisymm (not_lt.mp fun hlt => ?_)⟩
  obtain ⟨b, hb, hne⟩ := h _ hlt
  rw [hz hlt, Option.some.injEq] at hb
  exact hne hb.symm

lemma src_of_lt {n : ℕ} (b : Buf n) {p : ℕ} (h : p < n) : b.src p = some (b ⟨p, h⟩) := by
  simp [Buf.src, h]

lemma store_src {n : ℕ} (b : Buf n) (l : List UInt8) {p : ℕ} (h : p < n) :
    (b.store l).src p = if p < l.length then l[p]? else b.src p := by
  rw [src_of_lt _ h, src_of_lt _ h]
  by_cases hl : p < l.length
  · simp [Buf.store, hl]
  · simp [Buf.store, hl]

lemma isspace_nul : isspace 0 = false := by decide

lemma isDigit_nul : isDigit 0 = false := by decide

lemma isspace_of_isDigit {b : UInt8} (h : isDigit b = true) : isspace b = false := by
  simp only [isDigit, Bool.and_eq_true, decide_eq_true_eq, UInt8.le_iff_toNat_le] at h
  simp only [isspace, Bool.or_eq_false_iff, decide_eq_false_iff_not, Bool.and_eq_false_iff,
    UInt8.le_iff_toNat_le, ← UInt8.toNat_inj]
  simp only [UInt8.reduceToNat] at h ⊢
  omega

lemma fieldValue_nil : fieldValue [] = none := rfl

lemma fieldValue_nul (t : List UInt8) : fieldValue (0 :: t) = none := by
  simp [fieldValue, isspace_nul, isDigit_nul]

lemma fieldValue_space {b : UInt8} (h : isspace b = true) (t : List UInt8) :
    fieldValue (b :: t) = fieldValue t := by
  simp [fieldValue, h]

lemma fieldValue_digit {b : UInt8} (h : isDigit b = true) (t : List UInt8) :
    fieldValue (b :: t) = some (digitsValue (b :: t.takeWhile isDigit)) := by
  simp [fieldValue, isspace_of_isDigit h, h]

lemma fieldValue_other {b : UInt8} (hs : isspace b = false) (hd : isDigit b = false)
    (t : List UInt8) : fieldValue (b :: t) = none := by
  simp [fieldValue, hs, hd]

theorem fieldValue_append_nul (s t : List UInt8) : fieldValue (s ++ 0 :: t) = fieldValue s := by
  induction s with
  | nil => rw [List.nil_append, fieldValue_nul, fieldValue_nil]
  | cons b s ih =>
    rw [List.cons_append]
    by_cases hs : isspace b = true
    · rw [fieldValue_space hs, fieldValue_space hs, ih]
    · by_cases hd : isDigit b = true
      · have ht : (s ++ 0 :: t).takeWhile isDigit = s.takeWhile isDigit := by
          rw [List.takeWhile_append]
          split
          · rename_i hlen
            simp [isDigit_nul, (List.takeWhile_sublist isDigit).eq_of_length hlen]
          · rfl
        rw [fieldValue_digit hd, fieldValue_digit hd, ht]
      · rw [fieldValue_other (by simpa using hs) (by simpa using hd),
          fieldValue_other (by simpa using hs) (by simpa using hd)]

lemma fieldValue_bytes_of_str {s : Src} {n : ℕ} {l : List UInt8} (h : s.str n = some l) :
    fieldValue (s.bytes n) = fieldValue l := by
  obtain ⟨hlen, hp, -, hz⟩ := str_eq_some_iff.mp h
  have hhead : s.bytes l.length = l := by
    rw [bytes_eq_take hp, List.take_length]
  rcases hlen.eq_or_lt with heq | hlt
  · rw [← heq, hhead]
  · have hnul : (s.shift l.length).bytes 1 = [0] := by simp [Src.bytes, hz hlt]
    have hcut : n = l.length + (1 + (n - l.length - 1)) := by omega
    rw [hcut, bytes_add, hhead, bytes_add, hnul, List.singleton_append, fieldValue_append_nul]

lemma digit_lt {b : UInt8} (h : isDigit b = true) : digit b < 10 := by
  simp only [isDigit, Bool.and_eq_true, decide_eq_true_eq, UInt8.le_iff_toNat_le,
    UInt8.reduceToNat] at h
  simp only [digit]
  omega

lemma digitsValue_append (ds : List UInt8) (d : UInt8) :
    digitsValue (ds ++ [d]) = 10 * digitsValue ds + digit d := by
  simp [digitsValue]

lemma digitsValue_lt {ds : List UInt8} (h : ∀ d ∈ ds, isDigit d = true) :
    digitsValue ds < 10 ^ ds.length := by
  induction ds using List.reverseRecOn with
  | nil => simp [digitsValue]
  | append_singleton ds d ih =>
    have hd := digit_lt (h d (by simp))
    have hds := ih fun x hx => h x (by simp [hx])
    rw [digitsValue_append, List.length_append, List.length_singleton, pow_succ]
    omega

theorem fieldValue_lt {bs : List UInt8} {v : ℕ} (h : fieldValue bs = some v) :
    v < 10 ^ bs.length := by
  simp only [fieldValue] at h
  split at h
  · cases h
  · obtain rfl := Option.some.inj h
    have hall : ∀ d ∈ (bs.dropWhile isspace).takeWhile isDigit, isDigit d = true :=
      fun d hd => List.mem_takeWhile_imp hd
    have hlen : ((bs.dropWhile isspace).takeWhile isDigit).length ≤ bs.length :=
      (List.takeWhile_sublist _).length_le.trans (List.dropWhile_sublist _).length_le
    exact (digitsValue_lt hall).trans_le (Nat.pow_le_pow_right (by omega) hlen)

/-- A field read from an array whose start was overwritten by the string `s` and
its terminator. A field that starts in the string or at the terminator is worth
what the string says; a field behind the terminator is the old one. -/
theorem fieldValue_store {n : ℕ} (b : Buf n) {s : List UInt8} (hs : s.length < n)
    {i k : ℕ} (hk : i + k ≤ n) :
    fieldValue (((b.store (s ++ [0])).src.shift i).bytes k) =
      if i ≤ s.length then fieldValue ((s.drop i).take k)
      else fieldValue ((b.src.shift i).bytes k) := by
  split
  · rename_i hi
    by_cases hfull : i + k ≤ s.length
    · congr 1
      apply bytes_eq_take
      intro p hp
      have hsp : i + p < s.length := by omega
      rw [shift_apply, store_src _ _ (by omega), if_pos (by simp; omega),
        List.getElem?_append_left hsp, List.getElem?_drop]
    · -- the terminator lies inside the field: cut there
      have hcut : k = (s.length - i) + (1 + (k - (s.length - i) - 1)) := by omega
      have hhead : ((b.store (s ++ [0])).src.shift i).bytes (s.length - i) = s.drop i := by
        rw [bytes_eq_take (l := s.drop i), List.take_of_length_le (by simp)]
        intro p hp
        have hsp : i + p < s.length := by omega
        rw [shift_apply, store_src _ _ (by omega), if_pos (by simp; omega),
          List.getElem?_append_left hsp, List.getElem?_drop]
      have hnul : ((b.store (s ++ [0])).src.shift (i + (s.length - i))).bytes 1 = [0] := by
        have hz : i + (s.length - i) = s.length := by omega
        simp [Src.bytes, hz, store_src _ _ hs]
      have htake : (s.drop i).take k = s.drop i := List.take_of_length_le (by simp; omega)
      rw [htake, hcut, bytes_add, hhead, shift_shift, bytes_add, hnul, List.singleton_append,
        fieldValue_append_nul]
  · congr 1
    apply bytes_congr
    intro p hp
    rw [shift_apply, shift_apply, store_src _ _ (by omega), if_neg (by simp; omega)]

end FilterReduce.CString
