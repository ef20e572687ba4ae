import FilterReduce.ArrayMap

/-!
# Records in a byte string

Parts of a list read and overwritten by offset and length, little-endian fields,
and tables of records of one size.
-/
namespace FilterReduce.ByteLayout

variable {α β : Type*}

def slice (l : List α) (off n : ℕ) : List α := (l.drop off).take n

/-- Overwrite the part of `l` from `off` on with `new`. -/
def splice (l : List α) (off : ℕ) (new : List α) : List α :=
  l.take off ++ new ++ l.drop (off + new.length)

/-- The little-endian field of `k` bytes at `off`; bytes beyond the end count as zero. -/
def field (k off : ℕ) (bs : List UInt8) : ℕ := ofLeBytes (slice bs off k)

/-- The complete records of `size` bytes in a table. -/
def table (size : ℕ) (decode : List UInt8 → β) (bs : List UInt8) : List β :=
  (List.range (bs.length / size)).map fun i => decode (slice bs (size * i) size)

lemma getElem?_slice (l : List α) (off n i : ℕ) :
    (slice l off n)[i]? = if i < n then l[off + i]? else none := by
  rw [slice, List.getElem?_take, List.getElem?_drop]

lemma slice_slice {l : List α} {off n o k : ℕ} (h : o + k ≤ n) :
    slice (slice l off n) o k = slice l (off + o) k := by
  apply List.ext_getElem?
  intro i
  simp only [getElem?_slice, Nat.add_assoc]
  by_cases hi : i < k
  · rw [if_pos hi, if_pos hi, if_pos (by omega)]
  · rw [if_neg hi, if_neg hi]

lemma length_splice {l new : List α} {off : ℕ} (h : off + new.length ≤ l.length) :
    (splice l off new).length = l.length := by
  simp only [splice, List.length_append, List.length_take, List.length_drop]
  omega

lemma getElem?_splice {l new : List α} {off : ℕ} (h : off + new.length ≤ l.length) (i : ℕ) :
    (splice l off new)[i]? =
      if off ≤ i ∧ i < off + new.length then new[i - off]? else l[i]? := by
  have htake : (l.take off).length = off := by rw [List.length_take]; omega
  rw [splice, List.append_assoc]
  rcases Nat.lt_or_ge i off with hlt | hge
  · rw [List.getElem?_append_left (by omega), List.getElem?_take, if_pos hlt,
      if_neg (by omega)]
  · rw [List.getElem?_append_right (by omega), htake]
    by_cases hin : i < off + new.length
    · rw [List.getElem?_append_left (by omega), if_pos ⟨hge, hin⟩]
    · rw [List.getElem?_append_right (by omega), List.getElem?_drop, if_neg (by omega)]
      congr 1
      omega

lemma slice_splice_self {l new : List α} {off : ℕ} (h : off + new.length ≤ l.length) :
    slice (splice l off new) off new.length = new := by
  apply List.ext_getElem?
  intro i
  rw [getElem?_slice, getElem?_splice h]
  by_cases hi : i < new.length
  · rw [if_pos hi, if_pos (by omega), Nat.add_sub_cancel_left]
  · rw [if_neg hi, List.getElem?_eq_none (by omega)]

lemma slice_splice_of_disjoint {l new : List α} {off o n : ℕ} (h : off + new.length ≤ l.length)
    (hd : o + n ≤ off ∨ off + new.length ≤ o) : slice (splice l off new) o n = slice l o n := by
  apply List.ext_getElem?
  intro i
  rw [getElem?_slice, getElem?_slice, getElem?_splice h]
  by_cases hi : i < n
  · rw [if_pos hi, if_pos hi, if_neg (by omega)]
  · rw [if_neg hi, if_neg hi]

/-- Records of one size, written one after the other, are found at the multiples of the size. -/
theorem slice_flatMap {f : β → List α} {size : ℕ} {l : List β} (hf : ∀ x ∈ l, (f x).length = size)
    {k : ℕ} {x : β} (hx : l[k]? = some x) : slice (l.flatMap f) (k * size) size = f x := by
  induction l generalizing k with
  | nil => simp at hx
  | cons y l ih =>
    have hy : (f y).length = size := hf y (by simp)
    cases k with
    | zero =>
      obtain rfl : y = x := by simpa using hx
      rw [slice, Nat.zero_mul, List.drop_zero, List.flatMap_cons]
      exact List.take_left' hy
    | succ k =>
      have htail : ∀ z ∈ l, (f z).length = size := fun z hz => hf z (by simp [hz])
      rw [← ih htail (by simpa using hx), slice, slice, List.flatMap_cons, Nat.succ_mul,
        Nat.add_comm, ← List.drop_drop, List.drop_left' hy]

lemma length_flatMap_records {f : β → List α} {size : ℕ} {l : List β}
    (hf : ∀ x ∈ l, (f x).length = size) : (l.flatMap f).length = l.length * size := by
  induction l with
  | nil => simp
  | cons y l ih =>
    rw [List.flatMap_cons, List.length_append, hf y (by simp),
      ih fun z hz => hf z (by simp [hz]), List.length_cons, Nat.succ_mul, Nat.add_comm]

lemma ofLeBytes_append_zeros {bs zs : List UInt8} (h : ∀ b ∈ zs, b = 0) :
    ofLeBytes (bs ++ zs) = ofLeBytes bs := by
  have hzs : ofLeBytes zs = 0 := by
    induction zs with
    | nil => rfl
    | cons z zs ih =>
      rw [ofLeBytes, h z (by simp), ih fun b hb => h b (by simp [hb])]
      rfl
  induction bs with
  | nil => exact hzs
  | cons b bs ih => rw [List.cons_append, ofLeBytes, ofLeBytes, ih]

lemma field_append_zeros {bs zs : List UInt8} (h : ∀ b ∈ zs, b = 0) (k off : ℕ) :
    field k off (bs ++ zs) = field k off bs := by
  rw [field, field, slice, slice, List.drop_append, List.take_append]
  exact ofLeBytes_append_zeros fun b hb => h b (List.mem_of_mem_drop (List.mem_of_mem_take hb))

lemma field_leBytes {pre : List UInt8} {off k x : ℕ} (h : pre.length = off) (hx : x < 256 ^ k)
    (post : List UInt8) : field k off (pre ++ (leBytes k x ++ post)) = x := by
  rw [field, slice, List.drop_left' h, List.take_left' (length_leBytes k x), ofLeBytes_leBytes,
    Nat.mod_eq_of_lt hx]

end FilterReduce.ByteLayout
