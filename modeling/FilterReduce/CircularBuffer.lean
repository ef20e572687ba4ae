import Mathlib

/-!
# Circular buffers

`n` cells that are used over and over: position `p` lives in cell `p % n`, and positions only
grow. What lies between two positions is a list, and a reader cares about one thing only: a
store behind the part it reads appends to that list and changes nothing of it.
-/
namespace FilterReduce.CircularBuffer

variable {α : Type*} {n : ℕ}

/-- The cells of `len` positions from `start` on. -/
def window (n : ℕ) (cells : ℕ → α) (start len : ℕ) : List α :=
  (List.range len).map fun i => cells ((start + i) % n)

def offset (n start cell : ℕ) : ℕ := (cell + (n - start % n)) % n

/-- The cells with a list laid over them from a position on. -/
def store (n : ℕ) (cells : ℕ → α) (start : ℕ) (l : List α) : ℕ → α :=
  fun cell => (l[offset n start cell]?).getD (cells cell)

@[simp] lemma length_window (cells : ℕ → α) (start len : ℕ) :
    (window n cells start len).length = len := by
  rw [window, List.length_map, List.length_range]

lemma window_add (cells : ℕ → α) (start a b : ℕ) :
    window n cells start (a + b) = window n cells start a ++ window n cells (start + a) b := by
  simp only [window, List.range_add, List.map_append, List.map_map, Function.comp_def,
    Nat.add_assoc]

lemma take_drop_window (cells : ℕ → α) {start len o k : ℕ} (h : o + k ≤ len) :
    ((window n cells start len).drop o).take k = window n cells (start + o) k := by
  obtain ⟨rest, rfl⟩ := Nat.exists_eq_add_of_le h
  rw [window_add, window_add, List.append_assoc, List.drop_left' (length_window ..),
    List.take_left' (length_window ..)]

lemma window_congr {start start' : ℕ} (h : start % n = start' % n) (cells : ℕ → α) (len : ℕ) :
    window n cells start len = window n cells start' len := by
  refine List.map_congr_left fun i _ => ?_
  rw [Nat.add_mod, h, ← Nat.add_mod]

lemma window_eq_map {start len : ℕ} (h : start + len ≤ n) (cells : ℕ → α) :
    window n cells start len = (List.range len).map fun i => cells (start + i) := by
  refine List.map_congr_left fun i hi => ?_
  rw [Nat.mod_eq_of_lt (by have := List.mem_range.mp hi; omega)]

lemma window_wrap {start len : ℕ} (h : start ≤ n) (hlen : n ≤ start + len) (cells : ℕ → α) :
    window n cells start len =
      window n cells start (n - start) ++ window n cells 0 (len - (n - start)) := by
  have hround : (start + (n - start)) % n = 0 % n := by
    rw [Nat.add_sub_cancel' h, Nat.mod_self, Nat.zero_mod]
  rw [← window_congr hround, ← window_add, show n - start + (len - (n - start)) = len by omega]

lemma offset_position (hn : 0 < n) (start j : ℕ) : offset n start ((start + j) % n) = j % n := by
  have hlt := Nat.mod_lt start hn
  have hsum : start % n + j + (n - start % n) = j + n := by omega
  rw [offset, Nat.mod_add_mod, Nat.add_assoc, ← Nat.mod_add_mod, ← Nat.add_assoc, hsum,
    Nat.add_mod_right]

/-- A store that does not come round to `start` again extends the list behind it. -/
theorem window_store {a : ℕ} {l : List α} (h : a + l.length ≤ n) (cells : ℕ → α) (start : ℕ) :
    window n (store n cells (start + a) l) start (a + l.length) =
      window n cells start a ++ l := by
  rw [window_add]
  congr 1
  · refine List.map_congr_left fun i hi => ?_
    have hi := List.mem_range.mp hi
    have hcell : (start + i) % n = (start + a + (n - a + i)) % n := by
      rw [show start + a + (n - a + i) = start + i + n by omega, Nat.add_mod_right]
    have hbehind : offset n (start + a) ((start + i) % n) = n - a + i := by
      rw [hcell, offset_position (by omega), Nat.mod_eq_of_lt (by omega)]
    rw [store, hbehind, List.getElem?_eq_none (by omega), Option.getD_none]
  · apply List.ext_getElem (length_window ..)
    intro i hi hl
    have hat : offset n (start + a) ((start + a + i) % n) = i := by
      rw [offset_position (by omega), Nat.mod_eq_of_lt (by omega)]
    simp [window, store, hat, hl]

end FilterReduce.CircularBuffer
