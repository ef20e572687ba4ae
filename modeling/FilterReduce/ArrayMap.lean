import Mathlib

/-!
# Array maps

A map of type `BPF_MAP_TYPE_ARRAY`: a fixed number of preallocated elements, all
present from the start. An element can be overwritten but not removed. The field
`updates` is a history variable, it counts the stores made through `update`.
User space sees an element as the little-endian bytes of its value.
-/
namespace FilterReduce

structure ArrayMap (V : Type*) (n : ℕ) where
  elems : Fin n → V
  updates : ℕ
  deriving DecidableEq

namespace ArrayMap

variable {V : Type*} {n : ℕ}

def fill (v : V) : ArrayMap V n := ⟨fun _ => v, 0⟩

def lookup (m : ArrayMap V n) (key : ℕ) : Option V :=
  if h : key < n then some (m.elems ⟨key, h⟩) else none

/-- Update with `BPF_ANY`; `-E2BIG` for a key outside the array. -/
def update (m : ArrayMap V n) (key : ℕ) (v : V) : ℤ × ArrayMap V n :=
  if h : key < n then (0, ⟨Function.update m.elems ⟨key, h⟩ v, m.updates + 1⟩) else (-7, m)

/-- Elements of an array cannot be deleted: `-EINVAL`, and the map stays as it was. -/
def delete (m : ArrayMap V n) (_key : ℕ) : ℤ × ArrayMap V n := (-22, m)

/-- A store through the pointer that a lookup gave, without an update call. -/
def assign (m : ArrayMap V n) (key : ℕ) (v : V) : ArrayMap V n :=
  ⟨fun i => if i.val = key then v else m.elems i, m.updates⟩

def first (m : ArrayMap V 1) : V := m.elems 0

@[simp] lemma lookup_zero (m : ArrayMap V 1) : m.lookup 0 = some m.first := by
  simp [lookup, first]

@[simp] lemma update_zero_first (m : ArrayMap V 1) (v : V) : (m.update 0 v).2.first = v := by
  simp [update, first]

@[simp] lemma update_zero_updates (m : ArrayMap V (n + 1)) (v : V) :
    (m.update 0 v).2.updates = m.updates + 1 := by
  simp [update]

lemma lookup_update_self (m : ArrayMap V n) {key : ℕ} (h : key < n) (v : V) :
    (m.update key v).2.lookup key = some v := by
  simp [update, lookup, h]

lemma lookup_update_of_ne (m : ArrayMap V n) {key k : ℕ} (h : key ≠ k) (v : V) :
    (m.update key v).2.lookup k = m.lookup k := by
  by_cases hkey : key < n
  · by_cases hk : k < n
    · simp [update, lookup, hkey, hk, Function.update_of_ne, Ne.symm h]
    · simp [lookup, hk]
  · simp [update, hkey]

@[simp] lemma delete_map (m : ArrayMap V n) (key : ℕ) : (m.delete key).2 = m := rfl

end ArrayMap

/-- The `k` low bytes of a value, least significant first. -/
def leBytes : ℕ → ℕ → List UInt8
  | 0, _ => []
  | k + 1, x => UInt8.ofNat x :: leBytes k (x / 256)

def ofLeBytes : List UInt8 → ℕ
  | [] => 0
  | b :: bs => b.toNat + 256 * ofLeBytes bs

lemma length_leBytes (k x : ℕ) : (leBytes k x).length = k := by
  induction k generalizing x with
  | zero => rfl
  | succ k ih => rw [leBytes, List.length_cons, ih]

theorem ofLeBytes_leBytes (k x : ℕ) : ofLeBytes (leBytes k x) = x % 256 ^ k := by
  induction k generalizing x with
  | zero => simp [leBytes, ofLeBytes, Nat.mod_one]
  | succ k ih =>
    have hlow : (UInt8.ofNat x).toNat = x % 256 := by simp
    rw [leBytes, ofLeBytes, ih, hlow, pow_succ', Nat.mod_mul]

namespace ArrayMap

variable {V : Type*} {n : ℕ}

/-- Update from user space: `size` bytes are read behind the value pointer. -/
def updateBytes (m : ArrayMap V n) (size : ℕ) (ofNat : ℕ → V) (key : ℕ) (value : List UInt8) :
    ℤ × ArrayMap V n :=
  m.update key (ofNat (ofLeBytes (value.take size)))

/-- Lookup from user space: `size` bytes are written behind the value pointer. -/
def lookupBytes (m : ArrayMap V n) (size : ℕ) (toNat : V → ℕ) (key : ℕ) : Option (List UInt8) :=
  (m.lookup key).map fun v => leBytes size (toNat v)

lemma updateBytes_leBytes (m : ArrayMap V n) {size x : ℕ} (hx : x < 256 ^ size) (ofNat : ℕ → V)
    (key : ℕ) : m.updateBytes size ofNat key (leBytes size x) = m.update key (ofNat x) := by
  have htake : (leBytes size x).take size = leBytes size x :=
    List.take_of_length_le (length_leBytes size x).le
  rw [updateBytes, htake, ofLeBytes_leBytes, Nat.mod_eq_of_lt hx]

end ArrayMap

end FilterReduce
