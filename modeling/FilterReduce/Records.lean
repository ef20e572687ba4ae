import FilterReduce.ReaditerKern

/-!
# Two-digit records

The data the reducers are written for: records of two decimal digits and a separator.
This module says what the fields of such data are worth, wherever a field starts
within a record.
-/
namespace FilterReduce.Records
open CString Helpers Reduction CopyoutProbe CopyoutProbe.Machine ReaditerKern

def tens (src : Src) (k : ℕ) : ℕ := digit ((src (3 * k)).getD 0)

def units (src : Src) (k : ℕ) : ℕ := digit ((src (3 * k + 1)).getD 0)

def recordNumber (src : Src) (k : ℕ) : ℕ := 10 * tens src k + units src k

def ByteIs (src : Src) (p : ℕ) (ok : UInt8 → Bool) : Prop := ∃ b, src p = some b ∧ ok b = true

instance (src : Src) (p : ℕ) (ok : UInt8 → Bool) : Decidable (ByteIs src p ok) :=
  decidable_of_iff ((src p).any ok = true) (by simp [ByteIs, Option.any_eq_true])

/-- Record `k`: two digits and a blank or newline. -/
def IsRecord (src : Src) (k : ℕ) : Prop :=
  ByteIs src (3 * k) isDigit ∧ ByteIs src (3 * k + 1) isDigit ∧
    ByteIs src (3 * k + 2) fun b => b = 32 || b = 10

instance (src : Src) (k : ℕ) : Decidable (IsRecord src k) :=
  inferInstanceAs (Decidable (_ ∧ _ ∧ _))

lemma digitsValue_one (d : UInt8) : digitsValue [d] = digit d := by simp [digitsValue]

lemma digitsValue_two (d e : UInt8) : digitsValue [d, e] = 10 * digit d + digit e := by
  simp [digitsValue]

lemma fieldValue_two_digits {d e : UInt8} (hd : isDigit d = true) (he : isDigit e = true)
    {t : List UInt8} (ht : t.takeWhile isDigit = []) :
    fieldValue (d :: e :: t) = some (10 * digit d + digit e) := by
  rw [fieldValue_digit hd, List.takeWhile_cons_of_pos he, ht, digitsValue_two]

lemma fieldValue_one_digit {d : UInt8} (hd : isDigit d = true)
    {t : List UInt8} (ht : t.takeWhile isDigit = []) :
    fieldValue (d :: t) = some (digit d) := by
  rw [fieldValue_digit hd, ht, digitsValue_one]

lemma recordValue_bytes {src : Src} {b c : UInt8} (hb : src 0 = some b) (hc : src 1 = some c) :
    recordValue src = fieldValue [b, c] := by
  rw [recordValue_eq, bytes_two hb hc]
  intro p hp
  interval_cases p <;> simp [hb, hc]

theorem slotValue_digits {src : Src} {k : ℕ} (ht : ByteIs src (3 * k) isDigit)
    (hu : ByteIs src (3 * k + 1) isDigit) : slotValue src k = some (recordNumber src k) := by
  obtain ⟨t, ht, htd⟩ := ht
  obtain ⟨u, hu, hud⟩ := hu
  have hv : recordNumber src k = 10 * digit t + digit u := by
    simp [recordNumber, tens, units, ht, hu]
  rw [slotValue, recordValue_bytes (b := t) (c := u) (by simpa using ht) (by simpa using hu), hv]
  exact fieldValue_two_digits htd hud rfl

end FilterReduce.Records
