import Mathlib

/-!
# Packed records of little-endian numbers

A packed C structure is the sequence of its fields, each a number of a fixed
width in bytes with the lowest byte first.  Reading such a structure back from
memory that is too short finds zeros.
-/

namespace FuseeFs.Library.Packed

open List

def toBytes : ℕ → ℕ → List UInt8
  | 0, _ => []
  | width + 1, value => UInt8.ofNat value :: toBytes width (value / 256)

def ofBytes : List UInt8 → ℕ
  | [] => 0
  | byte :: rest => byte.toNat + 256 * ofBytes rest

@[simp]
theorem length_toBytes (width value : ℕ) : (toBytes width value).length = width := by
  induction width generalizing value with
  | zero => rfl
  | succ width ih => simp [toBytes, ih]

theorem ofBytes_toBytes_eq_mod (width value : ℕ) :
    ofBytes (toBytes width value) = value % 256 ^ width := by
  induction width generalizing value with
  | zero => exact (Nat.mod_one value).symm
  | succ width ih =>
    have lowest : (UInt8.ofNat value).toNat = value % 256 := by simp
    rw [toBytes, ofBytes, ih, lowest, pow_succ', Nat.mod_mul]

theorem ofBytes_toBytes {width value : ℕ} (bound : value < 256 ^ width) :
    ofBytes (toBytes width value) = value := by
  rw [ofBytes_toBytes_eq_mod, Nat.mod_eq_of_lt bound]

theorem toBytes_ofBytes (bytes : List UInt8) : toBytes bytes.length (ofBytes bytes) = bytes := by
  induction bytes with
  | nil => rfl
  | cons byte rest ih =>
    have small := byte.toNat_lt
    have quotient : (byte.toNat + 256 * ofBytes rest) / 256 = ofBytes rest := by omega
    have lowest : UInt8.ofNat (byte.toNat + 256 * ofBytes rest) = byte :=
      UInt8.toNat_inj.mp (by simp)
    rw [length_cons, ofBytes, toBytes, quotient, lowest, ih]

theorem ofBytes_lt (bytes : List UInt8) : ofBytes bytes < 256 ^ bytes.length := by
  induction bytes with
  | nil => simp [ofBytes]
  | cons byte rest ih =>
    have small := byte.toNat_lt
    rw [ofBytes, length_cons, pow_succ]
    omega

theorem toBytes_add (width more value : ℕ) :
    toBytes (width + more) value = toBytes width value ++ toBytes more (value / 256 ^ width) := by
  induction width generalizing value with
  | zero => simp [toBytes]
  | succ width ih =>
    rw [Nat.succ_add_eq_add_succ, Nat.add_succ, toBytes, ih, toBytes,
      Nat.div_div_eq_div_mul, pow_succ']
    rfl

theorem toBytes_mod (width value : ℕ) : toBytes width (value % 256 ^ width) = toBytes width value := by
  have same : ofBytes (toBytes width (value % 256 ^ width)) = ofBytes (toBytes width value) := by
    rw [ofBytes_toBytes_eq_mod, ofBytes_toBytes_eq_mod, Nat.mod_mod]
  have restored := toBytes_ofBytes (toBytes width value)
  rw [length_toBytes, ofBytes_toBytes_eq_mod] at restored
  exact restored

def pack (fields : List (ℕ × ℕ)) : List UInt8 :=
  fields.flatMap fun field => toBytes field.1 field.2

def unpack : List ℕ → List UInt8 → List ℕ
  | [], _ => []
  | width :: widths, bytes => ofBytes (bytes.take width) :: unpack widths (bytes.drop width)

theorem unpack_pack (fields : List (ℕ × ℕ)) (bounded : ∀ field ∈ fields, field.2 < 256 ^ field.1) :
    unpack (fields.map Prod.fst) (pack fields) = fields.map Prod.snd := by
  induction fields with
  | nil => rfl
  | cons field fields ih =>
    have current := ofBytes_toBytes (bounded field (by simp))
    have rest := ih fun other mem => bounded other (by simp [mem])
    simp only [pack] at rest
    simp [unpack, pack, current, rest]

theorem length_pack (fields : List (ℕ × ℕ)) : (pack fields).length = (fields.map Prod.fst).sum := by
  rw [pack, length_flatMap]
  simp

theorem unpack_lt (widths : List ℕ) (bytes : List UInt8) :
    ∀ field ∈ widths.zip (unpack widths bytes), field.2 < 256 ^ field.1 := by
  induction widths generalizing bytes with
  | nil => simp [unpack]
  | cons width widths ih =>
    rw [unpack, zip_cons_cons, forall_mem_cons]
    refine ⟨?_, ih _⟩
    calc ofBytes (bytes.take width)
        < 256 ^ (bytes.take width).length := ofBytes_lt _
      _ ≤ 256 ^ width := Nat.pow_le_pow_right (by decide) (length_take_le _ _)

theorem pack_unpack (widths : List ℕ) (bytes : List UInt8) (size : bytes.length = widths.sum) :
    pack (widths.zip (unpack widths bytes)) = bytes := by
  induction widths generalizing bytes with
  | nil => simpa [unpack, pack] using (length_eq_zero_iff.mp size).symm
  | cons width widths ih =>
    rw [sum_cons] at size
    have front : (bytes.take width).length = width := by
      rw [length_take]
      omega
    have back := ih (bytes.drop width) (by rw [length_drop]; omega)
    have current := toBytes_ofBytes (bytes.take width)
    rw [front] at current
    calc pack ((width :: widths).zip (unpack (width :: widths) bytes))
        = toBytes width (ofBytes (bytes.take width)) ++
            pack (widths.zip (unpack widths (bytes.drop width))) := rfl
      _ = bytes.take width ++ bytes.drop width := by rw [current, back]
      _ = bytes := take_append_drop width bytes

end FuseeFs.Library.Packed
