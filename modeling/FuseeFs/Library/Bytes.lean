import FuseeFs.Library.Packed

/-!
# Byte-addressed memory

A piece of memory is the function from offsets to bytes.  Structures are read
from it and written to it field by field; a transfer copies the first bytes of
one piece over another.
-/

namespace FuseeFs.Library.Bytes

open Library.Packed

abbrev Image := ℕ → UInt8

def load (memory : Image) (offset width : ℕ) : List UInt8 :=
  (List.range width).map fun index => memory (offset + index)

def store (memory : Image) (offset : ℕ) (bytes : List UInt8) : Image :=
  fun place =>
    if offset ≤ place ∧ place < offset + bytes.length then bytes.getD (place - offset) 0
    else memory place

def copy (source target : Image) (length : ℕ) : Image :=
  fun place => if place < length then source place else target place

variable {memory source target : Image} {offset width length place : ℕ} {bytes : List UInt8}

@[simp]
theorem length_load : (load memory offset width).length = width := by
  simp [load]

theorem ofBytes_load_lt : ofBytes (load memory offset width) < 256 ^ width := by
  simpa using ofBytes_lt (load memory offset width)

theorem load_store_self (fits : bytes.length = width) :
    load (store memory offset bytes) offset width = bytes := by
  subst fits
  apply List.ext_getElem (by simp [load])
  intro index _ bound
  simp [load, store, bound]

theorem store_of_not_mem (outside : place < offset ∨ offset + bytes.length ≤ place) :
    store memory offset bytes place = memory place :=
  if_neg (by omega)

theorem load_store_of_disjoint {other : ℕ}
    (disjoint : other + width ≤ offset ∨ offset + bytes.length ≤ other) :
    load (store memory offset bytes) other width = load memory other width := by
  apply List.map_congr_left
  intro index inside
  rw [List.mem_range] at inside
  exact store_of_not_mem (by omega)

theorem store_replicate_of_mem {count : ℕ} {byte : UInt8} (lower : offset ≤ place)
    (upper : place < offset + count) :
    store memory offset (List.replicate count byte) place = byte := by
  have inside : place - offset < count := by omega
  simp [store, lower, upper, List.getD_eq_getElem?_getD, inside]

theorem copy_of_lt (inside : place < length) : copy source target length place = source place :=
  if_pos inside

theorem copy_of_le (outside : length ≤ place) : copy source target length place = target place :=
  if_neg (by omega)

theorem load_copy (inside : offset + width ≤ length) :
    load (copy source target length) offset width = load source offset width := by
  apply List.map_congr_left
  intro index member
  rw [List.mem_range] at member
  exact copy_of_lt (by omega)

def loadWord (memory : Image) (offset : ℕ) : UInt64 :=
  .ofNat (ofBytes (load memory offset 8))

def storeWord (memory : Image) (offset : ℕ) (value : UInt64) : Image :=
  store memory offset (toBytes 8 value.toNat)

@[simp]
theorem loadWord_storeWord_self (value : UInt64) :
    loadWord (storeWord memory offset value) offset = value := by
  have bound : value.toNat < 256 ^ 8 := value.toNat_lt
  rw [loadWord, storeWord, load_store_self (length_toBytes _ _), ofBytes_toBytes bound]
  exact UInt64.ofNat_toNat

theorem loadWord_storeWord_of_disjoint {other : ℕ} (value : UInt64)
    (disjoint : other + 8 ≤ offset ∨ offset + 8 ≤ other) :
    loadWord (storeWord memory offset value) other = loadWord memory other := by
  rw [loadWord, storeWord, load_store_of_disjoint (by rwa [length_toBytes]), loadWord]

end FuseeFs.Library.Bytes
