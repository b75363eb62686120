import FuseeFs.Library.Bytes

/-!
# Numbers of a host and fields that are converted in place

A host keeps the bytes of a number with the lowest or with the highest byte
first.  Programs that exchange messages convert the numbers in them in place:
each conversion permutes the bytes of one field and undoes itself.  Conversions
of fields that do not overlap may be done, and undone, in any order.
-/

namespace FuseeFs.Library.Bytes

open List Library.Packed

inductive ByteOrder
  | littleEndian
  | bigEndian
deriving DecidableEq, Repr

/-- The bytes of a number in memory, and back: they are given with the lowest
byte first. -/
def ByteOrder.arrange : ByteOrder → List UInt8 → List UInt8
  | .littleEndian, bytes => bytes
  | .bigEndian, bytes => bytes.reverse

@[simp]
theorem ByteOrder.arrange_arrange (order : ByteOrder) (bytes : List UInt8) :
    order.arrange (order.arrange bytes) = bytes := by
  cases order with
  | littleEndian => rfl
  | bigEndian => exact reverse_reverse bytes

@[simp]
theorem ByteOrder.length_arrange (order : ByteOrder) (bytes : List UInt8) :
    (order.arrange bytes).length = bytes.length := by
  cases order with
  | littleEndian => rfl
  | bigEndian => exact length_reverse

def loadNumber (order : ByteOrder) (memory : Image) (offset width : ℕ) : ℕ :=
  ofBytes (order.arrange (load memory offset width))

def storeNumber (order : ByteOrder) (memory : Image) (offset width value : ℕ) : Image :=
  store memory offset (order.arrange (toBytes width value))

theorem loadNumber_lt (order : ByteOrder) (memory : Image) (offset width : ℕ) :
    loadNumber order memory offset width < 256 ^ width := by
  simpa [loadNumber] using ofBytes_lt (order.arrange (load memory offset width))

theorem toBytes_loadNumber (order : ByteOrder) (memory : Image) (offset width : ℕ) :
    toBytes width (loadNumber order memory offset width) =
      order.arrange (load memory offset width) := by
  simpa [loadNumber] using toBytes_ofBytes (order.arrange (load memory offset width))

theorem eq_of_load_eq {memory other : Image} {offset width place : ℕ}
    (same : load memory offset width = load other offset width) (lower : offset ≤ place)
    (upper : place < offset + width) : memory place = other place := by
  have entry := map_inj_left.mp same (place - offset) (mem_range.mpr (by omega))
  rwa [Nat.add_sub_cancel' lower] at entry

structure Conversion where
  offset : ℕ
  width : ℕ
  change : List UInt8 → List UInt8
  length_change : ∀ bytes, bytes.length = width → (change bytes).length = width
  change_change : ∀ bytes, bytes.length = width → change (change bytes) = bytes

namespace Conversion

def apply (memory : Image) (conversion : Conversion) : Image :=
  store memory conversion.offset
    (conversion.change (load memory conversion.offset conversion.width))

def applyAll (memory : Image) (conversions : List Conversion) : Image :=
  conversions.foldl apply memory

def Apart (conversion other : Conversion) : Prop :=
  conversion.offset + conversion.width ≤ other.offset ∨
    other.offset + other.width ≤ conversion.offset

instance (conversion other : Conversion) : Decidable (Apart conversion other) :=
  inferInstanceAs (Decidable (_ ∨ _))

theorem Apart.symm {conversion other : Conversion} (apart : Apart conversion other) :
    Apart other conversion :=
  Or.symm apart

instance symm_apart : Std.Symm Apart :=
  ⟨fun _ _ => Apart.symm⟩

variable (memory : Image) (conversion : Conversion)

theorem length_change_load :
    (conversion.change (load memory conversion.offset conversion.width)).length =
      conversion.width :=
  conversion.length_change _ length_load

theorem load_apply_self :
    load (apply memory conversion) conversion.offset conversion.width =
      conversion.change (load memory conversion.offset conversion.width) :=
  load_store_self (conversion.length_change_load memory)

theorem load_apply_of_apart {conversion other : Conversion} (apart : Apart conversion other) :
    load (apply memory conversion) other.offset other.width =
      load memory other.offset other.width := by
  apply load_store_of_disjoint
  rw [conversion.length_change_load]
  exact apart.symm

theorem apply_of_not_mem {place : ℕ}
    (outside : place < conversion.offset ∨ conversion.offset + conversion.width ≤ place) :
    apply memory conversion place = memory place :=
  store_of_not_mem (by rwa [conversion.length_change_load])

theorem apply_apply_self : apply (apply memory conversion) conversion = memory := by
  funext place
  by_cases outside : place < conversion.offset ∨ conversion.offset + conversion.width ≤ place
  · rw [apply_of_not_mem _ _ outside, apply_of_not_mem _ _ outside]
  · have same : load (apply (apply memory conversion) conversion) conversion.offset
        conversion.width = load memory conversion.offset conversion.width := by
      rw [load_apply_self, load_apply_self, conversion.change_change _ length_load]
    exact eq_of_load_eq same (by omega) (by omega)

theorem apply_comm {conversion other : Conversion} (apart : Apart conversion other) :
    apply (apply memory conversion) other = apply (apply memory other) conversion := by
  funext place
  by_cases inside : place < conversion.offset ∨ conversion.offset + conversion.width ≤ place
  · by_cases inOther : place < other.offset ∨ other.offset + other.width ≤ place
    · rw [apply_of_not_mem _ _ inOther, apply_of_not_mem _ _ inside, apply_of_not_mem _ _ inside,
        apply_of_not_mem _ _ inOther]
    · have same : load (apply (apply memory conversion) other) other.offset other.width =
          load (apply (apply memory other) conversion) other.offset other.width := by
        rw [load_apply_self, load_apply_of_apart _ apart, load_apply_of_apart _ apart,
          load_apply_self]
      exact eq_of_load_eq same (by omega) (by omega)
  · have same : load (apply (apply memory conversion) other) conversion.offset conversion.width =
        load (apply (apply memory other) conversion) conversion.offset conversion.width := by
      rw [load_apply_of_apart _ apart.symm, load_apply_self, load_apply_self,
        load_apply_of_apart _ apart.symm]
    exact eq_of_load_eq same (by omega) (by omega)

section All

variable {conversions later : List Conversion}

theorem applyAll_append :
    applyAll memory (conversions ++ later) = applyAll (applyAll memory conversions) later :=
  foldl_append

theorem applyAll_perm (apart : conversions.Pairwise Apart) (perm : conversions.Perm later) :
    applyAll memory conversions = applyAll memory later := by
  refine perm.foldl_eq' ?_ memory
  intro conversion mem other otherListed memory
  by_cases same : conversion = other
  · rw [same]
  · have separate : Apart conversion other := apart.forall mem otherListed same
    exact apply_comm memory separate

theorem applyAll_applyAll (apart : conversions.Pairwise Apart) (perm : conversions.Perm later) :
    applyAll (applyAll memory conversions) later = memory := by
  -- the last conversion is undone first
  have backwards : ∀ memory, applyAll (applyAll memory conversions) conversions.reverse = memory := by
    clear apart perm
    induction conversions with
    | nil => exact fun _ => rfl
    | cons conversion conversions ih =>
      intro memory
      rw [reverse_cons, applyAll, foldl_append]
      exact (congrArg (apply · conversion) (ih _)).trans (apply_apply_self memory conversion)
  rw [← applyAll_perm _ (pairwise_reverse.mpr (apart.imp Apart.symm))
    ((reverse_perm conversions).trans perm)]
  exact backwards memory

theorem load_applyAll_of_apart (apart : ∀ other ∈ conversions, Apart other conversion) :
    load (applyAll memory conversions) conversion.offset conversion.width =
      load memory conversion.offset conversion.width := by
  induction conversions generalizing memory with
  | nil => rfl
  | cons first conversions ih =>
    rw [forall_mem_cons] at apart
    exact (ih _ apart.2).trans (load_apply_of_apart memory apart.1)

theorem load_applyAll (apart : conversions.Pairwise Apart) (mem : conversion ∈ conversions) :
    load (applyAll memory conversions) conversion.offset conversion.width =
      conversion.change (load memory conversion.offset conversion.width) := by
  induction conversions generalizing memory with
  | nil => cases mem
  | cons first conversions ih =>
    obtain ⟨fromFirst, apart⟩ := pairwise_cons.mp apart
    obtain rfl | later := mem_cons.mp mem
    · apply (load_applyAll_of_apart _ _ fun other member => (fromFirst other member).symm).trans
      exact load_apply_self memory conversion
    · apply (ih _ apart later).trans
      rw [load_apply_of_apart memory (fromFirst conversion later)]

end All

end Conversion

end FuseeFs.Library.Bytes
