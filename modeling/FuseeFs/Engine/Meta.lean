import FuseeFs.Library.Packed

/-!
# Inodes and their keys

The metadata of `fs/common/type.h` and `fs/common/meta.cc`, the keys under
which `Engine` stores inodes and directory entries, and the bytes it stores
there.
-/

namespace FuseeFs.Engine

open Function List Library

def ENOENT : Int := 2
def EIO : Int := 5
def EACCES : Int := 13
def EEXIST : Int := 17
def ENOTDIR : Int := 20
def EISDIR : Int := 21
def ENOTEMPTY : Int := 39

def S_IFMT : UInt32 := 0xF000
def S_IFDIR : UInt32 := 0x4000
def S_IFREG : UInt32 := 0x8000
def S_IRUSR : UInt32 := 0x100
def S_IWUSR : UInt32 := 0x80
def S_IRGRP : UInt32 := 0x20
def S_IWGRP : UInt32 := 0x10
def S_IROTH : UInt32 := 0x4
def S_IWOTH : UInt32 := 0x2

def kRootInodeId : UInt64 := 0

structure Inode where
  id : UInt64
  size : UInt64
  atime : UInt64
  mtime : UInt64
  ctime : UInt64
  children : UInt64
  mode : UInt32
  uid : UInt32
  gid : UInt32
deriving DecidableEq, Repr

def isDir (mode : UInt32) : Bool :=
  mode &&& S_IFMT = S_IFDIR

/-- The rule that `CheckReadPermission` and `CheckWritePermission` apply to
their own three bits. -/
def checkPermission (owner group other : UInt32) (inode : Inode) (uid gid : UInt32) : Bool :=
  if uid = 0 then true
  else if uid = inode.uid then inode.mode &&& owner ≠ 0
  else if gid = inode.gid then inode.mode &&& group ≠ 0
  else inode.mode &&& other ≠ 0

def checkReadPermission : Inode → UInt32 → UInt32 → Bool :=
  checkPermission S_IRUSR S_IRGRP S_IROTH

def checkWritePermission : Inode → UInt32 → UInt32 → Bool :=
  checkPermission S_IWUSR S_IWGRP S_IWOTH

theorem isDir_creat (mode : UInt32) : isDir (S_IFREG ||| mode) = false := by
  have regular : ((S_IFREG ||| mode) &&& S_IFMT) &&& S_IFREG = S_IFREG := by
    rw [UInt32.and_assoc, show S_IFMT &&& S_IFREG = S_IFREG from by decide]
    apply UInt32.toBitVec_inj.mp
    rw [UInt32.toBitVec_and, UInt32.toBitVec_or]
    grind
  rw [isDir, decide_eq_false_iff_not]
  intro dir
  rw [dir] at regular
  exact absurd regular (by decide)

/-- The widths of the fields of `Inode`, which is packed. -/
def inodeWidths : List ℕ := [8, 8, 8, 8, 8, 8, 4, 4, 4]

def sizeofInode : ℕ := 60

def Inode.fields (inode : Inode) : List (ℕ × ℕ) :=
  [(8, inode.id.toNat), (8, inode.size.toNat), (8, inode.atime.toNat), (8, inode.mtime.toNat),
    (8, inode.ctime.toNat), (8, inode.children.toNat), (4, inode.mode.toNat),
    (4, inode.uid.toNat), (4, inode.gid.toNat)]

def encodeInode (inode : Inode) : List UInt8 :=
  Packed.pack inode.fields

def decodeInode (bytes : List UInt8) : Inode :=
  let values := Packed.unpack inodeWidths bytes
  { id := .ofNat (values.getD 0 0), size := .ofNat (values.getD 1 0),
    atime := .ofNat (values.getD 2 0), mtime := .ofNat (values.getD 3 0),
    ctime := .ofNat (values.getD 4 0), children := .ofNat (values.getD 5 0),
    mode := .ofNat (values.getD 6 0), uid := .ofNat (values.getD 7 0),
    gid := .ofNat (values.getD 8 0) }

def sizeofId : ℕ := 8

def encodeId (id : UInt64) : List UInt8 :=
  Packed.pack [(8, id.toNat)]

def decodeId (bytes : List UInt8) : UInt64 :=
  .ofNat ((Packed.unpack [8] bytes).getD 0 0)

theorem Inode.fields_bounded (inode : Inode) : ∀ field ∈ inode.fields, field.2 < 256 ^ field.1 := by
  have wide (value : UInt64) : value.toNat < 256 ^ 8 := value.toNat_lt
  have narrow (value : UInt32) : value.toNat < 256 ^ 4 := value.toNat_lt
  simp only [Inode.fields, forall_mem_cons, wide, narrow, true_and]
  simp

@[simp]
theorem decodeInode_encodeInode (inode : Inode) : decodeInode (encodeInode inode) = inode := by
  have values : Packed.unpack inodeWidths (encodeInode inode) = inode.fields.map Prod.snd :=
    Packed.unpack_pack inode.fields inode.fields_bounded
  simp [decodeInode, values, Inode.fields]

@[simp]
theorem decodeId_encodeId (id : UInt64) : decodeId (encodeId id) = id := by
  have values : Packed.unpack [8] (encodeId id) = [id.toNat] :=
    Packed.unpack_pack [(8, id.toNat)] (by simpa using id.toNat_lt)
  simp [decodeId, values]

theorem fields_decodeInode (bytes : List UInt8) :
    (decodeInode bytes).fields = inodeWidths.zip (Packed.unpack inodeWidths bytes) := by
  have bounded := Packed.unpack_lt inodeWidths bytes
  have wide {value : ℕ} (bound : value < 256 ^ 8) : (UInt64.ofNat value).toNat = value :=
    UInt64.toNat_ofNat_of_lt' bound
  have narrow {value : ℕ} (bound : value < 256 ^ 4) : (UInt32.ofNat value).toNat = value :=
    UInt32.toNat_ofNat_of_lt' bound
  simp only [inodeWidths, Packed.unpack, zip_cons_cons, zip_nil_left, forall_mem_cons] at bounded
  obtain ⟨id, size, atime, mtime, ctime, children, mode, uid, gid, -⟩ := bounded
  simp only [Inode.fields, decodeInode, inodeWidths, Packed.unpack, zip_cons_cons,
    zip_nil_left, getD_cons_zero, getD_cons_succ, wide id, wide size, wide atime,
    wide mtime, wide ctime, wide children, narrow mode, narrow uid, narrow gid]

theorem encodeInode_decodeInode_eq_iff (bytes : List UInt8) :
    encodeInode (decodeInode bytes) = bytes ↔ bytes.length = sizeofInode := by
  constructor
  · intro same
    rw [← same, encodeInode, Packed.length_pack]
    rfl
  · intro size
    rw [encodeInode, fields_decodeInode]
    exact Packed.pack_unpack inodeWidths bytes size

theorem encodeId_decodeId_eq_iff (bytes : List UInt8) :
    encodeId (decodeId bytes) = bytes ↔ bytes.length = sizeofId := by
  constructor
  · intro same
    rw [← same, encodeId, Packed.length_pack]
    rfl
  · intro size
    have bounded := Packed.unpack_lt [8] bytes
    simp only [Packed.unpack, zip_cons_cons, zip_nil_left, forall_mem_cons] at bounded
    have value : (decodeId bytes).toNat = Packed.ofBytes (bytes.take 8) :=
      UInt64.toNat_ofNat_of_lt' bounded.1
    rw [encodeId, value]
    exact Packed.pack_unpack [8] bytes size

def getInodeKey (id : UInt64) : List Char :=
  Nat.toDigits 10 id.toNat

def getDentryKey (pid : UInt64) (name : List Char) : List Char :=
  Nat.toDigits 10 pid.toNat ++ '/' :: name

theorem toDigits_injective : Injective (Nat.toDigits 10) := by
  intro first second same
  rw [← @Nat.ofDigitChars_ten_toDigits first, same, Nat.ofDigitChars_ten_toDigits]

theorem slash_notMem_toDigits (n : ℕ) : '/' ∉ Nat.toDigits 10 n := by
  intro mem
  have digit := Nat.isDigit_of_mem_toDigits (by decide) (by decide) mem
  exact absurd digit (by decide)

theorem getInodeKey_injective : Injective getInodeKey :=
  fun _ _ same => UInt64.toNat_inj.mp (toDigits_injective same)

@[simp]
theorem getInodeKey_inj {first second : UInt64} :
    getInodeKey first = getInodeKey second ↔ first = second :=
  getInodeKey_injective.eq_iff

theorem takeWhile_getDentryKey (pid : UInt64) (name : List Char) :
    (getDentryKey pid name).takeWhile (· ≠ '/') = Nat.toDigits 10 pid.toNat := by
  have digits : ∀ char ∈ Nat.toDigits 10 pid.toNat, decide (char ≠ '/') = true := by
    intro char mem
    simp only [decide_eq_true_eq]
    rintro rfl
    exact slash_notMem_toDigits _ mem
  rw [getDentryKey, takeWhile_append_of_pos digits]
  simp

@[simp]
theorem getDentryKey_inj {pid other : UInt64} {name otherName : List Char} :
    getDentryKey pid name = getDentryKey other otherName ↔ pid = other ∧ name = otherName := by
  constructor
  · intro same
    have digits : Nat.toDigits 10 pid.toNat = Nat.toDigits 10 other.toNat := by
      rw [← takeWhile_getDentryKey pid name, same, takeWhile_getDentryKey]
    rw [getDentryKey, getDentryKey, digits] at same
    exact ⟨getInodeKey_injective digits, by simpa using same⟩
  · rintro ⟨rfl, rfl⟩
    rfl

@[simp]
theorem getInodeKey_ne_getDentryKey (id pid : UInt64) (name : List Char) :
    getInodeKey id ≠ getDentryKey pid name := by
  intro same
  refine slash_notMem_toDigits id.toNat ?_
  rw [← getInodeKey, same]
  simp [getDentryKey]

@[simp]
theorem getDentryKey_ne_getInodeKey (id pid : UInt64) (name : List Char) :
    getDentryKey pid name ≠ getInodeKey id :=
  (getInodeKey_ne_getDentryKey id pid name).symm

/-- No two keys of the store collide, whatever the names contain. -/
theorem keys_never_collide :
    Injective getInodeKey ∧
      Injective (fun entry : UInt64 × List Char => getDentryKey entry.1 entry.2) ∧
      ∀ id pid name, getInodeKey id ≠ getDentryKey pid name := by
  refine ⟨getInodeKey_injective, ?_, getInodeKey_ne_getDentryKey⟩
  rintro ⟨_, _⟩ ⟨_, _⟩ same
  exact Prod.ext_iff.mpr (getDentryKey_inj.mp same)

end FuseeFs.Engine
