import FuseeFs.KeyValue.Model

/-!
# The address cache of a client

For keys it has accessed, a client remembers the word of the index slot and the
addresses of the slot's replicas.  The entry of a key is not used if too large
a share of the accesses found another word in the index.
-/

namespace FuseeFs.Client

open Function Index KeyValue

structure LocalCacheEntry (k : ℕ) where
  lSlotPtr : UInt64
  rSlotAddr : Fin (k + 1) → ℕ
  missCnt : UInt32
  accCnt : UInt32
deriving DecidableEq

abbrev AddrCache (k : ℕ) := List UInt8 → Option (LocalCacheEntry k)

/-- `key_str`, which is made from a buffer that ends at the first NUL. -/
def keyStr (key : List UInt8) : List UInt8 :=
  key.takeWhile (· ≠ 0)

theorem keyStr_eq_self {key : List UInt8} (noNul : 0 ∉ key) : keyStr key = key := by
  rw [keyStr, List.takeWhile_eq_self_iff]
  intro byte inKey
  exact decide_eq_true fun isNul => noNul (isNul ▸ inKey)

section Cache

variable {k : ℕ}

def updateCache (cache : AddrCache k) (key : List UInt8) (slotInfo : UInt64)
    (rSlotAddrList : Fin (k + 1) → ℕ) : AddrCache k :=
  update cache key <| some <|
    match cache key with
    | some entry =>
      if entry.lSlotPtr ≠ slotInfo then
        { lSlotPtr := slotInfo
          rSlotAddr := rSlotAddrList
          missCnt := entry.missCnt + 1
          accCnt := entry.accCnt + 1 }
      else { entry with accCnt := entry.accCnt + 1 }
    | none =>
      { lSlotPtr := slotInfo
        rSlotAddr := rSlotAddrList
        missCnt := 0
        accCnt := 1 }

/-- `check_cache` drops an entry whose pointer is empty; `missRateExceeds`
compares the miss rate with `miss_rate_threash_`. -/
def checkCache (missRateExceeds : UInt32 → UInt32 → Bool) (cache : AddrCache k)
    (key : List UInt8) : AddrCache k × Option (LocalCacheEntry k) :=
  match cache key with
  | none => (cache, none)
  | some entry =>
    if rKvAddr entry.lSlotPtr = 0 then (update cache key none, none)
    else if missRateExceeds entry.missCnt entry.accCnt then (cache, none)
    else (cache, some entry)

theorem mem_of_checkCache (missRateExceeds : UInt32 → UInt32 → Bool) (cache : AddrCache k)
    (key : List UInt8) (entry : LocalCacheEntry k)
    (checked : (checkCache missRateExceeds cache key).2 = some entry) : entry ∈ cache key := by
  unfold checkCache at checked
  split at checked
  · cases checked
  · rename_i stored found
    split_ifs at checked
    obtain rfl := Option.some.inj checked
    exact found

def removeCache (cache : AddrCache k) (key : List UInt8) : AddrCache k :=
  update cache key none

def countAccess (cache : AddrCache k) (key : List UInt8) : AddrCache k :=
  update cache key ((cache key).map fun entry => { entry with accCnt := entry.accCnt + 1 })

end Cache

end FuseeFs.Client
