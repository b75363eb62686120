import Mathlib

/-!
# The configuration

The fields of `GlobalConfig` that the memory management, the index and the
engine read.  Servers and clients are started with the same values.
-/

namespace FuseeFs

structure GlobalConfig where
  serverId : UInt32
  /-- The servers have the ids `0` to `memory_num - 1`. -/
  memoryNum : UInt32
  serverBaseAddr : UInt64
  serverDataLen : UInt64
  blockSize : UInt64
  numReplication : UInt32
  numIdxRep : UInt32
  mainCoreId : UInt32
  pollCoreId : UInt32
deriving DecidableEq, Repr

def roundup256 (len : ℕ) : ℕ :=
  if len % 256 = 0 then len else (len / 256 + 1) * 256

def metaAreaLen : ℕ := 256 * 1024 * 1024

def gcAreaLen : ℕ := 0

def hashAreaLen : ℕ := 128 * 1024 * 1024

def clientMetaLen : ℕ := 1024 * 1024

end FuseeFs
