import FuseeFs.Library.Reachability

/-!
# The list of a client's memory blocks

A client keeps a list of the blocks and subtables it was given in a metadata
area on the servers, so that it can find them again after a crash.  The address
of the next entry to write, `client_meta_addr_`, is known to the running client
only.
-/

namespace FuseeFs.Memory

open List Option Function Library

variable {Block : Type}

/-- An entry of the list, with `meta_info_type` as the constructor. -/
inductive ClientMetaAddrInfo (Block : Type)
  | subtable (space : Block)
  | kvBlock (block : Block)
deriving DecidableEq, Repr

def ClientMetaAddrInfo.block? : ClientMetaAddrInfo Block → Option Block
  | .subtable _ => none
  | .kvBlock block => some block

/-- The entries by their position.  Memory that is zero is no entry. -/
abbrev MetaArea (Block : Type) := ℕ → Option (ClientMetaAddrInfo Block)

/-- How many entries of 96 bytes fit into `CLIENT_META_LEN` behind the
`ClientLogMetaInfo`. -/
def metaCapacity : ℕ := (1024 * 1024 - 24) / 96

/-- The part of `ClientMM` that knows about blocks. -/
structure BlockTable (Block : Type) where
  /-- `client_meta_addr_`, as a position in the list. -/
  clientMetaAddr : ℕ
  mmBlocks : List Block

/-- One entry goes to the servers, the next one will go behind it, and a data
block becomes known to the client. -/
def regInfo (memory : MetaArea Block × BlockTable Block) (info : ClientMetaAddrInfo Block) :
    MetaArea Block × BlockTable Block :=
  (update memory.1 memory.2.clientMetaAddr (some info),
    { clientMetaAddr := memory.2.clientMetaAddr + 1
      mmBlocks := memory.2.mmBlocks ++ info.block?.toList })

def regNewSpace (memory : MetaArea Block × BlockTable Block) (info : ClientMetaAddrInfo Block) :
    MetaArea Block × BlockTable Block :=
  regInfo memory info

def dynRegNewSpace (memory : MetaArea Block × BlockTable Block) (info : ClientMetaAddrInfo Block) :
    MetaArea Block × BlockTable Block :=
  regInfo memory info

def initRegSpace (memory : MetaArea Block × BlockTable Block) (blocks : List Block) :
    MetaArea Block × BlockTable Block :=
  blocks.foldl (fun memory block => regInfo memory (.kvBlock block)) memory

/-- The loop of `mm_recover_mm_blocks` over the entries that `mm_get_addr_meta`
has read. -/
def readMetaList (area : MetaArea Block) : ℕ → ℕ → List (ClientMetaAddrInfo Block)
  | 0, _ => []
  | unread + 1, pos =>
    match area pos with
    | none => []
    | some info => info :: readMetaList area unread (pos + 1)

def mmGetAddrMeta (area : MetaArea Block) : List (ClientMetaAddrInfo Block) :=
  readMetaList area metaCapacity 0

def recoveredBlocks (area : MetaArea Block) : List Block :=
  (mmGetAddrMeta area).filterMap ClientMetaAddrInfo.block?

/-- The constructor in recovery mode, followed by `mm_recovery`: the entries
are read, but `client_meta_addr_` stays where the constructor has put it. -/
def mmRecovery (area : MetaArea Block) : BlockTable Block where
  clientMetaAddr := 0
  mmBlocks := recoveredBlocks area

/-- The metadata area with the client, if one is running.  `registered` lists
all data blocks that were ever registered. -/
structure MetaSystem (Block : Type) where
  area : MetaArea Block
  client : Option (BlockTable Block)
  registered : List Block

namespace MetaSystem

def start : MetaSystem Block where
  area := fun _ => none
  client := some { clientMetaAddr := 0, mmBlocks := [] }
  registered := []

def IsInitial (s : MetaSystem Block) : Prop :=
  s = start

theorem isInitial_start : IsInitial (start : MetaSystem Block) :=
  rfl

inductive Event (Block : Type)
  | initRegSpace (blocks : List Block)
  | regNewSpace (info : ClientMetaAddrInfo Block)
  | dynRegNewSpace (info : ClientMetaAddrInfo Block)
  | crash
  | recover

def Event.infos : Event Block → List (ClientMetaAddrInfo Block)
  | .initRegSpace blocks => blocks.map .kvBlock
  | .regNewSpace info => [info]
  | .dynRegNewSpace info => [info]
  | .crash => []
  | .recover => []

def register (s : MetaSystem Block) (blocks : List Block)
    (registration : MetaArea Block × BlockTable Block → MetaArea Block × BlockTable Block) :
    Option (MetaSystem Block) :=
  s.client.map fun table =>
    { area := (registration (s.area, table)).1
      client := some (registration (s.area, table)).2
      registered := s.registered ++ blocks }

def step (s : MetaSystem Block) : Event Block → Option (MetaSystem Block)
  | .initRegSpace blocks => s.register blocks (Memory.initRegSpace · blocks)
  | .regNewSpace info => s.register info.block?.toList (Memory.regNewSpace · info)
  | .dynRegNewSpace info => s.register info.block?.toList (Memory.dynRegNewSpace · info)
  | .crash => if s.client.isSome then some { s with client := none } else none
  | .recover =>
    if s.client.isNone then some { s with client := some (mmRecovery s.area) }
    else none

def Complete [DecidableEq Block] (s : MetaSystem Block) : Prop :=
  (recoveredBlocks s.area).Perm s.registered

instance [DecidableEq Block] (s : MetaSystem Block) : Decidable s.Complete :=
  inferInstanceAs (Decidable (List.Perm _ _))

/-- The entries go to positions of the area that no other entry occupies. -/
def CursorAtEnd (s : MetaSystem Block) (event : Event Block) : Prop :=
  ∀ table ∈ s.client, ∀ offset < event.infos.length,
    table.clientMetaAddr + offset < metaCapacity ∧ s.area (table.clientMetaAddr + offset) = none

instance [DecidableEq Block] (s : MetaSystem Block) (event : Event Block) :
    Decidable (s.CursorAtEnd event) :=
  inferInstanceAs (Decidable (∀ table ∈ s.client, ∀ offset < event.infos.length,
    table.clientMetaAddr + offset < metaCapacity ∧ s.area (table.clientMetaAddr + offset) = none))

/-- The area holds one list of entries without gaps, and the client writes
behind the list or at some entry of it. -/
structure Listed (s : MetaSystem Block) (infos : List (ClientMetaAddrInfo Block)) : Prop where
  area_eq : s.area = fun pos => infos[pos]?
  fits : infos.length ≤ metaCapacity
  registered_eq : s.registered = infos.filterMap ClientMetaAddrInfo.block?
  cursor_le : ∀ table ∈ s.client, table.clientMetaAddr ≤ infos.length

end MetaSystem

theorem readMetaList_eq_drop (infos : List (ClientMetaAddrInfo Block)) {unread pos : ℕ}
    (enough : infos.length ≤ unread + pos) :
    readMetaList (fun pos => infos[pos]?) unread pos = infos.drop pos := by
  induction unread generalizing pos with
  | zero => simp [readMetaList, drop_eq_nil_of_le (by omega : infos.length ≤ pos)]
  | succ unread ih =>
    rcases Nat.lt_or_ge pos infos.length with inside | outside
    · simp only [readMetaList, getElem?_eq_getElem inside]
      rw [ih (by omega)]
      exact cons_getElem_drop_succ
    · simp only [readMetaList, getElem?_eq_none outside]
      rw [drop_eq_nil_of_le outside]

theorem update_getElem?_length (infos : List (ClientMetaAddrInfo Block))
    (info : ClientMetaAddrInfo Block) :
    update (fun pos => infos[pos]?) infos.length (some info) =
      fun pos => (infos ++ [info])[pos]? := by
  funext pos
  rcases Nat.lt_trichotomy pos infos.length with before | rfl | after
  · rw [update_of_ne (by omega)]
    simp [getElem?_append_left before]
  · simp
  · rw [update_of_ne (by omega)]
    simp only [getElem?_append_right (by omega : infos.length ≤ pos),
      getElem?_eq_none (by omega : infos.length ≤ pos)]
    exact (getElem?_eq_none (by simp; omega)).symm

theorem filterMap_block?_cons (info : ClientMetaAddrInfo Block)
    (infos : List (ClientMetaAddrInfo Block)) :
    (info :: infos).filterMap ClientMetaAddrInfo.block? =
      info.block?.toList ++ infos.filterMap ClientMetaAddrInfo.block? := by
  cases info <;> rfl

namespace MetaSystem

variable {s after : MetaSystem Block} {infos : List (ClientMetaAddrInfo Block)}

theorem Listed.recoveredBlocks_eq (mem : s.Listed infos) :
    recoveredBlocks s.area = s.registered := by
  rw [recoveredBlocks, mmGetAddrMeta, mem.area_eq, mem.registered_eq,
    readMetaList_eq_drop infos (by simpa using mem.fits), drop_zero]

section Register

variable {area : MetaArea Block} {table : BlockTable Block} {registered : List Block}

theorem Listed.regInfo (mem : Listed ⟨area, some table, registered⟩ infos)
    (info : ClientMetaAddrInfo Block) (room : table.clientMetaAddr < metaCapacity)
    (unused : area table.clientMetaAddr = none) :
    Listed ⟨(regInfo (area, table) info).1, some (regInfo (area, table) info).2,
      registered ++ info.block?.toList⟩ (infos ++ [info]) := by
  obtain ⟨area_eq, _, registered_eq, cursor_le⟩ := mem
  simp only at area_eq registered_eq
  subst area_eq registered_eq
  have cursor : table.clientMetaAddr = infos.length :=
    Nat.le_antisymm (cursor_le table rfl) (List.getElem?_eq_none_iff.mp unused)
  refine ⟨?_, ?_, ?_, ?_⟩
  · simp only [Memory.regInfo, cursor]
    exact update_getElem?_length infos info
  · simp only [length_append, length_singleton]
    omega
  · cases info <;> simp [ClientMetaAddrInfo.block?]
  · intro table' running
    obtain rfl : Memory.BlockTable.mk (table.clientMetaAddr + 1) _ = table' :=
      mem_some_iff.mp running
    simp [cursor]

theorem Listed.foldl_regInfo (added : List (ClientMetaAddrInfo Block))
    (mem : Listed ⟨area, some table, registered⟩ infos)
    (unused : ∀ offset < added.length, table.clientMetaAddr + offset < metaCapacity ∧
      area (table.clientMetaAddr + offset) = none) :
    Listed ⟨(added.foldl Memory.regInfo (area, table)).1,
      some (added.foldl Memory.regInfo (area, table)).2,
      registered ++ added.filterMap ClientMetaAddrInfo.block?⟩ (infos ++ added) := by
  induction added generalizing area table registered infos with
  | nil => simpa using mem
  | cons info added ih =>
    have first := unused 0 (by simp)
    have longer := mem.regInfo info first.1 first.2
    have rest : ∀ offset < added.length, table.clientMetaAddr + 1 + offset < metaCapacity ∧
        (Memory.regInfo (area, table) info).1 (table.clientMetaAddr + 1 + offset) = none := by
      intro offset inside
      have later := unused (offset + 1) (by simpa using inside)
      rw [← Nat.add_assoc, Nat.add_right_comm] at later
      refine ⟨later.1, ?_⟩
      simp only [Memory.regInfo]
      rw [update_of_ne (by omega)]
      exact later.2
    have extended := ih longer rest
    rw [append_assoc, append_assoc] at extended
    rw [filterMap_block?_cons]
    exact extended

end Register

theorem initRegSpace_eq (memory : MetaArea Block × BlockTable Block) (blocks : List Block) :
    Memory.initRegSpace memory blocks = (blocks.map .kvBlock).foldl Memory.regInfo memory := by
  rw [Memory.initRegSpace, foldl_map]

theorem step_cases {event : Event Block} (taken : s.step event = some after) :
    (∃ table ∈ s.client,
      after = ⟨(event.infos.foldl Memory.regInfo (s.area, table)).1,
        some (event.infos.foldl Memory.regInfo (s.area, table)).2,
        s.registered ++ event.infos.filterMap ClientMetaAddrInfo.block?⟩) ∨
      after = { s with client := none } ∨
      after = { s with client := some (mmRecovery s.area) } := by
  cases event with
  | initRegSpace blocks =>
    obtain ⟨table, running, rfl⟩ := map_eq_some_iff.mp taken
    refine .inl ⟨table, running, ?_⟩
    have each : (blocks.map ClientMetaAddrInfo.kvBlock).filterMap ClientMetaAddrInfo.block? =
        blocks := by
      simp [filterMap_map, comp_def, ClientMetaAddrInfo.block?]
    simp only [Event.infos, initRegSpace_eq, each]
  | regNewSpace info =>
    obtain ⟨table, running, rfl⟩ := map_eq_some_iff.mp taken
    refine .inl ⟨table, running, ?_⟩
    rw [Event.infos, filterMap_block?_cons, filterMap_nil, append_nil]
    rfl
  | dynRegNewSpace info =>
    obtain ⟨table, running, rfl⟩ := map_eq_some_iff.mp taken
    refine .inl ⟨table, running, ?_⟩
    rw [Event.infos, filterMap_block?_cons, filterMap_nil, append_nil]
    rfl
  | crash =>
    simp only [step] at taken
    split at taken
    · exact .inr (.inl (some.inj taken).symm)
    · cases taken
  | recover =>
    simp only [step] at taken
    split at taken
    · exact .inr (.inr (some.inj taken).symm)
    · cases taken

theorem exists_listed_of_step {event : Event Block} (mem : ∃ infos, s.Listed infos)
    (cursor : s.CursorAtEnd event) (taken : s.step event = some after) :
    ∃ infos, after.Listed infos := by
  obtain ⟨infos, mem⟩ := mem
  rcases step_cases taken with ⟨table, running, rfl⟩ | rfl | rfl
  · obtain ⟨_, client, _⟩ := s
    obtain rfl : client = some table := running
    exact ⟨_, mem.foldl_regInfo event.infos (cursor table rfl)⟩
  · exact ⟨infos, mem.area_eq, mem.fits, mem.registered_eq, by simp⟩
  · refine ⟨infos, mem.area_eq, mem.fits, mem.registered_eq, ?_⟩
    intro table running
    obtain rfl := mem_some_iff.mp running
    exact Nat.zero_le _

/-- As long as no entry is written over another one, the next recovery finds
all blocks that were ever registered. -/
theorem complete_of_cursorAtEnd [DecidableEq Block]
    (reached : Reachable step CursorAtEnd IsInitial s) : s.Complete := by
  have mem : ∃ infos, s.Listed infos := by
    apply reached.invariant
    · rintro s rfl
      exact ⟨[], rfl, by simp, rfl, by simp [start]⟩
    · intro s event after mem cursor taken
      exact exists_listed_of_step mem cursor taken
  obtain ⟨_, mem⟩ := mem
  rw [Complete, mem.recoveredBlocks_eq]

/-- Two blocks and a subtable, and a recovery that finds both blocks. -/
theorem complete_of_cursorAtEnd_twoBlocks :
    ∃ s : MetaSystem ℕ, Reachable step CursorAtEnd IsInitial s ∧
      s.registered = [1, 2] ∧ s.Complete := by
  obtain ⟨s, reached, registered⟩ := Reachable.exists_of_run step CursorAtEnd
    [.initRegSpace [1], .regNewSpace (.subtable 7), .dynRegNewSpace (.kvBlock 2), .crash, .recover]
    (fun s : MetaSystem ℕ => s.registered = [1, 2]) isInitial_start (by decide)
  exact ⟨s, reached, registered, complete_of_cursorAtEnd reached⟩

/-- After a recovery the next block takes the place of the first one. -/
theorem not_complete_after_recovery :
    ¬ ∀ s : MetaSystem ℕ, Reachable step (fun _ _ => True) IsInitial s → s.Complete := by
  intro complete
  obtain ⟨s, reached, incomplete⟩ := Reachable.exists_of_run step (fun _ _ => True)
    [.regNewSpace (.kvBlock 1), .crash, .recover, .dynRegNewSpace (.kvBlock 2)]
    (fun s : MetaSystem ℕ => ¬ s.Complete) isInitial_start (by decide)
  exact incomplete (complete s reached)

end MetaSystem

end FuseeFs.Memory
