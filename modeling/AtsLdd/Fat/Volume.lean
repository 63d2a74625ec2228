/-
A volume behind the buffer cache, and what a file system call does to it.

`vol b` is what the buffer cache hands out for block `b`, `disk b` what is on the device. A buffer whose write failed is
out of date: the block is read from the device again, so `vol b` falls back to `disk b`. The environment
`Env` decides, per tick, whether a block can be read, whether a buffer is written, and how many bytes a user copy manages.

A call also keeps a log of what it accessed, and the lowest count of references that each buffer has had. Neither is read
by any function; they are what statements about a whole call talk about: `lookups`, `clusters`, `buffers` of a log, and
whether something in it failed (`Access.ok`).
-/
import AtsLdd.Core.ByteMap
import AtsLdd.Fat.SuperBlock

namespace AtsLdd.Fat

open AtsLdd.Machine AtsLdd.ByteMap

/-- the bytes of a block -/
abbrev Buf := ℕ → UInt8

abbrev Vol := ℕ → Buf

/-- the outcomes of the calls to the device and to user memory, by the tick at which they are made -/
structure Env where
  /-- whether block `b` can be read -/
  bread : ℕ → ℕ → Bool
  /-- whether `sb_getblk` finds memory for a buffer -/
  getblk : ℕ → Bool
  /-- whether the dirty buffer of block `b` is written -/
  sync : ℕ → ℕ → Bool
  /-- how many bytes a user copy manages before it faults -/
  copied : ℕ → ℕ

/-- an access of a call -/
inductive Access where
  /-- FAT entry `c` was looked up in its block; `none` when the block could not be read -/
  | entry (c : ℤ) (buf : Option Buf)
  /-- the data blocks of cluster `c` are read next -/
  | cluster (c : ℤ)
  /-- data block `b` was handed out; `none` when it could not be read -/
  | block (b : ℕ) (buf : Option Buf)
  /-- a user copy left `nleft` bytes -/
  | copy (nleft : ℕ)

/-- the state of a call -/
structure St where
  vol : Vol
  disk : Vol
  /-- user memory -/
  ubuf : ℕ → UInt8
  /-- references held on the buffer of each block -/
  refs : ℕ → ℤ
  /-- the lowest that they have been -/
  low : ℕ → ℤ
  freeClusters : ℕ
  freeClusValid : Bool
  prevFree : ℕ
  /-- the block ranges that were discarded, each with its length -/
  discards : List (ℕ × ℕ)
  /-- calls to the environment so far -/
  t : ℕ
  log : List Access

/-- no call to the environment fails -/
def goodEnv : Env := ⟨fun _ _ => true, fun _ => true, fun _ _ => true, fun _ => 2 ^ 12⟩

/-- a state with the volume `vol`, on disk as in memory -/
def St.idle (vol : Vol) : St := ⟨vol, vol, fun _ => 0, fun _ => 0, fun _ => 0, 0, false, 2, [], 0, []⟩

/-- 512-byte blocks, two a cluster, one FAT of one block, clusters 2 to 9 -/
def tinySb : FatSb where
  blocksizeBits := 9
  secPerClusBits := 1
  fatStart := 1
  fatLength := 1
  fats := 1
  dataStart := 2
  maxCluster := 10
  rootCluster := 2
  synchronous := false
  bits_min := by decide
  bits_max := by decide
  spc_max := by decide
  fatStart_pos := by decide
  fatStart_max := by decide
  fats_pos := by decide
  fats_max := by decide
  fatLength_max := by decide
  fats_le := by decide
  dataStart_max := by decide
  entries_le := by decide
  maxCluster_min := by decide
  maxCluster_max := by decide

/-- a volume of `tinySb` with the FAT words `words`, whose data blocks are zero -/
def tinyVol (words : ℕ → ℕ) : Vol := fun b i => if b = 1 then UInt8.ofNat (words (i / 4) / 2 ^ (8 * (i % 4))) else 0

/-! ## Primitives -/

/-- `sb_bread` -/
def sbBread (env : Env) (s : St) (b : ℕ) : Bool × St :=
  if env.bread s.t b then (true, { s with t := s.t + 1, refs := Function.update s.refs b (s.refs b + 1) })
  else (false, { s with t := s.t + 1 })

/-- `brelse` -/
def brelse (s : St) (b : ℕ) : St :=
  { s with
    refs := Function.update s.refs b (s.refs b - 1)
    low := Function.update s.low b (min (s.low b) (s.refs b - 1)) }

/-- `sync_dirty_buffer` of a buffer that is dirty; a failed write leaves it out of date -/
def syncDirtyBuffer (env : Env) (s : St) (b : ℕ) : Bool × St :=
  if env.sync s.t b then (true, { s with t := s.t + 1, disk := Function.update s.disk b (s.vol b) })
  else (false, { s with t := s.t + 1, vol := Function.update s.vol b (s.disk b) })

/-- `copy_to_user`: the bytes left -/
def copyToUser (env : Env) (s : St) (p : ℕ) (bytes : List UInt8) : ℕ × St :=
  let nleft := bytes.length - env.copied s.t
  (nleft, { s with t := s.t + 1, ubuf := splice s.ubuf p (bytes.take (env.copied s.t)), log := s.log ++ [.copy nleft] })

theorem sbBread_ok {env : Env} {s : St} {b : ℕ} (h : env.bread s.t b = true) :
    sbBread env s b = (true, { s with t := s.t + 1, refs := Function.update s.refs b (s.refs b + 1) }) := if_pos h

theorem sbBread_fail {env : Env} {s : St} {b : ℕ} (h : env.bread s.t b = false) :
    sbBread env s b = (false, { s with t := s.t + 1 }) := if_neg (by simp [h])

/-- a reference that is taken and given back -/
theorem update_add_sub (refs : ℕ → ℤ) (b : ℕ) :
    Function.update (Function.update refs b (refs b + 1)) b (Function.update refs b (refs b + 1) b - 1) = refs := by
  rw [Function.update_self, Function.update_idem, add_sub_cancel_right, Function.update_eq_self]

/-! ## Reading a log -/

/-- the access did what it was made for -/
def Access.ok : Access → Prop
  | .entry _ buf => buf ≠ none
  | .cluster _ => True
  | .block _ buf => buf ≠ none
  | .copy nleft => nleft = 0

def Access.lookup? : Access → Option (ℤ × Buf)
  | .entry c (some buf) => some (c, buf)
  | _ => none

def Access.cluster? : Access → Option ℤ
  | .cluster c => some c
  | _ => none

def Access.buffer? : Access → Option (ℕ × Buf)
  | .block b (some buf) => some (b, buf)
  | _ => none

/-- the FAT entries that were looked up, each with its FAT block -/
def lookups (es : List Access) : List (ℤ × Buf) := es.filterMap Access.lookup?

/-- the clusters whose data blocks were read -/
def clusters (es : List Access) : List ℤ := es.filterMap Access.cluster?

/-- the data blocks that were handed out, each with its content -/
def buffers (es : List Access) : List (ℕ × Buf) := es.filterMap Access.buffer?

@[simp] theorem lookups_append (a b : List Access) : lookups (a ++ b) = lookups a ++ lookups b := List.filterMap_append

@[simp] theorem clusters_append (a b : List Access) : clusters (a ++ b) = clusters a ++ clusters b :=
  List.filterMap_append

@[simp] theorem buffers_append (a b : List Access) : buffers (a ++ b) = buffers a ++ buffers b := List.filterMap_append

/-! ## FAT words -/

/-- a little-endian 32-bit word at offset `off` -/
def le32 (buf : Buf) (off : ℕ) : ℕ :=
  (buf off).toNat + 2 ^ 8 * (buf (off + 1)).toNat + 2 ^ 16 * (buf (off + 2)).toNat + 2 ^ 24 * (buf (off + 3)).toNat

/-- `fat32_ent_get`: the link in the FAT word at offset `off` -/
def fat32EntGet (buf : Buf) (off : ℕ) : ℤ :=
  let next : ℤ := (le32 buf off % 2 ^ 28 : ℕ)
  if next ≥ BAD_FAT32 then FAT_ENT_EOF else next

/-- the link of entry `c` as it reads in its block `buf` -/
def linkIn (sb : FatSb) (buf : Buf) (c : ℤ) : ℤ := fat32EntGet buf (fatEntBlocknr sb c).1

/-- the link of entry `c` of a volume -/
def fatLink (sb : FatSb) (vol : Vol) (c : ℤ) : ℤ := linkIn sb (vol (fatEntBlocknr sb c).2) c

/-- a link to another cluster, rather than a mark -/
def IsLink (v : ℤ) : Prop := v ≠ FAT_ENT_FREE ∧ v ≠ FAT_ENT_EOF

instance (v : ℤ) : Decidable (IsLink v) := inferInstanceAs (Decidable (_ ∧ _))

/-- the cluster after `c` -/
def fatSucc (sb : FatSb) (vol : Vol) (c : ℤ) : Option ℤ := if IsLink (fatLink sb vol c) then some (fatLink sb vol c) else none

theorem fat32EntGet_bounds (buf : Buf) (off : ℕ) : 0 ≤ fat32EntGet buf off ∧ fat32EntGet buf off ≤ FAT_ENT_EOF := by
  have h := Nat.mod_lt (le32 buf off) (show 0 < 2 ^ 28 by norm_num)
  unfold fat32EntGet FAT_ENT_EOF BAD_FAT32
  simp only
  split_ifs <;> omega

/-- a link is a positive number below the bad mark -/
theorem isLink_bounds {buf : Buf} {off : ℕ} (h : IsLink (fat32EntGet buf off)) :
    0 < fat32EntGet buf off ∧ fat32EntGet buf off < BAD_FAT32 := by
  obtain ⟨hfree, heof⟩ := h
  have hb := (fat32EntGet_bounds buf off).1
  refine ⟨lt_of_le_of_ne hb (Ne.symm hfree), ?_⟩
  unfold fat32EntGet at heof ⊢
  simp only at heof ⊢
  split_ifs at heof ⊢ with hbad
  · exact absurd rfl heof
  · exact not_le.1 hbad

end AtsLdd.Fat
