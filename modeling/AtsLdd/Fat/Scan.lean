/-
Scanning a directory: `fat__get_entry`, `fat_get_entry`, `fat_get_short_entry` and `fat_scan` (fat_dir.c).

A scan goes from entry to entry, in the block in hand as long as there is a next one, and past the blocks that cannot be
read. Its loops are run with a bound on the blocks and on the entries of the directory as fuel.

- `fatGetEntry_first`: the first entry of a directory whose first block can be read;
- `fatScan_first`: a scan for the name of that entry finds it.
-/
import AtsLdd.Fat.Mapping
import AtsLdd.Fat.Table
import AtsLdd.Fat.Name

namespace AtsLdd.Fat

open AtsLdd.Machine

def ENOENT : ℕ := 2

/-- the size of `struct msdos_dir_entry` -/
def DENT_SIZE : ℕ := 32

/-- `dir_per_block` -/
def FatSb.dirPerBlock (sb : FatSb) : ℕ := sb.blocksize / DENT_SIZE

/-- the variables `pos`, `bh` and `de` of a scan -/
structure DirCursor where
  pos : ℕ
  /-- the block of the buffer held -/
  bh : Option ℕ
  /-- the offset of the entry in its buffer -/
  de : Option ℕ

/-- the variables when a scan starts -/
def dirCursorInit : DirCursor := ⟨0, none, none⟩

/-- the bytes from offset `off` of block `b` on -/
def entAt (vol : Vol) (b off : ℕ) : Buf := fun i => vol b (off + i)

/-- the entry at the cursor -/
def DirCursor.ent (cur : DirCursor) (s : St) : Buf :=
  match cur.bh, cur.de with
  | some b, some off => entAt s.vol b off
  | _, _ => fun _ => 0

/-- `fat__get_entry`; the fuel is a bound on the blocks that cannot be read. The answer is whether there is an entry. -/
def fatGetEntrySlow (env : Env) (sb : FatSb) (dir : Inode) : ℕ → St → DirCursor → Bool × DirCursor × St
  | 0, s, cur => (false, cur, s)
  | fuel + 1, s, cur =>
    let s := match cur.bh with
      | none => s
      | some b => brelse s b
    let cur := { cur with bh := none }
    let iblock := cur.pos / sb.blocksize
    let r := fatBmap env sb s dir iblock
    if r.ret ≠ 0 ∨ r.phys = 0 then (false, cur, r.s)
    else
      match sbBread env r.s r.phys with
      | (false, s) => fatGetEntrySlow env sb dir fuel s { cur with pos := (iblock + 1) * sb.blocksize }
      | (true, s) => (true, ⟨cur.pos + DENT_SIZE, some r.phys, some (cur.pos % sb.blocksize)⟩, s)

/-- the blocks up to `i_size` -/
def dirBlocks (sb : FatSb) (dir : Inode) : ℕ := (dir.iSize + (sb.blocksize - 1)) / 2 ^ sb.blocksizeBits

/-- `fat_get_entry` -/
def fatGetEntry (env : Env) (sb : FatSb) (s : St) (dir : Inode) (cur : DirCursor) : Bool × DirCursor × St :=
  match cur.bh, cur.de with
  | some _, some off =>
    if off / DENT_SIZE + 1 < sb.dirPerBlock then
      (true, { cur with pos := cur.pos + DENT_SIZE, de := some (off + DENT_SIZE) }, s)
    else fatGetEntrySlow env sb dir (dirBlocks sb dir + 1) s cur
  | _, _ => fatGetEntrySlow env sb dir (dirBlocks sb dir + 1) s cur

/-- `fat_get_short_entry`: entries that are free or volume labels are passed over -/
def fatGetShortEntry (env : Env) (sb : FatSb) (dir : Inode) : ℕ → St → DirCursor → Bool × DirCursor × St
  | 0, s, cur => (false, cur, s)
  | fuel + 1, s, cur =>
    match fatGetEntry env sb s dir cur with
    | (false, cur, s) => (false, cur, s)
    | (true, cur, s) =>
      if ¬ IsFree (cur.ent s) ∧ entAttr (cur.ent s) &&& ATTR_VOLUME = 0 then (true, cur, s)
      else fatGetShortEntry env sb dir fuel s cur

/-- `strncmp` finds no difference -/
def strncmpEq : List UInt8 → List UInt8 → Bool
  | [], _ => true
  | _, [] => true
  | a :: as, b :: bs => if a ≠ b then false else if a = 0 then true else strncmpEq as bs

/-- `fat_make_i_pos` -/
def fatMakeIPos (sb : FatSb) (blocknr off : ℕ) : ℕ := (blocknr * sb.dirPerBlock) ||| (off / DENT_SIZE)

/-- `struct fat_slot_info` -/
structure SlotInfo where
  iPos : ℕ
  slotOff : ℕ
  nrSlots : ℕ
  /-- the offset of the entry in its buffer -/
  de : Option ℕ
  /-- the block of the buffer held -/
  bh : Option ℕ
  deriving DecidableEq

/-- the loop of `fat_scan` -/
def fatScanLoop (env : Env) (sb : FatSb) (dir : Inode) (name : List UInt8) (entries : ℕ) :
    ℕ → St → DirCursor → ℤ × SlotInfo × St
  | 0, s, cur => (- ENOENT, ⟨0, cur.pos, 0, cur.de, cur.bh⟩, s)
  | fuel + 1, s, cur =>
    match fatGetShortEntry env sb dir entries s cur with
    | (false, cur, s) => (- ENOENT, ⟨0, cur.pos, 0, cur.de, cur.bh⟩, s)
    | (true, cur, s) =>
      if strncmpEq (entName (cur.ent s)) name then
        (0, ⟨fatMakeIPos sb (cur.bh.getD 0) (cur.de.getD 0), cur.pos - DENT_SIZE, 1, cur.de, cur.bh⟩, s)
      else fatScanLoop env sb dir name entries fuel s cur

/-- a bound on the steps of a scan -/
def dirEntries (sb : FatSb) (dir : Inode) : ℕ := dirBlocks sb dir * sb.dirPerBlock + 1

/-- `fat_scan`; the fields of `sinfo` that it does not set on an error are 0 -/
def fatScan (env : Env) (sb : FatSb) (s : St) (dir : Inode) (name : List UInt8) : ℤ × SlotInfo × St :=
  fatScanLoop env sb dir name (dirEntries sb dir) (dirEntries sb dir) s dirCursorInit

/-! ## The first entry -/

section
variable {env : Env} {sb : FatSb} {dir : Inode} {s : St}

theorem strncmpEq_refl (l : List UInt8) : strncmpEq l l = true := by
  induction l with
  | nil => rfl
  | cons a l ih =>
    rw [strncmpEq, if_neg (by simp), ih]
    split_ifs <;> rfl

/-- the first block of a directory -/
theorem fatBmap_first (env : Env) (hsize : 0 < dir.iSize) (hstart : InRange sb dir.iStart) (s : St) :
    ∃ n, fatBmap env sb s dir 0 = ⟨0, fatClusToBlknr sb dir.iStart, n, s⟩ ∧ fatClusToBlknr sb dir.iStart ≠ 0 := by
  obtain ⟨k, hk, hk2, hkmax⟩ := inRange_natCast hstart
  have hlast : ¬ 0 ≥ (dir.iSize + (sb.blocksize - 1)) / 2 ^ sb.blocksizeBits := by
    have hpos := sb.blocksize_pos
    have hdiv : 0 < (dir.iSize + (sb.blocksize - 1)) / sb.blocksize := Nat.div_pos (by omega) hpos
    exact not_le.2 hdiv
  have hspec := ncluster2block_spec sb hk2 hkmax sb.secPerClus_pos
  rw [ncluster2block_eq sb (by omega) (by have := sb.maxCluster_max; unfold MAX_FAT32 at this; omega), ← hk] at hspec
  have hadd : sectorAdd (fatClusToBlknr sb dir.iStart) 0 = fatClusToBlknr sb dir.iStart := by
    unfold sectorAdd fatClusToBlknr ulong
    omega
  have hnz : dir.iStart ≠ 0 := hstart.pos.ne'
  have hloop : fatGetClusterLoop env sb (int32 ((0 : ℕ) : ℤ)) (clusterLimit sb + 2) s 0 dir.iStart =
      ⟨0, 0, dir.iStart, s⟩ := by rw [fatGetClusterLoop, if_pos (by decide)]
  refine ⟨(fatBmap env sb s dir 0).mappedBlocks, ?_, ?_⟩
  · simp only [fatBmap, if_neg hlast, Nat.zero_div, Nat.zero_mod, fatBmapCluster, if_neg hnz,
      hloop, lt_irrefl, if_false, show ¬ (0 : ℤ) = FAT_ENT_EOF by decide,
      if_neg (not_lt.2 hstart.pos.le), if_pos hnz, hadd]
  · rw [← hadd, hspec]
    have := sb.fatStart_pos
    have := sb.fats_le
    omega

/-- **The first entry** of a directory whose first block can be read. -/
theorem fatGetEntry_first (hsize : 0 < dir.iSize) (hstart : InRange sb dir.iStart)
    (hread : env.bread s.t (fatClusToBlknr sb dir.iStart) = true) :
    ∃ s', fatGetEntry env sb s dir dirCursorInit =
      (true, ⟨DENT_SIZE, some (fatClusToBlknr sb dir.iStart), some 0⟩, s') ∧ s'.vol = s.vol := by
  obtain ⟨n, hbmap, hnz⟩ := fatBmap_first env hsize hstart s
  refine ⟨(sbBread env s (fatClusToBlknr sb dir.iStart)).2, ?_, ?_⟩
  · simp only [fatGetEntry, dirCursorInit, fatGetEntrySlow, Nat.zero_div, hbmap, hnz, ne_eq, not_true_eq_false, or_self,
      if_false, sbBread_ok hread, Nat.zero_mod, Nat.zero_add]
  · rw [sbBread_ok hread]

/-- **A scan for the name of the first entry** finds it. -/
theorem fatScan_first (env : Env) (sb : FatSb) (dir : Inode) (s : St) (hsize : 0 < dir.iSize) (hstart : InRange sb dir.iStart)
    (hread : env.bread s.t (fatClusToBlknr sb dir.iStart) = true)
    (hfree : ¬ IsFree (entAt s.vol (fatClusToBlknr sb dir.iStart) 0))
    (hvol : entAttr (entAt s.vol (fatClusToBlknr sb dir.iStart) 0) &&& ATTR_VOLUME = 0) :
    ∃ s' i, fatScan env sb s dir (entName (entAt s.vol (fatClusToBlknr sb dir.iStart) 0)) =
      (0, ⟨i, 0, 1, some 0, some (fatClusToBlknr sb dir.iStart)⟩, s') ∧ s'.vol = s.vol := by
  obtain ⟨s', hget, hsv⟩ := fatGetEntry_first (s := s) hsize hstart hread
  have hent : (DirCursor.mk DENT_SIZE (some (fatClusToBlknr sb dir.iStart)) (some 0)).ent s' =
      entAt s.vol (fatClusToBlknr sb dir.iStart) 0 := by
    unfold DirCursor.ent
    rw [hsv]
  have hshort : ∀ n, fatGetShortEntry env sb dir (n + 1) s dirCursorInit =
      (true, ⟨DENT_SIZE, some (fatClusToBlknr sb dir.iStart), some 0⟩, s') := by
    intro n
    simp only [fatGetShortEntry, hget, hent, hfree, hvol, not_false_eq_true, and_self, if_true]
  refine ⟨s', fatMakeIPos sb (fatClusToBlknr sb dir.iStart) 0, ?_, hsv⟩
  unfold fatScan dirEntries
  rw [fatScanLoop]
  simp only [hshort, hent, strncmpEq_refl, if_true, Nat.sub_self, Option.getD_some]

end

end AtsLdd.Fat
