/-
An inode and its directory entry: `fat_fill_inode` and `fat_write_inode` (fat_inode.c), with the mode and attribute bits
of fat_inode.h, on FAT32.

- `fatMakeAttrs_fill`: the attribute byte comes back out of the mode and the attributes that are kept;
- `fatFillInode_entry`: the fields of an entry come back out of its inode;
- `fatMakeIPos_inj`: different entries have different numbers;
- `fatWriteInode_reproduces`: writing an inode back stores the fields of the entry that it was made of, and nothing else;
- `fatSyncInode_eq`: the inode of a directory is written back as `fatSyncInode` says.
-/
import AtsLdd.Fat.ChainEnd
import AtsLdd.Fat.Scan

namespace AtsLdd.Fat

open AtsLdd.Machine AtsLdd.ByteMap

/-! ## Mode and attributes -/

def ATTR_RO : UInt8 := 1
def ATTR_SYS : UInt8 := 4

/-- `ATTR_VOLUME | ATTR_ARCH | ATTR_SYS | ATTR_HIDDEN` -/
def ATTR_UNUSED : UInt8 := ATTR_VOLUME ||| ATTR_ARCH ||| ATTR_SYS ||| ATTR_HIDDEN

def S_IFMT : UInt32 := 0xf000
def S_IFDIR : UInt32 := 0x4000
def S_IFREG : UInt32 := 0x8000

/-- 0222 -/
def S_IWUGO : UInt32 := 0x92

/-- 0777 -/
def S_IRWXUGO : UInt32 := 0x1ff

/-- `S_IRUGO | S_IWUGO`, 0666 -/
def S_IRWUGO : UInt32 := 0x1b6

/-- the mount options that inodes are made with -/
structure InodeOptions where
  fsFmask : UInt16
  fsDmask : UInt16
  rodir : Bool
  showexec : Bool
  sysImmutable : Bool
  isvfat : Bool
  tz : TimeZone

/-- the fields of an inode that are made of its entry; an inode is the root when `i_ino` is `MSDOS_ROOT_INO` -/
structure VfsInode where
  isRoot : Bool
  iMode : UInt32
  iStart : ℤ
  iLogstart : ℤ
  iSize : ℤ
  mmuPrivate : ℤ
  iBlocks : ℕ
  iNlink : ℕ
  immutable : Bool
  iAttrs : UInt8
  iPos : ℕ
  iMtime : Timespec
  iCtime : Timespec
  iAtime : Timespec

/-- `fat_make_mode` -/
def fatMakeMode (opts : InodeOptions) (attrs : UInt8) (mode : UInt32) : UInt32 :=
  let mode := if attrs &&& ATTR_RO ≠ 0 ∧ ¬ (attrs &&& ATTR_DIR ≠ 0 ∧ opts.rodir = false) then mode &&& ~~~S_IWUGO else mode
  if attrs &&& ATTR_DIR ≠ 0 then (mode &&& ~~~opts.fsDmask.toUInt32) ||| S_IFDIR
  else (mode &&& ~~~opts.fsFmask.toUInt32) ||| S_IFREG

/-- `S_ISDIR` of `i_mode` -/
def VfsInode.IsDir (ino : VfsInode) : Prop := ino.iMode &&& S_IFMT = S_IFDIR

instance (ino : VfsInode) : Decidable ino.IsDir := inferInstanceAs (Decidable (_ = _))

/-- `fat_mode_can_hold_ro` -/
def fatModeCanHoldRo (opts : InodeOptions) (ino : VfsInode) : Bool :=
  if ino.IsDir then if opts.rodir = false then false else ~~~opts.fsDmask.toUInt32 &&& S_IWUGO ≠ 0
  else ~~~opts.fsFmask.toUInt32 &&& S_IWUGO ≠ 0

/-- `fat_save_attrs` -/
def fatSaveAttrs (opts : InodeOptions) (ino : VfsInode) (attrs : UInt8) : VfsInode :=
  { ino with iAttrs := if fatModeCanHoldRo opts ino then attrs &&& ATTR_UNUSED else attrs &&& (ATTR_UNUSED ||| ATTR_RO) }

/-- `fat_make_attrs` -/
def fatMakeAttrs (opts : InodeOptions) (ino : VfsInode) : UInt8 :=
  let attrs := ino.iAttrs
  let attrs := if ino.IsDir then attrs ||| ATTR_DIR else attrs
  if fatModeCanHoldRo opts ino = true ∧ ino.iMode &&& S_IWUGO = 0 then attrs ||| ATTR_RO else attrs

/-! ## The fields of an entry -/

/-- a little-endian 16-bit word at offset `off` -/
def le16 (buf : Buf) (off : ℕ) : ℕ := (buf off).toNat + 2 ^ 8 * (buf (off + 1)).toNat

/-- `time` and `date` of an entry -/
def entTime (de : Buf) : FatTime := ⟨le16 de 22, le16 de 24⟩

/-- `start` and `starthi` of an entry, as an `int` -/
def entStart (de : Buf) : ℤ := int32 (le16 de 20 * 2 ^ 16 + le16 de 26 : ℕ)

/-- `is_exec` -/
def isExec (extension : List UInt8) : Bool :=
  [[ch 'E', ch 'X', ch 'E'], [ch 'C', ch 'O', ch 'M'], [ch 'B', ch 'A', ch 'T']].any fun walk => strncmpEq extension walk

/-! ## `fat_fill_inode` -/

/-- the loop of `fat_subdirs` -/
def fatSubdirsLoop (env : Env) (sb : FatSb) (dir : Inode) : ℕ → St → DirCursor → ℕ → ℕ × St
  | 0, s, _, count => (count, s)
  | fuel + 1, s, cur, count =>
    match fatGetShortEntry env sb dir (dirEntries sb dir) s cur with
    | (false, cur, s) => (count, cur.bh.elim s (brelse s))
    | (true, cur, s) => fatSubdirsLoop env sb dir fuel s cur (if entAttr (cur.ent s) &&& ATTR_DIR ≠ 0 then count + 1 else count)

/-- `fat_subdirs` -/
def fatSubdirs (env : Env) (sb : FatSb) (s : St) (dir : Inode) : ℕ × St :=
  fatSubdirsLoop env sb dir (dirEntries sb dir) s dirCursorInit 0

/-- the times and the saved attributes of an inode, the last steps of `fat_fill_inode` -/
def fillTimes (opts : InodeOptions) (sb : FatSb) (ino : VfsInode) (de : Buf) : VfsInode :=
  let ino := if entAttr de &&& ATTR_SYS ≠ 0 ∧ opts.sysImmutable = true then { ino with immutable := true } else ino
  let ino := fatSaveAttrs opts ino (entAttr de)
  let size := ino.iSize + (sb.clusterSize - 1)
  let ino := { ino with iBlocks := ulong ((size - size % sb.clusterSize) / 2 ^ 9) }
  let ino := { ino with iMtime := fatTimeFat2unix opts.tz (entTime de) 0 }
  if opts.isvfat then
    { ino with
      iCtime := fatTimeFat2unix opts.tz ⟨le16 de 14, le16 de 16⟩ (de 13).toNat
      iAtime := fatTimeFat2unix opts.tz ⟨0, le16 de 18⟩ 0 }
  else { ino with iCtime := ino.iMtime, iAtime := ino.iMtime }

/-- `fat_fill_inode`: 0 or -EIO, and the inode; `none` is the `BUG_ON` of `fat_get_cluster` -/
def fatFillInode (env : Env) (sb : FatSb) (opts : InodeOptions) (s : St) (ino : VfsInode) (de : Buf) :
    Option (ℤ × VfsInode × St) :=
  let ino := { ino with iPos := 0 }
  if entAttr de &&& ATTR_DIR ≠ 0 ∧ ¬ IsFree de then
    let ino := { ino with
      iMode := fatMakeMode opts (entAttr de) S_IRWXUGO, iStart := entStart de, iLogstart := entStart de }
    match fatCalcDirSize env sb s ⟨ino.iStart, 0⟩ with
    | none => none
    | some c =>
      let ino := { ino with iSize := c.iSize }
      if c.ret < 0 then some (c.ret, ino, c.s)
      else
        -- a size that is negative is a bound that no block reaches
        let (count, s) := fatSubdirs env sb c.s ⟨ino.iStart, ulong ino.iSize⟩
        some (0, fillTimes opts sb { ino with mmuPrivate := ino.iSize, iNlink := count } de, s)
  else
    let exec := opts.showexec = true ∧ isExec ((entName de).drop 8) = false
    let ino := { ino with
      iMode := fatMakeMode opts (entAttr de) (if exec then S_IRWUGO else S_IRWXUGO)
      iStart := entStart de, iLogstart := entStart de, iSize := le32 de 28, mmuPrivate := le32 de 28 }
    some (0, fillTimes opts sb ino de, s)

/-! ## `fat_write_inode` -/

/-- the bytes of a little-endian 32-bit word -/
def le32Bytes (x : ℤ) : List UInt8 := le16Bytes x ++ le16Bytes (x / 2 ^ 16)

/-- the entry at `off` with the fields of the inode: `attr`, and `starthi`, `time`, `date`, `start` and `size` in a row; with
vfat also `ctime_cs`, `ctime`, `cdate` and `adate` in a row -/
def rawInode (opts : InodeOptions) (ino : VfsInode) (buf : Buf) (off : ℕ) : Buf :=
  let mtime := fatTimeUnix2fat opts.tz ino.iMtime
  let buf := splice buf (off + 11) [fatMakeAttrs opts ino]
  let buf := splice buf (off + 20) (le16Bytes (ino.iLogstart / 2 ^ 16) ++ le16Bytes mtime.time ++ le16Bytes mtime.date ++
    le16Bytes ino.iLogstart ++ if ino.IsDir then [0, 0, 0, 0] else le32Bytes ino.iSize)
  if opts.isvfat then
    let ctime := fatTimeUnix2fat opts.tz ino.iCtime
    splice buf (off + 13) (UInt8.ofNat ctime.timeCs :: (le16Bytes ctime.time ++ le16Bytes ctime.date ++
      le16Bytes (fatTimeUnix2fat opts.tz ino.iAtime).date))
  else buf

/-- block `b` is read, changed by `f`, written when `wait` says so, and released -/
def changeBlock (env : Env) (s : St) (b : ℕ) (f : Buf → Buf) (wait : Bool) : ℤ × St :=
  match sbBread env s b with
  | (false, s) => (- EIO, s)
  | (true, s) =>
    let s := { s with vol := Function.update s.vol b (f (s.vol b)) }
    let (ok, s) := if wait then syncDirtyBuffer env s b else (true, s)
    (if ok then 0 else - EIO, brelse s b)

/-- `fat_write_inode`; the number of the entry does not change while its block is read -/
def fatWriteInode (env : Env) (sb : FatSb) (opts : InodeOptions) (s : St) (ino : VfsInode) (wait : Bool) : ℤ × St :=
  if ino.isRoot then (0, s)
  else if ino.iPos = 0 then (0, s)
  else changeBlock env s (iPosBlock sb ino.iPos) (fun buf => rawInode opts ino buf (iPosOffset sb ino.iPos)) wait

/-! ## Attributes through the mode -/

section
variable {opts : InodeOptions} {ino : VfsInode} {attrs : UInt8} {x M t : UInt32}

/-- some bits of a mode that was masked and given a type -/
theorem masked_bits (x M t u : UInt32) : (x &&& ~~~M ||| t) &&& u = (~~~M &&& (x &&& u)) ||| (t &&& u) := by
  apply UInt32.toBitVec_inj.1
  ext i
  simp only [UInt32.toBitVec_and, UInt32.toBitVec_or, UInt32.toBitVec_not, BitVec.getElem_and, BitVec.getElem_or]
  rw [Bool.and_or_distrib_right, Bool.and_comm x.toBitVec[i], Bool.and_assoc]

/-- the type bits of a mode -/
theorem type_bits (hx : x &&& S_IFMT = 0) (ht : t &&& S_IFMT = t) : (x &&& ~~~M ||| t) &&& S_IFMT = t := by
  rw [masked_bits, hx, ht, UInt32.and_zero, UInt32.zero_or]

/-- the write bits of a mode -/
theorem write_bits (ht : t &&& S_IWUGO = 0) : (x &&& ~~~M ||| t) &&& S_IWUGO = ~~~M &&& (x &&& S_IWUGO) := by
  rw [masked_bits, ht, UInt32.or_zero]

/-- a mode before it is masked: all the permissions that count, less the write bits when it is read-only -/
theorem unmasked_bits (ro : Prop) [Decidable ro] (hx : x = S_IRWXUGO ∨ x = S_IRWUGO) :
    (if ro then x &&& ~~~S_IWUGO else x) &&& S_IFMT = 0 ∧
      (if ro then x &&& ~~~S_IWUGO else x) &&& S_IWUGO = if ro then 0 else S_IWUGO := by
  rcases hx with rfl | rfl
  · split_ifs <;> decide
  · split_ifs <;> decide

theorem fatMakeMode_isDir (hx : x = S_IRWXUGO ∨ x = S_IRWUGO) (hmode : ino.iMode = fatMakeMode opts attrs x) :
    ino.IsDir ↔ attrs &&& ATTR_DIR ≠ 0 := by
  obtain ⟨hfmt, -⟩ := unmasked_bits (attrs &&& ATTR_RO ≠ 0 ∧ ¬ (attrs &&& ATTR_DIR ≠ 0 ∧ opts.rodir = false)) hx
  unfold VfsInode.IsDir
  rw [hmode, fatMakeMode]
  by_cases hdir : attrs &&& ATTR_DIR ≠ 0
  · rw [if_pos hdir]
    exact iff_of_true (type_bits hfmt (by decide)) hdir
  · rw [if_neg hdir, type_bits hfmt (by decide)]
    exact iff_of_false (by decide) hdir

/-- **The read-only bit in the mode**, when the mode can hold it. -/
theorem fatMakeMode_readOnly (hx : x = S_IRWXUGO ∨ x = S_IRWUGO) (hmode : ino.iMode = fatMakeMode opts attrs x)
    (hhold : fatModeCanHoldRo opts ino = true) : ino.iMode &&& S_IWUGO = 0 ↔ attrs &&& ATTR_RO ≠ 0 := by
  have hisdir := fatMakeMode_isDir hx hmode
  obtain ⟨-, hw⟩ := unmasked_bits (attrs &&& ATTR_RO ≠ 0 ∧ ¬ (attrs &&& ATTR_DIR ≠ 0 ∧ opts.rodir = false)) hx
  unfold fatModeCanHoldRo at hhold
  rw [hmode, fatMakeMode]
  by_cases hdir : attrs &&& ATTR_DIR ≠ 0
  · rw [if_pos (hisdir.2 hdir)] at hhold
    have hrodir : ¬ opts.rodir = false := by
      intro h
      rw [if_pos h] at hhold
      cases hhold
    rw [if_neg hrodir, decide_eq_true_eq] at hhold
    rw [if_pos hdir, write_bits (by decide), hw]
    by_cases hro : attrs &&& ATTR_RO ≠ 0
    · rw [if_pos ⟨hro, fun h => hrodir h.2⟩, UInt32.and_zero]
      exact iff_of_true rfl hro
    · rw [if_neg fun h => hro h.1]
      exact iff_of_false hhold hro
  · rw [if_neg fun h => hdir (hisdir.1 h), decide_eq_true_eq] at hhold
    rw [if_neg hdir, write_bits (by decide), hw]
    by_cases hro : attrs &&& ATTR_RO ≠ 0
    · rw [if_pos ⟨hro, fun h => hdir h.1⟩, UInt32.and_zero]
      exact iff_of_true rfl hro
    · rw [if_neg fun h => hro h.1]
      exact iff_of_false hhold hro

/-- an attribute byte in its parts -/
theorem attrs_parts : ∀ n : Fin 256, UInt8.ofNat n &&& 0xc0 = 0 → ∀ hold : Bool,
    (if hold = true ∧ UInt8.ofNat n &&& ATTR_RO ≠ 0 then
      (if UInt8.ofNat n &&& ATTR_DIR ≠ 0 then
        (if hold then UInt8.ofNat n &&& ATTR_UNUSED else UInt8.ofNat n &&& (ATTR_UNUSED ||| ATTR_RO)) ||| ATTR_DIR
       else if hold then UInt8.ofNat n &&& ATTR_UNUSED else UInt8.ofNat n &&& (ATTR_UNUSED ||| ATTR_RO)) ||| ATTR_RO
     else if UInt8.ofNat n &&& ATTR_DIR ≠ 0 then
        (if hold then UInt8.ofNat n &&& ATTR_UNUSED else UInt8.ofNat n &&& (ATTR_UNUSED ||| ATTR_RO)) ||| ATTR_DIR
     else if hold then UInt8.ofNat n &&& ATTR_UNUSED else UInt8.ofNat n &&& (ATTR_UNUSED ||| ATTR_RO)) = UInt8.ofNat n := by
  decide +kernel

/-- **The attribute byte comes back** out of the mode and the attributes kept. -/
theorem fatMakeAttrs_fill (hx : x = S_IRWXUGO ∨ x = S_IRWUGO) (hmode : ino.iMode = fatMakeMode opts attrs x)
    (hattrs : attrs &&& 0xc0 = 0)
    (hkept : ino.iAttrs = if fatModeCanHoldRo opts ino then attrs &&& ATTR_UNUSED else attrs &&& (ATTR_UNUSED ||| ATTR_RO)) :
    fatMakeAttrs opts ino = attrs := by
  have hisdir := fatMakeMode_isDir hx hmode
  have hro : (fatModeCanHoldRo opts ino = true ∧ ino.iMode &&& S_IWUGO = 0) ↔
      (fatModeCanHoldRo opts ino = true ∧ attrs &&& ATTR_RO ≠ 0) :=
    and_congr_right fun hhold => fatMakeMode_readOnly hx hmode hhold
  obtain ⟨n, rfl⟩ : ∃ n : Fin 256, attrs = UInt8.ofNat n := ⟨⟨attrs.toNat, attrs.toNat_lt⟩, UInt8.ofNat_toNat.symm⟩
  unfold fatMakeAttrs
  simp only [hisdir, hro, hkept]
  exact attrs_parts n hattrs _

end

/-! ## Words and bytes -/

section
variable {de buf : Buf} {off : ℕ}

theorem le16_lt (buf : Buf) (off : ℕ) : le16 buf off < 2 ^ 16 := by
  have h0 := (buf off).toNat_lt
  have h1 := (buf (off + 1)).toNat_lt
  unfold le16
  omega

theorem ofNat_emod {x : ℤ} {u : UInt8} (h : x % 2 ^ 8 = u.toNat) : UInt8.ofNat (x % 2 ^ 8).toNat = u := by
  rw [h, Int.toNat_natCast, UInt8.ofNat_toNat]

/-- the bytes of a number that ends in a word of the buffer -/
theorem le16Bytes_of_emod {x : ℤ} (h : x % 2 ^ 16 = le16 buf off) : le16Bytes x = [buf off, buf (off + 1)] := by
  have h0 := (buf off).toNat_lt
  have h1 := (buf (off + 1)).toNat_lt
  unfold le16 at h
  unfold le16Bytes
  rw [ofNat_emod (show x % 2 ^ 8 = (buf off).toNat by omega), ofNat_emod (show x / 2 ^ 8 % 2 ^ 8 = (buf (off + 1)).toNat by omega)]

theorem le16Bytes_le16 (buf : Buf) (off : ℕ) : le16Bytes (le16 buf off) = [buf off, buf (off + 1)] := by
  have hlt := le16_lt buf off
  exact le16Bytes_of_emod (by omega)

/-- the first cluster is stored in its two words -/
theorem le16Bytes_entStart (de : Buf) : le16Bytes (entStart de) = [de 26, de 27] ∧
    le16Bytes (entStart de / 2 ^ 16) = [de 20, de 21] := by
  have h26 := le16_lt de 26
  have h20 := le16_lt de 20
  obtain ⟨k, hk⟩ : ∃ k : ℤ, entStart de = (le16 de 20 * 2 ^ 16 + le16 de 26 : ℕ) + k * 2 ^ 32 :=
    ⟨- Int.bdiv (le16 de 20 * 2 ^ 16 + le16 de 26 : ℕ) (2 ^ 32), by
      have h := Int.bmod_add_bdiv' (le16 de 20 * 2 ^ 16 + le16 de 26 : ℕ) (2 ^ 32)
      unfold entStart int32
      push_cast at h ⊢
      omega⟩
  rw [hk]
  exact ⟨le16Bytes_of_emod (by omega), le16Bytes_of_emod (by omega)⟩

theorem le32Bytes_le32 (buf : Buf) (off : ℕ) :
    le32Bytes (le32 buf off) = [buf off, buf (off + 1), buf (off + 2), buf (off + 3)] := by
  have h0 := le16_lt buf off
  have h2 := le16_lt buf (off + 2)
  have hsplit : le32 buf off = le16 buf off + 2 ^ 16 * le16 buf (off + 2) := by
    unfold le32 le16
    ring
  unfold le32Bytes
  have hlow : ((le16 buf off + 2 ^ 16 * le16 buf (off + 2) : ℕ) : ℤ) % 2 ^ 16 = le16 buf off := by omega
  have hhigh : ((le16 buf off + 2 ^ 16 * le16 buf (off + 2) : ℕ) : ℤ) / 2 ^ 16 % 2 ^ 16 = le16 buf (off + 2) := by omega
  rw [hsplit, le16Bytes_of_emod hlow, le16Bytes_of_emod hhigh]
  rfl

end

/-! ## The number of an entry -/

section
variable {sb : FatSb} {b b' i i' : ℕ}

theorem dirPerBlock_eq (sb : FatSb) : sb.dirPerBlock = 2 ^ sb.dirPerBlockBits :=
  show 2 ^ sb.blocksizeBits / 2 ^ 5 = _ from Nat.pow_div (le_trans (by norm_num) sb.bits_min) (by norm_num)

theorem fatMakeIPos_eq (hi : i < sb.dirPerBlock) : fatMakeIPos sb b (DENT_SIZE * i) = b * sb.dirPerBlock + i := by
  rw [dirPerBlock_eq] at hi
  unfold fatMakeIPos
  rw [Nat.mul_div_cancel_left i (by decide), dirPerBlock_eq, ← Nat.shiftLeft_eq, shiftLeft_or hi, Nat.shiftLeft_eq]

/-- the block and the offset that the number of an entry is made of -/
theorem fatMakeIPos_place (hi : i < sb.dirPerBlock) : iPosBlock sb (fatMakeIPos sb b (DENT_SIZE * i)) = b ∧
    iPosOffset sb (fatMakeIPos sb b (DENT_SIZE * i)) = DENT_SIZE * i := by
  have hpos : 0 < sb.dirPerBlock := Nat.zero_lt_of_lt hi
  unfold iPosBlock iPosOffset
  rw [fatMakeIPos_eq hi, ← dirPerBlock_eq, Nat.mul_comm b, Nat.mul_add_div hpos, Nat.div_eq_of_lt hi, Nat.add_zero,
    Nat.mul_add_mod, Nat.mod_eq_of_lt hi]
  exact ⟨rfl, rfl⟩

/-- **Different entries have different numbers.** -/
theorem fatMakeIPos_inj (hi : i < sb.dirPerBlock) (hi' : i' < sb.dirPerBlock)
    (h : fatMakeIPos sb b (DENT_SIZE * i) = fatMakeIPos sb b' (DENT_SIZE * i')) : b = b' ∧ i = i' := by
  obtain ⟨hb, ho⟩ := fatMakeIPos_place (b := b) hi
  obtain ⟨hb', ho'⟩ := fatMakeIPos_place (b := b') hi'
  rw [h] at hb ho
  exact ⟨hb.symm.trans hb', Nat.eq_of_mul_eq_mul_left (by decide) (ho.symm.trans ho')⟩

end

/-! ## There and back -/

/-- a live entry with a valid date and time and no reserved attribute; the size of a directory is 0 -/
structure GoodEntry (de : Buf) : Prop where
  live : ¬ IsFree de
  time : (entTime de).Valid
  attr : entAttr de &&& 0xc0 = 0
  size : entAttr de &&& ATTR_DIR ≠ 0 → le32 de 28 = 0

/-- the entry at `off` with attributes, `starthi`, `time`, `date`, `start` and `size` of the entry `de` -/
def entryStored (de buf : Buf) (off : ℕ) : Buf :=
  fun j => if j = off + 11 ∨ off + 20 ≤ j ∧ j < off + 32 then de (j - off) else buf j

/-- what an inode keeps of the entry that it was made of -/
structure MadeOf (opts : InodeOptions) (ino : VfsInode) (de : Buf) : Prop where
  mode : ∃ x, (x = S_IRWXUGO ∨ x = S_IRWUGO) ∧ ino.iMode = fatMakeMode opts (entAttr de) x
  attrs : ino.iAttrs = if fatModeCanHoldRo opts ino then entAttr de &&& ATTR_UNUSED else entAttr de &&& (ATTR_UNUSED ||| ATTR_RO)
  logstart : ino.iLogstart = entStart de
  size : entAttr de &&& ATTR_DIR = 0 → ino.iSize = le32 de 28
  mtime : ino.iMtime = fatTimeFat2unix opts.tz (entTime de) 0

section
variable {env : Env} {sb : FatSb} {opts : InodeOptions} {s s' : St} {ino ino' : VfsInode} {de buf : Buf} {off : ℕ}

/-- the last steps keep the fields of the entry, and add the times and the attributes -/
theorem fillTimes_spec (opts : InodeOptions) (sb : FatSb) (ino : VfsInode) (de : Buf) :
    (fillTimes opts sb ino de).iMode = ino.iMode ∧ (fillTimes opts sb ino de).iLogstart = ino.iLogstart ∧
      (fillTimes opts sb ino de).iSize = ino.iSize ∧ (fillTimes opts sb ino de).isRoot = ino.isRoot ∧
      (fillTimes opts sb ino de).iMtime = fatTimeFat2unix opts.tz (entTime de) 0 ∧
      (fillTimes opts sb ino de).iAttrs = (fatSaveAttrs opts ino (entAttr de)).iAttrs := by
  unfold fillTimes
  split_ifs <;> exact ⟨rfl, rfl, rfl, rfl, rfl, rfl⟩

theorem fatModeCanHoldRo_congr (h : ino'.iMode = ino.iMode) : fatModeCanHoldRo opts ino' = fatModeCanHoldRo opts ino := by
  have hdir : ino'.IsDir ↔ ino.IsDir := by
    unfold VfsInode.IsDir
    rw [h]
  unfold fatModeCanHoldRo
  simp only [hdir]

/-- **An inode is made of its entry.** -/
theorem fatFillInode_entry (h : fatFillInode env sb opts s ino de = some (0, ino', s')) :
    MadeOf opts ino' de ∧ ino'.isRoot = ino.isRoot := by
  have hmade : ∀ {x : UInt32} {ino1 : VfsInode}, (x = S_IRWXUGO ∨ x = S_IRWUGO) → ino1.iMode = fatMakeMode opts (entAttr de) x →
      ino1.iLogstart = entStart de → (entAttr de &&& ATTR_DIR = 0 → ino1.iSize = le32 de 28) → ino1.isRoot = ino.isRoot →
      fillTimes opts sb ino1 de = ino' → MadeOf opts ino' de ∧ ino'.isRoot = ino.isRoot := by
    rintro x ino1 hx hmode hstart hsize hroot rfl
    obtain ⟨h1, h2, h3, h4, h5, h6⟩ := fillTimes_spec opts sb ino1 de
    refine ⟨⟨⟨x, hx, h1.trans hmode⟩, ?_, h2.trans hstart, fun hdir => h3.trans (hsize hdir), h5⟩, h4.trans hroot⟩
    rw [h6, fatModeCanHoldRo_congr h1]
    rfl
  unfold fatFillInode at h
  by_cases hdir : entAttr de &&& ATTR_DIR ≠ 0 ∧ ¬ IsFree de
  · simp only [if_pos hdir] at h
    cases hcalc : fatCalcDirSize env sb s ⟨entStart de, 0⟩ with
    | none =>
      rw [hcalc] at h
      cases h
    | some c =>
      rw [hcalc] at h
      simp only at h
      by_cases hret : c.ret < 0
      · rw [if_pos hret, Option.some.injEq, Prod.mk.injEq] at h
        exact absurd h.1 hret.ne
      · rw [if_neg hret, Option.some.injEq, Prod.mk.injEq, Prod.mk.injEq] at h
        refine hmade (Or.inl rfl) ?_ ?_ (fun hno => absurd hno hdir.1) ?_ h.2.1
        · rfl
        · simp only
        · rfl
  · simp only [if_neg hdir, Option.some.injEq, Prod.mk.injEq] at h
    refine hmade (x := if opts.showexec = true ∧ isExec ((entName de).drop 8) = false then S_IRWUGO else S_IRWXUGO) ?_ ?_ ?_ ?_ ?_
      h.2.1
    · split_ifs
      · exact Or.inr rfl
      · exact Or.inl rfl
    · rfl
    · simp only
    · intro _
      exact rfl
    · rfl

/-- **The fields of the entry come back** out of the inode. -/
theorem rawInode_madeOf (hvfat : opts.isvfat = false) (good : GoodEntry de) (made : MadeOf opts ino de) (buf : Buf) (off : ℕ) :
    rawInode opts ino buf off = entryStored de buf off := by
  obtain ⟨⟨x, hx, hmode⟩, hattrs, hstart, hsize, hmtime⟩ := made
  have hattr := fatMakeAttrs_fill hx hmode good.attr hattrs
  have htime : fatTimeUnix2fat opts.tz ino.iMtime = ⟨entTime de, 0⟩ := by
    rw [hmtime]
    exact fatTimeUnix2fat_fat2unix opts.tz good.time (by norm_num)
  obtain ⟨hlow, hhigh⟩ := le16Bytes_entStart de
  have hsizes : (if ino.IsDir then [0, 0, 0, 0] else le32Bytes ino.iSize) = [de 28, de 29, de 30, de 31] := by
    rw [← le32Bytes_le32 de 28]
    by_cases hdir : entAttr de &&& ATTR_DIR ≠ 0
    · rw [if_pos ((fatMakeMode_isDir hx hmode).2 hdir), good.size hdir]
      decide
    · rw [if_neg fun h => hdir ((fatMakeMode_isDir hx hmode).1 h), hsize (not_not.1 hdir)]
  have hbytes : le16Bytes (ino.iLogstart / 2 ^ 16) ++ le16Bytes (entTime de).time ++ le16Bytes (entTime de).date ++
      le16Bytes ino.iLogstart ++ (if ino.IsDir then [0, 0, 0, 0] else le32Bytes ino.iSize) = slice de 20 12 := by
    rw [hsizes, hstart, hlow, hhigh, entTime, le16Bytes_le16, le16Bytes_le16]
    rfl
  unfold rawInode
  rw [if_neg (by rw [hvfat]; exact Bool.false_ne_true), hattr, htime, hbytes]
  funext j
  unfold entryStored
  by_cases hrow : off + 20 ≤ j ∧ j < off + 32
  · rw [if_pos (Or.inr hrow), splice_of_mem hrow.1 (by rw [length_slice]; omega), getElem_slice]
    congr 1
    omega
  · rw [splice_of_not_mem (by rw [length_slice]; omega)]
    by_cases hj : j = off + 11
    · rw [if_pos (Or.inl hj), splice_of_mem (by omega) (by rw [hj]; simp)]
      simp only [hj, Nat.sub_self, List.getElem_cons_zero, Nat.add_sub_cancel_left]
      rfl
    · rw [if_neg (by rw [not_or]; exact ⟨hj, hrow⟩), splice_of_not_mem (by simp only [List.length_singleton]; omega)]

/-- **Writing an inode back** unmodified stores the fields of the entry that it was made of, and changes no other byte; its
number is that of no other entry. -/
theorem fatWriteInode_reproduces {b i : ℕ} (hb : sb.dataStart ≤ b) (hi : i < sb.dirPerBlock) (hvfat : opts.isvfat = false)
    (hroot : ino.isRoot = false) (good : GoodEntry (entAt s.vol b (DENT_SIZE * i)))
    (hmade : fatFillInode env sb opts s ino (entAt s.vol b (DENT_SIZE * i)) = some (0, ino', s')) :
    (∀ (env1 : Env) (s1 : St) (wait : Bool),
      fatWriteInode env1 sb opts s1 { ino' with iPos := fatMakeIPos sb b (DENT_SIZE * i) } wait =
        changeBlock env1 s1 b (fun buf => entryStored (entAt s.vol b (DENT_SIZE * i)) buf (DENT_SIZE * i)) wait) ∧
      ∀ b' i', i' < sb.dirPerBlock → fatMakeIPos sb b' (DENT_SIZE * i') = fatMakeIPos sb b (DENT_SIZE * i) → b' = b ∧ i' = i := by
  refine ⟨fun env1 s1 wait => ?_, fun b' i' hi' h => fatMakeIPos_inj hi' hi h⟩
  obtain ⟨made, hroot'⟩ := fatFillInode_entry hmade
  obtain ⟨hblock, hoff⟩ := fatMakeIPos_place (b := b) hi
  have hpos : fatMakeIPos sb b (DENT_SIZE * i) ≠ 0 := by
    have hstart := sb.fatStart_pos
    have hfats := sb.fats_le
    have hper : 0 < sb.dirPerBlock := Nat.zero_lt_of_lt hi
    rw [fatMakeIPos_eq hi]
    exact (Nat.add_pos_left (Nat.mul_pos (by omega) hper) i).ne'
  -- the number of the entry is not stored
  have made' : MadeOf opts { ino' with iPos := fatMakeIPos sb b (DENT_SIZE * i) } (entAt s.vol b (DENT_SIZE * i)) :=
    ⟨made.mode, made.attrs, made.logstart, made.size, made.mtime⟩
  unfold fatWriteInode
  simp only
  rw [hroot', hroot, if_neg Bool.false_ne_true, if_neg hpos, hblock, hoff]
  congr 1
  funext buf
  exact rawInode_madeOf hvfat good made' buf _

/-- the inode of a file is always made -/
theorem fatFillInode_file (env : Env) (sb : FatSb) (opts : InodeOptions) (s : St) (ino : VfsInode)
    (h : entAttr de &&& ATTR_DIR = 0) : ∃ ino', fatFillInode env sb opts s ino de = some (0, ino', s) := by
  unfold fatFillInode
  simp only [h, ne_eq, not_true_eq_false, false_and, if_false]
  exact ⟨_, rfl⟩

/-- the inode of a directory, as growing it and writing it back sees it -/
def VfsInode.toDirInode (opts : InodeOptions) (ino : VfsInode) (dirsync : Bool) : DirInode where
  iStart := ino.iStart
  iSize := ino.iSize.toNat
  iLogstart := ino.iLogstart
  iPos := ino.iPos
  iBlocks := ino.iBlocks
  mmuPrivate := ino.mmuPrivate.toNat
  isRoot := ino.isRoot
  dirsync := dirsync
  attrs := fatMakeAttrs opts ino
  mtime := (fatTimeUnix2fat opts.tz ino.iMtime).toFatTime

/-- **`fat_sync_inode`** of a directory is `fat_write_inode` that waits. -/
theorem fatSyncInode_eq (hvfat : opts.isvfat = false) (hdir : ino.IsDir) (dirsync : Bool) (s : St) :
    fatSyncInode env sb s (ino.toDirInode opts dirsync) = fatWriteInode env sb opts s ino true := by
  have hraw : ∀ buf, rawInode opts ino buf (iPosOffset sb ino.iPos) =
      rawEntry (ino.toDirInode opts dirsync) buf (iPosOffset sb ino.iPos) := by
    intro buf
    unfold rawInode
    rw [if_neg (by rw [hvfat]; exact Bool.false_ne_true), if_pos hdir]
    rfl
  unfold fatSyncInode fatWriteInode changeBlock
  simp only [hraw, if_true]
  rfl

end

/-- a read-only file "A" of 5 bytes in cluster 3, of the first second of 1980 -/
def plainEntry : Buf := fun i => ([65, 32, 32, 32, 32, 32, 32, 32, 32, 32, 32, 33, 0, 0, 0, 0, 0, 0, 0, 0, 0, 0, 0, 0, 33, 0, 3, 0, 5, 0, 0,
  0] : List UInt8).getD i 0

/-- the options `fmask=022`, in UTC -/
def maskOptions : InodeOptions := ⟨0x12, 0x12, false, false, false, false, ⟨true, 0, by decide, by decide⟩⟩

/-- the options of a volume that is mounted without any -/
def plainOptions : InodeOptions := ⟨0, 0, false, false, false, false, ⟨true, 0, by decide, by decide⟩⟩

/-- an inode before it is filled -/
def newInode : VfsInode := ⟨false, 0, 0, 0, 0, 0, 0, 0, false, 0, 0, ⟨0, 0⟩, ⟨0, 0⟩, ⟨0, 0⟩⟩

theorem plainEntry_good : GoodEntry plainEntry :=
  ⟨by decide, ⟨by decide, by decide, by decide, by decide, by decide, by decide, by decide, by decide⟩, by decide, by decide⟩

/-- a volume whose blocks begin with that entry -/
def plainState : St := St.idle fun _ => plainEntry

theorem plainState_ent (b : ℕ) : entAt plainState.vol b (DENT_SIZE * 0) = plainEntry := by
  funext i
  unfold entAt
  rw [Nat.mul_zero, Nat.zero_add]
  rfl

/-- the inode of that file is written back to the first entry of block 2 -/
theorem fatWriteInode_reproduces_file : ∃ ino : VfsInode,
    fatFillInode goodEnv tinySb maskOptions plainState newInode (entAt plainState.vol 2 (DENT_SIZE * 0)) = some (0, ino, plainState) ∧
      ∀ wait, fatWriteInode goodEnv tinySb maskOptions plainState { ino with iPos := fatMakeIPos tinySb 2 (DENT_SIZE * 0) } wait =
        changeBlock goodEnv plainState 2
          (fun buf => entryStored (entAt plainState.vol 2 (DENT_SIZE * 0)) buf (DENT_SIZE * 0)) wait := by
  have hattr : entAttr (entAt plainState.vol 2 (DENT_SIZE * 0)) &&& ATTR_DIR = 0 := by
    rw [plainState_ent]
    decide
  obtain ⟨ino, hmade⟩ := fatFillInode_file goodEnv tinySb maskOptions plainState newInode hattr
  have hgood : GoodEntry (entAt plainState.vol 2 (DENT_SIZE * 0)) := by
    rw [plainState_ent]
    exact plainEntry_good
  exact ⟨ino, hmade, (fatWriteInode_reproduces (by decide) (by decide) rfl rfl hgood hmade).1 goodEnv plainState⟩

end AtsLdd.Fat
