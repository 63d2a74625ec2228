/-
FAT entries (fat_entry.c): the cursor `struct fat_entry`, reading and storing a word, syncing and mirroring.

A word holds a 28-bit link below 4 bits that a store keeps. `fatPut` is a store as the volume sees it.

- `fatLink_fatPut`: the words of the FAT are an array: a store is read back, and no other entry changes;
- `fatEntRead_ok`: a read positions the cursor, whatever it held before;
- `fatMirrorBhs_frame`, `fatSyncBhs_vol`: copying to the other FATs leaves the first one alone.
-/
import AtsLdd.Fat.Cluster

namespace AtsLdd.Fat

open AtsLdd.Machine AtsLdd.ByteMap

def ENOMEM : ℕ := 12

/-! ## Words -/

/-- a little-endian 32-bit word stored at offset `off` -/
def setLe32 (buf : Buf) (off word : ℕ) : Buf :=
  splice buf off [UInt8.ofNat word, UInt8.ofNat (word / 2 ^ 8), UInt8.ofNat (word / 2 ^ 16), UInt8.ofNat (word / 2 ^ 24)]

/-- `fat32_ent_put`: the buffer with the link `new` in its word at `off`; the top 4 bits of the word are kept -/
def fat32EntPut (buf : Buf) (off : ℕ) (new : ℤ) : Buf :=
  let new := if new = FAT_ENT_EOF then EOF_FAT32 else new
  setLe32 buf off ((new % 2 ^ 32).toNat ||| (le32 buf off &&& 0xf0000000))

theorem toNat_ofNat_lt (n : ℕ) : (UInt8.ofNat n).toNat = n % 2 ^ 8 := UInt8.toNat_ofNat'

theorem le32_lt (buf : Buf) (off : ℕ) : le32 buf off < 2 ^ 32 := by
  have h0 := (buf off).toNat_lt
  have h1 := (buf (off + 1)).toNat_lt
  have h2 := (buf (off + 2)).toNat_lt
  have h3 := (buf (off + 3)).toNat_lt
  unfold le32
  omega

/-- a byte of a stored word -/
theorem setLe32_byte (buf : Buf) (off word : ℕ) {i : ℕ} (hi : i < 4) :
    (setLe32 buf off word (off + i)).toNat = word / 2 ^ (8 * i) % 2 ^ 8 := by
  unfold setLe32
  rw [splice_of_mem (Nat.le_add_right _ _) (by rw [Nat.add_sub_cancel_left]; exact hi)]
  simp only [Nat.add_sub_cancel_left]
  interval_cases i
  · exact (toNat_ofNat_lt _).trans (by norm_num)
  · exact toNat_ofNat_lt _
  · exact toNat_ofNat_lt _
  · exact toNat_ofNat_lt _

theorem le32_setLe32 (buf : Buf) (off : ℕ) {word : ℕ} (h : word < 2 ^ 32) : le32 (setLe32 buf off word) off = word := by
  have h0 := setLe32_byte buf off word (show 0 < 4 by norm_num)
  have h1 := setLe32_byte buf off word (show 1 < 4 by norm_num)
  have h2 := setLe32_byte buf off word (show 2 < 4 by norm_num)
  have h3 := setLe32_byte buf off word (show 3 < 4 by norm_num)
  rw [Nat.add_zero] at h0
  unfold le32
  rw [h0, h1, h2, h3]
  omega

theorem le32_setLe32_of_ne (buf : Buf) {off off' : ℕ} (word : ℕ) (h : off' + 4 ≤ off ∨ off + 4 ≤ off') :
    le32 (setLe32 buf off word) off' = le32 buf off' := by
  have hbyte : ∀ i < 4, setLe32 buf off word (off' + i) = buf (off' + i) := by
    intro i hi
    apply splice_of_not_mem
    simp only [List.length_cons, List.length_nil]
    omega
  unfold le32
  rw [hbyte 1 (by norm_num), hbyte 2 (by norm_num), hbyte 3 (by norm_num)]
  have h0 := hbyte 0 (by norm_num)
  rw [Nat.add_zero] at h0
  rw [h0]

/-- a number of 28 bits below the top 4 bits of a word -/
theorem or_top_bits {v w : ℕ} (hv : v < 2 ^ 28) (hw : w < 2 ^ 32) : v ||| (w &&& 0xf0000000) = w / 2 ^ 28 * 2 ^ 28 + v := by
  have hand : w &&& 0xf0000000 = w / 2 ^ 28 * 2 ^ 28 := by
    apply Nat.eq_of_testBit_eq
    intro i
    have hmask : (0xf0000000 : ℕ) = 15 * 2 ^ 28 := by norm_num
    rw [hmask, Nat.testBit_and, Nat.testBit_mul_two_pow, Nat.testBit_mul_two_pow, Nat.testBit_div_two_pow]
    by_cases hi : 28 ≤ i
    · have hadd : i - 28 + 28 = i := by omega
      rw [hadd]
      by_cases hi32 : i < 32
      · have h15 : (15 : ℕ).testBit (i - 28) = true := by
          interval_cases i <;> rfl
        simp [hi, h15]
      · have hlarge : w.testBit i = false :=
          Nat.testBit_lt_two_pow (hw.trans_le (Nat.pow_le_pow_right Nat.two_pos (not_lt.1 hi32)))
        simp [hlarge]
    · simp [hi]
  rw [hand, Nat.or_comm, Nat.mul_comm, ← Nat.two_pow_add_eq_or_of_lt hv]

/-- a number of 28 bits, as callers store -/
def Storable (v : ℤ) : Prop := 0 ≤ v ∧ v < 2 ^ 28

/-- what a stored number is read back as: from the bad mark on it is the end of a chain -/
def readBack (v : ℤ) : ℤ := if v ≥ BAD_FAT32 then FAT_ENT_EOF else v

theorem Storable.eof : Storable FAT_ENT_EOF := by
  unfold Storable FAT_ENT_EOF
  omega

theorem Storable.free : Storable FAT_ENT_FREE := by
  unfold Storable FAT_ENT_FREE
  omega

theorem InRange.storable {sb : FatSb} {c : ℤ} (h : InRange sb c) : Storable c := by
  obtain ⟨k, rfl, h2, hk⟩ := inRange_natCast h
  have hmax := sb.maxCluster_max
  unfold MAX_FAT32 at hmax
  unfold Storable
  omega

theorem readBack_eof : readBack FAT_ENT_EOF = FAT_ENT_EOF := by decide

theorem readBack_free : readBack FAT_ENT_FREE = FAT_ENT_FREE := by decide

theorem readBack_of_lt {v : ℤ} (h : v < BAD_FAT32) : readBack v = v := if_neg (not_le.2 h)

/-- the word that a store leaves -/
theorem le32_fat32EntPut (buf : Buf) (off : ℕ) {new : ℤ} (h : Storable new) :
    le32 (fat32EntPut buf off new) off = le32 buf off / 2 ^ 28 * 2 ^ 28 + new.toNat := by
  have hlt := le32_lt buf off
  have hval : (if new = FAT_ENT_EOF then EOF_FAT32 else new) = new := by
    by_cases he : new = FAT_ENT_EOF
    · rw [if_pos he, he]
      rfl
    · rw [if_neg he]
  obtain ⟨h0, h1⟩ := h
  have hmod : (new % 2 ^ 32).toNat = new.toNat := by rw [Int.emod_eq_of_lt h0 (by omega)]
  unfold fat32EntPut
  simp only [hval, hmod]
  rw [or_top_bits (by omega) hlt]
  exact le32_setLe32 buf off (by omega)

/-- **A store is read back**, up to the bad mark. -/
theorem fat32EntGet_fat32EntPut (buf : Buf) (off : ℕ) {new : ℤ} (h : Storable new) :
    fat32EntGet (fat32EntPut buf off new) off = readBack new := by
  have hword := le32_fat32EntPut buf off h
  obtain ⟨h0, h1⟩ := h
  have hmod : ((le32 (fat32EntPut buf off new) off % 2 ^ 28 : ℕ) : ℤ) = new := by
    rw [hword]
    omega
  unfold fat32EntGet readBack
  simp only [hmod]

theorem fat32EntGet_fat32EntPut_of_ne (buf : Buf) {off off' : ℕ} (new : ℤ) (h : off' + 4 ≤ off ∨ off + 4 ≤ off') :
    fat32EntGet (fat32EntPut buf off new) off' = fat32EntGet buf off' := by
  unfold fat32EntGet fat32EntPut
  simp only [le32_setLe32_of_ne buf _ h]

/-! ## The FAT as an array -/

/-- a store to entry `c` of the first FAT -/
def fatPut (sb : FatSb) (vol : Vol) (c : ℤ) (new : ℤ) : Vol :=
  Function.update vol (fatEntBlocknr sb c).2 (fat32EntPut (vol (fatEntBlocknr sb c).2) (fatEntBlocknr sb c).1 new)

/-- block `b` of the first FAT -/
def InFat (sb : FatSb) (b : ℕ) : Prop := sb.fatStart ≤ b ∧ b < sb.fatStart + sb.fatLength

theorem fatEntBlocknr_inFat {sb : FatSb} {c : ℤ} (h : InRange sb c) : InFat sb (fatEntBlocknr sb c).2 := by
  obtain ⟨k, rfl, h2, hk⟩ := inRange_natCast h
  obtain ⟨heq, hlt⟩ := fatEntBlocknr_spec sb hk
  rw [heq]
  exact ⟨Nat.le_add_right _ _, Nat.add_lt_add_left hlt _⟩

/-- different entries have different words -/
theorem fatEntBlocknr_ne {sb : FatSb} {c d : ℤ} (hc : InRange sb c) (hd : InRange sb d) (hne : c ≠ d)
    (hb : (fatEntBlocknr sb d).2 = (fatEntBlocknr sb c).2) :
    (fatEntBlocknr sb d).1 + 4 ≤ (fatEntBlocknr sb c).1 ∨ (fatEntBlocknr sb c).1 + 4 ≤ (fatEntBlocknr sb d).1 := by
  obtain ⟨k, rfl, -, hk⟩ := inRange_natCast hc
  obtain ⟨j, rfl, -, hj⟩ := inRange_natCast hd
  rw [(fatEntBlocknr_spec sb hk).1, (fatEntBlocknr_spec sb hj).1] at *
  have hdiv : 4 * j / sb.blocksize = 4 * k / sb.blocksize := Nat.add_left_cancel hb
  have hk4 := Nat.div_add_mod (4 * k) sb.blocksize
  have hj4 := Nat.div_add_mod (4 * j) sb.blocksize
  rw [hdiv] at hj4
  have hkj : k ≠ j := fun h => hne (by rw [h])
  obtain ⟨q, hq⟩ := sb.four_dvd_blocksize
  have hmk : 4 * k % sb.blocksize = 4 * (k % q) := by rw [hq, Nat.mul_mod_mul_left]
  have hmj : 4 * j % sb.blocksize = 4 * (j % q) := by rw [hq, Nat.mul_mod_mul_left]
  simp only
  omega

/-- **The FAT is an array.** A store is read back, and no other entry changes. -/
theorem fatLink_fatPut {sb : FatSb} {vol : Vol} {c : ℤ} (hc : InRange sb c) {new : ℤ} (h : Storable new) {d : ℤ}
    (hd : InRange sb d) : fatLink sb (fatPut sb vol c new) d = if d = c then readBack new else fatLink sb vol d := by
  unfold fatLink linkIn fatPut
  by_cases hdc : d = c
  · rw [if_pos hdc, hdc, Function.update_self]
    exact fat32EntGet_fat32EntPut _ _ h
  · rw [if_neg hdc]
    by_cases hb : (fatEntBlocknr sb d).2 = (fatEntBlocknr sb c).2
    · rw [hb, Function.update_self]
      exact fat32EntGet_fat32EntPut_of_ne _ _ (fatEntBlocknr_ne hc hd (fun h => hdc h.symm) hb)
    · rw [Function.update_of_ne hb]

/-- the links of the volume depend on the first FAT only -/
theorem fatLink_congr {sb : FatSb} {vol vol' : Vol} (h : ∀ b, InFat sb b → vol' b = vol b) {c : ℤ} (hc : InRange sb c) :
    fatLink sb vol' c = fatLink sb vol c := by
  unfold fatLink
  rw [h _ (fatEntBlocknr_inFat hc)]

/-! ## The cursor -/

/-- `struct fat_entry`: a FAT32 word lies in one buffer -/
structure FatEntry where
  entry : ℤ
  /-- the block of the buffer held -/
  bh : Option ℕ
  /-- the offset of `ent32_p` in it -/
  ptr : Option ℕ

/-- `fatent_init` -/
def fatentInit : FatEntry := ⟨0, none, none⟩

/-- `fatent_set_entry` -/
def FatEntry.setEntry (e : FatEntry) (entry : ℤ) : FatEntry := { e with entry := entry, ptr := none }

/-- `fatent_brelse` -/
def FatEntry.brelse (e : FatEntry) (s : St) : FatEntry × St :=
  match e.bh with
  | none => ({ e with ptr := none }, s)
  | some b => ({ e with bh := none, ptr := none }, Fat.brelse s b)

/-- `fat32_ent_get`; the pointer is never followed when it is not set -/
def FatEntry.get (e : FatEntry) (s : St) : ℤ :=
  match e.bh, e.ptr with
  | some b, some off => fat32EntGet (s.vol b) off
  | _, _ => FAT_ENT_FREE

/-- `fat32_ent_put` -/
def FatEntry.put (e : FatEntry) (s : St) (new : ℤ) : St :=
  match e.bh, e.ptr with
  | some b, some off => { s with vol := Function.update s.vol b (fat32EntPut (s.vol b) off new) }
  | _, _ => s

/-- `fat_ent_bread`, for a cursor that holds no buffer -/
def fatEntBread (env : Env) (s : St) (e : FatEntry) (offset blocknr : ℕ) : Bool × FatEntry × St :=
  match sbBread env s blocknr with
  | (false, s) => (false, { e with bh := none }, s)
  | (true, s) => (true, { e with bh := some blocknr, ptr := some offset }, s)

/-- `fat_ent_read_block` -/
def fatEntReadBlock (env : Env) (sb : FatSb) (s : St) (e : FatEntry) : Bool × FatEntry × St :=
  let (e, s) := e.brelse s
  let (offset, blocknr) := fatEntBlocknr sb e.entry
  fatEntBread env s e offset blocknr

/-- `fat_ent_read`: the link of the entry or -EIO -/
def fatEntRead (env : Env) (sb : FatSb) (s : St) (e : FatEntry) (entry : ℤ) : ℤ × FatEntry × St :=
  if entry < FAT_START_ENT ∨ (sb.maxCluster : ℤ) ≤ entry then
    let (e, s) := e.brelse s
    (- EIO, e, s)
  else
    let e := e.setEntry entry
    let (offset, blocknr) := fatEntBlocknr sb entry
    if e.bh = some blocknr then -- `fat_ent_update_ptr`
      let e := { e with ptr := some offset }
      (e.get s, e, s)
    else
      let (e, s) := e.brelse s
      match fatEntBread env s e offset blocknr with
      | (false, e, s) => (- EIO, e, s)
      | (true, e, s) => (e.get s, e, s)

/-- `fat32_ent_next`: whether the next word is in the same buffer -/
def fat32EntNext (sb : FatSb) (e : FatEntry) : Bool × FatEntry :=
  let e := { e with entry := e.entry + 1 }
  match e.ptr with
  | none => (false, e)
  | some off =>
    if off < sb.blocksize - 4 then (true, { e with ptr := some (off + 4) }) else (false, { e with ptr := none })

/-- `fat_ent_next` -/
def fatEntNext (sb : FatSb) (e : FatEntry) : Bool × FatEntry :=
  let (more, e) := fat32EntNext sb e
  (more && decide (e.entry < sb.maxCluster), e)

/-! ## Writing buffers -/

/-- `fat_collect_bhs`: the buffers to be written, with a reference on each -/
def fatCollectBhs (bhs : List ℕ) (s : St) (e : FatEntry) : List ℕ × St :=
  match e.bh with
  | none => (bhs, s)
  | some b => if b ∈ bhs then (bhs, s) else (bhs ++ [b], { s with refs := Function.update s.refs b (s.refs b + 1) })

/-- `fat_sync_bhs`: every buffer is written, also behind a failure -/
def fatSyncBhs (env : Env) : St → List ℕ → ℤ × St
  | s, [] => (0, s)
  | s, b :: bhs =>
    let (ok, s) := syncDirtyBuffer env s b
    let (err, s) := fatSyncBhs env s bhs
    (if ok then err else - EIO, s)

/-- the inner loop of `fat_mirror_bhs`, for the FAT that starts `backupFat` blocks behind the first one -/
def fatMirrorCopy (env : Env) (sb : FatSb) (backupFat : ℕ) : St → List ℕ → ℤ × St
  | s, [] => (0, s)
  | s, b :: bhs =>
    if env.getblk s.t = false then (- ENOMEM, { s with t := s.t + 1 })
    else
      let c := sectorAdd backupFat b
      let s := { s with t := s.t + 1, refs := Function.update s.refs c (s.refs c + 1), vol := Function.update s.vol c (s.vol b) }
      let (ok, s) := if sb.synchronous then syncDirtyBuffer env s c else (true, s)
      let s := brelse s c
      if ok then fatMirrorCopy env sb backupFat s bhs else (- EIO, s)

/-- the outer loop of `fat_mirror_bhs`, with `left` copies to go -/
def fatMirrorLoop (env : Env) (sb : FatSb) (bhs : List ℕ) : ℕ → ℕ → St → ℤ × St
  | 0, _, s => (0, s)
  | left + 1, copy, s =>
    match fatMirrorCopy env sb (sb.fatLength * copy) s bhs with
    | (err, s) => if err ≠ 0 then (err, s) else fatMirrorLoop env sb bhs left (copy + 1) s

/-- `fat_mirror_bhs` -/
def fatMirrorBhs (env : Env) (sb : FatSb) (s : St) (bhs : List ℕ) : ℤ × St :=
  fatMirrorLoop env sb bhs (sb.fats - 1) 1 s

/-- `fat_sync_bhs` if asked for, and then `fat_mirror_bhs` unless it failed -/
def fatWriteBhs (env : Env) (sb : FatSb) (s : St) (bhs : List ℕ) (sync : Bool) : ℤ × St :=
  let (err, s) := if sync then fatSyncBhs env s bhs else (0, s)
  if err ≠ 0 then (err, s) else fatMirrorBhs env sb s bhs

/-- `fat_ent_write` -/
def fatEntWrite (env : Env) (sb : FatSb) (s : St) (e : FatEntry) (new : ℤ) (wait : Bool) : ℤ × St :=
  fatWriteBhs env sb (e.put s new) e.bh.toList wait

/-! ## What the operations do -/

/-- no call to the device fails -/
structure Env.NoFault (env : Env) : Prop where
  bread : ∀ t b, env.bread t b = true
  getblk : ∀ t, env.getblk t = true
  sync : ∀ t b, env.sync t b = true

theorem goodEnv_noFault : goodEnv.NoFault := ⟨fun _ _ => rfl, fun _ => rfl, fun _ _ => rfl⟩

/-- no write of a block of the first FAT fails -/
def Env.FatWrites (env : Env) (sb : FatSb) : Prop := ∀ t b, InFat sb b → env.sync t b = true

theorem Env.NoFault.fatWrites {env : Env} (h : env.NoFault) (sb : FatSb) : env.FatWrites sb := fun t b _ => h.sync t b

/-- nothing that the allocation of clusters looks at has changed -/
structure SameFat (sb : FatSb) (s s' : St) : Prop where
  vol : ∀ b, InFat sb b → s'.vol b = s.vol b
  freeClusters : s'.freeClusters = s.freeClusters
  freeClusValid : s'.freeClusValid = s.freeClusValid
  prevFree : s'.prevFree = s.prevFree
  discards : s'.discards = s.discards

theorem SameFat.refl (sb : FatSb) (s : St) : SameFat sb s s := ⟨fun _ _ => rfl, rfl, rfl, rfl, rfl⟩

theorem SameFat.trans {sb : FatSb} {s1 s2 s3 : St} (h1 : SameFat sb s1 s2) (h2 : SameFat sb s2 s3) : SameFat sb s1 s3 :=
  ⟨fun b hb => (h2.vol b hb).trans (h1.vol b hb), h2.freeClusters.trans h1.freeClusters,
    h2.freeClusValid.trans h1.freeClusValid, h2.prevFree.trans h1.prevFree, h2.discards.trans h1.discards⟩

theorem SameFat.link {sb : FatSb} {s s' : St} (h : SameFat sb s s') {c : ℤ} (hc : InRange sb c) :
    fatLink sb s'.vol c = fatLink sb s.vol c := fatLink_congr h.vol hc

theorem brelse_sameFat (sb : FatSb) (s : St) (b : ℕ) : SameFat sb s (brelse s b) := ⟨fun _ _ => rfl, rfl, rfl, rfl, rfl⟩

theorem FatEntry.brelse_spec (sb : FatSb) (e : FatEntry) (s : St) :
    (e.brelse s).1 = { e with bh := none, ptr := none } ∧ SameFat sb s (e.brelse s).2 := by
  rcases e with ⟨entry, _ | b, ptr⟩
  · exact ⟨rfl, SameFat.refl sb s⟩
  · exact ⟨rfl, brelse_sameFat sb s b⟩

/-- the cursor is positioned on entry `c` -/
structure FatEntry.At (sb : FatSb) (e : FatEntry) (c : ℤ) : Prop where
  entry : e.entry = c
  bh : e.bh = some (fatEntBlocknr sb c).2
  ptr : e.ptr = some (fatEntBlocknr sb c).1

section
variable {sb : FatSb} {e : FatEntry} {c : ℤ}

theorem FatEntry.At.get (h : e.At sb c) (s : St) : e.get s = fatLink sb s.vol c := by
  unfold FatEntry.get
  rw [h.bh, h.ptr]
  rfl

theorem FatEntry.At.put (h : e.At sb c) (s : St) (new : ℤ) : e.put s new = { s with vol := fatPut sb s.vol c new } := by
  unfold FatEntry.put
  rw [h.bh, h.ptr]
  rfl

/-- a read of the block of an entry -/
theorem fatEntBread_ok {env : Env} (henv : env.NoFault) (sb : FatSb) (s : St) (e : FatEntry) :
    ∃ s', fatEntBread env s e (fatEntBlocknr sb e.entry).1 (fatEntBlocknr sb e.entry).2 =
      (true, ⟨e.entry, some (fatEntBlocknr sb e.entry).2, some (fatEntBlocknr sb e.entry).1⟩, s') ∧ SameFat sb s s' := by
  unfold fatEntBread
  rw [sbBread_ok (henv.bread _ _)]
  exact ⟨_, rfl, fun _ _ => rfl, rfl, rfl, rfl, rfl⟩

/-- **Reading the block of the entry that the cursor names.** -/
theorem fatEntReadBlock_ok {env : Env} (henv : env.NoFault) (sb : FatSb) (s : St) (e : FatEntry) :
    ∃ e' s', fatEntReadBlock env sb s e = (true, e', s') ∧ e'.At sb e.entry ∧ SameFat sb s s' := by
  obtain ⟨he, hsame⟩ := FatEntry.brelse_spec sb e s
  obtain ⟨s', hread, hsame'⟩ := fatEntBread_ok henv sb (e.brelse s).2 (e.brelse s).1
  have hentry : (e.brelse s).1.entry = e.entry := by rw [he]
  rw [hentry] at hread
  refine ⟨⟨(e.brelse s).1.entry, some (fatEntBlocknr sb e.entry).2, some (fatEntBlocknr sb e.entry).1⟩, s', ?_,
    ⟨hentry, rfl, rfl⟩, hsame.trans hsame'⟩
  unfold fatEntReadBlock
  simp only [hentry]
  rw [hread]

theorem FatEntry.brelse_t (e : FatEntry) (s : St) : (e.brelse s).2.t = s.t := by
  rcases e with ⟨entry, _ | b, ptr⟩
  · rfl
  · rfl

/-- **Reading an entry** of the volume, whatever the cursor holds: its link, unless its block is not held and cannot be read. -/
theorem fatEntRead_spec (env : Env) (s : St) (e : FatEntry) (hc : InRange sb c) :
    ∃ v e' s', fatEntRead env sb s e c = (v, e', s') ∧ SameFat sb s s' ∧
      (v = fatLink sb s.vol c ∧ e'.At sb c ∨
        v = - EIO ∧ e.bh ≠ some (fatEntBlocknr sb c).2 ∧ env.bread s.t (fatEntBlocknr sb c).2 = false) := by
  have hin : ¬ (c < FAT_START_ENT ∨ (sb.maxCluster : ℤ) ≤ c) := by
    rintro (h | h)
    · exact absurd hc.1 (not_le.2 h)
    · exact absurd hc.2 (not_lt.2 h)
  unfold fatEntRead
  rw [if_neg hin]
  simp only
  by_cases hheld : (e.setEntry c).bh = some (fatEntBlocknr sb c).2
  · rw [if_pos hheld]
    have hat : FatEntry.At sb { e.setEntry c with ptr := some (fatEntBlocknr sb c).1 } c := ⟨rfl, hheld, rfl⟩
    exact ⟨_, _, s, rfl, SameFat.refl sb s, Or.inl ⟨hat.get s, hat⟩⟩
  · rw [if_neg hheld]
    obtain ⟨he, hsame⟩ := FatEntry.brelse_spec sb (e.setEntry c) s
    have hentry : ((e.setEntry c).brelse s).1.entry = c := by rw [he]; rfl
    have ht : ((e.setEntry c).brelse s).2.t = s.t := FatEntry.brelse_t _ s
    unfold fatEntBread
    cases hread : env.bread s.t (fatEntBlocknr sb c).2 with
    | true =>
      rw [sbBread_ok (by rw [ht]; exact hread)]
      have hsame' := hsame.trans (show SameFat sb ((e.setEntry c).brelse s).2 { ((e.setEntry c).brelse s).2 with
        t := ((e.setEntry c).brelse s).2.t + 1
        refs := Function.update ((e.setEntry c).brelse s).2.refs (fatEntBlocknr sb c).2
          (((e.setEntry c).brelse s).2.refs (fatEntBlocknr sb c).2 + 1) } from ⟨fun _ _ => rfl, rfl, rfl, rfl, rfl⟩)
      have hat : FatEntry.At sb { ((e.setEntry c).brelse s).1 with
        bh := some (fatEntBlocknr sb c).2, ptr := some (fatEntBlocknr sb c).1 } c := ⟨hentry, rfl, rfl⟩
      exact ⟨_, _, _, rfl, hsame', Or.inl ⟨(hat.get _).trans (hsame'.link hc), hat⟩⟩
    | false =>
      rw [sbBread_fail (by rw [ht]; exact hread)]
      exact ⟨_, _, _, rfl, hsame.trans ⟨fun _ _ => rfl, rfl, rfl, rfl, rfl⟩, Or.inr ⟨rfl, hheld, rfl⟩⟩

/-- reading an entry when nothing fails -/
theorem fatEntRead_ok {env : Env} (henv : env.NoFault) (s : St) (e : FatEntry) (hc : InRange sb c) :
    ∃ e' s', fatEntRead env sb s e c = (fatLink sb s.vol c, e', s') ∧ e'.At sb c ∧ SameFat sb s s' := by
  obtain ⟨v, e', s', hread, hsame, ⟨rfl, hat⟩ | ⟨-, -, hfail⟩⟩ := fatEntRead_spec env s e hc
  · exact ⟨e', s', hread, hat, hsame⟩
  · exact absurd (henv.bread _ _) (ne_true_of_eq_false hfail)

/-- an entry outside the volume is not read -/
theorem fatEntRead_outside (env : Env) (s : St) (e : FatEntry) (hc : ¬ InRange sb c) :
    ∃ s', fatEntRead env sb s e c = ((- EIO : ℤ), { e with bh := none, ptr := none }, s') ∧ SameFat sb s s' := by
  have hout : c < FAT_START_ENT ∨ (sb.maxCluster : ℤ) ≤ c := by
    by_contra h
    rw [not_or, not_lt, not_le] at h
    exact hc h
  obtain ⟨he, hsame⟩ := FatEntry.brelse_spec sb e s
  refine ⟨_, ?_, hsame⟩
  unfold fatEntRead
  rw [if_pos hout]
  simp only [he]

/-- reading the block of an entry, whatever fails -/
theorem fatEntReadBlock_any (env : Env) (sb : FatSb) (s : St) (e : FatEntry) :
    ∃ ok e' s', fatEntReadBlock env sb s e = (ok, e', s') ∧ SameFat sb s s' ∧ (ok = true → e'.At sb e.entry) := by
  obtain ⟨he, hsame⟩ := FatEntry.brelse_spec sb e s
  have hentry : (e.brelse s).1.entry = e.entry := by rw [he]
  unfold fatEntReadBlock fatEntBread
  simp only [hentry]
  cases hread : env.bread (e.brelse s).2.t (fatEntBlocknr sb e.entry).2 with
  | true =>
    rw [sbBread_ok hread]
    refine ⟨true, _, _, rfl, hsame.trans ⟨fun _ _ => rfl, rfl, rfl, rfl, rfl⟩, fun _ => ⟨rfl, rfl, rfl⟩⟩
  | false =>
    rw [sbBread_fail hread]
    exact ⟨false, _, _, rfl, hsame.trans ⟨fun _ _ => rfl, rfl, rfl, rfl, rfl⟩, fun h => absurd h (by simp)⟩

/-- reading an entry, whatever fails -/
theorem fatEntRead_any (env : Env) (sb : FatSb) (s : St) (e : FatEntry) (c : ℤ) :
    ∃ v e' s', fatEntRead env sb s e c = (v, e', s') ∧ SameFat sb s s' ∧
      (v = - EIO ∨ InRange sb c ∧ v = fatLink sb s.vol c ∧ e'.At sb c) := by
  by_cases hc : InRange sb c
  · obtain ⟨v, e', s', hread, hsame, ⟨hv, hat⟩ | ⟨herr, -⟩⟩ := fatEntRead_spec env s e hc
    · exact ⟨v, e', s', hread, hsame, Or.inr ⟨hc, hv, hat⟩⟩
    · exact ⟨v, e', s', hread, hsame, Or.inl herr⟩
  · obtain ⟨s', hres, hsame⟩ := fatEntRead_outside env s e hc
    exact ⟨_, _, s', hres, hsame, Or.inl rfl⟩

/-- **Stepping the cursor**: in the same block it is positioned on the next entry. -/
theorem fatEntNext_spec (hc : InRange sb c) (h : e.At sb c) :
    (fatEntNext sb e).2.entry = c + 1 ∧
      ((fatEntNext sb e).1 = true → InRange sb (c + 1) ∧ (fatEntNext sb e).2.At sb (c + 1)) := by
  obtain ⟨k, rfl, hk2, hk⟩ := inRange_natCast hc
  obtain ⟨hspec, -⟩ := fatEntBlocknr_spec sb hk
  have hptr := h.ptr
  have hbh := h.bh
  have hentry := h.entry
  rw [hspec] at hptr hbh
  unfold fatEntNext fat32EntNext
  simp only [hptr, hentry]
  by_cases hlast : 4 * k % sb.blocksize < sb.blocksize - 4
  · simp only [if_pos hlast, Bool.true_and, decide_eq_true_eq]
    refine ⟨trivial, fun hlt => ?_⟩
    have hk' : k + 1 < sb.maxCluster := by omega
    have hsucc : ((k : ℤ) + 1) = ((k + 1 : ℕ) : ℤ) := by push_cast; rfl
    have hin : InRange sb ((k : ℤ) + 1) := by
      rw [hsucc]
      unfold InRange FAT_START_ENT
      omega
    have hpos := sb.blocksize_pos
    have hdm := Nat.div_add_mod (4 * k) sb.blocksize
    have hsplit : 4 * (k + 1) = sb.blocksize * (4 * k / sb.blocksize) + (4 * k % sb.blocksize + 4) := by omega
    have hmod : 4 * (k + 1) % sb.blocksize = 4 * k % sb.blocksize + 4 := by
      rw [hsplit, Nat.mul_add_mod, Nat.mod_eq_of_lt (by omega)]
    have hdiv : 4 * (k + 1) / sb.blocksize = 4 * k / sb.blocksize := by
      rw [hsplit, Nat.mul_add_div hpos, Nat.div_eq_of_lt (show 4 * k % sb.blocksize + 4 < sb.blocksize by omega),
        Nat.add_zero]
    refine ⟨hin, rfl, ?_, ?_⟩
    · rw [hsucc, (fatEntBlocknr_spec sb hk').1, hdiv]
      exact hbh
    · rw [hsucc, (fatEntBlocknr_spec sb hk').1, hmod]
  · simp only [if_neg hlast, Bool.false_and]
    exact ⟨trivial, fun h => absurd h (by simp)⟩

end

/-! ## What the writes leave alone -/

/-- when only other writes can fail, syncing blocks of the first FAT succeeds -/
theorem fatSyncBhs_fatWrites {env : Env} {sb : FatSb} (henv : env.FatWrites sb) {bhs : List ℕ} :
    (∀ b ∈ bhs, InFat sb b) → ∀ s : St, ∃ s', fatSyncBhs env s bhs = (0, s') ∧ SameFat sb s s' := by
  induction bhs with
  | nil =>
    intro _ s
    exact ⟨s, rfl, SameFat.refl sb s⟩
  | cons b bhs ih =>
    intro hin s
    obtain ⟨s', hres, hsame⟩ := ih (fun x hx => hin x (List.mem_cons_of_mem _ hx))
      { s with t := s.t + 1, disk := Function.update s.disk b (s.vol b) }
    refine ⟨s', ?_, ⟨hsame.vol, hsame.freeClusters, hsame.freeClusValid, hsame.prevFree, hsame.discards⟩⟩
    simp only [fatSyncBhs, syncDirtyBuffer, henv _ _ (hin b List.mem_cons_self), if_true, hres]

/-- a block of another FAT is not one of the first -/
theorem backup_not_inFat {sb : FatSb} {copy b : ℕ} (h1 : 1 ≤ copy) (hc : copy < sb.fats) (hb : InFat sb b) :
    ¬ InFat sb (sectorAdd (sb.fatLength * copy) b) := by
  have hfl := sb.fatLength_max
  have hfs := sb.fatStart_max
  have hfats := sb.fats_max
  obtain ⟨hb1, hb2⟩ := hb
  have hmul : sb.fatLength * copy ≤ 2 ^ 32 * 2 ^ 8 := Nat.mul_le_mul hfl.le (by omega)
  have hge : sb.fatLength ≤ sb.fatLength * copy := Nat.le_mul_of_pos_right _ h1
  unfold sectorAdd
  rw [ulong_natCast (by omega)]
  rintro ⟨-, h2⟩
  omega

/-- one copy, whatever fails -/
theorem fatMirrorCopy_spec (env : Env) {sb : FatSb} {copy : ℕ} (h1 : 1 ≤ copy) (hc : copy < sb.fats) (bhs : List ℕ) :
    ∀ s : St, (∀ b ∈ bhs, InFat sb b) → SameFat sb s (fatMirrorCopy env sb (sb.fatLength * copy) s bhs).2 ∧
      (env.NoFault → (fatMirrorCopy env sb (sb.fatLength * copy) s bhs).1 = 0) := by
  induction bhs with
  | nil =>
    intro s _
    exact ⟨SameFat.refl sb s, fun _ => rfl⟩
  | cons b bhs ih =>
    intro s hin
    have hout := backup_not_inFat h1 hc (hin b List.mem_cons_self)
    have hne : ∀ x, InFat sb x → x ≠ sectorAdd (sb.fatLength * copy) b := fun x hx he => hout (he ▸ hx)
    rw [fatMirrorCopy]
    by_cases hget : env.getblk s.t = false
    · rw [if_pos hget]
      refine ⟨⟨fun _ _ => rfl, rfl, rfl, rfl, rfl⟩, fun henv => ?_⟩
      rw [henv.getblk] at hget
      exact absurd hget (by simp)
    · rw [if_neg hget]
      simp only
      set c := sectorAdd (sb.fatLength * copy) b with hcdef
      set s1 : St := { s with
        t := s.t + 1, refs := Function.update s.refs c (s.refs c + 1), vol := Function.update s.vol c (s.vol b) } with hs1
      have hsame1 : SameFat sb s s1 := ⟨fun x hx => Function.update_of_ne (hne x hx) _ _, rfl, rfl, rfl, rfl⟩
      have hsync : SameFat sb s1 (if sb.synchronous then syncDirtyBuffer env s1 c else (true, s1)).2 ∧
          (env.NoFault → (if sb.synchronous then syncDirtyBuffer env s1 c else (true, s1)).1 = true) := by
        cases sb.synchronous with
        | false => exact ⟨SameFat.refl sb s1, fun _ => rfl⟩
        | true =>
          unfold syncDirtyBuffer
          cases hw : env.sync s1.t c with
          | true => exact ⟨⟨fun _ _ => rfl, rfl, rfl, rfl, rfl⟩, fun _ => rfl⟩
          | false =>
            refine ⟨⟨fun x hx => Function.update_of_ne (hne x hx) _ _, rfl, rfl, rfl, rfl⟩, fun henv => ?_⟩
            rw [henv.sync] at hw
            exact absurd hw (by simp)
      obtain ⟨hsame2, hok⟩ := hsync
      generalize (if sb.synchronous then syncDirtyBuffer env s1 c else (true, s1)) = r at hsame2 hok ⊢
      have hsame3 := (hsame1.trans hsame2).trans (brelse_sameFat sb r.2 c)
      cases hr : r.1 with
      | false =>
        refine ⟨hsame3, fun henv => ?_⟩
        rw [hok henv] at hr
        exact absurd hr (by simp)
      | true =>
        obtain ⟨hrest, herr⟩ := ih (brelse r.2 c) fun x hx => hin x (List.mem_cons_of_mem _ hx)
        exact ⟨hsame3.trans hrest, herr⟩

theorem fatMirrorLoop_spec (env : Env) {sb : FatSb} {bhs : List ℕ} (hin : ∀ b ∈ bhs, InFat sb b) (left : ℕ) :
    ∀ (copy : ℕ) (s : St), 1 ≤ copy → copy + left ≤ sb.fats →
      SameFat sb s (fatMirrorLoop env sb bhs left copy s).2 ∧
        (env.NoFault → (fatMirrorLoop env sb bhs left copy s).1 = 0) := by
  induction left with
  | zero =>
    intro copy s _ _
    exact ⟨SameFat.refl sb s, fun _ => rfl⟩
  | succ left ih =>
    intro copy s h1 hle
    obtain ⟨hsame, herr⟩ := fatMirrorCopy_spec env h1 (show copy < sb.fats by omega) bhs s hin
    rw [fatMirrorLoop]
    generalize fatMirrorCopy env sb (sb.fatLength * copy) s bhs = r at hsame herr ⊢
    by_cases hr : r.1 ≠ 0
    · simp only [if_pos hr]
      exact ⟨hsame, herr⟩
    · simp only [if_neg hr]
      obtain ⟨hsame2, herr2⟩ := ih (copy + 1) r.2 (by omega) (by omega)
      exact ⟨hsame.trans hsame2, herr2⟩

/-- **Mirroring leaves the first FAT alone**, whatever fails. -/
theorem fatMirrorBhs_spec (env : Env) {sb : FatSb} (s : St) {bhs : List ℕ} (hin : ∀ b ∈ bhs, InFat sb b) :
    SameFat sb s (fatMirrorBhs env sb s bhs).2 ∧ (env.NoFault → (fatMirrorBhs env sb s bhs).1 = 0) := by
  have hpos := sb.fats_pos
  exact fatMirrorLoop_spec env hin (sb.fats - 1) 1 s le_rfl (by omega)

/-- when only other writes can fail, writing buffers of the first FAT leaves it as it is -/
theorem fatWriteBhs_fatWrites {env : Env} {sb : FatSb} (henv : env.FatWrites sb) (s : St) {bhs : List ℕ}
    (hin : ∀ b ∈ bhs, InFat sb b) (sync : Bool) : SameFat sb s (fatWriteBhs env sb s bhs sync).2 := by
  unfold fatWriteBhs
  cases sync with
  | false => exact (fatMirrorBhs_spec env s hin).1
  | true =>
    obtain ⟨s1, hsync, hsame1⟩ := fatSyncBhs_fatWrites henv hin s
    simp only [if_true, hsync, ne_eq, not_true_eq_false, if_false]
    exact hsame1.trans (fatMirrorBhs_spec env s1 hin).1

/-- without a failure, writing buffers of the first FAT succeeds and leaves it as it is -/
theorem fatWriteBhs_ok {env : Env} (henv : env.NoFault) {sb : FatSb} (s : St) {bhs : List ℕ}
    (hin : ∀ b ∈ bhs, InFat sb b) (sync : Bool) :
    ∃ s', fatWriteBhs env sb s bhs sync = (0, s') ∧ SameFat sb s s' := by
  unfold fatWriteBhs
  cases sync with
  | false =>
    obtain ⟨hsame, herr⟩ := fatMirrorBhs_spec env s hin
    refine ⟨_, ?_, hsame⟩
    simp only [Bool.false_eq_true, if_false, ne_eq, not_true_eq_false]
    exact Prod.ext (herr henv) rfl
  | true =>
    obtain ⟨s1, hsync, hsame1⟩ := fatSyncBhs_fatWrites (henv.fatWrites sb) hin s
    obtain ⟨hsame, herr⟩ := fatMirrorBhs_spec env s1 hin
    refine ⟨_, ?_, hsame1.trans hsame⟩
    simp only [if_true, hsync, ne_eq, not_true_eq_false, if_false]
    exact Prod.ext (herr henv) rfl

theorem FatEntry.At.bhs_inFat {sb : FatSb} {e : FatEntry} {c : ℤ} (h : e.At sb c) (hc : InRange sb c) :
    ∀ b ∈ e.bh.toList, InFat sb b := by
  intro b hb
  rw [h.bh] at hb
  rw [List.mem_singleton.1 hb]
  exact fatEntBlocknr_inFat hc

/-- **Writing an entry.** -/
theorem fatEntWrite_ok {env : Env} (henv : env.NoFault) {sb : FatSb} (s : St) {e : FatEntry} {c : ℤ} (hc : InRange sb c)
    (h : e.At sb c) (new : ℤ) (wait : Bool) :
    ∃ s', fatEntWrite env sb s e new wait = (0, s') ∧ SameFat sb { s with vol := fatPut sb s.vol c new } s' := by
  unfold fatEntWrite
  rw [h.put]
  exact fatWriteBhs_ok henv _ (h.bhs_inFat hc) wait

end AtsLdd.Fat
