/-
A directory as a row of slots: slot `i` is the 32 bytes at position `32 * i` of its chain of clusters.

- `dirBlock_inj`, `slot_inj`: different blocks and slots lie apart;
- `fatBmap_dir`: a block of the directory is found where the chain says;
- `fatGetEntry_slot`, `fatGetEntry_end`: `fat_get_entry` hands out the slots one after the other, when every block can be
  read.
-/
import AtsLdd.Fat.Search

namespace AtsLdd.Fat

open AtsLdd.Machine AtsLdd.ByteMap AtsLdd.LinkTable AtsLdd.Chain

/-! ## Slots -/

/-- block `q` of a directory with the clusters `l` -/
def dirBlock (sb : FatSb) (l : List ℤ) (q : ℕ) : ℕ :=
  sectorAdd (fatClusToBlknr sb (l.getD (q / sb.secPerClus) 0)) (q % sb.secPerClus)

/-- the number of its blocks -/
def nrBlocks (sb : FatSb) (l : List ℤ) : ℕ := l.length * sb.secPerClus

/-- the number of its slots -/
def nrSlots (sb : FatSb) (l : List ℤ) : ℕ := nrBlocks sb l * sb.dirPerBlock

/-- the block of slot `i` -/
def slotBlock (sb : FatSb) (l : List ℤ) (i : ℕ) : ℕ := dirBlock sb l (i / sb.dirPerBlock)

/-- the offset of slot `i` in its block -/
def slotOff (sb : FatSb) (i : ℕ) : ℕ := DENT_SIZE * (i % sb.dirPerBlock)

/-- the bytes of slot `i`, and what follows it in the block -/
def slot (sb : FatSb) (l : List ℤ) (vol : Vol) (i : ℕ) : Buf := entAt vol (slotBlock sb l i) (slotOff sb i)

/-- the directory has the clusters `l`, as `fat_calc_dir_size` found them -/
structure DirOn (sb : FatSb) (vol : Vol) (dir : Inode) (l : List ℤ) : Prop where
  chain : DirChain sb vol dir.iStart l
  size : dir.iSize = l.length * sb.clusterSize
  limit : l.length ≤ clusterLimit sb + 1

section
variable {env : Env} {sb : FatSb} {s : St} {dir : Inode} {l : List ℤ}

theorem blocksize_eq (sb : FatSb) : sb.blocksize = DENT_SIZE * sb.dirPerBlock := (Nat.mul_div_cancel' (dent_dvd_blocksize sb)).symm

theorem dirPerBlock_pos (sb : FatSb) : 0 < sb.dirPerBlock :=
  Nat.div_pos (le_trans (by decide) sb.blocksize_min) (by decide)

/-- the position of a slot, in blocks -/
theorem slot_pos (sb : FatSb) (i : ℕ) : DENT_SIZE * i / sb.blocksize = i / sb.dirPerBlock ∧
    DENT_SIZE * i % sb.blocksize = slotOff sb i := by
  have hpos : 0 < DENT_SIZE := by decide
  rw [blocksize_eq]
  exact ⟨Nat.mul_div_mul_left i _ hpos, Nat.mul_mod_mul_left DENT_SIZE i _⟩

theorem DirChain.inRange {vol : Vol} {start : ℤ} (h : DirChain sb vol start l) : ∀ x ∈ l, InRange sb x := by
  rcases h with ⟨-, rfl⟩ | p
  · intro _ hx
    exact absurd hx List.not_mem_nil
  · exact path_inRange p

theorem DirChain.nodup {vol : Vol} {start : ℤ} (h : DirChain sb vol start l) : l.Nodup := by
  rcases h with ⟨-, rfl⟩ | p
  · exact List.nodup_nil
  · exact p.nodup

/-- the blocks up to a size that is one of whole blocks -/
theorem dirBlocks_of_size {n : ℕ} (h : dir.iSize = n * sb.blocksize) : dirBlocks sb dir = n := by
  have hpos := sb.blocksize_pos
  change (dir.iSize + (sb.blocksize - 1)) / sb.blocksize = n
  rw [h, Nat.mul_comm, Nat.mul_add_div hpos, Nat.div_eq_of_lt (Nat.sub_one_lt hpos.ne'), Nat.add_zero]

theorem dirBlocks_of_clusters (h : dir.iSize = l.length * sb.clusterSize) : dirBlocks sb dir = nrBlocks sb l := by
  apply dirBlocks_of_size
  unfold nrBlocks
  rw [h, FatSb.clusterSize, Nat.mul_comm sb.blocksize, Nat.mul_assoc]

theorem DirOn.dirBlocks {vol : Vol} (h : DirOn sb vol dir l) : dirBlocks sb dir = nrBlocks sb l := dirBlocks_of_clusters h.size

/-- the cluster of a block -/
theorem dirBlock_cluster (hq : q < nrBlocks sb l) : ∃ c, l[q / sb.secPerClus]? = some c ∧
    dirBlock sb l q = sectorAdd (fatClusToBlknr sb c) (q % sb.secPerClus) := by
  have hk : q / sb.secPerClus < l.length := (Nat.div_lt_iff_lt_mul sb.secPerClus_pos).2 hq
  refine ⟨l[q / sb.secPerClus], List.getElem?_eq_getElem hk, ?_⟩
  unfold dirBlock
  rw [List.getD_eq_getElem?_getD, List.getElem?_eq_getElem hk]
  rfl

/-- the blocks of a directory are data blocks -/
theorem dataStart_le_dirBlock (hin : ∀ x ∈ l, InRange sb x) (hq : q < nrBlocks sb l) : sb.dataStart ≤ dirBlock sb l q := by
  obtain ⟨c, hc, heq⟩ := dirBlock_cluster hq
  rw [heq]
  exact (dataStart_le_block (hin c (List.mem_of_getElem? hc)) (Nat.mod_lt q sb.secPerClus_pos)).1

/-- blocks of different clusters of the volume are different -/
theorem clusBlock_inj {c d : ℤ} (hc : InRange sb c) (hd : InRange sb d) {i j : ℕ} (hi : i < sb.secPerClus)
    (hj : j < sb.secPerClus) (h : sectorAdd (fatClusToBlknr sb c) i = sectorAdd (fatClusToBlknr sb d) j) : c = d ∧ i = j := by
  obtain ⟨m, rfl, hm2, hm⟩ := inRange_natCast hc
  obtain ⟨n, rfl, hn2, hn⟩ := inRange_natCast hd
  have hmax := sb.maxCluster_max
  unfold MAX_FAT32 at hmax
  rw [← ncluster2block_eq sb (show (0 : ℤ) < m by omega) (by omega), ncluster2block_spec sb hm2 hm hi,
    ← ncluster2block_eq sb (show (0 : ℤ) < n by omega) (by omega), ncluster2block_spec sb hn2 hn hj] at h
  have hmod : ∀ a i : ℕ, i < sb.secPerClus → (a * sb.secPerClus + i) / sb.secPerClus = a ∧
      (a * sb.secPerClus + i) % sb.secPerClus = i := by
    intro a i hi
    rw [Nat.mul_comm, Nat.mul_add_div sb.secPerClus_pos, Nat.mul_add_mod, Nat.div_eq_of_lt hi, Nat.mod_eq_of_lt hi]
    exact ⟨Nat.add_zero a, rfl⟩
  have heq : (m - 2) * sb.secPerClus + i = (n - 2) * sb.secPerClus + j := by omega
  obtain ⟨hm1, hm2'⟩ := hmod (m - 2) i hi
  obtain ⟨hn1, hn2'⟩ := hmod (n - 2) j hj
  rw [heq] at hm1 hm2'
  exact ⟨by omega, hm2'.symm.trans hn2'⟩

/-- **Different blocks** of a directory are different blocks of the volume. -/
theorem dirBlock_inj (hin : ∀ x ∈ l, InRange sb x) (hnodup : l.Nodup) {q r : ℕ} (hq : q < nrBlocks sb l)
    (hr : r < nrBlocks sb l) (h : dirBlock sb l q = dirBlock sb l r) : q = r := by
  obtain ⟨c, hc, hcq⟩ := dirBlock_cluster hq
  obtain ⟨d, hd, hdr⟩ := dirBlock_cluster hr
  rw [hcq, hdr] at h
  obtain ⟨hcd, hmod⟩ := clusBlock_inj (hin c (List.mem_of_getElem? hc)) (hin d (List.mem_of_getElem? hd))
    (Nat.mod_lt q sb.secPerClus_pos) (Nat.mod_lt r sb.secPerClus_pos) h
  rw [hcd] at hc
  have hlt : q / sb.secPerClus < l.length := (Nat.div_lt_iff_lt_mul sb.secPerClus_pos).2 hq
  have hdiv : q / sb.secPerClus = r / sb.secPerClus := (List.getElem?_inj hlt hnodup).1 (hc.trans hd.symm)
  rw [← Nat.div_add_mod q sb.secPerClus, ← Nat.div_add_mod r sb.secPerClus, hdiv, hmod]

/-- the block of a slot is one of the directory -/
theorem slot_block (hi : i < nrSlots sb l) : i / sb.dirPerBlock < nrBlocks sb l :=
  (Nat.div_lt_iff_lt_mul (dirPerBlock_pos sb)).2 hi

/-- **Different slots** have different places. -/
theorem slot_inj (hin : ∀ x ∈ l, InRange sb x) (hnodup : l.Nodup) {i j : ℕ} (hi : i < nrSlots sb l) (hj : j < nrSlots sb l)
    (hb : slotBlock sb l i = slotBlock sb l j) (hoff : slotOff sb i = slotOff sb j) : i = j := by
  have hdiv := dirBlock_inj hin hnodup (slot_block hi) (slot_block hj) hb
  have hmod : i % sb.dirPerBlock = j % sb.dirPerBlock := Nat.eq_of_mul_eq_mul_left (by decide) hoff
  rw [← Nat.div_add_mod i sb.dirPerBlock, ← Nat.div_add_mod j sb.dirPerBlock, hdiv, hmod]

/-! ## Finding a block -/

/-- the FAT entries of the clusters and the blocks of a directory can be read -/
structure Readable (env : Env) (sb : FatSb) (l : List ℤ) : Prop where
  entry : ∀ t, ∀ c ∈ l, env.bread t (fatEntBlocknr sb c).2 = true
  block : ∀ t, ∀ q < nrBlocks sb l, env.bread t (dirBlock sb l q) = true

/-- the link from a cluster of a chain to the next one -/
theorem fatLink_path {vol : Vol} {a c d : ℤ} {k : ℕ} (p : Path (table sb vol) a l) (hc : l[k]? = some c)
    (hd : l[k + 1]? = some d) : fatLink sb vol c = d ∧ IsLink d := by
  have hsucc : fatSucc sb vol c = some d := by
    have h := nth_succ (fatSucc sb vol) a k
    rwa [nth_path p, nth_path p, hc, hd, Option.bind_some, eq_comm] at h
  obtain ⟨hlink, heq⟩ := fatSucc_isLink hsucc
  exact ⟨heq, heq ▸ hlink⟩

/-- the walk of `fat_get_cluster` along a chain that can be read -/
theorem fatGetClusterLoop_path {a : ℤ} (hread : ∀ t, ∀ c ∈ l, env.bread t (fatEntBlocknr sb c).2 = true) (n : ℕ) :
    ∀ {fuel k : ℕ} {s : St} {c d : ℤ}, Path (table sb s.vol) a l → n < fuel → k + n ≤ clusterLimit sb + 1 →
    l[k]? = some c → l[k + n]? = some d → ∃ s', fatGetClusterLoop env sb ((k + n : ℕ) : ℤ) fuel s k c = ⟨0, k + n, d, s'⟩ ∧ Quiet s s' := by
  induction n with
  | zero =>
    intro fuel k s c d p hfuel _ hc hd
    obtain ⟨fuel, rfl⟩ := Nat.exists_eq_add_of_lt hfuel
    rw [Nat.zero_add, fatGetClusterLoop, if_pos (Int.ofNat_le.2 (Nat.add_zero k).le)]
    rw [Nat.add_zero, hc] at hd
    exact ⟨s, by rw [Nat.add_zero, Option.some.inj hd], Quiet.refl s⟩
  | succ n ih =>
    intro fuel k s c d p hfuel hlimit hc hd
    obtain ⟨fuel, rfl⟩ := Nat.exists_eq_add_of_lt (Nat.zero_lt_of_lt hfuel)
    have hlen : k + (n + 1) < l.length := (List.getElem?_eq_some_iff.1 hd).1
    obtain ⟨e, he⟩ : ∃ e, l[k + 1]? = some e := ⟨_, List.getElem?_eq_getElem (show k + 1 < l.length by omega)⟩
    obtain ⟨hlink, hfree, heof⟩ := fatLink_path p hc he
    rw [Nat.zero_add, fatGetClusterLoop, if_neg (by omega), if_neg (by omega)]
    obtain ⟨s1, hq, -, ⟨heq, -, -⟩ | ⟨-, hno, -⟩⟩ := fatentNextSb_spec env sb s c
    · rw [heq]
      simp only [hlink, if_neg hfree, if_neg heof]
      have p1 : Path (table sb s1.vol) a l := by rwa [hq.vol]
      obtain ⟨s2, heq2, hq2⟩ := ih p1 (show n < fuel by omega) (show k + 1 + n ≤ clusterLimit sb + 1 by omega) he
        (show l[k + 1 + n]? = some d by rw [← hd]; congr 1; omega)
      refine ⟨s2, ?_, hq.trans hq2⟩
      rw [show k + (n + 1) = k + 1 + n by omega]
      exact heq2
    · rw [hread _ c (List.mem_of_getElem? hc)] at hno
      cases hno

/-- **A block before the last one** is found where the chain says. -/
theorem fatBmap_path (hchain : DirChain sb s.vol dir.iStart l)
    (hread : ∀ t, ∀ c ∈ l, env.bread t (fatEntBlocknr sb c).2 = true) (hq : q < nrBlocks sb l) (hlast : q < dirBlocks sb dir)
    (hlimit : q / sb.secPerClus ≤ clusterLimit sb + 1) :
    ∃ n s', fatBmap env sb s dir q = ⟨0, dirBlock sb l q, n, s'⟩ ∧ Quiet s s' := by
  obtain ⟨c, hc, hblk⟩ := dirBlock_cluster hq
  obtain ⟨hlt, -⟩ := List.getElem?_eq_some_iff.1 hc
  rcases hchain with ⟨-, rfl⟩ | p
  · exact absurd hlt (Nat.not_lt_zero _)
  have hin : InRange sb c := path_inRange p c (List.mem_of_getElem? hc)
  have hstart : dir.iStart ≠ 0 := (path_inRange p _ p.head_mem).pos.ne'
  have hspan : 2 ^ (sb.clusterBits - sb.blocksizeBits) = sb.secPerClus := by
    unfold FatSb.clusterBits FatSb.secPerClus
    rw [Nat.add_sub_cancel_left]
  have hlim := clusterLimit_lt_eof sb
  have hidx : int32 ((q / sb.secPerClus : ℕ) : ℤ) = (q / sb.secPerClus : ℕ) := by
    unfold FAT_ENT_EOF at hlim
    generalize q / sb.secPerClus = k at hlimit ⊢
    exact int32_of_bounds (by omega) (by omega)
  have hfuel : q / sb.secPerClus < clusterLimit sb + 2 := Nat.lt_succ_of_le hlimit
  have hhead : l[0]? = some dir.iStart := by
    have h := nth_path p 0
    exact h.symm
  obtain ⟨s', hloop, hquiet⟩ := fatGetClusterLoop_path hread (q / sb.secPerClus) p hfuel
    (by rw [Nat.zero_add]; exact hlimit) hhead (show l[0 + q / sb.secPerClus]? = some c by rw [Nat.zero_add]; exact hc)
  rw [Nat.zero_add] at hloop
  unfold fatBmap fatBmapCluster
  have hbefore : ¬ q ≥ (dir.iSize + (sb.blocksize - 1)) / 2 ^ sb.blocksizeBits := not_le.2 hlast
  simp only [if_neg hbefore, hspan, hidx, if_neg hstart, hloop, lt_irrefl, if_false,
    if_neg (show ¬ (0 : ℤ) = FAT_ENT_EOF by decide), if_neg (not_lt.2 hin.pos.le), if_pos (show c ≠ 0 from hin.pos.ne'), hblk]
  exact ⟨_, _, rfl, hquiet⟩

/-- **A block of a directory** is found where the chain says. -/
theorem fatBmap_dir (hdir : DirOn sb s.vol dir l) (hread : ∀ t, ∀ c ∈ l, env.bread t (fatEntBlocknr sb c).2 = true)
    (hq : q < nrBlocks sb l) : ∃ n s', fatBmap env sb s dir q = ⟨0, dirBlock sb l q, n, s'⟩ ∧ Quiet s s' := by
  have hlt : q / sb.secPerClus < l.length := (Nat.div_lt_iff_lt_mul sb.secPerClus_pos).2 hq
  exact fatBmap_path hdir.chain hread hq (by rw [hdir.dirBlocks]; exact hq) (hlt.le.trans hdir.limit)

/-- there is no block behind the last one -/
theorem fatBmap_last (env : Env) (s : St) (h : dirBlocks sb dir ≤ q) : fatBmap env sb s dir q = ⟨0, 0, 0, s⟩ := by
  unfold Fat.dirBlocks at h
  unfold fatBmap
  exact if_pos h

theorem fatBmap_behind (env : Env) (s : St) (hdir : DirOn sb vol dir l) (hq : nrBlocks sb l ≤ q) :
    fatBmap env sb s dir q = ⟨0, 0, 0, s⟩ := fatBmap_last env s (by rw [hdir.dirBlocks]; exact hq)

/-! ## Going over the slots -/

/-- the cursor is before slot `i`; an entry at the cursor is the slot before -/
structure CursorAt (sb : FatSb) (l : List ℤ) (i : ℕ) (cur : DirCursor) : Prop where
  pos : cur.pos = DENT_SIZE * i
  entry : ∀ b off, cur.bh = some b → cur.de = some off →
    ∃ j, i = j + 1 ∧ j < nrSlots sb l ∧ b = slotBlock sb l j ∧ off = slotOff sb j

/-- the cursor behind slot `i` -/
def slotCursor (sb : FatSb) (l : List ℤ) (i : ℕ) : DirCursor :=
  ⟨DENT_SIZE * (i + 1), some (slotBlock sb l i), some (slotOff sb i)⟩

theorem cursorAt_start (sb : FatSb) (l : List ℤ) (i : ℕ) (de : Option ℕ) : CursorAt sb l i ⟨DENT_SIZE * i, none, de⟩ :=
  ⟨rfl, fun _ _ h => absurd h (by simp)⟩

theorem cursorAt_slot (hi : i < nrSlots sb l) : CursorAt sb l (i + 1) (slotCursor sb l i) :=
  ⟨rfl, fun _ _ hb hoff => ⟨i, rfl, hi, (Option.some.inj hb).symm, (Option.some.inj hoff).symm⟩⟩

theorem slotCursor_ent (sb : FatSb) (l : List ℤ) (i : ℕ) (s : St) : (slotCursor sb l i).ent s = slot sb l s.vol i := rfl

/-- the next slot, when it is in the same block -/
theorem next_slot {j : ℕ} (hfast : slotOff sb j / DENT_SIZE + 1 < sb.dirPerBlock) :
    (j + 1) % sb.dirPerBlock = j % sb.dirPerBlock + 1 ∧ (j + 1) / sb.dirPerBlock = j / sb.dirPerBlock := by
  have hmod : j % sb.dirPerBlock + 1 < sb.dirPerBlock := by
    unfold slotOff at hfast
    rwa [Nat.mul_div_cancel_left _ (by decide)] at hfast
  have hsplit : j + 1 = sb.dirPerBlock * (j / sb.dirPerBlock) + (j % sb.dirPerBlock + 1) := by
    rw [← Nat.add_assoc, Nat.div_add_mod]
  constructor
  · rw [hsplit, Nat.mul_add_mod, Nat.mod_eq_of_lt hmod]
  · rw [hsplit, Nat.mul_add_div (dirPerBlock_pos sb), Nat.div_eq_of_lt hmod, Nat.add_zero]

theorem next_slotCursor (l : List ℤ) {j : ℕ} (hfast : slotOff sb j / DENT_SIZE + 1 < sb.dirPerBlock) :
    (⟨DENT_SIZE * (j + 1) + DENT_SIZE, some (slotBlock sb l j), some (slotOff sb j + DENT_SIZE)⟩ : DirCursor) =
      slotCursor sb l (j + 1) := by
  obtain ⟨hmod, hdiv⟩ := next_slot hfast
  unfold slotCursor slotBlock slotOff
  rw [hmod, hdiv]
  rfl

/-- a cursor that skips the block of slot `i` is before the first slot of the next block -/
theorem cursorAt_skip (sb : FatSb) (l : List ℤ) (i : ℕ) (de : Option ℕ) :
    CursorAt sb l ((i / sb.dirPerBlock + 1) * sb.dirPerBlock) ⟨(i / sb.dirPerBlock + 1) * sb.blocksize, none, de⟩ := by
  refine ⟨?_, fun _ _ h => absurd h (by simp)⟩
  change (i / sb.dirPerBlock + 1) * sb.blocksize = _
  rw [blocksize_eq]
  ring

/-- where the next entry is read from its block -/
theorem fatGetEntrySlow_slot (hdir : DirOn sb s.vol dir l) (hread : Readable env sb l) {cur : DirCursor}
    (hcur : CursorAt sb l i cur) (hi : i < nrSlots sb l) (fuel : ℕ) :
    ∃ s', fatGetEntrySlow env sb dir (fuel + 1) s cur = (true, slotCursor sb l i, s') ∧ Looked s s' := by
  have hrel := cur.release_looked s
  rw [fatGetEntrySlow_succ]
  generalize cur.release s = s1 at hrel ⊢
  obtain ⟨hdiv, hmod⟩ := slot_pos sb i
  rw [hcur.pos, hdiv, hmod]
  have hdir1 : DirOn sb s1.vol dir l := by rwa [hrel.vol]
  obtain ⟨n, s2, hbmap, hquiet⟩ := fatBmap_dir hdir1 hread.entry (slot_block hi)
  have hphys : dirBlock sb l (i / sb.dirPerBlock) ≠ 0 := by
    have h := dataStart_le_dirBlock hdir.chain.inRange (slot_block hi)
    have := dataStart_pos sb
    omega
  rw [hbmap]
  simp only [ne_eq, not_true_eq_false, false_or, if_neg hphys]
  rw [sbBread_ok (hread.block _ _ (slot_block hi))]
  exact ⟨_, rfl, (hrel.trans hquiet.looked).trans rfl⟩

/-- **`fat_get_entry` hands out the next slot.** -/
theorem fatGetEntry_slot (hdir : DirOn sb s.vol dir l) (hread : Readable env sb l) {cur : DirCursor}
    (hcur : CursorAt sb l i cur) (hi : i < nrSlots sb l) :
    ∃ s', fatGetEntry env sb s dir cur = (true, slotCursor sb l i, s') ∧ Looked s s' := by
  have hslow := fatGetEntrySlow_slot hdir hread hcur hi (dirBlocks sb dir)
  rcases cur with ⟨pos, _ | b, de⟩
  · exact hslow
  rcases de with _ | off
  · exact hslow
  unfold fatGetEntry
  simp only
  by_cases hfast : off / DENT_SIZE + 1 < sb.dirPerBlock
  · obtain ⟨j, rfl, hj, rfl, rfl⟩ := hcur.entry _ _ rfl rfl
    rw [if_pos hfast]
    refine ⟨s, ?_, Looked.refl s⟩
    have hpos := hcur.pos
    simp only at hpos
    rw [hpos, next_slotCursor l hfast]
  · rw [if_neg hfast]
    exact hslow

/-- an entry at a cursor behind the last slot is the last one of its block -/
theorem CursorAt.last_of_end {pos b off : ℕ} (hcur : CursorAt sb l i ⟨pos, some b, some off⟩) (hi : nrSlots sb l ≤ i) :
    ¬ off / DENT_SIZE + 1 < sb.dirPerBlock := by
  intro hfast
  obtain ⟨j, rfl, hj, -, rfl⟩ := hcur.entry _ _ rfl rfl
  have hlast : j + 1 = nrSlots sb l := le_antisymm hj hi
  have hmod : (j + 1) % sb.dirPerBlock = 0 := by
    rw [hlast]
    exact Nat.mul_mod_left _ _
  unfold slotOff at hfast
  rw [Nat.mul_div_cancel_left _ (by decide)] at hfast
  rw [Nat.add_mod, Nat.mod_eq_of_lt (show 1 < sb.dirPerBlock by omega), Nat.mod_eq_of_lt hfast] at hmod
  omega

/-- **Behind the last slot** there is no entry. -/
theorem fatGetEntry_end (env : Env) (hdir : DirOn sb s.vol dir l) {cur : DirCursor} (hcur : CursorAt sb l i cur)
    (hi : nrSlots sb l ≤ i) : fatGetEntry env sb s dir cur = (false, { cur with bh := none }, cur.release s) := by
  have hq : nrBlocks sb l ≤ cur.pos / sb.blocksize := by
    rw [hcur.pos, (slot_pos sb i).1]
    exact (Nat.le_div_iff_mul_le (dirPerBlock_pos sb)).2 hi
  have hslow : fatGetEntrySlow env sb dir (dirBlocks sb dir + 1) s cur = (false, { cur with bh := none }, cur.release s) := by
    rw [fatGetEntrySlow_succ, fatBmap_behind env _ hdir hq]
    exact if_pos (Or.inr rfl)
  rcases cur with ⟨pos, _ | b, de⟩
  · exact hslow
  rcases de with _ | off
  · exact hslow
  unfold fatGetEntry
  simp only
  rw [if_neg (hcur.last_of_end hi)]
  exact hslow

end

end AtsLdd.Fat
