/-
The entries of a directory of the C driver: `fat__get_entry` and `fat_get_entry` (src/C/myfat/dir.c), which find the blocks of
the directory through the cluster cache of its inode.

- `fatGetEntry_slot`, `fatGetEntry_end`: the slots of the directory are handed out one after the other, and no assertion fails;
- `fatBmap_agrees`, `fatGetEntry_agrees`: the blocks that are looked up, and the entries, are those that the driver without a cache
  (`AtsLdd.Fat.Cluster`, `AtsLdd.Fat.Scan`) finds in the same directory.

The read-ahead of `fat__get_entry` only asks for blocks that are read later, and is left out.
-/
import AtsLdd.CDriver.GetBlock
import AtsLdd.Fat.DirSlots

namespace AtsLdd.Fat.CDriver

open AtsLdd.Machine AtsLdd.Chain AtsLdd.LinkTable

/-! ## Model -/

/-- what `fat_get_entry` leaves: whether there is an entry, its variables, and the inode of the directory -/
structure GetEntry where
  ok : Bool
  cur : DirCursor
  ino : CachedInode
  s : St

/-- `fat__get_entry`; the fuel is a bound on the blocks that cannot be read, and `none` is an assertion of `fat_bmap` -/
def fatGetEntrySlow (env : Env) (sb : FatSb) (mem : Bool) : ℕ → St → CachedInode → DirCursor → Option GetEntry
  | 0, s, ino, cur => some ⟨false, cur, ino, s⟩
  | fuel + 1, s, ino, cur =>
    let s := cur.release s
    let cur := { cur with bh := none }
    let iblock := cur.pos / sb.blocksize
    match fatBmap env sb mem s ino iblock false with
    | none => none
    | some r =>
      if r.ret ≠ 0 ∨ r.phys = 0 then some ⟨false, cur, r.ino, r.s⟩
      else
        match sbBread env r.s r.phys with
        | (false, s) => fatGetEntrySlow env sb mem fuel s r.ino { cur with pos := (iblock + 1) * sb.blocksize }
        | (true, s) => some ⟨true, ⟨cur.pos + DENT_SIZE, some r.phys, some (cur.pos % sb.blocksize)⟩, r.ino, s⟩

/-- `fat_get_entry` -/
def fatGetEntry (env : Env) (sb : FatSb) (mem : Bool) (s : St) (ino : CachedInode) (cur : DirCursor) : Option GetEntry :=
  let slow := fatGetEntrySlow env sb mem (blocksOf sb ino.iSize + 1) s ino cur
  match cur.bh, cur.de with
  | some _, some off =>
    if off / DENT_SIZE + 1 < sb.dirPerBlock then
      some ⟨true, { cur with pos := cur.pos + DENT_SIZE, de := some (off + DENT_SIZE) }, ino, s⟩
    else slow
  | _, _ => slow

/-! ## A directory with its cache -/

/-- the inode of a directory with the clusters `l`, which its size says, and a cache that is true of them -/
structure CachedDir (sb : FatSb) (vol : Vol) (l : List ℤ) (ino : CachedInode) : Prop where
  chain : FileChain sb vol l ino
  sizes : FileSizes sb l.length (l.length * sb.clusterSize) (l.length * sb.clusterSize) ino

/-- the directory was only read: its inode is as it was, and the cache is true of it -/
structure DirLooked (sb : FatSb) (l : List ℤ) (s : St) (ino ino' : CachedInode) (s' : St) : Prop where
  looked : Looked s s'
  dir : CachedDir sb s'.vol l ino'
  inode : ino'.toVfsInode = ino.toVfsInode

section
variable {env : Env} {sb : FatSb} {s s' s'' : St} {ino ino' ino'' : CachedInode} {dir : Inode} {vol vol' : Vol} {l : List ℤ} {i q : ℕ}
  {cur : DirCursor}

/-- the blocks of some clusters -/
theorem blocksIn_clusters (sb : FatSb) (l : List ℤ) : blocksIn sb (l.length * sb.clusterSize) = nrBlocks sb l := by
  have hpos := sb.blocksize_pos
  unfold blocksIn nrBlocks
  rw [FatSb.clusterSize, Nat.mul_comm sb.blocksize, ← Nat.mul_assoc, Nat.mul_comm _ sb.blocksize, Nat.mul_add_div hpos,
    Nat.div_eq_of_lt (Nat.sub_one_lt hpos.ne'), Nat.add_zero]

/-- the blocks of a directory are those of a file -/
theorem dirBlock_eq_fileBlock (hin : ∀ x ∈ l, InRange sb x) (hq : q < nrBlocks sb l) : dirBlock sb l q = fileBlock sb l q := by
  obtain ⟨c, hc, hblk⟩ := dirBlock_cluster hq
  have hcin := hin c (List.mem_of_getElem? hc)
  rw [hblk]
  unfold fileBlock
  rw [List.getD_eq_getElem?_getD, hc, Option.getD_some, ncluster2block_eq sb hcin.pos (hcin.le_bad.trans_lt (by decide))]

theorem CachedDir.inRange (h : CachedDir sb vol l ino) : ∀ x ∈ l, InRange sb x := by
  rcases h.chain.chain with p | ⟨rfl, -⟩
  · exact path_inRange p
  · exact fun x hx => absurd hx List.not_mem_nil

/-- the directory was only read -/
theorem CachedDir.of_vfs (h : CachedDir sb vol l ino) (hchain : FileChain sb vol' l ino')
    (hvfs : ino'.toVfsInode = ino.toVfsInode) : CachedDir sb vol' l ino' := ⟨hchain, h.sizes.of_vfs hvfs⟩

theorem DirLooked.refl (h : CachedDir sb s.vol l ino) : DirLooked sb l s ino ino s := ⟨Looked.refl s, h, rfl⟩

theorem DirLooked.trans (h : DirLooked sb l s ino ino' s') (h' : DirLooked sb l s' ino' ino'' s'') : DirLooked sb l s ino ino'' s'' :=
  ⟨h.looked.trans h'.looked, h'.dir, h'.inode.trans h.inode⟩

/-- buffers are read or given back before -/
theorem DirLooked.after (hlook : Looked s s') (h : DirLooked sb l s' ino ino' s'') : DirLooked sb l s ino ino' s'' :=
  ⟨hlook.trans h.looked, h.dir, h.inode⟩

/-- buffers are read or given back behind -/
theorem DirLooked.then (h : DirLooked sb l s ino ino' s') (hlook : Looked s' s'') : DirLooked sb l s ino ino' s'' :=
  ⟨h.looked.trans hlook, by rw [hlook.vol]; exact h.dir, h.inode⟩

/-- the same directory without its cache -/
theorem CachedDir.dirOn (h : CachedDir sb vol l ino) (hstart : dir.iStart = ino.iStart) (hsize : (dir.iSize : ℤ) = ino.iSize) :
    DirOn sb vol dir l where
  chain := by
    rw [hstart]
    rcases h.chain.chain with p | ⟨hl, h0⟩
    · exact Or.inr p
    · exact Or.inl ⟨h0, hl⟩
  size := by
    have := h.sizes.size_eq
    omega
  limit := h.sizes.length_le

/-- the number of its entries, as the size says -/
theorem CachedDir.nrEntries (h : CachedDir sb vol l ino) : blocksOf sb ino.iSize * sb.dirPerBlock = nrSlots sb l := by
  rw [h.sizes.size_eq, blocksOf_eq h.sizes.max, blocksIn_clusters]
  rfl

/-- **Finding a block** of a directory through the cache. -/
theorem fatBmap_cached (h : CachedDir sb s.vol l ino) (hread : ¬ ReadFails env) (q : ℕ) :
    ∃ r, fatBmap env sb true s ino q false = some r ∧ r.ret = 0 ∧
      r.phys = (if q < nrBlocks sb l then dirBlock sb l q else 0) ∧ DirLooked sb l s ino r.ino r.s := by
  obtain ⟨r, hmap, hr⟩ := fatBmap_spec env h.chain h.sizes q false
  have hvisible : visible sb (l.length * sb.clusterSize) (l.length * sb.clusterSize) q false = nrBlocks sb l := by
    unfold visible
    rw [if_neg (by simp), blocksIn_clusters]
  rw [hvisible] at hr
  have hdir : DirLooked sb l s ino r.ino r.s := ⟨hr.looked, h.of_vfs hr.chain hr.inode, hr.inode⟩
  rcases hr.answer with ⟨hlt, hret, hphys, -, -⟩ | ⟨hge, hret, hphys⟩ | ⟨-, -, -, hfail⟩
  · refine ⟨r, hmap, hret, ?_, hdir⟩
    rw [if_pos hlt, hphys, dirBlock_eq_fileBlock h.inRange hlt]
  · refine ⟨r, hmap, hret, ?_, hdir⟩
    rw [if_neg (not_lt.2 hge), hphys]
  · exact absurd hfail hread

theorem readable_of_not_readFails (hread : ¬ ReadFails env) (sb : FatSb) (l : List ℤ) : Readable env sb l := by
  have hall : ∀ t b, env.bread t b = true := fun t b => eq_true_of_ne_false fun hf => hread ⟨t, b, hf⟩
  exact ⟨fun t _ _ => hall t _, fun t _ _ => hall t _⟩

/-- **With the cache and without it** the same block is looked up. -/
theorem fatBmap_agrees (h : CachedDir sb s.vol l ino) (hread : ¬ ReadFails env) (hstart : dir.iStart = ino.iStart)
    (hsize : (dir.iSize : ℤ) = ino.iSize) (q : ℕ) :
    ∃ r, fatBmap env sb true s ino q false = some r ∧ r.ret = (Fat.fatBmap env sb s dir q).ret ∧
      r.phys = (Fat.fatBmap env sb s dir q).phys := by
  obtain ⟨r, hmap, hret, hphys, -⟩ := fatBmap_cached h hread q
  have hdir := h.dirOn hstart hsize
  refine ⟨r, hmap, ?_⟩
  rw [hret, hphys]
  rcases Nat.lt_or_ge q (nrBlocks sb l) with hq | hq
  · obtain ⟨n, s', hbmap, -⟩ := fatBmap_dir hdir (readable_of_not_readFails hread sb l).entry hq
    rw [hbmap, if_pos hq]
    exact ⟨rfl, rfl⟩
  · rw [fatBmap_behind env s hdir hq, if_neg (not_lt.2 hq)]
    exact ⟨rfl, rfl⟩

/-! ## Going over the slots -/

/-- where the next entry is read from its block -/
theorem fatGetEntrySlow_slot (h : CachedDir sb s.vol l ino) (hread : ¬ ReadFails env) (hcur : CursorAt sb l i cur)
    (hi : i < nrSlots sb l) (fuel : ℕ) :
    ∃ ino' s', fatGetEntrySlow env sb true (fuel + 1) s ino cur = some ⟨true, slotCursor sb l i, ino', s'⟩ ∧
      DirLooked sb l s ino ino' s' := by
  have hrel := cur.release_looked s
  rw [fatGetEntrySlow]
  generalize cur.release s = s1 at hrel ⊢
  obtain ⟨hdiv, hmod⟩ := slot_pos sb i
  have h1 : CachedDir sb s1.vol l ino := by rwa [hrel.vol]
  obtain ⟨r, hmap, hret, hphys, hlook⟩ := fatBmap_cached h1 hread (i / sb.dirPerBlock)
  rw [if_pos (slot_block hi)] at hphys
  have hne : dirBlock sb l (i / sb.dirPerBlock) ≠ 0 := by
    have hstart := dataStart_le_dirBlock h.inRange (slot_block hi)
    have := dataStart_pos sb
    omega
  have hbread := sbBread_ok ((readable_of_not_readFails hread sb l).block r.s.t _ (slot_block hi))
  simp only [hcur.pos, hdiv, hmod, hmap, hret, hphys, ne_eq, not_true_eq_false, false_or, if_neg hne, hbread]
  exact ⟨_, _, rfl, (hlook.after hrel).then rfl⟩

/-- **`fat_get_entry` hands out the next slot.** -/
theorem fatGetEntry_slot (h : CachedDir sb s.vol l ino) (hread : ¬ ReadFails env) (hcur : CursorAt sb l i cur)
    (hi : i < nrSlots sb l) :
    ∃ ino' s', fatGetEntry env sb true s ino cur = some ⟨true, slotCursor sb l i, ino', s'⟩ ∧ DirLooked sb l s ino ino' s' := by
  have hslow := fatGetEntrySlow_slot h hread hcur hi (blocksOf sb ino.iSize)
  rcases cur with ⟨pos, _ | b, de⟩
  · exact hslow
  rcases de with _ | off
  · exact hslow
  unfold fatGetEntry
  simp only
  by_cases hfast : off / DENT_SIZE + 1 < sb.dirPerBlock
  · obtain ⟨j, rfl, hj, rfl, rfl⟩ := hcur.entry _ _ rfl rfl
    rw [if_pos hfast]
    refine ⟨ino, s, ?_, .refl h⟩
    have hpos := hcur.pos
    simp only at hpos
    rw [hpos, next_slotCursor l hfast]
  · rw [if_neg hfast]
    exact hslow

/-- **Behind the last slot** there is no entry. -/
theorem fatGetEntry_end (h : CachedDir sb s.vol l ino) (hread : ¬ ReadFails env) (hcur : CursorAt sb l i cur)
    (hi : nrSlots sb l ≤ i) :
    ∃ ino' s', fatGetEntry env sb true s ino cur = some ⟨false, { cur with bh := none }, ino', s'⟩ ∧
      DirLooked sb l s ino ino' s' := by
  have hslow : ∃ ino' s', fatGetEntrySlow env sb true (blocksOf sb ino.iSize + 1) s ino cur =
      some ⟨false, { cur with bh := none }, ino', s'⟩ ∧ DirLooked sb l s ino ino' s' := by
    have hrel := cur.release_looked s
    rw [fatGetEntrySlow]
    generalize cur.release s = s1 at hrel ⊢
    have h1 : CachedDir sb s1.vol l ino := by rwa [hrel.vol]
    have hq : nrBlocks sb l ≤ cur.pos / sb.blocksize := by
      rw [hcur.pos, (slot_pos sb i).1]
      exact (Nat.le_div_iff_mul_le (dirPerBlock_pos sb)).2 hi
    obtain ⟨r, hmap, hret, hphys, hlook⟩ := fatBmap_cached h1 hread (cur.pos / sb.blocksize)
    rw [if_neg (not_lt.2 hq)] at hphys
    simp only [hmap, hphys, or_true, if_true]
    exact ⟨_, _, rfl, hlook.after hrel⟩
  rcases cur with ⟨pos, _ | b, de⟩
  · exact hslow
  rcases de with _ | off
  · exact hslow
  unfold fatGetEntry
  simp only
  rw [if_neg (hcur.last_of_end hi)]
  exact hslow

/-- **With the cache and without it** the same entry is handed out. -/
theorem fatGetEntry_agrees (h : CachedDir sb s.vol l ino) (hread : ¬ ReadFails env) (hstart : dir.iStart = ino.iStart)
    (hsize : (dir.iSize : ℤ) = ino.iSize) (hcur : CursorAt sb l i cur) :
    ∃ r, fatGetEntry env sb true s ino cur = some r ∧ r.ok = (Fat.fatGetEntry env sb s dir cur).1 ∧
      r.cur = (Fat.fatGetEntry env sb s dir cur).2.1 := by
  have hdir := h.dirOn hstart hsize
  rcases Nat.lt_or_ge i (nrSlots sb l) with hi | hi
  · obtain ⟨ino', s', hget, -⟩ := fatGetEntry_slot h hread hcur hi
    obtain ⟨s'', hplain, -⟩ := Fat.fatGetEntry_slot hdir (readable_of_not_readFails hread sb l) hcur hi
    rw [hplain]
    exact ⟨_, hget, rfl, rfl⟩
  · obtain ⟨ino', s', hget, -⟩ := fatGetEntry_end h hread hcur hi
    rw [Fat.fatGetEntry_end env hdir hcur hi]
    exact ⟨_, hget, rfl, rfl⟩

end

end AtsLdd.Fat.CDriver
