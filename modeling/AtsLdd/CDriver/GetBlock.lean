/-
The blocks of a file of the C driver: `fat_bmap` (src/C/myfat/cache.c) maps a block of a file to a block of the volume,
`fat_add_cluster` (inode.c) and `fat_chain_add` (misc.c) hang a free cluster behind the last one of a file, and
`fat_get_block` (inode.c) does both, for the page cache.

- `FileChain`, `FileSizes`: the inode of a file with the chain `l`: its first cluster, its cache, its block count, its sizes;
- `FileChain.frame`: a change elsewhere in the FAT does not matter to a file;
- `fatBmap_spec`: a block below the size is mapped to its cluster, unless a block of the FAT cannot be read.
-/
import AtsLdd.CDriver.Truncate
import AtsLdd.Fat.Mapping

namespace AtsLdd.Fat.CDriver

open AtsLdd.Machine AtsLdd.Chain AtsLdd.LinkTable

/-! ## Model -/

/-- how the inode is to be written -/
structure SyncFlags where
  /-- `inode_needs_sync` -/
  needsSync : Bool
  /-- `S_ISDIR` and `IS_DIRSYNC` -/
  dirsync : Bool

/-- what the functions that grow a file leave -/
structure AddCluster where
  ret : ℤ
  ino : CachedInode
  s : St

/-- the last cluster of a file in `fat_chain_add`: 0 or a negative error, `new_fclus`, and the cluster, 0 without one -/
def endOfChain (env : Env) (sb : FatSb) (mem : Bool) (s : St) (ino : CachedInode) : Option (ℤ × ℤ × ℤ × CachedInode × St) :=
  if ino.iStart ≠ 0 then
    (fatGetCluster env sb mem s ino FAT_ENT_EOF).map fun g =>
      if g.ret < 0 then (g.ret, 0, 0, g.ino, g.s) else (0, g.fclus + 1, g.dclus, g.ino, g.s)
  else some (0, 0, 0, ino, s)

/-- the end of `fat_chain_add`: the cache is emptied when `i_blocks` does not fit the length of the chain -/
def countBlocks (sb : FatSb) (ino : CachedInode) (newFclus : ℤ) (nrCluster : ℕ) : CachedInode :=
  let ino := if newFclus ≠ (ino.iBlocks / 2 ^ (sb.clusterBits - 9) : ℕ) then fatCacheInvalInode ino else ino
  { ino with iBlocks := ino.iBlocks + nrCluster * 2 ^ (sb.clusterBits - 9) }

/-- a file that gets its first cluster -/
def CachedInode.startAt (ino : CachedInode) (newDclus : ℤ) : CachedInode := { ino with iStart := newDclus, iLogstart := newDclus }

/-- `fat_chain_add`; `none` is an assertion of `fat_get_cluster` -/
def fatChainAdd (env : Env) (sb : FatSb) (opts : InodeOptions) (mem : Bool) (fl : SyncFlags) (s : St) (ino : CachedInode)
    (newDclus : ℤ) (nrCluster : ℕ) : Option AddCluster :=
  match endOfChain env sb mem s ino with
  | none => none
  | some (ret, newFclus, last, ino, s) =>
    if ret < 0 then some ⟨ret, ino, s⟩
    else if last ≠ 0 then
      let (ret, fatent, s) := fatEntRead env sb s fatentInit last
      if ret < 0 then some ⟨ret, ino, s⟩
      else
        let (ret, s) := fatEntWrite env sb s fatent newDclus fl.needsSync
        let s := (fatent.brelse s).2
        if ret < 0 then some ⟨ret, ino, s⟩ else some ⟨0, countBlocks sb ino newFclus nrCluster, s⟩
    else
      let ino := ino.startAt newDclus
      let (ret, s) := if fl.dirsync then fatWriteInode env sb opts s ino.toVfsInode true else (0, s)
      if ret ≠ 0 then some ⟨ret, ino, s⟩ else some ⟨0, countBlocks sb ino newFclus nrCluster, s⟩

/-- `fat_add_cluster`; `none` is an assertion of what it calls -/
def fatAddCluster (env : Env) (sb : FatSb) (opts : InodeOptions) (mem : Bool) (fl : SyncFlags) (s : St) (ino : CachedInode) :
    Option AddCluster :=
  match fatAllocClusters env sb s fl.needsSync 1 with
  | none => none
  | some r =>
    if r.err ≠ 0 then some ⟨r.err, ino, r.s⟩
    else
      let cluster := r.cluster.headD 0
      (fatChainAdd env sb opts mem fl r.s ino cluster 1).map fun a =>
        if a.ret ≠ 0 then { a with s := (fatFreeClusters env sb a.s cluster).2 } else a

/-- `fat_bmap_cluster`: a cluster, 0, or a negative error -/
def fatBmapCluster (env : Env) (sb : FatSb) (mem : Bool) (s : St) (ino : CachedInode) (cluster : ℤ) :
    Option (ℤ × CachedInode × St) :=
  if ino.iStart = 0 then some (0, ino, s)
  else
    (fatGetCluster env sb mem s ino cluster).map fun g =>
      (if g.ret < 0 then g.ret else if g.ret = FAT_ENT_EOF then (- EIO : ℤ) else g.dclus, g.ino, g.s)

/-- the first block behind `n` bytes -/
def blocksOf (sb : FatSb) (n : ℤ) : ℕ := ulong (n + (sb.blocksize - 1)) / 2 ^ sb.blocksizeBits

/-- `last_block` of `fat_bmap`: behind the size of the file, blocks up to `mmu_private` are mapped when they are to be made -/
def lastBlock (sb : FatSb) (ino : CachedInode) (sector : ℕ) (create : Bool) : ℕ :=
  if blocksOf sb ino.iSize ≤ sector ∧ create = true then blocksOf sb ino.mmuPrivate else blocksOf sb ino.iSize

/-- what `fat_bmap` leaves -/
structure CBmap where
  ret : ℤ
  phys : ℕ
  mappedBlocks : ℕ
  ino : CachedInode
  s : St

/-- `fat_bmap`, on FAT32 -/
def fatBmap (env : Env) (sb : FatSb) (mem : Bool) (s : St) (ino : CachedInode) (sector : ℕ) (create : Bool) : Option CBmap :=
  let last := lastBlock sb ino sector create
  if last ≤ sector then some ⟨0, 0, 0, ino, s⟩
  else
    let cluster := int32 (sector / 2 ^ (sb.clusterBits - sb.blocksizeBits) : ℕ)
    let offset := sector % sb.secPerClus
    (fatBmapCluster env sb mem s ino cluster).map fun (cluster, ino, s) =>
      if cluster < 0 then ⟨cluster, 0, 0, ino, s⟩
      else if cluster ≠ 0 then
        ⟨0, sectorAdd (fatClusToBlknr sb cluster) offset, min (sb.secPerClus - offset) (last - sector), ino, s⟩
      else ⟨0, 0, 0, ino, s⟩

/-- what `__fat_get_block` leaves: 0 or a negative error, the block the buffer is mapped to and whether it is new, and
`max_blocks` -/
structure GetBlock where
  ret : ℤ
  mapped : Option (ℕ × Bool)
  maxBlocks : ℕ
  ino : CachedInode
  s : St

/-- the end of `__fat_get_block`: a block behind the others is made; `none` is a `BUG_ON` -/
def makeBlock (env : Env) (sb : FatSb) (mem : Bool) (s : St) (ino : CachedInode) (iblock maxBlocks : ℕ) : Option GetBlock :=
  let mappedBlocks := sb.secPerClus - iblock % sb.secPerClus
  let maxBlocks := min mappedBlocks maxBlocks
  let ino := { ino with mmuPrivate := ino.mmuPrivate + maxBlocks * 2 ^ sb.blocksizeBits }
  match fatBmap env sb mem s ino iblock true with
  | none => none
  | some b =>
    if b.ret ≠ 0 then some ⟨b.ret, none, maxBlocks, b.ino, b.s⟩
    else if b.phys = 0 ∨ maxBlocks ≠ b.mappedBlocks then none
    else some ⟨0, some (b.phys, true), maxBlocks, b.ino, b.s⟩

/-- `__fat_get_block`; `none` is a `BUG_ON` -/
def getBlock (env : Env) (sb : FatSb) (opts : InodeOptions) (mem : Bool) (fl : SyncFlags) (s : St) (ino : CachedInode)
    (iblock maxBlocks : ℕ) (create : Bool) : Option GetBlock :=
  match fatBmap env sb mem s ino iblock create with
  | none => none
  | some b =>
    if b.ret ≠ 0 then some ⟨b.ret, none, maxBlocks, b.ino, b.s⟩
    else if b.phys ≠ 0 then some ⟨0, some (b.phys, false), min b.mappedBlocks maxBlocks, b.ino, b.s⟩
    else if create = false then some ⟨0, none, maxBlocks, b.ino, b.s⟩
    else if iblock ≠ ulong (b.ino.mmuPrivate / 2 ^ sb.blocksizeBits) then some ⟨- EIO, none, maxBlocks, b.ino, b.s⟩
    else if iblock % sb.secPerClus = 0 then
      match fatAddCluster env sb opts mem fl b.s b.ino with
      | none => none
      | some a =>
        if a.ret ≠ 0 then some ⟨a.ret, none, maxBlocks, a.ino, a.s⟩ else makeBlock env sb mem a.s a.ino iblock maxBlocks
    else makeBlock env sb mem b.s b.ino iblock maxBlocks

/-- `fat_get_block`: 0 or a negative error, the block the buffer is mapped to, and its size -/
def fatGetBlock (env : Env) (sb : FatSb) (opts : InodeOptions) (mem : Bool) (fl : SyncFlags) (s : St) (ino : CachedInode)
    (iblock bSize : ℕ) (create : Bool) : Option GetBlock :=
  (getBlock env sb opts mem fl s ino iblock (bSize / 2 ^ sb.blocksizeBits) create).map fun r =>
    { r with maxBlocks := if r.ret ≠ 0 then bSize else r.maxBlocks * 2 ^ sb.blocksizeBits }

/-! ## The inode of a file -/

/-- the inode of a file with the chain `l` -/
structure FileChain (sb : FatSb) (vol : Vol) (l : List ℤ) (ino : CachedInode) : Prop where
  chain : Path (table sb vol) ino.iStart l ∨ l = [] ∧ ino.iStart = 0
  coherent : Coherent (table sb vol) (clusterLimit sb + 1) ino
  blocks : ino.iBlocks = l.length * 2 ^ (sb.clusterBits - 9)
  outside : ¬ InFat sb (iPosBlock sb ino.iPos)

/-- the sizes of a file with `n` clusters: `size` bytes, and `written` bytes for which it has clusters -/
structure FileSizes (sb : FatSb) (n size written : ℕ) (ino : CachedInode) : Prop where
  size_eq : ino.iSize = size
  written_eq : ino.mmuPrivate = written
  le : size ≤ written
  max : written ≤ S_MAXBYTES + 1
  covers : n = clustersOf sb written

/-- the number of blocks that `n` bytes take -/
def blocksIn (sb : FatSb) (n : ℕ) : ℕ := (n + (sb.blocksize - 1)) / sb.blocksize

/-- the blocks of a file that are mapped when block `b` is asked for -/
def visible (sb : FatSb) (size written b : ℕ) (create : Bool) : ℕ :=
  if blocksIn sb size ≤ b ∧ create = true then blocksIn sb written else blocksIn sb size

theorem lt_ceil_iff {n d b : ℕ} (hd : 0 < d) : b < (n + (d - 1)) / d ↔ b * d < n := by
  rw [← Nat.succ_le_iff, Nat.le_div_iff_mul_le hd, Nat.succ_mul]
  omega

section
variable {env : Env} {sb : FatSb} {s : St} {ino ino' : CachedInode} {vol vol' : Vol} {l : List ℤ} {size written b : ℕ}

theorem lt_blocksIn_iff {n : ℕ} : b < blocksIn sb n ↔ b * sb.blocksize < n := lt_ceil_iff sb.blocksize_pos

theorem lt_clustersOf_iff {n : ℕ} : b < clustersOf sb n ↔ b * sb.clusterSize < n := lt_ceil_iff sb.clusterSize_pos

/-- a block lies in its cluster -/
theorem cluster_of_block (sb : FatSb) (b : ℕ) : b / sb.secPerClus * sb.clusterSize ≤ b * sb.blocksize := by
  have h := Nat.mul_le_mul_right sb.blocksize (Nat.div_mul_le_self b sb.secPerClus)
  calc b / sb.secPerClus * sb.clusterSize = b / sb.secPerClus * sb.secPerClus * sb.blocksize := by
        unfold FatSb.clusterSize
        ring
    _ ≤ b * sb.blocksize := h

theorem blocksOf_eq {n : ℕ} (hn : n ≤ S_MAXBYTES + 1) : blocksOf sb n = blocksIn sb n := by
  have hmax := sb.blocksize_max
  have hpos := sb.blocksize_pos
  have hlt : n + (sb.blocksize - 1) < 2 ^ 64 := by
    unfold S_MAXBYTES at hn
    omega
  have hcast : (n : ℤ) + (sb.blocksize - 1) = ((n + (sb.blocksize - 1) : ℕ) : ℤ) := by
    rw [Nat.cast_add, Nat.cast_sub hpos, Nat.cast_one]
  unfold blocksOf blocksIn
  rw [hcast, ulong_natCast hlt]
  rfl

/-- the last block that `fat_bmap` maps -/
theorem lastBlock_eq {n : ℕ} (z : FileSizes sb n size written ino) (b : ℕ) (create : Bool) :
    lastBlock sb ino b create = visible sb size written b create := by
  unfold lastBlock visible
  rw [z.size_eq, z.written_eq, blocksOf_eq (z.le.trans z.max), blocksOf_eq z.max]

theorem lt_visible {create : Bool} (hle : size ≤ written) (h : b < visible sb size written b create) :
    b * sb.blocksize < if create then written else size := by
  unfold visible at h
  split_ifs at h with hcase
  · rw [if_pos hcase.2]
    exact lt_blocksIn_iff.1 h
  · have hlt := lt_blocksIn_iff.1 h
    split_ifs
    · exact hlt.trans_le hle
    · exact hlt

/-- a mapped block lies in a cluster of the file -/
theorem FileSizes.index_lt {n : ℕ} (z : FileSizes sb n size written ino) {create : Bool}
    (h : b < visible sb size written b create) : b / sb.secPerClus < n ∧ b * sb.blocksize ≤ S_MAXBYTES := by
  have hlt : b * sb.blocksize < written := by
    have hlt := lt_visible z.le h
    split_ifs at hlt
    · exact hlt
    · exact hlt.trans_le z.le
  rw [z.covers, lt_clustersOf_iff]
  have hmax := z.max
  exact ⟨(cluster_of_block sb b).trans_lt hlt, by omega⟩

/-- a chain that is no longer than a file can be -/
theorem FileSizes.length_le {n : ℕ} (z : FileSizes sb n size written ino) : n ≤ clusterLimit sb + 1 := by
  rw [z.covers]
  exact clustersOf_le sb z.max

theorem FileChain.of_vfs (h : FileChain sb vol l ino) (hcoh : Coherent (table sb vol) (clusterLimit sb + 1) ino')
    (hvfs : ino'.toVfsInode = ino.toVfsInode) : FileChain sb vol l ino' where
  chain := by rw [congrArg VfsInode.iStart hvfs]; exact h.chain
  coherent := hcoh
  blocks := (congrArg VfsInode.iBlocks hvfs).trans h.blocks
  outside := by rw [congrArg VfsInode.iPos hvfs]; exact h.outside

theorem FileSizes.of_vfs {n : ℕ} (z : FileSizes sb n size written ino) (hvfs : ino'.toVfsInode = ino.toVfsInode) :
    FileSizes sb n size written ino' :=
  ⟨(congrArg VfsInode.iSize hvfs).trans z.size_eq, (congrArg VfsInode.mmuPrivate hvfs).trans z.written_eq, z.le, z.max, z.covers⟩

/-- a file whose chain has a cluster -/
theorem FileChain.path (h : FileChain sb vol l ino) (hl : l ≠ []) : Path (table sb vol) ino.iStart l :=
  h.chain.resolve_right fun he => hl he.1

theorem table_zero (sb : FatSb) (vol : Vol) : table sb vol 0 = .free := if_neg fun h => absurd h.1 (by decide)

/-- **A change elsewhere** in the FAT does not matter to a file. -/
theorem FileChain.frame (h : FileChain sb vol l ino) (hT : ∀ x ∈ l, table sb vol' x = table sb vol x) :
    FileChain sb vol' l ino where
  chain := h.chain.imp (fun p => p.congr hT) id
  coherent := by
    apply h.coherent.congr
    intro i _ x y hx hxy
    rcases h.chain with p | ⟨-, h0⟩
    · rw [p.nth_eq] at hx
      rw [hT x (List.mem_of_getElem? hx)]
      exact hxy
    · -- nothing follows the cluster 0
      rw [h0] at hx
      cases i with
      | zero =>
        rw [nth_zero, Option.some.injEq] at hx
        rw [← hx, table_zero] at hxy
        cases hxy
      | succ i =>
        rw [nth_head, succ, table_zero, Option.bind_none] at hx
        cases hx
  blocks := h.blocks
  outside := h.outside

/-! ## Mapping -/

/-- the cluster of a file at an index -/
theorem fatBmapCluster_spec (env : Env) (h : FileChain sb s.vol l ino) (hlen : l.length ≤ clusterLimit sb + 1) {k : ℕ}
    (hk : k < l.length) :
    ∃ c ino' s', fatBmapCluster env sb true s ino k = some (c, ino', s') ∧ FileChain sb s'.vol l ino' ∧
      ino'.toVfsInode = ino.toVfsInode ∧ Looked s s' ∧ (c = l[k] ∨ c = - EIO ∧ ReadFails env) := by
  have p := h.path (List.ne_nil_of_length_pos (Nat.zero_lt_of_lt hk))
  have h0 : ino.iStart ≠ 0 := (path_inRange p _ p.head_mem).pos.ne'
  obtain ⟨g, hget, hg⟩ := fatGetCluster_spec env h.coherent h0 (n := k) (min_le_right _ _) le_rfl
  have hchain : FileChain sb g.s.vol l g.ino := by
    rw [hg.looked.vol]
    exact h.of_vfs hg.coherent hg.inode
  unfold fatBmapCluster
  rw [if_neg h0, hget]
  refine ⟨_, _, _, rfl, hchain, hg.inode, hg.looked, ?_⟩
  rcases hg.answer with hans | ⟨hret, hfail⟩
  · rw [Int.toNat_natCast, p.walk_reached hk (hk.le.trans hlen)] at hans
    obtain ⟨hret, -, hd⟩ : g.ret = 0 ∧ g.fclus = k ∧ g.dclus = l[k] := by
      simpa [walkAnswer] using hans
    left
    rw [if_neg (by rw [hret]; exact lt_irrefl 0), if_neg (by rw [hret]; decide), hd]
  · right
    rw [if_pos (by rw [hret]; decide)]
    exact ⟨hret, hfail⟩

/-- the blocks of a cluster of the volume -/
theorem fileBlock_eq {c : ℤ} (hc : InRange sb c) (hk : l[b / sb.secPerClus]? = some c) :
    fileBlock sb l b = sb.dataStart + (c - 2).toNat * sb.secPerClus + b % sb.secPerClus := by
  obtain ⟨k, rfl, hk2, hkmax⟩ := inRange_natCast hc
  unfold fileBlock
  rw [List.getD_eq_getElem?_getD, hk, Option.getD_some, ncluster2block_spec sb hk2 hkmax (Nat.mod_lt _ sb.secPerClus_pos),
    show ((k : ℤ) - 2).toNat = k - 2 by omega]

/-- what a call of `fat_bmap` is to leave of a file -/
structure Maps (env : Env) (sb : FatSb) (s : St) (l : List ℤ) (ino : CachedInode) (b last : ℕ) (r : CBmap) : Prop where
  answer : b < last ∧ r.ret = 0 ∧ r.phys = fileBlock sb l b ∧ r.phys ≠ 0 ∧
      r.mappedBlocks = min (sb.secPerClus - b % sb.secPerClus) (last - b) ∨
    last ≤ b ∧ r.ret = 0 ∧ r.phys = 0 ∨ b < last ∧ r.ret = - EIO ∧ r.phys = 0 ∧ ReadFails env
  chain : FileChain sb r.s.vol l r.ino
  inode : r.ino.toVfsInode = ino.toVfsInode
  looked : Looked s r.s

/-- **Mapping a block** of a file: to its cluster when it lies below the size, unless a block of the FAT cannot be read. -/
theorem fatBmap_spec (env : Env) (h : FileChain sb s.vol l ino) (z : FileSizes sb l.length size written ino) (b : ℕ)
    (create : Bool) :
    ∃ r, fatBmap env sb true s ino b create = some r ∧ Maps env sb s l ino b (visible sb size written b create) r := by
  unfold fatBmap
  simp only [lastBlock_eq z]
  by_cases hlast : visible sb size written b create ≤ b
  · rw [if_pos hlast]
    exact ⟨_, rfl, Or.inr (Or.inl ⟨hlast, rfl, rfl⟩), h, rfl, Looked.refl s⟩
  have hlt := not_le.1 hlast
  obtain ⟨hk, hmax⟩ := z.index_lt hlt
  rw [if_neg hlast]
  have hcluster : int32 ((b / 2 ^ (sb.clusterBits - sb.blocksizeBits) : ℕ) : ℤ) = (b / sb.secPerClus : ℕ) := by
    have hb : sb.clusterBits - sb.blocksizeBits = sb.secPerClusBits := Nat.add_sub_cancel_left _ _
    have hle : b / sb.secPerClus ≤ b := Nat.div_le_self _ _
    have hsmall : b * 2 ^ 9 ≤ S_MAXBYTES := (Nat.mul_le_mul_left b sb.blocksize_min).trans hmax
    unfold S_MAXBYTES at hsmall
    rw [hb]
    change int32 ((b / sb.secPerClus : ℕ) : ℤ) = _
    generalize b / sb.secPerClus = q at hle ⊢
    exact int32_of_bounds (by omega) (by omega)
  rw [hcluster]
  obtain ⟨c, ino', s', hget, hchain, hvfs, hlook, hc⟩ := fatBmapCluster_spec env h z.length_le hk
  rw [hget]
  refine ⟨_, rfl, ?_⟩
  rcases hc with rfl | ⟨rfl, hfail⟩
  · have p := h.path (List.ne_nil_of_length_pos (Nat.zero_lt_of_lt hk))
    have hin := path_inRange p _ (List.getElem_mem hk)
    have hat := List.getElem?_eq_getElem hk
    have hblock : sectorAdd (fatClusToBlknr sb (l[b / sb.secPerClus])) (b % sb.secPerClus) = fileBlock sb l b := by
      unfold fileBlock
      rw [List.getD_eq_getElem?_getD, hat, Option.getD_some,
        ncluster2block_eq sb hin.pos (hin.le_bad.trans_lt (by decide))]
    have hpos : fileBlock sb l b ≠ 0 := by
      have hstart := sb.fatStart_pos
      have hfats := sb.fats_le
      rw [fileBlock_eq hin hat]
      omega
    simp only [if_neg (not_lt.2 hin.pos.le), if_pos hin.pos.ne', hblock]
    exact ⟨Or.inl ⟨hlt, rfl, rfl, hpos, rfl⟩, hchain, hvfs, hlook⟩
  · simp only [if_pos (show (- EIO : ℤ) < 0 by decide)]
    exact ⟨Or.inr (Or.inr ⟨hlt, rfl, rfl, hfail⟩), hchain, hvfs, hlook⟩

end

end AtsLdd.Fat.CDriver
