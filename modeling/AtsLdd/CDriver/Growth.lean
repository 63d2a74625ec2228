/-
How a file of the C driver grows: the steps of `fat_get_block` that make a block (src/C/myfat/misc.c and inode.c).

- `fatChainAdd_first`, `fatChainAdd_next`: a cluster becomes the first one of a file, or is hung behind its last one
  (`fatChainAdd_hung`: so are more of them);
- `fatAddCluster_spec`: a file grows by one free cluster, or no cluster is free;
- `makeBlock_spec`: a block behind the others is made, and its assertions hold.
-/
import AtsLdd.CDriver.GetBlock
import AtsLdd.Core.LinkStore
import AtsLdd.Fat.Chains
import AtsLdd.Fat.DataBlocks

namespace AtsLdd.Fat.CDriver

open AtsLdd.Machine AtsLdd.Chain AtsLdd.LinkTable

section
variable {env : Env} {sb : FatSb} {s : St} {ino ino' : CachedInode} {l : List ℤ} {size written b : ℕ}

/-! ## Hanging a cluster behind the last one -/

/-- the last cluster of a file that is not too long -/
theorem endOfChain_spec (henv : env.NoFault) (h : FileChain sb s.vol l ino) (p : Path (table sb s.vol) ino.iStart l)
    (hlen : l.length ≤ clusterLimit sb + 1) :
    ∃ ino' s', endOfChain env sb true s ino = some (0, (l.length : ℤ), l.getLast p.ne_nil, ino', s') ∧ FileChain sb s'.vol l ino' ∧
      ino'.toVfsInode = ino.toVfsInode ∧ Looked s s' := by
  have h0 : ino.iStart ≠ 0 := (path_inRange p _ p.head_mem).pos.ne'
  have hpos := List.length_pos_of_ne_nil p.ne_nil
  obtain ⟨g, hget, hg⟩ := fatGetCluster_spec env h.coherent h0 (n := FAT_ENT_EOF) (min_le_right _ _) le_rfl
  have hans := hg.answer.resolve_right fun hbad => by
    obtain ⟨-, t, b, hfail⟩ := hbad
    exact absurd (henv.bread t b) (ne_true_of_eq_false hfail)
  have hfar : l.length ≤ FAT_ENT_EOF.toNat := by
    have hlim := clusterLimit_lt_eof sb
    omega
  rw [p.walk_last hfar hlen] at hans
  obtain ⟨hret, hfclus, hdclus⟩ : g.ret = FAT_ENT_EOF ∧ g.fclus = (l.length - 1 : ℕ) ∧ g.dclus = l.getLast p.ne_nil := by
    simpa [walkAnswer] using hans
  have hchain : FileChain sb g.s.vol l g.ino := by
    rw [hg.looked.vol]
    exact h.of_vfs hg.coherent hg.inode
  unfold endOfChain
  rw [if_pos h0, hget]
  simp only [Option.map_some, hret, if_neg (show ¬ FAT_ENT_EOF < 0 by decide)]
  refine ⟨g.ino, g.s, ?_, hchain, hg.inode, hg.looked⟩
  rw [hfclus, hdclus, show ((l.length - 1 : ℕ) : ℤ) + 1 = l.length by omega]

/-- `i_blocks` fits the length of the chain, so that the cache stays -/
theorem countBlocks_eq {ino : CachedInode} {n : ℕ} {newFclus : ℤ} (h : ino.iBlocks = n * 2 ^ (sb.clusterBits - 9))
    (hn : newFclus = n) (nr : ℕ) :
    countBlocks sb ino newFclus nr = { ino with iBlocks := (n + nr) * 2 ^ (sb.clusterBits - 9) } := by
  unfold countBlocks
  rw [hn, h, Nat.mul_div_cancel _ (Nat.two_pow_pos _), if_neg (not_not.2 rfl)]
  simp only [h, Nat.add_mul]

/-- what growing a file by the cluster `c` leaves -/
structure GrowsBy (sb : FatSb) (s : St) (l : List ℤ) (ino : CachedInode) (c : ℤ) (T : ℤ → Link ℤ) (r : AddCluster) : Prop where
  ret : r.ret = 0
  table : table sb r.s.vol = T
  chain : Path T r.ino.iStart (l ++ [c]) → FileChain sb r.s.vol (l ++ [c]) r.ino
  start : r.ino.iStart = if l = [] then c else ino.iStart
  sizes : r.ino.iSize = ino.iSize ∧ r.ino.mmuPrivate = ino.mmuPrivate
  exact : Exact sb s → Exact sb r.s
  prevFree : r.s.prevFree = s.prevFree

/-- a file without a cluster gets its first one -/
theorem fatChainAdd_first (henv : env.NoFault) (opts : InodeOptions) (fl : SyncFlags) (h : FileChain sb s.vol [] ino) (c : ℤ) :
    ∃ r, fatChainAdd env sb opts true fl s ino c 1 = some r ∧ GrowsBy sb s [] ino c (table sb s.vol) r := by
  have h0 : ino.iStart = 0 := by
    rcases h.chain with p | ⟨-, h0⟩
    · exact absurd rfl p.ne_nil
    · exact h0
  -- nothing is remembered of a file without a cluster
  have hlru : ino.cacheLru = [] := by
    apply List.eq_nil_iff_forall_not_mem.2
    intro q hq
    obtain ⟨k, n, -, -, hk, -, hst⟩ := h.coherent.right q hq
    have hat := hst 0 (Nat.zero_le _)
    obtain ⟨j, rfl⟩ := Nat.exists_eq_succ_of_ne_zero (Nat.one_le_iff_ne_zero.1 hk)
    rw [h0, Nat.add_zero, nth_head, succ, table_zero, Option.bind_none] at hat
    cases hat
  unfold fatChainAdd endOfChain
  rw [if_neg (not_not.2 h0)]
  simp only [lt_irrefl, if_false, ne_eq, not_true_eq_false]
  generalize hino : ino.startAt c = ino1
  have hout : ¬ InFat sb (iPosBlock sb ino1.iPos) := by
    rw [← hino]
    exact h.outside
  obtain ⟨s1, hwrite, hsame⟩ : ∃ s1, (if fl.dirsync = true then fatWriteInode env sb opts s ino1.toVfsInode true else (0, s)) = (0, s1) ∧
      SameFat sb s s1 := by
    split_ifs
    · exact fatWriteInode_sameFat henv opts s hout true
    · exact ⟨s, rfl, SameFat.refl sb s⟩
  obtain ⟨hstart, hlru1, hnr, hblocks, hsizes⟩ : ino1.iStart = c ∧ ino1.cacheLru = [] ∧ ino1.nrCaches = ino.nrCaches ∧
      ino1.iBlocks = 0 * 2 ^ (sb.clusterBits - 9) ∧ ino1.iSize = ino.iSize ∧ ino1.mmuPrivate = ino.mmuPrivate := by
    rw [← hino]
    exact ⟨rfl, hlru, rfl, h.blocks, rfl, rfl⟩
  have hcount : countBlocks sb ino1 0 1 = { ino1 with iBlocks := (0 + 1) * 2 ^ (sb.clusterBits - 9) } :=
    countBlocks_eq hblocks Nat.cast_zero.symm 1
  rw [hwrite]
  simp only [not_true_eq_false, if_false, hcount]
  have hT : table sb s1.vol = table sb s.vol := EqFat.table hsame.vol
  refine ⟨_, rfl, ⟨rfl, hT, fun p => ?_, ?_, hsizes, fun he => hsame.exact he, hsame.prevFree⟩⟩
  · rw [← hT] at p
    refine ⟨Or.inl p, h.coherent.invalidated _ _ hlru1 ?_, rfl, hout⟩
    show ino1.nrCaches = ino.nrCaches - ino.cacheLru.length
    rw [hnr, hlru, List.length_nil, Nat.sub_zero]
  · rw [if_pos rfl]
    exact hstart

/-- what hanging `nr` clusters from `new` on behind the `n` clusters of a file leaves, the last of which was `last` -/
structure Hung (sb : FatSb) (s : St) (n : ℕ) (last : ℤ) (ino : CachedInode) (new : ℤ) (nr : ℕ) (r : AddCluster) : Prop where
  ret : r.ret = 0
  inode : r.ino.toVfsInode = { ino.toVfsInode with iBlocks := (n + nr) * 2 ^ (sb.clusterBits - 9) }
  coherent : Coherent (table sb r.s.vol) (clusterLimit sb + 1) r.ino
  fat : SameFat sb { s with vol := fatPut sb s.vol last new } r.s
  data : SameData sb s r.s

/-- **Clusters are hung behind the last one**, and the cache stays true. -/
theorem fatChainAdd_hung (henv : env.NoFault) (opts : InodeOptions) (fl : SyncFlags) (h : FileChain sb s.vol l ino)
    (p : Path (table sb s.vol) ino.iStart l) (hlen : l.length ≤ clusterLimit sb + 1) {new : ℤ} (hnew : InRange sb new) (nr : ℕ) :
    ∃ r, fatChainAdd env sb opts true fl s ino new nr = some r ∧ Hung sb s l.length (l.getLast p.ne_nil) ino new nr r := by
  have hin := path_inRange p _ (List.getLast_mem p.ne_nil)
  obtain ⟨ino1, s1, hend, hchain1, hvfs1, hlook1⟩ := endOfChain_spec henv h p hlen
  have hvol2 := fatEntRead_vol env sb s1 fatentInit (l.getLast p.ne_nil)
  obtain ⟨e, s2, hread, hat, hsame2⟩ := fatEntRead_ok henv s1 fatentInit hin
  have hdata := fatEntWrite_sameData env hat hin s2 new fl.needsSync
  obtain ⟨s3, hwrite, hsame3⟩ := fatEntWrite_ok henv s2 hin hat new fl.needsSync
  rw [hread] at hvol2
  rw [hwrite] at hdata
  have hneg : ¬ fatLink sb s1.vol (l.getLast p.ne_nil) < 0 := not_lt.2 (fat32EntGet_bounds _ _).1
  have hfat : SameFat sb { s with vol := fatPut sb s.vol (l.getLast p.ne_nil) new } (e.brelse s3).2 := by
    have hs2 := (hlook1.sameFat sb).trans hsame2
    have hput : SameFat sb { s with vol := fatPut sb s.vol (l.getLast p.ne_nil) new }
        { s2 with vol := fatPut sb s2.vol (l.getLast p.ne_nil) new } :=
      ⟨EqFat.fatPut hs2.vol hin new, hs2.freeClusters, hs2.freeClusValid, hs2.prevFree, hs2.discards⟩
    exact (hput.trans hsame3).trans (FatEntry.brelse_spec sb e s3).2
  have hblocks : ino1.iBlocks = l.length * 2 ^ (sb.clusterBits - 9) := hchain1.blocks
  unfold fatChainAdd
  rw [hend]
  simp only [lt_irrefl, if_false, ne_eq, hin.pos.ne', not_false_iff, if_true, hread, if_neg hneg, hwrite, countBlocks_eq hblocks rfl]
  refine ⟨_, rfl, ⟨rfl, ?_, ?_, hfat, ?_⟩⟩
  · rw [← hvfs1]
  · -- the links that the cache knows of are still there
    have hcoh : Coherent (table sb (e.brelse s3).2.vol) (clusterLimit sb + 1) ino1 := by
      apply hchain1.coherent.congr
      intro i _ x y _ hxy
      rw [hlook1.vol] at hxy
      rw [EqFat.table hfat.vol, table_fatPut hin hnew.storable, Function.update_of_ne]
      · exact hxy
      · rintro rfl
        rw [p.getLast] at hxy
        cases hxy
    exact hcoh.of_eq rfl rfl rfl
  · exact ((SameData.of_vol (hvol2.trans hlook1.vol)).trans hdata).trans (SameData.of_vol (e.brelse_vol s3))

/-- **A file grows** behind its last cluster. -/
theorem fatChainAdd_next (henv : env.NoFault) (opts : InodeOptions) (fl : SyncFlags) (h : FileChain sb s.vol l ino)
    (p : Path (table sb s.vol) ino.iStart l) (hlen : l.length ≤ clusterLimit sb + 1) {c : ℤ} (hc : InRange sb c)
    (hbad : c ≠ BAD_FAT32) :
    ∃ r, fatChainAdd env sb opts true fl s ino c 1 = some r ∧
      GrowsBy sb s l ino c (Function.update (table sb s.vol) (l.getLast p.ne_nil) (.next c)) r := by
  have hin := path_inRange p _ (List.getLast_mem p.ne_nil)
  obtain ⟨r, hadd, hr⟩ := fatChainAdd_hung henv opts fl h p hlen hc 1
  have hused : fatLink sb s.vol (l.getLast p.ne_nil) ≠ FAT_ENT_FREE := by
    intro hfree
    have hlast := p.getLast
    rw [(table_eq_free hin).2 hfree] at hlast
    cases hlast
  have hT : table sb r.s.vol = Function.update (table sb s.vol) (l.getLast p.ne_nil) (.next c) := by
    rw [EqFat.table hr.fat.vol, table_fatPut hin hc.storable, toLink_readBack hc hbad]
  refine ⟨r, hadd, ⟨hr.ret, hT, fun q => ?_, ?_, ?_, fun he => ?_, hr.fat.prevFree⟩⟩
  · rw [← hT] at q
    refine ⟨Or.inl q, hr.coherent, ?_, ?_⟩
    · rw [congrArg VfsInode.iBlocks hr.inode, List.length_append, List.length_singleton]
    · rw [congrArg VfsInode.iPos hr.inode]
      exact h.outside
  · rw [if_neg p.ne_nil, congrArg VfsInode.iStart hr.inode]
  · exact ⟨by rw [congrArg VfsInode.iSize hr.inode], by rw [congrArg VfsInode.mmuPrivate hr.inode]⟩
  · have hcount := freeCount_fatPut s.vol hin hc.storable
    rw [if_neg (fun hval => hused (fatLink_eq_free.2 hval)), if_neg (by have := hc.pos; unfold FAT_ENT_FREE; omega)] at hcount
    exact hr.fat.exact (he.trans hcount.symm)

/-! ## One more cluster -/

/-- **One cluster allocated**: a free one becomes a chain of its own; or the counter is right and none is free. -/
theorem allocOne_spec (henv : env.NoFault) (hexact : Exact sb s) (hpf : PrevFreeOk sb s) (sync : Bool) :
    ∃ r, fatAllocClusters env sb s sync 1 = some r ∧ Exact sb r.s ∧ PrevFreeOk sb r.s ∧
      ((∃ c, r.err = 0 ∧ r.cluster = [c] ∧ InRange sb c ∧ table sb s.vol c = .free ∧
          table sb r.s.vol = Function.update (table sb s.vol) c .last) ∨
        r.err = - ENOSPC ∧ (∀ x, InRange sb x → table sb s.vol x ≠ .free) ∧ table sb r.s.vol = table sb s.vol) := by
  have h4 : 1 ≤ MAX_BUF_PER_PAGE / 2 := by decide
  suffices hcase : ∃ r, fatAllocClusters env sb s sync 1 = some r ∧
      ((∃ c, r.err = 0 ∧ r.cluster = [c] ∧ InRange sb c ∧ table sb s.vol c = .free ∧
          table sb r.s.vol = Function.update (table sb s.vol) c .last) ∨
        r.err = - ENOSPC ∧ (∀ x, InRange sb x → table sb s.vol x ≠ .free) ∧ table sb r.s.vol = table sb s.vol) by
    obtain ⟨r, hres, hcase⟩ := hcase
    obtain ⟨hex, hp⟩ := fatAllocClusters_exact (henv.fatWrites sb) hpf hres (Or.inl hexact)
    exact ⟨r, hres, hex, hp, hcase⟩
  by_cases href : Refused s 1
  · refine ⟨_, fatAllocClusters_refused env sb href h4 sync, Or.inr ⟨rfl, fun x hx hfree => ?_, rfl⟩⟩
    have hzero : freeCount sb s.vol = 0 := by
      have hlt := href.2.2
      rw [hexact] at hlt
      exact Nat.lt_one_iff.1 hlt
    unfold freeCount at hzero
    rw [Finset.card_eq_zero, Finset.filter_eq_empty_iff] at hzero
    exact hzero (Finset.mem_Ico.2 hx) (fatLink_eq_free.1 ((table_eq_free hx).1 hfree))
  rcases Nat.lt_or_ge (freeEntries sb s.vol s.prevFree).length 1 with hlt | hle
  · have hnil := List.length_eq_zero_iff.1 (Nat.lt_one_iff.1 hlt)
    obtain ⟨cs, s', hres, hsame, -⟩ := fatAllocClusters_enospc henv hpf Nat.one_pos h4 href hlt
      (by rw [hnil]; exact List.not_mem_nil) sync
    have hvals : SameVals sb s.vol s'.vol := fun x hx => (hsame x hx).1
    refine ⟨_, hres, Or.inr ⟨rfl, fun x hx hfree => ?_, hvals.table⟩⟩
    have hmem : x ∈ freeEntries sb s.vol s.prevFree := (mem_freeEntries hx).2 (fatLink_eq_free.1 ((table_eq_free hx).1 hfree))
    rw [hnil] at hmem
    exact absurd hmem List.not_mem_nil
  · obtain ⟨s', hres, hch, -⟩ := fatAllocClusters_ok henv hpf Nat.one_pos h4 href hle sync
    obtain ⟨c, hc⟩ : ∃ c, (freeEntries sb s.vol s.prevFree).take 1 = [c] := by
      apply List.length_eq_one_iff.1
      rw [List.length_take, min_eq_left hle]
    rw [hc] at hres hch
    have hmem := List.mem_singleton.2 (rfl : c = c)
    refine ⟨_, hres, Or.inl ⟨c, rfl, rfl, hch.inRange c hmem, hch.table_free c hmem, ?_⟩⟩
    have p := hch.path (List.cons_ne_nil c []) List.not_mem_nil
    funext x
    by_cases hx : x = c
    · rw [hx, Function.update_self]
      exact p.getLast
    · rw [Function.update_of_ne hx]
      exact hch.table_frame x fun hxc => hx (List.mem_singleton.1 hxc)

/-- **Growing file `k` of a store** by a free cluster; it fails only when none is free. -/
theorem fatAddCluster_spec {κ : Type*} [DecidableEq κ] {A : Store κ ℤ} {k : κ} (henv : env.NoFault)
    (hsmall : (sb.maxCluster : ℤ) ≤ BAD_FAT32) (opts : InodeOptions) (fl : SyncFlags)
    (hA : StoredRows (table sb s.vol) (InRange sb) A) (h : FileChain sb s.vol (A.rows k) ino)
    (hlen : (A.rows k).length ≤ clusterLimit sb + 1) (hexact : Exact sb s) (hpf : PrevFreeOk sb s) :
    ∃ r, fatAddCluster env sb opts true fl s ino = some r ∧ Exact sb r.s ∧ PrevFreeOk sb r.s ∧
      ((∃ c ∈ A.free, r.ret = 0 ∧ StoredRows (table sb r.s.vol) (InRange sb) (A.grow k c) ∧
          FileChain sb r.s.vol (A.rows k ++ [c]) r.ino ∧ r.ino.iSize = ino.iSize ∧ r.ino.mmuPrivate = ino.mmuPrivate) ∨
        r.ret = - ENOSPC ∧ A.free = ∅ ∧ table sb r.s.vol = table sb s.vol ∧ r.ino = ino) := by
  obtain ⟨a, halloc, hex, hpf', ⟨c, herr, hcluster, hin, hfree, hT⟩ | ⟨herr, hnone, hT⟩⟩ := allocOne_spec henv hexact hpf fl.needsSync
  · have hc : c ∈ A.free := hA.free_iff.2 ⟨hin, hfree⟩
    have hbad : c ≠ BAD_FAT32 := fun he => absurd hin.2 (not_lt.2 (he ▸ hsmall))
    -- the file does not see that the cluster was taken
    have hfile : FileChain sb a.s.vol (A.rows k) ino := by
      apply h.frame
      intro x hx
      rw [hT, Function.update_of_ne]
      rintro rfl
      exact hA.not_mem hc k hx
    unfold fatAddCluster
    rw [halloc]
    simp only [herr, ne_eq, not_true_eq_false, if_false, hcluster, List.headD_cons]
    obtain ⟨r, hadd, hg, hpath, hholds⟩ : ∃ r, fatChainAdd env sb opts true fl a.s ino c 1 = some r ∧
        (∃ T, GrowsBy sb a.s (A.rows k) ino c T r) ∧ Path (table sb r.s.vol) r.ino.iStart (A.rows k ++ [c]) ∧
          StoredRows (table sb r.s.vol) (InRange sb) (A.grow k c) := by
      by_cases hnil : A.rows k = []
      · rw [hnil] at hfile
        obtain ⟨r, hadd, hg⟩ := fatChainAdd_first henv opts fl hfile c
        refine ⟨r, hadd, ⟨_, by rw [hnil]; exact hg⟩, ?_, ?_⟩
        · rw [hg.start, if_pos rfl, hg.table, hT, hnil]
          exact .last (Function.update_self _ _ _)
        · rw [hg.table, hT]
          exact hA.first hnil hc
      · have p := hfile.path hnil
        obtain ⟨r, hadd, hg⟩ := fatChainAdd_next henv opts fl hfile p hlen hin hbad
        obtain ⟨hp, hh⟩ := hA.grow (h.path hnil) hc
        have hTr := hg.table.trans (congrArg (fun T => Function.update T ((A.rows k).getLast hnil) (.next c)) hT)
        refine ⟨r, hadd, ⟨_, hg⟩, ?_, ?_⟩
        · rw [hg.start, if_neg hnil, hTr]
          exact hp
        · rw [hTr]
          exact hh
    obtain ⟨T, hg⟩ := hg
    rw [hadd]
    simp only [Option.map_some, hg.ret, not_true_eq_false, if_false]
    refine ⟨r, rfl, hg.exact hex, ?_, Or.inl ⟨c, hc, hg.ret, hholds, hg.chain ?_, hg.sizes.1, hg.sizes.2⟩⟩
    · unfold PrevFreeOk
      rw [hg.prevFree]
      exact hpf'
    · rw [← hg.table]
      exact hpath
  · have hneg : (- ENOSPC : ℤ) ≠ 0 := by decide
    unfold fatAddCluster
    rw [halloc]
    simp only [herr, ne_eq, hneg, not_false_iff, if_true]
    refine ⟨_, rfl, hex, hpf', Or.inr ⟨rfl, ?_, hT, rfl⟩⟩
    apply Set.eq_empty_iff_forall_notMem.2
    intro x hx
    obtain ⟨hin, hfree⟩ := hA.free_iff.1 hx
    exact hnone x hin hfree

/-! ## One more block -/

/-- the last cluster of a file covers the blocks up to its end -/
theorem clustersOf_made (sb : FatSb) {b m : ℕ} (h0 : 0 < m) (hm : m ≤ sb.secPerClus - b % sb.secPerClus) :
    clustersOf sb ((b + m) * sb.blocksize) = b / sb.secPerClus + 1 := by
  have hspc := sb.secPerClus_pos
  have hmod := Nat.mod_lt b hspc
  have hdiv := Nat.div_add_mod b sb.secPerClus
  have hlt : ∀ k, k < clustersOf sb ((b + m) * sb.blocksize) ↔ k * sb.secPerClus < b + m := by
    intro k
    rw [lt_clustersOf_iff, FatSb.clusterSize, Nat.mul_comm sb.blocksize, ← Nat.mul_assoc, Nat.mul_lt_mul_right sb.blocksize_pos]
  apply le_antisymm
  · by_contra hgt
    have hover := (hlt (b / sb.secPerClus + 1)).1 (not_le.1 hgt)
    rw [Nat.succ_mul, Nat.mul_comm] at hover
    omega
  · apply Nat.succ_le_of_lt
    rw [hlt, Nat.mul_comm]
    omega

/-- the clusters of a file that ends with a block -/
theorem clustersOf_block (sb : FatSb) (b : ℕ) :
    clustersOf sb (b * sb.blocksize) = if b % sb.secPerClus = 0 then b / sb.secPerClus else b / sb.secPerClus + 1 := by
  have hspc := sb.secPerClus_pos
  have hdiv := Nat.div_add_mod b sb.secPerClus
  split_ifs with hoff
  · cases b with
    | zero =>
      rw [Nat.zero_mul, Nat.zero_div]
      exact (Nat.div_eq_zero_iff_lt sb.clusterSize_pos).2 (by have := sb.clusterSize_pos; omega)
    | succ b =>
      have hmod := Nat.mod_lt b hspc
      rw [clustersOf_made sb Nat.one_pos (by omega)]
      exact (Nat.succ_div_of_dvd (Nat.dvd_of_mod_eq_zero hoff)).symm
  · obtain ⟨b, rfl⟩ := Nat.exists_eq_succ_of_ne_zero (show b ≠ 0 by rintro rfl; exact hoff (Nat.zero_mod _))
    have hmod := Nat.mod_lt b hspc
    rw [clustersOf_made sb Nat.one_pos (by omega)]
    exact congrArg Nat.succ (Nat.succ_div_of_not_dvd fun h => hoff (Nat.mod_eq_zero_of_dvd h)).symm

/-- the largest file ends with a cluster -/
theorem clusterSize_dvd_max (sb : FatSb) : sb.clusterSize ∣ S_MAXBYTES + 1 := by
  have hbits : sb.clusterBits ≤ 32 := by
    have h1 := sb.bits_max
    have h2 := sb.spc_max
    unfold FatSb.clusterBits
    omega
  rw [sb.clusterSize_eq]
  exact pow_dvd_pow 2 hbits

/-- the file does not become longer than a file can be -/
theorem made_le (sb : FatSb) {b m : ℕ} (hb : b * sb.blocksize ≤ S_MAXBYTES) (hm : m ≤ sb.secPerClus - b % sb.secPerClus) :
    (b + m) * sb.blocksize ≤ S_MAXBYTES + 1 := by
  have hmod := Nat.mod_lt b sb.secPerClus_pos
  have hdiv := Nat.div_add_mod b sb.secPerClus
  have hlt : b / sb.secPerClus * sb.clusterSize < S_MAXBYTES + 1 := Nat.lt_succ_of_le ((cluster_of_block sb b).trans hb)
  obtain ⟨q, hq⟩ := clusterSize_dvd_max sb
  rw [hq, Nat.mul_comm sb.clusterSize] at hlt ⊢
  have hnext : b / sb.secPerClus + 1 ≤ q := Nat.succ_le_of_lt (Nat.lt_of_mul_lt_mul_right hlt)
  calc (b + m) * sb.blocksize ≤ (b / sb.secPerClus + 1) * sb.secPerClus * sb.blocksize := by
        apply Nat.mul_le_mul_right
        rw [Nat.succ_mul, Nat.mul_comm]
        omega
    _ = (b / sb.secPerClus + 1) * sb.clusterSize := by
        unfold FatSb.clusterSize
        ring
    _ ≤ q * sb.clusterSize := Nat.mul_le_mul_right _ hnext

/-- **A block behind the others is made**, in the last cluster of the file. -/
theorem makeBlock_spec (henv : env.NoFault) (h : FileChain sb s.vol l ino) (hsize : ino.iSize = size)
    (hwritten : ino.mmuPrivate = (b * sb.blocksize : ℕ)) (hle : size ≤ b * sb.blocksize) (hb : b * sb.blocksize ≤ S_MAXBYTES)
    (hl : l.length = b / sb.secPerClus + 1) {n : ℕ} (hn : 0 < n) :
    ∃ r, makeBlock env sb true s ino b n = some r ∧ r.ret = 0 ∧ r.mapped = some (fileBlock sb l b, true) ∧
      r.maxBlocks = min (sb.secPerClus - b % sb.secPerClus) n ∧ FileChain sb r.s.vol l r.ino ∧ Looked s r.s ∧
      FileSizes sb l.length size ((b + min (sb.secPerClus - b % sb.secPerClus) n) * sb.blocksize) r.ino := by
  have hmod := Nat.mod_lt b sb.secPerClus_pos
  unfold makeBlock
  simp only
  generalize hm : min (sb.secPerClus - b % sb.secPerClus) n = m
  have hm0 : 0 < m := by omega
  have hmle : m ≤ sb.secPerClus - b % sb.secPerClus := hm ▸ min_le_left _ _
  generalize hino : ({ ino with mmuPrivate := ino.mmuPrivate + m * 2 ^ sb.blocksizeBits } : CachedInode) = ino1
  have hchain : FileChain sb s.vol l ino1 := by
    rw [← hino]
    exact ⟨h.chain, h.coherent.of_eq rfl rfl rfl, h.blocks, h.outside⟩
  have z : FileSizes sb l.length size ((b + m) * sb.blocksize) ino1 := by
    refine ⟨?_, ?_, ?_, made_le sb hb hmle, by rw [hl, clustersOf_made sb hm0 hmle]⟩
    · rw [← hino]
      exact hsize
    · rw [← hino]
      simp only [hwritten]
      unfold FatSb.blocksize
      push_cast
      ring
    · exact hle.trans (Nat.mul_le_mul_right _ (Nat.le_add_right b m))
  have hsee : visible sb size ((b + m) * sb.blocksize) b true = b + m := by
    unfold visible
    rw [if_pos ⟨not_lt.1 fun hlt => absurd (lt_blocksIn_iff.1 hlt) (not_lt.2 hle), rfl⟩]
    apply le_antisymm
    · by_contra hgt
      exact absurd (lt_blocksIn_iff.1 (not_le.1 hgt)) (lt_irrefl _)
    · by_contra hgt
      have hnot := lt_blocksIn_iff.not.1 (lt_irrefl (blocksIn sb ((b + m) * sb.blocksize)))
      exact hnot (Nat.mul_lt_mul_of_pos_right (not_le.1 hgt) sb.blocksize_pos)
  obtain ⟨r, hmap, hr⟩ := fatBmap_spec env hchain z b true
  have hans := hr.answer
  rw [hsee] at hans
  obtain ⟨-, hret, hphys, hne, hmapped⟩ | ⟨hge, -⟩ | ⟨-, -, -, t, b', hfail⟩ := hans
  · have hcount : m = r.mappedBlocks := by
      rw [hmapped, Nat.add_sub_cancel_left, min_eq_right hmle]
    rw [hmap]
    simp only [hret, ne_eq, not_true_eq_false, if_false, hne, hcount.symm, or_self]
    exact ⟨_, rfl, rfl, by rw [hphys], rfl, hr.chain, hr.looked, z.of_vfs hr.inode⟩
  · omega
  · exact absurd (henv.bread t b') (ne_true_of_eq_false hfail)

end

end AtsLdd.Fat.CDriver
