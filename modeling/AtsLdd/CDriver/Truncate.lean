/-
Shortening a file of the C driver (src/C/myfat/file.c): `fat_free` keeps the first clusters of its chain, marks the last of
them as the end, and frees the rest; `fat_truncate` computes how many are kept.

- `fatFree_cuts`: without a failure, the chain is cut at the number given, whatever its length, and the counter stays exact;
- `fatTruncate_keeps`: exactly the clusters that the new size needs stay, and chains of other files are not touched.
-/
import AtsLdd.CDriver.ClusterCache
import AtsLdd.Fat.FreeCount

namespace AtsLdd.Fat.CDriver

open AtsLdd.Machine AtsLdd.Chain AtsLdd.LinkTable

/-! ## Model -/

/-- what `fat_free` leaves -/
structure FatFree where
  ret : ℤ
  ino : CachedInode
  s : St

/-- a new end of the chain: the rest of it, 0 when there is none, or a negative error, in `fat_free` -/
def cutChain (env : Env) (sb : FatSb) (s : St) (dclus : ℤ) (wait : Bool) : ℤ × St :=
  let (ret, fatent, s) := fatEntRead env sb s fatentInit dclus
  if ret = FAT_ENT_EOF then (0, (fatent.brelse s).2)
  else
    let (ret, s) :=
      if ret = FAT_ENT_FREE then ((- EIO : ℤ), s)
      else if 0 < ret then
        let (err, s) := fatEntWrite env sb s fatent FAT_ENT_EOF wait
        (if err ≠ 0 then err else ret, s)
      else (ret, s)
    (ret, (fatent.brelse s).2)

/-- the end of `fat_free`: the remaining chain is freed -/
def freeRest (env : Env) (sb : FatSb) (s : St) (ino : CachedInode) (skip : ℕ) (freeStart : ℤ) : FatFree :=
  let ino := { ino with iBlocks := skip * 2 ^ (sb.clusterBits - 9) }
  let (err, s) := fatFreeClusters env sb s freeStart
  ⟨err, ino, s⟩

/-- the inode whose chain is to be cut behind the first `skip` clusters -/
def CachedInode.shortened (ino : CachedInode) (now : Timespec) (skip : ℕ) : CachedInode :=
  let ino := fatCacheInvalInode ino
  let ino := if skip = 0 then { ino with iStart := 0, iLogstart := 0 } else ino
  { ino with iAttrs := ino.iAttrs ||| ATTR_ARCH, iMtime := now, iCtime := now }

/-- `fat_free`: all clusters behind the first `skip` ones are freed. `wait` is `IS_DIRSYNC`, `now` the current time;
`none` is an assertion of `fat_get_cluster`. -/
def fatFree (env : Env) (sb : FatSb) (opts : InodeOptions) (mem : Bool) (now : Timespec) (wait : Bool) (s : St)
    (ino : CachedInode) (skip : ℕ) : Option FatFree :=
  if ino.iStart = 0 then some ⟨0, ino, s⟩
  else
    let ino' := ino.shortened now skip
    let (err, s) := if wait then fatWriteInode env sb opts s ino'.toVfsInode true else (0, s)
    if err ≠ 0 then some ⟨err, { ino' with iStart := ino.iStart, iLogstart := ino.iLogstart }, s⟩
    else if skip = 0 then some (freeRest env sb s ino' skip ino.iStart)
    else
      match fatGetCluster env sb mem s ino' (skip - 1) with
      | none => none
      | some g =>
        if g.ret < 0 then some ⟨g.ret, g.ino, g.s⟩
        else if g.ret = FAT_ENT_EOF then some ⟨0, g.ino, g.s⟩
        else
          let (ret, s) := cutChain env sb g.s g.dclus wait
          if ret ≤ 0 then some ⟨ret, g.ino, s⟩ else some (freeRest env sb s g.ino skip ret)

/-- the inode with which `fat_truncate` calls `fat_free` -/
def CachedInode.trimmed (ino : CachedInode) : CachedInode := { ino with mmuPrivate := min ino.mmuPrivate ino.iSize }

/-- `fat_truncate`, of a file whose `i_size` is set already -/
def fatTruncate (env : Env) (sb : FatSb) (opts : InodeOptions) (mem : Bool) (now : Timespec) (wait : Bool) (s : St)
    (ino : CachedInode) : Option FatFree :=
  fatFree env sb opts mem now wait s ino.trimmed ((ino.iSize + (sb.clusterSize - 1)) / 2 ^ sb.clusterBits).toNat

/-! ## Cutting the chain -/

section
variable {env : Env} {sb : FatSb} {opts : InodeOptions} {s : St} {ino : CachedInode} {a d : ℤ} {l : List ℤ}

/-- writing an inode back does not change the FAT, as long as its entry is not in it -/
theorem fatWriteInode_sameFat (henv : env.NoFault) (opts : InodeOptions) (s : St) {ino : VfsInode}
    (hout : ¬ InFat sb (iPosBlock sb ino.iPos)) (wait : Bool) :
    ∃ s', fatWriteInode env sb opts s ino wait = (0, s') ∧ SameFat sb s s' := by
  unfold fatWriteInode
  by_cases hroot : ino.isRoot
  · rw [if_pos hroot]
    exact ⟨s, rfl, SameFat.refl sb s⟩
  rw [if_neg hroot]
  by_cases hpos : ino.iPos = 0
  · rw [if_pos hpos]
    exact ⟨s, rfl, SameFat.refl sb s⟩
  rw [if_neg hpos]
  unfold changeBlock
  rw [sbBread_ok (henv.bread _ _)]
  have hframe : ∀ (vol : Vol) (buf : Buf) (b : ℕ), InFat sb b → Function.update vol (iPosBlock sb ino.iPos) buf b = vol b := by
    intro vol buf b hb
    apply Function.update_of_ne
    rintro rfl
    exact hout hb
  cases wait with
  | false => exact ⟨_, rfl, fun b hb => hframe _ _ b hb, rfl, rfl, rfl, rfl⟩
  | true =>
    simp only [syncDirtyBuffer, henv.sync, if_true]
    exact ⟨_, rfl, fun b hb => hframe _ _ b hb, rfl, rfl, rfl, rfl⟩

/-- the last cluster of the chain is an end already -/
theorem cutChain_last (henv : env.NoFault) (wait : Bool) (h : table sb s.vol d = .last) :
    ∃ s', cutChain env sb s d wait = (0, s') ∧ SameFat sb s s' := by
  have hin : InRange sb d := by
    by_contra hout
    rw [table, if_neg hout] at h
    cases h
  obtain ⟨e, s1, hread, -, hsame⟩ := fatEntRead_ok henv s fatentInit hin
  unfold cutChain
  rw [hread]
  simp only [(table_eq_last hin).1 h, if_true]
  exact ⟨_, rfl, hsame.trans (FatEntry.brelse_spec sb e s1).2⟩

/-- **A new end** in the middle of a chain: the rest of the chain is handed on. -/
theorem cutChain_next (henv : env.NoFault) (wait : Bool) (hin : InRange sb d) (h : table sb s.vol d = .next a) :
    ∃ s', cutChain env sb s d wait = (a, s') ∧ SameFat sb { s with vol := fatPut sb s.vol d FAT_ENT_EOF } s' := by
  obtain ⟨hlink, hsucc⟩ := fatSucc_isLink ((table_eq_next hin).1 h)
  obtain ⟨e, s1, hread, hat, hsame⟩ := fatEntRead_ok henv s fatentInit hin
  obtain ⟨s2, hwrite, hsame2⟩ := fatEntWrite_ok henv s1 hin hat FAT_ENT_EOF wait
  have hpos : 0 < fatLink sb s.vol d := lt_of_le_of_ne (fat32EntGet_bounds _ _).1 fun h => hlink.1 h.symm
  unfold cutChain
  rw [hread]
  simp only [if_neg hlink.2, if_neg hlink.1, if_pos hpos, hwrite, ne_eq, not_true_eq_false, if_false]
  refine ⟨(e.brelse s2).2, by rw [hsucc], ?_⟩
  have hput : SameFat sb { s with vol := fatPut sb s.vol d FAT_ENT_EOF } { s1 with vol := fatPut sb s1.vol d FAT_ENT_EOF } :=
    ⟨EqFat.fatPut hsame.vol hin _, hsame.freeClusters, hsame.freeClusValid, hsame.prevFree, hsame.discards⟩
  exact (hput.trans hsame2).trans (FatEntry.brelse_spec sb e s2).2

/-- an end that is stored to an entry in use frees none -/
theorem exact_put_eof (h : Exact sb s) (hin : InRange sb d) (hused : fatLink sb s.vol d ≠ FAT_ENT_FREE) :
    Exact sb { s with vol := fatPut sb s.vol d FAT_ENT_EOF } := by
  have hcount := freeCount_fatPut s.vol hin Storable.eof
  rw [if_neg (fun hval => hused (fatLink_eq_free.2 hval)), if_neg (by decide)] at hcount
  exact h.trans hcount.symm

/-- what `fat_free` is to leave of the chain `l` of a file -/
structure CutsTo (sb : FatSb) (s : St) (ino : CachedInode) (l : List ℤ) (n : ℕ) (r : FatFree) : Prop where
  ret : r.ret = 0
  table : table sb r.s.vol = cutAt (table sb s.vol) l n
  start : r.ino.iStart = if n = 0 then 0 else ino.iStart
  blocks : r.ino.iBlocks = if n < l.length then n * 2 ^ (sb.clusterBits - 9) else ino.iBlocks
  coherent : Coherent (Fat.table sb r.s.vol) (clusterLimit sb + 1) r.ino
  sizes : r.ino.iSize = ino.iSize ∧ r.ino.mmuPrivate = ino.mmuPrivate ∧ r.ino.iPos = ino.iPos
  exact : Exact sb s → Exact sb r.s
  prevFree : r.s.prevFree = s.prevFree

/-- the rest of the chain is freed -/
theorem freeRest_spec (henv : env.NoFault) (p : Path (table sb s.vol) a l) (ino : CachedInode) (skip : ℕ) :
    ∃ r, freeRest env sb s ino skip a = r ∧ r.ret = 0 ∧ table sb r.s.vol = freed (table sb s.vol) l ∧
      r.ino = { ino with iBlocks := skip * 2 ^ (sb.clusterBits - 9) } ∧ (Exact sb s → Exact sb r.s) ∧
      r.s.prevFree = s.prevFree := by
  obtain ⟨s1, hfree, hput, hpf⟩ := fatFreeClusters_path henv p
  have hexact := (fatFreeClusters_exact (henv.fatWrites sb) s a).1
  unfold freeRest
  rw [hfree] at hexact ⊢
  exact ⟨_, rfl, rfl, by rw [hput.table, table_freePuts (path_inRange p)], rfl, hexact, hpf⟩

theorem shortened_spec (ino : CachedInode) (now : Timespec) (n : ℕ) :
    (ino.shortened now n).iStart = (if n = 0 then 0 else ino.iStart) ∧ (ino.shortened now n).iPos = ino.iPos ∧
      (ino.shortened now n).iBlocks = ino.iBlocks ∧ (ino.shortened now n).iSize = ino.iSize ∧
      (ino.shortened now n).mmuPrivate = ino.mmuPrivate := by
  unfold CachedInode.shortened
  split_ifs <;> exact ⟨rfl, rfl, rfl, rfl, rfl⟩

theorem shortened_coherent {T : ℤ → Link ℤ} {bound : ℕ} (h : Coherent T bound ino) (now : Timespec) (n : ℕ) (T' : ℤ → Link ℤ)
    (bound' : ℕ) : Coherent T' bound' (ino.shortened now n) := by
  apply h.invalidated
  · unfold CachedInode.shortened
    split_ifs <;> rfl
  · unfold CachedInode.shortened
    split_ifs <;> rfl

/-- **Freeing the end of a file**: its chain is cut at the number of clusters given, whatever its length. -/
theorem fatFree_cuts (henv : env.NoFault) (p : Path (table sb s.vol) ino.iStart l)
    (hcoh : Coherent (table sb s.vol) (clusterLimit sb + 1) ino) (hout : ¬ InFat sb (iPosBlock sb ino.iPos))
    (opts : InodeOptions) (now : Timespec) (wait : Bool) {n : ℕ} (hn : n ≤ clusterLimit sb + 1) :
    ∃ r, fatFree env sb opts true now wait s ino n = some r ∧ CutsTo sb s ino l n r := by
  have h0 : ino.iStart ≠ 0 := (path_inRange p _ p.head_mem).pos.ne'
  have hlen := List.length_pos_of_ne_nil p.ne_nil
  obtain ⟨hstart, hpos, hblocks, hsize, hmmu⟩ := shortened_spec ino now n
  have hclean := shortened_coherent hcoh now n
  unfold fatFree
  rw [if_neg h0]
  simp only
  generalize ino.shortened now n = ino' at hstart hpos hblocks hsize hmmu hclean ⊢
  obtain ⟨s1, hwrite, hsame1⟩ : ∃ s1, (if wait then fatWriteInode env sb opts s ino'.toVfsInode true else (0, s)) = (0, s1) ∧
      SameFat sb s s1 := by
    cases wait with
    | false => exact ⟨s, rfl, SameFat.refl sb s⟩
    | true => exact fatWriteInode_sameFat henv opts s (by rw [hpos]; exact hout) true
  rw [hwrite]
  simp only [ne_eq, not_true_eq_false, if_false]
  have hT : table sb s1.vol = table sb s.vol := EqFat.table hsame1.vol
  have p1 : Path (table sb s1.vol) ino.iStart l := by rwa [hT]
  by_cases hzero : n = 0
  · -- the whole chain is freed
    obtain ⟨r, hrest, hret, htab, hino, hexact, hpf⟩ := freeRest_spec henv p1 ino' n
    rw [if_pos hzero] at hstart
    rw [if_pos hzero, hrest]
    refine ⟨r, rfl, hret, ?_, ?_, ?_, ?_, ?_, fun h => hexact (hsame1.exact h), hpf.trans hsame1.prevFree⟩
    · rw [htab, hT, hzero, cutAt_zero]
    · rw [hino, if_pos hzero]
      exact hstart
    · rw [hino, if_pos (hzero ▸ hlen)]
    · rw [hino]
      exact (hclean _ _).of_eq rfl rfl rfl
    · rw [hino]
      exact ⟨hsize, hmmu, hpos⟩
  rw [if_neg hzero] at hstart ⊢
  -- the last cluster that stays is looked up, from an empty cache
  obtain ⟨m, rfl⟩ := Nat.exists_eq_succ_of_ne_zero hzero
  have hasked : (((m + 1 : ℕ) : ℤ) - 1).toNat = m := by omega
  obtain ⟨g, hget, hans, hgcoh, hgino, hglook⟩ : ∃ g, fatGetCluster env sb true s1 ino' (((m + 1 : ℕ) : ℤ) - 1) = some g ∧
      GetsCluster env sb m s1 ino' (((m + 1 : ℕ) : ℤ) - 1) g := by
    apply fatGetCluster_spec env (hclean _ _) (by rw [hstart]; exact h0)
    · rw [hasked]
      exact min_le_left _ _
    · exact (Nat.le_succ m).trans hn
  rw [hget]
  rw [hasked, hstart, hT] at hans
  have hgood := hans.resolve_right fun h => by
    obtain ⟨-, t, b, hfail⟩ := h
    exact absurd (henv.bread t b) (ne_true_of_eq_false hfail)
  have hgT : table sb g.s.vol = table sb s.vol := by rw [hglook.vol, hT]
  have hgexact : Exact sb s → Exact sb g.s := fun h => (hglook.sameFat sb).exact (hsame1.exact h)
  have hgstart : g.ino.iStart = ino.iStart := (congrArg VfsInode.iStart hgino).trans hstart
  have hgblocks : g.ino.iBlocks = ino.iBlocks := (congrArg VfsInode.iBlocks hgino).trans hblocks
  have hgsizes : g.ino.iSize = ino.iSize ∧ g.ino.mmuPrivate = ino.mmuPrivate ∧ g.ino.iPos = ino.iPos :=
    ⟨(congrArg VfsInode.iSize hgino).trans hsize, (congrArg VfsInode.mmuPrivate hgino).trans hmmu,
      (congrArg VfsInode.iPos hgino).trans hpos⟩
  have hgpf : g.s.prevFree = s.prevFree := ((hglook.sameFat sb).prevFree).trans hsame1.prevFree
  rw [hT] at hgcoh
  -- a chain that is short enough stays as it is
  have hkept : ∀ s2 : St, SameFat sb g.s s2 → l.length ≤ m + 1 → CutsTo sb s ino l (m + 1) ⟨0, g.ino, s2⟩ := by
    intro s2 hsame2 hle
    have hT2 : table sb s2.vol = table sb s.vol := (EqFat.table hsame2.vol).trans hgT
    refine ⟨rfl, hT2.trans (p.cutAt_long hle).symm, ?_, ?_, ?_, hgsizes, fun h => hsame2.exact (hgexact h),
      hsame2.prevFree.trans hgpf⟩
    · rw [if_neg hzero]
      exact hgstart
    · rw [if_neg (not_lt.2 hle)]
      exact hgblocks
    · simp only [hT2]
      exact hgcoh.mono ((Nat.le_succ m).trans hn)
  rcases Nat.lt_or_ge m l.length with hlt | hge
  · rw [p.walk_reached hlt ((Nat.le_succ m).trans hn)] at hgood
    obtain ⟨hret, -, hdclus⟩ : g.ret = 0 ∧ g.fclus = m ∧ g.dclus = l[m] := by
      simpa [walkAnswer] using hgood
    have hin : InRange sb (l[m]) := path_inRange p _ (List.getElem_mem hlt)
    simp only [hret, lt_irrefl, if_false, if_neg (show (0 : ℤ) ≠ FAT_ENT_EOF by decide), hdclus]
    rcases Nat.lt_or_ge (m + 1) l.length with hmid | hend
    · -- the chain is cut in its middle
      have hnext : table sb g.s.vol (l[m]) = .next (l[m + 1]) := by
        rw [hgT]
        exact p.next_eq hmid
      have hused : fatLink sb g.s.vol (l[m]) ≠ FAT_ENT_FREE := by
        intro hfree
        rw [(table_eq_free hin).2 hfree] at hnext
        cases hnext
      obtain ⟨s2, hcut, hsame2⟩ := cutChain_next henv wait hin hnext
      have hT2 : table sb s2.vol = Function.update (table sb s.vol) (l[m]) .last := by
        rw [EqFat.table hsame2.vol, table_fatPut hin Storable.eof, toLink_readBack_eof, hgT]
      have hpos : ¬ l[m + 1] ≤ 0 := not_le.2 (path_inRange p _ (List.getElem_mem hmid)).pos
      have p2 : Path (table sb s2.vol) (l[m + 1]) (l.drop (m + 1)) := by
        rw [hT2]
        apply (p.drop hmid).congr
        intro x hx
        apply Function.update_of_ne
        rintro rfl
        obtain ⟨j, hj, hjm⟩ := List.mem_drop_iff_getElem.1 hx
        have hidx := (p.nodup.getElem_inj_iff).1 hjm
        omega
      rw [hcut]
      simp only [if_neg hpos]
      obtain ⟨r, hrest, hret', htab, hino, hexact, hpf⟩ := freeRest_spec henv p2 g.ino (m + 1)
      rw [hrest]
      have htab' : table sb r.s.vol = cutAt (table sb s.vol) l (m + 1) := by rw [htab, hT2, cutAt_eq _ hlt]
      refine ⟨r, rfl, hret', htab', ?_, ?_, ?_, ?_, ?_, (hpf.trans hsame2.prevFree).trans hgpf⟩
      · rw [hino, if_neg hzero]
        exact hgstart
      · rw [hino, if_pos hmid]
      · -- the stretches that the lookup left end before the cut
        have hcutcoh : Coherent (cutAt (table sb s.vol) l (m + 1)) m g.ino := by
          apply hgcoh.congr
          intro i hi x y hx hxy
          rw [hgstart, p.nth_eq, List.getElem?_eq_getElem (hi.trans hlt), Option.some.injEq] at hx
          rw [← hx, cutAt_of_lt p.nodup (Nat.succ_lt_succ hi) hlt, hx]
          exact hxy
        rw [hino, htab']
        exact (hcutcoh.mono ((Nat.le_succ m).trans hn)).of_eq rfl rfl rfl
      · rw [hino]
        exact hgsizes
      · exact fun h => hexact (hsame2.exact (exact_put_eof (hgexact h) hin hused))
    · -- the last cluster that stays is the last one
      have hmlast : l[m] = l.getLast p.ne_nil := by
        rw [List.getLast_eq_getElem]
        congr 1
        omega
      have hlast : table sb g.s.vol (l[m]) = .last := by
        rw [hgT, hmlast]
        exact p.getLast
      obtain ⟨s2, hcut, hsame2⟩ := cutChain_last henv wait hlast
      rw [hcut]
      simp only [le_refl, if_true]
      exact ⟨_, rfl, hkept s2 hsame2 hend⟩
  · -- the chain is shorter than that
    rw [p.walk_last hge (hge.trans ((Nat.le_succ m).trans hn))] at hgood
    have hret : g.ret = FAT_ENT_EOF := congrArg Prod.fst hgood
    simp only [hret, if_neg (show ¬ FAT_ENT_EOF < 0 by decide), if_true]
    exact ⟨_, rfl, hkept g.s (SameFat.refl sb g.s) (hge.trans (Nat.le_succ m))⟩

/-- the number of clusters that `n` bytes take -/
def clustersOf (sb : FatSb) (n : ℕ) : ℕ := (n + (sb.clusterSize - 1)) / sb.clusterSize

/-- a file takes at most one cluster more than `fat_get_cluster` makes steps -/
theorem clustersOf_le (sb : FatSb) {n : ℕ} (hn : n ≤ S_MAXBYTES + 1) : clustersOf sb n ≤ clusterLimit sb + 1 := by
  have hpos := sb.clusterSize_pos
  unfold clustersOf clusterLimit
  rw [← sb.clusterSize_eq, ← Nat.add_div_right _ hpos]
  exact Nat.div_le_div_right (by omega)

/-- **Shortening a file** to the clusters that its size takes. -/
theorem fatTruncate_cuts (henv : env.NoFault) (p : Path (table sb s.vol) ino.iStart l)
    (hcoh : Coherent (table sb s.vol) (clusterLimit sb + 1) ino) (hout : ¬ InFat sb (iPosBlock sb ino.iPos))
    {size : ℕ} (hsize : ino.iSize = size) (hmax : size ≤ S_MAXBYTES + 1) (opts : InodeOptions) (now : Timespec) (wait : Bool) :
    ∃ r, fatTruncate env sb opts true now wait s ino = some r ∧ CutsTo sb s ino.trimmed l (clustersOf sb size) r := by
  have hcount : ((ino.iSize + (sb.clusterSize - 1)) / 2 ^ sb.clusterBits).toNat = clustersOf sb size := by
    unfold clustersOf
    rw [hsize, ← Int.toNat_natCast ((size + (sb.clusterSize - 1)) / sb.clusterSize)]
    congr 1
    rw [sb.clusterSize_eq]
    push_cast [Nat.one_le_two_pow]
    rfl
  unfold fatTruncate
  have hclean : Coherent (table sb s.vol) (clusterLimit sb + 1) ino.trimmed := hcoh.of_eq rfl rfl rfl
  have ptrim : Path (table sb s.vol) ino.trimmed.iStart l := p
  rw [hcount]
  exact fatFree_cuts henv ptrim hclean hout opts now wait (clustersOf_le sb hmax)

/-- **Shortening a file**: exactly the clusters that its size takes stay in its chain, the others are free, and the chains of
other files are as they were. -/
theorem fatTruncate_keeps (henv : env.NoFault) {heads : Set ℤ} (w : WellFormed (table sb s.vol) (InRange sb) heads)
    (hhead : ino.iStart ∈ heads) (p : Path (table sb s.vol) ino.iStart l)
    (hcoh : Coherent (table sb s.vol) (clusterLimit sb + 1) ino) (hout : ¬ InFat sb (iPosBlock sb ino.iPos))
    {size : ℕ} (hsize : ino.iSize = size) (hmax : size ≤ S_MAXBYTES + 1) (opts : InodeOptions) (now : Timespec) (wait : Bool) :
    ∃ r, fatTruncate env sb opts true now wait s ino = some r ∧ CutsTo sb s ino.trimmed l (clustersOf sb size) r ∧
      (0 < size → Path (table sb r.s.vol) ino.iStart (l.take (clustersOf sb size))) ∧
      WellFormed (table sb r.s.vol) (InRange sb) (if size = 0 then heads \ {ino.iStart} else heads) := by
  have hzero : clustersOf sb size = 0 ↔ size = 0 := by
    unfold clustersOf
    rw [Nat.div_eq_zero_iff_lt sb.clusterSize_pos]
    have hcs := sb.clusterSize_pos
    omega
  obtain ⟨r, hfree, hcut⟩ := fatTruncate_cuts henv p hcoh hout hsize hmax opts now wait
  refine ⟨r, hfree, hcut, fun hpos => ?_, ?_⟩
  · rw [hcut.table]
    exact p.cut (Nat.pos_of_ne_zero fun h => hpos.ne' (hzero.1 h))
  · rw [hcut.table]
    split_ifs with h
    · rw [hzero.2 h, cutAt_zero]
      exact w.free hhead p
    · exact w.cut hhead p (Nat.pos_of_ne_zero fun h0 => h (hzero.1 h0))

end

/-- the file of the clusters 3 and 4, with 600 bytes -/
def longFile : CachedInode := { cachedFile with iSize := 600, mmuPrivate := 2048 }

theorem longFile_outside : ¬ InFat tinySb (iPosBlock tinySb longFile.iPos) := by
  unfold InFat
  decide

/-- one cluster of it stays -/
theorem fatTruncate_keeps_tiny : ∃ r, fatTruncate goodEnv tinySb plainOptions true ⟨0, 0⟩ true tinyChains.s longFile = some r ∧
    Path (table tinySb r.s.vol) 3 [3] := by
  have hcoh : Coherent (table tinySb tinyChains.s.vol) (clusterLimit tinySb + 1) longFile := cachedFile_coherent.of_eq rfl rfl rfl
  have hhead : longFile.iStart ∈ tinyChains.heads := rfl
  have hsize : longFile.iSize = (600 : ℕ) := rfl
  obtain ⟨r, htrunc, -, hpath, -⟩ := fatTruncate_keeps goodEnv_noFault tinyChains_wellFormed hhead tinyChains_path hcoh
    longFile_outside hsize (by decide) plainOptions ⟨0, 0⟩ true
  exact ⟨r, htrunc, hpath (by decide)⟩

end AtsLdd.Fat.CDriver
