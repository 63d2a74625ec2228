/-
The data blocks that adding entries writes: free slots that are filled, and the blocks of new clusters. None of them is in the
FAT, whatever fails on the way.

- `fillFree_sameFat`, `newClusters_sameFat`, `fatZeroedCluster_sameFat`: the stages of adding entries leave the FAT alone;
- `fatAddNewEntries_ret`: the clusters that new entries get are the first free ones of the volume.
-/
import AtsLdd.Fat.Mirror
import AtsLdd.Fat.Outcome
import AtsLdd.Fat.Search

namespace AtsLdd.Fat

open AtsLdd.Machine AtsLdd.ByteMap AtsLdd.LinkTable

/-! ## Stores outside the FAT -/

section
variable {env : Env} {sb : FatSb} {s : St}

theorem not_inFat_zero (sb : FatSb) : ¬ InFat sb 0 := fun h => absurd h.1 (not_le.2 sb.fatStart_pos)

theorem store_sameFat {b : ℕ} (hb : ¬ InFat sb b) (s : St) (buf : Buf) (refs : ℕ → ℤ) (t : ℕ) :
    SameFat sb s { s with vol := Function.update s.vol b buf, refs := refs, t := t } := by
  refine ⟨fun x hx => Function.update_of_ne ?_ _ _, rfl, rfl, rfl, rfl⟩
  rintro rfl
  exact hb hx

theorem syncDirtyBuffer_sameFat (env : Env) {b : ℕ} (hb : ¬ InFat sb b) (s : St) :
    SameFat sb s (syncDirtyBuffer env s b).2 := by
  unfold syncDirtyBuffer
  split_ifs
  · exact ⟨fun _ _ => rfl, rfl, rfl, rfl, rfl⟩
  · exact store_sameFat hb s _ _ _

theorem fatSyncBhs_sameFat (env : Env) {bhs : List ℕ} (hbhs : ∀ b ∈ bhs, ¬ InFat sb b) : ∀ s : St,
    SameFat sb s (fatSyncBhs env s bhs).2 := by
  induction bhs with
  | nil =>
    intro s
    exact SameFat.refl sb s
  | cons b bhs ih =>
    obtain ⟨hb, hrest⟩ := List.forall_mem_cons.1 hbhs
    intro s
    have hsync := syncDirtyBuffer_sameFat env hb s
    rw [fatSyncBhs]
    generalize syncDirtyBuffer env s b = r at hsync ⊢
    obtain ⟨ok, s1⟩ := r
    exact hsync.trans (ih hrest s1)

theorem FillSlots.copy_sameFat (f : FillSlots) {b : ℕ} (hb : ¬ InFat sb b) : SameFat sb f.s (f.copy sb b).s :=
  store_sameFat hb f.s _ _ _

theorem foldl_copy_sameFat {bhs : List ℕ} (hbhs : ∀ b ∈ bhs, ¬ InFat sb b) : ∀ f : FillSlots,
    SameFat sb f.s (bhs.foldl (fun f b => f.copy sb b) f).s := by
  induction bhs with
  | nil =>
    intro f
    exact SameFat.refl sb f.s
  | cons b bhs ih =>
    obtain ⟨hb, hrest⟩ := List.forall_mem_cons.1 hbhs
    intro f
    exact (f.copy_sameFat hb).trans (ih hrest _)

/-- filling free slots does not touch the FAT -/
theorem fillFree_sameFat (env : Env) (dirsync : Bool) {bhs : List ℕ} (hbhs : ∀ b ∈ bhs, ¬ InFat sb b) (nrSlots : ℕ)
    (f : FillSlots) : SameFat sb f.s (fillFree env sb dirsync bhs nrSlots f).2.s := by
  unfold fillFree
  simp only
  generalize bhs.length - (if nrSlots = 0 then 1 else 0) = long
  have htake : ∀ b ∈ bhs.take long, ¬ InFat sb b := fun b hb => hbhs b (List.mem_of_mem_take hb)
  have hcopy := foldl_copy_sameFat htake f
  generalize (bhs.take long).foldl (fun f b => f.copy sb b) f = f1 at hcopy ⊢
  have hsync : SameFat sb f1.s
      (if long ≠ 0 ∧ dirsync = true then fatSyncBhs env f1.s (bhs.take long) else (0, f1.s)).2 := by
    split_ifs
    · exact fatSyncBhs_sameFat env htake f1.s
    · exact SameFat.refl sb f1.s
  generalize (if long ≠ 0 ∧ dirsync = true then fatSyncBhs env f1.s (bhs.take long) else (0, f1.s)) = r at hsync ⊢
  obtain ⟨err, s1⟩ := r
  have h1 : SameFat sb f.s s1 := hcopy.trans hsync
  cases hlast : bhs.drop long with
  | nil => exact h1.trans (foldl_brelse_sameFat sb bhs s1)
  | cons b rest =>
    have hb : ¬ InFat sb b := hbhs b (List.mem_of_mem_drop (hlast ▸ List.mem_cons_self))
    simp only
    by_cases herr : err = 0
    · rw [if_pos herr]
      have h2 := h1.trans (FillSlots.copy_sameFat { f1 with s := s1 } hb)
      cases dirsync with
      | false => exact h2.trans (foldl_brelse_sameFat sb bhs _)
      | true => exact (h2.trans (syncDirtyBuffer_sameFat env hb _)).trans (foldl_brelse_sameFat sb bhs _)
    · rw [if_neg herr]
      exact h1.trans (foldl_brelse_sameFat sb bhs s1)

/-- filling the free slots in hand, if there are some -/
theorem fillStage_sameFat (env : Env) (dirsync : Bool) {bhs : List ℕ} (hbhs : ∀ b ∈ bhs, sb.dataStart ≤ b) (left n : ℕ)
    (f : FillSlots) : SameFat sb f.s (if n ≠ 0 then fillFree env sb dirsync bhs left f else (0, f)).2.s := by
  split_ifs
  · exact fillFree_sameFat env dirsync (fun b hb => not_inFat_of_le (hbhs b hb)) left f
  · exact SameFat.refl sb f.s

/-- the blocks of a new cluster are filled -/
theorem newBlocks_sameFat (env : Env) (left : ℕ) : ∀ {blknr : ℕ} (f : NewSlots), sb.dataStart ≤ blknr →
    (∀ b ∈ f.bhs, ¬ InFat sb b) → SameFat sb f.s (newBlocks env sb left blknr f).2.s ∧
      ∀ b ∈ (newBlocks env sb left blknr f).2.bhs, ¬ InFat sb b := by
  induction left with
  | zero => exact fun f _ hbhs => ⟨SameFat.refl sb f.s, hbhs⟩
  | succ left ih =>
    intro blknr f hblk hbhs
    have hout := not_inFat_of_le hblk
    rw [newBlocks]
    by_cases hget : env.getblk f.s.t = false
    · rw [if_pos hget]
      exact ⟨⟨fun _ _ => rfl, rfl, rfl, rfl, rfl⟩, hbhs⟩
    rw [if_neg hget]
    simp only
    have hsame := store_sameFat hout f.s (splice (f.s.vol blknr) 0 (f.slots.take (min f.size sb.blocksize)))
      (Function.update f.s.refs blknr (f.s.refs blknr + 1)) (f.s.t + 1)
    have hbhs' : ∀ b ∈ f.bhs ++ [blknr], ¬ InFat sb b := by
      intro b hb
      rcases List.mem_append.1 hb with hb | hb
      · exact hbhs b hb
      · rw [List.mem_singleton.1 hb]
        exact hout
    split_ifs
    · exact ⟨hsame, hbhs'⟩
    · obtain ⟨h1, h2⟩ := ih ⟨f.bhs ++ [blknr], min f.size sb.blocksize, f.size - min f.size sb.blocksize,
        f.slots.drop (min f.size sb.blocksize), _⟩ (hblk.trans (Nat.le_succ _)) hbhs'
      exact ⟨hsame.trans h1, h2⟩

theorem dataStart_le_clus {c : ℤ} (hc : InRange sb c) : sb.dataStart ≤ fatClusToBlknr sb c := by
  obtain ⟨h1, h2⟩ := dataStart_le_block hc sb.secPerClus_pos
  rwa [h2, Nat.add_zero] at h1

theorem newClusters_sameFat (env : Env) {cs : List ℤ} (hcs : ∀ c ∈ cs, InRange sb c) : ∀ (f : NewSlots),
    (∀ b ∈ f.bhs, ¬ InFat sb b) → SameFat sb f.s (newClusters env sb cs f).2.s ∧
      ∀ b ∈ (newClusters env sb cs f).2.bhs, ¬ InFat sb b := by
  induction cs with
  | nil =>
    intro f hbhs
    exact ⟨SameFat.refl sb f.s, hbhs⟩
  | cons c cs ih =>
    obtain ⟨hc, hrest⟩ := List.forall_mem_cons.1 hcs
    intro f hbhs
    obtain ⟨h1, h2⟩ := newBlocks_sameFat env sb.secPerClus f (dataStart_le_clus hc) hbhs
    rw [newClusters]
    generalize newBlocks env sb sb.secPerClus (fatClusToBlknr sb c) f = r at h1 h2 ⊢
    obtain ⟨ok, f1⟩ := r
    cases ok with
    | false => exact ⟨h1, h2⟩
    | true =>
      obtain ⟨h3, h4⟩ := ih hrest f1 h2
      exact ⟨h1.trans h3, h4⟩

theorem zeroLoop_sameFat (env : Env) (dirsync : Bool) (nrBhs left : ℕ) : ∀ {blknr : ℕ} (z : Zeroing), sb.dataStart ≤ blknr →
    (∀ b ∈ z.bhs, ¬ InFat sb b) → SameFat sb z.s (zeroLoop env sb dirsync nrBhs left blknr z).2.s ∧
      (∀ b ∈ (zeroLoop env sb dirsync nrBhs left blknr z).2.bhs, ¬ InFat sb b) ∧
      (zeroLoop env sb dirsync nrBhs left blknr z).1 ≤ 0 := by
  induction left with
  | zero => exact fun z _ hbhs => ⟨SameFat.refl sb z.s, hbhs, le_rfl⟩
  | succ left ih =>
    intro blknr z hblk hbhs
    have hout := not_inFat_of_le hblk
    have hnext : sb.dataStart ≤ blknr + 1 := hblk.trans (Nat.le_succ _)
    rw [zeroLoop]
    by_cases hget : env.getblk z.s.t = false
    · rw [if_pos hget]
      exact ⟨⟨fun _ _ => rfl, rfl, rfl, rfl, rfl⟩, hbhs, show (- ENOMEM : ℤ) ≤ 0 by decide⟩
    rw [if_neg hget]
    simp only
    have hsame := store_sameFat hout z.s (splice (z.s.vol blknr) 0 (List.replicate sb.blocksize 0))
      (Function.update z.s.refs blknr (z.s.refs blknr + 1)) (z.s.t + 1)
    generalize ({ z.s with
      vol := Function.update z.s.vol blknr (splice (z.s.vol blknr) 0 (List.replicate sb.blocksize 0))
      refs := Function.update z.s.refs blknr (z.s.refs blknr + 1)
      t := z.s.t + 1 } : St) = s1 at hsame ⊢
    have hbhs' : ∀ b ∈ z.bhs ++ [blknr], ¬ InFat sb b := by
      intro b hb
      rcases List.mem_append.1 hb with hb | hb
      · exact hbhs b hb
      · rw [List.mem_singleton.1 hb]
        exact hout
    by_cases hfull : (z.bhs ++ [blknr]).length = nrBhs
    · rw [if_pos hfull]
      have hsync : SameFat sb s1 (if dirsync = true then fatSyncBhs env s1 (z.bhs ++ [blknr]) else (0, s1)).2 ∧
          (if dirsync = true then fatSyncBhs env s1 (z.bhs ++ [blknr]) else (0, s1)).1 ≤ 0 := by
        split_ifs
        · exact ⟨fatSyncBhs_sameFat env hbhs' s1, fatSyncBhs_nonpos env _ s1⟩
        · exact ⟨SameFat.refl sb s1, le_rfl⟩
      generalize (if dirsync = true then fatSyncBhs env s1 (z.bhs ++ [blknr]) else (0, s1)) = r at hsync ⊢
      obtain ⟨err, s2⟩ := r
      obtain ⟨h1, h2⟩ := hsync
      simp only
      split_ifs
      · exact ⟨hsame.trans h1, hbhs', h2⟩
      · obtain ⟨h3, h4, h5⟩ := ih ⟨[], (z.bhs ++ [blknr]).foldl brelse s2⟩ hnext fun _ hb => absurd hb List.not_mem_nil
        exact ⟨((hsame.trans h1).trans (foldl_brelse_sameFat sb _ s2)).trans h3, h4, h5⟩
    · rw [if_neg hfull]
      obtain ⟨h3, h4, h5⟩ := ih ⟨z.bhs ++ [blknr], s1⟩ hnext hbhs'
      exact ⟨hsame.trans h3, h4, h5⟩

/-- zeroing the rest of a cluster does not touch the FAT; an error is negative -/
theorem fatZeroedCluster_sameFat (env : Env) (dirsync : Bool) (s : St) {blknr : ℕ} (hblk : sb.dataStart ≤ blknr) {bhs : List ℕ}
    (hbhs : ∀ b ∈ bhs, ¬ InFat sb b) (nrBhs : ℕ) : SameFat sb s (fatZeroedCluster env sb dirsync s blknr bhs nrBhs).2 ∧
      (fatZeroedCluster env sb dirsync s blknr bhs nrBhs).1 ≤ 0 := by
  unfold fatZeroedCluster
  simp only
  obtain ⟨h1, h2, h3⟩ := zeroLoop_sameFat env dirsync nrBhs (sb.secPerClus - bhs.length) ⟨bhs, s⟩
    (hblk.trans (Nat.le_add_right _ _)) hbhs
  generalize zeroLoop env sb dirsync nrBhs (sb.secPerClus - bhs.length) (blknr + bhs.length) ⟨bhs, s⟩ = r at h1 h2 h3 ⊢
  obtain ⟨err, z⟩ := r
  simp only at h1 h2 h3 ⊢
  have hsync : SameFat sb z.s (if err = 0 ∧ dirsync = true then fatSyncBhs env z.s z.bhs else (err, z.s)).2 ∧
      (if err = 0 ∧ dirsync = true then fatSyncBhs env z.s z.bhs else (err, z.s)).1 ≤ 0 := by
    split_ifs
    · exact ⟨fatSyncBhs_sameFat env h2 z.s, fatSyncBhs_nonpos env _ z.s⟩
    · exact ⟨SameFat.refl sb z.s, h3⟩
  exact ⟨(h1.trans hsync.1).trans (foldl_brelse_sameFat sb _ _), hsync.2⟩

/-! ## New clusters -/

theorem nrCluster_pos (sb : FatSb) {nr : ℕ} (hnr : 0 < nr) : 0 < nrCluster sb nr := by
  have hpos := sb.clusterSize_pos
  unfold nrCluster DENT_SIZE
  rw [← sb.clusterSize_eq]
  exact Nat.div_pos (by omega) hpos

/-- **The clusters that new entries get** are the first free ones of the volume, and they are a chain. -/
theorem fatAddNewEntries_ret (hpf : PrevFreeOk sb s) {nr : ℕ} (hnr : 0 < nr) {dirsync : Bool} {slots : List UInt8}
    {n : NewEntries} (hn : fatAddNewEntries env sb s dirsync slots nr = some n) (hret : ¬ n.ret < 0) :
    ∃ cs, cs = (freeEntries sb s.vol s.prevFree).take (nrCluster sb nr) ∧ cs.length = nrCluster sb nr ∧
      Chained sb s.vol n.s.vol cs ∧ PrevFreeOk sb n.s ∧ n.ret = cs.headD 0 ∧ n.nrCluster = nrCluster sb nr := by
  have hpos := nrCluster_pos sb hnr
  unfold fatAddNewEntries at hn
  simp only at hn
  by_cases hbug : 2 < nrCluster sb nr
  · rw [if_pos hbug] at hn
    exact absurd hn (by simp)
  rw [if_neg hbug] at hn
  cases halloc : fatAllocClusters env sb s dirsync (nrCluster sb nr) with
  | none =>
    rw [halloc] at hn
    exact absurd hn (by simp)
  | some r =>
    rw [halloc] at hn
    simp only at hn
    have hle := fatAllocClusters_nonpos halloc
    by_cases herr : r.err ≠ 0
    · rw [if_pos herr, Option.some.injEq] at hn
      rw [← hn] at hret
      exact absurd (lt_of_le_of_ne hle herr) hret
    rw [if_neg herr] at hn
    obtain ⟨hcl, hlen, hch, hp⟩ := fatAllocClusters_zero hpf hpos halloc (not_not.1 herr)
    obtain ⟨hsame, hbhs⟩ := newClusters_sameFat env hch.inRange
      ⟨[], 0, nr * DENT_SIZE, slots, r.s⟩ fun _ hb => absurd hb List.not_mem_nil
    generalize newClusters env sb r.cluster ⟨[], 0, nr * DENT_SIZE, slots, r.s⟩ = w at hn hsame hbhs
    obtain ⟨ok, f⟩ := w
    cases ok with
    | false =>
      rw [Option.some.injEq] at hn
      rw [← hn] at hret
      exact absurd (show (- ENOMEM : ℤ) < 0 by decide) hret
    | true =>
      simp only at hn hsame hbhs
      have hlast : ¬ InFat sb (f.bhs.getLastD 0) := by
        cases hf : f.bhs.getLast? with
        | none =>
          rw [List.getLastD_eq_getLast?, hf]
          exact not_inFat_zero sb
        | some b =>
          rw [List.getLastD_eq_getLast?, hf]
          exact hbhs b (List.mem_of_getLast? hf)
      have hcluster : InRange sb (r.cluster.getLastD 0) := by
        have hne : r.cluster ≠ [] := List.ne_nil_of_length_pos (hlen ▸ hpos)
        rw [List.getLastD_eq_getLast?, List.getLast?_eq_some_getLast hne]
        exact hch.inRange _ (List.getLast_mem hne)
      have hstore := store_sameFat hlast f.s (splice (f.s.vol (f.bhs.getLastD 0)) f.copy
        (List.replicate (sb.blocksize - f.copy) 0)) (Function.update f.s.refs (f.bhs.getLastD 0)
        (f.s.refs (f.bhs.getLastD 0) + 1)) f.s.t
      obtain ⟨hzero, hzle⟩ := fatZeroedCluster_sameFat env dirsync { f.s with
        vol := Function.update f.s.vol (f.bhs.getLastD 0) (splice (f.s.vol (f.bhs.getLastD 0)) f.copy
          (List.replicate (sb.blocksize - f.copy) 0))
        refs := Function.update f.s.refs (f.bhs.getLastD 0) (f.s.refs (f.bhs.getLastD 0) + 1) }
        (dataStart_le_clus hcluster) hbhs MAX_BUF_PER_PAGE
      have hall := (hsame.trans hstore).trans hzero
      generalize fatZeroedCluster env sb dirsync _ (fatClusToBlknr sb (r.cluster.getLastD 0)) f.bhs MAX_BUF_PER_PAGE = z
        at hn hzle hall
      obtain ⟨err, s'⟩ := z
      simp only at hn hzle hall
      by_cases hz : err ≠ 0
      · rw [if_pos hz, Option.some.injEq] at hn
        rw [← hn] at hret
        exact absurd (lt_of_le_of_ne hzle hz) hret
      rw [if_neg hz, Option.some.injEq] at hn
      rw [← hn]
      refine ⟨r.cluster, hcl, hlen, hch.congr hall.vol, ?_, rfl, rfl⟩
      unfold PrevFreeOk
      rw [hall.prevFree]
      exact hp

/-! ## Without a failure -/

theorem newBlocks_noFault (sb : FatSb) (henv : env.NoFault) (left : ℕ) : ∀ (blknr : ℕ) (f : NewSlots),
    (newBlocks env sb left blknr f).1 = true := by
  induction left with
  | zero =>
    intro _ _
    exact rfl
  | succ left ih =>
    intro blknr f
    rw [newBlocks, if_neg (by simp [henv.getblk])]
    simp only
    split_ifs
    · rfl
    · exact ih _ _

theorem newClusters_noFault (sb : FatSb) (henv : env.NoFault) (cs : List ℤ) : ∀ f : NewSlots, (newClusters env sb cs f).1 = true := by
  induction cs with
  | nil =>
    intro _
    exact rfl
  | cons c cs ih =>
    intro f
    have hblocks := newBlocks_noFault sb henv sb.secPerClus (fatClusToBlknr sb c) f
    rw [newClusters]
    generalize newBlocks env sb sb.secPerClus (fatClusToBlknr sb c) f = r at hblocks ⊢
    obtain ⟨ok, f'⟩ := r
    obtain rfl : ok = true := hblocks
    exact ih f'

theorem zeroLoop_noFault (sb : FatSb) (henv : env.NoFault) (dirsync : Bool) (nrBhs left : ℕ) : ∀ (blknr : ℕ) (z : Zeroing),
    (zeroLoop env sb dirsync nrBhs left blknr z).1 = 0 := by
  induction left with
  | zero =>
    intro _ _
    exact rfl
  | succ left ih =>
    intro blknr z
    rw [zeroLoop, if_neg (by simp [henv.getblk])]
    simp only
    split_ifs with hfull hsync herr herr
    · exact absurd (fatSyncBhs_noFault henv _ _).1 herr
    · exact ih _ _
    · exact absurd rfl herr
    · exact ih _ _
    · exact ih _ _

theorem fatZeroedCluster_noFault (henv : env.NoFault) (dirsync : Bool) (s : St) (blknr : ℕ) (bhs : List ℕ) (nrBhs : ℕ) :
    (fatZeroedCluster env sb dirsync s blknr bhs nrBhs).1 = 0 := by
  have hloop := zeroLoop_noFault sb henv dirsync nrBhs (sb.secPerClus - bhs.length) (blknr + bhs.length) ⟨bhs, s⟩
  unfold fatZeroedCluster
  simp only
  generalize zeroLoop env sb dirsync nrBhs (sb.secPerClus - bhs.length) (blknr + bhs.length) ⟨bhs, s⟩ = r at hloop ⊢
  obtain ⟨err, z⟩ := r
  obtain rfl : err = 0 := hloop
  split_ifs
  · exact (fatSyncBhs_noFault henv _ _).1
  · rfl

/-- **New entries get their clusters** when there are enough free ones. -/
theorem fatAddNewEntries_ok (henv : env.NoFault) (hpf : PrevFreeOk sb s) {nr : ℕ} (hnr : 0 < nr) (h2 : nrCluster sb nr ≤ 2)
    (hno : ¬ Refused s (nrCluster sb nr)) (hle : nrCluster sb nr ≤ (freeEntries sb s.vol s.prevFree).length) (dirsync : Bool)
    (slots : List UInt8) : ∃ n, fatAddNewEntries env sb s dirsync slots nr = some n ∧ ¬ n.ret < 0 := by
  have hpos := nrCluster_pos sb hnr
  have h4 : nrCluster sb nr ≤ MAX_BUF_PER_PAGE / 2 := h2.trans (by decide)
  obtain ⟨s1, halloc, hch, -⟩ := fatAllocClusters_ok henv hpf hpos h4 hno hle dirsync
  unfold fatAddNewEntries
  simp only [if_neg (not_lt.2 h2), halloc, if_neg (show ¬ (0 : ℤ) ≠ 0 by simp)]
  generalize (freeEntries sb s.vol s.prevFree).take (nrCluster sb nr) = cs at hch ⊢
  have hnew := newClusters_noFault sb henv cs ⟨[], 0, nr * DENT_SIZE, slots, s1⟩
  generalize newClusters env sb cs ⟨[], 0, nr * DENT_SIZE, slots, s1⟩ = w at hnew ⊢
  obtain ⟨ok, f⟩ := w
  obtain rfl : ok = true := hnew
  simp only
  generalize hz : fatZeroedCluster env sb dirsync _ _ f.bhs MAX_BUF_PER_PAGE = z
  obtain ⟨err, s2⟩ := z
  have hzero : err = 0 := by
    have herr := congrArg Prod.fst hz
    rw [fatZeroedCluster_noFault henv] at herr
    exact herr.symm
  simp only [hzero, if_neg (show ¬ (0 : ℤ) ≠ 0 by simp)]
  refine ⟨_, rfl, ?_⟩
  cases cs with
  | nil => exact lt_irrefl _
  | cons c cs => exact not_lt.2 (hch.inRange c List.mem_cons_self).pos.le

end

end AtsLdd.Fat
