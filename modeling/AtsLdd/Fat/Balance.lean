/-
The references that the calls on a FAT take and give back.

A call is entered with some counts; `Holds base held s` says that beyond these the buffers `held` are in hand, and that no
count has been below them. Each function is described by what it has in hand before and after it, for every environment,
volume and cluster: a `struct fat_entry` has the buffer that it points to, the arrays of buffers have theirs, and a copy of
a `struct fat_entry` has none.

- `fatEntRead_holds`: a lookup moves the reference of the cursor;
- `fatFreeClusters_holds`, `fatAllocClusters_holds`, `fatChainAdd_holds`: the calls have in hand what they had before.
-/
import AtsLdd.Core.Counted
import AtsLdd.Fat.ChainAdd
import AtsLdd.Fat.AllocClusters

namespace AtsLdd.Fat

open AtsLdd.Machine AtsLdd.Counted

/-! ## References in hand -/

/-- the counts of the buffers -/
def St.counts (s : St) : Counts ℕ := ⟨s.refs, s.low⟩

/-- the references in hand, beyond the counts `base` -/
def Holds (base : ℕ → ℤ) (held : Multiset ℕ) (s : St) : Prop := Held base held s.counts

/-- a pointer to a buffer that is in hand, or NULL -/
def inHand (bh : Option ℕ) : Multiset ℕ := bh.toList

@[simp] theorem inHand_none : inHand none = 0 := rfl

@[simp] theorem inHand_some (b : ℕ) : inHand (some b) = {b} := rfl

section
variable {env : Env} {sb : FatSb} {base : ℕ → ℤ} {held : Multiset ℕ} {s : St} {b : ℕ}

theorem Holds.brelse (h : Holds base (b ::ₘ held) s) : Holds base held (brelse s b) := h.give

theorem foldl_brelse_counts (bhs : List ℕ) : ∀ s : St, (bhs.foldl brelse s).counts = bhs.foldl Counts.give s.counts := by
  induction bhs with
  | nil =>
    intro _
    exact rfl
  | cons b bhs ih =>
    intro s
    exact ih (Fat.brelse s b)

/-- the buffers of an array are given back -/
theorem Holds.brelseAll {bhs : List ℕ} (h : Holds base (bhs + held) s) : Holds base held (bhs.foldl Fat.brelse s) := by
  unfold Holds
  rw [foldl_brelse_counts]
  exact h.giveAll

/-- `brelse` of a pointer that may be NULL -/
theorem Holds.brelseHand {bh : Option ℕ} (h : Holds base (inHand bh + held) s) :
    Holds base held (bh.elim s (Fat.brelse s)) := by
  cases bh with
  | none =>
    rw [inHand_none, zero_add] at h
    exact h
  | some b =>
    rw [inHand_some, Multiset.singleton_add] at h
    exact h.brelse

/-- `sb_bread` takes a reference when it reads the block -/
theorem Holds.bread (h : Holds base held s) (env : Env) (b : ℕ) :
    (∃ s', sbBread env s b = (true, s') ∧ Holds base (b ::ₘ held) s') ∨
      ∃ s', sbBread env s b = (false, s') ∧ Holds base held s' := by
  cases hb : env.bread s.t b with
  | true => exact Or.inl ⟨_, sbBread_ok hb, h.take b⟩
  | false => exact Or.inr ⟨_, sbBread_fail hb, h⟩

/-! ## Chains -/

theorem fatentNextSb_holds (h : Holds base held s) (env : Env) (sb : FatSb) (c : ℤ) :
    Holds base held (fatentNextSb env sb s c).2 := by
  unfold fatentNextSb
  rcases h.bread env (fatEntBlocknr sb c).2 with ⟨s', hread, hs'⟩ | ⟨s', hread, hs'⟩
  · simp only [hread]
    exact Holds.brelse hs'
  · simp only [hread]
    exact hs'

theorem fatGetClusterLoop_holds (env : Env) (sb : FatSb) (cluster : ℤ) (fuel : ℕ) : ∀ {s : St} (fclus : ℕ) (dclus : ℤ),
    Holds base held s → Holds base held (fatGetClusterLoop env sb cluster fuel s fclus dclus).s := by
  induction fuel with
  | zero => exact fun _ _ h => h
  | succ fuel ih =>
    intro s fclus dclus h
    have hnext := fatentNextSb_holds h env sb dclus
    rw [fatGetClusterLoop]
    generalize fatentNextSb env sb s dclus = r at hnext
    obtain ⟨link, s'⟩ := r
    split_ifs
    · exact h
    · exact h
    · cases link with
      | none => exact hnext
      | some nclus =>
        simp only
        split_ifs
        · exact hnext
        · exact hnext
        · exact ih (fclus + 1) nclus hnext

theorem fatBmap_holds (h : Holds base held s) (env : Env) (sb : FatSb) (ino : Inode) (sector : ℕ) :
    Holds base held (fatBmap env sb s ino sector).s := by
  have hmap : ∀ cluster, Holds base held (fatBmapCluster env sb s ino cluster).2 := by
    intro cluster
    have hloop := fatGetClusterLoop_holds env sb cluster (clusterLimit sb + 2) 0 ino.iStart h
    unfold fatBmapCluster
    simp only
    split_ifs
    · exact h
    · exact hloop
    · exact hloop
    · exact hloop
  unfold fatBmap
  simp only
  split_ifs
  · exact h
  · exact hmap _
  · exact hmap _
  · exact hmap _

/-! ## The cursor -/

/-- `fatent_brelse` -/
theorem FatEntry.brelse_holds {e : FatEntry} (h : Holds base (inHand e.bh + held) s) :
    (e.brelse s).1.bh = none ∧ Holds base held (e.brelse s).2 := by
  have hgive := h.brelseHand
  unfold FatEntry.brelse
  cases hbh : e.bh with
  | none =>
    rw [hbh] at hgive
    exact ⟨rfl, hgive⟩
  | some b =>
    rw [hbh] at hgive
    exact ⟨rfl, hgive⟩

theorem fatEntBread_holds (h : Holds base held s) (env : Env) (e : FatEntry) (offset blocknr : ℕ) :
    Holds base (inHand (fatEntBread env s e offset blocknr).2.1.bh + held) (fatEntBread env s e offset blocknr).2.2 := by
  unfold fatEntBread
  rcases h.bread env blocknr with ⟨s', hread, hs'⟩ | ⟨s', hread, hs'⟩
  · simp only [hread, inHand_some, Multiset.singleton_add]
    exact hs'
  · simp only [hread, inHand_none, zero_add]
    exact hs'

theorem fatEntReadBlock_holds {e : FatEntry} (h : Holds base (inHand e.bh + held) s) (env : Env) (sb : FatSb) :
    Holds base (inHand (fatEntReadBlock env sb s e).2.1.bh + held) (fatEntReadBlock env sb s e).2.2 :=
  fatEntBread_holds (FatEntry.brelse_holds h).2 env _ _ _

/-- a lookup leaves the buffer of the entry in the cursor, in place of the one that was there -/
theorem fatEntRead_holds {e : FatEntry} (h : Holds base (inHand e.bh + held) s) (env : Env) (sb : FatSb) (entry : ℤ) :
    Holds base (inHand (fatEntRead env sb s e entry).2.1.bh + held) (fatEntRead env sb s e entry).2.2 := by
  unfold fatEntRead
  by_cases hrange : entry < FAT_START_ENT ∨ (sb.maxCluster : ℤ) ≤ entry
  · obtain ⟨hbh, hgive⟩ := FatEntry.brelse_holds h
    rw [if_pos hrange]
    simp only [hbh, inHand_none, zero_add]
    exact hgive
  · rw [if_neg hrange]
    simp only
    by_cases hsame : (e.setEntry entry).bh = some (fatEntBlocknr sb entry).2
    · rw [if_pos hsame]
      exact h
    · rw [if_neg hsame]
      have hset : Holds base (inHand (e.setEntry entry).bh + held) s := h
      have hread := fatEntBread_holds (FatEntry.brelse_holds hset).2 env ((e.setEntry entry).brelse s).1
        (fatEntBlocknr sb entry).1 (fatEntBlocknr sb entry).2
      generalize fatEntBread env _ _ _ _ = r at hread ⊢
      obtain ⟨ok, e', s'⟩ := r
      cases ok with
      | true => exact hread
      | false => exact hread

theorem FatEntry.get_nonneg (e : FatEntry) (s : St) : 0 ≤ e.get s := by
  unfold FatEntry.get
  split
  · exact (fat32EntGet_bounds _ _).1
  · exact le_rfl

/-- a lookup that fails leaves no buffer in the cursor -/
theorem fatEntRead_neg {e : FatEntry} {entry : ℤ} (hneg : (fatEntRead env sb s e entry).1 < 0) :
    (fatEntRead env sb s e entry).2.1.bh = none := by
  unfold fatEntRead at hneg ⊢
  by_cases hrange : entry < FAT_START_ENT ∨ (sb.maxCluster : ℤ) ≤ entry
  · rw [if_pos hrange]
    unfold FatEntry.brelse
    cases e.bh with
    | none => rfl
    | some b => rfl
  · rw [if_neg hrange] at hneg ⊢
    simp only at hneg ⊢
    by_cases hsame : (e.setEntry entry).bh = some (fatEntBlocknr sb entry).2
    · rw [if_pos hsame] at hneg
      exact absurd hneg (not_lt.2 (FatEntry.get_nonneg _ _))
    · rw [if_neg hsame] at hneg ⊢
      unfold fatEntBread at hneg ⊢
      generalize sbBread env _ _ = r at hneg ⊢
      obtain ⟨ok, s'⟩ := r
      cases ok with
      | true =>
        simp only at hneg
        exact absurd hneg (not_lt.2 (FatEntry.get_nonneg _ _))
      | false => rfl

/-- storing a link touches no count -/
theorem FatEntry.put_holds (h : Holds base held s) (e : FatEntry) (new : ℤ) : Holds base held (e.put s new) := by
  unfold FatEntry.put
  split
  · exact h
  · exact h

theorem fatEntNext_bh (sb : FatSb) (e : FatEntry) : (fatEntNext sb e).2.bh = e.bh := by
  unfold fatEntNext fat32EntNext
  simp only
  split
  · rfl
  · split_ifs <;> rfl

/-! ## Writing buffers -/

/-- the buffers collected are in hand -/
theorem fatCollectBhs_holds {bhs : List ℕ} (h : Holds base (bhs + held) s) (e : FatEntry) :
    Holds base ((fatCollectBhs bhs s e).1 + held) (fatCollectBhs bhs s e).2 := by
  unfold fatCollectBhs
  cases e.bh with
  | none => exact h
  | some b =>
    simp only
    split_ifs
    · exact h
    · exact Held.takeLast h b

theorem syncDirtyBuffer_holds (h : Holds base held s) (env : Env) (b : ℕ) : Holds base held (syncDirtyBuffer env s b).2 := by
  unfold syncDirtyBuffer
  split_ifs
  · exact h
  · exact h

theorem fatSyncBhs_holds (env : Env) (bhs : List ℕ) : ∀ {s : St}, Holds base held s →
    Holds base held (fatSyncBhs env s bhs).2 := by
  induction bhs with
  | nil => exact fun h => h
  | cons b bhs ih => exact fun h => ih (syncDirtyBuffer_holds h env b)

/-- the buffer of the copy is in hand only while it is written -/
theorem fatMirrorCopy_holds (env : Env) (sb : FatSb) (backupFat : ℕ) (bhs : List ℕ) : ∀ {s : St}, Holds base held s →
    Holds base held (fatMirrorCopy env sb backupFat s bhs).2 := by
  induction bhs with
  | nil => exact fun h => h
  | cons b bhs ih =>
    intro s h
    rw [fatMirrorCopy]
    by_cases hget : env.getblk s.t = false
    · rw [if_pos hget]
      exact h
    · rw [if_neg hget]
      simp only
      set c := sectorAdd backupFat b
      set s1 : St := { s with
        t := s.t + 1, refs := Function.update s.refs c (s.refs c + 1), vol := Function.update s.vol c (s.vol b) }
      have htaken : Holds base (c ::ₘ held) s1 := h.take c
      have hwrite : Holds base (c ::ₘ held) (if sb.synchronous then syncDirtyBuffer env s1 c else (true, s1)).2 := by
        split_ifs
        · exact syncDirtyBuffer_holds htaken env c
        · exact htaken
      generalize (if sb.synchronous then syncDirtyBuffer env s1 c else (true, s1)) = r at hwrite ⊢
      split_ifs
      · exact ih hwrite.brelse
      · exact hwrite.brelse

theorem fatMirrorLoop_holds (env : Env) (sb : FatSb) (bhs : List ℕ) (left : ℕ) : ∀ (copy : ℕ) {s : St}, Holds base held s →
    Holds base held (fatMirrorLoop env sb bhs left copy s).2 := by
  induction left with
  | zero =>
    intro _ _ h
    exact h
  | succ left ih =>
    intro copy s h
    have hcopy := fatMirrorCopy_holds env sb (sb.fatLength * copy) bhs h
    rw [fatMirrorLoop]
    generalize fatMirrorCopy env sb (sb.fatLength * copy) s bhs = r at hcopy ⊢
    obtain ⟨err, s'⟩ := r
    simp only
    split_ifs
    · exact hcopy
    · exact ih (copy + 1) hcopy

theorem fatWriteBhs_holds (h : Holds base held s) (env : Env) (sb : FatSb) (bhs : List ℕ) (sync : Bool) :
    Holds base held (fatWriteBhs env sb s bhs sync).2 := by
  have hsync : Holds base held (if sync then fatSyncBhs env s bhs else (0, s)).2 := by
    split_ifs
    · exact fatSyncBhs_holds env bhs h
    · exact h
  unfold fatWriteBhs
  simp only
  generalize (if sync then fatSyncBhs env s bhs else (0, s)) = r at hsync ⊢
  split_ifs
  · exact hsync
  · exact fatMirrorLoop_holds env sb bhs (sb.fats - 1) 1 hsync

/-! ## Freeing a chain -/

/-- what the loop of `fat_free_clusters` has in hand -/
def Free.hand (f : Free) : Multiset ℕ := inHand f.fatent.bh + f.bhs

theorem flushBhs_holds {f : Free} (h : Holds base (f.hand + held) f.s) (env : Env) (sb : FatSb) :
    Holds base ((flushBhs env sb f).2.hand + held) (flushBhs env sb f).2.s := by
  unfold flushBhs
  split_ifs
  · have hwrite := fatWriteBhs_holds h env sb f.bhs sb.synchronous
    generalize fatWriteBhs env sb f.s f.bhs sb.synchronous = r at hwrite ⊢
    obtain ⟨err, s'⟩ := r
    simp only
    split_ifs
    · exact hwrite
    · unfold Free.hand at hwrite ⊢
      rw [add_comm (inHand f.fatent.bh), add_assoc] at hwrite
      simp only [Multiset.coe_nil, add_zero]
      exact hwrite.brelseAll
  · exact h

theorem Free.collect_holds {f : Free} (h : Holds base (f.hand + held) f.s) : Holds base (f.collect.hand + held) f.collect.s := by
  unfold Free.hand at h
  rw [add_comm (inHand f.fatent.bh), add_assoc] at h
  have hcollect := fatCollectBhs_holds h f.fatent
  rw [← add_assoc, add_comm _ (inHand f.fatent.bh)] at hcollect
  exact hcollect

theorem putFree_holds {f : Free} (h : Holds base (f.hand + held) f.s) (sb : FatSb) (cluster : ℤ) :
    Holds base ((putFree (issueDiscard sb f cluster)).hand + held) (putFree (issueDiscard sb f cluster)).s := by
  have hdiscard : Holds base ((issueDiscard sb f cluster).hand + held) (issueDiscard sb f cluster).s := by
    unfold issueDiscard
    split_ifs
    · exact h
    · exact h
  exact FatEntry.put_holds hdiscard (issueDiscard sb f cluster).fatent FAT_ENT_FREE

theorem fatFreeLoop_holds (env : Env) (sb : FatSb) (fuel : ℕ) : ∀ (cluster : ℤ) {f : Free}, Holds base (f.hand + held) f.s →
    Holds base ((fatFreeLoop env sb fuel cluster f).2.hand + held) (fatFreeLoop env sb fuel cluster f).2.s := by
  induction fuel with
  | zero =>
    intro _ _ h
    exact h
  | succ fuel ih =>
    intro cluster f h
    unfold Free.hand at h
    rw [add_assoc] at h
    have hread := fatEntRead_holds h env sb cluster
    rw [← add_assoc] at hread
    rw [fatFreeLoop]
    generalize fatEntRead env sb f.s f.fatent cluster = r at hread ⊢
    obtain ⟨next, e, s'⟩ := r
    simp only
    set f1 : Free := { f with fatent := e, s := s' } with hf1
    have hf1' : Holds base (f1.hand + held) f1.s := hread
    by_cases hneg : next < 0
    · rw [if_pos hneg]
      exact hf1'
    rw [if_neg hneg]
    by_cases hfree : next = FAT_ENT_FREE
    · rw [if_pos hfree]
      exact hf1'
    rw [if_neg hfree]
    have hflush := flushBhs_holds (putFree_holds hf1' sb next) env sb
    generalize flushBhs env sb (putFree (issueDiscard sb f1 next)) = w at hflush ⊢
    split_ifs
    · exact hflush
    · exact Free.collect_holds hflush
    · exact ih next (Free.collect_holds hflush)

/-- **`fat_free_clusters`** has in hand what it had before. -/
theorem fatFreeClusters_holds (h : Holds base held s) (env : Env) (sb : FatSb) (cluster : ℤ) :
    Holds base held (fatFreeClusters env sb s cluster).2 := by
  have hstart : Holds base ((⟨fatentInit, [], cluster, s⟩ : Free).hand + held) s := by
    change Holds base (0 + 0 + held) s
    rwa [zero_add, zero_add]
  have hloop := fatFreeLoop_holds env sb sb.maxCluster cluster hstart
  unfold fatFreeClusters
  generalize fatFreeLoop env sb sb.maxCluster cluster ⟨fatentInit, [], cluster, s⟩ = r at hloop ⊢
  obtain ⟨err, f⟩ := r
  simp only at hloop ⊢
  have hwrite : Holds base (f.hand + held) (if err ≠ 0 then (err, f.s) else fatWriteBhs env sb f.s f.bhs sb.synchronous).2 := by
    split_ifs
    · exact hloop
    · exact fatWriteBhs_holds hloop env sb f.bhs sb.synchronous
  unfold Free.hand at hwrite
  rw [add_assoc] at hwrite
  exact (FatEntry.brelse_holds hwrite).2.brelseAll

/-! ## Allocating clusters -/

/-- what `fat_alloc_clusters` has in hand; `prev_ent` is a copy without a reference -/
def Alloc.hand (a : Alloc) : Multiset ℕ := inHand a.fatent.bh + a.bhs

theorem allocReadBlock_holds {a : Alloc} (h : Holds base (a.hand + held) a.s) (env : Env) (sb : FatSb) :
    Holds base ((allocReadBlock env sb a).2.hand + held) (allocReadBlock env sb a).2.s := by
  unfold Alloc.hand at h
  rw [add_assoc] at h
  have hread := fun entry => @fatEntReadBlock_holds base _ a.s (a.fatent.setEntry entry) h env sb
  simp only [← add_assoc] at hread
  exact hread _

theorem takeFree_holds {a : Alloc} (h : Holds base (a.hand + held) a.s) :
    Holds base ((takeFree a).hand + held) (takeFree a).s := by
  unfold Alloc.hand at h
  rw [add_comm (inHand a.fatent.bh), add_assoc] at h
  have hput := FatEntry.put_holds h a.fatent FAT_ENT_EOF
  have hprev : Holds base (a.bhs + (inHand a.fatent.bh + held))
      (if a.prevEnt.bh.isSome then a.prevEnt.put (a.fatent.put a.s FAT_ENT_EOF) a.fatent.entry
        else a.fatent.put a.s FAT_ENT_EOF) := by
    split_ifs
    · exact FatEntry.put_holds hput a.prevEnt a.fatent.entry
    · exact hput
  have hcollect := fatCollectBhs_holds hprev a.fatent
  rw [← add_assoc, add_comm _ (inHand a.fatent.bh)] at hcollect
  exact hcollect

theorem fatAllocLoop_holds (env : Env) (sb : FatSb) (nr left : ℕ) : ∀ (more : Bool) {a : Alloc},
    Holds base (a.hand + held) a.s →
    Holds base ((fatAllocLoop env sb nr left more a).2.hand + held) (fatAllocLoop env sb nr left more a).2.s := by
  induction left with
  | zero =>
    intro _ _ h
    exact h
  | succ left ih =>
    intro more a h
    have hblock : Holds base ((if more then (true, a) else allocReadBlock env sb a).2.hand + held)
        (if more then (true, a) else allocReadBlock env sb a).2.s := by
      split_ifs
      · exact h
      · exact allocReadBlock_holds h env sb
    -- the cursor is stepped within its buffer
    have hstep : ∀ {a : Alloc} (prev : FatEntry), Holds base (a.hand + held) a.s →
        Holds base (({ a with prevEnt := prev, fatent := (fatEntNext sb a.fatent).2 } : Alloc).hand + held) a.s := by
      intro a prev ha
      unfold Alloc.hand at ha ⊢
      rwa [fatEntNext_bh]
    rw [fatAllocLoop]
    generalize (if more then (true, a) else allocReadBlock env sb a) = r at hblock ⊢
    obtain ⟨ok, a1⟩ := r
    cases ok with
    | false => exact hblock
    | true =>
      simp only
      split_ifs
      · exact takeFree_holds hblock
      · exact ih _ (hstep _ (takeFree_holds hblock))
      · exact ih _ (hstep _ hblock)

theorem allocOut_holds {r : ℤ × Alloc} (h : Holds base (r.2.hand + held) r.2.s) (env : Env) (sb : FatSb)
    (needsSync : Bool) : Holds base held (allocOut env sb needsSync r).s := by
  obtain ⟨err, a⟩ := r
  unfold Alloc.hand at h
  rw [add_assoc] at h
  have hgive := (FatEntry.brelse_holds h).2
  have hwrite : Holds base (a.bhs + held)
      (if err = 0 then fatWriteBhs env sb (a.fatent.brelse a.s).2 a.bhs needsSync else (err, (a.fatent.brelse a.s).2)).2 := by
    split_ifs
    · exact fatWriteBhs_holds hgive env sb a.bhs needsSync
    · exact hgive
  unfold allocOut
  simp only
  generalize (if err = 0 then fatWriteBhs env sb (a.fatent.brelse a.s).2 a.bhs needsSync
    else (err, (a.fatent.brelse a.s).2)) = w at hwrite ⊢
  have hall := hwrite.brelseAll
  cases a.cluster with
  | nil => exact hall
  | cons c cs =>
    simp only
    split_ifs
    · exact fatFreeClusters_holds hall env sb c
    · exact hall

/-- **`fat_alloc_clusters`** has in hand what it had before. -/
theorem fatAllocClusters_holds (h : Holds base held s) {needsSync : Bool} {nr : ℕ} {r : AllocClusters}
    (hr : fatAllocClusters env sb s needsSync nr = some r) : Holds base held r.s := by
  have hstart : Holds base ((allocStart s).hand + held) s := by
    change Holds base (0 + 0 + held) s
    rwa [zero_add, zero_add]
  unfold fatAllocClusters at hr
  split_ifs at hr
  · obtain rfl := Option.some.inj hr
    exact h
  · obtain rfl := Option.some.inj hr
    exact allocOut_holds (fatAllocLoop_holds env sb nr (sb.maxCluster - 2) false hstart) env sb needsSync

/-! ## Growing a chain -/

/-- a block that is read, changed and written is in hand only in between -/
theorem fatSyncInode_holds (h : Holds base held s) (env : Env) (sb : FatSb) (dir : DirInode) :
    Holds base held (fatSyncInode env sb s dir).2 := by
  unfold fatSyncInode
  split_ifs
  · exact h
  · exact h
  · rcases h.bread env (iPosBlock sb dir.iPos) with ⟨s', hread, hs'⟩ | ⟨s', hread, hs'⟩
    · simp only [hread]
      refine Holds.brelse (syncDirtyBuffer_holds ?_ env _)
      exact hs'
    · simp only [hread]
      exact hs'

/-- **`fat_chain_add`** has in hand what it had before. -/
theorem fatChainAdd_holds (h : Holds base held s) (env : Env) (sb : FatSb) (dir : DirInode) (newDclus : ℤ) (nr : ℕ) :
    Holds base held (fatChainAdd env sb s dir newDclus nr).s := by
  have hlast : Holds base held (lastCluster env sb s dir).2.2 := by
    unfold lastCluster
    split_ifs
    · exact fatGetClusterLoop_holds env sb FAT_ENT_EOF (clusterLimit sb + 2) 0 dir.iStart h
    · exact h
  unfold fatChainAdd
  generalize lastCluster env sb s dir = r at hlast ⊢
  obtain ⟨ret, last, s1⟩ := r
  simp only at hlast ⊢
  by_cases hneg : ret < 0
  · rw [if_pos hneg]
    exact hlast
  rw [if_neg hneg]
  by_cases hzero : last ≠ 0
  · rw [if_pos hzero]
    have hinit : Holds base (inHand fatentInit.bh + held) s1 := by
      change Holds base (0 + held) s1
      rwa [zero_add]
    have hread := fatEntRead_holds hinit env sb last
    have hnone : (fatEntRead env sb s1 fatentInit last).1 < 0 → _ := fatEntRead_neg
    generalize fatEntRead env sb s1 fatentInit last = w at hread hnone ⊢
    obtain ⟨ret, e, s2⟩ := w
    simp only at hread hnone ⊢
    by_cases hfail : ret < 0
    · rw [if_pos hfail]
      rw [hnone hfail, inHand_none, zero_add] at hread
      exact hread
    · rw [if_neg hfail]
      have hwrite : Holds base (inHand e.bh + held) (fatEntWrite env sb s2 e newDclus true).2 :=
        fatWriteBhs_holds (FatEntry.put_holds hread e newDclus) env sb e.bh.toList true
      split_ifs
      · exact (FatEntry.brelse_holds hwrite).2
      · exact (FatEntry.brelse_holds hwrite).2
  · rw [if_neg hzero]
    have hsync : ∀ dir : DirInode, Holds base held (if dir.dirsync then fatSyncInode env sb s1 dir else (0, s1)).2 := by
      intro dir
      split_ifs
      · exact fatSyncInode_holds hlast env sb dir
      · exact hlast
    have hsynced := hsync { dir with iStart := newDclus, iLogstart := newDclus }
    by_cases hret : (if dir.dirsync then fatSyncInode env sb s1 { dir with iStart := newDclus, iLogstart := newDclus }
      else (0, s1)).1 ≠ 0
    · rw [if_pos hret]
      exact hsynced
    · rw [if_neg hret]
      exact hsynced

end

end AtsLdd.Fat
