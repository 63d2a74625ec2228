/-
What a call that fails on the way leaves of a volume: the FAT and the slots of a directory, in the buffer cache and, when a
write can fail, on the device.

- `StKept`: free clusters lead to free ones or nowhere, used ones are not freed, given links stay, and so do the live entries
  of the directory;
- `fatFreeClusters_kept`, `fatAllocClusters_kept`, `fatAddNewEntries_kept`: each operation keeps it, whatever fails.
-/
import AtsLdd.Core.WriteBack
import AtsLdd.Fat.DataBlocks
import AtsLdd.Fat.DirReads
import AtsLdd.Fat.SlotsAdded
import AtsLdd.Fat.Release

namespace AtsLdd.Fat

open AtsLdd.Machine AtsLdd.ByteMap AtsLdd.LinkTable AtsLdd.WriteBack

/-! ## What is kept -/

/-- cluster `c` is free -/
def WasFree (sb : FatSb) (vol : Vol) (c : ℤ) : Prop := InRange sb c ∧ fatLink sb vol c = FAT_ENT_FREE

/-- what `buf` may be as the contents of block `b`: the links of the clusters `ks` and the live entries of the directory of the
clusters `l` are those of `vol` -/
structure BlockKept (sb : FatSb) (l ks : List ℤ) (vol : Vol) (b : ℕ) (buf : Buf) : Prop where
  /-- a cluster that was free may have been taken, for a chain of such clusters -/
  free : ∀ x, WasFree sb vol x → (fatEntBlocknr sb x).2 = b →
    linkIn sb buf x = FAT_ENT_FREE ∨ linkIn sb buf x = FAT_ENT_EOF ∨ WasFree sb vol (linkIn sb buf x)
  used : ∀ x, InRange sb x → fatLink sb vol x ≠ FAT_ENT_FREE → (fatEntBlocknr sb x).2 = b → linkIn sb buf x ≠ FAT_ENT_FREE
  link : ∀ x ∈ ks, InRange sb x → (fatEntBlocknr sb x).2 = b → linkIn sb buf x = fatLink sb vol x
  slots : ∀ i < nrSlots sb l, slotBlock sb l i = b →
    SlotKept (fun k => vol b (slotOff sb i + k)) fun k => buf (slotOff sb i + k)

/-- the blocks that matter: those of the first FAT, and of the directory -/
def Watched (sb : FatSb) (l : List ℤ) (b : ℕ) : Prop := InFat sb b ∨ ∃ q < nrBlocks sb l, b = dirBlock sb l q

/-- a write of such a block can fail -/
def WriteFails (env : Env) (sb : FatSb) (l : List ℤ) : Prop := ∃ t b, env.sync t b = false ∧ Watched sb l b

/-- every block is as `BlockKept` says, and as the device has it, if a write can fail -/
def StKept (env : Env) (sb : FatSb) (l ks : List ℤ) (vol : Vol) (s : St) : Prop :=
  Kept (BlockKept sb l ks vol) (WriteFails env sb l) s.vol s.disk

section
variable {env : Env} {sb : FatSb} {l ks : List ℤ} {vol : Vol} {s s' : St} {b : ℕ} {buf : Buf} {c : ℤ}

theorem BlockKept.refl (sb : FatSb) (l ks : List ℤ) (vol : Vol) (b : ℕ) : BlockKept sb l ks vol b (vol b) where
  free := fun x hx hb => Or.inl (by rw [← hb]; exact hx.2)
  used := fun x _ hne hb => by rw [← hb]; exact hne
  link := fun x _ _ hb => by rw [← hb]; rfl
  slots := fun i _ _ => SlotKept.refl _

/-- a block that does not matter -/
theorem blockKept_outside (hb : ¬ Watched sb l b) (buf : Buf) : BlockKept sb l ks vol b buf where
  free := fun _ hx hxb => absurd (Or.inl (hxb ▸ fatEntBlocknr_inFat hx.1)) hb
  used := fun _ hx _ hxb => absurd (Or.inl (hxb ▸ fatEntBlocknr_inFat hx)) hb
  link := fun _ _ hx hxb => absurd (Or.inl (hxb ▸ fatEntBlocknr_inFat hx)) hb
  slots := fun _ hi hib => absurd (Or.inr ⟨_, slot_block hi, hib.symm⟩) hb

/-- the link of a cluster in a block to which one entry was stored -/
theorem linkIn_put {x : ℤ} (hc : InRange sb c) (hx : InRange sb x) (hb : (fatEntBlocknr sb x).2 = (fatEntBlocknr sb c).2) {new : ℤ}
    (hnew : Storable new) (buf : Buf) : linkIn sb (fat32EntPut buf (fatEntBlocknr sb c).1 new) x =
      if x = c then readBack new else linkIn sb buf x := by
  unfold linkIn
  by_cases hxc : x = c
  · rw [if_pos hxc, hxc]
    exact fat32EntGet_fat32EntPut _ _ hnew
  · rw [if_neg hxc]
    exact fat32EntGet_fat32EntPut_of_ne _ _ (fatEntBlocknr_ne hc hx (fun h => hxc h.symm) hb)

/-- **A store to a FAT entry** that is not one of those to keep. -/
theorem BlockKept.put (h : BlockKept sb l ks vol (fatEntBlocknr sb c).2 buf) (hl : ∀ x ∈ l, InRange sb x) (hc : InRange sb c)
    (hks : c ∉ ks) {new : ℤ} (hnew : Storable new)
    (hfree : fatLink sb vol c = FAT_ENT_FREE →
      readBack new = FAT_ENT_FREE ∨ readBack new = FAT_ENT_EOF ∨ WasFree sb vol (readBack new))
    (hused : fatLink sb vol c ≠ FAT_ENT_FREE → readBack new ≠ FAT_ENT_FREE) :
    BlockKept sb l ks vol (fatEntBlocknr sb c).2 (fat32EntPut buf (fatEntBlocknr sb c).1 new) where
  free := by
    intro x hx hxb
    rw [linkIn_put hc hx.1 hxb hnew]
    split_ifs with hxc
    · exact hfree (hxc ▸ hx.2)
    · exact h.free x hx hxb
  used := by
    intro x hx hne hxb
    rw [linkIn_put hc hx hxb hnew]
    split_ifs with hxc
    · exact hused (hxc ▸ hne)
    · exact h.used x hx hne hxb
  link := by
    intro x hxks hx hxb
    rw [linkIn_put hc hx hxb hnew, if_neg fun hxc : x = c => hks (hxc ▸ hxks)]
    exact h.link x hxks hx hxb
  slots := by
    intro i hi hib
    have hdata := dataStart_le_dirBlock hl (slot_block hi)
    have hfat := fatEntBlocknr_inFat hc
    exact absurd hfat (not_inFat_of_le (hib ▸ hdata))

/-! ## States -/

theorem StKept.of_looked (h : StKept env sb l ks vol s) (hlook : Looked s s') : StKept env sb l ks vol s' := by
  unfold StKept
  rw [hlook.vol, hlook.disk]
  exact h

/-- the links and the slots, as they are read -/
theorem StKept.link_free (h : StKept env sb l ks vol s) (hc : WasFree sb vol c) :
    fatLink sb s.vol c = FAT_ENT_FREE ∨ fatLink sb s.vol c = FAT_ENT_EOF ∨ WasFree sb vol (fatLink sb s.vol c) :=
  (h.cache _).free c hc rfl

theorem StKept.wasFree (h : StKept env sb l ks vol s) (hc : InRange sb c) (hfree : fatLink sb s.vol c = FAT_ENT_FREE) :
    WasFree sb vol c := by
  refine ⟨hc, ?_⟩
  by_contra hne
  exact (h.cache _).used c hc hne rfl hfree

theorem StKept.link_eq (h : StKept env sb l ks vol s) (hks : c ∈ ks) (hc : InRange sb c) : fatLink sb s.vol c = fatLink sb vol c :=
  (h.cache _).link c hks hc rfl

theorem StKept.slot (h : StKept env sb l ks vol s) {i : ℕ} (hi : i < nrSlots sb l) :
    SlotKept (slot sb l vol i) (slot sb l s.vol i) :=
  (h.cache _).slots i hi rfl

/-- a block that does not matter is stored -/
theorem StKept.store (h : StKept env sb l ks vol s) (hb : ¬ Watched sb l b) (buf : Buf) (refs : ℕ → ℤ) (t : ℕ) :
    StKept env sb l ks vol { s with vol := Function.update s.vol b buf, refs := refs, t := t } :=
  Kept.store h (blockKept_outside hb buf)

/-- **A FAT entry is stored.** -/
theorem StKept.put (h : StKept env sb l ks vol s) (hl : ∀ x ∈ l, InRange sb x) {e : FatEntry} (hat : e.At sb c) (hc : InRange sb c)
    (hks : c ∉ ks) {new : ℤ} (hnew : Storable new)
    (hfree : fatLink sb vol c = FAT_ENT_FREE →
      readBack new = FAT_ENT_FREE ∨ readBack new = FAT_ENT_EOF ∨ WasFree sb vol (readBack new))
    (hused : fatLink sb vol c ≠ FAT_ENT_FREE → readBack new ≠ FAT_ENT_FREE) : StKept env sb l ks vol (e.put s new) := by
  rw [hat.put]
  exact Kept.store h ((h.cache _).put hl hc hks hnew hfree hused)

/-- **A buffer is written**, or is not. -/
theorem syncDirtyBuffer_kept (h : StKept env sb l ks vol s) (b : ℕ) : StKept env sb l ks vol (syncDirtyBuffer env s b).2 := by
  unfold syncDirtyBuffer
  cases hsync : env.sync s.t b with
  | true => exact Kept.written h b
  | false =>
    apply Kept.dropped h
    by_cases hb : Watched sb l b
    · exact Or.inl ⟨_, b, hsync, hb⟩
    · exact Or.inr (blockKept_outside hb)

theorem fatSyncBhs_kept (bhs : List ℕ) : ∀ {s : St}, StKept env sb l ks vol s → StKept env sb l ks vol (fatSyncBhs env s bhs).2 := by
  induction bhs with
  | nil => exact fun h => h
  | cons b bhs ih => exact fun h => ih (syncDirtyBuffer_kept h b)

/-- the blocks of the other FATs do not matter -/
theorem copy_not_watched (hl : ∀ x ∈ l, InRange sb x) {copy : ℕ} (h1 : 1 ≤ copy) (hcopy : copy < sb.fats) (hb : InFat sb b) :
    ¬ Watched sb l (sectorAdd (sb.fatLength * copy) b) := by
  rintro (hin | ⟨q, hq, heq⟩)
  · exact backup_not_inFat h1 hcopy hb hin
  · have hlt : sectorAdd (sb.fatLength * copy) b < sb.dataStart := (fatCopy_inFats hcopy hb).lt_dataStart
    have hle := dataStart_le_dirBlock hl hq
    rw [heq] at hlt
    exact absurd hlt (not_lt.2 hle)

theorem fatMirrorCopy_kept (hl : ∀ x ∈ l, InRange sb x) {copy : ℕ} (h1 : 1 ≤ copy) (hcopy : copy < sb.fats) {bhs : List ℕ}
    (hbhs : BhsInFat sb bhs) : ∀ {s : St}, StKept env sb l ks vol s →
    StKept env sb l ks vol (fatMirrorCopy env sb (sb.fatLength * copy) s bhs).2 := by
  induction bhs with
  | nil => exact fun h => h
  | cons b bhs ih =>
    obtain ⟨hb, hrest⟩ := List.forall_mem_cons.1 hbhs
    intro s h
    have hout := copy_not_watched hl h1 hcopy hb
    rw [fatMirrorCopy]
    by_cases hget : env.getblk s.t = false
    · rw [if_pos hget]
      exact h
    rw [if_neg hget]
    simp only
    have hstore := h.store hout (s.vol b) (Function.update s.refs (sectorAdd (sb.fatLength * copy) b)
      (s.refs (sectorAdd (sb.fatLength * copy) b) + 1)) (s.t + 1)
    generalize ({ s with
      t := s.t + 1
      refs := Function.update s.refs (sectorAdd (sb.fatLength * copy) b) (s.refs (sectorAdd (sb.fatLength * copy) b) + 1)
      vol := Function.update s.vol (sectorAdd (sb.fatLength * copy) b) (s.vol b) } : St) = s1 at hstore ⊢
    have hsync : StKept env sb l ks vol (if sb.synchronous then syncDirtyBuffer env s1 (sectorAdd (sb.fatLength * copy) b)
        else (true, s1)).2 := by
      split_ifs
      · exact syncDirtyBuffer_kept hstore _
      · exact hstore
    generalize (if sb.synchronous then syncDirtyBuffer env s1 (sectorAdd (sb.fatLength * copy) b) else (true, s1)) = r
      at hsync ⊢
    obtain ⟨ok, s2⟩ := r
    have hrel : StKept env sb l ks vol (brelse s2 (sectorAdd (sb.fatLength * copy) b)) := hsync
    cases ok with
    | true => exact ih hrest hrel
    | false => exact hrel

theorem fatMirrorLoop_kept (hl : ∀ x ∈ l, InRange sb x) {bhs : List ℕ} (hbhs : BhsInFat sb bhs) (left : ℕ) :
    ∀ {copy : ℕ} {s : St}, 1 ≤ copy → copy + left ≤ sb.fats → StKept env sb l ks vol s →
    StKept env sb l ks vol (fatMirrorLoop env sb bhs left copy s).2 := by
  induction left with
  | zero => exact fun _ _ h => h
  | succ left ih =>
    intro copy s h1 hle h
    have hcopy := fatMirrorCopy_kept hl h1 (show copy < sb.fats by omega) hbhs h
    rw [fatMirrorLoop]
    generalize fatMirrorCopy env sb (sb.fatLength * copy) s bhs = r at hcopy ⊢
    simp only
    split_ifs
    · exact hcopy
    · exact ih (Nat.le_succ_of_le h1) (by omega) hcopy

/-- **Buffers of the FAT are written**, whatever fails. -/
theorem fatWriteBhs_kept (hl : ∀ x ∈ l, InRange sb x) {bhs : List ℕ} (hbhs : BhsInFat sb bhs) (h : StKept env sb l ks vol s)
    (sync : Bool) : StKept env sb l ks vol (fatWriteBhs env sb s bhs sync).2 := by
  have hmirror : ∀ {s : St}, StKept env sb l ks vol s → StKept env sb l ks vol (fatMirrorBhs env sb s bhs).2 :=
    fun h => fatMirrorLoop_kept hl hbhs _ le_rfl (Nat.add_sub_cancel' sb.fats_pos).le h
  unfold fatWriteBhs
  cases sync with
  | false => exact hmirror h
  | true =>
    have hsync := fatSyncBhs_kept bhs h
    simp only [if_true]
    split_ifs
    · exact hsync
    · exact hmirror hsync

/-! ## Releases -/

/-- the entry in hand is freed -/
theorem putFree_kept (hl : ∀ x ∈ l, InRange sb x) {f : Free} (hat : f.fatent.At sb c) (hc : WasFree sb vol c) (hks : c ∉ ks)
    (h : StKept env sb l ks vol f.s) (next : ℤ) : StKept env sb l ks vol (putFree (issueDiscard sb f next)).s := by
  have hput : ∀ s1 : St, s1.vol = f.s.vol → s1.disk = f.s.disk → StKept env sb l ks vol (f.fatent.put s1 FAT_ENT_FREE) := by
    intro s1 hvol hdisk
    have h1 : StKept env sb l ks vol s1 := by
      unfold StKept
      rw [hvol, hdisk]
      exact h
    exact h1.put hl hat hc.1 hks Storable.free (fun _ => Or.inl readBack_free) fun hne => absurd hc.2 hne
  unfold issueDiscard
  split_ifs
  · exact hput { f.s with discards := _ } rfl rfl
  · exact hput f.s rfl rfl

theorem flushBhs_kept (hl : ∀ x ∈ l, InRange sb x) {f : Free} (hbhs : BhsInFat sb f.bhs) (h : StKept env sb l ks vol f.s) :
    StKept env sb l ks vol (flushBhs env sb f).2.s := by
  have hwrite := fatWriteBhs_kept hl hbhs h sb.synchronous
  unfold flushBhs
  by_cases hfull : MAX_BUF_PER_PAGE < f.bhs.length + f.fatent.bh.toList.length
  · rw [if_pos hfull]
    generalize fatWriteBhs env sb f.s f.bhs sb.synchronous = r at hwrite ⊢
    by_cases hr : r.1 ≠ 0
    · simp only [if_pos hr]
      exact hwrite
    · simp only [if_neg hr]
      exact hwrite.of_looked (foldl_brelse_looked f.bhs r.2)
  · rw [if_neg hfull]
    exact h

theorem fatCollectBhs_looked (bhs : List ℕ) (s : St) (e : FatEntry) : Looked s (fatCollectBhs bhs s e).2 := by
  unfold fatCollectBhs
  rcases e with ⟨entry, _ | b, ptr⟩
  · exact Looked.refl s
  · simp only
    split_ifs
    · exact Looked.refl s
    · rfl

/-- **Releasing clusters that were free** gets to such clusters only. -/
theorem fatFreeLoop_kept (hl : ∀ x ∈ l, InRange sb x) (hks : ∀ x ∈ ks, ¬ WasFree sb vol x) (fuel : ℕ) :
    ∀ {c : ℤ} {f : Free}, WasFree sb vol c → BhsInFat sb f.bhs → StKept env sb l ks vol f.s →
    StKept env sb l ks vol (fatFreeLoop env sb fuel c f).2.s ∧ BhsInFat sb (fatFreeLoop env sb fuel c f).2.bhs := by
  induction fuel with
  | zero => exact fun _ hbhs h => ⟨h, hbhs⟩
  | succ fuel ih =>
    intro c f hc hbhs h
    obtain ⟨hlook, -⟩ := fatEntRead_looked env sb f.s f.fatent c
    obtain ⟨v, e, s1, hres, -, hv⟩ := fatEntRead_any env sb f.s f.fatent c
    rw [fatFreeLoop]
    simp only [hres] at hlook ⊢
    have h1 := h.of_looked hlook
    by_cases hneg : v < 0
    · simp only [if_pos hneg]
      exact ⟨h1, hbhs⟩
    by_cases hfree : v = FAT_ENT_FREE
    · simp only [if_neg hneg, if_pos hfree]
      exact ⟨h1, hbhs⟩
    simp only [if_neg hneg, if_neg hfree]
    rcases hv with rfl | ⟨-, hv, hat⟩
    · exact absurd (show (- EIO : ℤ) < 0 by decide) hneg
    have hput := putFree_kept (f := { f with fatent := e, s := s1 }) hl hat hc (fun hin => hks c hin hc) h1 v
    obtain ⟨-, hent, hbhs1⟩ := putFree_issueDiscard (f := { f with fatent := e, s := s1 }) hat
    have hv1 : fatLink sb ({ f with fatent := e, s := s1 } : Free).s.vol c = v := by
      rw [hv]
      exact congrArg (fatLink sb · c) hlook.vol
    rw [hv1] at hent hbhs1
    generalize putFree (issueDiscard sb { f with fatent := e, s := s1 } v) = f2 at hput hent hbhs1 ⊢
    have hbhs2 : BhsInFat sb f2.bhs := by
      rw [hbhs1]
      exact hbhs
    have hflush := flushBhs_kept hl hbhs2 hput
    obtain ⟨-, hent3, -, hbhs3, -⟩ := flushBhs_any env hbhs2
    generalize flushBhs env sb f2 = r at hflush hent3 hbhs3 ⊢
    by_cases herr : r.1 ≠ 0
    · simp only [if_pos herr]
      exact ⟨hflush, hbhs3⟩
    simp only [if_neg herr]
    have hat2 : r.2.fatent.At sb c := by
      rw [hent3, hent]
      exact hat
    have hcol : StKept env sb l ks vol r.2.collect.s := hflush.of_looked (fatCollectBhs_looked _ _ _)
    have hcolbhs : BhsInFat sb r.2.collect.bhs := (fatCollectBhs_spec r.2.s hat2 hc.1 hbhs3).1
    by_cases heof : v = FAT_ENT_EOF
    · simp only [if_pos heof]
      exact ⟨hcol, hcolbhs⟩
    · simp only [if_neg heof]
      -- the link leads to a cluster that was free
      have hnext : WasFree sb vol v := by
        rcases h.link_free hc with h0 | h0 | h0
        · exact absurd (hv.trans h0) hfree
        · exact absurd (hv.trans h0) heof
        · exact hv ▸ h0
      exact ih hnext hcolbhs hcol

theorem fatFreeClusters_kept (hl : ∀ x ∈ l, InRange sb x) (hks : ∀ x ∈ ks, ¬ WasFree sb vol x) (hc : WasFree sb vol c)
    (h : StKept env sb l ks vol s) : StKept env sb l ks vol (fatFreeClusters env sb s c).2 := by
  unfold fatFreeClusters
  obtain ⟨hloop, hbhs⟩ := fatFreeLoop_kept hl hks sb.maxCluster (f := ⟨fatentInit, [], c, s⟩) hc (BhsInFat.nil sb) h
  generalize fatFreeLoop env sb sb.maxCluster c ⟨fatentInit, [], c, s⟩ = r at hloop hbhs ⊢
  have hwrite := fatWriteBhs_kept hl hbhs hloop sb.synchronous
  simp only
  have hor : StKept env sb l ks vol (if r.1 ≠ 0 then (r.1, r.2.s) else fatWriteBhs env sb r.2.s r.2.bhs sb.synchronous).2 := by
    split_ifs
    · exact hloop
    · exact hwrite
  generalize (if r.1 ≠ 0 then (r.1, r.2.s) else fatWriteBhs env sb r.2.s r.2.bhs sb.synchronous) = w at hor ⊢
  have hrel : Looked w.2 (r.2.fatent.brelse w.2).2 := by
    rcases r.2.fatent with ⟨entry, _ | b, ptr⟩
    · exact Looked.refl _
    · exact brelse_looked _ b
  exact hor.of_looked (hrel.trans (foldl_brelse_looked _ _))

/-! ## Allocations -/

/-- the clusters taken so far were free, and so was the one that the next is linked to -/
structure AllocKept (env : Env) (sb : FatSb) (l ks : List ℤ) (vol : Vol) (a : Alloc) : Prop where
  s : StKept env sb l ks vol a.s
  cluster : ∀ x ∈ a.cluster, WasFree sb vol x
  prev : a.prevEnt.bh = none ∨ ∃ p, a.prevEnt.At sb p ∧ WasFree sb vol p
  bhs : BhsInFat sb a.bhs

theorem fatEntReadBlock_looked (env : Env) (sb : FatSb) (s : St) (e : FatEntry) : Looked s (fatEntReadBlock env sb s e).2.2 := by
  have hrel : Looked s (e.brelse s).2 := by
    rcases e with ⟨entry, _ | b, ptr⟩
    · exact Looked.refl s
    · exact brelse_looked s b
  unfold fatEntReadBlock fatEntBread
  generalize e.brelse s = r at hrel ⊢
  have hread := sbBread_looked env r.2 (fatEntBlocknr sb r.1.entry).2
  simp only
  generalize sbBread env r.2 (fatEntBlocknr sb r.1.entry).2 = w at hread ⊢
  obtain ⟨ok, s'⟩ := w
  cases ok with
  | true => exact hrel.trans hread
  | false => exact hrel.trans hread

/-- a free entry is taken -/
theorem takeFree_kept (hl : ∀ x ∈ l, InRange sb x) (hks : ∀ x ∈ ks, ¬ WasFree sb vol x) {a : Alloc}
    (h : AllocKept env sb l ks vol a) (hat : a.fatent.At sb c) (hc : WasFree sb vol c) :
    AllocKept env sb l ks vol { takeFree a with prevEnt := a.fatent } := by
  have hentry := hat.entry
  have hread : readBack c = FAT_ENT_FREE ∨ readBack c = FAT_ENT_EOF ∨ WasFree sb vol (readBack c) := by
    unfold readBack
    split_ifs
    · exact Or.inr (Or.inl rfl)
    · exact Or.inr (Or.inr hc)
  have h1 : StKept env sb l ks vol (a.fatent.put a.s FAT_ENT_EOF) :=
    h.s.put hl hat hc.1 (fun hin => hks c hin hc) Storable.eof (fun _ => Or.inr (Or.inl readBack_eof)) fun hne => absurd hc.2 hne
  have h2 : StKept env sb l ks vol (if a.prevEnt.bh.isSome then
      a.prevEnt.put (a.fatent.put a.s FAT_ENT_EOF) a.fatent.entry else a.fatent.put a.s FAT_ENT_EOF) := by
    rcases h.prev with hnone | ⟨p, hp, hpfree⟩
    · rw [hnone]
      exact h1
    · rw [hp.bh, Option.isSome_some, if_pos rfl, hentry]
      exact h1.put hl hp hpfree.1 (fun hin => hks p hin hpfree) hc.1.storable (fun _ => hread) fun hne => absurd hpfree.2 hne
  have h3 := h2.of_looked (fatCollectBhs_looked a.bhs _ a.fatent)
  refine ⟨h3, ?_, Or.inr ⟨c, hat, hc⟩, (fatCollectBhs_spec _ hat hc.1 h.bhs).1⟩
  intro x hx
  rcases List.mem_append.1 hx with hx | hx
  · exact h.cluster x hx
  · rw [List.mem_singleton.1 hx, hentry]
    exact hc

/-- **The search for free clusters** takes clusters that were free. -/
theorem fatAllocLoop_kept (hl : ∀ x ∈ l, InRange sb x) (hks : ∀ x ∈ ks, ¬ WasFree sb vol x) (hmax : 2 < sb.maxCluster)
    (nr left : ℕ) : ∀ {e : ℤ} {more : Bool} {a : Alloc}, InRange sb e → Cursor sb more a e → AllocKept env sb l ks vol a →
    StKept env sb l ks vol (fatAllocLoop env sb nr left more a).2.s ∧
      (∀ x ∈ (fatAllocLoop env sb nr left more a).2.cluster, WasFree sb vol x) ∧
      BhsInFat sb (fatAllocLoop env sb nr left more a).2.bhs := by
  induction left with
  | zero => exact fun _ _ h => ⟨h.s, h.cluster, h.bhs⟩
  | succ left ih =>
    intro e more a he hcur h
    obtain ⟨ok, e', s', hhead, hat, -⟩ := allocHead_any env hcur
    have hlook : Looked a.s s' := by
      cases more with
      | true =>
        have hs : a.s = s' := congrArg (fun r => r.2.s) hhead
        exact hs ▸ Looked.refl a.s
      | false =>
        have hs : (allocReadBlock env sb a).2.s = s' := congrArg (fun r => r.2.s) hhead
        rw [← hs]
        exact fatEntReadBlock_looked env sb a.s _
    have h1 : StKept env sb l ks vol s' := h.s.of_looked hlook
    have hnextIn : InRange sb (wrapEntry sb (e + 1)) := wrapEntry_inRange hmax (by have := he.1; omega)
    simp only [fatAllocLoop, hhead]
    cases ok with
    | false => exact ⟨h1, h.cluster, h.bhs⟩
    | true =>
      have hat := hat rfl
      by_cases hfree : e'.get s' = FAT_ENT_FREE
      · simp only [if_pos hfree]
        have hwas : WasFree sb vol e := h1.wasFree he (by rwa [hat.get] at hfree)
        have htake := takeFree_kept (a := { a with fatent := e', s := s' }) hl hks ⟨h1, h.cluster, h.prev, h.bhs⟩ hat hwas
        have htf : (takeFree { a with fatent := e', s := s' }).fatent = e' := rfl
        generalize takeFree { a with fatent := e', s := s' } = b at htake htf ⊢
        by_cases hdone : b.cluster.length = nr
        · simp only [if_pos hdone]
          exact ⟨htake.s, htake.cluster, htake.bhs⟩
        · simp only [if_neg hdone, htf]
          exact ih hnextIn (cursor_next he hat rfl) ⟨htake.s, htake.cluster, htake.prev, htake.bhs⟩
      · simp only [if_neg hfree]
        exact ih hnextIn (cursor_next he hat rfl) ⟨h1, h.cluster, h.prev, h.bhs⟩

/-- **An allocation**, whatever comes of it. -/
theorem fatAllocClusters_kept (hl : ∀ x ∈ l, InRange sb x) (hks : ∀ x ∈ ks, ¬ WasFree sb vol x) (hpf : PrevFreeOk sb s)
    (h : StKept env sb l ks vol s) {needsSync : Bool} {nr : ℕ} {r : AllocClusters}
    (hr : fatAllocClusters env sb s needsSync nr = some r) :
    StKept env sb l ks vol r.s ∧ ∀ x ∈ r.cluster, WasFree sb vol x := by
  unfold fatAllocClusters at hr
  split_ifs at hr with hbug href
  · rw [← Option.some.inj hr]
    exact ⟨h, fun x hx => absurd hx List.not_mem_nil⟩
  have hstart : AllocKept env sb l ks vol (allocStart s) :=
    ⟨h, fun x hx => absurd hx List.not_mem_nil, Or.inl rfl, BhsInFat.nil sb⟩
  have hloop : StKept env sb l ks vol (fatAllocLoop env sb nr (sb.maxCluster - 2) false (allocStart s)).2.s ∧
      (∀ x ∈ (fatAllocLoop env sb nr (sb.maxCluster - 2) false (allocStart s)).2.cluster, WasFree sb vol x) ∧
      BhsInFat sb (fatAllocLoop env sb nr (sb.maxCluster - 2) false (allocStart s)).2.bhs := by
    rcases Nat.lt_or_ge 2 sb.maxCluster with hmax | hmax
    · refine fatAllocLoop_kept hl hks hmax nr _ (wrapEntry_inRange hmax ?_) (cursor_start hpf) hstart
      have h2 := hpf.1
      unfold FAT_START_ENT
      omega
    · have hzero : sb.maxCluster - 2 = 0 := by omega
      rw [hzero]
      exact ⟨hstart.s, hstart.cluster, hstart.bhs⟩
  generalize fatAllocLoop env sb nr (sb.maxCluster - 2) false (allocStart s) = q at hr hloop
  obtain ⟨err, a⟩ := q
  obtain ⟨hs, hcl, hbhs⟩ := hloop
  rw [Option.some.injEq] at hr
  rw [← hr]
  unfold allocOut
  simp only at hs hcl hbhs ⊢
  have hrel : StKept env sb l ks vol (a.fatent.brelse a.s).2 := by
    rcases a.fatent with ⟨entry, _ | b, ptr⟩
    · exact hs
    · exact hs.of_looked (brelse_looked _ b)
  have hout : StKept env sb l ks vol (if err = 0 then fatWriteBhs env sb (a.fatent.brelse a.s).2 a.bhs needsSync
      else (err, (a.fatent.brelse a.s).2)).2 := by
    split_ifs
    · exact fatWriteBhs_kept hl hbhs hrel _
    · exact hrel
  generalize (if err = 0 then fatWriteBhs env sb (a.fatent.brelse a.s).2 a.bhs needsSync
    else (err, (a.fatent.brelse a.s).2)) = w at hout ⊢
  have hdone := hout.of_looked (foldl_brelse_looked a.bhs w.2)
  cases hcs : a.cluster with
  | nil => exact ⟨hdone, fun x hx => absurd hx List.not_mem_nil⟩
  | cons x cs =>
    rw [hcs] at hcl
    refine ⟨?_, hcl⟩
    split_ifs
    · exact fatFreeClusters_kept hl hks (hcl x List.mem_cons_self) hdone
    · exact hdone

/-! ## New clusters -/

/-- the blocks of a cluster that was free do not matter -/
theorem clus_not_watched (hl : ∀ x ∈ l, InRange sb x ∧ ¬ WasFree sb vol x) (hc : WasFree sb vol c) {j : ℕ} (hj : j < sb.secPerClus) :
    ¬ Watched sb l (fatClusToBlknr sb c + j) := by
  obtain ⟨hdata, heq⟩ := dataStart_le_block hc.1 hj
  rw [← heq]
  rintro (hin | ⟨q, hq, hblk⟩)
  · exact not_inFat_of_le hdata hin
  · obtain ⟨d, hd, hdblk⟩ := dirBlock_cluster hq
    have hmem := List.mem_of_getElem? hd
    rw [hdblk] at hblk
    obtain ⟨rfl, -⟩ := clusBlock_inj hc.1 (hl d hmem).1 hj (Nat.mod_lt q sb.secPerClus_pos) hblk
    exact (hl c hmem).2 hc

theorem newBlocks_kept (left : ℕ) : ∀ {blknr : ℕ} {f : NewSlots}, (∀ j < left, ¬ Watched sb l (blknr + j)) →
    (∀ b ∈ f.bhs, ¬ Watched sb l b) → StKept env sb l ks vol f.s →
    StKept env sb l ks vol (newBlocks env sb left blknr f).2.s ∧ ∀ b ∈ (newBlocks env sb left blknr f).2.bhs, ¬ Watched sb l b := by
  induction left with
  | zero => exact fun _ hbhs h => ⟨h, hbhs⟩
  | succ left ih =>
    intro blknr f hout hbhs h
    have hout0 : ¬ Watched sb l blknr := hout 0 (Nat.succ_pos left)
    rw [newBlocks]
    by_cases hget : env.getblk f.s.t = false
    · rw [if_pos hget]
      exact ⟨h, hbhs⟩
    rw [if_neg hget]
    simp only
    have hstore := h.store hout0 (splice (f.s.vol blknr) 0 (f.slots.take (min f.size sb.blocksize)))
      (Function.update f.s.refs blknr (f.s.refs blknr + 1)) (f.s.t + 1)
    have hbhs' : ∀ b ∈ f.bhs ++ [blknr], ¬ Watched sb l b := by
      intro b hb
      rcases List.mem_append.1 hb with hb | hb
      · exact hbhs b hb
      · rw [List.mem_singleton.1 hb]
        exact hout0
    split_ifs
    · exact ⟨hstore, hbhs'⟩
    · refine ih (f := ⟨f.bhs ++ [blknr], min f.size sb.blocksize, f.size - min f.size sb.blocksize,
        f.slots.drop (min f.size sb.blocksize), _⟩) (fun j hj => ?_) hbhs' hstore
      rw [Nat.add_assoc, Nat.add_comm 1 j]
      exact hout (j + 1) (Nat.succ_lt_succ hj)

theorem newClusters_kept (hl : ∀ x ∈ l, InRange sb x ∧ ¬ WasFree sb vol x) {cs : List ℤ} (hcs : ∀ c ∈ cs, WasFree sb vol c) :
    ∀ {f : NewSlots}, (∀ b ∈ f.bhs, ¬ Watched sb l b) → StKept env sb l ks vol f.s →
    StKept env sb l ks vol (newClusters env sb cs f).2.s ∧ ∀ b ∈ (newClusters env sb cs f).2.bhs, ¬ Watched sb l b := by
  induction cs with
  | nil => exact fun hbhs h => ⟨h, hbhs⟩
  | cons c cs ih =>
    obtain ⟨hc, hrest⟩ := List.forall_mem_cons.1 hcs
    intro f hbhs h
    obtain ⟨h1, h2⟩ := newBlocks_kept sb.secPerClus (fun j hj => clus_not_watched hl hc hj) hbhs h
    rw [newClusters]
    generalize newBlocks env sb sb.secPerClus (fatClusToBlknr sb c) f = r at h1 h2 ⊢
    obtain ⟨ok, f1⟩ := r
    cases ok with
    | false => exact ⟨h1, h2⟩
    | true => exact ih hrest h2 h1

theorem zeroLoop_kept (dirsync : Bool) (nrBhs left : ℕ) : ∀ {blknr : ℕ} {z : Zeroing}, (∀ j < left, ¬ Watched sb l (blknr + j)) →
    StKept env sb l ks vol z.s → StKept env sb l ks vol (zeroLoop env sb dirsync nrBhs left blknr z).2.s := by
  induction left with
  | zero => exact fun _ h => h
  | succ left ih =>
    intro blknr z hout h
    have hout0 : ¬ Watched sb l blknr := hout 0 (Nat.succ_pos left)
    have hnext : ∀ j < left, ¬ Watched sb l (blknr + 1 + j) := by
      intro j hj
      rw [Nat.add_assoc, Nat.add_comm 1 j]
      exact hout (j + 1) (Nat.succ_lt_succ hj)
    rw [zeroLoop]
    by_cases hget : env.getblk z.s.t = false
    · rw [if_pos hget]
      exact h
    rw [if_neg hget]
    simp only
    have hstore := h.store hout0 (splice (z.s.vol blknr) 0 (List.replicate sb.blocksize 0))
      (Function.update z.s.refs blknr (z.s.refs blknr + 1)) (z.s.t + 1)
    generalize ({ z.s with
      vol := Function.update z.s.vol blknr (splice (z.s.vol blknr) 0 (List.replicate sb.blocksize 0))
      refs := Function.update z.s.refs blknr (z.s.refs blknr + 1)
      t := z.s.t + 1 } : St) = s1 at hstore ⊢
    by_cases hfull : (z.bhs ++ [blknr]).length = nrBhs
    · rw [if_pos hfull]
      have hsync : StKept env sb l ks vol (if dirsync = true then fatSyncBhs env s1 (z.bhs ++ [blknr]) else (0, s1)).2 := by
        split_ifs
        · exact fatSyncBhs_kept _ hstore
        · exact hstore
      generalize (if dirsync = true then fatSyncBhs env s1 (z.bhs ++ [blknr]) else (0, s1)) = r at hsync ⊢
      obtain ⟨err, s2⟩ := r
      simp only
      split_ifs
      · exact hsync
      · exact ih hnext (hsync.of_looked (foldl_brelse_looked _ s2))
    · rw [if_neg hfull]
      exact ih hnext hstore

theorem fatZeroedCluster_kept (dirsync : Bool) (h : StKept env sb l ks vol s) {blknr : ℕ}
    (hout : ∀ j < sb.secPerClus, ¬ Watched sb l (blknr + j)) (bhs : List ℕ) (nrBhs : ℕ) :
    StKept env sb l ks vol (fatZeroedCluster env sb dirsync s blknr bhs nrBhs).2 := by
  unfold fatZeroedCluster
  simp only
  have hrest : ∀ j < sb.secPerClus - bhs.length, ¬ Watched sb l (blknr + bhs.length + j) := by
    intro j hj
    rw [Nat.add_assoc]
    exact hout _ (by omega)
  have hloop := zeroLoop_kept dirsync nrBhs (sb.secPerClus - bhs.length) hrest (z := ⟨bhs, s⟩) h
  generalize zeroLoop env sb dirsync nrBhs (sb.secPerClus - bhs.length) (blknr + bhs.length) ⟨bhs, s⟩ = r at hloop ⊢
  obtain ⟨err, z⟩ := r
  simp only at hloop ⊢
  have hsync : StKept env sb l ks vol (if err = 0 ∧ dirsync = true then fatSyncBhs env z.s z.bhs else (err, z.s)).2 := by
    split_ifs
    · exact fatSyncBhs_kept _ hloop
    · exact hloop
  exact hsync.of_looked (foldl_brelse_looked _ _)

/-- **New entries**, whatever comes of them; the clusters that they get were free. -/
theorem fatAddNewEntries_kept (hl : ∀ x ∈ l, InRange sb x ∧ ¬ WasFree sb vol x) (hks : ∀ x ∈ ks, ¬ WasFree sb vol x)
    (hpf : PrevFreeOk sb s) (h : StKept env sb l ks vol s) {nr : ℕ} (hnr : 0 < nr) {dirsync : Bool} {slots : List UInt8}
    {n : NewEntries} (hn : fatAddNewEntries env sb s dirsync slots nr = some n) :
    StKept env sb l ks vol n.s ∧ (¬ n.ret < 0 → WasFree sb vol n.ret) := by
  have hin : ∀ x ∈ l, InRange sb x := fun x hx => (hl x hx).1
  unfold fatAddNewEntries at hn
  simp only at hn
  by_cases hbug : 2 < nrCluster sb nr
  · rw [if_pos hbug] at hn
    exact absurd hn (by simp)
  rw [if_neg hbug] at hn
  cases halloc : fatAllocClusters env sb s dirsync (nrCluster sb nr) with
  | none =>
    rw [halloc] at hn
    exact absurd hn (by simp)
  | some r =>
    rw [halloc] at hn
    simp only at hn
    obtain ⟨hs, hcl⟩ := fatAllocClusters_kept hin hks hpf h halloc
    by_cases herr : r.err ≠ 0
    · have hle := fatAllocClusters_nonpos halloc
      rw [if_pos herr, Option.some.injEq] at hn
      rw [← hn]
      exact ⟨hs, fun hret => absurd (lt_of_le_of_ne hle herr) hret⟩
    rw [if_neg herr] at hn
    obtain ⟨-, hlen, -⟩ := fatAllocClusters_zero hpf (nrCluster_pos sb hnr) halloc (not_not.1 herr)
    have hne : r.cluster ≠ [] := List.ne_nil_of_length_pos (hlen ▸ nrCluster_pos sb hnr)
    have hhead : WasFree sb vol (r.cluster.headD 0) := by
      rw [List.headD_eq_head?_getD, List.head?_eq_some_head hne]
      exact hcl _ (List.head_mem hne)
    have hlast : WasFree sb vol (r.cluster.getLastD 0) := by
      rw [List.getLastD_eq_getLast?, List.getLast?_eq_some_getLast hne]
      exact hcl _ (List.getLast_mem hne)
    obtain ⟨h1, hbhs⟩ := newClusters_kept hl hcl (f := ⟨[], 0, nr * DENT_SIZE, slots, r.s⟩)
      (fun b hb => absurd hb List.not_mem_nil) hs
    generalize newClusters env sb r.cluster ⟨[], 0, nr * DENT_SIZE, slots, r.s⟩ = w at hn h1 hbhs
    obtain ⟨ok, f⟩ := w
    cases ok with
    | false =>
      rw [Option.some.injEq] at hn
      rw [← hn]
      exact ⟨fatFreeClusters_kept hin hks hhead (h1.of_looked (foldl_brelse_looked f.bhs f.s)),
        fun hret => absurd (show (- ENOMEM : ℤ) < 0 by decide) hret⟩
    | true =>
      simp only at hn h1 hbhs
      have hbh : ¬ Watched sb l (f.bhs.getLastD 0) := by
        cases hf : f.bhs.getLast? with
        | some b =>
          rw [List.getLastD_eq_getLast?, hf]
          exact hbhs b (List.mem_of_getLast? hf)
        | none =>
          rw [List.getLastD_eq_getLast?, hf]
          rintro (hfat | ⟨q, hq, hzero⟩)
          · exact not_inFat_zero sb hfat
          · have hdata := dataStart_le_dirBlock hin hq
            have hpos := dataStart_pos sb
            rw [← hzero, Option.getD_none] at hdata
            omega
      have hstore := h1.store hbh (splice (f.s.vol (f.bhs.getLastD 0)) f.copy (List.replicate (sb.blocksize - f.copy) 0))
        (Function.update f.s.refs (f.bhs.getLastD 0) (f.s.refs (f.bhs.getLastD 0) + 1)) f.s.t
      have hzero := fatZeroedCluster_kept dirsync hstore (fun j hj => clus_not_watched hl hlast hj) f.bhs MAX_BUF_PER_PAGE
      obtain ⟨-, hle⟩ := fatZeroedCluster_sameFat env dirsync { f.s with
        vol := Function.update f.s.vol (f.bhs.getLastD 0) (splice (f.s.vol (f.bhs.getLastD 0)) f.copy
          (List.replicate (sb.blocksize - f.copy) 0))
        refs := Function.update f.s.refs (f.bhs.getLastD 0) (f.s.refs (f.bhs.getLastD 0) + 1) }
        (dataStart_le_clus hlast.1) (fun b hb hfat => hbhs b hb (Or.inl hfat)) MAX_BUF_PER_PAGE
      generalize fatZeroedCluster env sb dirsync _ (fatClusToBlknr sb (r.cluster.getLastD 0)) f.bhs MAX_BUF_PER_PAGE = z
        at hn hzero hle
      obtain ⟨err, s'⟩ := z
      simp only at hn hzero hle
      by_cases hz : err ≠ 0
      · rw [if_pos hz, Option.some.injEq] at hn
        rw [← hn]
        exact ⟨fatFreeClusters_kept hin hks hhead (hzero.of_looked (brelse_looked s' _)),
          fun hret => absurd (lt_of_le_of_ne hle hz) hret⟩
      · rw [if_neg hz, Option.some.injEq] at hn
        rw [← hn]
        exact ⟨hzero, fun _ => hhead⟩

/-! ## Hanging them behind the chain -/

theorem StKept.mono (h : StKept env sb l ks vol s) {ks' : List ℤ} (hsub : ∀ x ∈ ks', x ∈ ks) : StKept env sb l ks' vol s :=
  Kept.mono h fun _ _ hb => ⟨hb.free, hb.used, fun x hx => hb.link x (hsub x hx), hb.slots⟩

theorem lastCluster_quiet (env : Env) (sb : FatSb) (s : St) (dir : DirInode) : Quiet s (lastCluster env sb s dir).2.2 := by
  unfold lastCluster
  split_ifs
  · obtain ⟨-, -, -, -, hquiet, -⟩ := fatGetClusterLoop_walk env sb FAT_ENT_EOF (clusterLimit sb + 2) s 0 dir.iStart _
      (Nat.zero_le _) (Nat.le_refl _) rfl
    exact hquiet
  · exact Quiet.refl s

/-- the chain of a directory, as it is read while its links are kept -/
theorem StKept.path (h : StKept env sb l l vol s) {start : ℤ} (p : Path (table sb vol) start l) : Path (table sb s.vol) start l := by
  apply p.congr
  intro x hx
  have hin := path_inRange p x hx
  rw [table_of_inRange hin, table_of_inRange hin, h.link_eq hx hin]

/-- **A directory that grows**, or does not: the link of its last cluster can have changed. -/
theorem fatChainAdd_kept {dir : DirInode} (hroot : dir.iStart = 0 → dir.isRoot = true) (hchain : DirChain sb vol dir.iStart l)
    (h : StKept env sb l l vol s) {new : ℤ} (hnew : InRange sb new) (nr : ℕ) :
    StKept env sb l l.dropLast vol (fatChainAdd env sb s dir new nr).s ∧
      ((fatChainAdd env sb s dir new nr).ret ≠ 0 → (fatChainAdd env sb s dir new nr).dir = dir) := by
  have hdrop : ∀ x ∈ l.dropLast, x ∈ l := fun x hx => List.mem_of_mem_dropLast hx
  rcases hchain with ⟨hzero, -⟩ | p
  · rw [fatChainAdd_root env sb s hzero (hroot hzero)]
    exact ⟨h.mono hdrop, fun hne => absurd rfl hne⟩
  have hl := path_inRange p
  have hin := hl _ (List.getLast_mem p.ne_nil)
  have hquiet := lastCluster_quiet env sb s dir
  have hlast := lastCluster_zero env (h.path p)
  unfold fatChainAdd
  generalize lastCluster env sb s dir = q at hquiet hlast ⊢
  obtain ⟨ret, last, s1⟩ := q
  simp only at hquiet hlast ⊢
  have h1 : StKept env sb l l vol s1 := h.of_looked hquiet.looked
  by_cases hret : ret < 0
  · rw [if_pos hret]
    exact ⟨h1.mono hdrop, fun _ => rfl⟩
  obtain ⟨rfl, -⟩ := hlast hret
  rw [if_neg hret, if_pos hin.pos.ne']
  obtain ⟨hlook, -⟩ := fatEntRead_looked env sb s1 fatentInit (l.getLast p.ne_nil)
  obtain ⟨v, e, s2, hread, -, hor⟩ := fatEntRead_any env sb s1 fatentInit (l.getLast p.ne_nil)
  rw [hread] at hlook ⊢
  simp only at hlook ⊢
  have h2 : StKept env sb l l.dropLast vol s2 := (h1.of_looked hlook).mono hdrop
  by_cases hv : v < 0
  · rw [if_pos hv]
    exact ⟨h2, fun _ => rfl⟩
  rw [if_neg hv]
  have hat : e.At sb (l.getLast p.ne_nil) := by
    rcases hor with rfl | ⟨-, -, hat⟩
    · exact absurd (show (- EIO : ℤ) < 0 by decide) hv
    · exact hat
  have hnotin : l.getLast p.ne_nil ∉ l.dropLast := by
    intro hmem
    have hnd := p.nodup
    rw [← List.dropLast_append_getLast p.ne_nil] at hnd
    exact (List.nodup_append.1 hnd).2.2 _ hmem _ (List.mem_singleton.2 rfl) rfl
  have hput : StKept env sb l l.dropLast vol (e.put s2 new) := by
    refine h2.put hl hat hin hnotin hnew.storable (fun hfree => ?_) fun _ => ?_
    · exact absurd ((table_eq_free hin).2 hfree) (p.not_free (List.getLast_mem p.ne_nil))
    · unfold readBack
      split_ifs
      · decide
      · exact hnew.pos.ne'
  have hwrite := fatWriteBhs_kept hl (hat.bhs_inFat hin) hput true
  unfold fatEntWrite
  generalize fatWriteBhs env sb (e.put s2 new) e.bh.toList true = w at hwrite ⊢
  have hrel : Looked w.2 (e.brelse w.2).2 := by
    rcases e with ⟨entry, _ | b, ptr⟩
    · exact Looked.refl _
    · exact brelse_looked _ b
  split_ifs
  · exact ⟨hwrite.of_looked hrel, fun _ => rfl⟩
  · exact ⟨hwrite.of_looked hrel, fun hne => absurd rfl hne⟩

/-- **New clusters for a directory** that has no free slot in hand, whatever comes of it. -/
theorem appendSlots_kept {dir : DirInode} (hroot : dir.iStart = 0 → dir.isRoot = true) (hchain : DirChain sb vol dir.iStart l)
    (hpf : PrevFreeOk sb s) (h : StKept env sb l l vol s) {left : ℕ} (hleft : 0 < left) {pos : ℕ} {slots : List UInt8}
    {r : AddEntries} (hr : appendSlots env sb dir pos 0 left slots s = some r) :
    StKept env sb l l.dropLast vol r.s ∧ (r.err ≠ 0 → r.dir = dir) := by
  have hl : ∀ x ∈ l, InRange sb x ∧ ¬ WasFree sb vol x :=
    fun x hx => ⟨hchain.inRange x hx, fun hfree => hchain.used x hx (fatLink_eq_free.1 hfree.2)⟩
  have hin : ∀ x ∈ l, InRange sb x := fun x hx => (hl x hx).1
  have hks : ∀ x ∈ l.dropLast, ¬ WasFree sb vol x := fun x hx => (hl x (List.mem_of_mem_dropLast hx)).2
  have herror : ∀ (dir : DirInode) (bh : Option ℕ) (err : ℤ) {s1 : St}, StKept env sb l l.dropLast vol s1 →
      StKept env sb l l.dropLast vol (errorRemove env sb dir bh pos 0 err s1).s := by
    intro dir bh err s1 h1
    unfold errorRemove
    simp only [ne_eq, not_true_eq_false, if_false]
    cases bh with
    | none => exact h1
    | some b => exact h1.of_looked (brelse_looked s1 b)
  unfold appendSlots at hr
  cases hn : fatAddNewEntries env sb s dir.dirsync slots left with
  | none =>
    rw [hn] at hr
    exact absurd hr (by simp)
  | some n =>
    rw [hn] at hr
    simp only at hr
    obtain ⟨h1, hfree⟩ := fatAddNewEntries_kept hl (fun x hx => (hl x hx).2) hpf h hleft hn
    by_cases hret : n.ret < 0
    · rw [if_pos hret, Option.some.injEq] at hr
      rw [← hr]
      exact ⟨herror dir n.bh n.ret (h1.mono fun x hx => List.mem_of_mem_dropLast hx), fun _ => rfl⟩
    rw [if_neg hret] at hr
    obtain ⟨h2, hdir⟩ := fatChainAdd_kept hroot hchain h1 (hfree hret).1 n.nrCluster
    by_cases hadd : (fatChainAdd env sb n.s dir n.ret n.nrCluster).ret ≠ 0
    · rw [if_pos hadd, Option.some.injEq] at hr
      rw [← hr]
      exact ⟨herror _ n.bh _ (fatFreeClusters_kept hin hks (hfree hret) h2), fun _ => hdir hadd⟩
    · rw [if_neg hadd, Option.some.injEq] at hr
      rw [← hr]
      exact ⟨h2, fun hne => absurd rfl hne⟩

/-! ## A slot of the directory -/

/-- the state around a call in which nothing was written yet -/
theorem StKept.start (hdev : WriteFails env sb l → ∀ b, Watched sb l b → s.disk b = s.vol b) : StKept env sb l ks s.vol s := by
  refine ⟨fun b => BlockKept.refl sb l ks s.vol b, fun hf b => ?_⟩
  by_cases hb : Watched sb l b
  · rw [hdev hf b hb]
    exact BlockKept.refl sb l ks s.vol b
  · exact blockKept_outside hb _

/-- the size and the links of the directory, as they are read -/
theorem StKept.dirAt {dir : Inode} (h : StKept env sb l ks vol s) (hdir : DirAt sb vol dir l) (hks : ∀ x ∈ l.dropLast, x ∈ ks) :
    DirAt sb s.vol dir l :=
  hdir.congr fun c hc => h.link_eq (hks c hc) (hdir.inRange c (List.mem_of_mem_dropLast hc))

/-- **A free slot that is marked as deleted** is free. -/
theorem BlockKept.mark {i : ℕ} (h : BlockKept sb l ks vol (slotBlock sb l i) buf) (hl : Clusters sb l) (hi : i < nrSlots sb l)
    (hfree : IsFree (slot sb l vol i)) : BlockKept sb l ks vol (slotBlock sb l i) (markDeleted buf (slotOff sb i) 1) := by
  have hdata : sb.dataStart ≤ slotBlock sb l i := dataStart_le_dirBlock hl.inRange (slot_block hi)
  have hfat : ∀ {x : ℤ}, InRange sb x → (fatEntBlocknr sb x).2 ≠ slotBlock sb l i := by
    intro x hx hxb
    exact not_inFat_of_le hdata (hxb ▸ fatEntBlocknr_inFat hx)
  have hmark : ∀ k, markDeleted buf (slotOff sb i) 1 k = if k = slotOff sb i then DELETED_FLAG else buf k := by
    intro k
    unfold markDeleted
    simp only [Nat.lt_one_iff, exists_eq_left, Nat.mul_zero, Nat.add_zero]
  refine ⟨fun x hx hxb => absurd hxb (hfat hx.1), fun x hx _ hxb => absurd hxb (hfat hx),
    fun x _ hx hxb => absurd hxb (hfat hx), fun j hj hjb => ?_⟩
  by_cases hij : j = i
  · subst hij
    refine ⟨⟨fun _ => hfree, fun _ => Or.inr ?_⟩, fun hlive => absurd hfree hlive⟩
    exact (hmark _).trans (if_pos (Nat.add_zero _))
  · -- the first byte of slot `i` is not in slot `j`
    have hbyte : ∀ k < DENT_SIZE, markDeleted buf (slotOff sb i) 1 (slotOff sb j + k) = buf (slotOff sb j + k) := by
      intro k hk
      rw [hmark, if_neg]
      intro heq
      have hmod : DENT_SIZE * (j % sb.dirPerBlock) + k = DENT_SIZE * (i % sb.dirPerBlock) := heq
      have hoff : slotOff sb j = slotOff sb i := by
        unfold slotOff
        unfold DENT_SIZE at hk hmod ⊢
        omega
      exact hij (slot_inj hl.inRange hl.nodup hj hi hjb hoff)
    obtain ⟨hsame, hkeep⟩ := h.slots j hj hjb
    refine ⟨?_, fun hlive k hk => (hbyte k hk).trans (hkeep hlive k hk)⟩
    rw [← hsame]
    unfold IsFree
    simp only [hbyte 0 (by decide)]

/-- **Giving a free slot back**, when its block can be read. -/
theorem fatRemoveSlots_one {dir : DirInode} {i : ℕ} (h : StKept env sb l ks vol s) (hl : Clusters sb l)
    (hdir : DirAt sb s.vol dir.toInode l) (hi : i < nrSlots sb l) (hfree : IsFree (slot sb l vol i))
    (hread : ∀ t, s.t ≤ t → env.bread t (slotBlock sb l i) = true) :
    StKept env sb l ks vol (fatRemoveSlots env sb dir 1 s (DENT_SIZE * i) 1).2 := by
  obtain ⟨s1, ok, cur, hlook, hget, hcur⟩ := fatGetEntry_at hdir hread
  have h1 := h.of_looked hlook
  rw [fatRemoveSlots, if_neg Nat.one_ne_zero, hget]
  cases ok with
  | false => exact h1
  | true =>
    obtain rfl := hcur rfl
    have hroom : min 1 ((sb.blocksize - slotOff sb i) / DENT_SIZE) = 1 := by
      have hmod := Nat.mod_lt i (dirPerBlock_pos sb)
      refine Nat.min_eq_left ((Nat.le_div_iff_mul_le (by decide)).2 ?_)
      rw [Nat.one_mul, blocksize_eq]
      unfold slotOff
      rw [← Nat.mul_sub]
      exact Nat.le_mul_of_pos_right DENT_SIZE (by omega)
    simp only [slotCursor, Option.getD_some, hroom]
    have hmark : StKept env sb l ks vol { s1 with
        vol := Function.update s1.vol (slotBlock sb l i) (markDeleted (s1.vol (slotBlock sb l i)) (slotOff sb i) 1) } :=
      Kept.store h1 ((h1.cache _).mark hl hi hfree)
    generalize ({ s1 with
      vol := Function.update s1.vol (slotBlock sb l i) (markDeleted (s1.vol (slotBlock sb l i)) (slotOff sb i) 1) } : St) = s2
      at hmark ⊢
    have hsync : StKept env sb l ks vol (if dir.dirsync = true then syncDirtyBuffer env s2 (slotBlock sb l i) else (true, s2)).2 := by
      split_ifs
      · exact syncDirtyBuffer_kept hmark _
      · exact hmark
    generalize (if dir.dirsync = true then syncDirtyBuffer env s2 (slotBlock sb l i) else (true, s2)) = w at hsync ⊢
    obtain ⟨ok, s3⟩ := w
    have hrel : StKept env sb l ks vol (brelse s3 (slotBlock sb l i)) := hsync
    cases ok with
    | true => exact hrel
    | false => exact hrel

/-- one slot is filled; the write of its block fails only when the directory is written through -/
theorem fillFree_one (env : Env) (sb : FatSb) (dirsync : Bool) (b : ℕ) (f : FillSlots) :
    (fillFree env sb dirsync [b] 0 f).1 ≠ 0 → dirsync = true ∧ env.sync f.s.t b = false ∧
      (fillFree env sb dirsync [b] 0 f).2.s.vol = (syncDirtyBuffer env f.s b).2.vol ∧
      (fillFree env sb dirsync [b] 0 f).2.s.disk = f.s.disk ∧ (fillFree env sb dirsync [b] 0 f).2.s.t = f.s.t + 1 := by
  unfold fillFree
  cases dirsync with
  | false =>
    intro h
    exact absurd rfl h
  | true =>
    unfold FillSlots.copy syncDirtyBuffer
    cases hsync : env.sync f.s.t b with
    | true =>
      intro h
      simp [hsync] at h
    | false =>
      intro _
      simp [hsync, brelse]

/-- a block of the directory whose write fails can be read back -/
def ReadBack (env : Env) (sb : FatSb) (l : List ℤ) : Prop :=
  ∀ t t' q, t < t' → q < nrBlocks sb l → env.sync t (dirBlock sb l q) = false → env.bread t' (dirBlock sb l q) = true

/-- **One slot in hand** that cannot be written is given back. -/
theorem addFound_kept {dir : DirInode} (hl : Clusters sb l) (hdir : DirAt sb vol dir.toInode l) (hks : ∀ x ∈ l.dropLast, x ∈ ks)
    (hback : dir.dirsync = true → ReadBack env sb l) {i : ℕ} (hi : i < nrSlots sb l) (hfree : IsFree (slot sb l vol i))
    {f : FreeSearch} (h : StKept env sb l ks vol f.s) (hcur : f.cur = slotCursor sb l i) (hbhs : f.bhs = [slotBlock sb l i])
    (hcount : f.freeSlots = 1) {slots : List UInt8} {r : AddEntries} (hr : addFound env sb dir slots 1 f = some r)
    (herr : r.err ≠ 0) : StKept env sb l ks vol r.s ∧ r.dir = dir := by
  have hpos : DENT_SIZE * (i + 1) - 1 * DENT_SIZE = DENT_SIZE * i := by
    rw [Nat.one_mul, Nat.mul_succ, Nat.add_sub_cancel]
  unfold addFound at hr
  simp only [hcount, hcur, hbhs, Nat.sub_self, ne_eq, Nat.one_ne_zero, not_false_eq_true, if_true, not_true_eq_false, if_false] at hr
  unfold slotCursor at hr
  simp only [hpos] at hr
  have hfill := fillFree_one env sb dir.dirsync (slotBlock sb l i) ⟨DENT_SIZE * i % sb.blocksize, 1 * DENT_SIZE, slots, f.s⟩
  generalize fillFree env sb dir.dirsync [slotBlock sb l i] 0 ⟨DENT_SIZE * i % sb.blocksize, 1 * DENT_SIZE, slots, f.s⟩ = w
    at hr hfill
  obtain ⟨err, fill⟩ := w
  simp only at hr hfill
  by_cases hw : err = 0
  · rw [if_neg (not_not.2 hw), Option.some.injEq] at hr
    exact absurd (congrArg AddEntries.err hr).symm herr
  rw [if_pos hw, Option.some.injEq] at hr
  obtain ⟨hsync, hfail, hvol, hdisk, ht⟩ := hfill hw
  -- the buffer was dropped, and its block is as before
  have hdrop : StKept env sb l ks vol fill.s := by
    have hkept := syncDirtyBuffer_kept h (slotBlock sb l i)
    unfold StKept at hkept ⊢
    rw [hvol, hdisk]
    unfold syncDirtyBuffer at hkept ⊢
    rw [hfail] at hkept ⊢
    exact hkept
  have hrel : StKept env sb l ks vol (brelse fill.s (slotBlock sb l i)) := hdrop
  rw [← hr]
  unfold errorRemove
  refine ⟨?_, rfl⟩
  simp only [ne_eq, Nat.one_ne_zero, not_false_eq_true, if_true]
  apply fatRemoveSlots_one hrel hl (hrel.dirAt hdir hks) hi hfree
  intro t hle
  have hlt : f.s.t < t := by
    have htick : fill.s.t ≤ t := hle
    rw [ht] at htick
    exact htick
  exact hback hsync f.s.t t _ hlt (slot_block hi) hfail

/-- **Adding one entry fails**: the inode of the directory is as before, and so are its live entries. -/
theorem fatAddEntries_kept {dir : DirInode} (hdir : DirOn sb vol dir.toInode l) (hpf : PrevFreeOk sb s)
    (hback : dir.dirsync = true → ReadBack env sb l) (h : StKept env sb l l vol s) {slots : List UInt8} {r : AddEntries}
    (hr : fatAddEntries env sb s dir slots 1 = some r) (herr : r.err ≠ 0) : StKept env sb l l.dropLast vol r.s ∧ r.dir = dir := by
  have hdrop : ∀ x ∈ l.dropLast, x ∈ l := fun x hx => List.mem_of_mem_dropLast hx
  have herror : ∀ (err : ℤ) {f : FreeSearch}, Looked s f.s → StKept env sb l l.dropLast vol (addError dir err f).s := by
    intro err f hlook
    unfold addError
    refine (h.mono hdrop).of_looked (hlook.trans ((?_ : Looked _ _).trans (foldl_brelse_looked f.bhs _)))
    cases f.cur.bh with
    | none => exact Looked.refl f.s
    | some b => exact brelse_looked f.s b
  have hsearch := searchFree_one (s := s) env (h.dirAt hdir.dirAt hdrop)
  unfold fatAddEntries at hr
  generalize searchFree env sb s dir.toInode 1 = w at hr hsearch
  cases hsearch with
  | full hlook =>
    rw [Option.some.injEq] at hr
    rw [← hr]
    exact ⟨herror _ hlook, rfl⟩
  | found hi hfree hlook hcur hbhs hcount =>
    have hslot : IsFree (slot sb l vol _) := (h.slot hi).1.1 hfree
    have hkept : StKept env sb l l.dropLast vol _ := (h.mono hdrop).of_looked hlook
    exact addFound_kept hdir.chain.clusters hdir.dirAt (fun x hx => hx) hback hi hslot hkept hcur hbhs hcount hr herr
  | @ended f hlook hcount =>
    simp only at hr
    by_cases hcorrupt : dir.isRoot = false ∧ dir.iStart = 0
    · rw [if_pos hcorrupt, Option.some.injEq] at hr
      rw [← hr]
      exact ⟨herror _ hlook, rfl⟩
    rw [if_neg hcorrupt] at hr
    have hroot : dir.iStart = 0 → dir.isRoot = true := by
      intro hzero
      exact Bool.of_not_eq_false fun hno => hcorrupt ⟨hno, hzero⟩
    unfold addFound at hr
    simp only [hcount, ne_eq, not_true_eq_false, if_false, Nat.sub_zero, Nat.one_ne_zero, not_false_eq_true, if_true] at hr
    have hpf1 : PrevFreeOk sb f.s := by
      rw [hlook]
      exact hpf
    obtain ⟨hkept, hsame⟩ := appendSlots_kept hroot hdir.chain hpf1 (h.of_looked hlook) Nat.one_pos hr
    exact ⟨hkept, hsame herr⟩

end

end AtsLdd.Fat
