/-
What `fat_free_clusters` (fat_entry.c) does to any FAT, whatever fails: corrupt chains, and reads and writes that fail.

A block of the first FAT whose write fails is read again from the device, which may hold an older state of it.

- `fatFreePass_cases`: one pass of the loop stops, or frees the entry in hand and then writes buffers;
- `fatFreeLoop_any`: the entries freed are the first ones of the walk that `Erase` describes;
- `fatFreeClusters_releasesChain`: a release ends, changes only entries that it reached and that were not free, and succeeds on a chain
  only, all of which it frees.
-/
import AtsLdd.Core.Runs
import AtsLdd.Fat.Mirror
import AtsLdd.Fat.Outcome
import AtsLdd.Fat.Search

namespace AtsLdd.Fat

open AtsLdd.Machine AtsLdd.ByteMap AtsLdd.LinkTable AtsLdd.Runs

/-! ## Reads and writes -/

/-- a write of block `b` failed between the two states -/
def WriteFailed (env : Env) (s s' : St) (b : ℕ) : Prop := ∃ t, s.t ≤ t ∧ t < s'.t ∧ env.sync t b = false

/-- what reading and writing buffers does to the first FAT: a block is as it was, or was read again from the device because
its write failed; on the device it is as it was, or was written -/
structure Writes (env : Env) (sb : FatSb) (s s' : St) : Prop where
  le : s.t ≤ s'.t
  vol : ∀ b, InFat sb b → s'.vol b = s.vol b ∨ WriteFailed env s s' b ∧ s'.vol b = s.disk b
  disk : ∀ b, InFat sb b → s'.disk b = s.disk b ∨ s'.disk b = s.vol b
  discards : s'.discards = s.discards

section
variable {env : Env} {sb : FatSb} {s s1 s' : St} {b : ℕ}

theorem WriteFailed.mono {s0 : St} (h : WriteFailed env s s1 b) (h0 : s0.t ≤ s.t) (h1 : s1.t ≤ s'.t) : WriteFailed env s0 s' b := by
  obtain ⟨t, ht, ht', hf⟩ := h
  exact ⟨t, h0.trans ht, ht'.trans_le h1, hf⟩

/-- nothing happened to the first FAT -/
theorem Writes.of_eq (hle : s.t ≤ s'.t) (hvol : ∀ b, InFat sb b → s'.vol b = s.vol b)
    (hdisk : ∀ b, InFat sb b → s'.disk b = s.disk b) (hdis : s'.discards = s.discards) : Writes env sb s s' :=
  ⟨hle, fun b hb => Or.inl (hvol b hb), fun b hb => Or.inl (hdisk b hb), hdis⟩

theorem Writes.refl (env : Env) (sb : FatSb) (s : St) : Writes env sb s s :=
  Writes.of_eq le_rfl (fun _ _ => rfl) (fun _ _ => rfl) rfl

theorem Writes.trans (h : Writes env sb s s1) (h' : Writes env sb s1 s') : Writes env sb s s' where
  le := h.le.trans h'.le
  vol := by
    intro b hb
    rcases h'.vol b hb with h2 | ⟨hf, h2⟩
    · rcases h.vol b hb with h1 | ⟨hf, h1⟩
      · exact Or.inl (h2.trans h1)
      · exact Or.inr ⟨hf.mono le_rfl h'.le, h2.trans h1⟩
    · rcases h.disk b hb with h1 | h1
      · exact Or.inr ⟨hf.mono h.le le_rfl, h2.trans h1⟩
      · exact Or.inl (h2.trans h1)
  disk := by
    intro b hb
    rcases h'.disk b hb with h2 | h2
    · rcases h.disk b hb with h1 | h1
      · exact Or.inl (h2.trans h1)
      · exact Or.inr (h2.trans h1)
    · rcases h.vol b hb with h1 | ⟨-, h1⟩
      · exact Or.inr (h2.trans h1)
      · exact Or.inl (h2.trans h1)
  discards := h'.discards.trans h.discards

theorem brelse_writes (env : Env) (sb : FatSb) (s : St) (b : ℕ) : Writes env sb s (brelse s b) :=
  Writes.of_eq le_rfl (fun _ _ => rfl) (fun _ _ => rfl) rfl

theorem foldl_brelse_writes (env : Env) (sb : FatSb) (bhs : List ℕ) : ∀ s : St, Writes env sb s (bhs.foldl brelse s) := by
  induction bhs with
  | nil => exact Writes.refl env sb
  | cons b bhs ih =>
    intro s
    exact (brelse_writes env sb s b).trans (ih (brelse s b))

theorem Looked.writes (h : Looked s s') (hle : s.t ≤ s'.t) : Writes env sb s s' :=
  Writes.of_eq hle (fun b _ => congrFun h.vol b) (fun b _ => congrFun h.disk b) (by rw [h])

/-- reading an entry changes no block -/
theorem fatEntRead_looked (env : Env) (sb : FatSb) (s : St) (e : FatEntry) (c : ℤ) :
    Looked s (fatEntRead env sb s e c).2.2 ∧ s.t ≤ (fatEntRead env sb s e c).2.2.t := by
  have hrel : ∀ e : FatEntry, Looked s (e.brelse s).2 ∧ s.t ≤ (e.brelse s).2.t := by
    rintro ⟨entry, _ | b, ptr⟩
    · exact ⟨Looked.refl s, le_rfl⟩
    · exact ⟨brelse_looked s b, le_rfl⟩
  unfold fatEntRead
  split_ifs with hout
  · exact hrel e
  · simp only
    split_ifs with hheld
    · exact ⟨Looked.refl s, le_rfl⟩
    · obtain ⟨hlook, hle⟩ := hrel (e.setEntry c)
      generalize (e.setEntry c).brelse s = r at hlook hle ⊢
      unfold fatEntBread
      cases hb : env.bread r.2.t (fatEntBlocknr sb c).2 with
      | true =>
        rw [sbBread_ok hb]
        exact ⟨hlook.trans rfl, Nat.le_succ_of_le hle⟩
      | false =>
        rw [sbBread_fail hb]
        exact ⟨hlook.trans rfl, Nat.le_succ_of_le hle⟩

theorem fatCollectBhs_writes (env : Env) (sb : FatSb) (bhs : List ℕ) (s : St) (e : FatEntry) :
    Writes env sb s (fatCollectBhs bhs s e).2 := by
  unfold fatCollectBhs
  rcases e with ⟨entry, _ | b, ptr⟩
  · exact Writes.refl env sb s
  · simp only
    split_ifs
    · exact Writes.refl env sb s
    · exact Writes.of_eq le_rfl (fun _ _ => rfl) (fun _ _ => rfl) rfl

/-- **One write**, of any buffer. -/
theorem syncDirtyBuffer_writes (env : Env) (sb : FatSb) (s : St) (b : ℕ) : Writes env sb s (syncDirtyBuffer env s b).2 := by
  unfold syncDirtyBuffer
  cases hw : env.sync s.t b with
  | true =>
    refine ⟨Nat.le_succ s.t, fun x _ => Or.inl rfl, fun x _ => ?_, rfl⟩
    by_cases hx : x = b
    · subst hx
      exact Or.inr (Function.update_self _ _ _)
    · exact Or.inl (Function.update_of_ne hx _ _)
  | false =>
    refine ⟨Nat.le_succ s.t, fun x _ => ?_, fun x _ => Or.inl rfl, rfl⟩
    by_cases hx : x = b
    · subst hx
      exact Or.inr ⟨⟨s.t, le_rfl, Nat.lt_succ_self s.t, hw⟩, Function.update_self _ _ _⟩
    · exact Or.inl (Function.update_of_ne hx _ _)

theorem fatSyncBhs_writes (env : Env) (sb : FatSb) (bhs : List ℕ) : ∀ s : St, Writes env sb s (fatSyncBhs env s bhs).2 := by
  induction bhs with
  | nil => exact Writes.refl env sb
  | cons b bhs ih =>
    intro s
    simp only [fatSyncBhs]
    exact (syncDirtyBuffer_writes env sb s b).trans (ih _)

/-- a copy to another FAT -/
theorem fatMirrorCopy_writes (env : Env) {copy : ℕ} (h1 : 1 ≤ copy) (hc : copy < sb.fats) (bhs : List ℕ) :
    ∀ s : St, BhsInFat sb bhs → Writes env sb s (fatMirrorCopy env sb (sb.fatLength * copy) s bhs).2 := by
  induction bhs with
  | nil =>
    intro s _
    exact Writes.refl env sb s
  | cons b bhs ih =>
    intro s hin
    have hout := backup_not_inFat h1 hc (hin b List.mem_cons_self)
    rw [fatMirrorCopy]
    by_cases hget : env.getblk s.t = false
    · rw [if_pos hget]
      exact Writes.of_eq (Nat.le_succ s.t) (fun _ _ => rfl) (fun _ _ => rfl) rfl
    rw [if_neg hget]
    simp only
    set c := sectorAdd (sb.fatLength * copy) b with hcdef
    set s1 : St := { s with
      t := s.t + 1, refs := Function.update s.refs c (s.refs c + 1), vol := Function.update s.vol c (s.vol b) } with hs1
    have hstore : Writes env sb s s1 := by
      refine Writes.of_eq (Nat.le_succ s.t) (fun x hx => Function.update_of_ne ?_ _ _) (fun _ _ => rfl) rfl
      rintro rfl
      exact hout hx
    have hsync : Writes env sb s1 (if sb.synchronous then syncDirtyBuffer env s1 c else (true, s1)).2 := by
      split_ifs
      · exact syncDirtyBuffer_writes env sb s1 c
      · exact Writes.refl env sb s1
    generalize (if sb.synchronous then syncDirtyBuffer env s1 c else (true, s1)) = r at hsync ⊢
    have hrel := (hstore.trans hsync).trans (brelse_writes env sb r.2 c)
    cases r.1 with
    | false => exact hrel
    | true => exact hrel.trans (ih (brelse r.2 c) fun x hx => hin x (List.mem_cons_of_mem _ hx))

theorem fatMirrorLoop_writes (env : Env) {bhs : List ℕ} (hin : BhsInFat sb bhs) (left : ℕ) : ∀ (copy : ℕ) (s : St), 1 ≤ copy →
    copy + left ≤ sb.fats → Writes env sb s (fatMirrorLoop env sb bhs left copy s).2 := by
  induction left with
  | zero =>
    intro copy s _ _
    exact Writes.refl env sb s
  | succ left ih =>
    intro copy s h1 hle
    have hcopy := fatMirrorCopy_writes env h1 (show copy < sb.fats by omega) bhs s hin
    rw [fatMirrorLoop]
    generalize fatMirrorCopy env sb (sb.fatLength * copy) s bhs = r at hcopy ⊢
    simp only
    split_ifs
    · exact hcopy
    · exact hcopy.trans (ih (copy + 1) r.2 (by omega) (by omega))

theorem fatMirrorBhs_writes (env : Env) {bhs : List ℕ} (hin : BhsInFat sb bhs) (s : St) :
    Writes env sb s (fatMirrorBhs env sb s bhs).2 := by
  have hpos := sb.fats_pos
  exact fatMirrorLoop_writes env hin (sb.fats - 1) 1 s le_rfl (by omega)

/-- **Writing buffers of the first FAT**, whatever fails. -/
theorem fatWriteBhs_writes (env : Env) {bhs : List ℕ} (hin : BhsInFat sb bhs) (s : St) (sync : Bool) :
    Writes env sb s (fatWriteBhs env sb s bhs sync).2 := by
  unfold fatWriteBhs
  have hsync : Writes env sb s (if sync = true then fatSyncBhs env s bhs else (0, s)).2 := by
    split_ifs
    · exact fatSyncBhs_writes env sb bhs s
    · exact Writes.refl env sb s
  generalize (if sync = true then fatSyncBhs env s bhs else (0, s)) = r at hsync ⊢
  simp only
  split_ifs
  · exact hsync
  · exact hsync.trans (fatMirrorBhs_writes env hin r.2)

end

/-! ## One pass of the loop -/

/-- one pass of the loop of `fat_free_clusters`: its result, or the entry and the variables of the next pass -/
def fatFreePass (env : Env) (sb : FatSb) (cluster : ℤ) (f : Free) : (ℤ × Free) ⊕ (ℤ × Free) :=
  match fatEntRead env sb f.s f.fatent cluster with
  | (cluster, fatent, s) =>
    let f := { f with fatent := fatent, s := s }
    if cluster < 0 then .inl (cluster, f)
    else if cluster = FAT_ENT_FREE then .inl (- EIO, f)
    else
      match flushBhs env sb (putFree (issueDiscard sb f cluster)) with
      | (err, f) =>
        if err ≠ 0 then .inl (err, f)
        else if cluster = FAT_ENT_EOF then .inl (0, f.collect)
        else .inr (cluster, f.collect)

/-- the loop ends after `n` passes -/
inductive FreeRun (env : Env) (sb : FatSb) : ℕ → ℤ → Free → ℤ × Free → Prop where
  | done {c : ℤ} {f : Free} {r : ℤ × Free} (h : fatFreePass env sb c f = .inl r) : FreeRun env sb 1 c f r
  | pass {n : ℕ} {c d : ℤ} {f f' : Free} {r : ℤ × Free} (h : fatFreePass env sb c f = .inr (d, f'))
      (p : FreeRun env sb n d f' r) : FreeRun env sb (n + 1) c f r

/-- the loop makes passes -/
theorem fatFreeLoop_pass (env : Env) (sb : FatSb) (fuel : ℕ) (c : ℤ) (f : Free) :
    fatFreeLoop env sb (fuel + 1) c f =
      match fatFreePass env sb c f with
      | .inl r => r
      | .inr (d, f') => fatFreeLoop env sb fuel d f' := by
  unfold fatFreePass
  simp only [fatFreeLoop]
  split_ifs <;> rfl

/-- the blocks that are discarded for the clusters `first` to `last` -/
def discardRange (sb : FatSb) (first last : ℤ) : ℕ × ℕ :=
  (fatClusToBlknr sb first, ulong (int32 ((last - first + 1) * sb.secPerClus)))

/-- entry `c` was freed, and the run of clusters that it ends discarded when its link leads elsewhere; `first` is the first
cluster of the run in hand then -/
structure FreedOne (sb : FatSb) (c : ℤ) (f : Free) (s' : St) (first : ℤ) : Prop where
  le : f.s.t ≤ s'.t
  vol : EqFat sb (fatPut sb f.s.vol c FAT_ENT_FREE) s'.vol
  disk : ∀ b, InFat sb b → s'.disk b = f.s.disk b
  run : (s'.discards, first) = if fatLink sb f.s.vol c = c + 1 then (f.s.discards, f.firstCl)
    else (f.s.discards ++ [discardRange sb f.firstCl c], fatLink sb f.s.vol c)

section
variable {env : Env} {sb : FatSb} {c : ℤ}

/-- flushing, whatever fails -/
theorem flushBhs_any (env : Env) {f : Free} (hbhs : BhsInFat sb f.bhs) :
    Writes env sb f.s (flushBhs env sb f).2.s ∧ (flushBhs env sb f).2.fatent = f.fatent ∧
      (flushBhs env sb f).2.firstCl = f.firstCl ∧ BhsInFat sb (flushBhs env sb f).2.bhs ∧
      ((flushBhs env sb f).1 = 0 → EqFat sb f.s.vol (flushBhs env sb f).2.s.vol) := by
  unfold flushBhs
  by_cases hfull : MAX_BUF_PER_PAGE < f.bhs.length + f.fatent.bh.toList.length
  · rw [if_pos hfull]
    have hwrites := fatWriteBhs_writes env hbhs f.s sb.synchronous
    have hzero := fatWriteBhs_zero env f.s hbhs sb.synchronous
    generalize fatWriteBhs env sb f.s f.bhs sb.synchronous = r at hwrites hzero ⊢
    by_cases hr : r.1 ≠ 0
    · simp only [if_pos hr]
      exact ⟨hwrites, trivial, trivial, hbhs, fun h => absurd h hr⟩
    · simp only [if_neg hr]
      refine ⟨hwrites.trans (foldl_brelse_writes env sb _ r.2), trivial, trivial, BhsInFat.nil sb, fun _ b hb => ?_⟩
      rw [foldl_brelse_vol]
      exact (hzero (not_not.1 hr)).vol b hb
  · rw [if_neg hfull]
    exact ⟨Writes.refl env sb f.s, rfl, rfl, hbhs, fun _ => EqFat.refl sb f.s.vol⟩

/-- discarding and freeing the entry in hand -/
theorem putFree_issueDiscard {f : Free} (hat : f.fatent.At sb c) :
    FreedOne sb c f (putFree (issueDiscard sb f (fatLink sb f.s.vol c))).s
        (putFree (issueDiscard sb f (fatLink sb f.s.vol c))).firstCl ∧
      (putFree (issueDiscard sb f (fatLink sb f.s.vol c))).fatent = f.fatent ∧
      (putFree (issueDiscard sb f (fatLink sb f.s.vol c))).bhs = f.bhs := by
  have hentry := hat.entry
  obtain ⟨hd1, hd2, hd3, -⟩ := issueDiscard_spec sb f (fatLink sb f.s.vol c)
  have hrest : (issueDiscard sb f (fatLink sb f.s.vol c)).s.t = f.s.t ∧
      (issueDiscard sb f (fatLink sb f.s.vol c)).s.disk = f.s.disk := by
    unfold issueDiscard
    split <;> exact ⟨rfl, rfl⟩
  have hrun : ((issueDiscard sb f (fatLink sb f.s.vol c)).s.discards, (issueDiscard sb f (fatLink sb f.s.vol c)).firstCl) =
      if fatLink sb f.s.vol c = c + 1 then (f.s.discards, f.firstCl)
      else (f.s.discards ++ [discardRange sb f.firstCl c], fatLink sb f.s.vol c) := by
    unfold issueDiscard
    rw [hentry]
    by_cases hnext : fatLink sb f.s.vol c = c + 1
    · rw [if_neg (not_not.2 hnext), if_pos hnext]
    · rw [if_pos hnext, if_neg hnext]
      rfl
  have hat1 : (issueDiscard sb f (fatLink sb f.s.vol c)).fatent.At sb c := hd1 ▸ hat
  generalize issueDiscard sb f (fatLink sb f.s.vol c) = f1 at hd1 hd2 hd3 hrest hrun hat1 ⊢
  have hput : (putFree f1).s.t = f1.s.t ∧ (putFree f1).s.disk = f1.s.disk ∧ (putFree f1).s.discards = f1.s.discards ∧
      (putFree f1).firstCl = f1.firstCl := by
    unfold putFree
    simp only [hat1.put]
    exact ⟨trivial, trivial, trivial, trivial⟩
  obtain ⟨hp1, hp2, hp3, -⟩ := putFree_spec hat1
  obtain ⟨ht, hdisk, hdis, hfirst⟩ := hput
  refine ⟨⟨?_, ?_, ?_, ?_⟩, hp1.trans hd1, hp2.trans hd2⟩
  · rw [ht, hrest.1]
  · rw [hp3, hd3]
    exact EqFat.refl sb _
  · intro b _
    rw [hdisk, hrest.2]
  · rw [hdis, hfirst, hrun]

/-- **One pass.** The loop stops at the entry, or frees it and writes buffers; when that succeeds it ends at an EOF mark, and
goes on to the link otherwise. -/
theorem fatFreePass_cases (env : Env) (c : ℤ) {f : Free} (hbhs : BhsInFat sb f.bhs) :
    (∃ f', fatFreePass env sb c f = .inl ((- EIO : ℤ), f') ∧ Writes env sb f.s f'.s ∧ BhsInFat sb f'.bhs) ∨
    (InRange sb c ∧ fatLink sb f.s.vol c ≠ FAT_ENT_FREE ∧ ∃ s1 f', FreedOne sb c f s1 f'.firstCl ∧ Writes env sb s1 f'.s ∧
      BhsInFat sb f'.bhs ∧
      ((∃ err, err ≠ 0 ∧ fatFreePass env sb c f = .inl (err, f')) ∨
        EqFat sb s1.vol f'.s.vol ∧ fatFreePass env sb c f =
          if fatLink sb f.s.vol c = FAT_ENT_EOF then .inl (0, f') else .inr (fatLink sb f.s.vol c, f'))) := by
  obtain ⟨hlook, hle⟩ := fatEntRead_looked env sb f.s f.fatent c
  obtain ⟨v, e, s1, hres, -, hv⟩ := fatEntRead_any env sb f.s f.fatent c
  rw [hres] at hlook hle
  simp only at hlook hle
  have hvol : s1.vol = f.s.vol := hlook.vol
  by_cases hbad : v < 0 ∨ v = FAT_ENT_FREE
  · left
    have hstop : v = - EIO ∨ v = FAT_ENT_FREE := by
      rcases hbad with h | h
      · rcases hv with hv | ⟨-, hv, -⟩
        · exact Or.inl hv
        · rw [hv] at h
          exact absurd h (not_lt.2 (fat32EntGet_bounds _ _).1)
      · exact Or.inr h
    refine ⟨{ f with fatent := e, s := s1 }, ?_, hlook.writes hle, hbhs⟩
    rcases hstop with rfl | rfl
    · simp only [fatFreePass, hres, if_pos (show (- EIO : ℤ) < 0 by decide)]
    · simp only [fatFreePass, hres, if_neg (show ¬ FAT_ENT_FREE < 0 by decide), if_true]
  rw [not_or] at hbad
  obtain ⟨hneg, hfree⟩ := hbad
  rcases hv with hv | ⟨hc, hv, hat⟩
  · rw [hv] at hneg
    exact absurd (show (- EIO : ℤ) < 0 by decide) hneg
  right
  subst hv
  refine ⟨hc, hfree, ?_⟩
  set f1 : Free := { f with fatent := e, s := s1 } with hf1
  have hlink : fatLink sb f1.s.vol c = fatLink sb f.s.vol c := by
    unfold fatLink
    rw [show f1.s.vol = f.s.vol from hvol]
  obtain ⟨hone, hent, hbhs1⟩ := putFree_issueDiscard (f := f1) hat
  rw [hlink] at hone hent hbhs1
  have hpass : fatFreePass env sb c f =
      match flushBhs env sb (putFree (issueDiscard sb f1 (fatLink sb f.s.vol c))) with
      | (err, f') => if err ≠ 0 then .inl (err, f') else if fatLink sb f.s.vol c = FAT_ENT_EOF then .inl (0, f'.collect)
        else .inr (fatLink sb f.s.vol c, f'.collect) := by
    simp only [fatFreePass, hres, if_neg hneg, if_neg hfree]
    rfl
  have hone' : FreedOne sb c f (putFree (issueDiscard sb f1 (fatLink sb f.s.vol c))).s
      (putFree (issueDiscard sb f1 (fatLink sb f.s.vol c))).firstCl := by
    refine ⟨hle.trans hone.le, ?_, fun b hb => (hone.disk b hb).trans (congrFun hlook.disk b), ?_⟩
    · have hv := hone.vol
      rwa [show f1.s.vol = f.s.vol from hvol] at hv
    · have hr := hone.run
      rw [hlink, show f1.s.discards = f.s.discards by rw [hf1, hlook]] at hr
      exact hr
  have hbhs2 : BhsInFat sb (putFree (issueDiscard sb f1 (fatLink sb f.s.vol c))).bhs := by
    rw [hbhs1]
    exact hbhs
  have hat2 : (putFree (issueDiscard sb f1 (fatLink sb f.s.vol c))).fatent.At sb c := hent ▸ hat
  generalize putFree (issueDiscard sb f1 (fatLink sb f.s.vol c)) = f2 at hone' hbhs2 hat2 hpass
  obtain ⟨hw, hent3, hfirst3, hbhs3, hzero⟩ := flushBhs_any env hbhs2
  generalize flushBhs env sb f2 = r at hw hent3 hfirst3 hbhs3 hzero hpass
  rw [← hfirst3] at hone'
  by_cases herr : r.1 ≠ 0
  · refine ⟨f2.s, r.2, hone', hw, hbhs3, Or.inl ⟨r.1, herr, ?_⟩⟩
    rw [hpass]
    simp only [if_pos herr]
  · obtain ⟨hbhs4, -⟩ := fatCollectBhs_spec r.2.s (hent3 ▸ hat2) hc hbhs3
    refine ⟨f2.s, r.2.collect, hone', hw.trans (fatCollectBhs_writes env sb _ _ _), hbhs4, Or.inr ⟨fun b hb => ?_, ?_⟩⟩
    · have hcol : r.2.collect.s.vol = r.2.s.vol := fatCollectBhs_vol _ _ _
      rw [hcol]
      exact hzero (not_not.1 herr) b hb
    · rw [hpass]
      simp only [if_neg herr]

end

/-! ## The loop -/

/-- what was discarded when the entries `l` were freed from `a` on -/
def discarded (sb : FatSb) (vol : Vol) (a : ℤ) (l : List ℤ) : List (ℕ × ℕ) :=
  (runs (fatLink sb vol) a l).1.map fun r => discardRange sb r.1 r.2

/-- the entries `l` have been freed from `a` on, and no write has failed; the device holds an older state of a block -/
structure Freeing (sb : FatSb) (s : St) (a : ℤ) (l : List ℤ) (s' : St) (first : ℤ) : Prop where
  le : s.t ≤ s'.t
  vol : EqFat sb (freePuts sb s.vol l) s'.vol
  disk : ∀ b, InFat sb b → s'.disk b = s.disk b ∨ ∃ pre, pre <+: l ∧ s'.disk b = freePuts sb s.vol pre b
  discards : s'.discards = s.discards ++ discarded sb s.vol a l
  first : first = (runs (fatLink sb s.vol) a l).2

/-- the entries `l` were freed from `a` on; a block whose write failed is in an older state -/
structure Released (env : Env) (sb : FatSb) (s : St) (a : ℤ) (l : List ℤ) (s' : St) : Prop where
  le : s.t ≤ s'.t
  vol : ∀ b, InFat sb b → s'.vol b = freePuts sb s.vol l b ∨
    WriteFailed env s s' b ∧ (s'.vol b = s.disk b ∨ ∃ pre, pre <+: l ∧ s'.vol b = freePuts sb s.vol pre b)
  discards : s'.discards = s.discards ++ discarded sb s.vol a l

section
variable {env : Env} {sb : FatSb} {s s1 s' : St} {a c first : ℤ} {l : List ℤ}

theorem Freeing.start (sb : FatSb) (s : St) (a : ℤ) : Freeing sb s a [] s a :=
  ⟨le_rfl, EqFat.refl sb s.vol, fun _ _ => Or.inl rfl, (List.append_nil _).symm, rfl⟩

theorem Released.writes (h : Released env sb s a l s1) (w : Writes env sb s1 s') (hvol : EqFat sb s1.vol s'.vol) :
    Released env sb s a l s' where
  le := h.le.trans w.le
  vol := by
    intro b hb
    rw [hvol b hb]
    rcases h.vol b hb with h1 | ⟨hf, h1⟩
    · exact Or.inl h1
    · exact Or.inr ⟨hf.mono le_rfl w.le, h1⟩
  discards := w.discards.trans h.discards

/-- writes behind the entries freed -/
theorem Freeing.released (h : Freeing sb s a l s1 first) (w : Writes env sb s1 s') : Released env sb s a l s' where
  le := h.le.trans w.le
  vol := by
    intro b hb
    rcases w.vol b hb with h1 | ⟨hf, h1⟩
    · exact Or.inl (h1.trans (h.vol b hb))
    · refine Or.inr ⟨hf.mono h.le le_rfl, ?_⟩
      rcases h.disk b hb with h2 | ⟨pre, hpre, h2⟩
      · exact Or.inl (h1.trans h2)
      · exact Or.inr ⟨pre, hpre, h1.trans h2⟩
  discards := w.discards.trans h.discards

/-- writes that succeed -/
theorem Freeing.writes (h : Freeing sb s a l s1 first) (w : Writes env sb s1 s') (heq : EqFat sb s1.vol s'.vol) :
    Freeing sb s a l s' first where
  le := h.le.trans w.le
  vol := h.vol.trans heq
  disk := by
    intro b hb
    rcases w.disk b hb with h1 | h1
    · rcases h.disk b hb with h2 | ⟨pre, hpre, h2⟩
      · exact Or.inl (h1.trans h2)
      · exact Or.inr ⟨pre, hpre, h1.trans h2⟩
    · exact Or.inr ⟨l, List.prefix_rfl, h1.trans (h.vol b hb)⟩
  discards := w.discards.trans h.discards
  first := h.first

/-- an entry that is not free has not been freed, and has the link that it had -/
theorem Freeing.link (h : Freeing sb s a l s1 first) (hl : ∀ x ∈ l, InRange sb x) (hc : InRange sb c)
    (hlink : fatLink sb s1.vol c ≠ FAT_ENT_FREE) : c ∉ l ∧ fatLink sb s1.vol c = fatLink sb s.vol c := by
  have hval := h.vol.val hc
  rw [fatVal_freePuts hl hc] at hval
  have hnot : c ∉ l := by
    intro hmem
    rw [if_pos hmem] at hval
    exact hlink (fatLink_eq_free.2 hval)
  rw [if_neg hnot] at hval
  exact ⟨hnot, by rw [fatLink_eq, fatLink_eq, hval]⟩

/-- **One more entry.** -/
theorem Freeing.step {f : Free} (h : Freeing sb s a l f.s f.firstCl) (hone : FreedOne sb c f s1 first)
    (hc : InRange sb c) (hlink : fatLink sb f.s.vol c = fatLink sb s.vol c) : Freeing sb s a (l ++ [c]) s1 first := by
  have hruns := runs_append (fatLink sb s.vol) a l c
  have hrun := hone.run
  rw [hlink] at hrun
  have hput : freePuts sb s.vol (l ++ [c]) = fatPut sb (freePuts sb s.vol l) c FAT_ENT_FREE := by
    unfold freePuts
    rw [List.foldl_append]
    rfl
  refine ⟨h.le.trans hone.le, ?_, fun b hb => ?_, ?_, ?_⟩
  · rw [hput]
    exact (h.vol.fatPut hc _).trans hone.vol
  · rw [hone.disk b hb]
    rcases h.disk b hb with h1 | ⟨pre, hpre, h1⟩
    · exact Or.inl h1
    · exact Or.inr ⟨pre, hpre.trans (List.prefix_append l [c]), h1⟩
  · unfold discarded
    rw [hruns, runStep]
    by_cases hnext : fatLink sb s.vol c = c + 1
    · rw [if_pos hnext] at hrun ⊢
      exact (Prod.mk.inj hrun).1.trans h.discards
    · rw [if_neg hnext] at hrun ⊢
      rw [(Prod.mk.inj hrun).1, h.discards, ← h.first, List.map_append, List.append_assoc]
      rfl
  · rw [hruns, runStep]
    by_cases hnext : fatLink sb s.vol c = c + 1
    · rw [if_pos hnext] at hrun ⊢
      exact (Prod.mk.inj hrun).2.trans h.first
    · rw [if_neg hnext] at hrun ⊢
      exact (Prod.mk.inj hrun).2

/-- **The loop, whatever fails**: it ends, and frees the first entries of the walk, and all of them, up to an EOF mark, if it
succeeds. -/
theorem fatFreeLoop_any (env : Env) (fuel : ℕ) : ∀ {c : ℤ} {l done : List ℤ} {ended : Bool} {f : Free},
    Freeing sb s a done f.s f.firstCl → (∀ x ∈ done, InRange sb x) → BhsInFat sb f.bhs → Erase (table sb f.s.vol) c l ended →
    l.length < fuel → ∃ n ≤ l.length + 1, ∃ err f', FreeRun env sb n c f (err, f') ∧ fatFreeLoop env sb fuel c f = (err, f') ∧
      BhsInFat sb f'.bhs ∧ (err ≠ 0 ∧ (∃ pre, pre <+: l ∧ Released env sb s a (done ++ pre) f'.s) ∨
        err = 0 ∧ ended = true ∧ Freeing sb s a (done ++ l) f'.s f'.firstCl) := by
  induction fuel with
  | zero => exact fun _ _ _ _ hlen => absurd hlen (Nat.not_lt_zero _)
  | succ fuel ih =>
    intro c l done ended f hfr hdone hbhs p hlen
    rw [fatFreeLoop_pass]
    rcases fatFreePass_cases env c hbhs with ⟨f', hstop, hw, hbhs'⟩ |
      ⟨hc, hlink, s1, f', hone, hw, hbhs', ⟨err, herr, hfail⟩ | ⟨heq, hpass⟩⟩
    · rw [hstop]
      refine ⟨1, Nat.le_add_left 1 _, _, f', .done hstop, rfl, hbhs',
        Or.inl ⟨show (- EIO : ℤ) ≠ 0 by decide, [], List.nil_prefix, ?_⟩⟩
      rw [List.append_nil]
      exact hfr.released hw
    · -- the entry is freed, and a write of the batch fails
      obtain ⟨-, hsame⟩ := hfr.link hdone hc hlink
      have hnext := hfr.step hone hc hsame
      rw [hfail]
      refine ⟨1, Nat.le_add_left 1 _, err, f', .done hfail, rfl, hbhs', Or.inl ⟨herr, [c], ?_, hnext.released hw⟩⟩
      cases p with
      | stop h => exact absurd ((table_eq_free hc).1 h) hlink
      | last h => exact List.prefix_rfl
      | next h p => exact List.prefix_append [c] _
    · obtain ⟨-, hsame⟩ := hfr.link hdone hc hlink
      have hnext := (hfr.step hone hc hsame).writes hw heq
      cases p with
      | stop h => exact absurd ((table_eq_free hc).1 h) hlink
      | last h =>
        rw [if_pos ((table_eq_last hc).1 h)] at hpass
        rw [hpass]
        exact ⟨1, Nat.le_add_left 1 _, 0, f', .done hpass, rfl, hbhs', Or.inr ⟨rfl, rfl, hnext⟩⟩
      | @next _ _ b l _ h p =>
        obtain ⟨hisLink, hsucc⟩ := fatSucc_isLink ((table_eq_next hc).1 h)
        rw [if_neg hisLink.2, hsucc] at hpass
        rw [hpass]
        have hT : table sb f'.s.vol = Function.update (table sb f.s.vol) c .free := by
          rw [(hone.vol.trans heq).table, table_fatPut hc Storable.free, toLink_readBack_free]
        rw [← hT] at p
        have hdone' : ∀ x ∈ done ++ [c], InRange sb x := by
          intro x hx
          rcases List.mem_append.1 hx with hx | hx
          · exact hdone x hx
          · exact List.mem_singleton.1 hx ▸ hc
        obtain ⟨n, hn, err, f2, hrun, hloop, hbhs2, hres⟩ := ih hnext hdone' hbhs' p (Nat.lt_of_succ_lt_succ hlen)
        refine ⟨n + 1, Nat.succ_le_succ hn, err, f2, .pass hpass hrun, hloop, hbhs2, ?_⟩
        rcases hres with ⟨herr, pre, hpre, hrel⟩ | ⟨hzero, hended, hall⟩
        · refine Or.inl ⟨herr, c :: pre, List.cons_prefix_cons.2 ⟨rfl, hpre⟩, ?_⟩
          rwa [List.append_assoc] at hrel
        · rw [List.append_assoc] at hall
          exact Or.inr ⟨hzero, hended, hall⟩

/-- the variables of `fat_free_clusters` at the start -/
def freeStart (s : St) (a : ℤ) : Free := ⟨fatentInit, [], a, s⟩

/-- **The whole call, whatever fails.** -/
theorem fatFreeClusters_any (env : Env) {ended : Bool} (p : Erase (table sb s.vol) a l ended) :
    (∃ n ≤ sb.maxCluster, FreeRun env sb n a (freeStart s a) (fatFreeLoop env sb sb.maxCluster a (freeStart s a))) ∧
      ((fatFreeClusters env sb s a).1 ≠ 0 ∧ (∃ pre, pre <+: l ∧ Released env sb s a pre (fatFreeClusters env sb s a).2) ∨
        (fatFreeClusters env sb s a).1 = 0 ∧ ended = true ∧
          ∃ first, Freeing sb s a l (fatFreeClusters env sb s a).2 first) := by
  have hlen := erase_length_lt p
  obtain ⟨n, hn, err, f, hrun, hloop, hbhs, hres⟩ := fatFreeLoop_any env sb.maxCluster (f := freeStart s a)
    (Freeing.start sb s a) (fun _ hx => absurd hx List.not_mem_nil) (BhsInFat.nil sb) p hlen
  have hrel : ∀ s1 : St, Writes env sb s1 (f.bhs.foldl brelse (f.fatent.brelse s1).2) := by
    intro s1
    refine Writes.trans ?_ (foldl_brelse_writes env sb f.bhs _)
    rcases f.fatent with ⟨entry, _ | b, ptr⟩
    · exact Writes.refl env sb s1
    · exact brelse_writes env sb s1 b
  refine ⟨⟨n, hn.trans hlen, hloop ▸ hrun⟩, ?_⟩
  have hcall : fatFreeClusters env sb s a =
      let r := if err ≠ 0 then (err, f.s) else fatWriteBhs env sb f.s f.bhs sb.synchronous
      (r.1, f.bhs.foldl brelse (f.fatent.brelse r.2).2) := by
    unfold fatFreeClusters
    rw [← freeStart, hloop]
  rw [hcall]
  rcases hres with ⟨herr, pre, hpre, hreleased⟩ | ⟨hzero, hended, hall⟩
  · rw [if_pos herr]
    refine Or.inl ⟨herr, pre, hpre, hreleased.writes (hrel f.s) fun b _ => ?_⟩
    rw [foldl_brelse_vol, FatEntry.brelse_vol]
  · rw [if_neg (not_not.2 hzero)]
    have hw := fatWriteBhs_writes env hbhs f.s sb.synchronous
    have hok := fatWriteBhs_zero env f.s hbhs sb.synchronous
    generalize fatWriteBhs env sb f.s f.bhs sb.synchronous = r at hw hok ⊢
    by_cases hr : r.1 = 0
    · refine Or.inr ⟨hr, hended, f.firstCl, hall.writes (hw.trans (hrel r.2)) fun b hb => ?_⟩
      rw [foldl_brelse_vol, FatEntry.brelse_vol]
      exact (hok hr).vol b hb
    · exact Or.inl ⟨hr, l, List.prefix_rfl, hall.released (hw.trans (hrel r.2))⟩

/-- a release that stops short of an EOF mark reports it, when nothing fails -/
theorem fatFreeClusters_short (henv : env.NoFault) (p : Erase (table sb s.vol) a l false) :
    (fatFreeClusters env sb s a).1 = - EIO := by
  obtain ⟨f, hloop, -⟩ := fatFreeLoop_erase henv p (f := freeStart s a) rfl (erase_length_lt p) (batched_start sb s a)
  unfold fatFreeClusters
  rw [← freeStart, hloop]
  rfl

/-! ## Only the chain -/

/-- byte `j` of block `b` is a byte of the word of entry `c` -/
def InWord (sb : FatSb) (c : ℤ) (b j : ℕ) : Prop :=
  (fatEntBlocknr sb c).2 = b ∧ (fatEntBlocknr sb c).1 ≤ j ∧ j < (fatEntBlocknr sb c).1 + 4

/-- entry `c` is an entry of the volume that was reached from `a` and was not free; now it is, with its top 4 bits kept -/
structure FreedEntry (sb : FatSb) (vol vol' : Vol) (a c : ℤ) : Prop where
  inRange : InRange sb c
  reached : Reach (table sb vol) a c
  before : fatVal sb vol c ≠ FAT_ENT_FREE
  after : fatVal sb vol' c = FAT_ENT_FREE
  top : fatTop sb vol' c = fatTop sb vol c

/-- a byte that a store changes is one of the entry -/
theorem fatPut_byte {vol : Vol} {new : ℤ} {b j : ℕ} (h : fatPut sb vol c new b j ≠ vol b j) : InWord sb c b j := by
  unfold fatPut at h
  by_cases hb : b = (fatEntBlocknr sb c).2
  · subst hb
    rw [Function.update_self] at h
    refine ⟨rfl, ?_⟩
    by_contra hout
    exact h (splice_of_not_mem hout)
  · rw [Function.update_of_ne hb] at h
    exact absurd rfl h

theorem freePuts_byte {b j : ℕ} : ∀ {l : List ℤ} {vol : Vol}, freePuts sb vol l b j ≠ vol b j → ∃ c ∈ l, InWord sb c b j := by
  intro l
  induction l with
  | nil => exact fun h => absurd rfl h
  | cons d l ih =>
    intro vol h
    by_cases hd : fatPut sb vol d FAT_ENT_FREE b j = vol b j
    · rw [← hd] at h
      obtain ⟨c, hc, hword⟩ := ih h
      exact ⟨c, List.mem_cons_of_mem _ hc, hword⟩
    · exact ⟨d, List.mem_cons_self, fatPut_byte hd⟩

/-- what the entries of a block hold depends on the block -/
theorem freedEntry_of_block {vol vol' : Vol} {ended : Bool} {pre : List ℤ} (p : Erase (table sb vol) a l ended)
    (hpre : pre <+: l) (hc : c ∈ pre) (hb : vol' (fatEntBlocknr sb c).2 = freePuts sb vol pre (fatEntBlocknr sb c).2) :
    FreedEntry sb vol vol' a c := by
  have hin := erase_inRange p
  have hcl := hpre.subset hc
  have hpin : ∀ x ∈ pre, InRange sb x := fun x hx => hin x (hpre.subset hx)
  have hword : fatWord sb vol' c = fatWord sb (freePuts sb vol pre) c := by
    unfold fatWord
    rw [hb]
  refine ⟨hin c hcl, p.reach c hcl, fun h => ?_, ?_, ?_⟩
  · exact p.not_free c hcl ((table_eq_free (hin c hcl)).2 (fatLink_eq_free.2 h))
  · have hval : fatVal sb (freePuts sb vol pre) c = _ := fatVal_freePuts hpin (hin c hcl)
    rw [if_pos hc] at hval
    unfold fatVal at hval ⊢
    rw [hword]
    exact hval
  · have htop : fatTop sb (freePuts sb vol pre) c = _ := fatTop_freePuts hpin (hin c hcl)
    unfold fatTop at htop ⊢
    rw [hword]
    exact htop

/-- what a release of the chain from `a` does, on any FAT and whatever fails -/
structure ReleasesChain (env : Env) (sb : FatSb) (s : St) (a : ℤ) : Prop where
  /-- the loop ends -/
  ends : ∃ n ≤ sb.maxCluster, FreeRun env sb n a (freeStart s a) (fatFreeLoop env sb sb.maxCluster a (freeStart s a))
  /-- a block of the FAT changes in the words of entries that are freed, or was read again because its write failed -/
  changed : ∀ b, InFat sb b →
    (∀ j, (fatFreeClusters env sb s a).2.vol b j = s.vol b j ∨
      ∃ c, InWord sb c b j ∧ FreedEntry sb s.vol (fatFreeClusters env sb s a).2.vol a c) ∨
    WriteFailed env s (fatFreeClusters env sb s a).2 b ∧ (fatFreeClusters env sb s a).2.vol b = s.disk b
  /-- success is for chains only, which are freed -/
  freed : (fatFreeClusters env sb s a).1 = 0 → ∃ l, Path (table sb s.vol) a l ∧
    (∀ c ∈ l, FreedEntry sb s.vol (fatFreeClusters env sb s a).2.vol a c) ∧
    ∀ b, InFat sb b → ∀ j, (fatFreeClusters env sb s a).2.vol b j ≠ s.vol b j → ∃ c ∈ l, InWord sb c b j
  /-- a free entry on the way, a number outside the volume or a cycle is an error -/
  refused : ((∃ c, Reach (table sb s.vol) a c ∧ table sb s.vol c = .free) ∨
      ∃ c, Reach (table sb s.vol) a c ∧ Relation.TransGen (Follows (table sb s.vol)) c c) →
    (fatFreeClusters env sb s a).1 ≠ 0 ∧ (env.NoFault → (fatFreeClusters env sb s a).1 = - EIO)

/-- **A release ends and frees the chain only**, whatever the FAT holds, whatever the start, and whatever fails. -/
theorem fatFreeClusters_releasesChain (env : Env) (sb : FatSb) (s : St) (a : ℤ) : ReleasesChain env sb s a := by
  obtain ⟨l, ended, p, -⟩ := erase_table sb s.vol a
  obtain ⟨hends, hres⟩ := fatFreeClusters_any env p
  refine ⟨hends, ?_, ?_, ?_⟩
  · intro b hb
    -- the block is as it is when the entries `pre` are freed
    have hblock : ∀ pre, pre <+: l → (fatFreeClusters env sb s a).2.vol b = freePuts sb s.vol pre b →
        ∀ j, (fatFreeClusters env sb s a).2.vol b j = s.vol b j ∨
          ∃ c, InWord sb c b j ∧ FreedEntry sb s.vol (fatFreeClusters env sb s a).2.vol a c := by
      intro pre hpre heq j
      by_cases hj : (fatFreeClusters env sb s a).2.vol b j = s.vol b j
      · exact Or.inl hj
      · rw [heq] at hj
        obtain ⟨c, hc, hword⟩ := freePuts_byte hj
        refine Or.inr ⟨c, hword, freedEntry_of_block p hpre hc ?_⟩
        rw [hword.1]
        exact heq
    rcases hres with ⟨-, pre, hpre, hrel⟩ | ⟨-, -, first, hall⟩
    · rcases hrel.vol b hb with h | ⟨hf, h | ⟨pre', hpre', h⟩⟩
      · exact Or.inl (hblock pre hpre h)
      · exact Or.inr ⟨hf, h⟩
      · exact Or.inl (hblock pre' (hpre'.trans hpre) h)
    · exact Or.inl (hblock l List.prefix_rfl (hall.vol b hb))
  · intro hzero
    rcases hres with ⟨herr, -⟩ | ⟨-, hended, first, hall⟩
    · exact absurd hzero herr
    refine ⟨l, p.path hended, fun c hc => ?_, fun b hb j hj => ?_⟩
    · exact freedEntry_of_block p List.prefix_rfl hc (hall.vol _ (fatEntBlocknr_inFat (erase_inRange p c hc)))
    · rw [hall.vol b hb] at hj
      exact freePuts_byte hj
  · intro hbad
    have hended : ended = false := by
      by_contra htrue
      have hpath := p.path (Bool.eq_true_of_not_eq_false htrue)
      rcases hbad with ⟨c, hreach, hfree⟩ | ⟨c, hreach, hloop⟩
      · exact hpath.not_free (hpath.mem_of_reach hreach) hfree
      · exact hpath.acyclic hreach hloop
    subst hended
    refine ⟨?_, fun henv => fatFreeClusters_short henv p⟩
    rcases hres with ⟨herr, -⟩ | ⟨-, hended, -⟩
    · exact herr
    · cases hended

end

end AtsLdd.Fat
