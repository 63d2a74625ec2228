/-
The backup FATs: `fat_mirror_bhs`, and what `fat_free_clusters` does to them (fat_entry.c).

A block of the first FAT is in step when every other FAT has the same block. Freeing a chain changes blocks one by one, and
mirrors them in batches of `MAX_BUF_PER_PAGE`; `awaiting` are the blocks that it changed and has not mirrored yet.

- `fatMirrorBhs_mirrored`: exactly the blocks given are copied to every other FAT;
- `fatFreeLoop_copies`: one step frees an entry, and its block waits for the next batch;
- `fatFreeClusters_last`, `fatFreeClusters_stop`: a release that comes to an EOF mark leaves every block that it changed in
  step; one that stops earlier leaves out of step exactly the blocks that still waited.
-/
import AtsLdd.Fat.FreeClusters

namespace AtsLdd.Fat

open AtsLdd.Machine AtsLdd.LinkTable

/-! ## Copies -/

/-- block `b` of the first FAT, in FAT number `copy` -/
def fatCopy (sb : FatSb) (copy b : ℕ) : ℕ := sectorAdd (sb.fatLength * copy) b

/-- every other FAT has the same block `b` -/
def SameCopies (sb : FatSb) (vol : Vol) (b : ℕ) : Prop := ∀ copy, 1 ≤ copy → copy < sb.fats → vol (fatCopy sb copy b) = vol b

/-- the backup FATs equal the first one -/
def InStep (sb : FatSb) (vol : Vol) : Prop := ∀ b, InFat sb b → SameCopies sb vol b

/-- the blocks of the FATs -/
def InFats (sb : FatSb) (b : ℕ) : Prop := sb.fatStart ≤ b ∧ b < sb.fatStart + sb.fats * sb.fatLength

instance (sb : FatSb) (b : ℕ) : Decidable (InFats sb b) := inferInstanceAs (Decidable (_ ∧ _))

section
variable {sb : FatSb} {vol vol' : Vol} {b b' copy copy' : ℕ}

theorem fatCopy_eq (hc : copy < sb.fats) (hb : InFat sb b) : fatCopy sb copy b = sb.fatLength * copy + b := by
  have hfl := sb.fatLength_max
  have hfs := sb.fatStart_max
  have hfats := sb.fats_max
  obtain ⟨-, hb2⟩ := hb
  have hmul : sb.fatLength * copy ≤ 2 ^ 32 * 2 ^ 8 := Nat.mul_le_mul hfl.le (by omega)
  unfold fatCopy sectorAdd
  exact ulong_natCast (by omega)

/-- different blocks of the first FAT, or different FATs, have different blocks -/
theorem fatCopy_inj (hc : copy < sb.fats) (hc' : copy' < sb.fats) (hb : InFat sb b) (hb' : InFat sb b')
    (h : fatCopy sb copy b = fatCopy sb copy' b') : copy = copy' ∧ b = b' := by
  rw [fatCopy_eq hc hb, fatCopy_eq hc' hb'] at h
  obtain ⟨hb1, hb2⟩ := hb
  obtain ⟨hb1', hb2'⟩ := hb'
  have hcopy : copy = copy' := by
    rcases lt_trichotomy copy copy' with hlt | heq | hgt
    · have hle : sb.fatLength * (copy + 1) ≤ sb.fatLength * copy' := Nat.mul_le_mul_left _ hlt
      rw [Nat.mul_succ] at hle
      omega
    · exact heq
    · have hle : sb.fatLength * (copy' + 1) ≤ sb.fatLength * copy := Nat.mul_le_mul_left _ hgt
      rw [Nat.mul_succ] at hle
      omega
  subst hcopy
  exact ⟨rfl, Nat.add_left_cancel h⟩

theorem fatCopy_not_inFat (h1 : 1 ≤ copy) (hc : copy < sb.fats) (hb : InFat sb b) : ¬ InFat sb (fatCopy sb copy b) :=
  backup_not_inFat h1 hc hb

/-- with one FAT there is nothing to keep in step -/
theorem inStep_of_fats (h : sb.fats = 1) (vol : Vol) : InStep sb vol := by
  intro b _ copy h1 hc
  omega

/-- an entry of a block that is free in the first FAT, and not in any other one -/
def Behind (sb : FatSb) (vol : Vol) (b : ℕ) : Prop :=
  ∃ c, InRange sb c ∧ (fatEntBlocknr sb c).2 = b ∧ linkIn sb (vol b) c = FAT_ENT_FREE ∧
    ∀ copy, 1 ≤ copy → copy < sb.fats → linkIn sb (vol (fatCopy sb copy b)) c ≠ FAT_ENT_FREE

theorem Behind.not_sameCopies (h : Behind sb vol b) (hfats : 1 < sb.fats) : ¬ SameCopies sb vol b := by
  obtain ⟨c, -, -, hfree, hcopies⟩ := h
  intro hsame
  apply hcopies 1 le_rfl hfats
  rw [hsame 1 le_rfl hfats]
  exact hfree

end

/-! ## Mirroring -/

/-- the blocks `bhs` were copied to every other FAT, and the first one is as it was -/
structure Mirrored (sb : FatSb) (bhs : List ℕ) (s s' : St) : Prop where
  same : SameFat sb s s'
  copies : ∀ copy b, 1 ≤ copy → copy < sb.fats → InFat sb b →
    s'.vol (fatCopy sb copy b) = if b ∈ bhs then s.vol b else s.vol (fatCopy sb copy b)

section
variable {env : Env} {sb : FatSb} {s s' : St} {bhs : List ℕ} {b : ℕ}

theorem Mirrored.sameCopies (h : Mirrored sb bhs s s') (hb : InFat sb b) (hor : b ∈ bhs ∨ SameCopies sb s.vol b) :
    SameCopies sb s'.vol b := by
  intro copy h1 hc
  rw [h.copies copy b h1 hc hb, h.same.vol b hb]
  by_cases hmem : b ∈ bhs
  · rw [if_pos hmem]
  · rw [if_neg hmem]
    exact hor.resolve_left hmem copy h1 hc

theorem Mirrored.behind (h : Mirrored sb bhs s s') (hb : InFat sb b) (hmem : b ∉ bhs) (hbeh : Behind sb s.vol b) :
    Behind sb s'.vol b := by
  obtain ⟨c, hc, hblk, hfree, hcopies⟩ := hbeh
  refine ⟨c, hc, hblk, ?_, fun copy h1 hlt => ?_⟩
  · rw [h.same.vol b hb]
    exact hfree
  · rw [h.copies copy b h1 hlt hb, if_neg hmem]
    exact hcopies copy h1 hlt

/-- a step that changes no block -/
theorem Mirrored.congr {s1 s2 : St} (h : Mirrored sb bhs s s') (h1 : s.vol = s1.vol) (h2 : s2.vol = s'.vol)
    (hsame : SameFat sb s1 s2) : Mirrored sb bhs s1 s2 := by
  refine ⟨hsame, fun copy b hp hc hb => ?_⟩
  rw [h2, h.copies copy b hp hc hb, h1]

/-- without a failure, one block is copied and the others follow -/
theorem fatMirrorCopy_cons (sb : FatSb) (henv : env.NoFault) (backupFat : ℕ) (s : St) (b : ℕ) (bhs : List ℕ) :
    ∃ s1, fatMirrorCopy env sb backupFat s (b :: bhs) = fatMirrorCopy env sb backupFat s1 bhs ∧
      s1.vol = Function.update s.vol (sectorAdd backupFat b) (s.vol b) := by
  have hget : ¬ env.getblk s.t = false := by simp [henv.getblk]
  rw [fatMirrorCopy, if_neg hget]
  cases sb.synchronous with
  | false =>
    simp only [Bool.false_eq_true, if_false, if_true]
    exact ⟨_, rfl, rfl⟩
  | true =>
    simp only [if_true, syncDirtyBuffer, henv.sync]
    exact ⟨_, rfl, rfl⟩

/-- one copy: the blocks `bhs` of FAT number `copy`, and nothing else -/
theorem fatMirrorCopy_vol (henv : env.NoFault) {copy : ℕ} (h1 : 1 ≤ copy) (hc : copy < sb.fats) (bhs : List ℕ) :
    ∀ s : St, BhsInFat sb bhs →
      (∀ b, InFat sb b → (fatMirrorCopy env sb (sb.fatLength * copy) s bhs).2.vol (fatCopy sb copy b) =
        if b ∈ bhs then s.vol b else s.vol (fatCopy sb copy b)) ∧
      ∀ x, (∀ b, InFat sb b → x ≠ fatCopy sb copy b) →
        (fatMirrorCopy env sb (sb.fatLength * copy) s bhs).2.vol x = s.vol x := by
  induction bhs with
  | nil =>
    intro s _
    exact ⟨fun b _ => by simp [fatMirrorCopy], fun x _ => rfl⟩
  | cons b bhs ih =>
    intro s hin
    have hb := hin b List.mem_cons_self
    obtain ⟨s1, hstep, hvol⟩ := fatMirrorCopy_cons sb henv (sb.fatLength * copy) s b bhs
    change s1.vol = Function.update s.vol (fatCopy sb copy b) (s.vol b) at hvol
    obtain ⟨hcopies, hrest⟩ := ih s1 fun x hx => hin x (List.mem_cons_of_mem _ hx)
    rw [hstep]
    refine ⟨fun d hd => ?_, fun x hx => ?_⟩
    · rw [hcopies d hd, hvol]
      have hne : d ≠ fatCopy sb copy b := fun he => fatCopy_not_inFat h1 hc hb (he ▸ hd)
      rw [Function.update_of_ne hne]
      by_cases hdb : d = b
      · rw [hdb, Function.update_self, if_pos (List.mem_cons_self (a := b) (l := bhs)), ite_self]
      · have hcne : fatCopy sb copy d ≠ fatCopy sb copy b := fun he => hdb (fatCopy_inj hc hc hd hb he).2
        rw [Function.update_of_ne hcne]
        simp only [List.mem_cons, hdb, false_or]
    · rw [hrest x hx, hvol, Function.update_of_ne (hx b hb)]

/-- the copies from number `copy` on -/
theorem fatMirrorLoop_vol (henv : env.NoFault) (hin : BhsInFat sb bhs) (left : ℕ) : ∀ (copy : ℕ) (s : St), 1 ≤ copy →
    copy + left ≤ sb.fats → ∀ k b, 1 ≤ k → k < sb.fats → InFat sb b →
    (fatMirrorLoop env sb bhs left copy s).2.vol (fatCopy sb k b) =
      if b ∈ bhs ∧ copy ≤ k ∧ k < copy + left then s.vol b else s.vol (fatCopy sb k b) := by
  induction left with
  | zero =>
    intro copy s h1 hle k b hk1 hk hb
    have hno : ¬ (b ∈ bhs ∧ copy ≤ k ∧ k < copy + 0) := by
      rintro ⟨-, h2, h3⟩
      omega
    rw [fatMirrorLoop, if_neg hno]
  | succ left ih =>
    intro copy s h1 hle k b hk1 hk hb
    have hc : copy < sb.fats := by omega
    obtain ⟨hsame, herr⟩ := fatMirrorCopy_spec env h1 hc bhs s hin
    obtain ⟨hcopies, hrest⟩ := fatMirrorCopy_vol henv h1 hc bhs s hin
    have hok := herr henv
    rw [fatMirrorLoop]
    generalize fatMirrorCopy env sb (sb.fatLength * copy) s bhs = r at hsame hcopies hrest hok ⊢
    simp only [hok, ne_eq, not_true_eq_false, if_false]
    rw [ih (copy + 1) r.2 (by omega) (by omega) k b hk1 hk hb, hsame.vol b hb]
    by_cases hkc : k = copy
    · subst hkc
      rw [hcopies b hb, if_neg (fun h => absurd h.2.1 (by omega))]
      by_cases hmem : b ∈ bhs
      · rw [if_pos hmem, if_pos ⟨hmem, le_rfl, by omega⟩]
      · rw [if_neg hmem, if_neg (fun h => hmem h.1)]
    · have hother : ∀ d, InFat sb d → fatCopy sb k b ≠ fatCopy sb copy d := fun d hd he =>
        hkc (fatCopy_inj hk hc hb hd he).1
      rw [hrest _ hother]
      have hiff : (b ∈ bhs ∧ copy + 1 ≤ k ∧ k < copy + 1 + left) ↔ (b ∈ bhs ∧ copy ≤ k ∧ k < copy + (left + 1)) := by
        constructor
        · rintro ⟨hm, h2, h3⟩
          exact ⟨hm, by omega, by omega⟩
        · rintro ⟨hm, h2, h3⟩
          exact ⟨hm, by omega, by omega⟩
      rw [if_congr hiff rfl rfl]

/-- **Mirroring** copies exactly the blocks given, to every other FAT. -/
theorem fatMirrorBhs_mirrored (henv : env.NoFault) (hin : BhsInFat sb bhs) (s : St) :
    Mirrored sb bhs s (fatMirrorBhs env sb s bhs).2 := by
  have hpos := sb.fats_pos
  refine ⟨(fatMirrorBhs_spec env s hin).1, fun copy b h1 hc hb => ?_⟩
  unfold fatMirrorBhs
  rw [fatMirrorLoop_vol henv hin (sb.fats - 1) 1 s le_rfl (by omega) copy b h1 hc hb]
  have hiff : (b ∈ bhs ∧ 1 ≤ copy ∧ copy < 1 + (sb.fats - 1)) ↔ b ∈ bhs := by
    constructor
    · intro h
      exact h.1
    · intro h
      exact ⟨h, h1, by omega⟩
  rw [if_congr hiff rfl rfl]

theorem fatSyncBhs_noFault (henv : env.NoFault) (bhs : List ℕ) : ∀ s : St,
    (fatSyncBhs env s bhs).1 = 0 ∧ (fatSyncBhs env s bhs).2.vol = s.vol := by
  induction bhs with
  | nil =>
    intro s
    exact ⟨rfl, rfl⟩
  | cons b bhs ih =>
    intro s
    obtain ⟨herr, hvol⟩ := ih { s with t := s.t + 1, disk := Function.update s.disk b (s.vol b) }
    simp only [fatSyncBhs, syncDirtyBuffer, henv.sync, if_true, herr, hvol]
    exact ⟨trivial, trivial⟩

/-- **Writing buffers** of the first FAT mirrors them. -/
theorem fatWriteBhs_mirrored (henv : env.NoFault) (hin : BhsInFat sb bhs) (s : St) (sync : Bool) :
    ∃ s', fatWriteBhs env sb s bhs sync = (0, s') ∧ Mirrored sb bhs s s' := by
  obtain ⟨s', hres, hsame⟩ := fatWriteBhs_ok henv s hin sync
  refine ⟨s', hres, hsame, ?_⟩
  have hs' : s' = (fatWriteBhs env sb s bhs sync).2 := by rw [hres]
  rw [hs']
  unfold fatWriteBhs
  cases sync with
  | false =>
    simp only [Bool.false_eq_true, if_false, ne_eq, not_true_eq_false]
    exact (fatMirrorBhs_mirrored henv hin s).copies
  | true =>
    obtain ⟨herr, hvol⟩ := fatSyncBhs_noFault henv bhs s
    simp only [if_true, herr, ne_eq, not_true_eq_false, if_false]
    rw [← hvol]
    exact (fatMirrorBhs_mirrored henv hin _).copies

end

/-! ## What reading and collecting leave alone -/

section
variable {env : Env} {sb : FatSb}

theorem FatEntry.brelse_vol (e : FatEntry) (s : St) : (e.brelse s).2.vol = s.vol := by
  rcases e with ⟨entry, _ | b, ptr⟩
  · rfl
  · rfl

theorem foldl_brelse_vol (bhs : List ℕ) : ∀ s : St, (bhs.foldl brelse s).vol = s.vol := by
  induction bhs with
  | nil =>
    intro _
    exact rfl
  | cons b bhs ih =>
    intro s
    exact ih (brelse s b)

theorem fatEntBread_vol (env : Env) (s : St) (e : FatEntry) (offset blocknr : ℕ) :
    (fatEntBread env s e offset blocknr).2.2.vol = s.vol := by
  unfold fatEntBread
  cases hb : env.bread s.t blocknr with
  | true => rw [sbBread_ok hb]
  | false => rw [sbBread_fail hb]

/-- reading an entry changes no block -/
theorem fatEntRead_vol (env : Env) (sb : FatSb) (s : St) (e : FatEntry) (c : ℤ) :
    (fatEntRead env sb s e c).2.2.vol = s.vol := by
  unfold fatEntRead
  split_ifs with hout
  · exact e.brelse_vol s
  · simp only
    split_ifs with hheld
    · rfl
    · have hread := fatEntBread_vol env ((e.setEntry c).brelse s).2 ((e.setEntry c).brelse s).1 (fatEntBlocknr sb c).1
        (fatEntBlocknr sb c).2
      rw [(e.setEntry c).brelse_vol s] at hread
      generalize fatEntBread env ((e.setEntry c).brelse s).2 ((e.setEntry c).brelse s).1 (fatEntBlocknr sb c).1
        (fatEntBlocknr sb c).2 = r at hread ⊢
      obtain ⟨ok, e', s'⟩ := r
      cases ok with
      | true => exact hread
      | false => exact hread

theorem fatEntReadBlock_vol (env : Env) (sb : FatSb) (s : St) (e : FatEntry) :
    (fatEntReadBlock env sb s e).2.2.vol = s.vol := by
  unfold fatEntReadBlock
  exact (fatEntBread_vol env _ _ _ _).trans (e.brelse_vol s)

theorem fatCollectBhs_vol (bhs : List ℕ) (s : St) (e : FatEntry) : (fatCollectBhs bhs s e).2.vol = s.vol := by
  unfold fatCollectBhs
  split
  · rfl
  · split_ifs
    · rfl
    · rfl

/-- the buffers collected with that of a cursor on entry `c` -/
theorem fatCollectBhs_bhs {e : FatEntry} {c : ℤ} (hat : e.At sb c) (bhs : List ℕ) (s : St) :
    (fatCollectBhs bhs s e).1 = if (fatEntBlocknr sb c).2 ∈ bhs then bhs else bhs ++ [(fatEntBlocknr sb c).2] := by
  unfold fatCollectBhs
  rw [hat.bh]
  simp only
  split_ifs
  · rfl
  · rfl

end

/-! ## Batches -/

/-- the buffers that a release has collected, and the blocks that it has changed since they were mirrored last -/
structure Batch where
  bhs : List ℕ
  waiting : List ℕ

/-- an entry of block `b` is freed; when the batch is full it is mirrored, and `b` begins the next one -/
def Batch.add (q : Batch) (b : ℕ) : Batch :=
  if q.bhs.length < MAX_BUF_PER_PAGE then ⟨if b ∈ q.bhs then q.bhs else q.bhs ++ [b], b :: q.waiting⟩
  else ⟨[b], (b :: q.waiting).filter (· ∉ q.bhs)⟩

/-- the blocks of the entries `l` -/
def entryBlocks (sb : FatSb) (l : List ℤ) : List ℕ := l.map fun c => (fatEntBlocknr sb c).2

/-- the blocks of the entries `l` that wait to be mirrored when these entries were freed, in this order -/
def awaiting (sb : FatSb) (l : List ℤ) : List ℕ :=
  ((entryBlocks sb l).foldl Batch.add ⟨[], []⟩).waiting

/-- the volume after a release has changed the blocks `seen` of the volume `vol0`, as far as its batches are mirrored -/
structure Batched (sb : FatSb) (vol0 : Vol) (seen : List ℕ) (q : Batch) (vol : Vol) : Prop where
  inFat : BhsInFat sb seen
  bhs : ∀ b ∈ q.bhs, b ∈ seen
  collected : ∀ b ∈ q.waiting, b ∈ q.bhs
  same : ∀ b ∈ seen, b ∈ q.waiting ∨ SameCopies sb vol b
  frame : ∀ b, InFat sb b → b ∉ seen →
    vol b = vol0 b ∧ ∀ copy, 1 ≤ copy → copy < sb.fats → vol (fatCopy sb copy b) = vol0 (fatCopy sb copy b)
  behind : InStep sb vol0 → ∀ b ∈ q.waiting, Behind sb vol b

section
variable {env : Env} {sb : FatSb} {vol0 : Vol} {seen : List ℕ} {q : Batch} {c : ℤ}

theorem Batched.nil (sb : FatSb) (vol : Vol) : Batched sb vol [] ⟨[], []⟩ vol where
  inFat := BhsInFat.nil sb
  bhs := fun _ hb => hb
  collected := fun _ hb => absurd hb List.not_mem_nil
  same := fun _ hb => absurd hb List.not_mem_nil
  frame := fun _ _ _ => ⟨rfl, fun _ _ _ => rfl⟩
  behind := fun _ _ hb => absurd hb List.not_mem_nil

/-- a volume whose FATs are the same -/
theorem Batched.congr {vol vol' : Vol} (h : Batched sb vol0 seen q vol) (heq : vol' = vol) : Batched sb vol0 seen q vol' :=
  heq ▸ h

/-- a block that does not wait is in step, if it was so at the start -/
theorem Batched.sameCopies {vol : Vol} (h : Batched sb vol0 seen q vol) {b : ℕ} (hb : InFat sb b) (hw : b ∉ q.waiting)
    (h0 : SameCopies sb vol0 b) : SameCopies sb vol b := by
  by_cases hseen : b ∈ seen
  · exact (h.same b hseen).resolve_left hw
  · obtain ⟨h1, h2⟩ := h.frame b hb hseen
    intro copy hp hlt
    rw [h2 copy hp hlt, h1]
    exact h0 copy hp hlt

/-- **An entry is freed**, and its block waits. -/
theorem Batched.put {vol : Vol} (h : Batched sb vol0 seen q vol) (hc : InRange sb c)
    (hlink : fatLink sb vol c ≠ FAT_ENT_FREE) (bhs : List ℕ) (hbhs : ∀ b ∈ bhs, b ∈ (fatEntBlocknr sb c).2 :: seen)
    (hcol : ∀ b ∈ (fatEntBlocknr sb c).2 :: q.waiting, b ∈ bhs) :
    Batched sb vol0 ((fatEntBlocknr sb c).2 :: seen) ⟨bhs, (fatEntBlocknr sb c).2 :: q.waiting⟩
      (fatPut sb vol c FAT_ENT_FREE) := by
  set blk := (fatEntBlocknr sb c).2 with hblk
  have hin : InFat sb blk := fatEntBlocknr_inFat hc
  have hother : ∀ x, x ≠ blk → fatPut sb vol c FAT_ENT_FREE x = vol x := fun x hx => Function.update_of_ne hx _ _
  have hcopy : ∀ copy b, 1 ≤ copy → copy < sb.fats → InFat sb b →
      fatPut sb vol c FAT_ENT_FREE (fatCopy sb copy b) = vol (fatCopy sb copy b) := fun copy b h1 hlt hb =>
    hother _ fun he => fatCopy_not_inFat h1 hlt hb (he ▸ hin)
  refine ⟨fun b hb => ?_, hbhs, hcol, fun b hb => ?_, fun b hb hnot => ?_, fun hstep b hb => ?_⟩
  · rcases List.mem_cons.1 hb with rfl | hb
    · exact hin
    · exact h.inFat b hb
  · by_cases hbb : b = blk
    · exact Or.inl (hbb ▸ List.mem_cons_self)
    · have hseen : b ∈ seen := (List.mem_cons.1 hb).resolve_left hbb
      rcases h.same b hseen with hw | hs
      · exact Or.inl (List.mem_cons_of_mem _ hw)
      · apply Or.inr
        intro copy h1 hlt
        rw [hcopy copy b h1 hlt (h.inFat b hseen), hother b hbb]
        exact hs copy h1 hlt
  · have hne : b ≠ blk := fun he => hnot (he ▸ List.mem_cons_self)
    obtain ⟨h1, h2⟩ := h.frame b hb fun hm => hnot (List.mem_cons_of_mem _ hm)
    exact ⟨(hother b hne).trans h1, fun copy hp hlt => (hcopy copy b hp hlt hb).trans (h2 copy hp hlt)⟩
  · by_cases hw : b ∈ q.waiting
    · -- an entry that was behind stays behind
      obtain ⟨d, hd, hdb, hfree, hcopies⟩ := h.behind hstep b hw
      have hbin : InFat sb b := h.inFat b (h.bhs b (h.collected b hw))
      refine ⟨d, hd, hdb, ?_, fun copy h1 hlt => ?_⟩
      · have hlinkd : fatLink sb (fatPut sb vol c FAT_ENT_FREE) d =
            if d = c then readBack FAT_ENT_FREE else fatLink sb vol d := fatLink_fatPut hc Storable.free hd
        unfold fatLink at hlinkd
        rw [hdb] at hlinkd
        rw [hlinkd, hfree]
        split_ifs
        · exact readBack_free
        · rfl
      · rw [hcopy copy b h1 hlt hbin]
        exact hcopies copy h1 hlt
    · have hbb : b = blk := (List.mem_cons.1 hb).resolve_right hw
      rw [hbb] at hw ⊢
      refine ⟨c, hc, rfl, ?_, fun copy h1 hlt => ?_⟩
      · have hself : fatLink sb (fatPut sb vol c FAT_ENT_FREE) c =
            if c = c then readBack FAT_ENT_FREE else fatLink sb vol c := fatLink_fatPut hc Storable.free hc
        rw [if_pos rfl] at hself
        exact hself.trans readBack_free
      · rw [hcopy copy blk h1 hlt hin, h.sameCopies hin hw (hstep blk hin) copy h1 hlt]
        exact hlink

/-- **A batch is mirrored**, and the next one begins with the buffers `bhs'`. -/
theorem Batched.mirror {s s' : St} (h : Batched sb vol0 seen q s.vol) {bhs bhs' : List ℕ} (hm : Mirrored sb bhs s s')
    (hbhs : ∀ b ∈ bhs, b ∈ seen) (hbhs' : ∀ b ∈ bhs', b ∈ seen) (hwait : ∀ b ∈ q.waiting, b ∉ bhs → b ∈ bhs') :
    Batched sb vol0 seen ⟨bhs', q.waiting.filter (· ∉ bhs)⟩ s'.vol where
  inFat := h.inFat
  bhs := hbhs'
  collected := by
    intro b hb
    rw [List.mem_filter, decide_eq_true_eq] at hb
    exact hwait b hb.1 hb.2
  same := by
    intro b hb
    have hin := h.inFat b hb
    by_cases hmem : b ∈ bhs
    · exact Or.inr (hm.sameCopies hin (Or.inl hmem))
    · rcases h.same b hb with hw | hs
      · exact Or.inl (List.mem_filter.2 ⟨hw, by simpa using hmem⟩)
      · exact Or.inr (hm.sameCopies hin (Or.inr hs))
  frame := by
    intro b hb hnot
    obtain ⟨h1, h2⟩ := h.frame b hb hnot
    refine ⟨(hm.same.vol b hb).trans h1, fun copy hp hlt => ?_⟩
    rw [hm.copies copy b hp hlt hb, if_neg (fun hmem => hnot (hbhs b hmem))]
    exact h2 copy hp hlt
  behind := by
    intro hstep b hb
    rw [List.mem_filter, decide_eq_true_eq] at hb
    exact hm.behind (h.inFat b (h.bhs b (h.collected b hb.1))) hb.2 (h.behind hstep b hb.1)

theorem Batch.add_waiting (q : Batch) (b : ℕ) : ∀ x ∈ (q.add b).waiting, x = b ∨ x ∈ q.waiting := by
  intro x hx
  unfold Batch.add at hx
  split_ifs at hx with hroom hmem
  · exact List.mem_cons.1 hx
  · exact List.mem_cons.1 hx
  · exact List.mem_cons.1 (List.mem_filter.1 hx).1

theorem foldl_add_waiting (bs : List ℕ) : ∀ q : Batch, ∀ x ∈ (bs.foldl Batch.add q).waiting, x ∈ bs ∨ x ∈ q.waiting := by
  induction bs with
  | nil =>
    intro _ _ hx
    exact Or.inr hx
  | cons b bs ih =>
    intro q x hx
    rcases ih (q.add b) x hx with hx | hx
    · exact Or.inl (List.mem_cons_of_mem _ hx)
    · rcases q.add_waiting b x hx with rfl | hx
      · exact Or.inl List.mem_cons_self
      · exact Or.inr hx

/-- the loop of a release, with the buffers `q` collected so far -/
def Free.Batched (sb : FatSb) (vol0 : Vol) (seen : List ℕ) (q : Batch) (f : Free) : Prop :=
  f.bhs = q.bhs ∧ Fat.Batched sb vol0 seen q f.s.vol

/-- the blocks that wait when an entry is freed are among the buffers, with that of the entry -/
theorem Batched.waiting_mem {vol : Vol} (h : Batched sb vol0 seen q vol) (blk : ℕ) :
    ∀ b ∈ blk :: q.waiting, b = blk ∨ b ∈ q.bhs := by
  intro b hb
  rcases List.mem_cons.1 hb with rfl | hb
  · exact Or.inl rfl
  · exact Or.inr (h.collected b hb)

/-- the batch is mirrored when it is full, and the buffer of the entry that was freed is collected -/
theorem flushBhs_batched (henv : env.NoFault) {f : Free} {vol : Vol} (hat : f.fatent.At sb c) (hq : f.bhs = q.bhs)
    (hvol : f.s.vol = fatPut sb vol c FAT_ENT_FREE) (hb : Fat.Batched sb vol0 seen q vol) (hc : InRange sb c)
    (hlink : fatLink sb vol c ≠ FAT_ENT_FREE) :
    ∃ f', flushBhs env sb f = (0, f') ∧ EqFat sb f.s.vol f'.collect.s.vol ∧
      f'.collect.Batched sb vol0 ((fatEntBlocknr sb c).2 :: seen) (q.add (fatEntBlocknr sb c).2) := by
  set blk := (fatEntBlocknr sb c).2 with hblk
  have hlen : f.bhs.length + f.fatent.bh.toList.length = q.bhs.length + 1 := by
    rw [hq, hat.bh]
    rfl
  have hbhs : ∀ b ∈ q.bhs, b ∈ blk :: seen := fun b hmem => List.mem_cons_of_mem _ (hb.bhs b hmem)
  by_cases hroom : q.bhs.length < MAX_BUF_PER_PAGE
  · have hadd : q.add blk = ⟨if blk ∈ q.bhs then q.bhs else q.bhs ++ [blk], blk :: q.waiting⟩ := if_pos hroom
    have hflush : flushBhs env sb f = (0, f) := by
      unfold flushBhs
      rw [hlen, if_neg (by omega)]
    have hcol : f.collect.s.vol = f.s.vol := fatCollectBhs_vol f.bhs f.s f.fatent
    refine ⟨f, hflush, fun b _ => congrFun hcol b, ?_, ?_⟩
    · rw [hadd, ← hq]
      exact fatCollectBhs_bhs hat f.bhs f.s
    · rw [hadd]
      refine (hb.put hc hlink _ (fun b hmem => ?_) fun b hmem => ?_).congr (hcol.trans hvol)
      · split_ifs at hmem with hm
        · exact hbhs b hmem
        · rcases List.mem_append.1 hmem with hmem | hmem
          · exact hbhs b hmem
          · exact List.mem_singleton.1 hmem ▸ List.mem_cons_self
      · split_ifs with hm
        · rcases hb.waiting_mem blk b hmem with rfl | hmem
          · exact hm
          · exact hmem
        · rcases hb.waiting_mem blk b hmem with rfl | hmem
          · exact List.mem_append_right _ (List.mem_singleton.2 rfl)
          · exact List.mem_append_left _ hmem
  · have hadd : q.add blk = ⟨[blk], (blk :: q.waiting).filter (· ∉ q.bhs)⟩ := if_neg hroom
    obtain ⟨s3, hwrite, hm⟩ := fatWriteBhs_mirrored henv (fun b hmem => hb.inFat b (hb.bhs b hmem)) f.s sb.synchronous
    set f3 : Free := { f with bhs := [], s := f.bhs.foldl brelse s3 } with hf3
    have hflush : flushBhs env sb f = (0, f3) := by
      unfold flushBhs
      rw [hlen, if_pos (by omega), hf3, hq, hwrite]
      simp
    have hcol : f3.collect.s.vol = s3.vol :=
      (fatCollectBhs_vol f3.bhs f3.s f3.fatent).trans (foldl_brelse_vol f.bhs s3)
    refine ⟨f3, hflush, fun b hin => ?_, ?_, ?_⟩
    · rw [hcol]
      exact hm.same.vol b hin
    · rw [hadd]
      exact fatCollectBhs_bhs (show f3.fatent.At sb c from hat) [] f3.s
    · -- the batch with the new block as the code would have it in a longer array
      have hput := hb.put hc hlink (q.bhs ++ [blk]) (fun b hmem => ?_) fun b hmem => ?_
      · rw [hadd]
        rw [← hvol] at hput
        refine (hput.mirror hm hbhs (fun b hmem => ?_) fun b hmem hnot => ?_).congr hcol
        · exact List.mem_singleton.1 hmem ▸ List.mem_cons_self
        · exact List.mem_singleton.2 ((hb.waiting_mem blk b hmem).resolve_right hnot)
      · rcases List.mem_append.1 hmem with hmem | hmem
        · exact hbhs b hmem
        · exact List.mem_singleton.1 hmem ▸ List.mem_cons_self
      · rcases hb.waiting_mem blk b hmem with rfl | hmem
        · exact List.mem_append_right _ (List.mem_singleton.2 rfl)
        · exact List.mem_append_left _ hmem

/-- **One step** of a release on an entry that is not free: the entry is freed, and its block waits for the next batch. -/
theorem fatFreeLoop_copies (henv : env.NoFault) (fuel : ℕ) {f : Free} (h : f.Batched sb vol0 seen q) (hc : InRange sb c)
    (hlink : fatLink sb f.s.vol c ≠ FAT_ENT_FREE) :
    ∃ f', fatFreeLoop env sb (fuel + 1) c f =
        (if fatLink sb f.s.vol c = FAT_ENT_EOF then (0, f') else fatFreeLoop env sb fuel (fatLink sb f.s.vol c) f') ∧
      EqFat sb (fatPut sb f.s.vol c FAT_ENT_FREE) f'.s.vol ∧
      f'.Batched sb vol0 ((fatEntBlocknr sb c).2 :: seen) (q.add (fatEntBlocknr sb c).2) := by
  obtain ⟨hq, hb⟩ := h
  obtain ⟨e, s1, hread, hat, -⟩ := fatEntRead_ok henv f.s f.fatent hc
  have hvol1 := fatEntRead_vol env sb f.s f.fatent c
  rw [hread] at hvol1
  have hneg : ¬ fatLink sb f.s.vol c < 0 := not_lt.2 (fat32EntGet_bounds _ _).1
  simp only [fatFreeLoop, hread, if_neg hneg, if_neg hlink]
  set f1 : Free := { f with fatent := e, s := s1 } with hf1
  obtain ⟨hd1, hd2, hd3, -⟩ := issueDiscard_spec sb f1 (fatLink sb f.s.vol c)
  have hat1 : (issueDiscard sb f1 (fatLink sb f.s.vol c)).fatent.At sb c := by
    rw [hd1]
    exact hat
  generalize issueDiscard sb f1 (fatLink sb f.s.vol c) = f1' at hd2 hd3 hat1 ⊢
  obtain ⟨hp1, hp2, hp3, -⟩ := putFree_spec hat1
  rw [← hp1] at hat1
  have hvol2 : (putFree f1').s.vol = fatPut sb f.s.vol c FAT_ENT_FREE := by
    rw [hp3, hd3]
    exact congrArg (fun vol => fatPut sb vol c FAT_ENT_FREE) hvol1
  obtain ⟨f', hflush, heq, hbatch⟩ := flushBhs_batched henv hat1 (hp2.trans (hd2.trans hq)) hvol2 hb hc hlink
  rw [hvol2] at heq
  exact ⟨f'.collect, by rw [hflush]; rfl, heq, hbatch⟩

/-- what is erased from the FAT are clusters of the volume -/
theorem erase_inRange {vol : Vol} {a : ℤ} {l : List ℤ} {ended : Bool} (p : Erase (table sb vol) a l ended) :
    ∀ x ∈ l, InRange sb x := by
  intro x hx
  by_contra hout
  exact p.not_free x hx (if_neg hout)

/-- every cluster number has its release, which is shorter than the volume -/
theorem erase_table (sb : FatSb) (vol : Vol) (a : ℤ) : ∃ l ended, Erase (table sb vol) a l ended ∧ l.length < sb.maxCluster := by
  have hmin := sb.maxCluster_min
  obtain ⟨l, ended, p, hlen⟩ := erase_total (sb.maxCluster - 1) (Finset.Ico (FAT_START_ENT) sb.maxCluster)
    (table sb vol) a (by rw [Int.card_Ico]; unfold FAT_START_ENT; omega)
    fun x hx => if_neg fun hin => hx (Finset.mem_Ico.2 hin)
  exact ⟨l, ended, p, by omega⟩

theorem erase_length_lt {vol : Vol} {a : ℤ} {l : List ℤ} {ended : Bool} (p : Erase (table sb vol) a l ended) :
    l.length < sb.maxCluster := by
  obtain ⟨l', e', p', hlen⟩ := erase_table sb vol a
  rw [(p.unique p').1]
  exact hlen

/-- the loop of a release: it frees the entries that `Erase` says, and fails when it stops short of an EOF mark -/
theorem fatFreeLoop_erase (henv : env.NoFault) {T : ℤ → Link ℤ} {a : ℤ} {l : List ℤ} {ended : Bool}
    (p : Erase T a l ended) : ∀ {fuel : ℕ} {f : Free} {seen : List ℕ} {q : Batch}, table sb f.s.vol = T →
    l.length < fuel → f.Batched sb vol0 seen q →
    ∃ f', fatFreeLoop env sb fuel a f = (if ended then 0 else (- EIO : ℤ), f') ∧
      f'.Batched sb vol0 ((entryBlocks sb l).reverse ++ seen) ((entryBlocks sb l).foldl Batch.add q) ∧
      EqFat sb (freePuts sb f.s.vol l) f'.s.vol := by
  induction p with
  | @stop T a h =>
    intro fuel f seen q hT hlen hb
    obtain ⟨fuel, rfl⟩ := Nat.exists_eq_add_one_of_ne_zero (Nat.ne_zero_of_lt hlen)
    have hvol := fatEntRead_vol env sb f.s f.fatent a
    by_cases hin : InRange sb a
    · rw [← hT, table_eq_free hin] at h
      obtain ⟨e, s1, hread, hat, -⟩ := fatEntRead_ok henv f.s f.fatent hin
      rw [hread] at hvol
      refine ⟨{ f with fatent := e, s := s1 }, ?_, ⟨hb.1, hb.2.congr hvol⟩, fun b _ => congrFun hvol b⟩
      simp only [fatFreeLoop, hread, h]
      rfl
    · obtain ⟨s1, hread, -⟩ := fatEntRead_outside env f.s f.fatent hin
      rw [hread] at hvol
      refine ⟨{ f with fatent := { f.fatent with bh := none, ptr := none }, s := s1 }, ?_, ⟨hb.1, hb.2.congr hvol⟩,
        fun b _ => congrFun hvol b⟩
      simp only [fatFreeLoop, hread]
      rfl
  | @last T a h =>
    intro fuel f seen q hT hlen hb
    obtain ⟨fuel, rfl⟩ := Nat.exists_eq_add_one_of_ne_zero (Nat.ne_zero_of_lt hlen)
    have hpath : Path (table sb f.s.vol) a [a] := .last (hT ▸ h)
    have hin : InRange sb a := path_inRange hpath a (List.mem_singleton.2 rfl)
    rw [← hT, table_eq_last hin] at h
    have hlink : fatLink sb f.s.vol a ≠ FAT_ENT_FREE := by
      rw [h]
      decide
    obtain ⟨f', hstep, heq, hb'⟩ := fatFreeLoop_copies henv fuel hb hin hlink
    rw [if_pos h] at hstep
    exact ⟨f', hstep, hb', heq⟩
  | @next T a b l ended h p ih =>
    intro fuel f seen q hT hlen hb
    obtain ⟨fuel, rfl⟩ := Nat.exists_eq_add_one_of_ne_zero (Nat.ne_zero_of_lt hlen)
    have hin : InRange sb a := by
      by_contra hout
      rw [← hT, table, if_neg hout] at h
      cases h
    rw [← hT] at h p
    obtain ⟨hisLink, hsucc⟩ := fatSucc_isLink ((table_eq_next hin).1 h)
    obtain ⟨f1, hstep, heq, hb1⟩ := fatFreeLoop_copies henv fuel hb hin hisLink.1
    rw [if_neg hisLink.2, hsucc] at hstep
    have hT1 : table sb f1.s.vol = Function.update T a .free := by
      rw [heq.table, table_fatPut hin Storable.free, toLink_readBack_free, hT]
    obtain ⟨f', hloop, hb', heq'⟩ := ih hT1 (Nat.lt_of_succ_lt_succ hlen) hb1
    refine ⟨f', hstep.trans hloop, ?_, ?_⟩
    · simpa [entryBlocks] using hb'
    · have hrest := erase_inRange (Erase.next h p)
      exact (freePuts_congr heq fun x hx => hrest x (List.mem_cons_of_mem _ hx)).trans heq'

theorem batched_start (sb : FatSb) (s : St) (a : ℤ) : Free.Batched sb s.vol [] ⟨[], []⟩ ⟨fatentInit, [], a, s⟩ :=
  ⟨rfl, Batched.nil sb s.vol⟩

/-- **A release that comes to an EOF mark** leaves the blocks that it changed in step, and no other block changes. -/
theorem fatFreeClusters_last (henv : env.NoFault) {s : St} {a : ℤ} {l : List ℤ} (p : Erase (table sb s.vol) a l true) :
    ∃ s', fatFreeClusters env sb s a = (0, s') ∧ EqFat sb (freePuts sb s.vol l) s'.vol ∧
      (∀ b ∈ entryBlocks sb l, SameCopies sb s'.vol b) ∧
      ∀ b, InFat sb b → b ∉ entryBlocks sb l → s'.vol b = s.vol b ∧
        ∀ copy, 1 ≤ copy → copy < sb.fats → s'.vol (fatCopy sb copy b) = s.vol (fatCopy sb copy b) := by
  have hlen := erase_length_lt p
  obtain ⟨f, hloop, ⟨hq, hb⟩, heq⟩ := fatFreeLoop_erase henv p
    (f := ⟨fatentInit, [], a, s⟩) rfl hlen (batched_start sb s a)
  rw [List.append_nil] at hb
  have hin : BhsInFat sb f.bhs := by
    rw [hq]
    intro b hmem
    exact hb.inFat b (hb.bhs b hmem)
  obtain ⟨s1, hwrite, hm⟩ := fatWriteBhs_mirrored henv hin f.s sb.synchronous
  have hvol : (f.bhs.foldl brelse (f.fatent.brelse s1).2).vol = s1.vol :=
    (foldl_brelse_vol f.bhs _).trans (f.fatent.brelse_vol s1)
  refine ⟨f.bhs.foldl brelse (f.fatent.brelse s1).2, ?_, ?_, fun b hmem => ?_, fun b hbin hnot => ?_⟩
  · unfold fatFreeClusters
    rw [hloop]
    simp only [if_true, ne_eq, not_true_eq_false, if_false, hwrite]
  · rw [hvol]
    exact heq.trans hm.same.vol
  · rw [hvol]
    have hmem' := List.mem_reverse.2 hmem
    apply hm.sameCopies (hb.inFat b hmem')
    rcases hb.same b hmem' with hw | hs
    · left
      rw [hq]
      exact hb.collected b hw
    · exact Or.inr hs
  · rw [hvol]
    have hnot' := fun hmem => hnot (List.mem_reverse.1 hmem)
    obtain ⟨h1, h2⟩ := hb.frame b hbin hnot'
    have hnb : b ∉ f.bhs := by
      rw [hq]
      intro hmem
      exact hnot' (hb.bhs b hmem)
    refine ⟨(hm.same.vol b hbin).trans h1, fun copy hp hlt => ?_⟩
    rw [hm.copies copy b hp hlt hbin, if_neg hnb]
    exact h2 copy hp hlt

/-- the blocks that wait are blocks of the entries freed -/
theorem awaiting_inFat {vol : Vol} {a : ℤ} {l : List ℤ} {ended : Bool} (p : Erase (table sb vol) a l ended) :
    ∀ b ∈ awaiting sb l, InFat sb b := by
  intro b hb
  rcases foldl_add_waiting _ _ b hb with hb | hb
  · obtain ⟨x, hx, rfl⟩ := List.mem_map.1 hb
    exact fatEntBlocknr_inFat (erase_inRange p x hx)
  · exact absurd hb List.not_mem_nil

/-- **A release that stops short of an EOF mark** leaves exactly the blocks that still wait out of step. -/
theorem fatFreeClusters_stop (henv : env.NoFault) {s : St} {a : ℤ} {l : List ℤ} (p : Erase (table sb s.vol) a l false)
    (hstep : InStep sb s.vol) (hfats : 1 < sb.fats) :
    ∃ s', fatFreeClusters env sb s a = ((- EIO : ℤ), s') ∧
      ∀ b, InFat sb b → (SameCopies sb s'.vol b ↔ b ∉ awaiting sb l) := by
  have hlen := erase_length_lt p
  obtain ⟨f, hloop, ⟨-, hb⟩, -⟩ := fatFreeLoop_erase henv p
    (f := ⟨fatentInit, [], a, s⟩) rfl hlen (batched_start sb s a)
  have hvol : (f.bhs.foldl brelse (f.fatent.brelse f.s).2).vol = f.s.vol :=
    (foldl_brelse_vol f.bhs _).trans (f.fatent.brelse_vol f.s)
  refine ⟨f.bhs.foldl brelse (f.fatent.brelse f.s).2, ?_, fun b hin => ?_⟩
  · unfold fatFreeClusters
    rw [hloop]
    simp only [Bool.false_eq_true, if_false, if_pos (show (- EIO : ℤ) ≠ 0 by decide)]
  · rw [hvol]
    constructor
    · intro hs hw
      exact (hb.behind hstep b hw).not_sameCopies hfats hs
    · intro hw
      exact hb.sameCopies hin hw (hstep b hin)

end

end AtsLdd.Fat
