/-
Going over a directory with `fat_get_entry` (fat_dir.c) from position 0 on, when some of its blocks cannot be read.

The blocks before `i_size` are those of the chain, which may be longer. A block is readable at every read or at none.

- `fatGetEntrySlow_yields`: the slow path hands out the first slot of the next block that can be read, and its loop over
  the others ends behind the last block;
- `fatGetEntry_yields`: the fast path hands out what the slow path would;
- `iteration_complete`: the calls hand out the slots of the readable blocks, each once and in order, and the one that
  refuses leaves no buffer and the position `i_size`;
- `iteration_skips`: that call goes past unreadable blocks at the end.
-/
import AtsLdd.Core.Sweep
import AtsLdd.Fat.DirSlots

namespace AtsLdd.Fat

open AtsLdd.Machine AtsLdd.Sweep AtsLdd.LinkTable

/-- the directory has `nb` blocks, and a chain that covers them within the walks of `fat_get_cluster` -/
structure DirCovered (sb : FatSb) (vol : Vol) (dir : Inode) (l : List ℤ) (nb : ℕ) : Prop where
  chain : DirChain sb vol dir.iStart l
  size : dir.iSize = nb * sb.blocksize
  covers : nb ≤ nrBlocks sb l
  limit : dir.iSize ≤ (clusterLimit sb + 2) * sb.clusterSize

/-- the FAT entries of the chain can be read, and the blocks of the directory that are not `bad` -/
structure StaticReads (env : Env) (sb : FatSb) (l : List ℤ) (nb : ℕ) (bad : ℕ → Bool) : Prop where
  entry : ∀ t, ∀ c ∈ l, env.bread t (fatEntBlocknr sb c).2 = true
  block : ∀ t, ∀ q < nb, env.bread t (dirBlock sb l q) = !bad q

/-- slot `i` is in a block that can be read -/
def goodSlot (sb : FatSb) (bad : ℕ → Bool) (i : ℕ) : Bool := !bad (i / sb.dirPerBlock)

section
variable {env : Env} {sb : FatSb} {s s1 : St} {dir : Inode} {l : List ℤ} {nb : ℕ} {bad : ℕ → Bool} {cur : DirCursor}
  {i j q : ℕ}

/-! ## Blocks and slots -/

theorem DirCovered.dirBlocks {vol : Vol} (h : DirCovered sb vol dir l nb) : dirBlocks sb dir = nb := dirBlocks_of_size h.size

/-- the walk to a block of the directory is within the limit -/
theorem DirCovered.walk {vol : Vol} (h : DirCovered sb vol dir l nb) (hq : q < nb) :
    q / sb.secPerClus ≤ clusterLimit sb + 1 := by
  have hsize := h.limit
  rw [h.size, FatSb.clusterSize, Nat.mul_comm sb.blocksize, ← Nat.mul_assoc] at hsize
  have hnb : nb ≤ (clusterLimit sb + 2) * sb.secPerClus := Nat.le_of_mul_le_mul_right hsize sb.blocksize_pos
  exact Nat.le_of_lt_succ ((Nat.div_lt_iff_lt_mul sb.secPerClus_pos).2 (hq.trans_le hnb))

theorem slot_lt_iff : i / sb.dirPerBlock < nb ↔ i < nb * sb.dirPerBlock := Nat.div_lt_iff_lt_mul (dirPerBlock_pos sb)

/-- the slots of a block -/
theorem slot_of_block {k : ℕ} (hik : i ≤ k) (hk : k < (i / sb.dirPerBlock + 1) * sb.dirPerBlock) :
    k / sb.dirPerBlock = i / sb.dirPerBlock :=
  le_antisymm (Nat.le_of_lt_succ ((Nat.div_lt_iff_lt_mul (dirPerBlock_pos sb)).2 hk)) (Nat.div_le_div_right hik)

/-- the slots of an unreadable block are passed over -/
theorem rest_skipBlock (hbad : bad (i / sb.dirPerBlock) = true) (n : ℕ) :
    rest (goodSlot sb bad) n i = rest (goodSlot sb bad) n ((i / sb.dirPerBlock + 1) * sb.dirPerBlock) := by
  have hle : i ≤ (i / sb.dirPerBlock + 1) * sb.dirPerBlock := by
    have h := Nat.lt_div_mul_add (a := i) (dirPerBlock_pos sb)
    rw [Nat.add_mul, Nat.one_mul]
    exact h.le
  apply rest_jump hle
  intro k hik hk _
  unfold goodSlot
  rw [slot_of_block hik hk, hbad]
  rfl

/-! ## One call -/

/-- a call from the position of slot `i` hands out the next slot of a readable block, or refuses at the end -/
structure CallYields (sb : FatSb) (l : List ℤ) (nb : ℕ) (bad : ℕ → Bool) (s : St) (i : ℕ) (de : Option ℕ)
    (r : Bool × DirCursor × St) : Prop where
  looked : Looked s r.2.2
  answer : r.1 = true ∧ (∃ j < nb * sb.dirPerBlock, goodSlot sb bad j = true ∧
        rest (goodSlot sb bad) (nb * sb.dirPerBlock) i = j :: rest (goodSlot sb bad) (nb * sb.dirPerBlock) (j + 1) ∧
        r.2.1 = slotCursor sb l j) ∨
      r.1 = false ∧ rest (goodSlot sb bad) (nb * sb.dirPerBlock) i = [] ∧ r.2.1 = ⟨nb * sb.blocksize, none, de⟩

/-- two such calls hand out the same -/
theorem CallYields.agree {de : Option ℕ} {s' : St} {r r' : Bool × DirCursor × St} (h : CallYields sb l nb bad s i de r)
    (h' : CallYields sb l nb bad s' i de r') : r.1 = r'.1 ∧ r.2.1 = r'.2.1 := by
  rcases h.answer with ⟨hok, j, -, -, hrest, hcur⟩ | ⟨hok, hrest, hcur⟩ <;>
    rcases h'.answer with ⟨hok', j', -, -, hrest', hcur'⟩ | ⟨hok', hrest', hcur'⟩
  · obtain ⟨rfl, -⟩ := List.cons.inj (hrest.symm.trans hrest')
    exact ⟨hok.trans hok'.symm, hcur.trans hcur'.symm⟩
  · exact absurd (hrest.symm.trans hrest') (by simp)
  · exact absurd (hrest.symm.trans hrest') (by simp)
  · exact ⟨hok.trans hok'.symm, hcur.trans hcur'.symm⟩

/-- **The slow path.** Its loop ends: each turn goes to a later block. -/
theorem fatGetEntrySlow_yields (hst : StaticReads env sb l nb bad) (fuel : ℕ) : ∀ {i : ℕ} {s : St} {cur : DirCursor},
    DirCovered sb s.vol dir l nb → CursorAt sb l i cur → i ≤ nb * sb.dirPerBlock → nb - i / sb.dirPerBlock < fuel →
    CallYields sb l nb bad s i cur.de (fatGetEntrySlow env sb dir fuel s cur) := by
  induction fuel with
  | zero => exact fun _ _ _ h => absurd h (Nat.not_lt_zero _)
  | succ fuel ih =>
    intro i s cur hdir hcur hi hfuel
    have hrel := cur.release_looked s
    rw [fatGetEntrySlow_succ]
    generalize cur.release s = s1 at hrel ⊢
    obtain ⟨hdiv, hmod⟩ := slot_pos sb i
    rw [hcur.pos, hdiv, hmod]
    rcases le_or_gt nb (i / sb.dirPerBlock) with hend | hblock
    · -- behind the last block
      have hlast : i = nb * sb.dirPerBlock := le_antisymm hi ((Nat.le_div_iff_mul_le (dirPerBlock_pos sb)).1 hend)
      have hpos : DENT_SIZE * i = nb * sb.blocksize := by
        rw [hlast, blocksize_eq]
        ring
      rw [fatBmap_last env s1 (by rw [hdir.dirBlocks]; exact hend), if_pos (Or.inr rfl)]
      exact ⟨hrel, Or.inr ⟨rfl, rest_end _ hlast.ge, by rw [hpos]⟩⟩
    · have hq : i / sb.dirPerBlock < nrBlocks sb l := hblock.trans_le hdir.covers
      have hdir1 : DirCovered sb s1.vol dir l nb := by rwa [hrel.vol]
      obtain ⟨n, s2, hbmap, hquiet⟩ := fatBmap_path hdir1.chain hst.entry hq (by rw [hdir.dirBlocks]; exact hblock)
        (hdir.walk hblock)
      have hphys : dirBlock sb l (i / sb.dirPerBlock) ≠ 0 := by
        have h := dataStart_le_dirBlock hdir.chain.inRange hq
        have := dataStart_pos sb
        omega
      rw [hbmap]
      simp only [ne_eq, not_true_eq_false, false_or, if_neg hphys]
      have hread := hst.block s2.t _ hblock
      cases hbad : bad (i / sb.dirPerBlock) with
      | false =>
        rw [hbad] at hread
        rw [sbBread_ok hread]
        have hin : i < nb * sb.dirPerBlock := slot_lt_iff.1 hblock
        have hgood : goodSlot sb bad i = true := by unfold goodSlot; rw [hbad]; rfl
        exact ⟨(hrel.trans hquiet.looked).trans rfl, Or.inl ⟨rfl, i, hin, hgood, rest_take hin hgood, rfl⟩⟩
      | true =>
        rw [hbad] at hread
        rw [sbBread_fail hread]
        have hlook : Looked s { s2 with t := s2.t + 1 } := (hrel.trans hquiet.looked).trans rfl
        have hdir2 : DirCovered sb ({ s2 with t := s2.t + 1 } : St).vol dir l nb := by rwa [hlook.vol]
        have hnext : (i / sb.dirPerBlock + 1) * sb.dirPerBlock / sb.dirPerBlock = i / sb.dirPerBlock + 1 :=
          Nat.mul_div_cancel _ (dirPerBlock_pos sb)
        obtain ⟨hrest, hres⟩ := ih hdir2 (cursorAt_skip sb l i cur.de) (Nat.mul_le_mul_right _ hblock)
          (by rw [hnext]; omega)
        rw [← rest_skipBlock hbad] at hres
        exact ⟨hlook.trans hrest, hres⟩

/-- where the calls of an iteration find the cursor: at the start, or behind slot `i - 1` -/
def IterAt (sb : FatSb) (l : List ℤ) (nb : ℕ) (bad : ℕ → Bool) (i : ℕ) (cur : DirCursor) : Prop :=
  i = 0 ∧ cur = dirCursorInit ∨
    ∃ j, i = j + 1 ∧ j < nb * sb.dirPerBlock ∧ goodSlot sb bad j = true ∧ cur = slotCursor sb l j

theorem IterAt.le (h : IterAt sb l nb bad i cur) : i ≤ nb * sb.dirPerBlock := by
  rcases h with ⟨rfl, -⟩ | ⟨j, rfl, hj, -⟩
  · exact Nat.zero_le _
  · exact hj

theorem IterAt.cursorAt {vol : Vol} (hdir : DirCovered sb vol dir l nb) (h : IterAt sb l nb bad i cur) :
    CursorAt sb l i cur := by
  rcases h with ⟨rfl, rfl⟩ | ⟨j, rfl, hj, -, rfl⟩
  · exact cursorAt_start sb l 0 none
  · exact cursorAt_slot (hj.trans_le (Nat.mul_le_mul_right _ hdir.covers))

/-- the slow path on such a cursor, with any fuel beyond the number of blocks -/
theorem IterAt.slow (hdir : DirCovered sb s.vol dir l nb) (hst : StaticReads env sb l nb bad)
    (h : IterAt sb l nb bad i cur) {fuel : ℕ} (hfuel : nb < fuel) :
    CallYields sb l nb bad s i cur.de (fatGetEntrySlow env sb dir fuel s cur) :=
  fatGetEntrySlow_yields hst fuel hdir (h.cursorAt hdir) h.le (lt_of_le_of_lt (Nat.sub_le _ _) hfuel)

/-- **One call** hands out what the slow path would. -/
theorem fatGetEntry_yields (hdir : DirCovered sb s.vol dir l nb) (hst : StaticReads env sb l nb bad)
    (h : IterAt sb l nb bad i cur) : CallYields sb l nb bad s i cur.de (fatGetEntry env sb s dir cur) := by
  have hfuel : nb < dirBlocks sb dir + 1 := by
    rw [hdir.dirBlocks]
    exact Nat.lt_succ_self nb
  have hslow := h.slow hdir hst hfuel
  rcases h with ⟨rfl, rfl⟩ | ⟨j, rfl, hj, hgood, rfl⟩
  · exact hslow
  · unfold fatGetEntry slotCursor
    simp only
    by_cases hfast : slotOff sb j / DENT_SIZE + 1 < sb.dirPerBlock
    · rw [if_pos hfast, next_slotCursor l hfast]
      have hdiv := (next_slot hfast).2
      have hin : j + 1 < nb * sb.dirPerBlock := slot_lt_iff.1 (by rw [hdiv]; exact slot_lt_iff.2 hj)
      have hgood1 : goodSlot sb bad (j + 1) = true := by unfold goodSlot at hgood ⊢; rw [hdiv]; exact hgood
      exact ⟨Looked.refl s, Or.inl ⟨rfl, j + 1, hin, hgood1, rest_take hin hgood1, rfl⟩⟩
    · rw [if_neg hfast]
      exact hslow

/-! ## The whole iteration -/

/-- calls of `fat_get_entry` -/
def iterNext (env : Env) (sb : FatSb) (dir : Inode) (x : DirCursor × St) : Bool × DirCursor × St :=
  fatGetEntry env sb x.2 dir x.1

/-- what the calls of an iteration leave: the cursors behind the slots of the readable blocks, each once and in order; no
call would do something else by the slow path; the call that refuses leaves no buffer -/
structure Iterated (env : Env) (sb : FatSb) (s : St) (dir : Inode) (l : List ℤ) (nb : ℕ) (bad : ℕ → Bool)
    (ss : List (DirCursor × St)) (t : DirCursor × St) : Prop where
  slots : ss.map Prod.fst = ((List.range (nb * sb.dirPerBlock)).filter (goodSlot sb bad)).map (slotCursor sb l)
  vol : ∀ x ∈ ss, x.2.vol = s.vol
  slow : ∀ x ∈ (dirCursorInit, s) :: ss, ∀ fuel > nb,
    (fatGetEntrySlow env sb dir fuel x.2 x.1).1 = (fatGetEntry env sb x.2 dir x.1).1 ∧
      (fatGetEntrySlow env sb dir fuel x.2 x.1).2.1 = (fatGetEntry env sb x.2 dir x.1).2.1
  bh : t.1.bh = none

/-- an iteration that is before slot `i` -/
structure IterInv (sb : FatSb) (s : St) (l : List ℤ) (nb : ℕ) (bad : ℕ → Bool) (i : ℕ) (x : DirCursor × St) : Prop where
  at_ : IterAt sb l nb bad i x.1
  looked : Looked s x.2

/-- the state behind slot `j` -/
structure IterEntry (sb : FatSb) (s : St) (l : List ℤ) (nb : ℕ) (bad : ℕ → Bool) (j : ℕ) (x : DirCursor × St) : Prop where
  cur : x.1 = slotCursor sb l j
  inv : IterInv sb s l nb bad (j + 1) x

theorem iterNext_yields (hdir : DirCovered sb s.vol dir l nb) (hst : StaticReads env sb l nb bad) {x : DirCursor × St}
    (h : IterInv sb s l nb bad i x) : Yields (goodSlot sb bad) (nb * sb.dirPerBlock) (IterInv sb s l nb bad)
      (IterEntry sb s l nb bad) (fun x => x.1.bh = none ∧ x.1.pos = nb * sb.blocksize) i (iterNext env sb dir x) := by
  have hdir1 : DirCovered sb x.2.vol dir l nb := by rw [h.looked.vol]; exact hdir
  obtain ⟨hlook, ⟨hok, j, hj, hgood, hrest, hcur⟩ | ⟨hok, hrest, hcur⟩⟩ := fatGetEntry_yields hdir1 hst h.at_
  · have hinv : IterInv sb s l nb bad (j + 1) (iterNext env sb dir x).2 :=
      ⟨Or.inr ⟨j, rfl, hj, hgood, hcur⟩, h.looked.trans hlook⟩
    exact .entry hok hrest ⟨hcur, hinv⟩ hinv
  · refine .refused hok hrest ?_
    change (fatGetEntry env sb x.2 dir x.1).2.1.bh = none ∧ (fatGetEntry env sb x.2 dir x.1).2.1.pos = nb * sb.blocksize
    rw [hcur]
    exact ⟨rfl, rfl⟩

/-- the slow path does what the call does, in every state of an iteration -/
theorem IterInv.slow_eq (hdir : DirCovered sb s.vol dir l nb) (hst : StaticReads env sb l nb bad) {x : DirCursor × St}
    (h : IterInv sb s l nb bad i x) {fuel : ℕ} (hfuel : nb < fuel) :
    (fatGetEntrySlow env sb dir fuel x.2 x.1).1 = (fatGetEntry env sb x.2 dir x.1).1 ∧
      (fatGetEntrySlow env sb dir fuel x.2 x.1).2.1 = (fatGetEntry env sb x.2 dir x.1).2.1 := by
  have hdir1 : DirCovered sb x.2.vol dir l nb := by rw [h.looked.vol]; exact hdir
  exact (h.at_.slow hdir1 hst hfuel).agree (fatGetEntry_yields hdir1 hst h.at_)

/-- **Going over a directory.** Enough calls of `fat_get_entry` from position 0 on hand out the slots of the readable
blocks, each once and in order; the slow path would do the same at every call, and ends; the call that refuses leaves no
buffer and the position `i_size`. -/
theorem iteration_complete (hdir : DirCovered sb s.vol dir l nb) (hst : StaticReads env sb l nb bad) {fuel : ℕ}
    (hfuel : nb * sb.dirPerBlock < fuel) : ∃ ss t, drain (iterNext env sb dir) fuel (dirCursorInit, s) = some (ss, t) ∧
      Iterated env sb s dir l nb bad ss t ∧ t.1.pos = dir.iSize := by
  have hinit : IterInv sb s l nb bad 0 (dirCursorInit, s) := ⟨Or.inl ⟨rfl, rfl⟩, Looked.refl s⟩
  have hlen := (rest_length (goodSlot sb bad) (nb * sb.dirPerBlock) 0).trans_lt (by rw [Nat.sub_zero]; exact hfuel)
  obtain ⟨ss, t, hd, hall, hbh, hpos⟩ := drain_sweep (fun _ _ h => iterNext_yields hdir hst h) fuel hinit hlen
  rw [rest_zero] at hall
  refine ⟨ss, t, hd, ⟨map_of_forall₂ (fun _ _ h => h.cur) hall, fun x hx => ?_, fun x hx fuel' hfuel' => ?_, hbh⟩,
    hpos.trans hdir.size.symm⟩
  · obtain ⟨j, hj⟩ := at_of_mem hall x hx
    exact hj.inv.looked.vol
  · rcases List.mem_cons.1 hx with rfl | hx
    · exact hinit.slow_eq hdir hst hfuel'
    · obtain ⟨j, hj⟩ := at_of_mem hall x hx
      exact hj.inv.slow_eq hdir hst hfuel'

end

/-- a directory of three blocks, in the clusters 3 and 5 -/
def threeBlocksDir : Inode := ⟨3, 1536⟩

/-- a volume with these clusters -/
def threeBlocksVol : Vol := tinyVol fun k => if k = 3 then 5 else EOF_FAT32.toNat

/-- block 5 of the volume cannot be read, the second block of the directory -/
def deafToFive : Env := { goodEnv with bread := fun _ b => decide (b ≠ 5) }

/-- the 16 entries of the first block and the 16 of the last one are handed out -/
theorem iteration_complete_three : ∃ ss t, drain (iterNext deafToFive tinySb threeBlocksDir) 49
      (dirCursorInit, St.idle threeBlocksVol) = some (ss, t) ∧
    Iterated deafToFive tinySb (St.idle threeBlocksVol) threeBlocksDir [3, 5] 3 (fun q => decide (q = 1)) ss t ∧ t.1.pos = 1536 ∧
    ss.length = 32 := by
  have hpath : Path (table tinySb threeBlocksVol) 3 [3, 5] := .next (by decide +kernel) (.last (by decide +kernel))
  have hdir : DirCovered tinySb (St.idle threeBlocksVol).vol threeBlocksDir [3, 5] 3 := ⟨Or.inr hpath, rfl, by decide, by decide⟩
  have hread : StaticReads deafToFive tinySb [3, 5] 3 fun q => decide (q = 1) :=
    ⟨fun _ => show ∀ c ∈ ([3, 5] : List ℤ), decide ((fatEntBlocknr tinySb c).2 ≠ 5) = true by decide,
      fun _ => show ∀ q < 3, decide (dirBlock tinySb [3, 5] q ≠ 5) = !decide (q = 1) by decide⟩
  obtain ⟨ss, t, hdrain, hiter, hpos⟩ := iteration_complete hdir hread (show 3 * tinySb.dirPerBlock < 49 by decide)
  have heval : (drain (iterNext deafToFive tinySb threeBlocksDir) 49 (dirCursorInit, St.idle threeBlocksVol)).map
      (fun r => r.1.length) = some 32 := by decide +kernel
  rw [hdrain, Option.map_some, Option.some.injEq] at heval
  exact ⟨ss, t, hdrain, hiter, hpos, heval⟩

/-! ## Unreadable blocks at the end -/

/-- a directory of one block, behind it a block of its cluster that is not used -/
def oneBlockDir : Inode := ⟨3, 512⟩

/-- the FAT can be read, the data blocks cannot -/
def deafEnv : Env := { goodEnv with bread := fun _ b => decide (b < 2) }

/-- every cluster is a chain of its own -/
def endsVol : Vol := tinyVol fun _ => EOF_FAT32.toNat

theorem oneBlockDir_covered : DirCovered tinySb endsVol oneBlockDir [3] 1 :=
  ⟨Or.inr (.last (by decide +kernel)), rfl, by decide, by decide⟩

theorem deafEnv_reads : StaticReads deafEnv tinySb [3] 1 fun _ => true :=
  ⟨fun _ => show ∀ c ∈ ([3] : List ℤ), decide ((fatEntBlocknr tinySb c).2 < 2) = true by decide,
    fun _ => show ∀ q < 1, decide (dirBlock tinySb [3] q < 2) = !true by decide⟩

/-- the block of the directory cannot be read: the only call refuses, and goes from position 0 to 512 -/
theorem iteration_skips : StaticReads deafEnv tinySb [3] 1 (fun _ => true) ∧
    DirCovered tinySb (St.idle endsVol).vol oneBlockDir [3] 1 ∧
    ¬ ∃ fuel ss t, drain (iterNext deafEnv tinySb oneBlockDir) fuel (dirCursorInit, St.idle endsVol) = some (ss, t) ∧
      Iterated deafEnv tinySb (St.idle endsVol) oneBlockDir [3] 1 (fun _ => true) ss t ∧
      ∀ x ∈ ((dirCursorInit, St.idle endsVol) :: ss).getLast?, t.1.pos = x.1.pos := by
  refine ⟨deafEnv_reads, oneBlockDir_covered, ?_⟩
  rintro ⟨fuel, ss, t, hdrain, -, hpos⟩
  have hnone : rest (goodSlot tinySb fun _ => true) (1 * tinySb.dirPerBlock) 0 = [] := rfl
  have hcall : CallYields tinySb [3] 1 (fun _ => true) (St.idle endsVol) 0 none
      (iterNext deafEnv tinySb oneBlockDir (dirCursorInit, St.idle endsVol)) :=
    fatGetEntry_yields oneBlockDir_covered deafEnv_reads (Or.inl ⟨rfl, rfl⟩)
  rcases hcall.answer with ⟨-, j, -, -, hsome, -⟩ | ⟨hno, -, hcur⟩
  · exact absurd (hnone.symm.trans hsome) (by simp)
  · cases fuel with
    | zero => exact absurd hdrain (by simp [drain])
    | succ fuel =>
      have hstep : iterNext deafEnv tinySb oneBlockDir (dirCursorInit, St.idle endsVol) =
        (false, (iterNext deafEnv tinySb oneBlockDir (dirCursorInit, St.idle endsVol)).2) := Prod.ext hno rfl
      rw [drain, hstep] at hdrain
      obtain ⟨rfl, rfl⟩ := Prod.mk.inj (Option.some.inj hdrain)
      have hlast := hpos (dirCursorInit, St.idle endsVol) rfl
      rw [hcur] at hlast
      exact absurd hlast (by decide)

end AtsLdd.Fat
