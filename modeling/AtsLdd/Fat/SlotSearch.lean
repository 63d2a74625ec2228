/-
The search for free slots in a directory whose blocks can be read, as a search in its row of slots.

- `allMarks_eq`: the entries that are handed out are the slots, in order;
- `searchFree_slots`: the search ends with slots in a row that are free, enough of them or those at the end of the directory,
  and holds the buffers of their blocks.
-/
import AtsLdd.Fat.DirSlots

namespace AtsLdd.Fat

open AtsLdd.Machine AtsLdd.LinkTable

/-! ## Marks -/

/-- which slots are free -/
def slotMarks (sb : FatSb) (l : List ℤ) (vol : Vol) : List Bool :=
  (List.range (nrSlots sb l)).map fun i => decide (IsFree (slot sb l vol i))

/-- the blocks of the `n` slots from slot `i` on, as numbers of blocks of the directory -/
def blockRun (sb : FatSb) (i n : ℕ) : List ℕ :=
  List.range' (i / sb.dirPerBlock) (if n = 0 then 0 else (i + n - 1) / sb.dirPerBlock + 1 - i / sb.dirPerBlock)

section
variable {env : Env} {sb : FatSb} {s : St} {dir : Inode} {l : List ℤ} {vol : Vol} {i n : ℕ}

/-- the entries that are handed out from slot `i` on -/
theorem dirMarks_slots (hread : Readable env sb l) (fuel : ℕ) : ∀ {i : ℕ} {s : St} {cur : DirCursor}, DirOn sb s.vol dir l →
    CursorAt sb l i cur → nrSlots sb l - i < fuel → dirMarks env sb dir fuel s cur =
      (List.range' i (nrSlots sb l - i)).map fun j => (DENT_SIZE * (j + 1), decide (IsFree (slot sb l s.vol j))) := by
  induction fuel with
  | zero => exact fun _ _ h => absurd h (Nat.not_lt_zero _)
  | succ fuel ih =>
    intro i s cur hdir hcur hfuel
    rw [dirMarks]
    rcases Nat.lt_or_ge i (nrSlots sb l) with hi | hi
    · obtain ⟨s', hget, hlook⟩ := fatGetEntry_slot hdir hread hcur hi
      have hdir' : DirOn sb s'.vol dir l := by rwa [hlook.vol]
      have hleft : nrSlots sb l - i = nrSlots sb l - (i + 1) + 1 := by omega
      rw [hget]
      simp only
      rw [ih hdir' (cursorAt_slot hi) (by omega), slotCursor_ent, hlook.vol, hleft, List.range'_succ, List.map_cons]
      rfl
    · rw [fatGetEntry_end env hdir hcur hi, Nat.sub_eq_zero_of_le hi]
      rfl

/-- **The entries that are handed out** are the slots. -/
theorem allMarks_eq (hdir : DirOn sb s.vol dir l) (hread : Readable env sb l) : allMarks env sb s dir =
    (List.range (nrSlots sb l)).map fun j => (DENT_SIZE * (j + 1), decide (IsFree (slot sb l s.vol j))) := by
  have hfuel : nrSlots sb l - 0 < dirEntries sb dir := by
    unfold dirEntries nrSlots
    rw [hdir.dirBlocks]
    exact Nat.lt_succ_self _
  have hmarks := dirMarks_slots hread _ hdir (cursorAt_start sb l 0 none) hfuel
  rw [Nat.sub_zero, ← List.range_eq_range'] at hmarks
  exact hmarks

theorem allMarks_slots (hdir : DirOn sb s.vol dir l) (hread : Readable env sb l) :
    (allMarks env sb s dir).map Prod.snd = slotMarks sb l s.vol := by
  unfold slotMarks
  rw [allMarks_eq hdir hread, List.map_map]
  rfl

theorem slotMarks_get (hi : i < nrSlots sb l) : (slotMarks sb l vol)[i]? = some (decide (IsFree (slot sb l vol i))) := by
  unfold slotMarks
  rw [List.getElem?_map, List.getElem?_range hi]
  rfl

/-! ## The blocks of a run -/

theorem blockRun_one (sb : FatSb) (i : ℕ) : blockRun sb i 1 = [i / sb.dirPerBlock] := by
  unfold blockRun
  rw [if_neg Nat.one_ne_zero, Nat.add_sub_cancel, Nat.add_sub_cancel_left]
  rfl

/-- one more slot is in the block of the last one, or in the next block -/
theorem blockRun_succ (sb : FatSb) (i : ℕ) (hn : 0 < n) : blockRun sb i (n + 1) =
    if (i + n) / sb.dirPerBlock = (i + n - 1) / sb.dirPerBlock then blockRun sb i n
    else blockRun sb i n ++ [(i + n) / sb.dirPerBlock] := by
  have hpos := dirPerBlock_pos sb
  have hle : i / sb.dirPerBlock ≤ (i + n - 1) / sb.dirPerBlock := Nat.div_le_div_right (by omega)
  unfold blockRun
  rw [if_neg (Nat.succ_ne_zero n), if_neg hn.ne', Nat.add_succ_sub_one]
  by_cases hsame : (i + n) / sb.dirPerBlock = (i + n - 1) / sb.dirPerBlock
  · rw [if_pos hsame, hsame]
  · rw [if_neg hsame]
    have hnext : (i + n) / sb.dirPerBlock = (i + n - 1) / sb.dirPerBlock + 1 := by
      have hsucc : (i + n - 1 + 1) / sb.dirPerBlock = (i + n - 1) / sb.dirPerBlock + _ := Nat.succ_div
      rw [Nat.sub_add_cancel (show 1 ≤ i + n by omega)] at hsucc
      split_ifs at hsucc with hdvd
      · exact hsucc
      · exact absurd hsucc hsame
    have hlen : (i + n) / sb.dirPerBlock + 1 - i / sb.dirPerBlock =
        (i + n - 1) / sb.dirPerBlock + 1 - i / sb.dirPerBlock + 1 := by omega
    rw [hlen, List.range'_concat, Nat.one_mul]
    congr 2
    omega

/-! ## The search -/

/-- the `m` slots before slot `i` are free and in hand -/
structure RunAt (sb : FatSb) (l : List ℤ) (vol : Vol) (i m : ℕ) (f : FreeSearch) : Prop where
  le : m ≤ i
  free : ∀ j, i - m ≤ j → j < i → IsFree (slot sb l vol j)
  count : f.freeSlots = m
  bhs : f.bhs = (blockRun sb (i - m) m).map (dirBlock sb l)
  prev : f.prev = if m = 0 then none else some (slotBlock sb l (i - 1))

/-- a slot that is free is one more in hand -/
theorem RunAt.snoc {f : FreeSearch} {m : ℕ} (hdir : DirOn sb vol dir l) (h : RunAt sb l vol i m f) (hi : i < nrSlots sb l)
    (hfree : IsFree (slot sb l vol i)) (s : St) :
    RunAt sb l vol (i + 1) (m + 1) ({ f with cur := slotCursor sb l i, s := s } : FreeSearch).free ∧
      (({ f with cur := slotCursor sb l i, s := s } : FreeSearch).free).cur = slotCursor sb l i ∧
      Looked s (({ f with cur := slotCursor sb l i, s := s } : FreeSearch).free).s := by
  have hstart : i + 1 - (m + 1) = i - m := Nat.add_sub_add_right i 1 m
  have hall : ∀ j, i + 1 - (m + 1) ≤ j → j < i + 1 → IsFree (slot sb l vol j) := by
    intro j hj hlt
    rcases Nat.lt_succ_iff_lt_or_eq.1 hlt with hlt | rfl
    · exact h.free j (hstart ▸ hj) hlt
    · exact hfree
  have hle := h.le
  rcases Nat.eq_zero_or_pos m with rfl | hm
  · have hprev : f.prev = none := h.prev
    have hbhs : f.bhs = [] := h.bhs
    unfold FreeSearch.free slotCursor
    simp only [hprev, hbhs, if_neg (show ¬ (none : Option ℕ) = some (slotBlock sb l i) by simp)]
    refine ⟨⟨Nat.succ_le_succ hle, hall, congrArg (· + 1) h.count, ?_, rfl⟩, trivial, rfl⟩
    rw [hstart, Nat.sub_zero, blockRun_one]
    rfl
  · have hprev : f.prev = some (slotBlock sb l (i - 1)) := by
      rw [h.prev, if_neg hm.ne']
    have hsame : slotBlock sb l (i - 1) = slotBlock sb l i ↔ i / sb.dirPerBlock = (i - 1) / sb.dirPerBlock := by
      constructor
      · intro he
        exact (dirBlock_inj hdir.chain.inRange hdir.chain.nodup (slot_block (by omega)) (slot_block hi) he).symm
      · intro he
        unfold slotBlock
        rw [he]
    have hrun := blockRun_succ sb (i - m) hm
    rw [Nat.sub_add_cancel hle] at hrun
    unfold FreeSearch.free slotCursor
    simp only [hprev, Option.some.injEq, hsame]
    by_cases hblk : i / sb.dirPerBlock = (i - 1) / sb.dirPerBlock
    · rw [if_pos hblk] at hrun ⊢
      refine ⟨⟨Nat.succ_le_succ hle, hall, congrArg (· + 1) h.count, ?_, ?_⟩, rfl, rfl⟩
      · rw [hstart, hrun]
        exact h.bhs
      · simp only [if_neg (Nat.succ_ne_zero m), Nat.add_sub_cancel, hsame.2 hblk]
    · rw [if_neg hblk] at hrun ⊢
      refine ⟨⟨Nat.succ_le_succ hle, hall, congrArg (· + 1) h.count, ?_, rfl⟩, rfl, rfl⟩
      rw [hstart, hrun, List.map_append, ← h.bhs]
      rfl

/-- how a search over slots ends -/
structure SlotsFound (sb : FatSb) (l : List ℤ) (vol : Vol) (nr : ℕ) (r : SearchEnd × FreeSearch) : Prop where
  found : r.1 = .found → ∃ i, i + nr ≤ nrSlots sb l ∧ RunAt sb l vol (i + nr) nr r.2 ∧ r.2.cur = slotCursor sb l (i + nr - 1)
  ended : r.1 = .ended → ∃ m < nr, RunAt sb l vol (nrSlots sb l) m r.2 ∧ r.2.cur.pos = DENT_SIZE * nrSlots sb l

/-- **The loop of the search**, at slot `i` with `m` free slots in hand. -/
theorem searchLoop_slots (hread : Readable env sb l) (nr fuel : ℕ) : ∀ {i m : ℕ} {f : FreeSearch}, DirOn sb vol dir l →
    f.s.vol = vol → CursorAt sb l i f.cur → RunAt sb l vol i m f → m < nr → i ≤ nrSlots sb l → nrSlots sb l - i < fuel →
    SlotsFound sb l vol nr (searchLoop env sb dir nr fuel f) := by
  induction fuel with
  | zero => exact fun _ _ _ _ _ _ h => absurd h (Nat.not_lt_zero _)
  | succ fuel ih =>
    intro i m f hdir hvol hcur hrun hm hile hfuel
    have hdir' : DirOn sb f.s.vol dir l := by rwa [hvol]
    rw [searchLoop]
    rcases Nat.lt_or_ge i (nrSlots sb l) with hi | hi
    · obtain ⟨s1, hget, hlook⟩ := fatGetEntry_slot hdir' hread hcur hi
      have hvol1 : s1.vol = vol := hlook.vol.trans hvol
      rw [hget]
      simp only [slotCursor_ent, hvol1]
      by_cases hfull : FAT_MAX_DIR_SIZE ≤ (slotCursor sb l i).pos
      · rw [if_pos hfull]
        exact ⟨fun h => absurd h (by simp), fun h => absurd h (by simp)⟩
      rw [if_neg hfull]
      by_cases hfree : IsFree (slot sb l vol i)
      · rw [if_pos hfree]
        obtain ⟨hrun1, hcur1, hlook1⟩ := hrun.snoc hdir hi hfree s1
        have hcount : f.freeSlots = m := hrun.count
        by_cases hdone : f.freeSlots + 1 = nr
        · rw [if_pos hdone]
          have hmn : m + 1 = nr := hcount ▸ hdone
          have hle := hrun.le
          refine ⟨fun _ => ⟨i + 1 - nr, by omega, ?_, ?_⟩, fun h => absurd h (by simp)⟩
          · rw [Nat.sub_add_cancel (show nr ≤ i + 1 by omega)]
            exact hmn ▸ hrun1
          · rw [Nat.sub_add_cancel (show nr ≤ i + 1 by omega)]
            exact hcur1
        · rw [if_neg hdone]
          refine ih hdir (hlook1.vol.trans hvol1) ?_ hrun1 (by omega) hi (by omega)
          rw [hcur1]
          exact cursorAt_slot hi
      · rw [if_neg hfree]
        have hnone : RunAt sb l vol (i + 1) 0 ({ f with cur := slotCursor sb l i, s := s1 } : FreeSearch).used :=
          ⟨Nat.zero_le _, fun j h1 h2 => absurd h2 (not_lt.2 h1), rfl, rfl, rfl⟩
        exact ih hdir ((foldl_brelse_looked f.bhs s1).vol.trans hvol1) (cursorAt_slot hi) hnone (by omega) hi (by omega)
    · have hend : i = nrSlots sb l := le_antisymm hile hi
      rw [fatGetEntry_end env hdir' hcur hi]
      refine ⟨fun h => absurd h (by simp), fun _ => ⟨m, hm, ?_, ?_⟩⟩
      · exact hend ▸ ⟨hrun.le, hrun.free, hrun.count, hrun.bhs, hrun.prev⟩
      · exact hend ▸ hcur.pos

/-- **The first stage of `fat_add_entries`** in a directory whose blocks can be read. -/
theorem searchFree_slots (hdir : DirOn sb s.vol dir l) (hread : Readable env sb l) {nr : ℕ} (hnr : 0 < nr) :
    SlotsFound sb l s.vol nr (searchFree env sb s dir nr) := by
  have hfuel : nrSlots sb l - 0 < dirEntries sb dir := by
    unfold dirEntries nrSlots
    rw [hdir.dirBlocks]
    exact Nat.lt_succ_self _
  exact searchLoop_slots hread nr _ hdir rfl (cursorAt_start sb l 0 none)
    ⟨le_rfl, fun j _ h => absurd h (Nat.not_lt_zero j), rfl, rfl, rfl⟩ hnr (Nat.zero_le _) hfuel

end

end AtsLdd.Fat
