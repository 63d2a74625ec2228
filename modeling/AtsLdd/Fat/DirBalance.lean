/-
The references that the iterator of a directory and its scans take and give back.

The iterator has one buffer in hand, that of the entry it stands at, and has none when it ends. The loops around it are run
with a bound on the entries as fuel; a position that comes forward with every entry shows that the bound is never met
(`Further`).

- `fatGetEntry_stepped`, `fatGetShortEntry_stepped`: one call of the iterator;
- `fatScan_holds`, `fatSubdirs_holds`: the scans, for every content of the directory;
- `searchFree_searched`: the search of `fat_add_entries` for free slots, with the array of buffers that it fills.
-/
import AtsLdd.Fat.Balance
import AtsLdd.Fat.DirSlots
import AtsLdd.Fat.InodeEntry

namespace AtsLdd.Fat

open AtsLdd.Machine AtsLdd.Counted

/-! ## The iterator -/

/-- the cursor is on the boundary of an entry, and the entry before it is the one in hand -/
structure CursorIn (sb : FatSb) (dir : Inode) (cur : DirCursor) : Prop where
  aligned : DENT_SIZE ∣ cur.pos
  le : cur.pos ≤ dirBlocks sb dir * sb.blocksize
  entry : ∀ b off, cur.bh = some b → cur.de = some off →
    ∃ q < dirBlocks sb dir, cur.pos = q * sb.blocksize + off + DENT_SIZE

/-- what a call of the iterator has in hand: the buffer of an entry, or nothing -/
structure Handed (base : ℕ → ℤ) (held : Multiset ℕ) (r : Bool × DirCursor × St) : Prop where
  holds : Holds base (inHand r.2.1.bh + held) r.2.2
  ended : r.1 = false → r.2.1.bh = none
  found : r.1 = true → r.2.1.bh.isSome

/-- the entry that a call of the iterator leaves is further on -/
def Further (sb : FatSb) (dir : Inode) (cur : DirCursor) (r : Bool × DirCursor × St) : Prop :=
  r.1 = true → CursorIn sb dir r.2.1 ∧ cur.pos + DENT_SIZE ≤ r.2.1.pos

/-- what a call of the iterator leaves: an entry in hand further on, or nothing -/
structure Stepped (sb : FatSb) (dir : Inode) (base : ℕ → ℤ) (held : Multiset ℕ) (cur : DirCursor)
    (r : Bool × DirCursor × St) : Prop extends Handed base held r where
  further : Further sb dir cur r

section
variable {env : Env} {sb : FatSb} {dir : Inode} {base : ℕ → ℤ} {held : Multiset ℕ} {s : St} {cur : DirCursor}

theorem cursorIn_init (sb : FatSb) (dir : Inode) : CursorIn sb dir dirCursorInit :=
  ⟨Nat.dvd_zero _, Nat.zero_le _, fun _ _ h => absurd h (by simp [dirCursorInit])⟩

/-- a step that comes from further on -/
theorem Further.from_le {cur' : DirCursor} {r : Bool × DirCursor × St} (h : Further sb dir cur' r) (hle : cur.pos ≤ cur'.pos) :
    Further sb dir cur r :=
  fun hr => ⟨(h hr).1, (Nat.add_le_add_right hle _).trans (h hr).2⟩

/-- a block that is mapped is inside the directory -/
theorem fatBmap_lt {q : ℕ} (h : (fatBmap env sb s dir q).phys ≠ 0) : q < dirBlocks sb dir := by
  by_contra hge
  rw [fatBmap_last env s (not_lt.1 hge)] at h
  exact h rfl

theorem DirCursor.release_holds (h : Holds base (inHand cur.bh + held) s) : Holds base held (cur.release s) := by
  have hgive := h.brelseHand
  unfold DirCursor.release
  cases hbh : cur.bh with
  | none =>
    rw [hbh] at hgive
    exact hgive
  | some b =>
    rw [hbh] at hgive
    exact hgive

/-- `fat__get_entry`, with any fuel once the buffer is given back -/
theorem fatGetEntrySlow_handed (env : Env) (sb : FatSb) (dir : Inode) (fuel : ℕ) : ∀ {s : St} {cur : DirCursor},
    (cur.bh = none ∨ 0 < fuel) → Holds base (inHand cur.bh + held) s →
    Handed base held (fatGetEntrySlow env sb dir fuel s cur) := by
  induction fuel with
  | zero =>
    intro s cur hnone h
    exact ⟨h, fun _ => hnone.resolve_right (lt_irrefl 0), fun hr => absurd hr (by simp [fatGetEntrySlow])⟩
  | succ fuel ih =>
    intro s cur _ h
    have hmap := fatBmap_holds (DirCursor.release_holds h) env sb dir (cur.pos / sb.blocksize)
    rw [fatGetEntrySlow_succ]
    split_ifs with hend
    · refine ⟨?_, fun _ => rfl, fun hr => absurd hr (by simp)⟩
      rw [inHand_none, zero_add]
      exact hmap
    · rcases hmap.bread env (fatBmap env sb (cur.release s) dir (cur.pos / sb.blocksize)).phys with
        ⟨s', hread, hs'⟩ | ⟨s', hread, hs'⟩
      · simp only [hread]
        refine ⟨?_, fun hr => absurd hr (by simp), fun _ => rfl⟩
        rw [inHand_some, Multiset.singleton_add]
        exact hs'
      · simp only [hread]
        apply ih (Or.inl rfl)
        rw [inHand_none, zero_add]
        exact hs'

theorem fatGetEntry_handed (h : Holds base (inHand cur.bh + held) s) (env : Env) (sb : FatSb) (dir : Inode) :
    Handed base held (fatGetEntry env sb s dir cur) := by
  have hslow := fatGetEntrySlow_handed env sb dir (dirBlocks sb dir + 1) (Or.inr (Nat.succ_pos _)) h
  unfold fatGetEntry
  split
  · rename_i b off hbh hde
    split_ifs with hfast
    · refine ⟨h, fun hr => absurd hr (by simp), fun _ => ?_⟩
      change cur.bh.isSome = true
      rw [hbh]
      rfl
    · exact hslow
  · exact hslow

theorem fatGetEntrySlow_further (env : Env) (fuel : ℕ) : ∀ {s : St} {cur : DirCursor}, CursorIn sb dir cur →
    Further sb dir cur (fatGetEntrySlow env sb dir fuel s cur) := by
  induction fuel with
  | zero => exact fun _ hr => absurd hr (by simp [fatGetEntrySlow])
  | succ fuel ih =>
    intro s cur hcur
    have hbs := sb.blocksize_pos
    have hdiv := Nat.div_add_mod cur.pos sb.blocksize
    have hmod := Nat.mod_lt cur.pos hbs
    rw [fatGetEntrySlow_succ]
    split_ifs with hend
    · intro hr
      exact absurd hr (by simp)
    · have hlt := fatBmap_lt fun h0 => hend (Or.inr h0)
      have hnext : (cur.pos / sb.blocksize + 1) * sb.blocksize ≤ dirBlocks sb dir * sb.blocksize :=
        Nat.mul_le_mul_right _ hlt
      rw [Nat.add_mul, Nat.one_mul] at hnext
      rw [Nat.mul_comm] at hdiv
      generalize sbBread env _ _ = r
      obtain ⟨ok, s'⟩ := r
      cases ok with
      | true =>
        -- the entry ends inside the block
        have hoff : DENT_SIZE ∣ cur.pos % sb.blocksize := (Nat.dvd_mod_iff (dent_dvd_blocksize sb)).2 hcur.aligned
        have hfit : cur.pos % sb.blocksize + DENT_SIZE ≤ sb.blocksize := by
          obtain ⟨i, hi⟩ := hoff
          obtain ⟨k, hk⟩ := dent_dvd_blocksize sb
          rw [hi, hk] at hmod ⊢
          have hik := Nat.lt_of_mul_lt_mul_left hmod
          calc DENT_SIZE * i + DENT_SIZE = DENT_SIZE * (i + 1) := by ring
            _ ≤ DENT_SIZE * k := Nat.mul_le_mul_left _ hik
        refine fun _ => ⟨⟨?_, ?_, ?_⟩, le_rfl⟩
        · exact Nat.dvd_add hcur.aligned (Nat.dvd_refl _)
        · change cur.pos + DENT_SIZE ≤ _
          omega
        · intro b off _ hde
          obtain rfl := Option.some.inj hde
          refine ⟨_, hlt, ?_⟩
          change cur.pos + DENT_SIZE = _
          rw [hdiv]
      | false =>
        have hskip : CursorIn sb dir { cur with bh := none, pos := (cur.pos / sb.blocksize + 1) * sb.blocksize } :=
          ⟨Dvd.dvd.mul_left (dent_dvd_blocksize sb) _, by rw [Nat.add_mul, Nat.one_mul]; exact hnext,
            fun _ _ hb => absurd hb (by simp)⟩
        apply (ih hskip).from_le
        change cur.pos ≤ (cur.pos / sb.blocksize + 1) * sb.blocksize
        rw [Nat.add_mul, Nat.one_mul]
        omega

theorem fatGetEntry_further (env : Env) (s : St) (hcur : CursorIn sb dir cur) :
    Further sb dir cur (fatGetEntry env sb s dir cur) := by
  have hslow := fatGetEntrySlow_further env (dirBlocks sb dir + 1) (s := s) hcur
  unfold fatGetEntry
  split
  · rename_i b off hbh hde
    split_ifs with hfast
    · obtain ⟨q, hq, hpos⟩ := hcur.entry b off hbh hde
      have hnext : (q + 1) * sb.blocksize ≤ dirBlocks sb dir * sb.blocksize := Nat.mul_le_mul_right _ hq
      rw [Nat.add_mul, Nat.one_mul] at hnext
      have hoff : off + DENT_SIZE + DENT_SIZE ≤ sb.blocksize := by
        have hmul : DENT_SIZE ∣ q * sb.blocksize + off := by
          rw [← Nat.dvd_add_left (Nat.dvd_refl DENT_SIZE), ← hpos]
          exact hcur.aligned
        obtain ⟨i, rfl⟩ : DENT_SIZE ∣ off :=
          (Nat.dvd_add_right (Dvd.dvd.mul_left (dent_dvd_blocksize sb) q)).1 hmul
        rw [Nat.mul_div_cancel_left i (by decide)] at hfast
        calc DENT_SIZE * i + DENT_SIZE + DENT_SIZE = DENT_SIZE * (i + 1 + 1) := by ring
          _ ≤ DENT_SIZE * sb.dirPerBlock := Nat.mul_le_mul_left _ hfast
          _ = sb.blocksize := (blocksize_eq sb).symm
      refine fun _ => ⟨⟨?_, ?_, ?_⟩, le_rfl⟩
      · exact Nat.dvd_add hcur.aligned (Nat.dvd_refl _)
      · change cur.pos + DENT_SIZE ≤ _
        omega
      · intro b' off' _ hde'
        obtain rfl := Option.some.inj hde'
        refine ⟨q, hq, ?_⟩
        change cur.pos + DENT_SIZE = _
        rw [hpos]
        ring
    · exact hslow
  · exact hslow

/-- **One call of `fat_get_entry`**: an entry in hand further on, or nothing. -/
theorem fatGetEntry_stepped (env : Env) (hcur : CursorIn sb dir cur) (h : Holds base (inHand cur.bh + held) s) :
    Stepped sb dir base held cur (fatGetEntry env sb s dir cur) :=
  ⟨fatGetEntry_handed h env sb dir, fatGetEntry_further env s hcur⟩

/-- the fuel of a loop is more than the entries that are left -/
def Fuelled (sb : FatSb) (dir : Inode) (cur : DirCursor) (fuel : ℕ) : Prop :=
  dirBlocks sb dir * sb.blocksize < cur.pos + DENT_SIZE * fuel

theorem fuelled_entries (sb : FatSb) (dir : Inode) (cur : DirCursor) : Fuelled sb dir cur (dirEntries sb dir) := by
  unfold Fuelled dirEntries
  have hbytes : DENT_SIZE * (dirBlocks sb dir * sb.dirPerBlock + 1) = dirBlocks sb dir * sb.blocksize + DENT_SIZE := by
    rw [blocksize_eq]
    ring
  have hpos : 0 < DENT_SIZE := by decide
  omega

/-- an entry further on uses up one unit -/
theorem Fuelled.next {cur' : DirCursor} {fuel : ℕ} (h : Fuelled sb dir cur (fuel + 1)) (hpos : cur.pos + DENT_SIZE ≤ cur'.pos) :
    Fuelled sb dir cur' fuel := by
  unfold Fuelled at h ⊢
  rw [Nat.mul_add, Nat.mul_one] at h
  omega

/-- there is fuel at every position inside the directory -/
theorem Fuelled.ne_zero (hcur : CursorIn sb dir cur) : ¬ Fuelled sb dir cur 0 := by
  unfold Fuelled
  rw [Nat.mul_zero, Nat.add_zero]
  exact not_lt.2 hcur.le

/-- **One call of `fat_get_short_entry`.** -/
theorem fatGetShortEntry_stepped (env : Env) (fuel : ℕ) : ∀ {s : St} {cur : DirCursor}, CursorIn sb dir cur →
    Fuelled sb dir cur fuel → Holds base (inHand cur.bh + held) s →
    Stepped sb dir base held cur (fatGetShortEntry env sb dir fuel s cur) := by
  induction fuel with
  | zero => exact fun hcur hfuel _ => absurd hfuel (Fuelled.ne_zero hcur)
  | succ fuel ih =>
    intro s cur hcur hfuel h
    have hstep := fatGetEntry_stepped env hcur h
    rw [fatGetShortEntry]
    generalize fatGetEntry env sb s dir cur = r at hstep ⊢
    obtain ⟨ok, cur', s'⟩ := r
    cases ok with
    | false => exact hstep
    | true =>
      simp only
      split_ifs
      · exact hstep
      · obtain ⟨hcur', hpos⟩ := hstep.further rfl
        have hrest := ih hcur' (hfuel.next hpos) hstep.holds
        exact ⟨hrest.toHanded, hrest.further.from_le ((Nat.le_add_right _ _).trans hpos)⟩

/-! ## Scans -/

/-- a scan hands out the buffer of the entry that it finds, and nothing when it finds none -/
theorem fatScanLoop_holds (env : Env) (name : List UInt8) (fuel : ℕ) : ∀ {s : St} {cur : DirCursor}, CursorIn sb dir cur →
    Fuelled sb dir cur fuel → Holds base (inHand cur.bh + held) s →
    let r := fatScanLoop env sb dir name (dirEntries sb dir) fuel s cur
    Holds base (inHand r.2.1.bh + held) r.2.2 ∧ (r.1 = 0 → r.2.1.bh.isSome) ∧ (r.1 ≠ 0 → r.2.1.bh = none) := by
  induction fuel with
  | zero => exact fun hcur hfuel _ => absurd hfuel (Fuelled.ne_zero hcur)
  | succ fuel ih =>
    intro s cur hcur hfuel h
    have hstep := fatGetShortEntry_stepped env (dirEntries sb dir) hcur (fuelled_entries sb dir cur) h
    rw [fatScanLoop]
    generalize fatGetShortEntry env sb dir (dirEntries sb dir) s cur = r at hstep ⊢
    obtain ⟨ok, cur', s'⟩ := r
    cases ok with
    | false => exact ⟨hstep.holds, fun h0 => absurd h0 (show ¬ (- ENOENT : ℤ) = 0 by decide), fun _ => hstep.ended rfl⟩
    | true =>
      obtain ⟨hcur', hpos⟩ := hstep.further rfl
      simp only
      split_ifs
      · exact ⟨hstep.holds, fun _ => hstep.found rfl, fun h0 => absurd rfl h0⟩
      · exact ih hcur' (hfuel.next hpos) hstep.holds

theorem fatScan_holds (h : Holds base held s) (env : Env) (sb : FatSb) (dir : Inode) (name : List UInt8) :
    let r := fatScan env sb s dir name
    Holds base (inHand r.2.1.bh + held) r.2.2 ∧ (r.1 = 0 → r.2.1.bh.isSome) ∧ (r.1 ≠ 0 → r.2.1.bh = none) := by
  have hinit : Holds base (inHand dirCursorInit.bh + held) s := by
    change Holds base (0 + held) s
    rwa [zero_add]
  exact fatScanLoop_holds env name (dirEntries sb dir) (cursorIn_init sb dir) (fuelled_entries sb dir _) hinit

theorem fatSubdirsLoop_holds (env : Env) (fuel : ℕ) : ∀ {s : St} {cur : DirCursor} (count : ℕ), CursorIn sb dir cur →
    Fuelled sb dir cur fuel → Holds base (inHand cur.bh + held) s →
    Holds base held (fatSubdirsLoop env sb dir fuel s cur count).2 := by
  induction fuel with
  | zero => exact fun _ hcur hfuel _ => absurd hfuel (Fuelled.ne_zero hcur)
  | succ fuel ih =>
    intro s cur count hcur hfuel h
    have hstep := fatGetShortEntry_stepped env (dirEntries sb dir) hcur (fuelled_entries sb dir cur) h
    rw [fatSubdirsLoop]
    generalize fatGetShortEntry env sb dir (dirEntries sb dir) s cur = r at hstep ⊢
    obtain ⟨ok, cur', s'⟩ := r
    cases ok with
    | false => exact hstep.holds.brelseHand
    | true =>
      obtain ⟨hcur', hpos⟩ := hstep.further rfl
      exact ih _ hcur' (hfuel.next hpos) hstep.holds

theorem fatSubdirs_holds (h : Holds base held s) (env : Env) (sb : FatSb) (dir : Inode) :
    Holds base held (fatSubdirs env sb s dir).2 := by
  have hinit : Holds base (inHand dirCursorInit.bh + held) s := by
    change Holds base (0 + held) s
    rwa [zero_add]
  exact fatSubdirsLoop_holds env (dirEntries sb dir) 0 (cursorIn_init sb dir) (fuelled_entries sb dir _) hinit

/-! ## Searching free slots -/

/-- what the first stage of `fat_add_entries` has in hand; without free slots there are no buffers of them -/
def FreeSearch.hand (f : FreeSearch) : Multiset ℕ := inHand f.cur.bh + f.bhs

theorem FreeSearch.free_holds {f : FreeSearch} (h : Holds base (f.hand + held) f.s) :
    Holds base (f.free.hand + held) f.free.s := by
  unfold FreeSearch.free
  cases hbh : f.cur.bh with
  | none => exact h
  | some b =>
    simp only
    split_ifs
    · exact h
    · unfold FreeSearch.hand at h ⊢
      rw [add_comm (inHand f.cur.bh), add_assoc] at h
      have htake := Held.takeLast h b
      rw [← add_assoc, add_comm _ (inHand f.cur.bh)] at htake
      exact htake

theorem FreeSearch.used_holds {f : FreeSearch} (h : Holds base (f.hand + held) f.s) :
    Holds base (f.used.hand + held) f.used.s := by
  unfold FreeSearch.hand at h
  rw [add_comm (inHand f.cur.bh), add_assoc] at h
  have hgive := h.brelseAll
  change Holds base (inHand f.cur.bh + 0 + held) _
  rwa [add_zero]

/-- the end of a search: the iterator has an entry in hand when there are enough free slots, and none behind the last entry -/
structure Searched (base : ℕ → ℤ) (held : Multiset ℕ) (nr : ℕ) (r : SearchEnd × FreeSearch) : Prop where
  holds : Holds base (r.2.hand + held) r.2.s
  enough : r.1 = .found → r.2.freeSlots = nr ∧ r.2.cur.bh.isSome
  short : r.1 = .ended → r.2.freeSlots < nr ∧ r.2.cur.bh = none
  empty : r.2.freeSlots = 0 → r.2.bhs = []

theorem FreeSearch.free_cur (f : FreeSearch) : f.free.cur = f.cur := by
  unfold FreeSearch.free
  split
  · rfl
  · split_ifs <;> rfl

theorem FreeSearch.free_freeSlots (f : FreeSearch) : f.free.freeSlots = f.freeSlots + 1 := by
  unfold FreeSearch.free
  split
  · rfl
  · split_ifs <;> rfl

theorem searchLoop_searched (env : Env) {nr : ℕ} (fuel : ℕ) : ∀ {f : FreeSearch}, CursorIn sb dir f.cur →
    Fuelled sb dir f.cur fuel → Holds base (f.hand + held) f.s → f.freeSlots < nr → (f.freeSlots = 0 → f.bhs = []) →
    Searched base held nr (searchLoop env sb dir nr fuel f) := by
  induction fuel with
  | zero => exact fun hcur hfuel _ _ _ => absurd hfuel (Fuelled.ne_zero hcur)
  | succ fuel ih =>
    intro f hcur hfuel h hlt hempty
    unfold FreeSearch.hand at h
    rw [add_assoc] at h
    have hstep := fatGetEntry_stepped env hcur h
    rw [searchLoop]
    generalize fatGetEntry env sb f.s dir f.cur = r at hstep ⊢
    obtain ⟨ok, cur, s'⟩ := r
    have hholds : Holds base (({ f with cur := cur, s := s' } : FreeSearch).hand + held) s' := by
      unfold FreeSearch.hand
      rw [add_assoc]
      exact hstep.holds
    cases ok with
    | false => exact ⟨hholds, fun hf => absurd hf (by simp), fun _ => ⟨hlt, hstep.ended rfl⟩, hempty⟩
    | true =>
      obtain ⟨hcur', hpos⟩ := hstep.further rfl
      have hfree := FreeSearch.free_holds hholds
      have hslots := FreeSearch.free_freeSlots { f with cur := cur, s := s' }
      have hcurFree := FreeSearch.free_cur { f with cur := cur, s := s' }
      simp only
      split_ifs with hmax hisFree hnr
      · exact ⟨hholds, fun hf => absurd hf (by simp), fun hf => absurd hf (by simp), hempty⟩
      · refine ⟨hfree, fun _ => ⟨hslots.trans hnr, ?_⟩, fun hf => absurd hf (by simp), fun h0 => ?_⟩
        · rw [hcurFree]
          exact hstep.found rfl
        · exact absurd (hslots.symm.trans h0) (Nat.succ_ne_zero _)
      · refine ih ?_ ?_ hfree ?_ fun h0 => absurd (hslots.symm.trans h0) (Nat.succ_ne_zero _)
        · rw [hcurFree]
          exact hcur'
        · rw [hcurFree]
          exact hfuel.next hpos
        · rw [hslots]
          exact lt_of_le_of_ne (Nat.succ_le_of_lt hlt) hnr
      · exact ih hcur' (hfuel.next hpos) (FreeSearch.used_holds hholds) ((Nat.zero_le _).trans_lt hlt) fun _ => rfl

theorem searchFree_searched (h : Holds base held s) (env : Env) (sb : FatSb) (dir : Inode) {nr : ℕ} (hnr : 0 < nr) :
    Searched base held nr (searchFree env sb s dir nr) := by
  refine searchLoop_searched env _ (cursorIn_init sb dir) (fuelled_entries sb dir _) ?_ hnr fun _ => rfl
  change Holds base (0 + 0 + held) s
  rwa [zero_add, zero_add]

end

end AtsLdd.Fat
