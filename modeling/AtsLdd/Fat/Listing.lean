/-
Listing a directory: `__fat_readdir` (fat_dir.c), without vfat.

The position of a file is the byte offset of a slot. In the root directory 0 and 1 are the two entries "." and ".." that it
does not have on disk, and 2 is its first slot. `filldir` may refuse an entry, which ends the call; the numbers of the inodes
are not part of an entry here.

- `readdirName_eq_none`: the entries that are listed: neither free nor a volume label nor without a name;
- `readdirLoop_spec`: a call takes the entries of the slots in order, and stops at the slot of the one that is refused;
- `fatReaddir_interrupted`: however a listing is split into calls, it is the same; the offset of an entry is a position.
-/
import AtsLdd.Core.Resume
import AtsLdd.Fat.Dentry
import AtsLdd.Fat.DirSlots

namespace AtsLdd.Fat

open AtsLdd.Machine AtsLdd.Resume

/-- an entry as `filldir` gets it -/
structure Dirent where
  name : List UInt8
  off : ℕ
  /-- `DT_DIR`, or `DT_REG` -/
  isDir : Bool
  deriving DecidableEq

/-! ## The code -/

/-- the loop over the entries "." and ".." of the root directory, with `left` of them to go: whether one is refused, the
position, and the entries taken. `filldir` says whether the k-th entry of a call is taken. -/
def readdirDots (filldir : ℕ → Bool) : ℕ → ℕ → List Dirent → Bool × ℕ × List Dirent
  | 0, fPos, taken => (false, fPos, taken)
  | left + 1, fPos, taken =>
    if filldir taken.length then
      readdirDots filldir left (fPos + 1) (taken ++ [⟨[ch '.', ch '.'].take (fPos + 1), fPos, true⟩])
    else (true, fPos, taken)

/-- the variables of `__fat_readdir` -/
structure ReadDir where
  fPos : ℕ
  cur : DirCursor
  /-- `furrfu` points to `dummy`, which is 2, rather than to `lpos` -/
  dummy : Bool
  taken : List Dirent
  s : St

/-- the loop from the label `get_new` on; the fuel is a bound on the entries. The answer is whether an entry is refused. -/
def readdirLoop (env : Env) (sb : FatSb) (opts : MountOptions) (nls : NlsTable) (filldir : ℕ → Bool) (dir : Inode) :
    ℕ → ReadDir → Bool × ReadDir
  | 0, r => (false, r)
  | fuel + 1, r =>
    match fatGetEntry env sb r.s dir r.cur with
    | (false, cur, s) => (false, { r with fPos := cur.pos, cur := cur, s := s })
    | (true, cur, s) =>
      match readdirName opts nls (cur.ent s) with
      | none => readdirLoop env sb opts nls filldir dir fuel { r with fPos := cur.pos, cur := cur, dummy := false, s := s }
      | some name =>
        let lpos := cur.pos - DENT_SIZE
        let d : Dirent := ⟨name, if r.dummy then 2 else lpos, decide (entAttr (cur.ent s) &&& ATTR_DIR ≠ 0)⟩
        if filldir r.taken.length then
          readdirLoop env sb opts nls filldir dir fuel ⟨cur.pos, cur, false, r.taken ++ [d], s⟩
        else (true, { r with cur := cur, s := cur.release s })

/-- what `fat_readdir` leaves -/
structure Readdir where
  ret : ℤ
  refused : Bool
  fPos : ℕ
  taken : List Dirent
  s : St

/-- `fat_readdir` of a directory without vfat, from position `fPos` on -/
def fatReaddir (env : Env) (sb : FatSb) (opts : MountOptions) (nls : NlsTable) (filldir : ℕ → Bool) (isRoot : Bool)
    (dir : Inode) (s : St) (fPos : ℕ) : Readdir :=
  match if isRoot then readdirDots filldir (2 - fPos) fPos [] else (false, fPos, []) with
  | (true, fPos, taken) => ⟨0, true, fPos, taken, s⟩
  | (false, fPos, taken) =>
    let dummy : Bool := isRoot ∧ fPos = 2
    let cpos := if dummy then 0 else fPos
    if cpos % DENT_SIZE ≠ 0 then ⟨- ENOENT, false, fPos, taken, s⟩
    else
      match readdirLoop env sb opts nls filldir dir (dirEntries sb dir) ⟨fPos, ⟨cpos, none, none⟩, dummy, taken, s⟩ with
      | (refused, r) => ⟨0, refused, r.fPos, r.taken, r.s⟩

/-! ## Entries without a name -/

/-- neither the base nor the extension has a character other than a space -/
def BlankName (de : Buf) : Prop :=
  (∀ c ∈ ((entName de).take 8).takeWhile (· ≠ 0), c = ch ' ') ∧ ∀ c ∈ ((entName de).drop 8).takeWhile (· ≠ 0), c = ch ' '

instance (de : Buf) : Decidable (BlankName de) := inferInstanceAs (Decidable (_ ∧ _))

/-- a live entry with a name, not a volume label -/
def Listed (de : Buf) : Prop := ¬ IsFree de ∧ entAttr de &&& ATTR_VOLUME = 0 ∧ ¬ BlankName de

instance (de : Buf) : Decidable (Listed de) := inferInstanceAs (Decidable (_ ∧ _))

/-- a space is a character of one byte, as in every code page -/
def NlsTable.SpaceSingle (nls : NlsTable) : Prop :=
  ∀ (buf : List UInt8) (opt : ℕ) (lower : Bool), fatShortname2uni nls (ch ' ' :: buf) opt lower ≤ 1

section
variable {opts : MountOptions} {nls : NlsTable}

theorem copyName_pos (opts : MountOptions) (nls : NlsTable) (lower : Bool) (work : List UInt8) : ∀ (skip : ℕ)
    (ptname : List UInt8) (last : ℕ), 0 < last → 0 < (copyName opts nls lower skip work ptname last).2 := by
  induction work with
  | nil =>
    intro skip ptname last h
    cases skip <;> exact h
  | cons c work ih =>
    intro skip ptname last h
    cases skip with
    | succ skip => exact ih skip _ _ (Nat.succ_pos _)
    | zero =>
      rw [copyName]
      simp only
      split_ifs
      · exact h
      · exact ih 0 _ _ (Nat.succ_pos _)
      · exact ih 0 _ _ h
      · exact ih _ _ _ (Nat.succ_pos _)

/-- a copying loop finds only spaces -/
theorem copyName_blank (hnls : nls.SpaceSingle) (lower : Bool) (work : List UInt8) : ∀ (ptname : List UInt8) (last : ℕ),
    (copyName opts nls lower 0 work ptname last).2 = 0 ↔ last = 0 ∧ ∀ c ∈ work.takeWhile (· ≠ 0), c = ch ' ' := by
  induction work with
  | nil =>
    intro ptname last
    exact ⟨fun h => ⟨h, fun _ hc => absurd hc List.not_mem_nil⟩, fun h => h.1⟩
  | cons c work ih =>
    intro ptname last
    rw [copyName]
    by_cases h0 : c = 0
    · rw [if_pos h0, h0]
      exact ⟨fun h => ⟨h, fun _ hc => absurd hc List.not_mem_nil⟩, fun h => h.1⟩
    have htake : (c :: work).takeWhile (· ≠ 0) = c :: work.takeWhile (· ≠ 0) := by
      rw [List.takeWhile_cons_of_pos]
      exact decide_eq_true h0
    rw [if_neg h0, htake]
    by_cases hsp : c = ch ' '
    · subst hsp
      simp only [if_pos (hnls work opts.shortname lower), ne_eq, not_true_eq_false, if_false, ih, List.forall_mem_cons,
        true_and]
    · have hpos : ∀ (skip : ℕ) (ptname' : List UInt8),
          (copyName opts nls lower skip work ptname' (ptname.length + 1)).2 ≠ 0 :=
        fun skip ptname' => (copyName_pos opts nls lower work skip ptname' _ (Nat.succ_pos _)).ne'
      simp only [ne_eq, hsp, not_false_eq_true, if_true, List.forall_mem_cons, false_and, and_false, iff_false]
      split_ifs
      · exact hpos _ _
      · exact hpos _ _

/-- **The entries that are listed.** -/
theorem readdirName_eq_none (hnls : nls.SpaceSingle) (de : Buf) : readdirName opts nls de = none ↔ ¬ Listed de := by
  unfold readdirName Listed
  by_cases hskip : entAttr de &&& ATTR_VOLUME ≠ 0 ∨ IsFree de
  · rw [if_pos hskip]
    apply iff_of_true rfl
    intro h
    rcases hskip with hvol | hfree
    · exact hvol h.2.1
    · exact h.1 hfree
  rw [if_neg hskip]
  obtain ⟨hvol, hfree⟩ := not_or.1 hskip
  have hiff : ∀ w : List UInt8, ((∀ c ∈ (w.take 8).takeWhile (· ≠ 0), c = ch ' ') ∧
      ∀ c ∈ (w.drop 8).takeWhile (· ≠ 0), c = ch ' ') ↔
        (copyName opts nls (decide (entLcase de &&& CASE_LOWER_EXT ≠ 0)) 0 (w.drop 8)
          ((copyName opts nls (decide (entLcase de &&& CASE_LOWER_BASE ≠ 0)) 0 (w.take 8) [] 0).1.take
            (copyName opts nls (decide (entLcase de &&& CASE_LOWER_BASE ≠ 0)) 0 (w.take 8) [] 0).2 ++ [ch '.'])
          (copyName opts nls (decide (entLcase de &&& CASE_LOWER_BASE ≠ 0)) 0 (w.take 8) [] 0).2).2 = 0 := by
    intro w
    rw [copyName_blank hnls, copyName_blank hnls]
    simp only [true_and]
  -- the byte 0x05 stands for another one, which is no space either
  have hwork : BlankName de ↔ (∀ c ∈ ((if de 0 = 0x05 then 0xe5 :: (entName de).tail else entName de).take 8).takeWhile
        (· ≠ 0), c = ch ' ') ∧
      ∀ c ∈ ((if de 0 = 0x05 then 0xe5 :: (entName de).tail else entName de).drop 8).takeWhile (· ≠ 0), c = ch ' ' := by
    unfold BlankName
    by_cases h5 : de 0 = 0x05
    · have hname : entName de = 0x05 :: (entName de).tail := by rw [← h5]; rfl
      rw [if_pos h5, hname]
      refine iff_of_false (fun h => ?_) fun h => ?_
      · exact absurd (h.1 0x05 (by simp)) (by decide)
      · exact absurd (h.1 0xe5 (by simp)) (by decide)
    · rw [if_neg h5]
  simp only [hfree, not_false_eq_true, not_not.1 hvol, true_and, not_not, hwork]
  generalize (if de 0 = 0x05 then 0xe5 :: (entName de).tail else entName de) = work
  rw [hiff]
  split_ifs with hlast
  · exact iff_of_true rfl hlast
  · exact iff_of_false (by simp) hlast

end

/-! ## The listing -/

/-- the position of slot `i` -/
def slotPos (isRoot : Bool) (i : ℕ) : ℕ := if isRoot = true ∧ i = 0 then 2 else DENT_SIZE * i

/-- the entry of a slot -/
def slotDirent (opts : MountOptions) (nls : NlsTable) (isRoot : Bool) (i : ℕ) (de : Buf) : Dirent :=
  ⟨(readdirName opts nls de).getD [], slotPos isRoot i, decide (entAttr de &&& ATTR_DIR ≠ 0)⟩

/-- the entries of the slots from number `i` on, in order -/
def direntsFrom (opts : MountOptions) (nls : NlsTable) (isRoot : Bool) (sb : FatSb) (l : List ℤ) (vol : Vol) (i : ℕ) :
    List Dirent :=
  ((List.range' i (nrSlots sb l - i)).filter fun j => Listed (slot sb l vol j)).map fun j =>
    slotDirent opts nls isRoot j (slot sb l vol j)

/-- "." and ".." of the root directory -/
def rootDots : List Dirent := [⟨[ch '.'], 0, true⟩, ⟨[ch '.', ch '.'], 1, true⟩]

/-- the entries behind a position -/
def listFrom (opts : MountOptions) (nls : NlsTable) (isRoot : Bool) (sb : FatSb) (l : List ℤ) (vol : Vol) (fPos : ℕ) :
    List Dirent :=
  if isRoot = true ∧ fPos ≤ 2 then rootDots.drop fPos ++ direntsFrom opts nls isRoot sb l vol 0
  else direntsFrom opts nls isRoot sb l vol (fPos / DENT_SIZE)

/-- a position at which a call goes on -/
def GoodPos (isRoot : Bool) (fPos : ℕ) : Prop := isRoot = true ∧ fPos ≤ 2 ∨ DENT_SIZE ∣ fPos

section
variable {env : Env} {sb : FatSb} {opts : MountOptions} {nls : NlsTable} {filldir : ℕ → Bool} {isRoot : Bool} {dir : Inode}
  {s : St} {l : List ℤ} {vol : Vol} {i fPos : ℕ}

theorem direntsFrom_end (hi : nrSlots sb l ≤ i) : direntsFrom opts nls isRoot sb l vol i = [] := by
  unfold direntsFrom
  rw [Nat.sub_eq_zero_of_le hi]
  rfl

theorem direntsFrom_slot (opts : MountOptions) (nls : NlsTable) (isRoot : Bool) (vol : Vol) (hi : i < nrSlots sb l) :
    direntsFrom opts nls isRoot sb l vol i =
    (if Listed (slot sb l vol i) then [slotDirent opts nls isRoot i (slot sb l vol i)] else []) ++
      direntsFrom opts nls isRoot sb l vol (i + 1) := by
  unfold direntsFrom
  have hleft : nrSlots sb l - i = nrSlots sb l - (i + 1) + 1 := by omega
  rw [hleft, List.range'_succ, List.filter_cons]
  split_ifs with h1 h2 h2
  · rfl
  · exact absurd (of_decide_eq_true h1) h2
  · exact absurd (decide_eq_true h2) h1
  · rfl

theorem goodPos_slotPos (isRoot : Bool) (i : ℕ) : GoodPos isRoot (slotPos isRoot i) := by
  unfold GoodPos slotPos
  by_cases h : isRoot = true ∧ i = 0
  · rw [if_pos h]
    exact Or.inl ⟨h.1, le_rfl⟩
  · rw [if_neg h]
    exact Or.inr (Nat.dvd_mul_right _ _)

/-- behind the position of a slot are the entries from that slot on -/
theorem listFrom_slotPos (i : ℕ) : listFrom opts nls isRoot sb l vol (slotPos isRoot i) =
    direntsFrom opts nls isRoot sb l vol i := by
  unfold listFrom slotPos
  by_cases h : isRoot = true ∧ i = 0
  · rw [if_pos h, if_pos ⟨h.1, le_rfl⟩, h.2]
    rfl
  · rw [if_neg h, Nat.mul_div_cancel_left _ (show 0 < DENT_SIZE by decide), if_neg ?_]
    rintro ⟨hroot, hle⟩
    refine h ⟨hroot, ?_⟩
    unfold DENT_SIZE at hle
    omega

/-! ## One call -/

theorem readdirDots_spec (filldir : ℕ → Bool) (left : ℕ) : ∀ (fPos : ℕ) (taken : List Dirent), left + fPos = 2 →
    ∃ refused fPos' taken', readdirDots filldir left fPos taken = (refused, fPos', taken') ∧ fPos' ≤ 2 ∧
      (refused = false → fPos' = 2) ∧ taken' ++ rootDots.drop fPos' = taken ++ rootDots.drop fPos := by
  induction left with
  | zero =>
    intro _ _ h
    exact ⟨_, _, _, rfl, by omega, fun _ => by omega, rfl⟩
  | succ left ih =>
    intro fPos taken hleft
    rw [readdirDots]
    by_cases htake : filldir taken.length = true
    · rw [if_pos htake]
      obtain ⟨refused, fPos', taken', heq, hle, hend, hsplit⟩ := ih (fPos + 1)
        (taken ++ [⟨[ch '.', ch '.'].take (fPos + 1), fPos, true⟩]) (by omega)
      refine ⟨refused, fPos', taken', heq, hle, hend, ?_⟩
      have hcases : fPos = 0 ∨ fPos = 1 := by omega
      rw [hsplit, List.append_assoc]
      rcases hcases with rfl | rfl <;> rfl
    · rw [if_neg htake]
      exact ⟨_, _, _, rfl, by omega, fun h => absurd h (by simp), rfl⟩

/-- **The slots of a call.** It takes their entries in order, and stops at the slot of the one that is refused. -/
theorem readdirLoop_spec (opts : MountOptions) (filldir : ℕ → Bool) (hdir : DirOn sb s.vol dir l) (hread : Readable env sb l)
    (hnls : nls.SpaceSingle) (fuel : ℕ) : ∀ {i : ℕ} (r : ReadDir), Looked s r.s → CursorAt sb l i r.cur →
      (r.dummy = true ↔ isRoot = true ∧ i = 0) →
      r.fPos = slotPos isRoot i → nrSlots sb l - i < fuel →
      ∃ refused r', readdirLoop env sb opts nls filldir dir fuel r = (refused, r') ∧ Looked s r'.s ∧
        (refused = true → ∃ j, r'.fPos = slotPos isRoot j ∧ r'.taken ++ direntsFrom opts nls isRoot sb l s.vol j =
          r.taken ++ direntsFrom opts nls isRoot sb l s.vol i) ∧
        (refused = false → r'.taken = r.taken ++ direntsFrom opts nls isRoot sb l s.vol i) := by
  induction fuel with
  | zero => exact fun _ _ _ _ _ h => absurd h (Nat.not_lt_zero _)
  | succ fuel ih =>
    intro i r hlook hcur hdummy hpos hfuel
    have hdir' : DirOn sb r.s.vol dir l := by rwa [hlook.vol]
    rw [readdirLoop]
    rcases Nat.lt_or_ge i (nrSlots sb l) with hi | hi
    · obtain ⟨s1, hget, hlook1⟩ := fatGetEntry_slot hdir' hread hcur hi
      have hlook1 := hlook.trans hlook1
      have hstep := direntsFrom_slot opts nls isRoot s.vol hi
      have hent : (slotCursor sb l i).ent s1 = slot sb l s.vol i := by rw [slotCursor_ent, hlook1.vol]
      have hlpos : (slotCursor sb l i).pos - DENT_SIZE = DENT_SIZE * i := Nat.add_sub_cancel (DENT_SIZE * i) DENT_SIZE
      have hpos1 : (slotCursor sb l i).pos = slotPos isRoot (i + 1) := (if_neg fun h => Nat.succ_ne_zero i h.2).symm
      have hdummy1 : (false = true ↔ isRoot = true ∧ i + 1 = 0) :=
        iff_of_false Bool.false_ne_true fun h => Nat.succ_ne_zero i h.2
      rw [hget]
      simp only [hent]
      cases hname : readdirName opts nls (slot sb l s.vol i) with
      | none =>
        rw [if_neg ((readdirName_eq_none hnls _).1 hname), List.nil_append] at hstep
        rw [hstep]
        exact ih _ hlook1 (cursorAt_slot hi) hdummy1 hpos1 (by omega)
      | some name =>
        have hlisted : Listed (slot sb l s.vol i) := by
          by_contra h
          rw [(readdirName_eq_none hnls _).2 h] at hname
          cases hname
        have hoff : (if r.dummy = true then 2 else (slotCursor sb l i).pos - DENT_SIZE) = slotPos isRoot i := by
          unfold slotPos
          simp only [hdummy, hlpos]
        have hd : slotDirent opts nls isRoot i (slot sb l s.vol i) =
            ⟨name, slotPos isRoot i, decide (entAttr (slot sb l s.vol i) &&& ATTR_DIR ≠ 0)⟩ := by
          unfold slotDirent
          rw [hname]
          rfl
        rw [if_pos hlisted, hd] at hstep
        simp only [hoff]
        by_cases htake : filldir r.taken.length = true
        · rw [if_pos htake, hstep, ← List.append_assoc]
          exact ih _ hlook1 (cursorAt_slot hi) hdummy1 hpos1 (by omega)
        · rw [if_neg htake]
          exact ⟨true, _, rfl, hlook1.trans ((slotCursor sb l i).release_looked s1), fun _ => ⟨i, hpos, rfl⟩,
            fun h => absurd h (by simp)⟩
    · rw [fatGetEntry_end env hdir' hcur hi, direntsFrom_end hi]
      exact ⟨false, _, rfl, hlook.trans (r.cur.release_looked r.s), fun h => absurd h (by simp),
        fun _ => (List.append_nil _).symm⟩

theorem forall_lt_append {taken : List Dirent} {d : Dirent} (h : ∀ k < taken.length, filldir k = true)
    (hd : filldir taken.length = true) : ∀ k < (taken ++ [d]).length, filldir k = true := by
  intro k hk
  rw [List.length_append, List.length_singleton] at hk
  rcases Nat.lt_succ_iff_lt_or_eq.1 hk with hk | rfl
  · exact h k hk
  · exact hd

/-- what is taken, and where a call stops -/
theorem readdirDots_taken (filldir : ℕ → Bool) (left : ℕ) : ∀ {fPos : ℕ} {taken : List Dirent},
    (∀ k < taken.length, filldir k = true) →
      (∀ k < (readdirDots filldir left fPos taken).2.2.length, filldir k = true) ∧
        ((readdirDots filldir left fPos taken).1 = true →
          filldir (readdirDots filldir left fPos taken).2.2.length = false) := by
  induction left with
  | zero => exact fun h => ⟨h, fun h => absurd h (by simp [readdirDots])⟩
  | succ left ih =>
    intro fPos taken h
    rw [readdirDots]
    by_cases htake : filldir taken.length = true
    · rw [if_pos htake]
      exact ih (forall_lt_append h htake)
    · rw [if_neg htake]
      exact ⟨h, fun _ => Bool.eq_false_of_not_eq_true htake⟩

theorem readdirLoop_taken (env : Env) (sb : FatSb) (opts : MountOptions) (nls : NlsTable) (filldir : ℕ → Bool) (dir : Inode)
    (fuel : ℕ) : ∀ {r : ReadDir}, (∀ k < r.taken.length, filldir k = true) →
      (∀ k < (readdirLoop env sb opts nls filldir dir fuel r).2.taken.length, filldir k = true) ∧
        ((readdirLoop env sb opts nls filldir dir fuel r).1 = true →
          filldir (readdirLoop env sb opts nls filldir dir fuel r).2.taken.length = false) := by
  induction fuel with
  | zero => exact fun h => ⟨h, fun h => absurd h (by simp [readdirLoop])⟩
  | succ fuel ih =>
    intro r h
    rw [readdirLoop]
    rcases fatGetEntry env sb r.s dir r.cur with ⟨ok, cur, s1⟩
    cases ok with
    | false => exact ⟨h, fun h => absurd h (by simp)⟩
    | true =>
      simp only
      cases readdirName opts nls (cur.ent s1) with
      | none => exact ih h
      | some name =>
        simp only
        by_cases htake : filldir r.taken.length = true
        · rw [if_pos htake]
          exact ih (forall_lt_append h htake)
        · rw [if_neg htake]
          exact ⟨h, fun _ => Bool.eq_false_of_not_eq_true htake⟩

theorem fatReaddir_taken (env : Env) (sb : FatSb) (opts : MountOptions) (nls : NlsTable) (filldir : ℕ → Bool) (isRoot : Bool)
    (dir : Inode) (s : St) (fPos : ℕ) :
    (∀ k < (fatReaddir env sb opts nls filldir isRoot dir s fPos).taken.length, filldir k = true) ∧
      ((fatReaddir env sb opts nls filldir isRoot dir s fPos).refused = true →
        filldir (fatReaddir env sb opts nls filldir isRoot dir s fPos).taken.length = false) := by
  have hnil : ∀ k < ([] : List Dirent).length, filldir k = true := fun _ hk => absurd hk (Nat.not_lt_zero _)
  have hdots : (∀ k < (if isRoot then readdirDots filldir (2 - fPos) fPos [] else (false, fPos, [])).2.2.length,
        filldir k = true) ∧
      ((if isRoot then readdirDots filldir (2 - fPos) fPos [] else (false, fPos, [])).1 = true →
        filldir (if isRoot then readdirDots filldir (2 - fPos) fPos [] else (false, fPos, [])).2.2.length = false) := by
    cases isRoot with
    | true => exact readdirDots_taken filldir _ hnil
    | false => exact ⟨hnil, fun h => absurd h (by simp)⟩
  unfold fatReaddir
  generalize (if isRoot then readdirDots filldir (2 - fPos) fPos [] else (false, fPos, [])) = r at hdots ⊢
  obtain ⟨refused, fPos', taken⟩ := r
  cases refused with
  | true => exact hdots
  | false =>
    simp only
    generalize (if decide (isRoot = true ∧ fPos' = 2) = true then 0 else fPos') = cpos
    by_cases hmod : cpos % DENT_SIZE ≠ 0
    · rw [if_pos hmod]
      exact ⟨hdots.1, fun h => absurd h (by simp)⟩
    · rw [if_neg hmod]
      exact readdirLoop_taken env sb opts nls filldir dir _
        (r := ⟨fPos', ⟨cpos, none, none⟩, decide (isRoot = true ∧ fPos' = 2), taken, s⟩) hdots.1

/-- the first slot of a call, and what is behind it -/
theorem slotPos_of_good (hgood : GoodPos isRoot fPos) (hdots : isRoot = true → 2 ≤ fPos) :
    ∃ i, fPos = slotPos isRoot i ∧ (if (isRoot = true ∧ fPos = 2) then 0 else fPos) = DENT_SIZE * i ∧
      (isRoot = true ∧ fPos = 2 ↔ isRoot = true ∧ i = 0) := by
  unfold slotPos
  by_cases h : isRoot = true ∧ fPos = 2
  · exact ⟨0, by rw [if_pos ⟨h.1, rfl⟩, h.2], if_pos h, iff_of_true h ⟨h.1, rfl⟩⟩
  · obtain ⟨i, hi⟩ : DENT_SIZE ∣ fPos := hgood.resolve_left fun hg => h ⟨hg.1, le_antisymm hg.2 (hdots hg.1)⟩
    have hne : ¬ (isRoot = true ∧ i = 0) := by
      rintro ⟨hroot, rfl⟩
      have := hdots hroot
      omega
    exact ⟨i, by rw [if_neg hne, hi], by rw [if_neg h, hi], iff_of_false h hne⟩

/-- a call, as a part of an enumeration -/
def Readdir.call (r : Readdir) : Call (ℕ × St) Dirent := ⟨r.taken, r.refused, r.fPos, r.s⟩

/-- **One call** takes the entries behind its position, up to the one that is refused. -/
theorem fatReaddir_resumes (opts : MountOptions) (hdir : DirOn sb s.vol dir l) (hread : Readable env sb l) (hnls : nls.SpaceSingle)
    (filldir : ℕ → Bool) (hgood : GoodPos isRoot fPos) :
    (fatReaddir env sb opts nls filldir isRoot dir s fPos).ret = 0 ∧
      Resumes (fun p => GoodPos isRoot p.1 ∧ p.2.vol = s.vol) (fun p => listFrom opts nls isRoot sb l s.vol p.1) (fPos, s)
        (fatReaddir env sb opts nls filldir isRoot dir s fPos).call := by
  -- the fake entries
  obtain ⟨refused, fPos', taken, hdots, hgood', hend, hsplit⟩ : ∃ refused fPos' taken,
      (if isRoot then readdirDots filldir (2 - fPos) fPos [] else (false, fPos, [])) = (refused, fPos', taken) ∧
      GoodPos isRoot fPos' ∧ (refused = false → isRoot = true → 2 ≤ fPos') ∧
      taken ++ listFrom opts nls isRoot sb l s.vol fPos' = listFrom opts nls isRoot sb l s.vol fPos := by
    by_cases hroot : isRoot = true ∧ fPos ≤ 2
    · obtain ⟨refused, fPos', taken, heq, hle, hend, hsplit⟩ :=
        readdirDots_spec filldir (2 - fPos) fPos [] (by omega)
      refine ⟨refused, fPos', taken, by rw [if_pos hroot.1, heq], Or.inl ⟨hroot.1, hle⟩, fun h _ => (hend h).ge, ?_⟩
      unfold listFrom
      rw [if_pos ⟨hroot.1, hle⟩, if_pos hroot, ← List.append_assoc, hsplit, List.nil_append]
    · refine ⟨false, fPos, [], ?_, hgood, fun _ h => ?_, List.nil_append _⟩
      · cases isRoot with
        | false => rfl
        | true =>
          rw [if_pos rfl, Nat.sub_eq_zero_of_le (not_le.1 fun hle => hroot ⟨rfl, hle⟩).le]
          rfl
      · exact (not_le.1 fun hle => hroot ⟨h, hle⟩).le
  unfold fatReaddir
  rw [hdots]
  cases refused with
  | true => exact ⟨rfl, fun _ => ⟨⟨hgood', rfl⟩, hsplit⟩, fun h => absurd h (by simp [Readdir.call])⟩
  | false =>
    obtain ⟨i, hpos, hcpos, hfirst⟩ := slotPos_of_good hgood' (hend rfl)
    have hmod : DENT_SIZE * i % DENT_SIZE = 0 := Nat.mul_mod_right _ _
    have hfuel : nrSlots sb l - i < dirEntries sb dir := by
      unfold dirEntries nrSlots
      rw [hdir.dirBlocks]
      omega
    simp only [decide_eq_true_eq, hcpos, hmod, ne_eq, not_true_eq_false, if_false]
    obtain ⟨refused, r, heq, hlook, hstop, hfin⟩ := readdirLoop_spec opts filldir hdir hread hnls
      (dirEntries sb dir) ⟨fPos', ⟨DENT_SIZE * i, none, none⟩, decide (isRoot = true ∧ fPos' = 2), taken, s⟩
      (Looked.refl s) (cursorAt_start sb l i none) (by simp only [decide_eq_true_eq, hfirst]) hpos hfuel
    rw [heq]
    rw [hpos, listFrom_slotPos] at hsplit
    refine ⟨trivial, fun h => ?_, fun h => (hfin h).trans hsplit⟩
    obtain ⟨j, hj, htaken⟩ := hstop h
    refine ⟨⟨?_, hlook.vol⟩, ?_⟩
    · simp only [Readdir.call, hj]
      exact goodPos_slotPos isRoot j
    · simp only [Readdir.call, hj, listFrom_slotPos]
      exact htaken.trans hsplit

/-! ## A whole listing -/

/-- what a directory lists: for the root "." and "..", and the entry of every slot that is listed, in order -/
def dirListing (opts : MountOptions) (nls : NlsTable) (isRoot : Bool) (sb : FatSb) (l : List ℤ) (vol : Vol) : List Dirent :=
  (if isRoot then rootDots else []) ++ ((List.range (nrSlots sb l)).filter fun i => Listed (slot sb l vol i)).map fun i =>
    slotDirent opts nls isRoot i (slot sb l vol i)

/-- a call of `fat_readdir` at a position, in a state -/
def ReaddirCall (sb : FatSb) (opts : MountOptions) (nls : NlsTable) (isRoot : Bool) (dir : Inode) (l : List ℤ)
    (p : ℕ × St) (c : Call (ℕ × St) Dirent) : Prop :=
  ∃ env filldir, Readable env sb l ∧ c = (fatReaddir env sb opts nls filldir isRoot dir p.2 p.1).call

theorem listFrom_start : listFrom opts nls isRoot sb l vol 0 = dirListing opts nls isRoot sb l vol := by
  have hslots : direntsFrom opts nls isRoot sb l vol 0 =
      ((List.range (nrSlots sb l)).filter fun i => Listed (slot sb l vol i)).map fun i =>
        slotDirent opts nls isRoot i (slot sb l vol i) := by
    rw [List.range_eq_range']
    rfl
  unfold listFrom dirListing
  rw [Nat.zero_div, hslots]
  cases isRoot with
  | true => rfl
  | false => rfl

/-- the offset of an entry is a position, and the entry is the first one behind it -/
theorem listFrom_off {d : Dirent} (hd : d ∈ dirListing opts nls isRoot sb l vol) :
    GoodPos isRoot d.off ∧ (listFrom opts nls isRoot sb l vol d.off).head? = some d := by
  rcases List.mem_append.1 hd with hd | hd
  · cases isRoot with
    | false => exact absurd hd List.not_mem_nil
    | true =>
      rcases List.mem_cons.1 hd with rfl | hd
      · exact ⟨Or.inl ⟨rfl, Nat.zero_le _⟩, rfl⟩
      · rw [List.mem_singleton.1 hd]
        exact ⟨Or.inl ⟨rfl, Nat.le_succ 1⟩, rfl⟩
  · obtain ⟨i, hi, rfl⟩ := List.mem_map.1 hd
    obtain ⟨hlt, hlisted⟩ := List.mem_filter.1 hi
    refine ⟨goodPos_slotPos isRoot i, ?_⟩
    change (listFrom opts nls isRoot sb l vol (slotPos isRoot i)).head? = _
    rw [listFrom_slotPos, direntsFrom_slot opts nls isRoot vol (List.mem_range.1 hlt), if_pos (of_decide_eq_true hlisted)]
    rfl

/-- a call takes its first entry when `filldir` does -/
theorem fatReaddir_first (hdir : DirOn sb s.vol dir l) (hread : Readable env sb l) (hnls : nls.SpaceSingle)
    (filldir : ℕ → Bool) (hgood : GoodPos isRoot fPos) {d : Dirent}
    (hd : (listFrom opts nls isRoot sb l s.vol fPos).head? = some d) :
    (fatReaddir env sb opts nls filldir isRoot dir s fPos).taken.head? = if filldir 0 then some d else none := by
  obtain ⟨-, hres⟩ := fatReaddir_resumes opts hdir hread hnls filldir hgood
  obtain ⟨htaken, hstop⟩ := fatReaddir_taken env sb opts nls filldir isRoot dir s fPos
  by_cases hnil : (fatReaddir env sb opts nls filldir isRoot dir s fPos).taken = []
  · rw [hnil] at hstop ⊢
    rw [if_neg ?_]
    · rfl
    · cases hr : (fatReaddir env sb opts nls filldir isRoot dir s fPos).refused with
      | true =>
        have h0 : filldir 0 = false := hstop hr
        rw [h0]
        exact Bool.false_ne_true
      | false =>
        -- nothing is refused, and nothing taken: there is no entry
        have hrest := hres.finished hr
        rw [← hrest] at hd
        change (fatReaddir env sb opts nls filldir isRoot dir s fPos).taken.head? = _ at hd
        rw [hnil] at hd
        cases hd
  · rw [if_pos (htaken 0 (List.length_pos_iff.2 hnil)), ← hd]
    exact hres.head? hnil

/-- **A listing can be interrupted.** However it is split into calls by refusing entries, the entries taken are those that one
call takes, each listed entry once, in order; and a call at the offset of an entry begins with that entry. -/
theorem fatReaddir_interrupted (hnls : nls.SpaceSingle) (hdir : DirOn sb s.vol dir l) (isRoot : Bool) :
    (∀ env, Readable env sb l → ∃ fPos s', fatReaddir env sb opts nls (fun _ => true) isRoot dir s 0 =
      ⟨0, false, fPos, dirListing opts nls isRoot sb l s.vol, s'⟩) ∧
    (∀ es, Enumerates (ReaddirCall sb opts nls isRoot dir l) (0, s) es → es = dirListing opts nls isRoot sb l s.vol) ∧
    ∀ d ∈ dirListing opts nls isRoot sb l s.vol, ∀ env, Readable env sb l → ∀ filldir,
      (fatReaddir env sb opts nls filldir isRoot dir s d.off).taken.head? = if filldir 0 then some d else none := by
  have hstart : GoodPos isRoot 0 := Or.inr (Nat.dvd_zero _)
  refine ⟨fun env hread => ?_, fun es hes => ?_, fun d hd env hread filldir => ?_⟩
  · obtain ⟨hret, hres⟩ := fatReaddir_resumes opts hdir hread hnls (fun _ => true) hstart
    obtain ⟨-, hstop⟩ := fatReaddir_taken env sb opts nls (fun _ => true) isRoot dir s 0
    generalize fatReaddir env sb opts nls (fun _ => true) isRoot dir s 0 = r at hret hres hstop ⊢
    obtain ⟨ret, refused, fPos, taken, s'⟩ := r
    cases refused with
    | true => exact absurd (hstop rfl) (by simp)
    | false =>
      obtain rfl : ret = 0 := hret
      obtain rfl : taken = _ := (hres.finished rfl).trans listFrom_start
      exact ⟨fPos, s', rfl⟩
  · rw [← listFrom_start]
    have hcall : ∀ p c, GoodPos isRoot p.1 ∧ p.2.vol = s.vol → ReaddirCall sb opts nls isRoot dir l p c →
        Resumes (fun p => GoodPos isRoot p.1 ∧ p.2.vol = s.vol) (fun p => listFrom opts nls isRoot sb l s.vol p.1) p c := by
      rintro ⟨fPos, s'⟩ c ⟨hgood, hvol⟩ ⟨env, filldir, hread, rfl⟩
      simp only at hgood hvol
      rw [← hvol] at hdir ⊢
      exact (fatReaddir_resumes opts hdir hread hnls filldir hgood).2
    exact Enumerates.eq_rest hcall hes ⟨hstart, rfl⟩
  · obtain ⟨hgood, hhead⟩ := listFrom_off hd
    exact fatReaddir_first hdir hread hnls filldir hgood hhead

end

/-- a root directory of one cluster with the hidden file "A" -/
def hiddenRoot : Vol := fun b => if b = 2 then hiddenEntry else tinyVol (fun k => if k = 2 then EOF_FAT32.toNat else 0) b

theorem hiddenRoot_dir : DirOn tinySb (St.idle hiddenRoot).vol ⟨2, 1024⟩ [2] :=
  ⟨Or.inr (.last ((table_eq_last (by decide)).2 (by decide))), by decide, by decide⟩

/-- the root directory is listed at once: ".", ".." and ".a" -/
theorem fatReaddir_interrupted_hidden : ∃ fPos s', fatReaddir goodEnv tinySb dotsOptions ⟨fun _ => 1, fun _ => 0⟩
    (fun _ => true) true ⟨2, 1024⟩ (St.idle hiddenRoot) 0 =
      ⟨0, false, fPos, dirListing dotsOptions ⟨fun _ => 1, fun _ => 0⟩ true tinySb [2] hiddenRoot, s'⟩ :=
  (fatReaddir_interrupted (fun _ _ _ => NlsTable.SingleByte.length_le (fun _ => le_rfl) _ _ _) hiddenRoot_dir true).1
    goodEnv ⟨fun _ _ _ => rfl, fun _ _ _ => rfl⟩

example : (dirListing dotsOptions ⟨fun _ => 1, fun _ => 0⟩ true tinySb [2] hiddenRoot).map (fun d => (d.name, d.off)) =
    [([ch '.'], 0), ([ch '.', ch '.'], 1), ([ch '.', ch 'a'], 2)] := by decide +kernel

end AtsLdd.Fat
