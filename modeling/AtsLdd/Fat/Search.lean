/-
The search for free slots in a directory: the entries that `fat_get_entry` hands out, and where the first stage of
`fat_add_entries` ends on them.

- `fatGetEntry_spec`: an entry that is handed out lies in a data block of the directory, and nothing changes but the
  references held;
- `dirMarks`: the entries handed out one after the other, as their positions and whether they are free;
- `searchFree_marks`: the search ends where a scan of these marks does;
- `scanMarks_ended`: a scan that comes to the end has met no run of free marks that is long enough.
-/
import AtsLdd.Fat.AddEntries
import AtsLdd.Fat.Containment

namespace AtsLdd.Fat

open AtsLdd.Machine AtsLdd.LinkTable AtsLdd.Chain

/-! ## Runs of marks -/

/-- `n` marks in a row are set -/
def HasRun (marks : List Bool) (n : ℕ) : Prop := ∃ i, ∀ j < n, marks[i + j]? = some true

/-- how many marks are set at the end -/
def freeTail (marks : List Bool) : ℕ := (marks.reverse.takeWhile id).length

/-- a scan for `nr` free marks in a row, with `k` of them in hand: where it ends, and how many are in hand then -/
def scanMarks (nr : ℕ) : ℕ → List (ℕ × Bool) → SearchEnd × ℕ
  | k, [] => (.ended, k)
  | k, (pos, free) :: es =>
    if FAT_MAX_DIR_SIZE ≤ pos then (.full, k)
    else if free then if k + 1 = nr then (.found, k + 1) else scanMarks nr (k + 1) es
    else scanMarks nr 0 es

theorem freeTail_replicate (k : ℕ) : freeTail (List.replicate k true) = k := by
  unfold freeTail
  rw [List.reverse_replicate, List.takeWhile_replicate]
  simp

/-- what is before a mark that is not set does not count -/
theorem freeTail_append (xs ys : List Bool) : freeTail (xs ++ false :: ys) = freeTail ys := by
  unfold freeTail
  rw [List.reverse_append, List.reverse_cons, List.append_assoc, List.takeWhile_append]
  split_ifs with hall
  · rw [List.singleton_append, List.takeWhile_cons_of_neg (by simp), List.append_nil, hall]
  · rfl

/-- a run that is longer than the marks before one that is not set comes behind it -/
theorem HasRun.behind {k n : ℕ} {ys : List Bool} (hk : k < n) (h : HasRun (List.replicate k true ++ false :: ys) n) :
    HasRun ys n := by
  obtain ⟨i, hi⟩ := h
  have hat : (List.replicate k true ++ false :: ys)[k]? = some false := by
    rw [List.getElem?_append_right (by rw [List.length_replicate]), List.length_replicate, Nat.sub_self]
    rfl
  have hki : k < i := by
    by_contra hle
    have hrun := hi (k - i) (by omega)
    rw [Nat.add_sub_cancel' (not_lt.1 hle), hat] at hrun
    exact absurd hrun (by simp)
  refine ⟨i - (k + 1), fun j hj => ?_⟩
  have hrun := hi j hj
  rw [List.getElem?_append_right (by rw [List.length_replicate]; omega), List.length_replicate] at hrun
  have hidx : i + j - k = i - (k + 1) + j + 1 := by omega
  rwa [hidx, List.getElem?_cons_succ] at hrun

theorem not_hasRun_replicate {k n : ℕ} (hk : k < n) : ¬ HasRun (List.replicate k true) n := by
  rintro ⟨i, hi⟩
  have hrun := hi k hk
  rw [List.getElem?_eq_none (by rw [List.length_replicate]; omega)] at hrun
  exact absurd hrun (by simp)

/-- **A scan that comes to the end** stayed below the maximum size, met no run, and has the marks at the end in hand. -/
theorem scanMarks_ended {nr : ℕ} (es : List (ℕ × Bool)) : ∀ {k : ℕ}, k < nr → (scanMarks nr k es).1 = .ended →
    (∀ e ∈ es, e.1 < FAT_MAX_DIR_SIZE) ∧ ¬ HasRun (List.replicate k true ++ es.map Prod.snd) nr ∧
      (scanMarks nr k es).2 = freeTail (List.replicate k true ++ es.map Prod.snd) := by
  induction es with
  | nil =>
    intro k hk _
    rw [List.map_nil, List.append_nil]
    exact ⟨fun _ he => absurd he List.not_mem_nil, not_hasRun_replicate hk, (freeTail_replicate k).symm⟩
  | cons e es ih =>
    obtain ⟨pos, free⟩ := e
    intro k hk hend
    rw [scanMarks] at hend ⊢
    by_cases hfull : FAT_MAX_DIR_SIZE ≤ pos
    · rw [if_pos hfull] at hend
      exact absurd hend (by simp)
    rw [if_neg hfull] at hend ⊢
    have hcons : ∀ {P : Prop}, ((∀ e ∈ es, e.1 < FAT_MAX_DIR_SIZE) ∧ P) →
        (∀ e ∈ (pos, free) :: es, e.1 < FAT_MAX_DIR_SIZE) ∧ P := by
      rintro P ⟨hlt, hP⟩
      exact ⟨List.forall_mem_cons.2 ⟨not_le.1 hfull, hlt⟩, hP⟩
    cases free with
    | true =>
      simp only [if_true] at hend ⊢
      by_cases hfound : k + 1 = nr
      · rw [if_pos hfound] at hend
        exact absurd hend (by simp)
      rw [if_neg hfound] at hend ⊢
      have hmove : List.replicate k true ++ (true :: es.map Prod.snd) = List.replicate (k + 1) true ++ es.map Prod.snd := by
        rw [List.replicate_succ', List.append_assoc]
        rfl
      rw [List.map_cons, hmove]
      exact hcons (ih (by omega) hend)
    | false =>
      simp only [Bool.false_eq_true, if_false] at hend ⊢
      obtain ⟨hlt, hrun, htail⟩ := ih (k := 0) (by omega) hend
      rw [List.replicate_zero, List.nil_append] at hrun htail
      rw [List.map_cons, freeTail_append]
      exact hcons ⟨hlt, fun h => hrun (h.behind hk), htail⟩

/-- a scan that meets nothing free and stays below the maximum size comes to the end empty-handed -/
theorem scanMarks_used {nr : ℕ} {es : List (ℕ × Bool)} (h : ∀ e ∈ es, e.1 < FAT_MAX_DIR_SIZE ∧ e.2 = false) :
    scanMarks nr 0 es = (.ended, 0) := by
  induction es with
  | nil => rfl
  | cons e es ih =>
    obtain ⟨⟨hpos, hused⟩, hrest⟩ := List.forall_mem_cons.1 h
    obtain ⟨pos, free⟩ := e
    simp only at hpos hused
    rw [scanMarks, if_neg (not_le.2 hpos), hused, if_neg (by simp)]
    exact ih hrest

/-- how many marks are in hand when a scan ends -/
theorem scanMarks_count {nr : ℕ} (es : List (ℕ × Bool)) : ∀ {k : ℕ}, k < nr →
    (scanMarks nr k es).1 = .found ∧ (scanMarks nr k es).2 = nr ∨
      (scanMarks nr k es).1 ≠ .found ∧ (scanMarks nr k es).2 < nr := by
  induction es with
  | nil => exact fun hk => Or.inr ⟨by simp [scanMarks], hk⟩
  | cons e es ih =>
    obtain ⟨pos, free⟩ := e
    intro k hk
    rw [scanMarks]
    by_cases hfull : FAT_MAX_DIR_SIZE ≤ pos
    · rw [if_pos hfull]
      exact Or.inr ⟨by simp, hk⟩
    rw [if_neg hfull]
    cases free with
    | true =>
      simp only [if_true]
      by_cases hfound : k + 1 = nr
      · rw [if_pos hfound]
        exact Or.inl ⟨rfl, hfound⟩
      · rw [if_neg hfound]
        exact ih (by omega)
    | false =>
      simp only [Bool.false_eq_true, if_false]
      exact ih (by omega)

/-! ## Data blocks -/

/-- the clusters of a directory; one without a first cluster has none -/
def DirChain (sb : FatSb) (vol : Vol) (start : ℤ) (l : List ℤ) : Prop := start = 0 ∧ l = [] ∨ Path (table sb vol) start l

/-- the data region is behind the FAT -/
theorem not_inFat_of_le {sb : FatSb} {b : ℕ} (h : sb.dataStart ≤ b) : ¬ InFat sb b := by
  rintro ⟨-, hlt⟩
  have hle := sb.fats_le
  have hone : sb.fatLength ≤ sb.fats * sb.fatLength := Nat.le_mul_of_pos_left _ sb.fats_pos
  omega

theorem dataStart_pos (sb : FatSb) : 0 < sb.dataStart := by
  have := sb.fatStart_pos
  have := sb.fats_le
  omega

/-- the blocks of a cluster of the volume are in the data region -/
theorem dataStart_le_block {sb : FatSb} {c : ℤ} (hc : InRange sb c) {i : ℕ} (hi : i < sb.secPerClus) :
    sb.dataStart ≤ sectorAdd (fatClusToBlknr sb c) i ∧ sectorAdd (fatClusToBlknr sb c) i = fatClusToBlknr sb c + i := by
  obtain ⟨k, rfl, h2, hk⟩ := inRange_natCast hc
  have hmax := sb.maxCluster_max
  have heq : ncluster2block sb (k : ℤ) = fatClusToBlknr sb (k : ℤ) :=
    ncluster2block_eq sb (by omega) (by unfold MAX_FAT32 at hmax; omega)
  have h0 := ncluster2block_spec sb h2 hk sb.secPerClus_pos
  have hi' := ncluster2block_spec sb h2 hk hi
  rw [heq] at h0 hi'
  have hzero : sectorAdd (fatClusToBlknr sb (k : ℤ)) 0 = fatClusToBlknr sb (k : ℤ) := by
    unfold sectorAdd fatClusToBlknr ulong
    omega
  rw [hzero] at h0
  omega

/-- nothing changed but the references held, the log and the clock -/
def Looked (s s' : St) : Prop := s' = { s with refs := s'.refs, low := s'.low, t := s'.t, log := s'.log }

theorem Looked.refl (s : St) : Looked s s := rfl

theorem Looked.trans {a b c : St} (h1 : Looked a b) (h2 : Looked b c) : Looked a c := by
  unfold Looked at *
  rw [h2, h1]

theorem Looked.vol {s s' : St} (h : Looked s s') : s'.vol = s.vol := by rw [h]

theorem Looked.disk {s s' : St} (h : Looked s s') : s'.disk = s.disk := by rw [h]

theorem Looked.sameFat {s s' : St} (h : Looked s s') (sb : FatSb) : SameFat sb s s' := by
  rw [h]
  exact ⟨fun _ _ => rfl, rfl, rfl, rfl, rfl⟩

theorem Quiet.looked {s s' : St} (h : Quiet s s') : Looked s s' := by
  unfold Looked
  rw [h]

theorem brelse_looked (s : St) (b : ℕ) : Looked s (brelse s b) := rfl

theorem foldl_brelse_looked (bhs : List ℕ) : ∀ s : St, Looked s (bhs.foldl brelse s) := by
  induction bhs with
  | nil => exact Looked.refl
  | cons b bhs ih =>
    intro s
    exact (brelse_looked s b).trans (ih (brelse s b))

theorem sbBread_looked (env : Env) (s : St) (b : ℕ) : Looked s (sbBread env s b).2 := by
  unfold sbBread
  split_ifs <;> rfl

section
variable {sb : FatSb} {dir : Inode} {l : List ℤ}

/-- a cluster of a directory is one of the volume -/
theorem fatBmapCluster_inRange (env : Env) (s : St) (hchain : DirChain sb s.vol dir.iStart l) (cluster : ℤ) :
    Quiet s (fatBmapCluster env sb s dir cluster).2 ∧
      (0 < (fatBmapCluster env sb s dir cluster).1 → InRange sb (fatBmapCluster env sb s dir cluster).1) := by
  unfold fatBmapCluster
  rcases hchain with ⟨h0, -⟩ | p
  · rw [if_pos h0]
    exact ⟨Quiet.refl s, fun h => absurd h (lt_irrefl 0)⟩
  have hstart : dir.iStart ≠ 0 := (path_inRange p _ p.head_mem).pos.ne'
  rw [if_neg hstart]
  obtain ⟨es, m, w, -, hquiet, -⟩ := fatGetClusterLoop_walk env sb cluster (clusterLimit sb + 2) s 0 dir.iStart _
    (Nat.zero_le _) (Nat.le_refl _) rfl
  generalize fatGetClusterLoop env sb cluster (clusterLimit sb + 2) s 0 dir.iStart = r at w hquiet ⊢
  have hreach := w.reached
  rw [nth_path p] at hreach
  have hin := path_inRange p _ (List.mem_of_getElem? hreach)
  simp only
  by_cases hret : r.ret < 0
  · rw [if_pos hret]
    exact ⟨hquiet, fun h => absurd h (not_lt.2 hret.le)⟩
  rw [if_neg hret]
  by_cases heof : r.ret = FAT_ENT_EOF
  · rw [if_pos heof]
    exact ⟨hquiet, fun h => absurd h (show ¬ (0 : ℤ) < - EIO by decide)⟩
  · rw [if_neg heof]
    exact ⟨hquiet, fun _ => hin⟩

/-- **A block of a directory** is a data block. -/
theorem fatBmap_data (env : Env) (s : St) (hchain : DirChain sb s.vol dir.iStart l) (sector : ℕ) :
    Quiet s (fatBmap env sb s dir sector).s ∧
      ((fatBmap env sb s dir sector).phys ≠ 0 → sb.dataStart ≤ (fatBmap env sb s dir sector).phys ∧
        sector < dirBlocks sb dir) := by
  unfold fatBmap
  simp only
  by_cases hlast : sector ≥ (dir.iSize + (sb.blocksize - 1)) / 2 ^ sb.blocksizeBits
  · rw [if_pos hlast]
    exact ⟨Quiet.refl s, fun h => absurd rfl h⟩
  rw [if_neg hlast]
  obtain ⟨hquiet, hin⟩ := fatBmapCluster_inRange env s hchain
    (int32 ((sector / 2 ^ (sb.clusterBits - sb.blocksizeBits) : ℕ) : ℤ))
  generalize fatBmapCluster env sb s dir (int32 ((sector / 2 ^ (sb.clusterBits - sb.blocksizeBits) : ℕ) : ℤ)) = r
    at hquiet hin ⊢
  obtain ⟨c, s'⟩ := r
  simp only at hquiet hin ⊢
  by_cases hneg : c < 0
  · rw [if_pos hneg]
    exact ⟨hquiet, fun h => absurd rfl h⟩
  rw [if_neg hneg]
  by_cases h0 : c ≠ 0
  · rw [if_pos h0]
    have hblock := dataStart_le_block (hin (lt_of_le_of_ne (not_lt.1 hneg) h0.symm)) (Nat.mod_lt sector sb.secPerClus_pos)
    exact ⟨hquiet, fun _ => ⟨hblock.1, not_le.1 hlast⟩⟩
  · rw [if_neg h0]
    exact ⟨hquiet, fun h => absurd rfl h⟩

/-! ## The cursor -/

/-- the cursor is between two entries; the buffer that it holds is of a data block, and the entry before it lies there -/
structure CursorOk (sb : FatSb) (dir : Inode) (cur : DirCursor) : Prop where
  aligned : DENT_SIZE ∣ cur.pos
  data : ∀ b, cur.bh = some b → sb.dataStart ≤ b
  entry : ∀ b off, cur.bh = some b → cur.de = some off → DENT_SIZE ∣ off ∧ off + DENT_SIZE ≤ sb.blocksize ∧
    ∃ q < dirBlocks sb dir, cur.pos = q * sb.blocksize + off + DENT_SIZE

theorem cursorOk_init (sb : FatSb) (dir : Inode) : CursorOk sb dir dirCursorInit :=
  ⟨Nat.dvd_zero _, fun _ h => absurd h (by simp [dirCursorInit]), fun _ _ h => absurd h (by simp [dirCursorInit])⟩

theorem dent_dvd_blocksize (sb : FatSb) : DENT_SIZE ∣ sb.blocksize :=
  pow_dvd_pow 2 (show 5 ≤ sb.blocksizeBits from le_trans (by decide) sb.bits_min)

/-- a cursor with an entry is inside the directory -/
theorem CursorOk.pos_le {cur : DirCursor} (h : CursorOk sb dir cur) {b off : ℕ} (hbh : cur.bh = some b)
    (hde : cur.de = some off) : cur.pos ≤ dirBlocks sb dir * sb.blocksize := by
  obtain ⟨-, hoff, q, hq, hpos⟩ := h.entry b off hbh hde
  have hle : (q + 1) * sb.blocksize ≤ dirBlocks sb dir * sb.blocksize := Nat.mul_le_mul_right _ hq
  rw [Nat.add_mul, Nat.one_mul] at hle
  omega

/-- the buffer of a cursor is given back -/
def DirCursor.release (cur : DirCursor) (s : St) : St :=
  match cur.bh with
  | none => s
  | some b => brelse s b

theorem DirCursor.release_looked (cur : DirCursor) (s : St) : Looked s (cur.release s) := by
  unfold DirCursor.release
  cases cur.bh with
  | none => exact Looked.refl s
  | some b => exact brelse_looked s b

theorem fatGetEntrySlow_succ (env : Env) (sb : FatSb) (dir : Inode) (fuel : ℕ) (s : St) (cur : DirCursor) :
    fatGetEntrySlow env sb dir (fuel + 1) s cur =
      if (fatBmap env sb (cur.release s) dir (cur.pos / sb.blocksize)).ret ≠ 0 ∨
          (fatBmap env sb (cur.release s) dir (cur.pos / sb.blocksize)).phys = 0 then
        (false, { cur with bh := none }, (fatBmap env sb (cur.release s) dir (cur.pos / sb.blocksize)).s)
      else
        match sbBread env (fatBmap env sb (cur.release s) dir (cur.pos / sb.blocksize)).s
            (fatBmap env sb (cur.release s) dir (cur.pos / sb.blocksize)).phys with
        | (false, s') => fatGetEntrySlow env sb dir fuel s'
            { cur with bh := none, pos := (cur.pos / sb.blocksize + 1) * sb.blocksize }
        | (true, s') => (true, ⟨cur.pos + DENT_SIZE, some (fatBmap env sb (cur.release s) dir (cur.pos / sb.blocksize)).phys,
            some (cur.pos % sb.blocksize)⟩, s') := by
  rcases cur with ⟨pos, _ | b, de⟩ <;> rfl

theorem fatGetEntrySlow_spec (env : Env) (fuel : ℕ) : ∀ (s : St) (cur : DirCursor), DirChain sb s.vol dir.iStart l →
    CursorOk sb dir cur → Looked s (fatGetEntrySlow env sb dir fuel s cur).2.2 ∧
      CursorOk sb dir (fatGetEntrySlow env sb dir fuel s cur).2.1 ∧
      ((fatGetEntrySlow env sb dir fuel s cur).1 = true →
        ∃ b off, (fatGetEntrySlow env sb dir fuel s cur).2.1.bh = some b ∧
          (fatGetEntrySlow env sb dir fuel s cur).2.1.de = some off) := by
  induction fuel with
  | zero =>
    intro s cur _ hcur
    exact ⟨Looked.refl s, hcur, fun h => absurd h (by simp [fatGetEntrySlow])⟩
  | succ fuel ih =>
    intro s cur hchain hcur
    rw [fatGetEntrySlow_succ]
    have hrel := cur.release_looked s
    generalize cur.release s = s1 at hrel ⊢
    have hnone : CursorOk sb dir { cur with bh := none } :=
      ⟨hcur.aligned, fun _ h => absurd h (by simp), fun _ _ h => absurd h (by simp)⟩
    rw [← hrel.vol] at hchain
    obtain ⟨hquiet, hdata⟩ := fatBmap_data env s1 hchain (cur.pos / sb.blocksize)
    have hlook := hrel.trans hquiet.looked
    generalize fatBmap env sb s1 dir (cur.pos / sb.blocksize) = r at hquiet hdata hlook ⊢
    by_cases hend : r.ret ≠ 0 ∨ r.phys = 0
    · rw [if_pos hend]
      exact ⟨hlook, hnone, fun h => absurd h (by simp)⟩
    rw [if_neg hend]
    obtain ⟨hblock, hsector⟩ := hdata (not_or.1 hend).2
    have hread := sbBread_looked env r.s r.phys
    rcases hb : sbBread env r.s r.phys with ⟨ok, s2⟩
    rw [hb] at hread
    cases ok with
    | false =>
      simp only
      have hskip : CursorOk sb dir { cur with bh := none, pos := (cur.pos / sb.blocksize + 1) * sb.blocksize } :=
        ⟨(dent_dvd_blocksize sb).mul_left _, fun _ h => absurd h (by simp), fun _ _ h => absurd h (by simp)⟩
      have hchain2 : DirChain sb s2.vol dir.iStart l := by
        rw [hread.vol, hquiet.vol]
        exact hchain
      obtain ⟨hlook2, hcur2, hent⟩ := ih s2 _ hchain2 hskip
      exact ⟨(hlook.trans hread).trans hlook2, hcur2, hent⟩
    | true =>
      simp only
      have hmod : DENT_SIZE ∣ cur.pos % sb.blocksize := (Nat.dvd_mod_iff (dent_dvd_blocksize sb)).2 hcur.aligned
      have hlt := Nat.mod_lt cur.pos sb.blocksize_pos
      refine ⟨hlook.trans hread, ⟨(Nat.dvd_add_self_right).2 hcur.aligned, ?_, ?_⟩, fun _ => ⟨_, _, rfl, rfl⟩⟩
      · intro b hb
        rw [← Option.some.inj hb]
        exact hblock
      · intro b off hb hoff
        rw [← Option.some.inj hoff]
        refine ⟨hmod, ?_, cur.pos / sb.blocksize, hsector, ?_⟩
        · have hdvd := dent_dvd_blocksize sb
          obtain ⟨x, hx⟩ := hmod
          obtain ⟨y, hy⟩ := hdvd
          rw [hx] at hlt ⊢
          rw [hy] at hlt ⊢
          unfold DENT_SIZE at *
          omega
        · rw [Nat.div_add_mod']

/-- **An entry that is handed out** lies in a data block of the directory. -/
theorem fatGetEntry_spec (env : Env) {s : St} {cur : DirCursor} (hchain : DirChain sb s.vol dir.iStart l)
    (hcur : CursorOk sb dir cur) : Looked s (fatGetEntry env sb s dir cur).2.2 ∧
      CursorOk sb dir (fatGetEntry env sb s dir cur).2.1 ∧
      ((fatGetEntry env sb s dir cur).1 = true → ∃ b off, (fatGetEntry env sb s dir cur).2.1.bh = some b ∧
        (fatGetEntry env sb s dir cur).2.1.de = some off) := by
  have hslow := fatGetEntrySlow_spec env (dirBlocks sb dir + 1) s cur hchain hcur
  rcases cur with ⟨pos, _ | b, de⟩
  · exact hslow
  rcases de with _ | off
  · exact hslow
  unfold fatGetEntry
  simp only
  by_cases hfast : off / DENT_SIZE + 1 < sb.dirPerBlock
  · rw [if_pos hfast]
    obtain ⟨hdvd, -, q, hq, hpos⟩ := hcur.entry b off rfl rfl
    refine ⟨Looked.refl s, ⟨(Nat.dvd_add_self_right).2 hcur.aligned, hcur.data, ?_⟩, fun _ => ⟨_, _, rfl, rfl⟩⟩
    intro b' off' _ hoff
    rw [← Option.some.inj hoff]
    refine ⟨(Nat.dvd_add_self_right).2 hdvd, ?_, q, hq, ?_⟩
    · obtain ⟨x, hx⟩ := hdvd
      obtain ⟨y, hy⟩ := dent_dvd_blocksize sb
      unfold FatSb.dirPerBlock at hfast
      rw [hx] at hfast ⊢
      rw [hy] at hfast ⊢
      unfold DENT_SIZE at *
      omega
    · simp only at hpos ⊢
      omega
  · rw [if_neg hfast]
    exact hslow

/-! ## What the references do not matter for -/

/-- states in which the same blocks are read at the same time -/
structure Twin (s s' : St) : Prop where
  vol : s'.vol = s.vol
  t : s'.t = s.t

theorem Twin.refl (s : St) : Twin s s := ⟨rfl, rfl⟩

theorem Twin.trans {a b c : St} (h1 : Twin a b) (h2 : Twin b c) : Twin a c := ⟨h2.vol.trans h1.vol, h2.t.trans h1.t⟩

variable {s s' : St}

theorem Twin.brelse (h : Twin s s') (b : ℕ) : Twin s (Fat.brelse s' b) := ⟨h.vol, h.t⟩

theorem Twin.foldl_brelse (bhs : List ℕ) : ∀ {s' : St}, Twin s s' → Twin s (bhs.foldl Fat.brelse s') := by
  induction bhs with
  | nil => exact fun h => h
  | cons b bhs ih => exact fun h => ih (h.brelse b)

theorem Twin.release (h : Twin s s') (cur : DirCursor) : Twin (cur.release s) (cur.release s') := by
  unfold DirCursor.release
  cases cur.bh with
  | none => exact h
  | some b => exact ⟨h.vol, h.t⟩

theorem Twin.sbBread (h : Twin s s') (env : Env) (b : ℕ) :
    (Fat.sbBread env s' b).1 = (Fat.sbBread env s b).1 ∧ Twin (Fat.sbBread env s b).2 (Fat.sbBread env s' b).2 := by
  unfold Fat.sbBread
  rw [h.t]
  split_ifs
  · exact ⟨rfl, h.vol, rfl⟩
  · exact ⟨rfl, h.vol, rfl⟩

theorem Twin.fatentNextSb (h : Twin s s') (env : Env) (sb : FatSb) (c : ℤ) :
    (Fat.fatentNextSb env sb s' c).1 = (Fat.fatentNextSb env sb s c).1 ∧
      Twin (Fat.fatentNextSb env sb s c).2 (Fat.fatentNextSb env sb s' c).2 := by
  obtain ⟨hok, htwin⟩ := h.sbBread env (fatEntBlocknr sb c).2
  unfold Fat.fatentNextSb
  simp only
  generalize Fat.sbBread env s (fatEntBlocknr sb c).2 = r at hok htwin ⊢
  generalize Fat.sbBread env s' (fatEntBlocknr sb c).2 = r' at hok htwin ⊢
  obtain ⟨ok, s1⟩ := r
  obtain ⟨ok', s1'⟩ := r'
  obtain rfl : ok' = ok := hok
  cases ok' with
  | false => exact ⟨rfl, htwin.vol, htwin.t⟩
  | true => exact ⟨congrArg (fun vol => some (fatLink sb vol c)) htwin.vol, htwin.vol, htwin.t⟩

theorem Twin.fatGetClusterLoop (env : Env) (sb : FatSb) (cluster : ℤ) (fuel : ℕ) : ∀ {s s' : St} (fclus : ℕ) (dclus : ℤ),
    Twin s s' →
    (Fat.fatGetClusterLoop env sb cluster fuel s' fclus dclus).ret = (Fat.fatGetClusterLoop env sb cluster fuel s fclus dclus).ret ∧
      (Fat.fatGetClusterLoop env sb cluster fuel s' fclus dclus).dclus =
        (Fat.fatGetClusterLoop env sb cluster fuel s fclus dclus).dclus ∧
      Twin (Fat.fatGetClusterLoop env sb cluster fuel s fclus dclus).s
        (Fat.fatGetClusterLoop env sb cluster fuel s' fclus dclus).s := by
  induction fuel with
  | zero => exact fun _ _ h => ⟨rfl, rfl, h⟩
  | succ fuel ih =>
    intro s s' fclus dclus h
    obtain ⟨hlink, htwin⟩ := h.fatentNextSb env sb dclus
    rw [Fat.fatGetClusterLoop, Fat.fatGetClusterLoop]
    by_cases hdone : cluster ≤ fclus
    · rw [if_pos hdone, if_pos hdone]
      exact ⟨rfl, rfl, h⟩
    rw [if_neg hdone, if_neg hdone]
    by_cases hlimit : clusterLimit sb < fclus
    · rw [if_pos hlimit, if_pos hlimit]
      exact ⟨rfl, rfl, h⟩
    rw [if_neg hlimit, if_neg hlimit]
    generalize Fat.fatentNextSb env sb s dclus = r at hlink htwin ⊢
    generalize Fat.fatentNextSb env sb s' dclus = r' at hlink htwin ⊢
    obtain ⟨next, s1⟩ := r
    obtain ⟨next', s1'⟩ := r'
    obtain rfl : next' = next := hlink
    cases next' with
    | none => exact ⟨rfl, rfl, htwin⟩
    | some nclus =>
      simp only
      by_cases hfree : nclus = FAT_ENT_FREE
      · rw [if_pos hfree, if_pos hfree]
        exact ⟨rfl, rfl, htwin⟩
      rw [if_neg hfree, if_neg hfree]
      by_cases heof : nclus = FAT_ENT_EOF
      · rw [if_pos heof, if_pos heof]
        exact ⟨rfl, rfl, htwin⟩
      · rw [if_neg heof, if_neg heof]
        exact ih _ _ htwin

theorem Twin.fatBmapCluster (h : Twin s s') (env : Env) (sb : FatSb) (dir : Inode) (cluster : ℤ) :
    (Fat.fatBmapCluster env sb s' dir cluster).1 = (Fat.fatBmapCluster env sb s dir cluster).1 ∧
      Twin (Fat.fatBmapCluster env sb s dir cluster).2 (Fat.fatBmapCluster env sb s' dir cluster).2 := by
  unfold Fat.fatBmapCluster
  by_cases hstart : dir.iStart = 0
  · rw [if_pos hstart, if_pos hstart]
    exact ⟨rfl, h⟩
  rw [if_neg hstart, if_neg hstart]
  obtain ⟨hret, hdclus, htwin⟩ := Twin.fatGetClusterLoop env sb cluster (clusterLimit sb + 2) 0 dir.iStart h
  generalize Fat.fatGetClusterLoop env sb cluster (clusterLimit sb + 2) s 0 dir.iStart = r at hret hdclus htwin ⊢
  generalize Fat.fatGetClusterLoop env sb cluster (clusterLimit sb + 2) s' 0 dir.iStart = r' at hret hdclus htwin ⊢
  simp only
  rw [hret, hdclus]
  split_ifs
  · exact ⟨rfl, htwin⟩
  · exact ⟨rfl, htwin⟩
  · exact ⟨rfl, htwin⟩

theorem Twin.fatBmap (h : Twin s s') (env : Env) (sb : FatSb) (dir : Inode) (sector : ℕ) :
    (Fat.fatBmap env sb s' dir sector).ret = (Fat.fatBmap env sb s dir sector).ret ∧
      (Fat.fatBmap env sb s' dir sector).phys = (Fat.fatBmap env sb s dir sector).phys ∧
      Twin (Fat.fatBmap env sb s dir sector).s (Fat.fatBmap env sb s' dir sector).s := by
  unfold Fat.fatBmap
  simp only
  by_cases hlast : sector ≥ (dir.iSize + (sb.blocksize - 1)) / 2 ^ sb.blocksizeBits
  · rw [if_pos hlast, if_pos hlast]
    exact ⟨rfl, rfl, h⟩
  rw [if_neg hlast, if_neg hlast]
  obtain ⟨hcluster, htwin⟩ := h.fatBmapCluster env sb dir
    (int32 ((sector / 2 ^ (sb.clusterBits - sb.blocksizeBits) : ℕ) : ℤ))
  generalize Fat.fatBmapCluster env sb s dir _ = r at hcluster htwin ⊢
  generalize Fat.fatBmapCluster env sb s' dir _ = r' at hcluster htwin ⊢
  obtain ⟨c, s1⟩ := r
  obtain ⟨c', s1'⟩ := r'
  obtain rfl : c' = c := hcluster
  simp only
  split_ifs
  · exact ⟨rfl, rfl, htwin⟩
  · exact ⟨rfl, rfl, htwin⟩
  · exact ⟨rfl, rfl, htwin⟩

theorem Twin.fatGetEntrySlow (env : Env) (sb : FatSb) (dir : Inode) (fuel : ℕ) : ∀ {s s' : St} (cur : DirCursor), Twin s s' →
    (Fat.fatGetEntrySlow env sb dir fuel s' cur).1 = (Fat.fatGetEntrySlow env sb dir fuel s cur).1 ∧
      (Fat.fatGetEntrySlow env sb dir fuel s' cur).2.1 = (Fat.fatGetEntrySlow env sb dir fuel s cur).2.1 ∧
      Twin (Fat.fatGetEntrySlow env sb dir fuel s cur).2.2 (Fat.fatGetEntrySlow env sb dir fuel s' cur).2.2 := by
  induction fuel with
  | zero => exact fun _ h => ⟨rfl, rfl, h⟩
  | succ fuel ih =>
    intro s s' cur h
    obtain ⟨hret, hphys, htwin⟩ := (h.release cur).fatBmap env sb dir (cur.pos / sb.blocksize)
    rw [fatGetEntrySlow_succ, fatGetEntrySlow_succ, hret, hphys]
    split_ifs
    · exact ⟨rfl, rfl, htwin⟩
    obtain ⟨hok, htwin'⟩ := htwin.sbBread env (Fat.fatBmap env sb (cur.release s) dir (cur.pos / sb.blocksize)).phys
    generalize Fat.sbBread env (Fat.fatBmap env sb (cur.release s) dir _).s _ = r at hok htwin' ⊢
    generalize Fat.sbBread env (Fat.fatBmap env sb (cur.release s') dir _).s _ = r' at hok htwin' ⊢
    obtain ⟨ok, s1⟩ := r
    obtain ⟨ok', s1'⟩ := r'
    obtain rfl : ok' = ok := hok
    cases ok' with
    | false => exact ih _ htwin'
    | true => exact ⟨rfl, rfl, htwin'⟩

/-- **The references do not matter** for the entries that are handed out. -/
theorem Twin.fatGetEntry (h : Twin s s') (env : Env) (sb : FatSb) (dir : Inode) (cur : DirCursor) :
    (Fat.fatGetEntry env sb s' dir cur).1 = (Fat.fatGetEntry env sb s dir cur).1 ∧
      (Fat.fatGetEntry env sb s' dir cur).2.1 = (Fat.fatGetEntry env sb s dir cur).2.1 ∧
      Twin (Fat.fatGetEntry env sb s dir cur).2.2 (Fat.fatGetEntry env sb s' dir cur).2.2 := by
  have hslow := Twin.fatGetEntrySlow env sb dir (dirBlocks sb dir + 1) cur h
  rcases cur with ⟨pos, _ | b, _ | off⟩
  · exact hslow
  · exact hslow
  · exact hslow
  unfold Fat.fatGetEntry
  simp only
  split_ifs
  · exact ⟨rfl, rfl, h⟩
  · exact hslow

/-! ## The search -/

/-- the entries that `fat_get_entry` hands out from the cursor on: the position behind each, and whether it is free -/
def dirMarks (env : Env) (sb : FatSb) (dir : Inode) : ℕ → St → DirCursor → List (ℕ × Bool)
  | 0, _, _ => []
  | fuel + 1, s, cur =>
    match fatGetEntry env sb s dir cur with
    | (false, _, _) => []
    | (true, cur, s) => (cur.pos, decide (IsFree (cur.ent s))) :: dirMarks env sb dir fuel s cur

/-- the marks of a whole directory -/
def allMarks (env : Env) (sb : FatSb) (s : St) (dir : Inode) : List (ℕ × Bool) :=
  dirMarks env sb dir (dirEntries sb dir) s dirCursorInit

/-- what a search that started in `s₀` keeps to -/
structure SearchOk (sb : FatSb) (dir : Inode) (s₀ : St) (f : FreeSearch) : Prop where
  looked : Looked s₀ f.s
  cur : CursorOk sb dir f.cur
  bhs : ∀ b ∈ f.bhs, sb.dataStart ≤ b

theorem FreeSearch.free_fields (f : FreeSearch) : f.free.cur = f.cur ∧ f.free.freeSlots = f.freeSlots + 1 ∧
    Twin f.s f.free.s := by
  unfold FreeSearch.free
  cases f.cur.bh with
  | none => exact ⟨rfl, rfl, Twin.refl f.s⟩
  | some b =>
    simp only
    split_ifs
    · exact ⟨rfl, rfl, Twin.refl f.s⟩
    · exact ⟨rfl, rfl, rfl, rfl⟩

theorem SearchOk.free {s₀ : St} {f : FreeSearch} (h : SearchOk sb dir s₀ f) : SearchOk sb dir s₀ f.free := by
  unfold FreeSearch.free
  cases hb : f.cur.bh with
  | none => exact ⟨h.looked, h.cur, h.bhs⟩
  | some b =>
    simp only
    split_ifs
    · exact ⟨h.looked, h.cur, h.bhs⟩
    · refine ⟨h.looked.trans rfl, h.cur, fun x hx => ?_⟩
      rcases List.mem_append.1 hx with hx | hx
      · exact h.bhs x hx
      · rw [List.mem_singleton.1 hx]
        exact h.cur.data b hb

theorem SearchOk.used {s₀ : St} {f : FreeSearch} (h : SearchOk sb dir s₀ f) : SearchOk sb dir s₀ f.used :=
  ⟨h.looked.trans (foldl_brelse_looked f.bhs f.s), h.cur, fun _ hx => absurd hx List.not_mem_nil⟩

theorem searchLoop_ok (env : Env) {s₀ : St} (hchain : DirChain sb s₀.vol dir.iStart l) (nr fuel : ℕ) :
    ∀ {f : FreeSearch}, SearchOk sb dir s₀ f → SearchOk sb dir s₀ (searchLoop env sb dir nr fuel f).2 := by
  induction fuel with
  | zero => exact fun h => h
  | succ fuel ih =>
    intro f h
    rw [searchLoop]
    have hchain' : DirChain sb f.s.vol dir.iStart l := by
      rw [h.looked.vol]
      exact hchain
    obtain ⟨hlook, hcur, -⟩ := fatGetEntry_spec env hchain' h.cur
    generalize fatGetEntry env sb f.s dir f.cur = r at hlook hcur ⊢
    obtain ⟨ok, cur, s⟩ := r
    have hnext : SearchOk sb dir s₀ { f with cur := cur, s := s } := ⟨h.looked.trans hlook, hcur, h.bhs⟩
    cases ok with
    | false => exact hnext
    | true =>
      simp only
      split_ifs
      · exact hnext
      · exact hnext.free
      · exact ih hnext.free
      · exact ih hnext.used

/-- **The search ends where a scan of the marks does**, with as many free slots in hand. -/
theorem searchLoop_marks (env : Env) (sb : FatSb) (dir : Inode) (nr fuel : ℕ) : ∀ {s : St} {f : FreeSearch}, Twin s f.s →
    ((searchLoop env sb dir nr fuel f).1, (searchLoop env sb dir nr fuel f).2.freeSlots) =
      scanMarks nr f.freeSlots (dirMarks env sb dir fuel s f.cur) := by
  induction fuel with
  | zero => exact fun _ => rfl
  | succ fuel ih =>
    intro s f htwin
    rw [searchLoop, dirMarks]
    obtain ⟨hok, hcur, htwin'⟩ := htwin.fatGetEntry env sb dir f.cur
    generalize fatGetEntry env sb s dir f.cur = r at hok hcur htwin' ⊢
    generalize fatGetEntry env sb f.s dir f.cur = r' at hok hcur htwin' ⊢
    obtain ⟨ok, cur, s1⟩ := r
    obtain ⟨ok', cur', s1'⟩ := r'
    obtain rfl : ok' = ok := hok
    obtain rfl : cur' = cur := hcur
    cases ok' with
    | false => rfl
    | true =>
      have hent : cur'.ent s1' = cur'.ent s1 := by
        unfold DirCursor.ent
        rw [htwin'.vol]
      obtain ⟨hfcur, hfslots, hftwin⟩ := FreeSearch.free_fields { f with cur := cur', s := s1' }
      simp only [scanMarks, hent, decide_eq_true_eq]
      by_cases hfull : FAT_MAX_DIR_SIZE ≤ cur'.pos
      · rw [if_pos hfull, if_pos hfull]
      rw [if_neg hfull, if_neg hfull]
      by_cases hfree : IsFree (cur'.ent s1)
      · rw [if_pos hfree, if_pos hfree]
        by_cases hfound : f.freeSlots + 1 = nr
        · rw [if_pos hfound, if_pos hfound, hfslots]
        · rw [if_neg hfound, if_neg hfound, ih (htwin'.trans hftwin), hfcur, hfslots]
      · rw [if_neg hfree, if_neg hfree]
        exact ih (Twin.foldl_brelse f.bhs htwin')

/-- **The first stage of `fat_add_entries`**, on the marks of the directory. -/
theorem searchFree_marks (env : Env) (sb : FatSb) (s : St) (dir : Inode) (nr : ℕ) :
    ((searchFree env sb s dir nr).1, (searchFree env sb s dir nr).2.freeSlots) = scanMarks nr 0 (allMarks env sb s dir) :=
  searchLoop_marks env sb dir nr (dirEntries sb dir) (Twin.refl s)

theorem searchFree_ok (env : Env) (hchain : DirChain sb s.vol dir.iStart l) (nr : ℕ) :
    SearchOk sb dir s (searchFree env sb s dir nr).2 :=
  searchLoop_ok env hchain nr _ ⟨Looked.refl s, cursorOk_init sb dir, fun _ hx => absurd hx List.not_mem_nil⟩

/-- the marks of a directory that hands out no free entry and ends below the maximum size -/
theorem dirMarks_used (env : Env) (hsize : dirBlocks sb dir * sb.blocksize < FAT_MAX_DIR_SIZE) (fuel : ℕ) :
    ∀ {s : St} {cur : DirCursor}, DirChain sb s.vol dir.iStart l → CursorOk sb dir cur →
      (∀ b, sb.dataStart ≤ b → ∀ off, ¬ IsFree (entAt s.vol b off)) →
      ∀ e ∈ dirMarks env sb dir fuel s cur, e.1 < FAT_MAX_DIR_SIZE ∧ e.2 = false := by
  induction fuel with
  | zero => exact fun _ _ _ e he => absurd he List.not_mem_nil
  | succ fuel ih =>
    intro s cur hchain hcur hused e he
    obtain ⟨hlook, hcur', hent⟩ := fatGetEntry_spec env hchain hcur
    rw [dirMarks] at he
    generalize fatGetEntry env sb s dir cur = r at hlook hcur' hent he
    obtain ⟨ok, cur', s'⟩ := r
    cases ok with
    | false => exact absurd he List.not_mem_nil
    | true =>
      obtain ⟨b, off, hbh, hde⟩ := hent rfl
      simp only at hlook hcur' hbh hde he
      rw [← hlook.vol] at hchain hused
      rcases List.mem_cons.1 he with rfl | he
      · refine ⟨lt_of_le_of_lt (hcur'.pos_le hbh hde) hsize, decide_eq_false ?_⟩
        unfold DirCursor.ent
        rw [hbh, hde]
        exact hused b (hcur'.data b hbh) off
      · exact ih hchain hcur' hused e he

end

end AtsLdd.Fat
