/-
Freeing a cluster chain: `fat_free_clusters` (fat_entry.c).

The chain is followed and freed entry by entry. The buffers that change are collected, and written and mirrored when there
are too many of them and at the end. The loop is run with the number of entries as its fuel: each step frees an entry.

- `fatFreeLoop_step`: one step frees one entry and goes on to its link;
- `fatFreeClusters_path`: without a failure, exactly the entries of the chain are freed.
-/
import AtsLdd.Fat.Table

namespace AtsLdd.Fat

open AtsLdd.Machine AtsLdd.LinkTable

/-- a page of 4096 bytes, over 512 -/
def MAX_BUF_PER_PAGE : ℕ := 8

/-- `free_clusters` when it is not known: -1, as an `unsigned int` -/
def FREE_UNKNOWN : ℕ := 2 ^ 32 - 1

/-! ## Freeing -/

/-- the variables of `fat_free_clusters` -/
structure Free where
  fatent : FatEntry
  bhs : List ℕ
  firstCl : ℤ
  s : St

/-- the clusters from `first_cl` to the entry in hand are discarded, when the chain goes on elsewhere at `cluster` -/
def issueDiscard (sb : FatSb) (f : Free) (cluster : ℤ) : Free :=
  if cluster ≠ f.fatent.entry + 1 then
    let nrClus := f.fatent.entry - f.firstCl + 1
    let range := (fatClusToBlknr sb f.firstCl, ulong (int32 (nrClus * sb.secPerClus)))
    { f with firstCl := cluster, s := { f.s with discards := f.s.discards ++ [range] } }
  else f

/-- the entry in hand is freed -/
def putFree (f : Free) : Free :=
  let s := f.fatent.put f.s FAT_ENT_FREE
  { f with s := { s with
      freeClusters := if s.freeClusters ≠ FREE_UNKNOWN then (s.freeClusters + 1) % 2 ^ 32 else s.freeClusters } }

/-- the buffers collected so far are written when there is no room for another one -/
def flushBhs (env : Env) (sb : FatSb) (f : Free) : ℤ × Free :=
  if MAX_BUF_PER_PAGE < f.bhs.length + f.fatent.bh.toList.length then
    match fatWriteBhs env sb f.s f.bhs sb.synchronous with
    | (err, s) => if err ≠ 0 then (err, { f with s := s }) else (0, { f with bhs := [], s := f.bhs.foldl brelse s })
  else (0, f)

/-- the buffer of the entry in hand is collected -/
def Free.collect (f : Free) : Free :=
  let (bhs, s) := fatCollectBhs f.bhs f.s f.fatent
  { f with bhs := bhs, s := s }

/-- the loop of `fat_free_clusters`, at entry `cluster` -/
def fatFreeLoop (env : Env) (sb : FatSb) : ℕ → ℤ → Free → ℤ × Free
  | 0, _, f => (0, f)
  | fuel + 1, cluster, f =>
    match fatEntRead env sb f.s f.fatent cluster with
    | (cluster, fatent, s) =>
      let f := { f with fatent := fatent, s := s }
      if cluster < 0 then (cluster, f)
      else if cluster = FAT_ENT_FREE then (- EIO, f) -- an entry beyond EOF
      else
        match flushBhs env sb (putFree (issueDiscard sb f cluster)) with
        | (err, f) =>
          if err ≠ 0 then (err, f)
          else if cluster = FAT_ENT_EOF then (0, f.collect)
          else fatFreeLoop env sb fuel cluster f.collect

/-- `fat_free_clusters` -/
def fatFreeClusters (env : Env) (sb : FatSb) (s : St) (cluster : ℤ) : ℤ × St :=
  let (err, f) := fatFreeLoop env sb sb.maxCluster cluster ⟨fatentInit, [], cluster, s⟩
  let (err, s) := if err ≠ 0 then (err, f.s) else fatWriteBhs env sb f.s f.bhs sb.synchronous
  (err, f.bhs.foldl brelse (f.fatent.brelse s).2)

/-! ## What it does -/

section
variable {env : Env} {sb : FatSb} {a c : ℤ} {l : List ℤ}

theorem issueDiscard_spec (sb : FatSb) (f : Free) (c : ℤ) :
    (issueDiscard sb f c).fatent = f.fatent ∧ (issueDiscard sb f c).bhs = f.bhs ∧
      (issueDiscard sb f c).s.vol = f.s.vol ∧ (issueDiscard sb f c).s.prevFree = f.s.prevFree := by
  unfold issueDiscard
  split
  · exact ⟨rfl, rfl, rfl, rfl⟩
  · exact ⟨rfl, rfl, rfl, rfl⟩

theorem putFree_spec {f : Free} (hat : f.fatent.At sb c) :
    (putFree f).fatent = f.fatent ∧ (putFree f).bhs = f.bhs ∧ (putFree f).s.vol = fatPut sb f.s.vol c FAT_ENT_FREE ∧
      (putFree f).s.prevFree = f.s.prevFree := by
  unfold putFree
  simp only [hat.put]
  exact ⟨trivial, trivial, trivial, trivial⟩

/-- the buffers collected are blocks of the first FAT -/
def BhsInFat (sb : FatSb) (bhs : List ℕ) : Prop := ∀ b ∈ bhs, InFat sb b

theorem BhsInFat.nil (sb : FatSb) : BhsInFat sb [] := fun _ hb => absurd hb List.not_mem_nil

theorem foldl_brelse_sameFat (sb : FatSb) (bhs : List ℕ) : ∀ s : St, SameFat sb s (bhs.foldl brelse s) := by
  induction bhs with
  | nil =>
    intro s
    exact SameFat.refl sb s
  | cons b bhs ih =>
    intro s
    exact (brelse_sameFat sb s b).trans (ih (brelse s b))

/-- collecting the buffer of a cursor -/
theorem fatCollectBhs_spec (s : St) {e : FatEntry} {bhs : List ℕ} (hat : e.At sb c) (hc : InRange sb c)
    (hbhs : BhsInFat sb bhs) :
    BhsInFat sb (fatCollectBhs bhs s e).1 ∧ SameFat sb s (fatCollectBhs bhs s e).2 := by
  unfold fatCollectBhs
  rw [hat.bh]
  simp only
  by_cases hmem : (fatEntBlocknr sb c).2 ∈ bhs
  · rw [if_pos hmem]
    exact ⟨hbhs, SameFat.refl sb s⟩
  · rw [if_neg hmem]
    refine ⟨fun b hb => ?_, ⟨fun _ _ => rfl, rfl, rfl, rfl, rfl⟩⟩
    rcases List.mem_append.1 hb with hb | hb
    · exact hbhs b hb
    · rw [List.mem_singleton.1 hb]
      exact fatEntBlocknr_inFat hc

/-- without a failure, flushing succeeds -/
theorem flushBhs_ok (henv : env.NoFault) {f : Free} (hbhs : BhsInFat sb f.bhs) :
    ∃ f', flushBhs env sb f = (0, f') ∧ f'.fatent = f.fatent ∧ BhsInFat sb f'.bhs ∧ SameFat sb f.s f'.s := by
  unfold flushBhs
  by_cases hfull : MAX_BUF_PER_PAGE < f.bhs.length + f.fatent.bh.toList.length
  · rw [if_pos hfull]
    obtain ⟨s', hwrite, hsame⟩ := fatWriteBhs_ok henv f.s hbhs sb.synchronous
    rw [hwrite]
    exact ⟨_, rfl, rfl, BhsInFat.nil sb, hsame.trans (foldl_brelse_sameFat sb _ s')⟩
  · rw [if_neg hfull]
    exact ⟨f, rfl, rfl, hbhs, SameFat.refl sb f.s⟩

/-- **One step** on an entry that is not free: it is freed, and the loop goes on to its link. -/
theorem fatFreeLoop_step (henv : env.NoFault) (fuel : ℕ) {f : Free} (hc : InRange sb c)
    (hlink : fatLink sb f.s.vol c ≠ FAT_ENT_FREE) (hbhs : BhsInFat sb f.bhs) :
    ∃ f', fatFreeLoop env sb (fuel + 1) c f =
        (if fatLink sb f.s.vol c = FAT_ENT_EOF then (0, f') else fatFreeLoop env sb fuel (fatLink sb f.s.vol c) f') ∧
      EqFat sb (fatPut sb f.s.vol c FAT_ENT_FREE) f'.s.vol ∧ BhsInFat sb f'.bhs ∧ f'.s.prevFree = f.s.prevFree := by
  obtain ⟨e, s1, hread, hat, hsame1⟩ := fatEntRead_ok henv f.s f.fatent hc
  have hneg : ¬ fatLink sb f.s.vol c < 0 := not_lt.2 (fat32EntGet_bounds _ _).1
  simp only [fatFreeLoop, hread, if_neg hneg, if_neg hlink]
  set f1 : Free := { f with fatent := e, s := s1 } with hf1
  obtain ⟨hd1, hd2, hd3, hd4⟩ := issueDiscard_spec sb f1 (fatLink sb f.s.vol c)
  rw [← hd2] at hbhs
  have hat1 : (issueDiscard sb f1 (fatLink sb f.s.vol c)).fatent.At sb c := by
    rw [hd1]
    exact hat
  generalize issueDiscard sb f1 (fatLink sb f.s.vol c) = f1' at hd1 hd3 hd4 hat1 hbhs ⊢
  -- the entry in hand is freed
  obtain ⟨hp1, hp2, hp3, hp4⟩ := putFree_spec hat1
  rw [← hp1] at hat1
  rw [← hp2] at hbhs
  generalize putFree f1' = f2 at hp3 hp4 hat1 hbhs ⊢
  obtain ⟨f3, hflush, hent3, hbhs3, hsame3⟩ := flushBhs_ok henv hbhs
  rw [← hent3] at hat1
  obtain ⟨hbhs4, hsame4⟩ := fatCollectBhs_spec f3.s hat1 hc hbhs3
  have hsame : SameFat sb f2.s f3.collect.s := hsame3.trans hsame4
  refine ⟨f3.collect, by rw [hflush]; rfl, ?_, hbhs4, ?_⟩
  · refine EqFat.trans ?_ hsame.vol
    rw [hp3, hd3]
    exact EqFat.fatPut hsame1.vol hc _
  · rw [hsame.prevFree, hp4, hd4, hsame1.prevFree]

/-- a volume with the entries of `l` freed, in this order -/
def freePuts (sb : FatSb) (vol : Vol) (l : List ℤ) : Vol := l.foldl (fun vol c => fatPut sb vol c FAT_ENT_FREE) vol

theorem freePuts_congr {vol vol' : Vol} (h : EqFat sb vol vol') (hl : ∀ x ∈ l, InRange sb x) :
    EqFat sb (freePuts sb vol l) (freePuts sb vol' l) := by
  induction l generalizing vol vol' with
  | nil => exact h
  | cons c l ih => exact ih (h.fatPut (hl c List.mem_cons_self) _) fun x hx => hl x (List.mem_cons_of_mem _ hx)

theorem fatVal_freePuts {vol : Vol} (hl : ∀ x ∈ l, InRange sb x) (hc : InRange sb c) :
    fatVal sb (freePuts sb vol l) c = if c ∈ l then FAT_ENT_FREE else fatVal sb vol c := by
  induction l generalizing vol with
  | nil => rfl
  | cons d l ih =>
    have hd := hl d List.mem_cons_self
    rw [freePuts, List.foldl_cons]
    refine (ih fun x hx => hl x (List.mem_cons_of_mem _ hx)).trans ?_
    rw [fatVal_fatPut hd Storable.free hc]
    by_cases hcl : c ∈ l
    · rw [if_pos hcl, if_pos (List.mem_cons_of_mem _ hcl)]
    · by_cases hcd : c = d
      · rw [if_neg hcl, if_pos hcd, if_pos (List.mem_cons.2 (Or.inl hcd))]
      · rw [if_neg hcl, if_neg hcd, if_neg (by simp [hcl, hcd])]

theorem fatTop_freePuts {vol : Vol} (hl : ∀ x ∈ l, InRange sb x) (hc : InRange sb c) :
    fatTop sb (freePuts sb vol l) c = fatTop sb vol c := by
  induction l generalizing vol with
  | nil => rfl
  | cons d l ih =>
    exact (ih fun x hx => hl x (List.mem_cons_of_mem _ hx)).trans
      (fatTop_fatPut (hl d List.mem_cons_self) Storable.free hc)

theorem table_freePuts {vol : Vol} (hl : ∀ x ∈ l, InRange sb x) :
    table sb (freePuts sb vol l) = freed (table sb vol) l := by
  induction l generalizing vol with
  | nil =>
    funext x
    simp [freePuts, freed]
  | cons d l ih =>
    rw [freePuts, List.foldl_cons]
    refine (ih fun x hx => hl x (List.mem_cons_of_mem _ hx)).trans ?_
    rw [table_fatPut (hl d List.mem_cons_self) Storable.free, toLink_readBack_free, freed_cons]

/-- the whole loop along a chain -/
theorem fatFreeLoop_path (henv : env.NoFault) (fuel : ℕ) : ∀ {a : ℤ} {l : List ℤ} {f : Free},
    Path (table sb f.s.vol) a l → l.length ≤ fuel → BhsInFat sb f.bhs →
    ∃ f', fatFreeLoop env sb fuel a f = (0, f') ∧ EqFat sb (freePuts sb f.s.vol l) f'.s.vol ∧
      BhsInFat sb f'.bhs ∧ f'.s.prevFree = f.s.prevFree := by
  induction fuel with
  | zero => exact fun p hlen _ => absurd (List.length_eq_zero_iff.1 (Nat.le_zero.1 hlen)) p.ne_nil
  | succ fuel ih =>
    intro a l f p hlen hbhs
    have hin := path_inRange p a p.head_mem
    have hlink : fatLink sb f.s.vol a ≠ FAT_ENT_FREE := fun h => p.not_free p.head_mem ((table_eq_free hin).2 h)
    obtain ⟨f1, hstep, hput, hbhs1, hpf1⟩ := fatFreeLoop_step henv fuel hin hlink hbhs
    rw [hstep]
    cases p with
    | last h =>
      rw [if_pos ((table_eq_last hin).1 h)]
      exact ⟨f1, rfl, hput, hbhs1, hpf1⟩
    | @next _ b l h p =>
      obtain ⟨hisLink, hsucc⟩ := fatSucc_isLink ((table_eq_next hin).1 h)
      rw [if_neg hisLink.2, hsucc]
      -- the rest of the chain does not come back to the entry that was freed
      have hnot : a ∉ l := (List.nodup_cons.1 (Path.next h p).nodup).1
      have p1 : Path (table sb f1.s.vol) b l := by
        rw [hput.table, table_fatPut hin Storable.free]
        refine p.congr fun x hx => Function.update_of_ne ?_ _ _
        rintro rfl
        exact hnot hx
      obtain ⟨f2, hloop, hput2, hbhs2, hpf2⟩ := ih p1 (Nat.le_of_succ_le_succ hlen) hbhs1
      exact ⟨f2, hloop, (freePuts_congr hput (path_inRange p)).trans hput2, hbhs2, hpf2.trans hpf1⟩

/-- **Freeing a chain**: without a failure, exactly its entries are freed. -/
theorem fatFreeClusters_path (henv : env.NoFault) {s : St} (p : Path (table sb s.vol) a l) :
    ∃ s', fatFreeClusters env sb s a = (0, s') ∧ EqFat sb (freePuts sb s.vol l) s'.vol ∧ s'.prevFree = s.prevFree := by
  obtain ⟨f, hloop, hput, hbhs, hpf⟩ := fatFreeLoop_path henv sb.maxCluster (f := ⟨fatentInit, [], a, s⟩) p
    (path_length_le p) (BhsInFat.nil sb)
  obtain ⟨s1, hwrite, hsame1⟩ := fatWriteBhs_ok henv f.s hbhs sb.synchronous
  have hsame := (hsame1.trans (FatEntry.brelse_spec sb f.fatent s1).2).trans (foldl_brelse_sameFat sb f.bhs _)
  refine ⟨f.bhs.foldl brelse (f.fatent.brelse s1).2, ?_, hput.trans hsame.vol, hsame.prevFree.trans hpf⟩
  unfold fatFreeClusters
  rw [hloop]
  simp only [ne_eq, not_true_eq_false, if_false, hwrite]

end

end AtsLdd.Fat
