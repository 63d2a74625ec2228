/-
Reading a directory when blocks can fail to be read, in two states that agree on what is read.

- `DirAt`: the size of a directory and the links that lead to its last cluster; the link behind that cluster does not matter;
- `fatGetEntry_alike`: `fat_get_entry` hands out a slot, the same one in both states, or nothing;
- `fatScan_alike`: a scan for a name ends in both states with the same result, on the same bytes;
- `searchFree_one`: the search for one free slot.
-/
import AtsLdd.Fat.Dentry
import AtsLdd.Fat.DirSlots

namespace AtsLdd.Fat

open AtsLdd.Machine AtsLdd.LinkTable

/-! ## Two states -/

/-- a slot is free as it was, or holds the same entry -/
def SlotKept (old new : Buf) : Prop := (IsFree new ↔ IsFree old) ∧ (¬ IsFree old → ∀ k < DENT_SIZE, new k = old k)

/-- the links of the clusters `l` of a directory, each to the next one -/
structure DirAt (sb : FatSb) (vol : Vol) (dir : Inode) (l : List ℤ) : Prop where
  head : dir.iStart = l.headD 0
  inRange : ∀ x ∈ l, InRange sb x
  link : ∀ k c d, l[k]? = some c → l[k + 1]? = some d → fatLink sb vol c = d
  size : dir.iSize = l.length * sb.clusterSize
  limit : l.length ≤ clusterLimit sb + 1

/-- two states at the same tick with the same live entries in the directory -/
structure Alike (sb : FatSb) (dir : Inode) (l : List ℤ) (s s' : St) : Prop where
  t : s'.t = s.t
  left : DirAt sb s.vol dir l
  right : DirAt sb s'.vol dir l
  slot : ∀ i < nrSlots sb l, SlotKept (slot sb l s.vol i) (slot sb l s'.vol i)

section
variable {env : Env} {sb : FatSb} {dir : Inode} {l : List ℤ} {s s' s1 s1' : St} {vol : Vol} {i q : ℕ}

theorem SlotKept.refl (old : Buf) : SlotKept old old := ⟨Iff.rfl, fun _ _ _ => rfl⟩

theorem DirOn.dirAt (h : DirOn sb vol dir l) : DirAt sb vol dir l where
  head := by
    rcases h.chain with ⟨hzero, rfl⟩ | p
    · exact hzero
    · have hhead : l[0]? = some dir.iStart := (nth_path p 0).symm
      rw [List.headD_eq_head?_getD, List.head?_eq_getElem?, hhead]
      rfl
  inRange := h.chain.inRange
  link := by
    intro k c d hc hd
    rcases h.chain with ⟨-, rfl⟩ | p
    · exact absurd hc (by simp)
    · exact (fatLink_path p hc hd).1
  size := h.size
  limit := h.limit

/-- only the links before the last cluster are asked for -/
theorem DirAt.congr {vol' : Vol} (h : DirAt sb vol dir l) (hlink : ∀ c ∈ l.dropLast, fatLink sb vol' c = fatLink sb vol c) :
    DirAt sb vol' dir l where
  head := h.head
  inRange := h.inRange
  link := by
    intro k c d hc hd
    obtain ⟨hk, -⟩ := List.getElem?_eq_some_iff.1 hd
    have hdrop : l.dropLast[k]? = some c := by
      rw [List.getElem?_dropLast, if_pos (by omega)]
      exact hc
    rw [hlink c (List.mem_of_getElem? hdrop)]
    exact h.link k c d hc hd
  size := h.size
  limit := h.limit

theorem DirAt.dirBlocks (h : DirAt sb vol dir l) : dirBlocks sb dir = nrBlocks sb l := dirBlocks_of_clusters h.size

theorem Alike.refl (h : DirAt sb s.vol dir l) : Alike sb dir l s s := ⟨rfl, h, h, fun _ _ => SlotKept.refl _⟩

theorem Alike.of_looked (h : Alike sb dir l s s') (hs : Looked s s1) (hs' : Looked s' s1') (ht : s1'.t = s1.t) :
    Alike sb dir l s1 s1' := by
  refine ⟨ht, ?_, ?_, ?_⟩
  · rw [hs.vol]
    exact h.left
  · rw [hs'.vol]
    exact h.right
  · rw [hs.vol, hs'.vol]
    exact h.slot

/-! ## The next slot -/

/-- the walk along the chain, or a link that cannot be read -/
theorem fatGetClusterLoop_alike (env : Env) (n : ℕ) : ∀ {fuel k : ℕ} {s s' : St} {c d : ℤ}, Alike sb dir l s s' → n < fuel → l[k]? = some c →
    l[k + n]? = some d → ∃ s1 s1' ret m e, Quiet s s1 ∧ Quiet s' s1' ∧ s1'.t = s1.t ∧ s.t ≤ s1.t ∧
      fatGetClusterLoop env sb ((k + n : ℕ) : ℤ) fuel s k c = ⟨ret, m, e, s1⟩ ∧
      fatGetClusterLoop env sb ((k + n : ℕ) : ℤ) fuel s' k c = ⟨ret, m, e, s1'⟩ ∧ (ret = - EIO ∨ ret = 0 ∧ e = d) := by
  induction n with
  | zero =>
    intro fuel k s s' c d h hfuel hc hd
    obtain ⟨fuel, rfl⟩ := Nat.exists_eq_add_of_lt hfuel
    rw [Nat.add_zero, hc] at hd
    rw [Nat.zero_add, fatGetClusterLoop, fatGetClusterLoop, if_pos (Int.ofNat_le.2 (Nat.add_zero k).le),
      if_pos (Int.ofNat_le.2 (Nat.add_zero k).le)]
    exact ⟨s, s', 0, k, c, Quiet.refl s, Quiet.refl s', h.t, le_rfl, rfl, rfl, Or.inr ⟨rfl, Option.some.inj hd⟩⟩
  | succ n ih =>
    intro fuel k s s' c d h hfuel hc hd
    obtain ⟨fuel, rfl⟩ := Nat.exists_eq_add_of_lt (Nat.zero_lt_of_lt hfuel)
    have hlen : k + (n + 1) < l.length := (List.getElem?_eq_some_iff.1 hd).1
    have hlimit := h.left.limit
    obtain ⟨e, he⟩ : ∃ e, l[k + 1]? = some e := ⟨_, List.getElem?_eq_getElem (show k + 1 < l.length by omega)⟩
    have hin := h.left.inRange e (List.mem_of_getElem? he)
    rw [Nat.zero_add, fatGetClusterLoop, fatGetClusterLoop, if_neg (by omega), if_neg (by omega), if_neg (by omega),
      if_neg (by omega)]
    obtain ⟨s1, hq, ht, hor⟩ := fatentNextSb_spec env sb s c
    obtain ⟨s1', hq', ht', hor'⟩ := fatentNextSb_spec env sb s' c
    have htt : s1'.t = s1.t := by rw [ht, ht', h.t]
    have hstep : s.t ≤ s1.t := ht ▸ Nat.le_succ s.t
    rw [h.t] at hor'
    rcases hor with ⟨heq, hread, -⟩ | ⟨heq, hread, -⟩ <;> rcases hor' with ⟨heq', hread', -⟩ | ⟨heq', hread', -⟩
    · rw [heq, heq', h.left.link k c e hc he, h.right.link k c e hc he]
      simp only [if_neg (show ¬ e = FAT_ENT_FREE from hin.pos.ne'), if_neg hin.ne_eof]
      have hnext : l[k + 1 + n]? = some d := by
        rw [← hd]
        congr 1
        omega
      obtain ⟨s2, s2', ret, m, x, h2, h2', ht2, hle, hret, hret', hor⟩ :=
        ih (h.of_looked hq.looked hq'.looked htt) (show n < fuel by omega) he hnext
      rw [show k + (n + 1) = k + 1 + n by omega]
      exact ⟨s2, s2', ret, m, x, hq.trans h2, hq'.trans h2', ht2, hstep.trans hle, hret, hret', hor⟩
    · exact absurd (hread.symm.trans hread') (by decide)
    · exact absurd (hread.symm.trans hread') (by decide)
    · rw [heq, heq']
      exact ⟨s1, s1', - EIO, k, c, hq, hq', htt, hstep, rfl, rfl, Or.inl rfl⟩

/-- **A block of a directory** is found where the links lead, or not at all. -/
theorem fatBmap_alike (env : Env) (h : Alike sb dir l s s') (q : ℕ) :
    ∃ s1 s1' ret phys n, Quiet s s1 ∧ Quiet s' s1' ∧ s1'.t = s1.t ∧ s.t ≤ s1.t ∧
      fatBmap env sb s dir q = ⟨ret, phys, n, s1⟩ ∧ fatBmap env sb s' dir q = ⟨ret, phys, n, s1'⟩ ∧
      (ret ≠ 0 ∨ phys = 0 ∨ q < nrBlocks sb l ∧ phys = dirBlock sb l q) := by
  have hblocks := h.left.dirBlocks
  unfold Fat.dirBlocks at hblocks
  unfold fatBmap
  simp only [hblocks]
  by_cases hlast : q ≥ nrBlocks sb l
  · simp only [if_pos hlast]
    exact ⟨s, s', 0, 0, 0, Quiet.refl s, Quiet.refl s', h.t, le_rfl, rfl, rfl, Or.inr (Or.inl rfl)⟩
  simp only [if_neg hlast]
  have hq := not_le.1 hlast
  obtain ⟨c, hc, hblk⟩ := dirBlock_cluster hq
  obtain ⟨hlt, -⟩ := List.getElem?_eq_some_iff.1 hc
  have hin := h.left.inRange c (List.mem_of_getElem? hc)
  have hhead : l[0]? = some dir.iStart := by
    rw [h.left.head, List.headD_eq_head?_getD, List.head?_eq_getElem?]
    rw [List.getElem?_eq_getElem (Nat.zero_lt_of_lt hlt)]
    rfl
  have hstart : dir.iStart ≠ 0 := (h.left.inRange _ (List.mem_of_getElem? hhead)).pos.ne'
  have hspan : 2 ^ (sb.clusterBits - sb.blocksizeBits) = sb.secPerClus := by
    unfold FatSb.clusterBits FatSb.secPerClus
    rw [Nat.add_sub_cancel_left]
  have hidx : int32 ((q / sb.secPerClus : ℕ) : ℤ) = (q / sb.secPerClus : ℕ) := by
    have hle := h.left.limit
    have hlim := clusterLimit_lt_eof sb
    unfold FAT_ENT_EOF at hlim
    generalize q / sb.secPerClus = k at hlt ⊢
    exact int32_of_bounds (by omega) (by omega)
  have hfuel : q / sb.secPerClus < clusterLimit sb + 2 := hlt.trans_le (h.left.limit.trans (Nat.le_succ _))
  have hget : l[0 + q / sb.secPerClus]? = some c := by
    rw [Nat.zero_add]
    exact hc
  obtain ⟨s1, s1', ret, m, e, h1, h1', ht, hle, hret, hret', hor⟩ := fatGetClusterLoop_alike env _ h hfuel hhead hget
  rw [Nat.zero_add] at hret hret'
  unfold fatBmapCluster
  simp only [hspan, hidx, if_neg hstart, hret, hret']
  rcases hor with rfl | ⟨rfl, rfl⟩
  · simp only [if_pos (show (- EIO : ℤ) < 0 by decide)]
    exact ⟨s1, s1', _, _, _, h1, h1', ht, hle, rfl, rfl, Or.inr (Or.inl rfl)⟩
  · simp only [lt_irrefl, if_false, if_neg (show ¬ (0 : ℤ) = FAT_ENT_EOF by decide), if_neg (not_lt.2 hin.pos.le),
      if_pos (show e ≠ 0 from hin.pos.ne')]
    exact ⟨s1, s1', _, _, _, h1, h1', ht, hle, rfl, rfl, Or.inr (Or.inr ⟨hq, hblk.symm⟩)⟩

theorem sbBread_alike (env : Env) (ht : s'.t = s.t) (b : ℕ) : ∃ s1 s1' ok, Looked s s1 ∧ Looked s' s1' ∧ s1'.t = s1.t ∧
    sbBread env s b = (ok, s1) ∧ sbBread env s' b = (ok, s1') := by
  have hlook := sbBread_looked env s b
  have hlook' := sbBread_looked env s' b
  cases hread : env.bread s.t b with
  | true =>
    rw [sbBread_ok hread] at hlook ⊢
    rw [sbBread_ok (ht ▸ hread)] at hlook' ⊢
    exact ⟨_, _, true, hlook, hlook', congrArg (· + 1) ht, rfl, rfl⟩
  | false =>
    rw [sbBread_fail hread] at hlook ⊢
    rw [sbBread_fail (ht ▸ hread)] at hlook' ⊢
    exact ⟨_, _, false, hlook, hlook', congrArg (· + 1) ht, rfl, rfl⟩

theorem fatGetEntrySlow_alike (env : Env) (fuel : ℕ) : ∀ {i : ℕ} {s s' : St} {cur : DirCursor}, Alike sb dir l s s' →
    CursorAt sb l i cur → ∃ s1 s1' ok cur1, Looked s s1 ∧ Looked s' s1' ∧ s1'.t = s1.t ∧
      fatGetEntrySlow env sb dir fuel s cur = (ok, cur1, s1) ∧ fatGetEntrySlow env sb dir fuel s' cur = (ok, cur1, s1') ∧
      (ok = true → ∃ j < nrSlots sb l, cur1 = slotCursor sb l j) := by
  induction fuel with
  | zero =>
    intro i s s' cur h _
    exact ⟨s, s', false, cur, Looked.refl s, Looked.refl s', h.t, rfl, rfl, fun h => absurd h (by simp)⟩
  | succ fuel ih =>
    intro i s s' cur h hcur
    have hrel := cur.release_looked s
    have hrel' := cur.release_looked s'
    have ht : (cur.release s').t = (cur.release s).t := by
      unfold DirCursor.release
      cases cur.bh with
      | none => exact h.t
      | some b => exact h.t
    rw [fatGetEntrySlow_succ, fatGetEntrySlow_succ]
    have h0 := h.of_looked hrel hrel' ht
    generalize cur.release s = s0 at hrel h0 ⊢
    generalize cur.release s' = s0' at hrel' h0 ⊢
    obtain ⟨hdiv, hmod⟩ := slot_pos sb i
    rw [hcur.pos, hdiv, hmod]
    obtain ⟨s1, s1', ret, phys, n, hq, hq', ht1, -, hbmap, hbmap', hor⟩ := fatBmap_alike env h0 (i / sb.dirPerBlock)
    simp only [hbmap, hbmap']
    have hlook := hrel.trans hq.looked
    have hlook' := hrel'.trans hq'.looked
    by_cases hend : ret ≠ 0 ∨ phys = 0
    · simp only [if_pos hend]
      exact ⟨s1, s1', false, _, hlook, hlook', ht1, rfl, rfl, fun h => absurd h (by simp)⟩
    simp only [if_neg hend]
    obtain ⟨hblock, rfl⟩ : i / sb.dirPerBlock < nrBlocks sb l ∧ phys = dirBlock sb l (i / sb.dirPerBlock) := by
      rcases hor with hret | hphys | hor
      · exact absurd (Or.inl hret) hend
      · exact absurd (Or.inr hphys) hend
      · exact hor
    obtain ⟨s2, s2', ok, h2, h2', ht2, hread, hread'⟩ := sbBread_alike env ht1 (dirBlock sb l (i / sb.dirPerBlock))
    rw [hread, hread']
    cases ok with
    | true =>
      have hi : i < nrSlots sb l := (Nat.div_lt_iff_lt_mul (dirPerBlock_pos sb)).1 hblock
      exact ⟨s2, s2', true, slotCursor sb l i, hlook.trans h2, hlook'.trans h2', ht2, rfl, rfl, fun _ => ⟨i, hi, rfl⟩⟩
    | false =>
      obtain ⟨s3, s3', ok, cur3, h3, h3', ht3, hres, hres', hslot⟩ :=
        ih (h.of_looked (hlook.trans h2) (hlook'.trans h2') ht2) (cursorAt_skip sb l i cur.de)
      exact ⟨s3, s3', ok, cur3, (hlook.trans h2).trans h3, (hlook'.trans h2').trans h3', ht3, hres, hres', hslot⟩

/-- **`fat_get_entry` hands out a slot**, or nothing. -/
theorem fatGetEntry_alike (env : Env) (h : Alike sb dir l s s') {cur : DirCursor} (hcur : CursorAt sb l i cur) :
    ∃ s1 s1' ok cur1, Looked s s1 ∧ Looked s' s1' ∧ s1'.t = s1.t ∧ fatGetEntry env sb s dir cur = (ok, cur1, s1) ∧
      fatGetEntry env sb s' dir cur = (ok, cur1, s1') ∧ (ok = true → ∃ j < nrSlots sb l, cur1 = slotCursor sb l j) := by
  have hslow := fatGetEntrySlow_alike env (dirBlocks sb dir + 1) h hcur
  rcases cur with ⟨pos, _ | b, _ | off⟩
  · exact hslow
  · exact hslow
  · exact hslow
  unfold fatGetEntry
  simp only
  by_cases hfast : off / DENT_SIZE + 1 < sb.dirPerBlock
  · obtain ⟨j, rfl, hj, rfl, rfl⟩ := hcur.entry _ _ rfl rfl
    have hpos := hcur.pos
    simp only at hpos
    simp only [if_pos hfast]
    refine ⟨s, s', true, _, Looked.refl s, Looked.refl s', h.t, rfl, rfl, fun _ => ⟨j + 1, ?_, ?_⟩⟩
    · rw [nrSlots, ← Nat.div_lt_iff_lt_mul (dirPerBlock_pos sb), (next_slot hfast).2]
      exact slot_block hj
    · rw [hpos, next_slotCursor l hfast]
  · simp only [if_neg hfast]
    exact hslow

/-! ## Scans -/

/-- a live entry is the same in both states -/
theorem Alike.ent (h : Alike sb dir l s s') (hi : i < nrSlots sb l) : (IsFree ((slotCursor sb l i).ent s') ↔
    IsFree ((slotCursor sb l i).ent s)) ∧ (¬ IsFree ((slotCursor sb l i).ent s) →
      ∀ k < DENT_SIZE, (slotCursor sb l i).ent s' k = (slotCursor sb l i).ent s k) :=
  h.slot i hi

/-- **The next entry with a short name** is the same in both states. -/
theorem fatGetShortEntry_alike (env : Env) (fuel : ℕ) : ∀ {i : ℕ} {s s' : St} {cur : DirCursor}, Alike sb dir l s s' →
    CursorAt sb l i cur → ∃ s1 s1' ok cur1, Looked s s1 ∧ Looked s' s1' ∧ s1'.t = s1.t ∧
      fatGetShortEntry env sb dir fuel s cur = (ok, cur1, s1) ∧ fatGetShortEntry env sb dir fuel s' cur = (ok, cur1, s1') ∧
      (ok = true → ∃ j < nrSlots sb l, cur1 = slotCursor sb l j ∧ ¬ IsFree (cur1.ent s1)) := by
  induction fuel with
  | zero =>
    intro i s s' cur h _
    exact ⟨s, s', false, cur, Looked.refl s, Looked.refl s', h.t, rfl, rfl, fun h => absurd h (by simp)⟩
  | succ fuel ih =>
    intro i s s' cur h hcur
    obtain ⟨s1, s1', ok, cur1, h1, h1', ht, hget, hget', hslot⟩ := fatGetEntry_alike env h hcur
    rw [fatGetShortEntry, fatGetShortEntry, hget, hget']
    cases ok with
    | false => exact ⟨s1, s1', false, cur1, h1, h1', ht, rfl, rfl, fun h => absurd h (by simp)⟩
    | true =>
      obtain ⟨j, hj, rfl⟩ := hslot rfl
      have hnext := h.of_looked h1 h1' ht
      obtain ⟨hfree, hbytes⟩ := hnext.ent hj
      -- a live entry has the same attributes
      have hkind : (¬ IsFree ((slotCursor sb l j).ent s1') ∧ entAttr ((slotCursor sb l j).ent s1') &&& ATTR_VOLUME = 0) ↔
          ¬ IsFree ((slotCursor sb l j).ent s1) ∧ entAttr ((slotCursor sb l j).ent s1) &&& ATTR_VOLUME = 0 := by
        rw [hfree]
        apply and_congr_right
        intro hlive
        unfold entAttr
        rw [hbytes hlive 11 (by decide)]
      simp only [hkind]
      by_cases hentry : ¬ IsFree ((slotCursor sb l j).ent s1) ∧ entAttr ((slotCursor sb l j).ent s1) &&& ATTR_VOLUME = 0
      · simp only [if_pos hentry]
        exact ⟨s1, s1', true, slotCursor sb l j, h1, h1', ht, rfl, rfl, fun _ => ⟨j, hj, rfl, hentry.1⟩⟩
      · simp only [if_neg hentry]
        obtain ⟨s2, s2', ok, cur2, h2, h2', ht2, hres, hres', hshort⟩ := ih hnext (cursorAt_slot hj)
        exact ⟨s2, s2', ok, cur2, h1.trans h2, h1'.trans h2', ht2, hres, hres', hshort⟩

/-- the results of a scan in two states: the same, on the same bytes -/
structure SameScan (s s' : St) (r r' : ℤ × SlotInfo × St) : Prop where
  err : r'.1 = r.1
  sinfo : r'.2.1 = r.2.1
  ent : r.1 = 0 → ∀ k < DENT_SIZE, r'.2.1.ent r'.2.2 k = r.2.1.ent r.2.2 k
  looked : Looked s r.2.2
  looked' : Looked s' r'.2.2

theorem fatScanLoop_alike (env : Env) (name : List UInt8) (entries fuel : ℕ) : ∀ {i : ℕ} {s s' : St} {cur : DirCursor},
    Alike sb dir l s s' → CursorAt sb l i cur → SameScan s s' (fatScanLoop env sb dir name entries fuel s cur)
      (fatScanLoop env sb dir name entries fuel s' cur) := by
  have hnoent : ¬ (- ENOENT : ℤ) = 0 := by decide
  induction fuel with
  | zero => exact fun _ _ => ⟨rfl, rfl, fun h => absurd h hnoent, Looked.refl _, Looked.refl _⟩
  | succ fuel ih =>
    intro i s s' cur h hcur
    obtain ⟨s1, s1', ok, cur1, h1, h1', ht, hget, hget', hshort⟩ := fatGetShortEntry_alike env entries h hcur
    rw [fatScanLoop, fatScanLoop, hget, hget']
    cases ok with
    | false => exact ⟨rfl, rfl, fun h => absurd h hnoent, h1, h1'⟩
    | true =>
      obtain ⟨j, hj, rfl, hlive⟩ := hshort rfl
      have hnext := h.of_looked h1 h1' ht
      have hbytes := (hnext.ent hj).2 hlive
      have hname : entName ((slotCursor sb l j).ent s1') = entName ((slotCursor sb l j).ent s1) := by
        unfold entName
        refine List.map_congr_left fun k hk => hbytes k ?_
        exact (List.mem_range.1 hk).trans_le (by decide)
      simp only [hname]
      by_cases hfound : strncmpEq (entName ((slotCursor sb l j).ent s1)) name
      · simp only [if_pos hfound]
        exact ⟨rfl, rfl, fun _ => hbytes, h1, h1'⟩
      · simp only [if_neg hfound]
        obtain ⟨herr, hsinfo, hent, h2, h2'⟩ := ih hnext (cursorAt_slot hj)
        exact ⟨herr, hsinfo, hent, h1.trans h2, h1'.trans h2'⟩

/-- **A scan** ends alike in two states with the same live entries. -/
theorem fatScan_alike (env : Env) (h : Alike sb dir l s s') (name : List UInt8) :
    SameScan s s' (fatScan env sb s dir name) (fatScan env sb s' dir name) :=
  fatScanLoop_alike env name _ _ h (cursorAt_start sb l 0 none)

/-! ## The search for one free slot -/

/-- how the search ends: with one free slot and its buffer, or with none in hand -/
inductive OneFree (sb : FatSb) (l : List ℤ) (s : St) : SearchEnd × FreeSearch → Prop
  | found {i : ℕ} {f : FreeSearch} (hi : i < nrSlots sb l) (hfree : IsFree (slot sb l s.vol i)) (hlook : Looked s f.s)
      (hcur : f.cur = slotCursor sb l i) (hbhs : f.bhs = [slotBlock sb l i]) (hcount : f.freeSlots = 1) : OneFree sb l s (.found, f)
  | full {f : FreeSearch} (hlook : Looked s f.s) : OneFree sb l s (.full, f)
  | ended {f : FreeSearch} (hlook : Looked s f.s) (hcount : f.freeSlots = 0) : OneFree sb l s (.ended, f)

theorem searchLoop_one (env : Env) (fuel : ℕ) : ∀ {i : ℕ} {f : FreeSearch}, DirAt sb s.vol dir l → Looked s f.s →
    CursorAt sb l i f.cur → f.prev = none → f.bhs = [] → f.freeSlots = 0 → OneFree sb l s (searchLoop env sb dir 1 fuel f) := by
  induction fuel with
  | zero => exact fun _ hlook _ _ _ hcount => .ended hlook hcount
  | succ fuel ih =>
    intro i f hdir hlook hcur hprev hbhs hcount
    have hdir' : DirAt sb f.s.vol dir l := by rwa [hlook.vol]
    obtain ⟨s1, -, ok, cur1, h1, -, -, hget, -, hslot⟩ := fatGetEntry_alike env (Alike.refl hdir') hcur
    have h1 := hlook.trans h1
    rw [searchLoop, hget]
    cases ok with
    | false => exact .ended h1 hcount
    | true =>
      obtain ⟨j, hj, rfl⟩ := hslot rfl
      simp only
      by_cases hfull : FAT_MAX_DIR_SIZE ≤ (slotCursor sb l j).pos
      · rw [if_pos hfull]
        exact .full h1
      rw [if_neg hfull, slotCursor_ent, h1.vol]
      by_cases hfree : IsFree (slot sb l s.vol j)
      · rw [if_pos hfree, if_pos (by rw [hcount])]
        unfold FreeSearch.free slotCursor
        simp only [hprev, if_neg (show ¬ (none : Option ℕ) = some (slotBlock sb l j) by simp)]
        exact .found hj hfree (h1.trans rfl) rfl (by rw [hbhs]; rfl) (by rw [hcount])
      · rw [if_neg hfree]
        refine ih hdir (h1.trans (foldl_brelse_looked f.bhs s1)) (cursorAt_slot hj) rfl rfl rfl

/-- **The search for one free slot**, whatever can be read. -/
theorem searchFree_one (env : Env) (h : DirAt sb s.vol dir l) : OneFree sb l s (searchFree env sb s dir 1) :=
  searchLoop_one env _ h (Looked.refl s) (cursorAt_start sb l 0 none) rfl rfl rfl

/-- an entry that is asked for by its position, when its block can be read -/
theorem fatGetEntry_at (h : DirAt sb s.vol dir l) (hread : ∀ t, s.t ≤ t → env.bread t (slotBlock sb l i) = true) :
    ∃ s1 ok cur, Looked s s1 ∧ fatGetEntry env sb s dir ⟨DENT_SIZE * i, none, none⟩ = (ok, cur, s1) ∧
      (ok = true → cur = slotCursor sb l i) := by
  obtain ⟨hdiv, hmod⟩ := slot_pos sb i
  obtain ⟨s1, -, ret, phys, n, hq, -, -, hle, hbmap, -, hor⟩ := fatBmap_alike env (Alike.refl h) (i / sb.dirPerBlock)
  change ∃ s1 ok cur, Looked s s1 ∧
    fatGetEntrySlow env sb dir (dirBlocks sb dir + 1) s ⟨DENT_SIZE * i, none, none⟩ = (ok, cur, s1) ∧ _
  rw [fatGetEntrySlow_succ]
  simp only [DirCursor.release, hdiv, hmod, hbmap]
  by_cases hend : ret ≠ 0 ∨ phys = 0
  · rw [if_pos hend]
    exact ⟨s1, false, _, hq.looked, rfl, fun h => absurd h (by simp)⟩
  rw [if_neg hend]
  obtain ⟨-, rfl⟩ : i / sb.dirPerBlock < nrBlocks sb l ∧ phys = dirBlock sb l (i / sb.dirPerBlock) := by
    rcases hor with hret | hphys | hor
    · exact absurd (Or.inl hret) hend
    · exact absurd (Or.inr hphys) hend
    · exact hor
  have hlook := sbBread_looked env s1 (slotBlock sb l i)
  rw [show dirBlock sb l (i / sb.dirPerBlock) = slotBlock sb l i from rfl, sbBread_ok (hread _ hle)]
  rw [sbBread_ok (hread _ hle)] at hlook
  exact ⟨_, true, slotCursor sb l i, hq.looked.trans hlook, rfl, fun _ => rfl⟩

end

end AtsLdd.Fat
