/-
The counter of free clusters.

`free_clusters` is counted down for every entry that an allocation takes and up for every entry that is freed, in calls
that may fail at any point.

- `freeCount_fatPut`: how a store changes the number of free entries;
- `takeFree_exact`, `putFree_exact`: one entry taken and one entry freed, without a wrap;
- `fatFreeClusters_exact`, `fatAllocClusters_exact`: one call, whatever chain it meets and whatever fails in it;
- `free_clusters_exact`: every run in which no write of a block of the first FAT fails;
- `free_clusters_not_exact`: after such a write the buffer is read again from the device, where the taken entry is free.
-/
import AtsLdd.Fat.Allocation

namespace AtsLdd.Fat

open AtsLdd.Machine AtsLdd.Run

/-! ## Counting -/

section
variable {sb : FatSb} {vol vol' : Vol} {c : ℤ}

theorem EqFat.freeCount (h : EqFat sb vol vol') : freeCount sb vol' = freeCount sb vol := by
  unfold Fat.freeCount
  congr 1
  apply Finset.filter_congr
  intro x hx
  rw [h.val (Finset.mem_Ico.1 hx)]

/-- **A store and the number of free entries.** -/
theorem freeCount_fatPut (vol : Vol) (hc : InRange sb c) {new : ℤ} (h : Storable new) :
    freeCount sb (fatPut sb vol c new) + (if fatVal sb vol c = FAT_ENT_FREE then 1 else 0) =
      freeCount sb vol + (if new = FAT_ENT_FREE then 1 else 0) := by
  have hmem : c ∈ Finset.Ico FAT_START_ENT (sb.maxCluster : ℤ) := Finset.mem_Ico.2 hc
  unfold freeCount
  rw [Finset.card_filter, Finset.card_filter, ← Finset.add_sum_erase _ _ hmem, ← Finset.add_sum_erase _ _ hmem]
  have hrest : ∀ x ∈ (Finset.Ico FAT_START_ENT (sb.maxCluster : ℤ)).erase c,
      (if fatVal sb (fatPut sb vol c new) x = FAT_ENT_FREE then 1 else 0) =
        if fatVal sb vol x = FAT_ENT_FREE then 1 else 0 := by
    intro x hx
    obtain ⟨hxc, hx⟩ := Finset.mem_erase.1 hx
    rw [fatVal_fatPut hc h (Finset.mem_Ico.1 hx), if_neg hxc]
  rw [Finset.sum_congr rfl hrest, fatVal_fatPut hc h hc, if_pos rfl]
  ring

theorem freeCount_le (sb : FatSb) (vol : Vol) : freeCount sb vol ≤ sb.maxCluster - 2 := by
  apply (Finset.card_filter_le _ _).trans
  rw [Int.card_Ico]
  unfold FAT_START_ENT
  omega

theorem freeCount_eq_zero (h : ∀ x, InRange sb x → fatVal sb vol x ≠ FAT_ENT_FREE) : freeCount sb vol = 0 := by
  unfold freeCount
  rw [Finset.card_eq_zero, Finset.filter_eq_empty_iff]
  intro x hx
  exact h x (Finset.mem_Ico.1 hx)

theorem freeCount_of_free (h : ∀ x, InRange sb x → fatVal sb vol x = FAT_ENT_FREE) :
    freeCount sb vol = sb.maxCluster - 2 := by
  unfold freeCount
  rw [Finset.filter_true_of_mem fun x hx => h x (Finset.mem_Ico.1 hx), Int.card_Ico]
  unfold FAT_START_ENT
  omega

end

/-- the counter is the number of free entries -/
def Exact (sb : FatSb) (s : St) : Prop := s.freeClusters = freeCount sb s.vol

section
variable {env : Env} {sb : FatSb} {s s' : St} {c : ℤ}

theorem SameFat.exact (h : SameFat sb s s') (hs : Exact sb s) : Exact sb s' := by
  unfold Exact
  rw [h.freeClusters, EqFat.freeCount h.vol]
  exact hs

/-- an exact counter is a small number, far from a wrap -/
theorem Exact.le (h : Exact sb s) : s.freeClusters ≤ sb.maxCluster - 2 := h ▸ freeCount_le sb s.vol

theorem Exact.known (h : Exact sb s) : s.freeClusters ≠ FREE_UNKNOWN := by
  have hle := h.le
  have hmax := sb.maxCluster_max
  unfold MAX_FAT32 at hmax
  unfold FREE_UNKNOWN
  omega

/-! ## Freeing -/

/-- **One entry freed**: the counter goes up, without a wrap. -/
theorem putFree_exact {f : Free} (hat : f.fatent.At sb c) (hc : InRange sb c)
    (hval : fatVal sb f.s.vol c ≠ FAT_ENT_FREE) (h : Exact sb f.s) :
    Exact sb (putFree f).s ∧ (putFree f).s.freeClusters = f.s.freeClusters + 1 := by
  have hle := h.le
  have hmax := sb.maxCluster_max
  unfold MAX_FAT32 at hmax
  have hcount := freeCount_fatPut f.s.vol hc Storable.free
  rw [if_neg hval, if_pos rfl] at hcount
  have hfree : (putFree f).s.freeClusters = f.s.freeClusters + 1 := by
    unfold putFree
    simp only [hat.put, ne_eq, h.known, not_false_iff, if_true]
    omega
  refine ⟨?_, hfree⟩
  unfold Exact at h ⊢
  rw [hfree, (putFree_spec hat).2.2.1, h]
  exact hcount.symm

/-- flushing, whatever fails elsewhere -/
theorem flushBhs_fatWrites (henv : env.FatWrites sb) {f : Free} (hbhs : BhsInFat sb f.bhs) :
    SameFat sb f.s (flushBhs env sb f).2.s ∧ (flushBhs env sb f).2.fatent = f.fatent ∧
      BhsInFat sb (flushBhs env sb f).2.bhs := by
  unfold flushBhs
  by_cases hfull : MAX_BUF_PER_PAGE < f.bhs.length + f.fatent.bh.toList.length
  · rw [if_pos hfull]
    have hsame := fatWriteBhs_fatWrites henv f.s hbhs sb.synchronous
    generalize fatWriteBhs env sb f.s f.bhs sb.synchronous = r at hsame ⊢
    by_cases hr : r.1 ≠ 0
    · simp only [if_pos hr]
      exact ⟨hsame, trivial, hbhs⟩
    · simp only [if_neg hr]
      exact ⟨hsame.trans (foldl_brelse_sameFat sb _ r.2), trivial, BhsInFat.nil sb⟩
  · rw [if_neg hfull]
    exact ⟨SameFat.refl sb f.s, rfl, hbhs⟩

/-- what a release of clusters keeps -/
structure FreeInv (sb : FatSb) (s : St) (f : Free) : Prop where
  exact : Exact sb s → Exact sb f.s
  bhs : BhsInFat sb f.bhs
  prevFree : f.s.prevFree = s.prevFree
  valid : f.s.freeClusValid = s.freeClusValid

/-- the loop, along whatever chain it meets -/
theorem fatFreeLoop_inv (henv : env.FatWrites sb) {s : St} (fuel : ℕ) : ∀ {c : ℤ} {f : Free}, FreeInv sb s f →
    FreeInv sb s (fatFreeLoop env sb fuel c f).2 := by
  induction fuel with
  | zero => exact fun h => h
  | succ fuel ih =>
    intro c f h
    obtain ⟨v, e, s1, hread, hsame1, hv⟩ := fatEntRead_any env sb f.s f.fatent c
    simp only [fatFreeLoop, hread]
    set f1 : Free := { f with fatent := e, s := s1 } with hf1
    have h1 : FreeInv sb s f1 := ⟨fun h0 => hsame1.exact (h.exact h0), h.bhs, hsame1.prevFree.trans h.prevFree,
      hsame1.freeClusValid.trans h.valid⟩
    by_cases hneg : v < 0
    · rw [if_pos hneg]
      exact h1
    by_cases hfree : v = FAT_ENT_FREE
    · rw [if_neg hneg, if_pos hfree]
      exact h1
    rw [if_neg hneg, if_neg hfree]
    have hgood : InRange sb c ∧ v = fatLink sb f.s.vol c ∧ e.At sb c := by
      rcases hv with hv | hv
      · rw [hv] at hneg
        exact absurd (show (- EIO : ℤ) < 0 by decide) hneg
      · exact hv
    obtain ⟨hc, hlink, hat⟩ := hgood
    have hval : fatVal sb s1.vol c ≠ FAT_ENT_FREE := by
      intro h0
      rw [hlink, ← hsame1.link hc] at hfree
      exact hfree (fatLink_eq_free.2 h0)
    obtain ⟨hd1, hd2, hd3, hd4⟩ := issueDiscard_spec sb f1 v
    have hdc : (issueDiscard sb f1 v).s.freeClusters = f1.s.freeClusters ∧
        (issueDiscard sb f1 v).s.freeClusValid = f1.s.freeClusValid := by
      unfold issueDiscard
      split
      · exact ⟨rfl, rfl⟩
      · exact ⟨rfl, rfl⟩
    have hexact1 : Exact sb s → Exact sb (issueDiscard sb f1 v).s := by
      intro h0
      unfold Exact
      rw [hd3, hdc.1]
      exact h1.exact h0
    have hat : (issueDiscard sb f1 v).fatent.At sb c := hd1 ▸ hat
    have hval : fatVal sb (issueDiscard sb f1 v).s.vol c ≠ FAT_ENT_FREE := by
      rw [hd3]
      exact hval
    have hpf1 : (issueDiscard sb f1 v).s.prevFree = s.prevFree := hd4.trans h1.prevFree
    have hv1 : (issueDiscard sb f1 v).s.freeClusValid = s.freeClusValid := hdc.2.trans h1.valid
    have hbhs1 : BhsInFat sb (issueDiscard sb f1 v).bhs := hd2 ▸ h1.bhs
    generalize issueDiscard sb f1 v = f2 at hat hval hexact1 hpf1 hv1 hbhs1 ⊢
    obtain ⟨hp1, hp2, -, hp4⟩ := putFree_spec hat
    have hexact2 : Exact sb s → Exact sb (putFree f2).s := fun h0 => (putFree_exact hat hc hval (hexact1 h0)).1
    have hv2 : (putFree f2).s.freeClusValid = s.freeClusValid := by
      unfold putFree
      simp only [hat.put]
      exact hv1
    have hbhs2 : BhsInFat sb (putFree f2).bhs := by
      rw [hp2]
      exact hbhs1
    obtain ⟨hsame3, hent3, hbhs3⟩ := flushBhs_fatWrites henv hbhs2
    generalize flushBhs env sb (putFree f2) = r at hsame3 hent3 hbhs3 ⊢
    have h3 : FreeInv sb s r.2 := ⟨fun h0 => hsame3.exact (hexact2 h0), hbhs3, by rw [hsame3.prevFree, hp4, hpf1],
      hsame3.freeClusValid.trans hv2⟩
    by_cases herr : r.1 ≠ 0
    · simp only [if_pos herr]
      exact h3
    simp only [if_neg herr]
    rw [hp1] at hent3
    obtain ⟨hbhs4, hsame4⟩ := fatCollectBhs_spec r.2.s (hent3 ▸ hat) hc hbhs3
    have h4 : FreeInv sb s r.2.collect := ⟨fun h0 => hsame4.exact (h3.exact h0), hbhs4,
      hsame4.prevFree.trans h3.prevFree, hsame4.freeClusValid.trans h3.valid⟩
    by_cases heof : v = FAT_ENT_EOF
    · rw [if_pos heof]
      exact h4
    · rw [if_neg heof]
      exact ih h4

/-- **A release keeps the counter exact**, whatever chain it meets. -/
theorem fatFreeClusters_exact (henv : env.FatWrites sb) (s : St) (c : ℤ) :
    (Exact sb s → Exact sb (fatFreeClusters env sb s c).2) ∧ (fatFreeClusters env sb s c).2.prevFree = s.prevFree ∧
      (fatFreeClusters env sb s c).2.freeClusValid = s.freeClusValid := by
  have hloop := fatFreeLoop_inv (s := s) henv sb.maxCluster (c := c) (f := ⟨fatentInit, [], c, s⟩)
    ⟨fun h => h, BhsInFat.nil sb, rfl, rfl⟩
  unfold fatFreeClusters
  generalize fatFreeLoop env sb sb.maxCluster c ⟨fatentInit, [], c, s⟩ = r at hloop ⊢
  have hwrite : SameFat sb r.2.s (if r.1 ≠ 0 then (r.1, r.2.s) else fatWriteBhs env sb r.2.s r.2.bhs sb.synchronous).2 := by
    split_ifs
    · exact SameFat.refl sb r.2.s
    · exact fatWriteBhs_fatWrites henv r.2.s hloop.bhs sb.synchronous
  simp only
  generalize (if r.1 ≠ 0 then (r.1, r.2.s) else fatWriteBhs env sb r.2.s r.2.bhs sb.synchronous) = w at hwrite ⊢
  have hsame := (hwrite.trans (FatEntry.brelse_spec sb r.2.fatent w.2).2).trans (foldl_brelse_sameFat sb r.2.bhs _)
  exact ⟨fun h => hsame.exact (hloop.exact h), hsame.prevFree.trans hloop.prevFree, hsame.freeClusValid.trans hloop.valid⟩

/-! ## Allocating -/

/-- what a search keeps: the cursor `prev_ent` is on the last cluster taken, which is not free any more -/
structure TakeInv (sb : FatSb) (a : Alloc) : Prop where
  prev : ∀ p, a.cluster.getLast? = some p → a.prevEnt.At sb p
  taken : ∀ p ∈ a.cluster, InRange sb p ∧ fatVal sb a.s.vol p ≠ FAT_ENT_FREE
  prevNil : a.cluster = [] → a.prevEnt.bh = none
  bhs : BhsInFat sb a.bhs
  prevFree : PrevFreeOk sb a.s

/-- **One entry taken**: the counter goes down, without a wrap. -/
theorem takeFree_exact {a : Alloc} (h : TakeInv sb a) (hat : a.fatent.At sb c) (hc : InRange sb c)
    (hfree : fatVal sb a.s.vol c = FAT_ENT_FREE) :
    (∀ x, InRange sb x → x = c ∨ fatVal sb a.s.vol x ≠ FAT_ENT_FREE → fatVal sb (takeFree a).s.vol x ≠ FAT_ENT_FREE) ∧
      (Exact sb a.s → Exact sb (takeFree a).s ∧ (takeFree a).s.freeClusters + 1 = a.s.freeClusters) := by
  obtain ⟨-, hvol, -, -, -, hcounter⟩ := takeFree_vol h.prev h.prevNil h.bhs hat hc
  have hin : ∀ x ∈ a.cluster, InRange sb x := fun x hx => (h.taken x hx).1
  have hnew : c ∉ a.cluster := fun hm => (h.taken c hm).2 hfree
  constructor
  · intro x hx hor
    rw [hvol.val hx, fatVal_hang hin hc hnew hx]
    split_ifs with h1 h2
    · decide
    · exact hc.pos.ne'
    · exact hor.resolve_left h1
  · intro hexact
    have hcount : freeCount sb (hang sb a.s.vol a.cluster c) + 1 = freeCount sb a.s.vol := by
      have h1 := freeCount_fatPut a.s.vol hc Storable.eof
      rw [if_pos hfree, if_neg (show ¬ FAT_ENT_EOF = FAT_ENT_FREE by decide)] at h1
      unfold hang
      cases hl : a.cluster.getLast? with
      | none => exact h1
      | some p =>
        have hp := List.mem_of_getLast? hl
        have hpc : p ≠ c := fun he => hnew (he ▸ hp)
        have h2 := freeCount_fatPut (fatPut sb a.s.vol c FAT_ENT_EOF) (hin p hp) hc.storable
        have hcfree : c ≠ FAT_ENT_FREE := hc.pos.ne'
        rw [fatVal_fatPut hc Storable.eof (hin p hp), if_neg hpc, if_neg (h.taken p hp).2, if_neg hcfree] at h2
        simp only
        omega
    have hle := hexact.le
    have hmax := sb.maxCluster_max
    unfold MAX_FAT32 at hmax
    have hstep : (takeFree a).s.freeClusters + 1 = a.s.freeClusters := by
      rw [hcounter, if_pos hexact.known]
      unfold Exact at hexact
      omega
    refine ⟨?_, hstep⟩
    unfold Exact at hexact ⊢
    rw [hvol.freeCount]
    omega

/-- the search, whatever fails: when it finds too few free entries, there are none left -/
theorem fatAllocLoop_exact (env : Env) (hmax : 2 < sb.maxCluster) (nr left : ℕ) : ∀ {e : ℤ} {more : Bool} {a : Alloc},
    TakeInv sb a → InRange sb e → Cursor sb more a e →
    (∀ x, InRange sb x → x ∉ scan sb e left → fatVal sb a.s.vol x ≠ FAT_ENT_FREE) →
    BhsInFat sb (fatAllocLoop env sb nr left more a).2.bhs ∧ PrevFreeOk sb (fatAllocLoop env sb nr left more a).2.s ∧
      (Exact sb a.s ∨ a.s.freeClusValid = false ∧ (fatAllocLoop env sb nr left more a).2.s.freeClusValid = true →
        Exact sb (fatAllocLoop env sb nr left more a).2.s) := by
  induction left with
  | zero =>
    intro e more a h he hcur hrest
    refine ⟨h.bhs, h.prevFree, fun _ => ?_⟩
    unfold Exact
    rw [fatAllocLoop]
    exact (freeCount_eq_zero fun x hx => hrest x hx List.not_mem_nil).symm
  | succ left ih =>
    intro e more a h he hcur hrest
    rw [scan_succ he] at hrest
    obtain ⟨ok, e', s', hhead, hat, hsame⟩ := allocHead_any env hcur
    have h1 : TakeInv sb { a with fatent := e', s := s' } := by
      refine ⟨h.prev, fun p hp => ⟨(h.taken p hp).1, ?_⟩, h.prevNil, h.bhs, ?_⟩
      · rw [EqFat.val hsame.vol (h.taken p hp).1]
        exact (h.taken p hp).2
      · unfold PrevFreeOk
        rw [hsame.prevFree]
        exact h.prevFree
    have hnextIn : InRange sb (wrapEntry sb (e + 1)) := wrapEntry_inRange hmax (by have := he.1; omega)
    simp only [fatAllocLoop, hhead]
    cases ok with
    | false =>
      refine ⟨h1.bhs, h1.prevFree, ?_⟩
      rintro (hex | ⟨hv0, hv1⟩)
      · exact hsame.exact hex
      · rw [hsame.freeClusValid, hv0] at hv1
        exact absurd hv1 (by simp)
    | true =>
      have hat := hat rfl
      have hget : e'.get s' = FAT_ENT_FREE ↔ fatVal sb s'.vol e = FAT_ENT_FREE := by
        rw [hat.get, fatLink_eq_free]
      have hrest' : ∀ x, InRange sb x → x ∉ e :: scan sb (wrapEntry sb (e + 1)) left →
          fatVal sb s'.vol x ≠ FAT_ENT_FREE := by
        intro x hx hxs
        rw [EqFat.val hsame.vol hx]
        exact hrest x hx hxs
      by_cases hfree : fatVal sb s'.vol e = FAT_ENT_FREE
      · simp only [if_pos (hget.2 hfree)]
        obtain ⟨hcl, -, hbhs, hpf, hvalid, -⟩ := takeFree_vol h1.prev h1.prevNil h1.bhs hat he
        obtain ⟨hkeep, hexact⟩ := takeFree_exact h1 hat he hfree
        have htf : (takeFree { a with fatent := e', s := s' }).fatent = e' := rfl
        generalize takeFree { a with fatent := e', s := s' } = b at hcl hbhs hpf hvalid hkeep hexact htf ⊢
        simp only at hcl hkeep hexact hvalid
        have hvalid' : b.s.freeClusValid = a.s.freeClusValid := hvalid.trans hsame.freeClusValid
        by_cases hdone : b.cluster.length = nr
        · simp only [if_pos hdone]
          refine ⟨hbhs, hpf, ?_⟩
          rintro (hex | ⟨hv0, hv1⟩)
          · exact (hexact (hsame.exact hex)).1
          · rw [hvalid', hv0] at hv1
            exact absurd hv1 (by simp)
        · simp only [if_neg hdone]
          have h2 : TakeInv sb { b with prevEnt := b.fatent, fatent := (fatEntNext sb b.fatent).2 } := by
            refine ⟨fun p hp => ?_, fun p hp => ?_, fun hnil => ?_, hbhs, hpf⟩
            · have hpe : p = e := by
                simp only [hcl, List.getLast?_append, List.getLast?_singleton, Option.some_or, Option.some.injEq] at hp
                exact hp.symm
              rw [hpe]
              exact htf ▸ hat
            · simp only [hcl] at hp
              rcases List.mem_append.1 hp with hp | hp
              · exact ⟨(h1.taken p hp).1, hkeep p (h1.taken p hp).1 (Or.inr (h1.taken p hp).2)⟩
              · rw [List.mem_singleton.1 hp]
                exact ⟨he, hkeep e he (Or.inl rfl)⟩
            · simp only [hcl] at hnil
              exact absurd hnil (by simp)
          obtain ⟨hb, hp, hex⟩ := ih h2 hnextIn (cursor_next he (htf ▸ hat) rfl) fun x hx hxs => by
            by_cases hxe : x = e
            · exact hkeep x hx (Or.inl hxe)
            · exact hkeep x hx (Or.inr (hrest' x hx (by simp [hxe, hxs])))
          refine ⟨hb, hp, fun hor => hex ?_⟩
          rcases hor with hor | ⟨hv0, hv1⟩
          · exact Or.inl (hexact (hsame.exact hor)).1
          · exact Or.inr ⟨hvalid'.trans hv0, hv1⟩
      · simp only [if_neg (fun h => hfree (hget.1 h))]
        have h2 : TakeInv sb { a with fatent := (fatEntNext sb e').2, s := s' } :=
          ⟨h1.prev, h1.taken, h1.prevNil, h1.bhs, h1.prevFree⟩
        obtain ⟨hb, hp, hex⟩ := ih h2 hnextIn (cursor_next he hat rfl) fun x hx hxs => by
          by_cases hxe : x = e
          · rw [hxe]
            exact hfree
          · exact hrest' x hx (by simp [hxe, hxs])
        refine ⟨hb, hp, fun hor => hex ?_⟩
        rcases hor with hor | ⟨hv0, hv1⟩
        · exact Or.inl (hsame.exact hor)
        · exact Or.inr ⟨hsame.freeClusValid.trans hv0, hv1⟩

/-- the end of an allocation -/
theorem allocOut_exact (henv : env.FatWrites sb) (needsSync : Bool) (err : ℤ) {a : Alloc} (hbhs : BhsInFat sb a.bhs)
    (hpf : PrevFreeOk sb a.s) :
    (Exact sb a.s → Exact sb (allocOut env sb needsSync (err, a)).s) ∧ PrevFreeOk sb (allocOut env sb needsSync (err, a)).s ∧
      (allocOut env sb needsSync (err, a)).s.freeClusValid = a.s.freeClusValid := by
  have hrel := (FatEntry.brelse_spec sb a.fatent a.s).2
  have hwrite : SameFat sb (a.fatent.brelse a.s).2
      (if err = 0 then fatWriteBhs env sb (a.fatent.brelse a.s).2 a.bhs needsSync else (err, (a.fatent.brelse a.s).2)).2 := by
    split_ifs
    · exact fatWriteBhs_fatWrites henv _ hbhs needsSync
    · exact SameFat.refl sb _
  unfold allocOut
  simp only
  generalize (if err = 0 then fatWriteBhs env sb (a.fatent.brelse a.s).2 a.bhs needsSync
    else (err, (a.fatent.brelse a.s).2)) = w at hwrite ⊢
  have hsame := (hrel.trans hwrite).trans (foldl_brelse_sameFat sb a.bhs w.2)
  have hpf' : PrevFreeOk sb (a.bhs.foldl brelse w.2) := by
    unfold PrevFreeOk
    rw [hsame.prevFree]
    exact hpf
  cases a.cluster with
  | nil => exact ⟨hsame.exact, hpf', hsame.freeClusValid⟩
  | cons c cs =>
    simp only
    split_ifs
    · obtain ⟨he, hp, hv⟩ := fatFreeClusters_exact henv (a.bhs.foldl brelse w.2) c
      refine ⟨fun h => he (hsame.exact h), ?_, hv.trans hsame.freeClusValid⟩
      unfold PrevFreeOk
      rw [hp]
      exact hpf'
    · exact ⟨hsame.exact, hpf', hsame.freeClusValid⟩

/-- the search of a call, whatever fails -/
theorem fatAllocLoop_start_exact (env : Env) {s : St} (hpf : PrevFreeOk sb s) (nr : ℕ) :
    BhsInFat sb (fatAllocLoop env sb nr (sb.maxCluster - 2) false (allocStart s)).2.bhs ∧
      PrevFreeOk sb (fatAllocLoop env sb nr (sb.maxCluster - 2) false (allocStart s)).2.s ∧
      (Exact sb s ∨ s.freeClusValid = false ∧
          (fatAllocLoop env sb nr (sb.maxCluster - 2) false (allocStart s)).2.s.freeClusValid = true →
        Exact sb (fatAllocLoop env sb nr (sb.maxCluster - 2) false (allocStart s)).2.s) := by
  have htake : TakeInv sb (allocStart s) :=
    ⟨fun p hp => absurd hp (by simp [allocStart]), fun p hp => absurd hp List.not_mem_nil, fun _ => rfl,
      BhsInFat.nil sb, hpf⟩
  rcases Nat.lt_or_ge 2 sb.maxCluster with hmax | hmax
  · have hin : InRange sb (wrapEntry sb ((s.prevFree : ℤ) + 1)) := by
      apply wrapEntry_inRange hmax
      have := hpf.1
      unfold FAT_START_ENT
      omega
    exact fatAllocLoop_exact env hmax nr (sb.maxCluster - 2) htake hin (cursor_start hpf) fun x hx hxs =>
      absurd (mem_scan hx) hxs
  · -- a volume without clusters
    have hzero : sb.maxCluster - 2 = 0 := by omega
    rw [hzero, fatAllocLoop]
    refine ⟨htake.bhs, htake.prevFree, fun _ => ?_⟩
    have hle := freeCount_le sb s.vol
    rw [hzero] at hle
    exact (Nat.le_zero.1 hle).symm

/-- **An allocation keeps the counter exact**, however it ends; and if it sets `free_clus_valid`, the counter is exact
whatever it was before. -/
theorem fatAllocClusters_exact (henv : env.FatWrites sb) {s : St} (hpf : PrevFreeOk sb s) {needsSync : Bool} {nr : ℕ}
    {r : AllocClusters} (hr : fatAllocClusters env sb s needsSync nr = some r)
    (h : Exact sb s ∨ s.freeClusValid = false ∧ r.s.freeClusValid = true) : Exact sb r.s ∧ PrevFreeOk sb r.s := by
  unfold fatAllocClusters at hr
  split_ifs at hr with hbug href
  · rw [Option.some.injEq] at hr
    rw [← hr] at h ⊢
    rcases h with h | ⟨h0, h1⟩
    · exact ⟨h, hpf⟩
    · rw [h0] at h1
      exact absurd h1 (by simp)
  · rw [Option.some.injEq] at hr
    obtain ⟨hb, hp, hex⟩ := fatAllocLoop_start_exact env hpf nr
    generalize fatAllocLoop env sb nr (sb.maxCluster - 2) false (allocStart s) = q at hb hp hex hr
    obtain ⟨hout, hpf', hvalid⟩ := allocOut_exact henv needsSync q.1 hb hp
    rw [← hr] at h ⊢
    refine ⟨hout (hex ?_), hpf'⟩
    rcases h with h | ⟨h0, h1⟩
    · exact Or.inl h
    · exact Or.inr ⟨h0, hvalid ▸ h1⟩

end

/-! ## Runs -/

/-- a call, in an environment of its own -/
inductive CountOp where
  | alloc (env : Env) (needsSync : Bool) (nrCluster : ℕ)
  | free (env : Env) (cluster : ℤ)

def countStep (sb : FatSb) (s : St) : CountOp → St
  | .alloc env needsSync nr =>
    match fatAllocClusters env sb s needsSync nr with
    | none => s
    | some r => r.s
  | .free env c => (fatFreeClusters env sb s c).2

/-- the callers ask for at least one cluster, and at most for the fixed limit -/
def CountOp.Allowed : CountOp → Prop
  | .alloc _ _ nr => 0 < nr ∧ nr ≤ MAX_BUF_PER_PAGE / 2
  | .free _ _ => True

/-- no write of a block of the first FAT fails in the call; anything else may -/
def CountOp.FatWrites (sb : FatSb) : CountOp → Prop
  | .alloc env _ _ => env.FatWrites sb
  | .free env _ => env.FatWrites sb

/-- what holds of the counter after a call: it is exact, and far from a wrap; and when the call sets `free_clus_valid`,
the counter is exact even if it was not before -/
def CounterRight (sb : FatSb) (s : St) (op : CountOp) : Prop :=
  Exact sb (countStep sb s op) ∧ (countStep sb s op).freeClusters ≤ sb.maxCluster - 2 ∧
    ∀ fc, (countStep sb { s with freeClusters := fc, freeClusValid := false } op).freeClusValid = true →
      Exact sb (countStep sb { s with freeClusters := fc, freeClusValid := false } op)

section
variable {sb : FatSb}

theorem countStep_exact {s : St} (hpf : PrevFreeOk sb s) {op : CountOp} (hw : op.FatWrites sb)
    (h : Exact sb s ∨ s.freeClusValid = false ∧ (countStep sb s op).freeClusValid = true) :
    Exact sb (countStep sb s op) ∧ PrevFreeOk sb (countStep sb s op) := by
  cases op with
  | alloc env needsSync nr =>
    simp only [countStep] at h ⊢
    cases hr : fatAllocClusters env sb s needsSync nr with
    | none =>
      simp only [hr] at h ⊢
      rcases h with h | ⟨h0, h1⟩
      · exact ⟨h, hpf⟩
      · rw [h0] at h1
        exact absurd h1 (by simp)
    | some r =>
      simp only [hr] at h ⊢
      exact fatAllocClusters_exact hw hpf hr h
  | free env c =>
    obtain ⟨he, hp, hv⟩ := fatFreeClusters_exact hw s c
    simp only [countStep] at h ⊢
    have hpf' : PrevFreeOk sb (fatFreeClusters env sb s c).2 := by
      unfold PrevFreeOk
      rw [hp]
      exact hpf
    rcases h with h | ⟨h0, h1⟩
    · exact ⟨he h, hpf'⟩
    · rw [hv, h0] at h1
      exact absurd h1 (by simp)

/-- **The counter of free clusters stays exact** in every run of allocations and releases, with any chains and any
failures but of a write of the first FAT. Every step of the counter stays clear of a wrap. -/
theorem free_clusters_exact {s : St} (hexact : Exact sb s) (hpf : PrevFreeOk sb s) {ops : List CountOp}
    (hops : Meets (countStep sb) (fun _ op => op.Allowed ∧ op.FatWrites sb) s ops) :
    Exact sb (run (countStep sb) s ops) ∧ Meets (countStep sb) (CounterRight sb) s ops ∧
      (∀ (a : Alloc) (c : ℤ), TakeInv sb a → a.fatent.At sb c → InRange sb c → fatVal sb a.s.vol c = FAT_ENT_FREE →
        Exact sb a.s → (takeFree a).s.freeClusters + 1 = a.s.freeClusters) ∧
      ∀ (f : Free) (c : ℤ), f.fatent.At sb c → InRange sb c → fatVal sb f.s.vol c ≠ FAT_ENT_FREE → Exact sb f.s →
        (putFree f).s.freeClusters = f.s.freeClusters + 1 := by
  have hstep : ∀ (s : St) (op : CountOp), Exact sb s ∧ PrevFreeOk sb s → op.Allowed ∧ op.FatWrites sb →
      Exact sb (countStep sb s op) ∧ PrevFreeOk sb (countStep sb s op) :=
    fun s op hinv hop => countStep_exact hinv.2 hop.2 (Or.inl hinv.1)
  have hgood : ∀ (s : St) (op : CountOp), Exact sb s ∧ PrevFreeOk sb s → op.Allowed ∧ op.FatWrites sb →
      CounterRight sb s op := by
    intro s op hinv hop
    have hexact := (hstep s op hinv hop).1
    refine ⟨hexact, hexact.le, fun fc hv => ?_⟩
    exact (countStep_exact (s := { s with freeClusters := fc, freeClusValid := false }) hinv.2 hop.2 (Or.inr ⟨rfl, hv⟩)).1
  have hrun : Exact sb (run (countStep sb) s ops) ∧ PrevFreeOk sb (run (countStep sb) s ops) :=
    run_inv hstep ⟨hexact, hpf⟩ hops
  exact ⟨hrun.1, meets_of_inv hstep hgood ⟨hexact, hpf⟩ hops, fun a c h hat hc hfree he => ((takeFree_exact h hat hc hfree).2 he).2,
    fun f c hat hc hval he => (putFree_exact hat hc hval he).2⟩

end

/-! ## A write that fails -/

/-- a small volume whose clusters are all free, with the counter on their number -/
def tinyFree : St := { St.idle (fun _ _ => 0) with freeClusters := 8 }

theorem tinyFree_exact : Exact tinySb tinyFree := by
  have hcount : freeCount tinySb tinyFree.vol = 8 := freeCount_of_free fun _ _ => rfl
  exact hcount.symm

/-- two clusters taken and one of them freed, on a device that cannot be read any more -/
theorem free_clusters_exact_tiny : Exact tinySb (run (countStep tinySb) tinyFree
    [.alloc goodEnv false 2, .free { goodEnv with bread := fun _ _ => false } 4]) := by
  have hops : Meets (countStep tinySb) (fun _ op => op.Allowed ∧ op.FatWrites tinySb) tinyFree
      [.alloc goodEnv false 2, .free { goodEnv with bread := fun _ _ => false } 4] :=
    ⟨⟨⟨by decide, by decide⟩, goodEnv_noFault.fatWrites tinySb⟩, ⟨trivial, fun _ _ _ => rfl⟩, trivial⟩
  exact (free_clusters_exact tinyFree_exact ⟨by decide, by decide⟩ hops).1

/-- every write fails -/
def syncFails : Env := { goodEnv with sync := fun _ _ => false }

/-- **A counter that is not exact.** The write of the FAT block fails, and the block is read again from the device; the
cluster is free there, so that the release finds nothing to free, and the counter stays down. -/
theorem free_clusters_not_exact : ¬ ∀ (sb : FatSb) (s : St) (ops : List CountOp), Exact sb s → PrevFreeOk sb s →
    Meets (countStep sb) (fun _ op => op.Allowed) s ops → Exact sb (run (countStep sb) s ops) := by
  intro hall
  have h := hall tinySb tinyFree [.alloc syncFails true 1] tinyFree_exact ⟨by decide, by decide⟩
    ⟨⟨by decide, by decide⟩, trivial⟩
  have hcounter : (run (countStep tinySb) tinyFree [.alloc syncFails true 1]).freeClusters = 7 := by decide +kernel
  have hfree : ∀ x ∈ Finset.Ico (2 : ℤ) 10,
      fatVal tinySb (run (countStep tinySb) tinyFree [.alloc syncFails true 1]).vol x = FAT_ENT_FREE := by decide +kernel
  have hcount : freeCount tinySb (run (countStep tinySb) tinyFree [.alloc syncFails true 1]).vol = 8 :=
    freeCount_of_free fun x hx => hfree x (Finset.mem_Ico.2 hx)
  unfold Exact at h
  rw [hcounter, hcount] at h
  exact absurd h (by decide)

end AtsLdd.Fat
