/-
What an allocation is for: it takes free clusters if there are enough of them, links them, and changes nothing else.

- `freeEntries_length`: the search meets every free entry once;
- `allocation_right_iff`: an allocation without a failure does what it is for, unless the number of the bad mark is
  among the clusters that it links to;
- `allocation_not_right`: on the largest volume, where there is a cluster of that number.
-/
import AtsLdd.Fat.Chains

namespace AtsLdd.Fat

open AtsLdd.Machine AtsLdd.LinkTable

/-- the number of free entries of the volume -/
noncomputable def freeCount (sb : FatSb) (vol : Vol) : ℕ :=
  ((Finset.Ico FAT_START_ENT sb.maxCluster).filter fun c => fatVal sb vol c = FAT_ENT_FREE).card

/-- the counter of free clusters is not known, not verified, or exact -/
def CounterOk (sb : FatSb) (s : St) : Prop :=
  s.freeClusters = FREE_UNKNOWN ∨ s.freeClusValid = false ∨ s.freeClusters = freeCount sb s.vol

/-- what a successful allocation leaves: the clusters are linked in a row, and nothing else has changed -/
structure Allocated (sb : FatSb) (vol vol' : Vol) (nr : ℕ) (cs : List ℤ) : Prop where
  length : cs.length = nr
  nodup : cs.Nodup
  inRange : ∀ x ∈ cs, InRange sb x
  free : ∀ x ∈ cs, fatVal sb vol x = FAT_ENT_FREE
  chain : cs.IsChain fun x y => fatLink sb vol' x = y
  last : ∀ x, cs.getLast? = some x → fatLink sb vol' x = FAT_ENT_EOF
  frame : ∀ x, InRange sb x → x ∉ cs → fatVal sb vol' x = fatVal sb vol x
  top : ∀ x, InRange sb x → fatTop sb vol' x = fatTop sb vol x

/-- the allocation is right: it succeeds exactly when there are `nr` free entries, and fails without a trace -/
def AllocatesRight (sb : FatSb) (s : St) (nr : ℕ) : Prop :=
  ∀ env : Env, env.NoFault → ∀ needsSync, ∃ r, fatAllocClusters env sb s needsSync nr = some r ∧
    (r.err = 0 ↔ nr ≤ freeCount sb s.vol) ∧ (r.err = 0 → Allocated sb s.vol r.s.vol nr r.cluster) ∧
    (r.err ≠ 0 → r.err = - ENOSPC ∧ SameVals sb s.vol r.s.vol)

section
variable {sb : FatSb} {s : St} {nr : ℕ}

/-- the search meets every free entry once -/
theorem freeEntries_length (hmax : 2 < sb.maxCluster) (vol : Vol) (prevFree : ℕ) :
    (freeEntries sb vol prevFree).length = freeCount sb vol := by
  unfold freeCount
  rw [← List.toFinset_card_of_nodup (freeEntries_nodup sb vol prevFree)]
  congr 1
  ext x
  rw [List.mem_toFinset, Finset.mem_filter, Finset.mem_Ico]
  constructor
  · intro hx
    have hin : InRange sb x := scan_inRange hmax x (List.mem_of_mem_filter hx)
    exact ⟨hin, (mem_freeEntries hin).1 hx⟩
  · rintro ⟨hin, hfree⟩
    exact (mem_freeEntries hin).2 hfree

theorem Chained.allocated {vol vol' : Vol} {cs : List ℤ} (h : Chained sb vol vol' cs) (hbad : BAD_FAT32 ∉ cs.tail) :
    Allocated sb vol vol' cs.length cs where
  length := rfl
  nodup := h.nodup
  inRange := h.inRange
  free := h.free
  chain := by
    apply h.chain.imp_of_mem_tail_imp
    intro x y _ hy hxy
    have hyin := h.inRange y (List.mem_of_mem_tail hy)
    rw [fatLink_eq, hxy]
    exact readBack_of_lt (lt_of_le_of_ne hyin.le_bad fun he => hbad (he ▸ hy))
  last := by
    intro x hx
    rw [fatLink_eq, h.last x hx]
    exact readBack_eof
  frame := h.frame
  top := h.top

/-- a number in the tail of a list follows another one -/
theorem exists_split_of_mem_tail {α : Type*} {l : List α} {a : α} (h : a ∈ l.tail) :
    ∃ l1 x l2, l = l1 ++ x :: a :: l2 := by
  cases l with
  | nil => exact absurd h List.not_mem_nil
  | cons b l =>
    obtain ⟨l1, l2, rfl⟩ := List.append_of_mem (show a ∈ l from h)
    rcases List.eq_nil_or_concat (b :: l1) with hnil | ⟨l1', x, hx⟩
    · exact absurd hnil (List.cons_ne_nil b l1)
    · refine ⟨l1', x, l2, ?_⟩
      rw [List.concat_eq_append] at hx
      rw [← List.cons_append, hx, List.append_assoc]
      rfl

/-- where the number of the bad mark is linked to, the chain that is read ends before it -/
theorem Chained.path_before_bad {vol vol' : Vol} {l1 l2 : List ℤ} {x : ℤ}
    (h : Chained sb vol vol' (l1 ++ x :: BAD_FAT32 :: l2)) (hbad : BAD_FAT32 ∉ l1) :
    ∃ a, (l1 ++ x :: BAD_FAT32 :: l2).head? = some a ∧ Path (table sb vol') a (l1 ++ [x]) := by
  have hsplit : l1 ++ x :: BAD_FAT32 :: l2 = (l1 ++ [x]) ++ BAD_FAT32 :: l2 := by simp
  rw [hsplit] at h
  have hne : l1 ++ [x] ≠ [] := by simp
  obtain ⟨hleft, -, hmid⟩ := List.isChain_append.1 h.chain
  have hxbad : x ≠ BAD_FAT32 := by
    have hnd := h.nodup
    rw [List.nodup_append] at hnd
    exact hnd.2.2 x (by simp) BAD_FAT32 List.mem_cons_self
  have hin : ∀ y ∈ l1 ++ [x], InRange sb y := fun y hy => h.inRange y (List.mem_append_left _ hy)
  refine ⟨(l1 ++ [x]).head hne, ?_, path_of_isChain hne ?_ ?_⟩
  · rw [hsplit, List.head?_append, List.head?_eq_some_head hne, Option.some_or]
  · apply hleft.imp_of_mem_imp
    intro y z hy hz hyz
    have hzbad : z ≠ BAD_FAT32 := by
      rintro rfl
      rcases List.mem_append.1 hz with hz | hz
      · exact hbad hz
      · exact hxbad (List.mem_singleton.1 hz).symm
    rw [table_of_inRange (hin y hy), fatLink_eq, hyz]
    exact toLink_readBack (hin z hz) hzbad
  · have hlast : (l1 ++ [x]).getLast hne = x := List.getLast_append_singleton _
    have hval : fatVal sb vol' x = BAD_FAT32 := hmid x (by simp) BAD_FAT32 (by simp)
    rw [hlast, table_of_inRange (hin x (by simp)), fatLink_eq, hval]
    exact toLink_readBack_bad

/-- an allocation that the counter does not refuse, with enough free entries -/
theorem allocates_of_enough (hpf : PrevFreeOk sb s) (hnr : 0 < nr) (h4 : nr ≤ MAX_BUF_PER_PAGE / 2)
    (hno : ¬ Refused s nr) (hmax : 2 < sb.maxCluster) (hle : nr ≤ (freeEntries sb s.vol s.prevFree).length) :
    AllocatesRight sb s nr ↔ BAD_FAT32 ∉ ((freeEntries sb s.vol s.prevFree).take nr).tail := by
  have hcount := freeEntries_length hmax s.vol s.prevFree
  have hlen : ((freeEntries sb s.vol s.prevFree).take nr).length = nr := by
    rw [List.length_take, min_eq_left hle]
  constructor
  · intro h hbad
    obtain ⟨s', hres, hch, -⟩ := fatAllocClusters_ok goodEnv_noFault hpf hnr h4 hno hle false
    obtain ⟨r, hr, -, hok, -⟩ := h goodEnv goodEnv_noFault false
    rw [hres, Option.some.injEq] at hr
    rw [← hr] at hok
    -- the link to the number of the bad mark is read as an EOF mark
    obtain ⟨l1, x, l2, hsplit⟩ := exists_split_of_mem_tail hbad
    have hlink := (hok rfl).chain
    simp only [hsplit] at hlink hch
    have hread : fatLink sb s'.vol x = BAD_FAT32 := (List.isChain_append.1 hlink).2.1.rel
    have hval : fatVal sb s'.vol x = BAD_FAT32 := (List.isChain_append.1 hch.chain).2.1.rel
    rw [fatLink_eq, hval] at hread
    exact absurd hread (by decide)
  · intro hbad env henv needsSync
    obtain ⟨s', hres, hch, -⟩ := fatAllocClusters_ok henv hpf hnr h4 hno hle needsSync
    refine ⟨_, hres, iff_of_true rfl (hcount ▸ hle), fun _ => ?_, fun h => absurd rfl h⟩
    have hal := hch.allocated hbad
    rwa [hlen] at hal

/-- an allocation that the counter does not refuse, with too few free entries -/
theorem allocates_of_few (hpf : PrevFreeOk sb s) (hnr : 0 < nr) (h4 : nr ≤ MAX_BUF_PER_PAGE / 2)
    (hno : ¬ Refused s nr) (hmax : 2 < sb.maxCluster) (hlt : (freeEntries sb s.vol s.prevFree).length < nr) :
    AllocatesRight sb s nr ↔ BAD_FAT32 ∉ ((freeEntries sb s.vol s.prevFree).take nr).tail := by
  have hcount := freeEntries_length hmax s.vol s.prevFree
  rw [List.take_of_length_le hlt.le]
  have henospc : (- ENOSPC : ℤ) ≠ 0 := by decide
  constructor
  · intro h hbad
    obtain ⟨s1, s', hres, hch, -, -, hcons⟩ := fatAllocClusters_few goodEnv_noFault hpf hnr h4 hno hlt false
    obtain ⟨r, hr, -, -, herr⟩ := h goodEnv goodEnv_noFault false
    rw [hres, Option.some.injEq] at hr
    rw [← hr] at herr
    have hbadin := hch.inRange _ (List.mem_of_mem_tail hbad)
    have hne := hch.val_ne_free (List.mem_of_mem_tail hbad)
    have hfree := hch.free _ (List.mem_of_mem_tail hbad)
    -- the release stops before the number of the bad mark, whose entry stays taken
    obtain ⟨l1, x, l2, hsplit⟩ := exists_split_of_mem_tail hbad
    rw [hsplit] at hch hcons
    have hnot : BAD_FAT32 ∉ l1 ++ [x] := by
      have hnd := hch.nodup
      rw [List.append_cons, List.nodup_append] at hnd
      intro hm
      exact hnd.2.2 _ hm _ List.mem_cons_self rfl
    obtain ⟨a, ha, p⟩ := hch.path_before_bad fun hm => hnot (List.mem_append_left _ hm)
    obtain ⟨s2, hrel, hput, -⟩ := fatFreeClusters_path goodEnv_noFault p
    have hs' : s' = s2 := by rw [hcons a ha, hrel]
    have hval : fatVal sb s'.vol BAD_FAT32 = fatVal sb s1.vol BAD_FAT32 := by
      rw [hs', hput.val hbadin, fatVal_freePuts (path_inRange p) hbadin, if_neg hnot]
    have hsame := (herr henospc).2 BAD_FAT32 hbadin
    rw [hval, hfree] at hsame
    exact hne hsame
  · intro hbad env henv needsSync
    obtain ⟨cs, s', hres, hsame, -⟩ := fatAllocClusters_enospc henv hpf hnr h4 hno hlt hbad needsSync
    refine ⟨_, hres, ?_, fun h => absurd h henospc, fun _ => ⟨rfl, fun x hx => (hsame x hx).1⟩⟩
    exact iff_of_false henospc (not_le.2 (hcount ▸ hlt))

/-- an allocation on a volume whose counter is in order -/
theorem refused_few (hc : CounterOk sb s) (href : Refused s nr) : freeCount sb s.vol < nr := by
  obtain ⟨hknown, hvalid, hlt⟩ := href
  rcases hc with h | h | h
  · exact absurd h hknown
  · rw [h] at hvalid
    exact absurd hvalid (by simp)
  · rwa [← h]

/-- **An allocation without a failure is right** if and only if the counter refuses it at once, or the number of the bad
mark is not among the clusters that it would link to. -/
theorem allocation_right_iff (sb : FatSb) (s : St) (nr : ℕ) (hmax : 2 < sb.maxCluster)
    (hpf : 2 ≤ s.prevFree ∧ s.prevFree < sb.maxCluster) (hnr : 1 ≤ nr) (h4 : nr ≤ MAX_BUF_PER_PAGE / 2)
    (hc : CounterOk sb s) :
    AllocatesRight sb s nr ↔ Refused s nr ∨ BAD_FAT32 ∉ ((freeEntries sb s.vol s.prevFree).take nr).tail := by
  have hpf' : PrevFreeOk sb s := ⟨hpf.1, hpf.2.le⟩
  by_cases href : Refused s nr
  · refine iff_of_true (fun env _ needsSync => ⟨_, fatAllocClusters_refused env sb href h4 needsSync, ?_⟩) (Or.inl href)
    have henospc : (- ENOSPC : ℤ) ≠ 0 := by decide
    exact ⟨iff_of_false henospc (not_le.2 (refused_few hc href)), fun h => absurd h henospc,
      fun _ => ⟨rfl, fun x _ => rfl⟩⟩
  · rw [or_iff_right href]
    rcases Nat.lt_or_ge (freeEntries sb s.vol s.prevFree).length nr with hlt | hle
    · exact allocates_of_few hpf' hnr h4 href hmax hlt
    · exact allocates_of_enough hpf' hnr h4 href hmax hle

/-- a small volume with an unknown number of free clusters -/
theorem allocation_right_tiny : AllocatesRight tinySb { tinyChains.s with freeClusters := FREE_UNKNOWN } 2 := by
  refine (allocation_right_iff tinySb { tinyChains.s with freeClusters := FREE_UNKNOWN } 2 (by decide) (by decide)
    (by decide) (by decide) (Or.inl rfl)).2 (Or.inr fun hmem => ?_)
  have hin := scan_inRange (by decide) _ (List.mem_of_mem_filter (List.mem_of_mem_take (List.mem_of_mem_tail hmem)))
  exact absurd hin (by decide)

end

/-! ## The cluster whose number is the bad mark -/

/-- the largest volume, with all clusters free and the search about to start at the last but one -/
def largeFree : St := { St.idle (fun _ _ => 0) with freeClusters := FREE_UNKNOWN, prevFree := 0x0FFFFFF5 }

theorem largeFree_free (c : ℤ) : fatVal largeSb largeFree.vol c = FAT_ENT_FREE := rfl

theorem largeFree_entries : ∃ l, freeEntries largeSb largeFree.vol largeFree.prevFree = 0x0FFFFFF6 :: BAD_FAT32 :: l := by
  have hall : ∀ l : List ℤ, l.filter (fun c => fatVal largeSb largeFree.vol c = FAT_ENT_FREE) = l :=
    fun l => List.filter_eq_self.2 fun c _ => decide_eq_true (largeFree_free c)
  have hstart : wrapEntry largeSb ((largeFree.prevFree : ℕ) + 1) = 0x0FFFFFF6 := by decide
  have hnext : wrapEntry largeSb (0x0FFFFFF6 + 1) = BAD_FAT32 := by decide
  have hcount : largeSb.maxCluster - 2 = 0x0FFFFFF4 + 1 + 1 := by decide
  unfold freeEntries
  rw [hall, hstart, hcount, scan_succ (by decide), hnext, scan_succ (by decide)]
  exact ⟨_, rfl⟩

/-- **An allocation that is not right.** Of the two clusters, the link to the second one is read as an EOF mark. -/
theorem allocation_not_right : ¬ ∀ (sb : FatSb) (s : St) (nr : ℕ), 2 < sb.maxCluster →
    2 ≤ s.prevFree ∧ s.prevFree < sb.maxCluster → 1 ≤ nr → nr ≤ MAX_BUF_PER_PAGE / 2 → CounterOk sb s →
    AllocatesRight sb s nr := by
  intro hall
  have h := hall largeSb largeFree 2 (by decide) (by decide) (by decide) (by decide) (Or.inl rfl)
  have hno : ¬ Refused largeFree 2 := by decide
  obtain ⟨l, hl⟩ := largeFree_entries
  have hpf : PrevFreeOk largeSb largeFree := ⟨by decide, by decide⟩
  have hiff := allocates_of_enough hpf (by decide) (by decide) hno (by decide) (by rw [hl]; exact Nat.le_add_left 2 _)
  apply hiff.1 h
  rw [hl]
  exact List.mem_singleton.2 rfl

end AtsLdd.Fat
