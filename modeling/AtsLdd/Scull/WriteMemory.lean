/-
The memory that a write of the bare scull device needs: the nodes that the list lacks, an array of quanta when there is
none, and the quantum.

- `qdatptrVtakeoutBytesWrite_none_iff`: there is no quantum in the end exactly when one of the missing parts is not made;
- `scullWriteMain_nomem_iff`: the call is out of memory exactly when one of the allocations that it needs fails.
-/
import AtsLdd.Scull.Follow

namespace AtsLdd.Scull

open AtsLdd.Machine AtsLdd.ByteMap

/-- the allocations for element `i` of an array of quanta: the array, and the quantum -/
def Qdatptr.missing (d : Qdatptr) (i : ℕ) : ℕ :=
  match d with
  | none => 2
  | some arr => if arr.getD i none = none then 1 else 0

/-- the allocations for element `i` of node `ln` -/
def writeAllocs (xs : List Qset) (ln i : ℕ) : ℕ := (ln + 1 - xs.length) + Qdatptr.missing (xs.getD ln ⟨none⟩).data i

section
variable {mem : ℕ → Bool} {m n i : ℕ}

theorem kmalloc_natCast (mem : ℕ → Bool) (k n : ℕ) : kmalloc mem k n = mem k := by
  unfold kmalloc
  rw [decide_eq_true (Int.natCast_nonneg n), Bool.true_and]

theorem qtmptrMake_none_iff (k : ℕ) : qtmptrMake mem k n = none ↔ mem k = false := by
  unfold qtmptrMake
  rw [kmalloc_natCast]
  cases mem k <;> simp

/-- the quantum is NULL in the end when one of the missing parts could not be made -/
theorem qdatptrVtakeoutBytesWrite_none_iff {d : Qdatptr} (hd : QdatBuilt m n d) (hi : i < m) (k : ℕ) {d' : Qdatptr}
    {q : Qtmptr} {k' : ℕ} (h : qdatptrVtakeoutBytesWrite mem d m n i k = .ok (d', q, k')) :
    q = none ↔ ∃ t < Qdatptr.missing d i, mem (k + t) = false := by
  unfold qdatptrVtakeoutBytesWrite at h
  cases d with
  | none =>
    have htwo : (∃ t < 2, mem (k + t) = false) ↔ mem k = false ∨ mem (k + 1) = false := by
      constructor
      · rintro ⟨t, ht, hf⟩
        interval_cases t
        · exact Or.inl hf
        · exact Or.inr hf
      · rintro (hf | hf)
        · exact ⟨0, by decide, hf⟩
        · exact ⟨1, by decide, hf⟩
    change q = none ↔ ∃ t < 2, mem (k + t) = false
    rw [htwo]
    unfold qdatptrOrMake qdatptrMake at h
    rw [kmalloc_natCast] at h
    cases hk : mem k with
    | false =>
      simp only [hk, Bool.false_eq_true, if_false, Except.ok.injEq, Prod.mk.injEq] at h
      exact iff_of_true h.2.1.symm (Or.inl rfl)
    | true =>
      simp only [hk, if_true, Int.toNat_natCast, Int.natCast_nonneg, true_and, List.length_replicate, hi, dite_true,
        List.getElem_replicate, qtmptrVtakeoutBytesWrite, Except.ok.injEq, Prod.mk.injEq] at h
      rw [← h.2.1, qtmptrMake_none_iff]
      simp
  | some arr =>
    have hin : i < arr.length := by rw [(hd arr rfl).1]; exact hi
    have hget : arr.getD i none = arr[i] := by
      rw [List.getD_eq_getElem?_getD, List.getElem?_eq_getElem hin, Option.getD_some]
    simp only [qdatptrOrMake, Int.toNat_natCast, Int.natCast_nonneg, true_and, hin, dite_true] at h
    unfold Qdatptr.missing
    simp only [hget]
    cases hq : arr[i] with
    | some q0 =>
      simp only [hq, qtmptrVtakeoutBytesWrite, Except.ok.injEq, Prod.mk.injEq] at h
      rw [← h.2.1]
      simp
    | none =>
      simp only [hq, qtmptrVtakeoutBytesWrite, Except.ok.injEq, Prod.mk.injEq] at h
      rw [← h.2.1, qtmptrMake_none_iff]
      simp

/-- a node that is made is empty, as one past the list is -/
theorem getD_extend (xs : List Qset) (r ln : ℕ) :
    (xs ++ List.replicate r (⟨none⟩ : Qset)).getD ln ⟨none⟩ = xs.getD ln ⟨none⟩ := by
  simp only [List.getD_eq_getElem?_getD]
  by_cases hln : ln < xs.length
  · rw [List.getElem?_append_left hln]
  · rw [List.getElem?_append_right (not_lt.1 hln), List.getElem?_eq_none (not_lt.1 hln), List.getElem?_replicate]
    split_ifs <;> rfl

theorem fails_add (a b : ℕ) :
    (∃ t < a + b, mem t = false) ↔ (∃ t < a, mem t = false) ∨ ∃ t < b, mem (a + t) = false := by
  constructor
  · rintro ⟨t, ht, hf⟩
    by_cases hta : t < a
    · exact Or.inl ⟨t, hta, hf⟩
    · refine Or.inr ⟨t - a, by omega, ?_⟩
      rw [Nat.add_sub_cancel' (not_lt.1 hta)]
      exact hf
  · rintro (⟨t, ht, hf⟩ | ⟨t, ht, hf⟩)
    · exact ⟨t, Nat.lt_add_right b ht, hf⟩
    · exact ⟨a + t, Nat.add_lt_add_left ht a, hf⟩

/-- **Out of memory.** The call answers -ENOMEM exactly when an allocation that it needs fails. -/
theorem scullWriteMain_nomem_iff {xs : List Qset} (hb : Built m n xs) (hlen : (xs.length : ℤ) ≤ INT_MAX) {ln j cnt : ℕ}
    (hln : (ln : ℤ) < INT_MAX) (hi : i < m) (hj : j < n) {buf : List UInt8} (hbuf : cnt ≤ buf.length) {fpos : ℤ}
    {copied : ℕ} {ret ln0 fpos' : ℤ} {xs' : List Qset}
    (h : scullWriteMain mem m n xs xs.length ln i j buf cnt fpos copied = .ok (ret, xs', ln0, fpos')) :
    ret = - ENOMEM ↔ ∃ t < writeAllocs xs ln i, mem t = false := by
  have hneed : ((ln + 1 - xs.length : ℕ) : ℤ) ≤ INT_MAX := by omega
  unfold writeAllocs
  rw [fails_add]
  unfold scullWriteMain at h
  rw [scullFollowMain_eq xs ln 0 hlen hln.le hneed] at h
  simp only [bind, Except.bind, Nat.zero_add] at h
  by_cases hall : nodesMade mem (ln + 1 - xs.length) 0 = ln + 1 - xs.length
  · have hmade : ¬ ∃ t < ln + 1 - xs.length, mem t = false := by
      rintro ⟨t, ht, hf⟩
      have hlt := (@nodesMade_lt_iff mem _ 0).2 ⟨t, ht, by rw [Nat.zero_add]; exact hf⟩
      exact absurd hall hlt.ne
    have htried : nodesTried mem (ln + 1 - xs.length) 0 = ln + 1 - xs.length := by
      unfold nodesTried
      rw [hall]
      exact Nat.min_eq_left (Nat.le_succ _)
    rw [show nodeFound mem (ln + 1 - xs.length) 0 ln = some ln from if_pos hall, htried] at h
    simp only [getD_extend] at h
    obtain ⟨d', q, k', hw, -, -, -, -, hq⟩ := qdatptrVtakeoutBytesWrite_spec mem (hb.getD ln) hi (ln + 1 - xs.length)
    rw [or_iff_right hmade, ← qdatptrVtakeoutBytesWrite_none_iff (hb.getD ln) hi _ hw]
    rw [hw] at h
    cases q with
    | none =>
      simp only [Except.ok.injEq, Prod.mk.injEq] at h
      exact iff_of_true h.1.symm rfl
    | some q =>
      have hcnt : min (cnt : ℤ) ((n : ℤ) - j) = ((min cnt (n - j) : ℕ) : ℤ) := by omega
      have hqlen := (hq q rfl).1
      obtain ⟨q', hcopy, -, -⟩ := copyToWindow_spec (show j + min cnt (n - j) ≤ q.length by omega) buf (by omega) copied
      simp only [hcnt, hcopy, Int.toNat_natCast] at h
      refine iff_of_false ?_ (by simp)
      split_ifs at h
      · simp only [Except.ok.injEq, Prod.mk.injEq] at h
        rw [← h.1]
        unfold ENOMEM
        omega
      · simp only [Except.ok.injEq, Prod.mk.injEq] at h
        rw [← h.1]
        decide
  · have hfails : ∃ t < ln + 1 - xs.length, mem t = false := by
      have hlt := lt_of_le_of_ne (@nodesMade_le mem (ln + 1 - xs.length) 0) hall
      simpa using (nodesMade_lt_iff _ 0).1 hlt
    rw [show nodeFound mem (ln + 1 - xs.length) 0 ln = none from if_neg hall] at h
    simp only [Except.ok.injEq, Prod.mk.injEq] at h
    exact iff_of_true h.1.symm (Or.inl hfails)

end

end AtsLdd.Scull
