/-
What the quantum list of a scull device stores, and what the ATS functions do to it.

`lstByte xs l i j` is byte `j` of quantum `i` of list node `l`; a missing node, a NULL array or a NULL quantum is a hole
and reads as 0. `Built m n xs` says that every array has `m` entries and every quantum `n` bytes.

- `scullFollowMain_spec`: the list is extended at its end by empty nodes, `ln_qlst` stays its length, and a node is
  returned only when the index is inside;
- `scullReadMain_spec`: the bytes delivered are those of the list, holes included;
- `scullWriteMain_spec`: the list stays built, and its bytes are the old ones with the bytes that the copy stores spliced in.
-/
import AtsLdd.Core.ByteMap
import AtsLdd.Scull.Device

namespace AtsLdd.Scull

open AtsLdd.Machine AtsLdd.ByteMap

/-! ## Bytes of the list -/

def qtmByte (q : Qtmptr) (j : ℕ) : UInt8 := (q.getD []).getD j 0

def qdatByte (d : Qdatptr) (i j : ℕ) : UInt8 := qtmByte ((d.getD []).getD i none) j

/-- byte `j` of quantum `i` of node `l`, 0 in a hole -/
def lstByte (xs : List Qset) (l i j : ℕ) : UInt8 := qdatByte (xs.getD l ⟨none⟩).data i j

/-- an array of `m` quanta of `n` bytes, as far as it is allocated -/
def QdatBuilt (m n : ℕ) (d : Qdatptr) : Prop :=
  ∀ arr, d = some arr → arr.length = m ∧ ∀ q, some q ∈ arr → q.length = n

/-- a list built with array size `m` and quantum size `n` -/
def Built (m n : ℕ) (xs : List Qset) : Prop := ∀ x ∈ xs, QdatBuilt m n x.data

theorem built_nil (m n : ℕ) : Built m n [] := by simp [Built]

theorem built_empty (m n : ℕ) : QdatBuilt m n none := by simp [QdatBuilt]

theorem Built.extend {m n : ℕ} {xs : List Qset} (h : Built m n xs) (r : ℕ) :
    Built m n (xs ++ List.replicate r ⟨none⟩) := by
  intro x hx
  rcases List.mem_append.1 hx with hx | hx
  · exact h x hx
  · rw [(List.mem_replicate.1 hx).2]; exact built_empty m n

theorem Built.getD {m n : ℕ} {xs : List Qset} (h : Built m n xs) (l : ℕ) :
    QdatBuilt m n (xs.getD l ⟨none⟩).data := by
  rw [List.getD_eq_getElem?_getD]
  cases hx : xs[l]? with
  | none => exact built_empty m n
  | some x => exact h x (List.mem_of_getElem? hx)

theorem Built.set {m n : ℕ} {xs : List Qset} (h : Built m n xs) (l : ℕ) {d : Qdatptr} (hd : QdatBuilt m n d) :
    Built m n (xs.set l ⟨d⟩) := by
  intro x hx
  rcases List.mem_or_eq_of_mem_set hx with hx | rfl
  · exact h x hx
  · exact hd

@[simp] theorem qtmByte_none (j : ℕ) : qtmByte none j = 0 := by simp [qtmByte]

@[simp] theorem qdatByte_none (i j : ℕ) : qdatByte none i j = 0 := by simp [qdatByte]

@[simp] theorem lstByte_nil (l i j : ℕ) : lstByte [] l i j = 0 := by simp [lstByte]

theorem lstByte_extend (xs : List Qset) (r l i j : ℕ) :
    lstByte (xs ++ List.replicate r ⟨none⟩) l i j = lstByte xs l i j := by
  have h : (xs ++ List.replicate r (⟨none⟩ : Qset)).getD l ⟨none⟩ = xs.getD l ⟨none⟩ := by
    simp only [List.getD_eq_getElem?_getD, List.getElem?_append, List.getElem?_replicate]
    split_ifs with h1 h2
    · rfl
    · simp [List.getElem?_eq_none (not_lt.1 h1)]
    · simp [List.getElem?_eq_none (not_lt.1 h1)]
  simp only [lstByte, h]

theorem lstByte_set (xs : List Qset) (l : ℕ) (hl : l < xs.length) (d : Qdatptr) (l' i j : ℕ) :
    lstByte (xs.set l ⟨d⟩) l' i j = if l' = l then qdatByte d i j else lstByte xs l' i j := by
  simp only [lstByte, List.getD_eq_getElem?_getD, List.getElem?_set, hl, if_true]
  split_ifs with h1 h2 h2
  · rfl
  · exact absurd h1.symm h2
  · exact absurd h2.symm h1
  · rfl

/-! ## Extending the list -/

theorem qsetlstMakeLoop_spec (mem : ℕ → Bool) (i0 : ℕ) (res : List Qset) (lnRes : ℤ) (k : ℕ) (h0 : 0 ≤ lnRes)
    (hmax : lnRes + i0 ≤ INT_MAX) :
    ∃ r ≤ i0, ∃ k', qsetlstMakeLoop mem i0 res lnRes k = (List.replicate r ⟨none⟩ ++ res, lnRes + r, k') ∧
      (r < i0 → ∃ k, mem k = false) := by
  induction i0 generalizing res lnRes k with
  | zero => exact ⟨0, le_rfl, k, by simp [qsetlstMakeLoop], fun h => absurd h (lt_irrefl 0)⟩
  | succ i0 ih =>
    rw [qsetlstMakeLoop]
    split_ifs with hk
    · push_cast at hmax
      have hw : int32 (lnRes + 1) = lnRes + 1 := int32_of_bounds (by omega) (by unfold INT_MAX at hmax; omega)
      obtain ⟨r, hr, k', h, hfail⟩ := ih (⟨none⟩ :: res) (lnRes + 1) (k + 1) (by omega) (by omega)
      refine ⟨r + 1, by omega, k', ?_, fun hlt => hfail (by omega)⟩
      rw [hw, h, List.replicate_succ', List.append_assoc]
      simp only [List.singleton_append, Prod.mk.injEq, true_and, and_true]
      push_cast; omega
    · exact ⟨0, by omega, k + 1, by simp, fun _ => ⟨k, by simpa using hk⟩⟩

/-- `qsetlst_make` returns fewer nodes than asked for only when an allocation fails -/
theorem qsetlstMake_spec (mem : ℕ → Bool) (ln0 : ℤ) (k : ℕ) (hmax : ln0 ≤ INT_MAX) :
    ∃ r ≤ ln0.toNat, ∃ k', qsetlstMake mem ln0 k = (List.replicate r ⟨none⟩, (r : ℤ), k') ∧
      (r < ln0.toNat → ∃ k, mem k = false) := by
  obtain ⟨r, hr, k', h, hfail⟩ := qsetlstMakeLoop_spec mem ln0.toNat [] 0 k le_rfl (by unfold INT_MAX at *; omega)
  exact ⟨r, hr, k', by simpa [qsetlstMake] using h, hfail⟩

theorem scullFollowLessthan_ok {xs : List Qset} {ln : ℕ} (h : ln < xs.length) (hmax : (ln : ℤ) ≤ INT_MAX) :
    scullFollowLessthan xs ln = .ok ln := by
  have hu : ulong (ln : ℤ) = ln := ulong_natCast (by unfold INT_MAX at hmax; omega)
  simp [scullFollowLessthan, hu, h]

/-- **Extending the list.** For an index below `INT_MAX`, `scull_follow_main` appends empty nodes, keeps `ln_qlst` equal
to the length, and returns the node at the index unless an allocation fails. -/
theorem scullFollowMain_spec (mem : ℕ → Bool) (xs : List Qset) (ln : ℕ) (k : ℕ) (hlen : (xs.length : ℤ) ≤ INT_MAX)
    (hln : (ln : ℤ) < INT_MAX) :
    ∃ f, scullFollowMain mem xs xs.length ln k = .ok f ∧ (∃ r, f.xs = xs ++ List.replicate r ⟨none⟩) ∧
      f.ln0 = f.xs.length ∧ (f.xs.length : ℤ) ≤ INT_MAX ∧
      (f.pm = none ∧ (∃ k, mem k = false) ∨ f.pm = some ln ∧ ln < f.xs.length) := by
  unfold scullFollowMain
  by_cases hlt : (ln : ℤ) < xs.length
  · have hnat : ln < xs.length := by omega
    rw [if_pos hlt, scullFollowLessthan_ok hnat (le_of_lt hln)]
    exact ⟨_, rfl, ⟨0, by simp⟩, rfl, hlen, Or.inr ⟨rfl, hnat⟩⟩
  · rw [if_neg hlt]
    have hdf : int32 ((ln : ℤ) - xs.length) = (ln : ℤ) - xs.length :=
      int32_of_bounds (by omega) (by unfold INT_MAX at hln; omega)
    have hdf1 : int32 ((ln : ℤ) - xs.length + 1) = (ln : ℤ) - xs.length + 1 :=
      int32_of_bounds (by omega) (by unfold INT_MAX at hln; omega)
    obtain ⟨r, hr, k', hmake, hfail⟩ := qsetlstMake_spec mem ((ln : ℤ) - xs.length + 1) k (by omega)
    have hsum : int32 ((xs.length : ℤ) + r) = (xs.length : ℤ) + r :=
      int32_of_bounds (by omega) (by unfold INT_MAX at hln; omega)
    simp only [hdf, hdf1, hmake, hsum]
    have hlen' : (xs ++ List.replicate r (⟨none⟩ : Qset)).length = xs.length + r := by simp
    by_cases hall : (r : ℤ) > (ln : ℤ) - xs.length
    · have hsub : (ln : ℤ) - xs.length = ((ln - xs.length : ℕ) : ℤ) := by omega
      have hin : ln - xs.length < (List.replicate r (⟨none⟩ : Qset)).length := by simp; omega
      rw [if_pos hall, hsub, scullFollowLessthan_ok hin (by omega)]
      refine ⟨_, rfl, ⟨r, rfl⟩, by simp, by rw [hlen']; push_cast; omega, Or.inr ⟨?_, by rw [hlen']; omega⟩⟩
      exact congrArg some (by omega)
    · rw [if_neg hall]
      exact ⟨_, rfl, ⟨r, rfl⟩, by simp, by rw [hlen']; push_cast; omega, Or.inl ⟨rfl, hfail (by omega)⟩⟩

/-! ## Reading -/

theorem qdatptrVtakeoutBytesRead_spec {m n i : ℕ} {d : Qdatptr} (hd : QdatBuilt m n d) (hi : i < m) :
    ∃ q, qdatptrVtakeoutBytesRead d i = .ok q ∧ (∀ q', q = some q' → q'.length = n) ∧
      ∀ j, qtmByte q j = qdatByte d i j := by
  cases d with
  | none => exact ⟨none, rfl, by simp, by simp⟩
  | some arr =>
    obtain ⟨hlen, hq⟩ := hd arr rfl
    have hin : i < arr.length := by omega
    refine ⟨arr[i], by simp [qdatptrVtakeoutBytesRead, hin], fun q' h => hq q' ?_, fun j => ?_⟩
    · rw [← h]; exact List.getElem_mem hin
    · simp [qdatByte, List.getD_eq_getElem?_getD, List.getElem?_eq_getElem hin]

theorem window_ok {q : List UInt8} {j cnt : ℕ} (h : j + cnt ≤ q.length) :
    window q j cnt = .ok (slice (qtmByte (some q)) j cnt) := by
  unfold window
  rw [if_pos ⟨by omega, by omega, by omega⟩]
  congr 1
  apply List.ext_getElem
  · simp; omega
  · intro k h1 h2
    have hk : k < cnt := by simpa using h2
    have hjk : j + k < q.length := by omega
    simp [qtmByte, List.getD_eq_getElem?_getD, List.getElem?_eq_getElem hjk]

theorem slice_zeros (j cnt : ℕ) : slice (qtmByte none) j cnt = List.replicate cnt 0 := by
  apply List.ext_getElem <;> simp

theorem readSource_spec {n : ℕ} {q : Qtmptr} (hq : ∀ q', q = some q' → q'.length = n) {j cnt : ℕ} (h : j + cnt ≤ n) :
    readSource q j cnt = .ok (slice (qtmByte q) j cnt) := by
  cases q with
  | none => simp only [readSource, slice_zeros, Int.toNat_natCast]
  | some q' =>
    have := hq q' rfl
    exact window_ok (by omega)

/-- **Reading a quantum.** Inside the geometry of the list, `scull_read_main` delivers the bytes of the list from offset
`j` on, up to the end of the quantum, or -EFAULT when the user copy stops early. -/
theorem scullReadMain_spec {m n : ℕ} {xs : List Qset} (hb : Built m n xs) {ln i j cnt : ℕ} (hln : ln < xs.length)
    (hmax : (ln : ℤ) ≤ INT_MAX) (hi : i < m) (hj : j < n) (fpos : ℤ) (copied : ℕ) :
    scullReadMain m n xs ln i j cnt fpos copied =
      if min cnt (n - j) ≤ copied then
        .ok (((min cnt (n - j) : ℕ) : ℤ), slice (lstByte xs ln i) j (min cnt (n - j)),
          int64 (fpos + (min cnt (n - j) : ℕ)))
      else .ok (- EFAULT, (slice (lstByte xs ln i) j (min cnt (n - j))).take copied, fpos) := by
  obtain ⟨q, hq, hqlen, hqb⟩ := qdatptrVtakeoutBytesRead_spec (hb.getD ln) hi
  have hcnt : min (cnt : ℤ) ((n : ℤ) - j) = ((min cnt (n - j) : ℕ) : ℤ) := by omega
  have hbytes : qtmByte q = lstByte xs ln i := by funext j; exact hqb j
  unfold scullReadMain
  rw [scullFollowLessthan_ok hln hmax]
  simp only [bind, Except.bind, hq, hcnt, Int.toNat_natCast]
  rw [readSource_spec hqlen (by omega), hbytes]
  by_cases hc : min cnt (n - j) ≤ copied
  · rw [if_pos hc]; simp only [Nat.sub_eq_zero_of_le hc, if_true]
  · rw [if_neg hc]
    have : ¬ (min cnt (n - j) - copied = 0) := by omega
    simp only [this, if_false]

/-! ## Writing -/

theorem qdatptrMake_spec (mem : ℕ → Bool) (k m n : ℕ) :
    QdatBuilt m n (qdatptrMake mem k m) ∧ ∀ i j, qdatByte (qdatptrMake mem k m) i j = 0 := by
  unfold qdatptrMake
  split_ifs
  · refine ⟨fun arr h => ?_, fun i j => ?_⟩
    · simp only [Option.some.injEq] at h
      subst h
      refine ⟨by simp, fun q hq => ?_⟩
      simp at hq
    · simp only [qdatByte, Option.getD_some, List.getD_eq_getElem?_getD, List.getElem?_replicate]
      split_ifs <;> simp
  · exact ⟨built_empty m n, by simp⟩

theorem kmalloc_fails {mem : ℕ → Bool} {k n : ℕ} (h : ¬ kmalloc mem k n = true) : ∃ k, mem k = false :=
  ⟨k, by simpa [kmalloc] using h⟩

theorem qtmptrVtakeoutBytesWrite_spec (mem : ℕ → Bool) (r : Qtmptr) (n k : ℕ) (hr : ∀ q, r = some q → q.length = n) :
    (∀ q, (qtmptrVtakeoutBytesWrite mem r n k).1 = some q → q.length = n) ∧
      (∀ j, qtmByte (qtmptrVtakeoutBytesWrite mem r n k).1 j = qtmByte r j) ∧
      ((qtmptrVtakeoutBytesWrite mem r n k).1 = none → ∃ k, mem k = false) := by
  cases r with
  | some q => exact ⟨hr, fun _ => rfl, fun h => absurd h (by simp [qtmptrVtakeoutBytesWrite])⟩
  | none =>
    simp only [qtmptrVtakeoutBytesWrite, qtmptrMake]
    split_ifs with hk
    · refine ⟨fun q h => ?_, fun j => ?_, by simp⟩
      · simp only [Option.some.injEq] at h; subst h; simp
      · simp only [qtmByte, Option.getD_some, Option.getD_none, List.getD_eq_getElem?_getD, List.getElem?_replicate]
        split_ifs <;> simp
    · exact ⟨by simp, by simp, fun _ => kmalloc_fails hk⟩

theorem qdatByte_set {arr : List Qtmptr} {i : ℕ} (hi : i < arr.length) (q : Qtmptr) (i' j : ℕ) :
    qdatByte (some (arr.set i q)) i' j = if i' = i then qtmByte q j else qdatByte (some arr) i' j := by
  simp only [qdatByte, Option.getD_some, List.getD_eq_getElem?_getD, List.getElem?_set, hi, if_true]
  split_ifs with h1 h2 h2
  · rfl
  · exact absurd h1.symm h2
  · exact absurd h2.symm h1
  · rfl

theorem QdatBuilt.set {m n : ℕ} {arr : List Qtmptr} (h : QdatBuilt m n (some arr)) (i : ℕ) {q : Qtmptr}
    (hq : ∀ q', q = some q' → q'.length = n) : QdatBuilt m n (some (arr.set i q)) := by
  intro arr' ha
  simp only [Option.some.injEq] at ha
  subst ha
  refine ⟨by simpa using (h arr rfl).1, fun q' hq' => ?_⟩
  rcases List.mem_or_eq_of_mem_set hq' with hq' | hq'
  · exact (h arr rfl).2 q' hq'
  · exact hq q' hq'.symm

theorem qdatptrOrMake_spec (mem : ℕ → Bool) {m n : ℕ} {d : Qdatptr} (hd : QdatBuilt m n d) (k : ℕ) :
    QdatBuilt m n (qdatptrOrMake mem d m k).1 ∧
      (∀ i j, qdatByte (qdatptrOrMake mem d m k).1 i j = qdatByte d i j) ∧
      ((qdatptrOrMake mem d m k).1 = none → ∃ k, mem k = false) := by
  cases d with
  | some arr => exact ⟨hd, fun _ _ => rfl, fun h => absurd h (by simp [qdatptrOrMake])⟩
  | none =>
    obtain ⟨h1, h2⟩ := qdatptrMake_spec mem k m n
    refine ⟨h1, fun i j => by rw [qdatByte_none]; exact h2 i j, fun h => ?_⟩
    simp only [qdatptrOrMake, qdatptrMake] at h
    split_ifs at h with hk
    exact kmalloc_fails hk

/-- the array and the quantum are made when they are missing, and hold the bytes that were there -/
theorem qdatptrVtakeoutBytesWrite_spec (mem : ℕ → Bool) {m n i : ℕ} {d : Qdatptr} (hd : QdatBuilt m n d) (hi : i < m)
    (k : ℕ) :
    ∃ d' q k', qdatptrVtakeoutBytesWrite mem d m n i k = .ok (d', q, k') ∧ QdatBuilt m n d' ∧
      (∀ i' j, qdatByte d' i' j = qdatByte d i' j) ∧ (∀ j, qtmByte q j = qdatByte d i j) ∧
      (q = none → ∃ k, mem k = false) ∧
      ∀ q', q = some q' → q'.length = n ∧ ∃ arr, d' = some arr ∧ i < arr.length := by
  unfold qdatptrVtakeoutBytesWrite
  obtain ⟨hd1, hb1, hf1⟩ := qdatptrOrMake_spec mem hd k
  generalize qdatptrOrMake mem d m k = r at hd1 hb1 hf1
  obtain ⟨d1, k1⟩ := r
  cases d1 with
  | none => exact ⟨none, none, k1, rfl, built_empty m n, hb1, fun j => by rw [← hb1]; simp, fun _ => hf1 rfl, by simp⟩
  | some arr =>
    have hin : i < arr.length := by rw [(hd1 arr rfl).1]; exact hi
    have hcur : ∀ q', arr[i] = some q' → q'.length = n := fun q' h => (hd1 arr rfl).2 q' (h ▸ List.getElem_mem hin)
    have hget : ∀ j, qtmByte arr[i] j = qdatByte (some arr) i j := by
      intro j
      simp [qdatByte, List.getD_eq_getElem?_getD, List.getElem?_eq_getElem hin]
    obtain ⟨hq1, hq2, hq3⟩ := qtmptrVtakeoutBytesWrite_spec mem arr[i] n k1 hcur
    simp only [Int.toNat_natCast, Int.natCast_nonneg, true_and, hin, dite_true]
    refine ⟨_, _, _, rfl, hd1.set i hq1, fun i' j => ?_, fun j => ?_, hq3,
      fun q' h => ⟨hq1 q' h, _, rfl, by simpa using hin⟩⟩
    · rw [qdatByte_set hin]
      split_ifs with h
      · subst h; rw [hq2, hget, hb1]
      · exact hb1 i' j
    · rw [hq2, hget, hb1]

theorem length_copyFromUser {buf : List UInt8} {cnt : ℕ} (h : cnt ≤ buf.length) (copied : ℕ) :
    (copyFromUser buf cnt copied).length = cnt := by
  unfold copyFromUser
  rw [List.length_append, List.length_take, List.length_replicate]
  omega

/-- a complete copy -/
theorem copyFromUser_full (buf : List UInt8) {cnt copied : ℕ} (h : cnt ≤ copied) :
    copyFromUser buf cnt copied = buf.take cnt := by
  unfold copyFromUser
  rw [Nat.min_eq_left h, Nat.sub_eq_zero_of_le h, List.replicate_zero, List.append_nil]

theorem copyToWindow_spec {q : List UInt8} {j cnt : ℕ} (h : j + cnt ≤ q.length) (buf : List UInt8)
    (hbuf : cnt ≤ buf.length) (copied : ℕ) :
    ∃ q', copyToWindow q j cnt buf copied = .ok q' ∧ q'.length = q.length ∧
      ∀ j', qtmByte (some q') j' = splice (qtmByte (some q)) j (copyFromUser buf cnt copied) j' := by
  unfold copyToWindow
  rw [if_pos ⟨by omega, by omega, by omega⟩]
  simp only [Int.toNat_natCast]
  have hnew := length_copyFromUser hbuf copied
  generalize copyFromUser buf cnt copied = new at hnew
  refine ⟨_, rfl, by simp; omega, fun j' => ?_⟩
  simp only [qtmByte, Option.getD_some, List.getD_eq_getElem?_getD]
  by_cases hlo : j' < j
  · rw [splice_of_not_mem (by omega), List.append_assoc, List.getElem?_append_left (by simp; omega),
      List.getElem?_take_of_lt hlo]
    simp [qtmByte, List.getD_eq_getElem?_getD]
  · by_cases hmid : j' < j + cnt
    · rw [splice_of_mem (by omega) (by omega), List.append_assoc, List.getElem?_append_right (by simp; omega),
        List.getElem?_append_left (by simp; omega), List.getElem?_eq_getElem (by simp; omega)]
      simp only [List.length_take, Option.getD_some]
      congr 1
      omega
    · rw [splice_of_not_mem (by omega), List.getElem?_append_right (by simp; omega), List.getElem?_drop]
      congr 2
      simp only [List.length_append, List.length_take]
      omega

/-- the three ways a write ends, and the bytes that it has stored; a copy that stops has stored zeros behind the bytes that
arrived -/
inductive Wrote (mem : ℕ → Bool) (n j cnt copied : ℕ) (buf : List UInt8) (fpos : ℤ) : ℤ → ℤ → List UInt8 → Prop where
  | nomem (h : ∃ k, mem k = false) : Wrote mem n j cnt copied buf fpos (- ENOMEM) fpos []
  | fault (h : copied < min cnt (n - j)) :
      Wrote mem n j cnt copied buf fpos (- EFAULT) fpos (copyFromUser buf (min cnt (n - j)) copied)
  | done (h : min cnt (n - j) ≤ copied) :
      Wrote mem n j cnt copied buf fpos (min cnt (n - j) : ℕ) (int64 (fpos + (min cnt (n - j) : ℕ)))
        (buf.take (min cnt (n - j)))

theorem Wrote.length_le {mem : ℕ → Bool} {n j cnt copied : ℕ} {buf : List UInt8} {fpos ret fpos' : ℤ} {bs : List UInt8}
    (h : Wrote mem n j cnt copied buf fpos ret fpos' bs) (hbuf : cnt ≤ buf.length) : bs.length ≤ min cnt (n - j) := by
  cases h with
  | nomem _ => exact Nat.zero_le _
  | fault _ => exact (length_copyFromUser (by omega) copied).le
  | done _ => exact List.length_take_le _ _

/-- **Writing a quantum.** Inside the geometry of the list and for an index below `INT_MAX`, `scull_write_main` keeps the
list built and `ln_qlst` its length, and changes exactly the bytes that the copy stores; a write that is done has its node
in the list. -/
theorem scullWriteMain_spec (mem : ℕ → Bool) {m n : ℕ} {xs : List Qset} (hb : Built m n xs)
    (hlen : (xs.length : ℤ) ≤ INT_MAX) {ln i j cnt : ℕ} (hln : (ln : ℤ) < INT_MAX) (hi : i < m) (hj : j < n)
    (buf : List UInt8) (hbuf : cnt ≤ buf.length) (fpos : ℤ) (copied : ℕ) :
    ∃ ret xs' fpos' bs, scullWriteMain mem m n xs xs.length ln i j buf cnt fpos copied =
        .ok (ret, xs', (xs'.length : ℤ), fpos') ∧
      Wrote mem n j cnt copied buf fpos ret fpos' bs ∧ Built m n xs' ∧ (xs'.length : ℤ) ≤ INT_MAX ∧ xs.length ≤ xs'.length ∧
      (0 ≤ ret → ln < xs'.length) ∧
      ∀ l i' j', lstByte xs' l i' j' =
        if l = ln ∧ i' = i then splice (lstByte xs ln i) j bs j' else lstByte xs l i' j' := by
  obtain ⟨f, hf, ⟨r, hfx⟩, hf0, hflen, hpm⟩ := scullFollowMain_spec mem xs ln 0 hlen hln
  have hfb : Built m n f.xs := by rw [hfx]; exact hb.extend r
  have hgrow : xs.length ≤ f.xs.length := by rw [hfx]; simp
  have hfbyte : ∀ l i' j', lstByte f.xs l i' j' = lstByte xs l i' j' := by
    intro l i' j'; rw [hfx]; exact lstByte_extend xs r l i' j'
  unfold scullWriteMain
  simp only [hf, bind, Except.bind]
  rcases hpm with ⟨hpm, hfail⟩ | ⟨hpm, hin⟩
  · -- no node: out of memory
    rw [hpm, hf0]
    refine ⟨_, _, _, [], rfl, .nomem hfail, hfb, hflen, hgrow, fun h => absurd h (by decide), fun l i' j' => ?_⟩
    simp only [splice_nil, hfbyte]
    split_ifs with h
    · rw [h.1, h.2]
    · rfl
  · rw [hpm]
    obtain ⟨d', q, k', hw, hd', hdb, hqb, hqfail, hq⟩ := qdatptrVtakeoutBytesWrite_spec mem (hfb.getD ln) hi f.k
    simp only [hw]
    cases q with
    | none =>
      -- no array or no quantum: out of memory
      simp only
      refine ⟨- ENOMEM, f.xs.set ln ⟨d'⟩, fpos, [], by simp [hf0], .nomem (hqfail rfl), hfb.set ln hd', by simpa using hflen,
        by simpa using hgrow, fun h => absurd h (by decide), fun l i' j' => ?_⟩
      rw [lstByte_set _ _ hin]
      simp only [splice_nil]
      by_cases hl : l = ln
      · subst hl
        simp only [if_true, hdb, true_and]
        have hh : qdatByte (f.xs.getD l ⟨none⟩).data i' j' = lstByte xs l i' j' := hfbyte l i' j'
        rw [hh]
        split_ifs with h
        · rw [h]
        · rfl
      · simp [hl, hfbyte]
    | some q =>
      obtain ⟨hqlen, arr, rfl, harr⟩ := hq q rfl
      have hcnt : min (cnt : ℤ) ((n : ℤ) - j) = ((min cnt (n - j) : ℕ) : ℤ) := by omega
      have hfit : j + min cnt (n - j) ≤ q.length := by omega
      obtain ⟨q', hcopy, hq'len, hq'b⟩ := copyToWindow_spec hfit buf (by omega) copied
      simp only [hcnt, hcopy, Int.toNat_natCast, putQuantum, Option.map_some]
      have hqb' : ∀ q0, (some q' : Qtmptr) = some q0 → q0.length = n := by
        intro q0 h; simp only [Option.some.injEq] at h; subst h; omega
      have hbuilt' : Built m n (f.xs.set ln ⟨some (arr.set i (some q'))⟩) := hfb.set ln (hd'.set i hqb')
      have hbytes : ∀ l i' j', lstByte (f.xs.set ln ⟨some (arr.set i (some q'))⟩) l i' j' =
          if l = ln ∧ i' = i then splice (lstByte xs ln i) j (copyFromUser buf (min cnt (n - j)) copied) j'
          else lstByte xs l i' j' := by
        intro l i' j'
        rw [lstByte_set _ _ hin]
        by_cases hl : l = ln
        · subst hl
          rw [if_pos rfl, qdatByte_set harr]
          have hold : ∀ i' j', qdatByte (some arr) i' j' = lstByte xs l i' j' := by
            intro i' j'; rw [hdb]; exact hfbyte l i' j'
          by_cases hi' : i' = i
          · subst hi'
            have hcur : qtmByte (some q) = lstByte xs l i' := by
              funext j''; rw [hqb]; exact hfbyte l i' j''
            simp only [and_self, if_true, hq'b, hcur]
          · simp [hi', hold]
        · simp [hl, hfbyte]
      by_cases hfull : min cnt (n - j) ≤ copied
      · have h0 : min cnt (n - j) - copied = 0 := Nat.sub_eq_zero_of_le hfull
        simp only [h0, if_true]
        rw [copyFromUser_full buf hfull] at hbytes
        exact ⟨_, _, _, _, by simp [hf0], .done hfull, hbuilt', by simpa using hflen,
          by simpa using hgrow, fun _ => by simpa using hin, hbytes⟩
      · have h0 : ¬ (min cnt (n - j) - copied = 0) := by omega
        simp only [h0, if_false]
        exact ⟨_, _, _, _, by simp [hf0], .fault (by omega), hbuilt', by simpa using hflen,
          by simpa using hgrow, fun h => absurd h (by decide), hbytes⟩

end AtsLdd.Scull
