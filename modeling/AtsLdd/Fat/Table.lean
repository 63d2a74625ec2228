/-
The FAT of a volume as an array of 28-bit values, and as a table of links.

- `fatVal_fatPut`, `fatTop_fatPut`: a store sets the value of one entry, and keeps the top 4 bits of every word;
- `EqFat`: two volumes with the same first FAT;
- `table_fatPut`: a store to an entry is an update of the table;
- `path_inRange`, `path_length_le`: a chain of the table stays in the volume and is no longer than it;
- `nth_path`, `path_end`: a walk along a chain stays on it, and can stop at its last cluster only.
-/
import AtsLdd.Core.LinkTable
import AtsLdd.Fat.Entry
import AtsLdd.Fat.Walk

namespace AtsLdd.Fat

open AtsLdd.Machine AtsLdd.LinkTable AtsLdd.Chain

/-! ## Values -/

/-- the word of entry `c` -/
def fatWord (sb : FatSb) (vol : Vol) (c : ℤ) : ℕ := le32 (vol (fatEntBlocknr sb c).2) (fatEntBlocknr sb c).1

/-- the 28-bit value of entry `c` -/
def fatVal (sb : FatSb) (vol : Vol) (c : ℤ) : ℤ := (fatWord sb vol c % 2 ^ 28 : ℕ)

/-- the top 4 bits of the word of entry `c` -/
def fatTop (sb : FatSb) (vol : Vol) (c : ℤ) : ℕ := fatWord sb vol c / 2 ^ 28

theorem fatLink_eq (sb : FatSb) (vol : Vol) (c : ℤ) : fatLink sb vol c = readBack (fatVal sb vol c) := rfl

theorem readBack_eq_free {v : ℤ} : readBack v = FAT_ENT_FREE ↔ v = FAT_ENT_FREE := by
  unfold readBack
  split_ifs with h
  · unfold FAT_ENT_EOF FAT_ENT_FREE BAD_FAT32 at *
    omega
  · rfl

/-- an entry reads as free exactly when its value is 0 -/
theorem fatLink_eq_free {sb : FatSb} {vol : Vol} {c : ℤ} : fatLink sb vol c = FAT_ENT_FREE ↔ fatVal sb vol c = FAT_ENT_FREE := by
  rw [fatLink_eq]
  exact readBack_eq_free

/-- the word of an entry after a store -/
theorem fatWord_fatPut {sb : FatSb} {vol : Vol} {c : ℤ} (hc : InRange sb c) {new : ℤ} (h : Storable new) {d : ℤ}
    (hd : InRange sb d) :
    fatWord sb (fatPut sb vol c new) d =
      if d = c then fatWord sb vol d / 2 ^ 28 * 2 ^ 28 + new.toNat else fatWord sb vol d := by
  unfold fatWord fatPut
  by_cases hdc : d = c
  · rw [if_pos hdc, hdc, Function.update_self]
    exact le32_fat32EntPut _ _ h
  · rw [if_neg hdc]
    by_cases hb : (fatEntBlocknr sb d).2 = (fatEntBlocknr sb c).2
    · rw [hb, Function.update_self]
      exact le32_setLe32_of_ne _ _ (fatEntBlocknr_ne hc hd (fun h => hdc h.symm) hb)
    · rw [Function.update_of_ne hb]

/-- **A store sets one value.** -/
theorem fatVal_fatPut {sb : FatSb} {vol : Vol} {c : ℤ} (hc : InRange sb c) {new : ℤ} (h : Storable new) {d : ℤ}
    (hd : InRange sb d) : fatVal sb (fatPut sb vol c new) d = if d = c then new else fatVal sb vol d := by
  unfold fatVal
  rw [fatWord_fatPut hc h hd]
  obtain ⟨h0, h1⟩ := h
  by_cases hdc : d = c
  · rw [if_pos hdc, if_pos hdc]
    omega
  · rw [if_neg hdc, if_neg hdc]

/-- **A store keeps the top bits** of every word. -/
theorem fatTop_fatPut {sb : FatSb} {vol : Vol} {c : ℤ} (hc : InRange sb c) {new : ℤ} (h : Storable new) {d : ℤ}
    (hd : InRange sb d) : fatTop sb (fatPut sb vol c new) d = fatTop sb vol d := by
  unfold fatTop
  rw [fatWord_fatPut hc h hd]
  obtain ⟨h0, h1⟩ := h
  split_ifs with hdc
  · omega
  · rfl

/-- the volumes have the same first FAT -/
def EqFat (sb : FatSb) (vol vol' : Vol) : Prop := ∀ b, InFat sb b → vol' b = vol b

theorem EqFat.refl (sb : FatSb) (vol : Vol) : EqFat sb vol vol := fun _ _ => rfl

theorem EqFat.trans {sb : FatSb} {v1 v2 v3 : Vol} (h1 : EqFat sb v1 v2) (h2 : EqFat sb v2 v3) : EqFat sb v1 v3 :=
  fun b hb => (h2 b hb).trans (h1 b hb)

theorem EqFat.fatPut {sb : FatSb} {vol vol' : Vol} (h : EqFat sb vol vol') {c : ℤ} (hc : InRange sb c) (new : ℤ) :
    EqFat sb (fatPut sb vol c new) (fatPut sb vol' c new) := by
  intro b hb
  unfold Fat.fatPut
  rw [h _ (fatEntBlocknr_inFat hc)]
  simp only [Function.update_apply]
  split
  · rfl
  · exact h b hb

theorem EqFat.word {sb : FatSb} {vol vol' : Vol} (h : EqFat sb vol vol') {c : ℤ} (hc : InRange sb c) :
    fatWord sb vol' c = fatWord sb vol c := by
  unfold fatWord
  rw [h _ (fatEntBlocknr_inFat hc)]

theorem EqFat.val {sb : FatSb} {vol vol' : Vol} (h : EqFat sb vol vol') {c : ℤ} (hc : InRange sb c) :
    fatVal sb vol' c = fatVal sb vol c := by
  unfold fatVal
  rw [h.word hc]

theorem EqFat.top {sb : FatSb} {vol vol' : Vol} (h : EqFat sb vol vol') {c : ℤ} (hc : InRange sb c) :
    fatTop sb vol' c = fatTop sb vol c := by
  unfold fatTop
  rw [h.word hc]

/-! ## Links -/

/-- what a link of the FAT says -/
def toLink (v : ℤ) : Link ℤ := if v = FAT_ENT_FREE then .free else if v = FAT_ENT_EOF then .last else .next v

/-- the FAT as a table; a number outside the volume is no place of it -/
def table (sb : FatSb) (vol : Vol) (c : ℤ) : Link ℤ := if InRange sb c then toLink (fatLink sb vol c) else .free

theorem toLink_readBack_eof : toLink (readBack FAT_ENT_EOF) = .last := by decide

theorem toLink_readBack_free : toLink (readBack FAT_ENT_FREE) = .free := by decide

/-- the number that is also the bad mark is read back as the end of a chain -/
theorem toLink_readBack_bad : toLink (readBack BAD_FAT32) = .last := by decide

theorem InRange.le_bad {sb : FatSb} {c : ℤ} (h : InRange sb c) : c ≤ BAD_FAT32 := by
  obtain ⟨k, rfl, -, hk⟩ := inRange_natCast h
  have hmax := sb.maxCluster_max
  unfold MAX_FAT32 at hmax
  unfold BAD_FAT32
  omega

theorem InRange.pos {sb : FatSb} {c : ℤ} (h : InRange sb c) : 0 < c := lt_of_lt_of_le (by decide) h.1

/-- a cluster of the volume is read back as a link to it -/
theorem toLink_readBack {sb : FatSb} {c : ℤ} (h : InRange sb c) (hbad : c ≠ BAD_FAT32) : toLink (readBack c) = .next c := by
  have hlt := lt_of_le_of_ne h.le_bad hbad
  have heof : c ≠ FAT_ENT_EOF := by
    unfold BAD_FAT32 at hlt
    unfold FAT_ENT_EOF
    omega
  have hfree : c ≠ FAT_ENT_FREE := h.pos.ne'
  rw [readBack_of_lt hlt, toLink, if_neg hfree, if_neg heof]

section
variable {sb : FatSb} {vol : Vol} {a c : ℤ} {l : List ℤ}

theorem table_of_inRange (h : InRange sb c) : table sb vol c = toLink (fatLink sb vol c) := if_pos h

theorem table_eq_free (h : InRange sb c) : table sb vol c = .free ↔ fatLink sb vol c = FAT_ENT_FREE := by
  rw [table_of_inRange h, toLink]
  split_ifs with h1 h2 <;> simp_all

theorem table_eq_last (h : InRange sb c) : table sb vol c = .last ↔ fatLink sb vol c = FAT_ENT_EOF := by
  rw [table_of_inRange h, toLink]
  split_ifs with h1 h2
  · rw [h1]
    decide
  · simp [h2]
  · simp [h2]

/-- the successor of a cluster is what the table says -/
theorem table_eq_next (h : InRange sb c) {d : ℤ} : table sb vol c = .next d ↔ fatSucc sb vol c = some d := by
  rw [table_of_inRange h, toLink, fatSucc]
  by_cases h1 : fatLink sb vol c = FAT_ENT_FREE
  · simp [h1, IsLink]
  by_cases h2 : fatLink sb vol c = FAT_ENT_EOF
  · simp [h2, IsLink, show FAT_ENT_EOF ≠ FAT_ENT_FREE by decide]
  · simp [h1, h2, IsLink]

/-- **A store is an update of the table.** -/
theorem table_fatPut (hc : InRange sb c) {new : ℤ} (h : Storable new) :
    table sb (fatPut sb vol c new) = Function.update (table sb vol) c (toLink (readBack new)) := by
  funext d
  by_cases hd : InRange sb d
  · rw [table_of_inRange hd, fatLink_fatPut hc h hd]
    by_cases hdc : d = c
    · rw [if_pos hdc, hdc, Function.update_self]
    · rw [if_neg hdc, Function.update_of_ne hdc, table_of_inRange hd]
  · have hdc : d ≠ c := fun he => hd (he ▸ hc)
    rw [Function.update_of_ne hdc, table, table, if_neg hd, if_neg hd]

theorem EqFat.table {vol vol' : Vol} (h : EqFat sb vol vol') : table sb vol' = table sb vol := by
  funext d
  unfold Fat.table
  by_cases hd : InRange sb d
  · rw [if_pos hd, if_pos hd, fatLink_congr h hd]
  · rw [if_neg hd, if_neg hd]

/-! ## Chains -/

theorem path_inRange (p : Path (table sb vol) a l) : ∀ x ∈ l, InRange sb x := by
  intro x hx
  by_contra hout
  exact p.not_free hx (if_neg hout)

/-- a chain has at most as many clusters as the volume -/
theorem path_length_le (p : Path (table sb vol) a l) : l.length ≤ sb.maxCluster := by
  have hsub : l.toFinset ⊆ Finset.Ico (0 : ℤ) sb.maxCluster := by
    intro x hx
    have hin := path_inRange p x (List.mem_toFinset.1 hx)
    exact Finset.mem_Ico.2 ⟨hin.pos.le, hin.2⟩
  have hcard := Finset.card_le_card hsub
  rwa [List.toFinset_card_of_nodup p.nodup, Int.card_Ico, Int.sub_zero, Int.toNat_natCast] at hcard

/-- the cluster at an index of a chain -/
theorem nth_path (p : Path (table sb vol) a l) : ∀ k : ℕ, nth (fatSucc sb vol) a k = l[k]? := by
  induction p with
  | @last a h =>
    intro k
    have hin : InRange sb a := path_inRange (.last h) a (List.mem_singleton.2 rfl)
    cases k with
    | zero => rfl
    | succ k =>
      have hend : fatSucc sb vol a = none := fatSucc_end fun hlink => hlink.2 ((table_eq_last hin).1 h)
      rw [nth_head, hend]
      rfl
  | @next a b l h p ih =>
    intro k
    have hin : InRange sb a := path_inRange (.next h p) a List.mem_cons_self
    cases k with
    | zero => rfl
    | succ k =>
      rw [nth_head, (table_eq_next hin).1 h, Option.bind_some, ih k]
      rfl

/-- where a walk along a chain meets no link, it is at the last cluster, which holds the EOF mark -/
theorem path_end (p : Path (table sb vol) a l) {d : ℤ} (hd : d ∈ l) (h : ¬ IsLink (fatLink sb vol d)) :
    d = l.getLast p.ne_nil ∧ fatLink sb vol d = FAT_ENT_EOF := by
  have hin := path_inRange p d hd
  have hfree : fatLink sb vol d ≠ FAT_ENT_FREE := fun hf => p.not_free hd ((table_eq_free hin).2 hf)
  have heof : fatLink sb vol d = FAT_ENT_EOF := by
    by_contra hne
    exact h ⟨hfree, hne⟩
  exact ⟨p.last_of_mem hd ((table_eq_last hin).2 heof), heof⟩

end

end AtsLdd.Fat
