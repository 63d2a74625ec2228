/-
A directory as a row of files: the slots of a file, with a row of slots for its long name before its entry or without one, and
entries that are skipped.

- `FileRow.clear`: a free entry is in no file, so files can be put where entries are free, and become free;
- `fatSearchLong_files`: in such a directory `fat_search_long` finds the first file with the name.
-/
import AtsLdd.Core.Division
import AtsLdd.Vfat.SearchLong

namespace AtsLdd.Vfat

open AtsLdd.Fat AtsLdd.Division

/-- an entry that is no part of a file: it is free, or a volume label -/
def Skipped (de : Buf) : Prop := IsFree de ∨ entAttr de ≠ ATTR_EXT ∧ entAttr de &&& ATTR_VOLUME ≠ 0

/-- the `k` entries from entry `i` on are those of a file: its entry is the last of them, and those before it are the slots of
a long name for it -/
structure FileRow (es : ℕ → Buf) (i k : ℕ) : Prop where
  pos : 0 < k
  live : Live (es (i + (k - 1)))
  row : k - 1 ≠ 0 → LongRow es i (k - 1)

/-- the entries from entry `i` on are the files of a list, with entries between them that are skipped -/
abbrev Files (es : ℕ → Buf) (i n : ℕ) (fs : List (ℕ × ℕ)) : Prop := Divided (fun x => Skipped (es x)) (FileRow es) i n fs

/-- the name is that of a file -/
def Named (sbi : VfatSb) (es : ℕ → Buf) (name : List UInt8) (f : ℕ × ℕ) : Prop := NameIs sbi es name f.1 (f.2 - 1)

section
variable {σ : Type*} {rd : EntryReader σ} {At : ℕ → σ → Prop} {Over : σ → Prop} {es es' : ℕ → Buf} {n i k a x : ℕ} {z : σ} {sbi : VfatSb}
  {name : List UInt8} {fs gs hs : List (ℕ × ℕ)} {f : ℕ × ℕ} {de : Buf}

/-! ## Entries -/

theorem Live.attr (h : Live de) : entAttr de ≠ ATTR_EXT := by
  intro he
  have hvol := h.2
  rw [he] at hvol
  exact absurd hvol (by decide)

/-- a slot of a row is not free -/
theorem LongRow.not_free {m t : ℕ} (h : LongRow es i m) (ht : t < m) : ¬ IsFree (es (i + t)) := by
  have hid := h.row.id t ht
  have hle := h.le
  rintro (h0 | h0) <;> rw [h0] at hid
  · have hzero : ((0 : UInt8) &&& ~~~ 0x40).toNat = 0 := by decide
    omega
  · have hdel : (DELETED_FLAG &&& ~~~ 0x40).toNat = 165 := by decide
    omega

theorem FileRow.not_free (h : FileRow es i k) (h1 : i ≤ x) (h2 : x < i + k) : ¬ IsFree (es x) := by
  obtain ⟨t, rfl⟩ := Nat.exists_eq_add_of_le h1
  rcases Nat.lt_or_ge t (k - 1) with hlt | hge
  · exact (h.row (by omega)).not_free hlt
  · rw [show t = k - 1 by omega]
    exact h.live.1

/-- **The entry of a file** is the last of its entries. -/
theorem Files.of_live (h : Files es 0 n fs) (hx : x < n) (hlive : Live (es x)) : ∃ f ∈ fs, x = f.1 + (f.2 - 1) := by
  rcases h.cell (Nat.zero_le x) hx with hskip | ⟨f, hf, h1, h2⟩
  · rcases hskip with hfree | ⟨-, hvol⟩
    · exact absurd hfree hlive.1
    · exact absurd hlive.2 hvol
  obtain ⟨-, -, -, hfile⟩ := h.item_of_mem hf
  obtain ⟨t, rfl⟩ := Nat.exists_eq_add_of_le h1
  refine ⟨f, hf, ?_⟩
  rcases Nat.lt_or_ge t (f.2 - 1) with hlt | hge
  · exact absurd ((hfile.row (by omega)).row.attr t hlt) hlive.attr
  · rw [show t = f.2 - 1 by omega]

/-- **A free entry is in no file.** -/
theorem FileRow.clear (hk : 0 < k) (hfree : ∀ x, a ≤ x → x < a + k → IsFree (es x)) : Clear (FileRow es) a k := by
  intro x m hx
  by_contra hnot
  rw [not_or, not_le, not_le] at hnot
  have hpos := hx.pos
  exact hx.not_free (le_max_left x a) (by omega) (hfree (max x a) (le_max_right x a) (by omega))

/-! ## Entries that stay -/

theorem LongRow.congr {m : ℕ} (h : LongRow es i m) (heq : ∀ x, i ≤ x → x ≤ i + m → es' x = es x) : LongRow es' i m where
  pos := h.pos
  le := h.le
  row := {
    first := by
      rw [heq i le_rfl (Nat.le_add_right i m)]
      exact h.row.first
    id := fun t ht => by
      rw [heq (i + t) (by omega) (by omega)]
      exact h.row.id t ht
    attr := fun t ht => by
      rw [heq (i + t) (by omega) (by omega)]
      exact h.row.attr t ht
    sum := fun t ht => by
      rw [heq (i + t) (by omega) (by omega), heq (i + m) (by omega) le_rfl]
      exact h.row.sum t ht }

theorem FileRow.congr (h : FileRow es i k) (heq : ∀ x, i ≤ x → x < i + k → es' x = es x) : FileRow es' i k where
  pos := h.pos
  live := by
    have hpos := h.pos
    rw [heq _ (by omega) (by omega)]
    exact h.live
  row := fun hk => (h.row hk).congr fun x h1 h2 => heq x h1 (by omega)

/-- the characters of a row that stays -/
theorem rowUni_congr {m : ℕ} (hm : 0 < m) (heq : ∀ x, i ≤ x → x < i + m → es' x = es x) : rowUni es' i m = rowUni es i m := by
  unfold rowUni
  apply List.map_congr_left
  intro p hp
  have hp' : p < 13 * m + 1 := List.mem_range.1 hp
  unfold rowChar
  by_cases hend : p = 13 * m
  · rw [if_pos hend, if_pos hend]
  rw [if_neg hend, if_neg hend, heq (i + (m - 1 - p / 13)) (by omega) (by omega)]
  by_cases hq : p / 13 = 0
  · rw [if_neg (by omega), if_neg (by omega)]
  · rw [heq (i + (m - p / 13)) (by omega) (by omega)]

theorem Named.congr (hf : 0 < f.2) (heq : ∀ x, f.1 ≤ x → x < f.1 + f.2 → es' x = es x) :
    Named sbi es' name f ↔ Named sbi es name f := by
  unfold Named NameIs
  rw [heq (f.1 + (f.2 - 1)) (by omega) (by omega)]
  by_cases hm : f.2 - 1 = 0
  · rw [hm]
    simp
  · rw [rowUni_congr (Nat.pos_of_ne_zero hm) fun x h1 h2 => heq x h1 (by omega)]

/-! ## The search -/

/-- an entry that is skipped -/
theorem nextRecord_skipped (hrd : rd.Reads At Over es n) (fresh : ℕ → UInt16) (hat : At (i + 1) z) (hskip : Skipped (es i))
    (fuel : ℕ) (unicode : Option (ℕ → UInt16)) : ∃ u,
    nextRecord rd n (some fresh) (fuel + 1) false z unicode = nextRecord rd n (some fresh) fuel true z u := by
  rw [nextRecord, if_neg Bool.false_ne_true]
  simp only
  rw [hrd.ent hat]
  by_cases hdel : es i 0 = DELETED_FLAG
  · rw [if_pos hdel]
    exact ⟨unicode, rfl⟩
  rw [if_neg hdel]
  by_cases hvol : entAttr (es i) ≠ ATTR_EXT ∧ entAttr (es i) &&& ATTR_VOLUME ≠ 0
  · rw [if_pos hvol]
    exact ⟨unicode, rfl⟩
  have hfree : IsFree (es i) := hskip.resolve_right hvol
  rw [if_neg hvol]
  by_cases hattr : entAttr (es i) = ATTR_EXT
  · -- it is taken for a slot that is not the first one of a name
    have hzero : es i 0 = 0 := hfree.resolve_right hdel
    have hmark : es i 0 &&& 0x40 = 0 := by
      rw [hzero]
      decide
    rw [if_neg (not_and_of_not_left _ (not_not.2 hattr)), if_pos hattr]
    have hparse : ∃ u, fatParseLong rd n (some fresh) z unicode 0 = ⟨.invalid, z, some u, 0⟩ := by
      unfold fatParseLong parseStart
      cases unicode with
      | none => exact ⟨fresh, by simp only [Option.none_or]; rw [hrd.ent hat, if_pos hmark]⟩
      | some u => exact ⟨u, by simp only [Option.some_or]; rw [hrd.ent hat, if_pos hmark]⟩
    obtain ⟨u, hu⟩ := hparse
    rw [hu]
    exact ⟨some u, rfl⟩
  · rw [if_pos ⟨hattr, hfree⟩]
    exact ⟨unicode, rfl⟩

/-- the first slot of a file -/
theorem nextRecord_file (hrd : rd.Reads At Over es n) (fresh : ℕ → UInt16) (hat : At (i + 1) z) (hfile : FileRow es i k)
    (hle : i + k ≤ n) (fuel : ℕ) (unicode : Option (ℕ → UInt16)) : ∃ z' u,
    nextRecord rd n (some fresh) (fuel + 1) false z unicode = .record z' u (k - 1) ∧ At (i + k) z' ∧
      (k - 1 ≠ 0 → ∃ v, u = some v ∧ ∀ p ≤ 13 * (k - 1), v p = rowChar es i (k - 1) p) := by
  have hpos := hfile.pos
  have hlast : i + (k - 1) + 1 = i + k := by omega
  rw [nextRecord, if_neg Bool.false_ne_true]
  simp only
  rw [hrd.ent hat]
  have hfree : ¬ IsFree (es i) := hfile.not_free le_rfl (by omega)
  have hdel : es i 0 ≠ DELETED_FLAG := fun h => hfree (Or.inr h)
  rw [if_neg hdel]
  by_cases hk : k - 1 = 0
  · have hlive := hfile.live
    rw [hk, Nat.add_zero] at hlive
    rw [if_neg fun h => h.2 hlive.2, if_neg fun h => hfree h.2, if_neg hlive.attr, hk]
    obtain rfl : k = 1 := by omega
    exact ⟨z, unicode, rfl, hat, fun h => absurd rfl h⟩
  · have hrow := hfile.row hk
    have hattr : entAttr (es i) = ATTR_EXT := hrow.row.attr 0 hrow.pos
    obtain ⟨z', u, hparse, hat', hchars⟩ := fatParseLong_row hrd hrow (by omega) hfile.live hat fresh unicode 0
    rw [if_neg (not_and_of_not_left _ (not_not.2 hattr)), if_neg (not_and_of_not_left _ (not_not.2 hattr)), if_pos hattr, hparse]
    rw [hlast] at hat'
    exact ⟨z', some u, rfl, hat', fun _ => ⟨u, rfl, hchars⟩⟩

/-- **The next file** of a directory. -/
theorem nextRecord_files (hrd : rd.Reads At Over es n) (fresh : ℕ → UInt16) (h : Files es i n fs) :
    ∀ {z : σ} (unicode : Option (ℕ → UInt16)) {fuel : ℕ}, At i z → n - i < fuel →
      (fs = [] ∧ ∃ z', nextRecord rd n (some fresh) fuel true z unicode = .eof z' ∧ Over z') ∨
      ∃ f gs z' u, fs = f :: gs ∧ Files es (f.1 + f.2) n gs ∧
        nextRecord rd n (some fresh) fuel true z unicode = .record z' u (f.2 - 1) ∧ At (f.1 + f.2) z' ∧
        (f.2 - 1 ≠ 0 → ∃ v, u = some v ∧ ∀ p ≤ 13 * (f.2 - 1), v p = rowChar es f.1 (f.2 - 1) p) := by
  induction h with
  | nil i =>
    intro z unicode fuel hat hfuel
    obtain ⟨fuel, rfl⟩ : ∃ x, fuel = x + 1 := ⟨fuel - 1, by omega⟩
    obtain ⟨z', hget, hover⟩ := hrd.last hat le_rfl
    exact Or.inl ⟨rfl, z', nextRecord_end hget _ _ _ _, hover⟩
  | @blank i n fs cell rest ih =>
    intro z unicode fuel hat hfuel
    have hlt : i < n := rest.le
    obtain ⟨fuel, rfl⟩ : ∃ x, fuel = x + 1 := ⟨fuel - 1, by omega⟩
    obtain ⟨z', hget, hat'⟩ := hrd.next hat hlt
    obtain ⟨u, hskip⟩ := nextRecord_skipped hrd fresh hat' cell fuel unicode
    rw [nextRecord_get hget, hskip]
    exact ih hrd u hat' (by omega)
  | @item i k n fs pos item rest ih =>
    intro z unicode fuel hat hfuel
    have hle : i + k ≤ n := rest.le
    obtain ⟨fuel, rfl⟩ : ∃ x, fuel = x + 1 := ⟨fuel - 1, by omega⟩
    obtain ⟨z', hget, hat'⟩ := hrd.next hat (by omega)
    obtain ⟨z'', u, hrec, hat'', hchars⟩ := nextRecord_file hrd fresh hat' item hle fuel unicode
    rw [nextRecord_get hget, hrec]
    exact Or.inr ⟨(i, k), fs, z'', u, rfl, rest, rfl, hat'', hchars⟩

/-- the comparison of the names of a file -/
theorem compare_iff (hrd : rd.Reads At Over es n) {z : σ} {u : Option (ℕ → UInt16)} (hfile : FileRow es f.1 f.2)
    (hat : At (f.1 + f.2) z)
    (hchars : f.2 - 1 ≠ 0 → ∃ v, u = some v ∧ ∀ p ≤ 13 * (f.2 - 1), v p = rowChar es f.1 (f.2 - 1) p) :
    Named sbi es name f ↔ shortUni sbi (rd.ent z) ≠ [] ∧ (fatNameMatch sbi name (shortName sbi (rd.ent z)) = true ∨
      f.2 - 1 ≠ 0 ∧ fatNameMatch sbi name (longName sbi (u.getD fun _ => 0)) = true) := by
  have hpos := hfile.pos
  have hent : rd.ent z = es (f.1 + (f.2 - 1)) := hrd.ent (by rwa [show f.1 + (f.2 - 1) + 1 = f.1 + f.2 by omega])
  unfold Named NameIs
  rw [hent]
  by_cases hk : f.2 - 1 = 0
  · simp only [hk, ne_eq, not_true_eq_false, false_and, or_false]
  · obtain ⟨v, rfl, hv⟩ := hchars hk
    rw [Option.getD_some, longName_row (hfile.row hk).le hv]

/-- **The search finds the first file with the name**, from any place between two files on. -/
theorem searchLongLoop_files (hrd : rd.Reads At Over es n) (fresh : ℕ → UInt16) (fuel : ℕ) :
    ∀ {i : ℕ} {fs : List (ℕ × ℕ)} {z : σ} (unicode : Option (ℕ → UInt16)), Files es i n fs → At i z → fs.length < fuel →
      ((∀ f ∈ fs, ¬ Named sbi es name f) ∧ ∃ z',
        searchLongLoop rd sbi n (some fresh) name fuel z unicode = ⟨- ENOENT, z', 0⟩ ∧ Over z') ∨
      ∃ gs f hs z', fs = gs ++ f :: hs ∧ (∀ g ∈ gs, ¬ Named sbi es name g) ∧ Named sbi es name f ∧
        searchLongLoop rd sbi n (some fresh) name fuel z unicode = ⟨0, z', f.2⟩ ∧ At (f.1 + f.2) z' := by
  induction fuel with
  | zero => exact fun _ _ _ h => absurd h (Nat.not_lt_zero _)
  | succ fuel ih =>
    intro i fs z unicode hfiles hat hfuel
    rw [searchLongLoop]
    rcases nextRecord_files hrd fresh hfiles unicode hat (show n - i < 2 * n + 2 by omega) with
      ⟨rfl, z', hrec, hover⟩ | ⟨f, fs, z', u, rfl, hrest, hrec, hat', hchars⟩
    · rw [hrec]
      exact Or.inl ⟨fun f hf => absurd hf List.not_mem_nil, z', rfl, hover⟩
    obtain ⟨-, -, hpos, hfile⟩ := hfiles.item_of_mem List.mem_cons_self
    have hcmp : Named sbi es name f ↔ _ := compare_iff hrd hfile hat' hchars
    rw [hrec]
    simp only
    by_cases hnamed : Named sbi es name f
    · obtain ⟨hnil, hmatch⟩ := hcmp.1 hnamed
      refine Or.inr ⟨[], f, fs, z', rfl, fun g hg => absurd hg List.not_mem_nil, hnamed, ?_, hat'⟩
      rw [if_neg hnil, Nat.sub_add_cancel hpos]
      by_cases hshort : fatNameMatch sbi name (shortName sbi (rd.ent z')) = true
      · rw [if_pos hshort]
      · rw [if_neg hshort, if_pos (hmatch.resolve_left hshort)]
    · -- the search goes on behind the file
      have hnext : searchLongLoop rd sbi n (some fresh) name (fuel + 1) z unicode =
          searchLongLoop rd sbi n (some fresh) name fuel z' u := by
        rw [searchLongLoop, hrec]
        simp only
        by_cases hnil : shortUni sbi (rd.ent z') = []
        · rw [if_pos hnil]
        · rw [if_neg hnil, if_neg fun h => hnamed (hcmp.2 ⟨hnil, Or.inl h⟩),
            if_neg fun h => hnamed (hcmp.2 ⟨hnil, Or.inr h⟩)]
      rw [searchLongLoop, hrec] at hnext
      simp only at hnext
      rw [hnext]
      rw [List.length_cons] at hfuel
      rcases ih u hrest hat' (by omega) with ⟨hnone, hloop⟩ | ⟨gs, g, hs, z'', rfl, hgs, hg, hloop, hat''⟩
      · refine Or.inl ⟨fun g hg => ?_, hloop⟩
        rcases List.mem_cons.1 hg with rfl | hg
        · exact hnamed
        · exact hnone g hg
      · refine Or.inr ⟨f :: gs, g, hs, z'', rfl, fun x hx => ?_, hg, hloop, hat''⟩
        rcases List.mem_cons.1 hx with rfl | hx
        · exact hnamed
        · exact hgs x hx

/-- **`fat_search_long` finds the first file with the name.** -/
theorem fatSearchLong_files (hrd : rd.Reads At Over es n) (fresh : ℕ → UInt16) (hfiles : Files es 0 n fs) (hat : At 0 z)
    (sbi : VfatSb) (name : List UInt8) :
    ((∀ f ∈ fs, ¬ Named sbi es name f) ∧ ∃ z', fatSearchLong rd sbi n (some fresh) name z = ⟨- ENOENT, z', 0⟩ ∧ Over z') ∨
    ∃ gs f hs z', fs = gs ++ f :: hs ∧ (∀ g ∈ gs, ¬ Named sbi es name g) ∧ Named sbi es name f ∧
      fatSearchLong rd sbi n (some fresh) name z = ⟨0, z', f.2⟩ ∧ At (f.1 + f.2) z' := by
  have hlen := hfiles.length_le
  exact searchLongLoop_files hrd fresh (n + 1) none hfiles hat (by omega)

end

end AtsLdd.Vfat
