/-
Names in the dentry cache: `msdos_hash` and `msdos_cmp` (msdos_dentry.c), and the lookup in a directory that they stand
for, `msdos_find` (msdos_inode.c).

- `msdosCmp_eq_zero`: which names compare equal;
- `msdosHash_eq`: names that compare equal have the same hash;
- `msdosFind_visible`: whether a lookup sees an entry depends on the dot of the name;
- `coherent_iff`: two names that compare equal are looked up alike, unless exactly one of them begins with a dot and
  `dotsOK` is set;
- `dot_not_coherent`: two such names.
-/
import AtsLdd.Fat.Readdir
import AtsLdd.Fat.Scan

namespace AtsLdd.Fat

open AtsLdd.Machine

/-- `memcmp` of two arrays of the same length: the difference of the first bytes that differ -/
def memcmp : List UInt8 → List UInt8 → ℤ
  | a :: as, b :: bs => if a = b then memcmp as bs else (a.toNat : ℤ) - b.toNat
  | _, _ => 0

/-- the raw comparison of two names -/
def oldCompare (a b : List UInt8) : ℤ := if a.length = b.length then memcmp a b else 1

/-- `msdos_cmp` -/
def msdosCmp (opts : MountOptions) (a b : List UInt8) : ℤ :=
  match msdosFormatName opts a with
  | none => oldCompare a b
  | some aName =>
    match msdosFormatName opts b with
    | none => oldCompare a b
    | some bName => memcmp aName bName

/-- `msdos_hash`, for a hash function `fullNameHash` of the kernel; `hash` is the hash that the name comes with -/
def msdosHash (fullNameHash : List UInt8 → ℕ) (opts : MountOptions) (name : List UInt8) (hash : ℕ) : ℕ :=
  match msdosFormatName opts name with
  | none => hash
  | some msdosName => fullNameHash msdosName

/-- the entry that `sinfo` refers to -/
def SlotInfo.ent (sinfo : SlotInfo) (s : St) : Buf := entAt s.vol (sinfo.bh.getD 0) (sinfo.de.getD 0)

/-- `brelse` of the buffer of `sinfo` -/
def SlotInfo.brelse (sinfo : SlotInfo) (s : St) : St :=
  match sinfo.bh with
  | none => s
  | some b => Fat.brelse s b

/-- `msdos_find`; when there is an entry, `sinfo` refers to it -/
def msdosFind (env : Env) (sb : FatSb) (opts : MountOptions) (s : St) (dir : Inode) (name : List UInt8) :
    ℤ × Option SlotInfo × St :=
  match msdosFormatName opts name with
  | none => (- ENOENT, none, s)
  | some msdosName =>
    match fatScan env sb s dir msdosName with
    | (err, sinfo, s) =>
      if err = 0 then
        if opts.dotsOK then
          let hidden := entAttr (sinfo.ent s) &&& ATTR_HIDDEN ≠ 0
          if name.headD 0 = ch '.' then if hidden then (0, some sinfo, s) else (- ENOENT, none, sinfo.brelse s)
          else if hidden then (- ENOENT, none, sinfo.brelse s) else (0, some sinfo, s)
        else (0, some sinfo, s)
      else (err, none, s)

/-! ## Comparing names -/

section
variable {opts : MountOptions} {a b : List UInt8}

theorem memcmp_eq_zero : ∀ {a b : List UInt8}, a.length = b.length → (memcmp a b = 0 ↔ a = b) := by
  intro a
  induction a with
  | nil =>
    intro b hlen
    rw [List.length_eq_zero_iff.1 hlen.symm]
    exact iff_of_true rfl rfl
  | cons x a ih =>
    intro b hlen
    cases b with
    | nil => exact absurd hlen (by simp)
    | cons y b =>
      rw [memcmp]
      by_cases hxy : x = y
      · rw [if_pos hxy, ih (Nat.succ.inj hlen), hxy, List.cons.injEq]
        exact (and_iff_right rfl).symm
      · rw [if_neg hxy]
        refine iff_of_false (fun h => hxy ?_) fun h => hxy (List.cons.inj h).1
        exact UInt8.toNat_inj.1 (by omega)

theorem oldCompare_eq_zero : oldCompare a b = 0 ↔ a = b := by
  unfold oldCompare
  by_cases hlen : a.length = b.length
  · rw [if_pos hlen, memcmp_eq_zero hlen]
  · rw [if_neg hlen]
    exact iff_of_false one_ne_zero fun h => hlen (h ▸ rfl)

/-- **The names that compare equal**: the same name twice, or two names with the same entry. -/
theorem msdosCmp_eq_zero : msdosCmp opts a b = 0 ↔
    a = b ∨ ∃ name, msdosFormatName opts a = some name ∧ msdosFormatName opts b = some name := by
  have hlen : ∀ {n r : List UInt8}, msdosFormatName opts n = some r → r.length = MSDOS_NAME := by
    intro n r h
    obtain ⟨x, y, hparts, rfl⟩ := msdosFormatName_eq_some h
    exact storedName_length hparts
  unfold msdosCmp
  cases ha : msdosFormatName opts a with
  | none => simp only [oldCompare_eq_zero, reduceCtorEq, false_and, exists_false, or_false]
  | some an =>
    cases hb : msdosFormatName opts b with
    | none => simp only [oldCompare_eq_zero, reduceCtorEq, and_false, exists_false, or_false]
    | some bn =>
      simp only [memcmp_eq_zero ((hlen ha).trans (hlen hb).symm), Option.some.injEq]
      constructor
      · rintro rfl
        exact Or.inr ⟨an, rfl, rfl⟩
      · rintro (rfl | ⟨n, rfl, rfl⟩)
        · exact Option.some.inj (ha.symm.trans hb)
        · rfl

/-- **Names that compare equal have the same hash.** -/
theorem msdosHash_eq (fullNameHash defaultHash : List UInt8 → ℕ) (h : msdosCmp opts a b = 0) :
    msdosHash fullNameHash opts a (defaultHash a) = msdosHash fullNameHash opts b (defaultHash b) := by
  rcases msdosCmp_eq_zero.1 h with rfl | ⟨n, ha, hb⟩
  · rfl
  · unfold msdosHash
    rw [ha, hb]

/-! ## Looking up -/

/-- names with the same entry are looked up alike if both begin with a dot or neither does, or the dot does not matter -/
theorem msdosFind_congr (env : Env) (sb : FatSb) (s : St) (dir : Inode) {name : List UInt8}
    (ha : msdosFormatName opts a = some name) (hb : msdosFormatName opts b = some name)
    (h : opts.dotsOK = true → (a.headD 0 = ch '.' ↔ b.headD 0 = ch '.')) :
    msdosFind env sb opts s dir a = msdosFind env sb opts s dir b := by
  unfold msdosFind
  simp only [ha, hb]
  by_cases hok : opts.dotsOK = true
  · simp only [h hok]
  · simp only [hok, Bool.false_eq_true, if_false]

/-- the entry with the 11 bytes `name` and the hidden bit as given, for a file -/
def fileEntry (name : List UInt8) (hidden : Bool) : Buf :=
  fun i => if i < 11 then name.getD i 0 else if i = 11 then createAttr false hidden else 0

/-- a volume whose root directory has that entry only -/
def rootWith (name : List UInt8) (hidden : Bool) : Vol := fun b => if b = 2 then fileEntry name hidden else fun _ => 0

theorem entName_fileEntry {name : List UInt8} (h : name.length = MSDOS_NAME) (hidden : Bool) :
    entName (fileEntry name hidden) = name := by
  apply List.ext_getElem (by simp [entName, h])
  intro i h1 h2
  have hi : i < 11 := h2.trans_eq h
  simp [entName, fileEntry, hi, h2]

/-- **What a lookup sees.** With `dotsOK`, a hidden entry is found by a name with a dot in front. -/
theorem msdosFind_visible {name : List UInt8} (hok : opts.dotsOK = true) (ha : msdosFormatName opts a = some name) :
    (msdosFind goodEnv tinySb opts (St.idle (rootWith name true)) ⟨2, 1024⟩ a).1 = 0 ↔ a.headD 0 = ch '.' := by
  obtain ⟨x, y, hparts, hname⟩ := msdosFormatName_eq_some ha
  have hlen : name.length = MSDOS_NAME := hname ▸ storedName_length hparts
  have hblk : fatClusToBlknr tinySb 2 = 2 := by decide
  have hent : entAt (St.idle (rootWith name true)).vol 2 0 = fileEntry name true := by
    funext i
    unfold entAt St.idle rootWith
    simp only [if_true, Nat.zero_add]
  have hnm := entName_fileEntry hlen true
  have hvol : entAttr (fileEntry name true) &&& ATTR_VOLUME = 0 := (createAttr_hidden false true).2
  have hhid : entAttr (fileEntry name true) &&& ATTR_HIDDEN ≠ 0 := (createAttr_hidden false true).1.2 rfl
  obtain ⟨s', i, hscan, hsv⟩ := fatScan_first goodEnv tinySb ⟨2, 1024⟩ (St.idle (rootWith name true)) (by decide) (by decide) rfl
    (by rw [hblk, hent]; exact isFree_storedName hparts (hnm.trans hname)) (by rw [hblk, hent]; exact hvol)
  simp only [hblk, hent, hnm] at hscan
  have hatt : entAttr ((SlotInfo.mk i 0 1 (some 0) (some 2)).ent s') &&& ATTR_HIDDEN ≠ 0 := by
    unfold SlotInfo.ent
    rw [hsv, Option.getD_some, Option.getD_some, hent]
    exact hhid
  unfold msdosFind
  simp only [ha, hscan, hok, if_true, hatt, ne_eq, not_false_eq_true]
  split_ifs with hdot
  · exact iff_of_true rfl hdot
  · exact iff_of_false (show (- ENOENT : ℤ) ≠ 0 by decide) hdot

/-- names that compare equal have the same hash, and are looked up alike in every directory -/
def Coherent (opts : MountOptions) (a b : List UInt8) : Prop :=
  msdosCmp opts a b = 0 →
    (∀ fullNameHash defaultHash : List UInt8 → ℕ,
      msdosHash fullNameHash opts a (defaultHash a) = msdosHash fullNameHash opts b (defaultHash b)) ∧
    ∀ (env : Env) (sb : FatSb) (s : St) (dir : Inode),
      msdosFind env sb opts s dir a = msdosFind env sb opts s dir b

/-- two names with the same entry, of which exactly one begins with a dot -/
theorem not_coherent_of_dot {name : List UInt8} (hok : opts.dotsOK = true) (ha : msdosFormatName opts a = some name)
    (hb : msdosFormatName opts b = some name) (hdot : ¬ (a.headD 0 = ch '.' ↔ b.headD 0 = ch '.')) :
    ¬ Coherent opts a b := by
  intro h
  have hfind := (h (msdosCmp_eq_zero.2 (Or.inr ⟨name, ha, hb⟩))).2 goodEnv tinySb (St.idle (rootWith name true)) ⟨2, 1024⟩
  have hva := msdosFind_visible hok ha
  rw [hfind, msdosFind_visible hok hb] at hva
  exact hdot hva.symm

/-- **The dentry cache agrees with the directory** about two names, unless `dotsOK` is set, both have the same entry, and
exactly one of them begins with a dot. -/
theorem coherent_iff (opts : MountOptions) (a b : List UInt8) : Coherent opts a b ↔
    ¬ (opts.dotsOK = true ∧ (msdosFormatName opts a).isSome ∧ msdosFormatName opts a = msdosFormatName opts b ∧
      ¬ (a.headD 0 = ch '.' ↔ b.headD 0 = ch '.')) := by
  constructor
  · rintro h ⟨hok, hsome, heq, hdot⟩
    obtain ⟨name, ha⟩ := Option.isSome_iff_exists.1 hsome
    exact not_coherent_of_dot hok ha (heq ▸ ha) hdot h
  · intro h hcmp
    refine ⟨fun full dflt => msdosHash_eq full dflt hcmp, fun env sb s dir => ?_⟩
    rcases msdosCmp_eq_zero.1 hcmp with rfl | ⟨name, ha, hb⟩
    · rfl
    · apply msdosFind_congr env sb s dir ha hb
      intro hok
      by_contra hdot
      exact h ⟨hok, by rw [ha]; rfl, ha.trans hb.symm, hdot⟩

/-- **Two names that the cache confuses**: `a` and the hidden file `.a`. -/
theorem dot_not_coherent : ¬ ∀ (opts : MountOptions) (a b : List UInt8), Coherent opts a b := by
  intro h
  have ha : msdosFormatName dotsOptions [ch 'a'] = some (entName hiddenEntry) := by decide
  have hb : msdosFormatName dotsOptions [ch '.', ch 'a'] = some (entName hiddenEntry) := by decide
  exact not_coherent_of_dot rfl ha hb (by decide) (h _ _ _)

end

end AtsLdd.Fat
