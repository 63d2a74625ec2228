/-
The entries of a directory whose blocks can be read, as `fat_get_entry` of src/C/myfat/dir.c hands them out.

- `cachedReader_reads`: they are its slots, one after the other;
- `fatScan_slots`, `vfatFindForm_finds`: `fat_scan` finds the first entry with a name that `strncmp` takes for the one asked for;
- `vfatCreateShortname_unique`: the short name for a new file is the name of no entry, and a directory of no more than 65536
  entries always has one.
-/
import AtsLdd.CDriver.DirChange
import AtsLdd.Fat.Dentry
import AtsLdd.Vfat.LongSlots
import AtsLdd.Vfat.Records
import AtsLdd.Vfat.ShortName

namespace AtsLdd.Vfat

open AtsLdd.Fat AtsLdd.Division
open AtsLdd.Fat.CDriver (CachedInode CachedDir DirLooked ReadFails readable_of_not_readFails)

/-! ## The code -/

/-- `fat_get_entry`, and the 32 bytes of the entry at the cursor. A call that stops with an assertion hands out nothing;
`fatGetEntry_slot` and `fatGetEntry_end` say that none does. -/
def cachedReader (env : Env) (sb : FatSb) : EntryReader (DirCursor × CachedInode × St) where
  getEntry z :=
    match CDriver.fatGetEntry env sb true z.2.2 z.2.1 z.1 with
    | none => (false, z)
    | some r => (r.ok, r.cur, r.ino, r.s)
  ent z k := if k < DENT_SIZE then z.1.ent z.2.2 k else 0

/-- `vfat_find_form`: whether there is an entry with the name. A scan that stops with an assertion finds none; `fatScan_agrees`
says that none does. -/
def vfatFindForm (env : Env) (sb : FatSb) (z : CachedInode × St) (name : List UInt8) : Bool × (CachedInode × St) :=
  match CDriver.fatScan env sb true z.2 z.1 name with
  | none => (false, z)
  | some r => if r.ret ≠ 0 then (false, r.ino, r.s) else (true, r.ino, r.sinfo.brelse r.s)

/-! ## Slots -/

/-- the 32 bytes of slot `i` -/
def slotEnt (sb : FatSb) (l : List ℤ) (vol : Vol) (i : ℕ) : Buf := fun k => if k < DENT_SIZE then slot sb l vol i k else 0

/-- a state of a reader before slot `i`, at slot `i - 1` when there is one, with `Inv` of what is behind the cursor -/
structure ReaderAt {ζ : Type*} (sb : FatSb) (l : List ℤ) (Inv : ζ → Prop) (i : ℕ) (z : DirCursor × ζ) : Prop where
  inv : Inv z.2
  cursor : CursorAt sb l i z.1
  slot : ∀ j, i = j + 1 → j < nrSlots sb l ∧ z.1 = slotCursor sb l j

/-- a state of a reader behind the last slot; no buffer is held -/
structure ReaderOver {ζ : Type*} (Inv : ζ → Prop) (z : DirCursor × ζ) : Prop where
  inv : Inv z.2
  released : z.1.bh = none

/-- the slots of a directory are handed out one after the other -/
abbrev ReadsSlots {ζ : Type*} (rd : EntryReader (DirCursor × ζ)) (sb : FatSb) (l : List ℤ) (Inv : ζ → Prop) (vol : Vol) : Prop :=
  rd.Reads (ReaderAt sb l Inv) (ReaderOver Inv) (slotEnt sb l vol) (nrSlots sb l)

/-- what a reader leaves of the inode and the volume, when the directory was only read -/
abbrev OnlyRead (sb : FatSb) (l : List ℤ) (s : St) (ino : CachedInode) (z : CachedInode × St) : Prop :=
  DirLooked sb l s ino z.1 z.2

section
variable {env : Env} {sb : FatSb} {dir : Inode} {ino : CachedInode} {l : List ℤ} {s s' : St} {i j n : ℕ} {name : List UInt8} {sbi : VfatSb}

theorem slotEnt_of_lt (sb : FatSb) (l : List ℤ) (vol : Vol) (i : ℕ) {k : ℕ} (hk : k < DENT_SIZE) :
    slotEnt sb l vol i k = slot sb l vol i k := if_pos hk

/-- the bytes that count -/
theorem slotEnt_isFree (sb : FatSb) (l : List ℤ) (vol : Vol) (i : ℕ) : IsFree (slotEnt sb l vol i) ↔ IsFree (slot sb l vol i) := by
  unfold IsFree
  rw [slotEnt_of_lt sb l vol i (by decide)]

theorem slotEnt_live (sb : FatSb) (l : List ℤ) (vol : Vol) (i : ℕ) : Live (slotEnt sb l vol i) ↔
    ¬ IsFree (slot sb l vol i) ∧ entAttr (slot sb l vol i) &&& ATTR_VOLUME = 0 := by
  unfold Live entAttr
  rw [slotEnt_isFree, slotEnt_of_lt sb l vol i (by decide)]

theorem slotEnt_name (sb : FatSb) (l : List ℤ) (vol : Vol) (i : ℕ) : entName (slotEnt sb l vol i) = entName (slot sb l vol i) := by
  unfold entName
  exact List.map_congr_left fun k hk => slotEnt_of_lt sb l vol i ((List.mem_range.1 hk).trans_le (by decide))

/-- a reader at the start of the directory -/
theorem readerAt_start {ζ : Type*} {Inv : ζ → Prop} {w : ζ} (sb : FatSb) (l : List ℤ) (hinv : Inv w) :
    ReaderAt sb l Inv 0 (dirCursorInit, w) :=
  ⟨hinv, cursorAt_start sb l 0 none, fun j h => absurd h (Nat.succ_ne_zero j).symm⟩

/-- a reader that has come to slot `i` -/
theorem readerAt_slot {ζ : Type*} {Inv : ζ → Prop} {w : ζ} (hinv : Inv w) (hi : i < nrSlots sb l) :
    ReaderAt sb l Inv (i + 1) (slotCursor sb l i, w) := by
  refine ⟨hinv, cursorAt_slot hi, fun j hj => ?_⟩
  obtain rfl : i = j := Nat.succ.inj hj
  exact ⟨hi, rfl⟩

/-- **The slots are handed out** one after the other. -/
theorem cachedReader_reads (hread : ¬ ReadFails env) : ReadsSlots (cachedReader env sb) sb l (OnlyRead sb l s ino) s.vol where
  next := by
    intro i z hz hi
    obtain ⟨ino', s', hget, hlook⟩ := CDriver.fatGetEntry_slot hz.inv.dir hread hz.cursor hi
    refine ⟨(slotCursor sb l i, ino', s'), ?_, readerAt_slot (hz.inv.trans hlook) hi⟩
    simp only [cachedReader, hget]
  last := by
    intro i z hz hi
    obtain ⟨ino', s', hget, hlook⟩ := CDriver.fatGetEntry_end hz.inv.dir hread hz.cursor hi
    refine ⟨({ z.1 with bh := none }, ino', s'), ?_, hz.inv.trans hlook, rfl⟩
    simp only [cachedReader, hget]
  ent := by
    intro i z hz
    obtain ⟨-, hcur⟩ := hz.slot i rfl
    funext k
    change (if k < DENT_SIZE then z.1.ent z.2.2 k else 0) = _
    rw [hcur, slotCursor_ent, hz.inv.looked.vol]
    rfl

/-! ## Scanning -/

/-- how a scan for the next entry of a file ends: at the first one, or there is none -/
def NextLive (sb : FatSb) (l : List ℤ) (vol : Vol) (i : ℕ) (r : Bool × DirCursor) : Prop :=
  (∃ j, i ≤ j ∧ j < nrSlots sb l ∧ Live (slotEnt sb l vol j) ∧ (∀ x, i ≤ x → x < j → ¬ Live (slotEnt sb l vol x)) ∧
    r = (true, slotCursor sb l j)) ∨
  (∀ x, i ≤ x → x < nrSlots sb l → ¬ Live (slotEnt sb l vol x)) ∧ r.1 = false ∧ r.2.bh = none

/-- **The next entry of a file.** -/
theorem fatGetShortEntry_slots (hdir : DirOn sb s.vol dir l) (hread : Readable env sb l) (fuel : ℕ) :
    ∀ {i : ℕ} {s1 : St} {cur : DirCursor}, Looked s s1 → CursorAt sb l i cur → i ≤ nrSlots sb l → nrSlots sb l < i + fuel →
      ∃ ok cur' s', fatGetShortEntry env sb dir fuel s1 cur = (ok, cur', s') ∧ Looked s s' ∧ NextLive sb l s.vol i (ok, cur') := by
  induction fuel with
  | zero =>
    intro i s1 cur _ _ hle hfuel
    exact absurd hfuel (not_lt.2 hle)
  | succ fuel ih =>
    intro i s1 cur hlook hcur hle hfuel
    have hdir1 : DirOn sb s1.vol dir l := by rwa [hlook.vol]
    rw [fatGetShortEntry]
    rcases Nat.lt_or_ge i (nrSlots sb l) with hi | hi
    · obtain ⟨s2, hget, hlook2⟩ := fatGetEntry_slot hdir1 hread hcur hi
      have hlook' := hlook.trans hlook2
      have hlive := slotEnt_live sb l s.vol i
      rw [hget]
      simp only
      rw [slotCursor_ent, hlook'.vol]
      by_cases hentry : ¬ IsFree (slot sb l s.vol i) ∧ entAttr (slot sb l s.vol i) &&& ATTR_VOLUME = 0
      · rw [if_pos hentry]
        exact ⟨true, _, s2, rfl, hlook', Or.inl ⟨i, le_rfl, hi, hlive.2 hentry, fun x h1 h2 => by omega, rfl⟩⟩
      · rw [if_neg hentry]
        have hdead : ¬ Live (slotEnt sb l s.vol i) := fun h => hentry (hlive.1 h)
        obtain ⟨ok, cur', s', hres, hlook3, hnext⟩ := ih hlook' (cursorAt_slot hi) hi (by omega)
        refine ⟨ok, cur', s', hres, hlook3, ?_⟩
        -- the slot is passed over
        have hskip : ∀ {m}, (∀ x, i + 1 ≤ x → x < m → ¬ Live (slotEnt sb l s.vol x)) →
            ∀ x, i ≤ x → x < m → ¬ Live (slotEnt sb l s.vol x) := by
          intro m hm x h1 h2
          rcases Nat.eq_or_lt_of_le h1 with rfl | hlt
          · exact hdead
          · exact hm x hlt h2
        rcases hnext with ⟨j, h1, h2, h3, h4, h5⟩ | ⟨hnone, hend⟩
        · exact Or.inl ⟨j, by omega, h2, h3, hskip h4, h5⟩
        · exact Or.inr ⟨hskip hnone, hend⟩
    · rw [fatGetEntry_end env hdir1 hcur hi]
      exact ⟨false, _, _, rfl, hlook.trans (cur.release_looked s1), Or.inr ⟨fun x h1 h2 => by omega, rfl, rfl⟩⟩

/-- slot `j` holds the entry of a file with a name that `strncmp` takes for `name` -/
def HasName (sb : FatSb) (l : List ℤ) (vol : Vol) (name : List UInt8) (j : ℕ) : Prop :=
  Live (slotEnt sb l vol j) ∧ strncmpEq (entName (slotEnt sb l vol j)) name = true

/-- how a scan ends: at the first entry with the name, or there is none -/
inductive Scanned (sb : FatSb) (l : List ℤ) (s : St) (name : List UInt8) (i : ℕ) : ℤ × SlotInfo × St → Prop
  | found {j : ℕ} {s' : St} (from_ : i ≤ j) (lt : j < nrSlots sb l) (has : HasName sb l s.vol name j)
      (first : ∀ x, i ≤ x → x < j → ¬ HasName sb l s.vol name x) (looked : Looked s s') :
      Scanned sb l s name i (0, rowInfo sb l j 1, s')
  | missing {sinfo : SlotInfo} {s' : St} (all : ∀ x, i ≤ x → x < nrSlots sb l → ¬ HasName sb l s.vol name x)
      (released : sinfo.bh = none) (looked : Looked s s') : Scanned sb l s name i (- ENOENT, sinfo, s')

theorem fatScanLoop_slots (hdir : DirOn sb s.vol dir l) (hread : Readable env sb l) {entries : ℕ} (hent : nrSlots sb l < entries)
    (fuel : ℕ) : ∀ {i : ℕ} {s1 : St} {cur : DirCursor}, Looked s s1 → CursorAt sb l i cur → i ≤ nrSlots sb l →
      nrSlots sb l < i + fuel → Scanned sb l s name i (fatScanLoop env sb dir name entries fuel s1 cur) := by
  induction fuel with
  | zero =>
    intro i s1 cur _ _ hle hfuel
    exact absurd hfuel (not_lt.2 hle)
  | succ fuel ih =>
    intro i s1 cur hlook hcur hle hfuel
    obtain ⟨ok, cur', s', hres, hlook', hnext⟩ := fatGetShortEntry_slots hdir hread entries hlook hcur hle (by omega)
    rw [fatScanLoop, hres]
    rcases hnext with ⟨j, h1, h2, hlive, hnone, heq⟩ | ⟨hnone, hok, hbh⟩
    · obtain ⟨rfl, rfl⟩ := Prod.mk.inj heq
      have hname : entName ((slotCursor sb l j).ent s') = entName (slotEnt sb l s.vol j) := by
        rw [slotCursor_ent, hlook'.vol, slotEnt_name]
      simp only
      rw [hname]
      have hbefore : ∀ x, i ≤ x → x < j → ¬ HasName sb l s.vol name x := fun x hx hxj h => hnone x hx hxj h.1
      by_cases hcmp : strncmpEq (entName (slotEnt sb l s.vol j)) name = true
      · rw [if_pos hcmp]
        exact .found h1 h2 ⟨hlive, hcmp⟩ hbefore hlook'
      · rw [if_neg hcmp]
        have hskip : ∀ {m}, (∀ x, j + 1 ≤ x → x < m → ¬ HasName sb l s.vol name x) →
            ∀ x, i ≤ x → x < m → ¬ HasName sb l s.vol name x := by
          intro m hm x hx hxm h
          rcases lt_trichotomy x j with hlt | rfl | hgt
          · exact hbefore x hx hlt h
          · exact hcmp h.2
          · exact hm x hgt hxm h
        have hrec := ih hlook' (cursorAt_slot h2) h2 (by omega)
        generalize fatScanLoop env sb dir name entries fuel s' (slotCursor sb l j) = r at hrec
        cases hrec with
        | found from_ lt has first looked => exact .found (by omega) lt has (hskip first) looked
        | missing all released looked => exact .missing (hskip all) released looked
    · simp only at hok hbh
      obtain rfl := hok
      exact .missing (fun x h1 h2 h => hnone x h1 h2 h.1) hbh hlook'

/-- **`fat_scan` finds the first entry with the name.** -/
theorem fatScan_slots (hdir : DirOn sb s.vol dir l) (hread : Readable env sb l) (name : List UInt8) :
    Scanned sb l s name 0 (fatScan env sb s dir name) := by
  have hent : dirEntries sb dir = nrSlots sb l + 1 := by
    unfold dirEntries
    rw [hdir.dirBlocks]
    rfl
  unfold fatScan
  rw [hent]
  exact fatScanLoop_slots hdir hread (Nat.lt_succ_self _) _ (Looked.refl s) (cursorAt_start sb l 0 none) (Nat.zero_le _) (by omega)

/-! ## Names that are new -/

/-- `strncmp` of a name without a zero byte -/
theorem strncmpEq_eq {a : List UInt8} : ∀ {b : List UInt8}, a.length = b.length → 0 ∉ b → strncmpEq a b = true → a = b := by
  induction a with
  | nil =>
    intro b hlen _ _
    exact (List.eq_nil_of_length_eq_zero hlen.symm).symm
  | cons x a ih =>
    intro b hlen hzero h
    cases b with
    | nil => simp at hlen
    | cons y b =>
      rw [strncmpEq] at h
      by_cases hxy : x ≠ y
      · rw [if_pos hxy] at h
        exact absurd h (by simp)
      rw [if_neg hxy] at h
      obtain rfl := not_not.1 hxy
      rw [if_neg fun hx => hzero (by rw [hx]; exact List.mem_cons_self)] at h
      rw [ih (by simpa using hlen) (fun hm => hzero (List.mem_cons_of_mem x hm)) h]

theorem HasName.eq {vol : Vol} (h : HasName sb l vol name j) (hgood : GoodName name) : entName (slotEnt sb l vol j) = name := by
  apply strncmpEq_eq _ hgood.zero h.2
  rw [hgood.length]
  unfold entName
  rw [List.length_map, List.length_range]

/-- **`vfat_find_form`** tells whether there is an entry with the name. -/
theorem vfatFindForm_finds (hread : ¬ ReadFails env) :
    Finds (vfatFindForm env sb) (OnlyRead sb l s ino) (fun name => ∃ j < nrSlots sb l, HasName sb l s.vol name j) := by
  have hcall : ∀ {z : CachedInode × St} name, OnlyRead sb l s ino z → OnlyRead sb l s ino (vfatFindForm env sb z name).2 ∧
      ((vfatFindForm env sb z name).1 = true ↔ ∃ j < nrSlots sb l, HasName sb l s.vol name j) := by
    intro z name hlook
    obtain ⟨ret, sinfo, t, t', ino', hplain, hscan, hread'⟩ := CDriver.fatScan_agrees hlook.dir (hlook.dir.plain false) hread name
    have hslots := fatScan_slots (hlook.dir.plain false) (readable_of_not_readFails hread sb l) name
    have hagain : DirLooked sb l s ino ino' t' := hlook.trans hread'
    rw [hplain] at hslots
    unfold vfatFindForm
    rw [hscan]
    cases hslots with
    | @found j s' from_ lt has first looked =>
      rw [hlook.looked.vol] at has
      exact ⟨hagain.then (brelse_looked t' _), ⟨fun _ => ⟨j, lt, has⟩, fun _ => rfl⟩⟩
    | missing all released looked =>
      rw [hlook.looked.vol] at all
      simp only [if_pos (show (- ENOENT : ℤ) ≠ 0 by decide)]
      exact ⟨hagain, ⟨fun h => absurd h Bool.false_ne_true, fun ⟨j, hj, has⟩ => absurd has (all j (Nat.zero_le j) hj)⟩⟩
  exact ⟨fun name h => (hcall name h).1, fun name h => (hcall name h).2⟩

/-- a directory does not have more names than slots -/
theorem not_tooMany (hsmall : nrSlots sb l ≤ 2 ^ 16) (vol : Vol) :
    ¬ TooMany fun name => ∃ j < nrSlots sb l, HasName sb l vol name j := by
  rintro ⟨F, hcard, hF⟩
  have hslot : ∀ name ∈ F, ∃ j ∈ Finset.range (nrSlots sb l), entName (slotEnt sb l vol j) = name := by
    intro name hname
    obtain ⟨⟨j, hj, has⟩, hgood⟩ := hF name hname
    exact ⟨j, Finset.mem_range.2 hj, has.eq hgood⟩
  have hsub : F ⊆ (Finset.range (nrSlots sb l)).image fun j => entName (slotEnt sb l vol j) :=
    fun name hname => Finset.mem_image.2 (hslot name hname)
  have hle := (Finset.card_le_card hsub).trans Finset.card_image_le
  rw [Finset.card_range] at hle
  omega

end

/-- **The short name for a new file** is the name of no entry, and in a directory of no more than 65536 entries the search for
one ends. -/
theorem vfatCreateShortname_unique {env : Env} {sb : FatSb} {ino : CachedInode} {l : List ℤ} {s : St} (hdir : CachedDir sb s.vol l ino)
    (hread : ¬ ReadFails env) (hsmall : nrSlots sb l ≤ 2 ^ 16) {sbi : VfatSb} (hsane : sbi.nlsDisk.Sane)
    (hflags : sbi.shortname &&& VFAT_SFN_CREATE_WIN95 ≠ 0 ∨ sbi.shortname &&& VFAT_SFN_CREATE_WINNT ≠ 0) {uname : List UInt16}
    (hname : ∀ w ∈ uname, w ≠ 0) (jiffies jiffies' : ℕ) :
    ∃ r, vfatCreateShortname sbi (vfatFindForm env sb) (2 ^ 16) jiffies jiffies' uname (ino, s) = some r ∧ OnlyRead sb l s ino r.s ∧
      (0 ≤ r.ret → GoodName r.nameRes ∧
        ∀ j < nrSlots sb l, Live (slotEnt sb l s.vol j) → entName (slotEnt sb l s.vol j) ≠ r.nameRes) := by
  have hstart : OnlyRead sb l s ino (ino, s) := .refl hdir
  rcases vfatCreateShortname_new (vfatFindForm_finds hread) hsane hflags hname hstart (2 ^ 16) jiffies jiffies' with
    ⟨r, hr, hshort⟩ | ⟨-, hmany⟩
  · refine ⟨r, hr, hshort.inv, fun h0 => ⟨hshort.good h0, fun j hj hlive heq => ?_⟩⟩
    exact hshort.new h0 ⟨j, hj, hlive, by rw [heq]; exact strncmpEq_refl _⟩
  · exact absurd (hmany le_rfl) (not_tooMany hsmall s.vol)

/-- a byte of an ASCII character is the character -/
theorem asciiNls_uni2char {w : UInt16} {c : UInt8} (h : c ∈ asciiNls.uni2char w) : w ≠ 0 ∧ w.toNat = c.toNat := by
  unfold asciiNls at h
  simp only at h
  split_ifs at h with hw
  · exact absurd h List.not_mem_nil
  rw [not_or, UInt16.not_le, UInt16.lt_iff_toNat_lt] at hw
  obtain ⟨hw0, hlt⟩ := hw
  have hmax : (0x80 : UInt16).toNat = 128 := rfl
  rw [List.mem_singleton.1 h, UInt16.toNat_toUInt8, Nat.mod_eq_of_lt (by omega)]
  exact ⟨hw0, rfl⟩

/-- the table of the ASCII characters makes short names -/
theorem asciiNls_sane : asciiNls.Sane where
  ne_zero := by
    intro w hw h
    exact hw (UInt16.toNat_inj.1 (asciiNls_uni2char h).2)
  space := by
    intro w hw h
    exact hw (UInt16.toNat_inj.1 (asciiNls_uni2char (List.mem_of_mem_head? h)).2)
  upper := by
    intro c
    have hall : ∀ n < 256, nlsToupper asciiNls (UInt8.ofNat n) = ch ' ' → UInt8.ofNat n = ch ' ' := by decide +kernel
    have h := hall c.toNat c.toNat_lt
    rwa [UInt8.ofNat_toNat] at h

/-- the volume of `emptyDir` with files in the first block of the directory: a volume label, `Long Name.text` with its two slots,
and `AB` -/
def namesSt : St :=
  let bytes := entryBytes ("LABEL      ".toList.map ch) ATTR_VOLUME ++ longNameBytes ++ entryBytes ("AB         ".toList.map ch) ATTR_ARCH
  { emptyDir.s with vol := Function.update emptyDir.s.vol 4 fun k => bytes.getD k 0 }

/-- the inode of the directory, of whose chain nothing is cached -/
def namesInode : CachedInode :=
  { newInode with iStart := 3, iSize := 1024, mmuPrivate := 1024, iBlocks := 2, cacheLru := [], nrCaches := 0, cacheValidId := 1 }

theorem namesDir_cached : CachedDir tinySb namesSt.vol [3] namesInode where
  chain :=
    { chain := Or.inl (.last (by decide +kernel))
      coherent := ⟨fun _ hp => absurd hp List.not_mem_nil, List.nodup_nil, rfl, Nat.zero_le _⟩
      blocks := rfl
      outside := by
        unfold InFat
        decide }
  sizes := ⟨rfl, rfl, le_rfl, by decide, by decide⟩

theorem goodEnv_reads : ¬ ReadFails goodEnv := fun ⟨_, _, h⟩ => Bool.false_ne_true h.symm

/-- `Long Names.text` -/
def longNamesText : List UInt16 := [0x4c, 0x6f, 0x6e, 0x67, 0x20, 0x4e, 0x61, 0x6d, 0x65, 0x73, 0x2e, 0x74, 0x65, 0x78, 0x74]

/-- the short name for `Long Names.text`, where `LONGNA~1.TEX` is the name of an entry -/
theorem vfatCreateShortname_unique_names : ∃ r,
    vfatCreateShortname asciiSb (vfatFindForm goodEnv tinySb) (2 ^ 16) 7 7 longNamesText (namesInode, namesSt) = some r ∧
    OnlyRead tinySb [3] namesSt namesInode r.s ∧ (GoodName r.nameRes ∧
      ∀ j < nrSlots tinySb [3], Live (slotEnt tinySb [3] namesSt.vol j) → entName (slotEnt tinySb [3] namesSt.vol j) ≠ r.nameRes) ∧
    r.nameRes = "LONGNA~2TEX".toList.map ch := by
  have hshort : ∃ r, vfatCreateShortname asciiSb (vfatFindForm goodEnv tinySb) (2 ^ 16) 7 7 longNamesText (namesInode, namesSt) =
      some r ∧ OnlyRead tinySb [3] namesSt namesInode r.s ∧ (0 ≤ r.ret → _) :=
    vfatCreateShortname_unique namesDir_cached goodEnv_reads (by decide) asciiNls_sane (Or.inr (by decide))
      (by simp [longNamesText]) 7 7
  obtain ⟨r, hr, hlook, hnew⟩ := hshort
  have heval : (vfatCreateShortname asciiSb (vfatFindForm goodEnv tinySb) (2 ^ 16) 7 7 longNamesText (namesInode, namesSt)).map
      (fun r => (r.ret, r.nameRes)) = some (0, "LONGNA~2TEX".toList.map ch) := by decide +kernel
  rw [hr, Option.map_some, Option.some.injEq, Prod.mk.injEq] at heval
  exact ⟨r, hr, hlook, hnew heval.1.ge, heval.2⟩

end AtsLdd.Vfat
