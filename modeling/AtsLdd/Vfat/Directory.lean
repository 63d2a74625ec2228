/-
A directory of the C driver over whole runs. The state is the directory with its volume; the calls are `vfat_find`,
`vfat_add_entry` and what `vfat_unlink` does to the directory, for any names and in any order.

The abstract directory is a list of files, each a list of entries, and the number of entries there is room for. `DirServes` are
its steps.

- `dirStep_serves`: one call does what the abstract directory does, and answers what it answers;
- `directory_refines`: so does every run, and short names that are apart stay apart.
-/
import AtsLdd.Core.Run
import AtsLdd.Vfat.AddEntry

namespace AtsLdd.Vfat

open AtsLdd.Fat AtsLdd.Division AtsLdd.Run
open AtsLdd.Fat.CDriver (CachedDir CachedInode CachedReady DirLooked not_readFails_of_noFault blocksOf plainDir)

/-! ## The calls -/

/-- the inode of a directory, with its cache, and the volume -/
structure DirVolume where
  ino : CachedInode
  s : St

/-- `vfat_find` -/
def vfatLookup (env : Env) (sb : FatSb) (sbi : VfatSb) (fresh : Option (ℕ → UInt16)) (qname : List UInt8) (σ : DirVolume) :
    VfatFind (CachedInode × St) :=
  vfatFind sb sbi (cachedReader env sb) (blocksOf sb σ.ino.iSize * sb.dirPerBlock) fresh qname (σ.ino, σ.s)

/-- `vfat_unlink`, up to the inode of the file; what is found is given on where something is found, and `none` is an assertion -/
def vfatUnlink (env : Env) (sb : FatSb) (opts : InodeOptions) (sbi : VfatSb) (dirsync : Bool) (fresh : Option (ℕ → UInt16))
    (qname : List UInt8) (now : Timespec) (σ : DirVolume) : Option (DirVolume × ℤ) :=
  let w := vfatLookup env sb sbi fresh qname σ
  match w.sinfo with
  | none => some (⟨w.z.1, w.z.2⟩, w.err)
  | some sinfo => (CDriver.fatRemoveEntries env sb opts true dirsync w.z.2 w.z.1 sinfo now).map fun r => (⟨r.ino, r.s⟩, r.err)

/-- a call; `fresh` is what the buffer for a long name holds before -/
inductive DirCall where
  | find (env : Env) (fresh : ℕ → UInt16) (qname : List UInt8)
  | add (env : Env) (aenv : AddEnv) (qname : List UInt8) (isDir : Bool) (cluster : ℤ) (ts : Timespec)
  | unlink (env : Env) (fresh : ℕ → UInt16) (qname : List UInt8) (now : Timespec)

/-- a call and its answer; a search that does not end, and an assertion, have none -/
def dirStep (sb : FatSb) (opts : InodeOptions) (sbi : VfatSb) (dirsync : Bool) (σ : DirVolume) : DirCall → DirVolume × Option ℤ
  | .find env fresh qname =>
    let w := vfatLookup env sb sbi (some fresh) qname σ
    (⟨w.z.1, w.z.2⟩, some w.err)
  | .add env aenv qname isDir cluster ts =>
    match vfatAddEntry env sb opts sbi dirsync σ.s σ.ino aenv qname isDir cluster ts with
    | none => (σ, none)
    | some r => (⟨r.ino, r.s⟩, some r.err)
  | .unlink env fresh qname now =>
    match vfatUnlink env sb opts sbi dirsync (some fresh) qname now σ with
    | none => (σ, none)
    | some r => (r.1, some r.2)

/-- no block fails, and a name that is added has no zero character -/
def DirCall.Allowed (sbi : VfatSb) : DirCall → Prop
  | .find env _ _ => env.NoFault
  | .add env _ qname _ _ _ => env.NoFault ∧ NoZero sbi (vfatStriptail qname)
  | .unlink env _ _ _ => env.NoFault

/-! ## The abstract directory -/

/-- the entries of a file -/
def fileEnts (es : ℕ → Buf) (f : ℕ × ℕ) : List Buf := (List.range f.2).map fun j => es (f.1 + j)

/-- entry `x` of a file -/
def fileEnt (file : List Buf) (x : ℕ) : Buf := file.getD x fun _ => 0

/-- the short name of a file is in its last entry -/
def fileShort (file : List Buf) : List UInt8 := entName (fileEnt file (file.length - 1))

/-- the file has the name, which is not empty -/
def FileNamed (sbi : VfatSb) (qname : List UInt8) (file : List Buf) : Prop :=
  vfatStriptail qname ≠ [] ∧ Named sbi (fileEnt file) (vfatStriptail qname) (0, file.length)

/-- the long name of the file, if it has one, has the characters of the name -/
def FileChars (sbi : VfatSb) (qname : List UInt8) (file : List Buf) : Prop :=
  file.length - 1 ≠ 0 → ∃ uname ulen, xlateToUni sbi (vfatStriptail qname) = .ok (uname, ulen) ∧
    ∀ p < 13 * (file.length - 1), uname[p]? = some (rowChar (fileEnt file) 0 (file.length - 1) p)

/-- a directory with room for some entries -/
structure Listing where
  room : ℕ
  files : List (List Buf)

/-- a file of the directory has the short name -/
def Listing.HasShort (A : Listing) (name : List UInt8) : Prop := ∃ file ∈ A.files, fileShort file = name

/-- what a call does to a directory, and what it answers -/
inductive DirServes (sbi : VfatSb) : Listing → DirCall → Option ℤ → Listing → Prop where
  | found {A : Listing} {env : Env} {fresh : ℕ → UInt16} {qname : List UInt8} {file : List Buf} (mem : file ∈ A.files)
      (named : FileNamed sbi qname file) : DirServes sbi A (.find env fresh qname) (some 0) A
  | missing {A : Listing} {env : Env} {fresh : ℕ → UInt16} {qname : List UInt8}
      (none : ∀ file ∈ A.files, ¬ FileNamed sbi qname file) : DirServes sbi A (.find env fresh qname) (some (- ENOENT)) A
  | added {room room' : ℕ} {gs hs : List (List Buf)} {env : Env} {aenv : AddEnv} {qname : List UInt8} {isDir : Bool} {cluster : ℤ}
      {ts : Timespec} {file : List Buf} (grown : room ≤ room') (chars : FileChars sbi qname file)
      (new : ∀ g ∈ gs ++ hs, fileShort g ≠ fileShort file) :
      DirServes sbi ⟨room, gs ++ hs⟩ (.add env aenv qname isDir cluster ts) (some 0) ⟨room', gs ++ file :: hs⟩
  | refused {A : Listing} {env : Env} {aenv : AddEnv} {qname : List UInt8} {isDir : Bool} {cluster : ℤ} {ts : Timespec} {err : ℤ}
      (nonzero : err ≠ 0) (why : Refusal sbi aenv A.HasShort (vfatStriptail qname) err) :
      DirServes sbi A (.add env aenv qname isDir cluster ts) (some err) A
  | endless {A : Listing} {env : Env} {aenv : AddEnv} {qname : List UInt8} {isDir : Bool} {cluster : ℤ} {ts : Timespec}
      (large : 2 ^ 16 < A.room) : DirServes sbi A (.add env aenv qname isDir cluster ts) none A
  | removed {room : ℕ} {gs hs : List (List Buf)} {env : Env} {fresh : ℕ → UInt16} {qname : List UInt8} {now : Timespec}
      {file : List Buf} (named : FileNamed sbi qname file) (first : ∀ g ∈ gs, ¬ FileNamed sbi qname g) :
      DirServes sbi ⟨room, gs ++ file :: hs⟩ (.unlink env fresh qname now) (some 0) ⟨room, gs ++ hs⟩
  | absent {A : Listing} {env : Env} {fresh : ℕ → UInt16} {qname : List UInt8} {now : Timespec}
      (none : ∀ file ∈ A.files, ¬ FileNamed sbi qname file) : DirServes sbi A (.unlink env fresh qname now) (some (- ENOENT)) A

/-- the directory is a row of the files -/
def DirHolds (sb : FatSb) (dirsync : Bool) (σ : DirVolume) (A : Listing) : Prop := ∃ l fs, CachedReady sb σ.s dirsync σ.ino l ∧
  Files (slotEnt sb l σ.s.vol) 0 (nrSlots sb l) fs ∧ A = ⟨nrSlots sb l, fs.map (fileEnts (slotEnt sb l σ.s.vol))⟩

/-! ## The entries of a file -/

section
variable {sb : FatSb} {sbi : VfatSb} {opts : InodeOptions} {dirsync : Bool} {env : Env} {l : List ℤ} {s s' : St}
  {ino ino' : CachedInode} {σ : DirVolume}
  {es es' : ℕ → Buf} {f : ℕ × ℕ} {fs gs hs : List (ℕ × ℕ)} {a k n i nr : ℕ} {qname : List UInt8} {A A' : Listing}

theorem fileEnts_length (es : ℕ → Buf) (f : ℕ × ℕ) : (fileEnts es f).length = f.2 := by
  unfold fileEnts
  rw [List.length_map, List.length_range]

theorem fileEnt_fileEnts (es : ℕ → Buf) {x : ℕ} (hx : x < f.2) : fileEnt (fileEnts es f) x = es (f.1 + x) := by
  unfold fileEnt fileEnts
  rw [List.getD_eq_getElem?_getD, List.getElem?_map, List.getElem?_range hx]
  rfl

theorem fileEnts_congr (h : ∀ x, f.1 ≤ x → x < f.1 + f.2 → es' x = es x) : fileEnts es' f = fileEnts es f :=
  List.map_congr_left fun _ hj => h _ (Nat.le_add_right _ _) (Nat.add_lt_add_left (List.mem_range.1 hj) _)

theorem map_fileEnts_congr (h : ∀ f ∈ fs, ∀ x, f.1 ≤ x → x < f.1 + f.2 → es' x = es x) :
    fs.map (fileEnts es') = fs.map (fileEnts es) := List.map_congr_left fun f hf => fileEnts_congr (h f hf)

theorem fileShort_fileEnts (es : ℕ → Buf) (hpos : 0 < f.2) : fileShort (fileEnts es f) = entName (es (f.1 + (f.2 - 1))) := by
  unfold fileShort
  rw [fileEnts_length, fileEnt_fileEnts es (by omega)]

/-- the characters of a row do not depend on where it is -/
theorem rowChar_shift (es : ℕ → Buf) (i m : ℕ) : rowChar (fun x => es (i + x)) 0 m = rowChar es i m := by
  funext p
  unfold rowChar
  simp only [Nat.zero_add]

theorem rowChar_fileEnts (es : ℕ → Buf) {m p : ℕ} (hp : p < 13 * m) :
    rowChar (fileEnt (fileEnts es (i, m + 1))) 0 m p = rowChar es i m p := by
  rw [← rowChar_shift es i m]
  unfold rowChar
  simp only [Nat.zero_add]
  rw [fileEnt_fileEnts es (f := (i, m + 1)) (x := m - p / 13) (by simp only; omega),
    fileEnt_fileEnts es (f := (i, m + 1)) (x := m - 1 - p / 13) (by simp only; omega)]

/-- nor does its name -/
theorem named_fileEnts (es : ℕ → Buf) (name : List UInt8) (hpos : 0 < f.2) :
    Named sbi (fileEnt (fileEnts es f)) name (0, (fileEnts es f).length) ↔ Named sbi es name f := by
  have hcongr : Named sbi (fileEnt (fileEnts es f)) name (0, f.2) ↔ Named sbi (fun x => es (f.1 + x)) name (0, f.2) :=
    Named.congr hpos fun x _ hx => fileEnt_fileEnts es (by simpa using hx)
  rw [fileEnts_length, hcongr]
  unfold Named NameIs rowUni
  simp only [rowChar_shift, Nat.zero_add]

theorem fileNamed_iff (es : ℕ → Buf) (hne : vfatStriptail qname ≠ []) (hpos : 0 < f.2) :
    FileNamed sbi qname (fileEnts es f) ↔ Named sbi es (vfatStriptail qname) f := by
  unfold FileNamed
  rw [named_fileEnts es _ hpos]
  exact and_iff_right hne

theorem not_fileNamed (hfiles : Files es 0 n fs) (hsub : ∀ g ∈ gs, g ∈ fs)
    (h : ∀ g ∈ gs, ¬ Named sbi es (vfatStriptail qname) g) : ∀ file ∈ gs.map (fileEnts es), ¬ FileNamed sbi qname file := by
  intro file hfile hnamed
  obtain ⟨g, hg, rfl⟩ := List.mem_map.1 hfile
  obtain ⟨-, -, hpos, -⟩ := hfiles.item_of_mem (hsub g hg)
  exact h g hg ((fileNamed_iff es hnamed.1 hpos).1 hnamed)

/-! ## A file is removed -/

/-- **A file is taken away** where its entries become free. -/
theorem files_erase (h : Files es 0 n fs) (hf : (a, k) ∈ fs) (hkept : ∀ x < n, x < a ∨ a + k ≤ x → es' x = es x)
    (hfree : ∀ x, a ≤ x → x < a + k → IsFree (es' x)) : ∃ gs hs, fs = gs ++ (a, k) :: hs ∧ Files es' 0 n (gs ++ hs) := by
  obtain ⟨-, hle, -, -⟩ := h.item_of_mem hf
  simp only at hle
  have hcut : Files (cutAt es n) 0 n fs := files_stay h fun x hx => cutAt_stays es hx
  have hout : ∀ x, x < a ∨ a + k ≤ x → Stays (cutAt es n x) (cutAt es' n x) := by
    intro x hx
    rcases Nat.lt_or_ge x n with hlt | hge
    · refine Stays.of_eq ?_
      unfold cutAt
      rw [if_pos hlt, if_pos hlt, hkept x hlt hx]
    · exact Stays.of_free (cutAt_free es hge) (cutAt_free es' hge)
  obtain ⟨gs, hs, hfs, hfiles⟩ := hcut.erase hf (outside_of_stays hout) fun x h1 h2 =>
    Or.inl ((cutAt_stays es' (by omega)).free.2 (hfree x h1 h2))
  exact ⟨gs, hs, hfs, files_stay hfiles fun x hx => stays_cutAt es' hx⟩

/-- a file is in the list once -/
theorem files_nodup (h : Files es 0 n fs) : fs.Nodup := by
  refine (Divided.pairwise h).imp_of_mem fun {f g} hf _ hle heq => ?_
  obtain ⟨-, -, hpos, -⟩ := h.item_of_mem hf
  rw [heq] at hle hpos
  omega

/-! ## The steps -/

/-- a directory that has not changed holds its files -/
theorem DirHolds.stays {l : List ℤ} {fs : List (ℕ × ℕ)} (hready : CachedReady sb s' dirsync ino' l)
    (hfiles : Files (slotEnt sb l s.vol) 0 (nrSlots sb l) fs)
    (hstay : ∀ x < nrSlots sb l, Stays (slotEnt sb l s.vol x) (slotEnt sb l s'.vol x)) :
    DirHolds sb dirsync ⟨ino', s'⟩ ⟨nrSlots sb l, fs.map (fileEnts (slotEnt sb l s.vol))⟩ := by
  refine ⟨l, fs, hready, files_stay hfiles hstay, congrArg _ (map_fileEnts_congr fun f hf x h1 h2 => ?_).symm⟩
  obtain ⟨-, hle, -, hfile⟩ := hfiles.item_of_mem hf
  exact (hstay x (by omega)).same (hfile.not_free h1 h2)

/-- a directory that was only read -/
theorem DirHolds.looked {l : List ℤ} {fs : List (ℕ × ℕ)} (hready : CachedReady sb s dirsync ino l)
    (hfiles : Files (slotEnt sb l s.vol) 0 (nrSlots sb l) fs) (hlook : DirLooked sb l s ino ino' s') :
    DirHolds sb dirsync ⟨ino', s'⟩ ⟨nrSlots sb l, fs.map (fileEnts (slotEnt sb l s.vol))⟩ :=
  .stays (hready.of_looked hlook) hfiles fun x _ => Stays.of_eq (by rw [hlook.looked.vol])

/-- what a lookup finds, in terms of the abstract directory -/
theorem vfatLookup_holds (sbi : VfatSb) (henv : env.NoFault) (hready : CachedReady sb σ.s dirsync σ.ino l)
    (hfiles : Files (slotEnt sb l σ.s.vol) 0 (nrSlots sb l) fs) (fresh : ℕ → UInt16) (qname : List UInt8) :
    ∃ ino' s', DirLooked sb l σ.s σ.ino ino' s' ∧
    ((∀ file ∈ fs.map (fileEnts (slotEnt sb l σ.s.vol)), ¬ FileNamed sbi qname file) ∧
      vfatLookup env sb sbi (some fresh) qname σ = ⟨- ENOENT, none, ino', s'⟩ ∨
    ∃ gs f hs, fs = gs ++ f :: hs ∧ FileNamed sbi qname (fileEnts (slotEnt sb l σ.s.vol) f) ∧
      (∀ file ∈ gs.map (fileEnts (slotEnt sb l σ.s.vol)), ¬ FileNamed sbi qname file) ∧
      vfatLookup env sb sbi (some fresh) qname σ = ⟨0, some (rowInfo sb l f.1 f.2), ino', s'⟩) := by
  have hstart : OnlyRead sb l σ.s σ.ino (σ.ino, σ.s) := .refl hready.dir
  unfold vfatLookup
  rw [hready.dir.nrEntries]
  by_cases hne : vfatStriptail qname = []
  · refine ⟨σ.ino, σ.s, hstart, Or.inl ⟨fun file _ hnamed => hnamed.1 hne, ?_⟩⟩
    unfold vfatFind
    rw [if_pos hne]
  obtain ⟨z, hlook, hres⟩ := vfatFind_files (cachedReader_reads (not_readFails_of_noFault henv)) hstart fresh hfiles hne
  rcases hres with ⟨hnone, hfind⟩ | ⟨gs, f, hs, hfs, hgs, hnamed, hfind⟩
  · exact ⟨z.1, z.2, hlook, Or.inl ⟨not_fileNamed hfiles (fun g hg => hg) hnone, hfind⟩⟩
  · obtain ⟨-, -, hpos, -⟩ := hfiles.item_of_mem (f := f) (hfs ▸ List.mem_append_right gs List.mem_cons_self)
    exact ⟨z.1, z.2, hlook, Or.inr ⟨gs, f, hs, hfs, (fileNamed_iff _ hne hpos).2 hnamed,
      not_fileNamed hfiles (fun g hg => hfs ▸ List.mem_append_left _ hg) hgs, hfind⟩⟩

/-- the file that is found is removed -/
theorem fatRemoveEntries_holds (henv : env.NoFault) (opts : InodeOptions) (hready : CachedReady sb s dirsync ino l)
    (hfiles : Files (slotEnt sb l s.vol) 0 (nrSlots sb l) (gs ++ f :: hs)) (now : Timespec) :
    ∃ r, CDriver.fatRemoveEntries env sb opts true dirsync s ino (rowInfo sb l f.1 f.2) now = some r ∧ r.err = 0 ∧
      DirHolds sb dirsync ⟨r.ino, r.s⟩
        ⟨nrSlots sb l, gs.map (fileEnts (slotEnt sb l s.vol)) ++ hs.map (fileEnts (slotEnt sb l s.vol))⟩ := by
  have hmem : f ∈ gs ++ f :: hs := List.mem_append_right gs List.mem_cons_self
  obtain ⟨-, hle, hpos, -⟩ := hfiles.item_of_mem hmem
  have hapart : EntryApart sb (plainDir dirsync ino.toVfsInode) l := by
    intro hsync hroot
    rcases hready.lazy with hlazy | hlazy
    · exact absurd (hlazy.symm.trans hsync) Bool.false_ne_true
    · exact absurd (hroot.symm.trans hlazy) Bool.false_ne_true
  obtain ⟨-, hrem⟩ := fatRemoveEntries_removed hready.plain.dirOn (henv.readable sb l) (fun _ => henv.writable sb l) hapart hpos hle
    ⟨0, 0⟩
  obtain ⟨ino', t, hres, hready', hlook⟩ := CDriver.fatRemoveEntries_agrees henv opts hready hpos hle now ⟨0, 0⟩
  refine ⟨_, hres, rfl, ?_⟩
  simp only
  rw [← hlook.vol] at hrem
  have hkept : ∀ x < nrSlots sb l, x < f.1 ∨ f.1 + f.2 ≤ x → slotEnt sb l t.vol x = slotEnt sb l s.vol x := by
    intro x hx hout
    funext k
    unfold slotEnt
    split_ifs with hk
    · exact hrem.kept x hx hout k hk
    · rfl
  have hfree : ∀ x, f.1 ≤ x → x < f.1 + f.2 → IsFree (slotEnt sb l t.vol x) := by
    intro x h1 h2
    obtain ⟨j, rfl⟩ := Nat.exists_eq_add_of_le h1
    rw [slotEnt_isFree]
    right
    rw [hrem.removed j (by omega) 0 (by decide), if_pos rfl]
  obtain ⟨gs', hs', hsplit, hfiles'⟩ := files_erase hfiles hmem hkept hfree
  -- a file is in the list once, so it was taken away where it was found
  obtain ⟨hnot, -⟩ := List.nodup_cons.1 (List.nodup_middle.1 (files_nodup hfiles))
  rw [List.mem_append, not_or] at hnot
  obtain ⟨rfl, -, rfl⟩ := (List.append_cons_inj_of_notMem hnot.1 hnot.2).1 hsplit
  refine ⟨l, _, hready', hfiles', ?_⟩
  rw [← List.map_append, map_fileEnts_congr]
  intro g hg x h1 h2
  obtain ⟨-, hgle, -, hgfile⟩ := hfiles'.item_of_mem hg
  refine (hkept x (by omega) ?_).symm
  by_contra hin
  exact hgfile.not_free h1 h2 (hfree x (by omega) (by omega))

/-- a name that is added is one file more -/
theorem NameAdded.serves {r : CDriver.AddEntries} {cs : List ℤ} {m : ℕ} {aenv : AddEnv} {isDir : Bool} {cluster : ℤ} {ts : Timespec}
    (h : NameAdded sb sbi dirsync s l fs (vfatStriptail qname) r cs a m) (hfiles : Files (slotEnt sb l s.vol) 0 (nrSlots sb l) fs) :
    ∃ A', DirServes sbi ⟨nrSlots sb l, fs.map (fileEnts (slotEnt sb l s.vol))⟩ (.add env aenv qname isDir cluster ts) (some 0) A' ∧
      DirHolds sb dirsync ⟨r.ino, r.s⟩ A' := by
  obtain ⟨gs, hs, hfs, hfiles'⟩ := h.files
  have hgs : gs.map (fileEnts (slotEnt sb (l ++ cs) r.s.vol)) = gs.map (fileEnts (slotEnt sb l s.vol)) :=
    map_fileEnts_congr fun f hf => h.kept f (hfs ▸ List.mem_append_left hs hf)
  have hhs : hs.map (fileEnts (slotEnt sb (l ++ cs) r.s.vol)) = hs.map (fileEnts (slotEnt sb l s.vol)) :=
    map_fileEnts_congr fun f hf => h.kept f (hfs ▸ List.mem_append_right gs hf)
  refine ⟨_, ?_, l ++ cs, _, h.ready, hfiles', rfl⟩
  rw [List.map_append, List.map_cons, hgs, hhs]
  have hnew : ∀ g ∈ fs.map (fileEnts (slotEnt sb l s.vol)),
      fileShort g ≠ fileShort (fileEnts (slotEnt sb (l ++ cs) r.s.vol) (a, m + 1)) := by
    intro g hg
    obtain ⟨f, hf, rfl⟩ := List.mem_map.1 hg
    obtain ⟨-, -, hpos, -⟩ := hfiles.item_of_mem hf
    rw [fileShort_fileEnts _ hpos, fileShort_fileEnts _ (Nat.succ_pos m)]
    exact h.new f hf
  rw [hfs, List.map_append] at hnew ⊢
  have hgrown : nrSlots sb l ≤ nrSlots sb (l ++ cs) := by
    unfold nrSlots
    rw [nrBlocks_append]
    exact Nat.mul_le_mul_right _ (Nat.le_add_right _ _)
  refine .added hgrown ?_ hnew
  unfold FileChars
  rw [fileEnts_length]
  intro hm
  obtain ⟨uname, ulen, hx, hchars⟩ := h.chars hm
  refine ⟨uname, ulen, hx, fun p hp => ?_⟩
  rw [hchars p hp]
  exact congrArg some (rowChar_fileEnts _ hp).symm

/-- **One call** does to the directory what the abstract directory does, and answers what it answers. -/
theorem dirStep_serves (hmakes : sbi.MakesNames) (h : DirHolds sb dirsync σ A) (c : DirCall) (hc : c.Allowed sbi) :
    ∃ A', DirServes sbi A c (dirStep sb opts sbi dirsync σ c).2 A' ∧ DirHolds sb dirsync (next (dirStep sb opts sbi dirsync) σ c) A' := by
  obtain ⟨l, fs, hready, hfiles, rfl⟩ := h
  unfold next
  cases c with
  | find env fresh qname =>
    obtain ⟨ino', s', hlook, hres⟩ := vfatLookup_holds sbi hc hready hfiles fresh qname
    rcases hres with ⟨hnone, hfind⟩ | ⟨gs, f, hs, rfl, hnamed, -, hfind⟩
    · have hstep : dirStep sb opts sbi dirsync σ (.find env fresh qname) = (⟨ino', s'⟩, some (- (ENOENT : ℤ))) := by
        simp only [dirStep, hfind]
      rw [hstep]
      exact ⟨_, .missing hnone, .looked hready hfiles hlook⟩
    · have hstep : dirStep sb opts sbi dirsync σ (.find env fresh qname) = (⟨ino', s'⟩, some 0) := by
        simp only [dirStep, hfind]
      rw [hstep]
      exact ⟨_, .found (List.mem_map_of_mem (List.mem_append_right gs List.mem_cons_self)) hnamed, .looked hready hfiles hlook⟩
  | add env aenv qname isDir cluster ts =>
    have hends : NameOutcome sb sbi dirsync aenv σ.s σ.ino l fs (vfatStriptail qname)
        (vfatAddEntry env sb opts sbi dirsync σ.s σ.ino aenv qname isDir cluster ts) := vfatAddEntry_ends hc.1 hready hmakes hfiles hc.2
    simp only [dirStep]
    generalize vfatAddEntry env sb opts sbi dirsync σ.s σ.ino aenv qname isDir cluster ts = o at hends
    cases hends with
    | refused why =>
      refine ⟨_, .refused why.err (why.why.mono fun n _ ⟨f, hf, hname⟩ => ?_), .stays why.ready hfiles why.stays⟩
      obtain ⟨-, -, hpos, -⟩ := hfiles.item_of_mem hf
      exact ⟨_, List.mem_map_of_mem hf, (fileShort_fileEnts _ hpos).trans hname⟩
    | added new =>
      simp only [new.err]
      exact new.serves hfiles
    | endless large => exact ⟨_, .endless large, l, fs, hready, hfiles, rfl⟩
  | unlink env fresh qname now =>
    obtain ⟨ino', s', hlook, hres⟩ := vfatLookup_holds sbi hc hready hfiles fresh qname
    rcases hres with ⟨hnone, hfind⟩ | ⟨gs, f, hs, rfl, hnamed, hgs, hfind⟩
    · have hstep : dirStep sb opts sbi dirsync σ (.unlink env fresh qname now) = (⟨ino', s'⟩, some (- (ENOENT : ℤ))) := by
        simp only [dirStep, vfatUnlink, hfind]
      rw [hstep]
      exact ⟨_, .absent hnone, .looked hready hfiles hlook⟩
    · rw [← hlook.looked.vol] at hfiles
      obtain ⟨r, hr, herr, hholds⟩ := fatRemoveEntries_holds hc opts (hready.of_looked hlook) hfiles now
      have hstep : dirStep sb opts sbi dirsync σ (.unlink env fresh qname now) = (⟨r.ino, r.s⟩, some 0) := by
        simp only [dirStep, vfatUnlink, hfind, hr, Option.map_some, herr]
      rw [hlook.looked.vol] at hholds
      rw [hstep, List.map_append, List.map_cons]
      exact ⟨_, .removed hnamed hgs, hholds⟩

/-- short names that are apart stay apart -/
theorem DirServes.nodup {c : DirCall} {ans : Option ℤ} (h : DirServes sbi A c ans A') (hnodup : (A.files.map fileShort).Nodup) :
    (A'.files.map fileShort).Nodup := by
  cases h with
  | found | missing | refused | endless | absent => exact hnodup
  | added grown chars new =>
    simp only at hnodup ⊢
    rw [List.map_append, List.map_cons, List.nodup_middle, List.nodup_cons, ← List.map_append]
    refine ⟨fun hmem => ?_, hnodup⟩
    obtain ⟨g, hg, heq⟩ := List.mem_map.1 hmem
    exact new g hg heq
  | removed named first =>
    simp only at hnodup ⊢
    rw [List.map_append, List.map_cons, List.nodup_middle, List.nodup_cons, ← List.map_append] at hnodup
    exact hnodup.2

end

/-- the directory of `namesSt` -/
def namesDir : DirVolume := ⟨namesInode, namesSt⟩

/-- its files -/
def namesListing : Listing := ⟨32, [(1, 3), (4, 1)].map (fileEnts (slotEnt tinySb [3] namesSt.vol))⟩

/-- `Long Name.text` is found, `Long Names.text` is added, and `AB` is removed and no more there -/
def findAddUnlink : List DirCall := [
  .find goodEnv (fun _ => 7) longNameAsked,
  .add goodEnv ⟨true, true, 7, 7⟩ longNamesAsked false 0 ⟨0, 0⟩,
  .unlink goodEnv (fun _ => 7) ("ab".toList.map ch) ⟨0, 0⟩,
  .find goodEnv (fun _ => 7) ("AB".toList.map ch)]

end AtsLdd.Vfat
