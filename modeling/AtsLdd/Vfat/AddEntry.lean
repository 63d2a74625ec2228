/-
Adding a name to a directory: `vfat_build_slots` and `vfat_add_entry` (namei_vfat.c).

- `vfatBuildSlots_built`: what is built is the slots of the name and an entry with a short name that the directory does not have;
- `vfatAddEntry_outcome`: in a directory that is a row of files, a name that is refused changes no file, and one that is added is
  a file more.
-/
import AtsLdd.Fat.Create
import AtsLdd.Vfat.Find
import AtsLdd.Vfat.LongSlots

namespace AtsLdd.Vfat

open AtsLdd.Fat AtsLdd.Division
open AtsLdd.Fat.CDriver (CachedDir CachedInode CachedReady DirLooked not_readFails_of_noFault ReadFails plainDir)

/-! ## The code -/

/-- the entry with the short name that `vfat_build_slots` puts behind the slots of the long one -/
def shortEntry (tz : TimeZone) (name : List UInt8) (isDir : Bool) (lcase : UInt8) (cluster : ℤ) (ts : Timespec) : List UInt8 :=
  let t := fatTimeUnix2fat tz ts
  -- `ctime`, `cdate` and `adate` before `starthi`, `time` and `date` behind it
  name ++ [if isDir then ATTR_DIR else ATTR_ARCH] ++ [lcase, UInt8.ofNat t.timeCs] ++ le16Bytes t.time ++ le16Bytes t.date ++
    le16Bytes t.date ++ le16Bytes (cluster / 2 ^ 16) ++ le16Bytes t.time ++ le16Bytes t.date ++ le16Bytes cluster ++ [0, 0, 0, 0]

/-- what `vfat_build_slots` leaves: 0 or a negative error, the slots and their number -/
structure BuiltSlots where
  err : ℤ
  slots : List UInt8
  nrSlots : ℕ
  ino : CachedInode
  s : St

/-- what the kernel gives to a call: whether `kmalloc` and `__getname` find memory, and the two times that `jiffies` is read -/
structure AddEnv where
  kmalloc : Bool
  getname : Bool
  jiffies : ℕ
  jiffies' : ℕ

/-- `vfat_build_slots`; `none` is `BUG`, or a search for a short name that does not end -/
def vfatBuildSlots (env : Env) (sb : FatSb) (sbi : VfatSb) (tz : TimeZone) (ino : CachedInode) (aenv : AddEnv) (name : List UInt8)
    (isDir : Bool) (cluster : ℤ) (ts : Timespec) (s : St) : Option BuiltSlots :=
  if aenv.getname = false then some ⟨- ENOMEM, [], 0, ino, s⟩
  else
    match xlateToUni sbi name with
    | .error err => some ⟨err, [], 0, ino, s⟩
    | .ok (uname, ulen) =>
      if vfatIsUsedBadchars (uname.take ulen) ≠ 0 then some ⟨vfatIsUsedBadchars (uname.take ulen), [], 0, ino, s⟩
      else
        match vfatCreateShortname sbi (vfatFindForm env sb) (2 ^ 16) aenv.jiffies aenv.jiffies' (uname.take ulen) (ino, s) with
        | none => none
        | some r =>
          if r.ret < 0 then some ⟨r.ret, [], 0, r.s.1, r.s.2⟩
          else
            let de := shortEntry tz r.nameRes isDir r.lcase cluster ts
            if r.ret = 1 then some ⟨0, de, 1, r.s.1, r.s.2⟩
            else some ⟨0, longSlots uname (fatChecksum r.nameRes) (uname.length / 13) ++ de, uname.length / 13 + 1, r.s.1, r.s.2⟩

/-- `vfat_add_entry`; `none` is also a `BUG_ON` of `fat_add_entries` -/
def vfatAddEntry (env : Env) (sb : FatSb) (opts : InodeOptions) (sbi : VfatSb) (dirsync : Bool) (s : St) (ino : CachedInode)
    (aenv : AddEnv) (qname : List UInt8) (isDir : Bool) (cluster : ℤ) (ts : Timespec) : Option CDriver.AddEntries :=
  if vfatStriptail qname = [] then some ⟨- ENOENT, none, ino, s⟩
  else if aenv.kmalloc = false then some ⟨- ENOMEM, none, ino, s⟩
  else
    match vfatBuildSlots env sb sbi opts.tz ino aenv (vfatStriptail qname) isDir cluster ts s with
    | none => none
    | some w =>
      if w.err ≠ 0 then some ⟨w.err, none, w.ino, w.s⟩
      else
        match CDriver.fatAddEntries env sb opts true dirsync w.s w.ino w.slots w.nrSlots with
        | none => none
        | some r =>
          if r.err ≠ 0 then some r
          else
            let ino := { r.ino with iAtime := ts, iMtime := ts, iCtime := ts }
            some { r with ino := ino, s := if dirsync then (fatWriteInode env sb opts r.s ino.toVfsInode true).2 else r.s }

/-! ## The slots of a name -/

section
variable {env : Env} {sb : FatSb} {sbi : VfatSb} {tz : TimeZone} {opts : InodeOptions} {dirsync : Bool} {ino : CachedInode}
  {l cs : List ℤ} {s s' : St} {aenv : AddEnv}
  {name qname : List UInt8} {isDir : Bool} {cluster : ℤ} {ts : Timespec} {es es' : ℕ → Buf} {n i k m a x : ℕ} {fs : List (ℕ × ℕ)}
  {uname u : List UInt16} {de de' : Buf}

theorem shortEntry_length (hname : name.length = MSDOS_NAME) (lcase : UInt8) :
    (shortEntry tz name isDir lcase cluster ts).length = DENT_SIZE := by
  unfold shortEntry le16Bytes
  simp only [List.length_append, List.length_cons, List.length_nil, hname]
  rfl

/-- the name and the attributes of an entry that holds the bytes -/
theorem shortEntry_fields {lcase : UInt8} (hname : name.length = MSDOS_NAME)
    (hde : Holds32 de (shortEntry tz name isDir lcase cluster ts)) :
    entName de = name ∧ entAttr de = if isDir then ATTR_DIR else ATTR_ARCH := by
  have hget : ∀ k < MSDOS_NAME, name[k]? = some (de k) := by
    intro k hk
    have h := hde k (hk.trans (by decide))
    unfold shortEntry at h
    simp only [List.append_assoc] at h
    rwa [List.getElem?_append_left (by rw [hname]; exact hk)] at h
  constructor
  · unfold entName
    apply List.ext_getElem?
    intro k
    rcases Nat.lt_or_ge k MSDOS_NAME with hk | hk
    · rw [hget k hk, List.getElem?_map, List.getElem?_range hk, Option.map_some]
    · rw [List.getElem?_eq_none (by simpa using hk), List.getElem?_eq_none (by rw [hname]; exact hk)]
  · have h := hde 11 (by decide)
    unfold shortEntry at h
    simp only [List.append_assoc] at h
    rw [List.getElem?_append_right (by rw [hname]; decide), hname] at h
    exact (Option.some.inj h).symm

/-- a short name is not the mark of a free entry, and its entry is not a volume label -/
theorem shortEntry_live {lcase : UInt8} (hgood : GoodName name) (hde : Holds32 de (shortEntry tz name isDir lcase cluster ts)) :
    Live de := by
  obtain ⟨hent, hattr⟩ := shortEntry_fields hgood.length hde
  have hhead : name.head? = some (de 0) := by
    rw [← hent]
    rfl
  refine ⟨?_, ?_⟩
  · rintro (h0 | h0)
    · exact hgood.zero (List.mem_of_mem_head? (by rw [hhead, h0]; rfl))
    · exact hgood.deleted (by rw [hhead, h0])
  · rw [hattr]
    cases isDir <;> decide

/-- there is room for 256 characters -/
theorem xlateLoop_length_le {nls : Nls} {escape : Bool} (room : ℕ) : ∀ {name : List UInt8} {u : List UInt16},
    xlateLoop nls escape room name = .ok u → u.length ≤ room := by
  induction room with
  | zero =>
    intro name u h
    cases name with
    | nil =>
      rw [xlateLoop, Except.ok.injEq] at h
      rw [← h]
      exact le_rfl
    | cons c ip => cases h
  | succ room ih =>
    have hmap : ∀ {w : UInt16} {rest : List UInt8} {u : List UInt16}, (xlateLoop nls escape room rest).map (w :: ·) = .ok u →
        u.length ≤ room + 1 := by
      intro w rest u h
      cases hrest : xlateLoop nls escape room rest with
      | error err =>
        rw [hrest] at h
        cases h
      | ok v =>
        rw [hrest] at h
        rw [← Except.ok.inj h, List.length_cons]
        exact Nat.succ_le_succ (ih hrest)
    intro name u h
    cases name with
    | nil =>
      rw [xlateLoop, Except.ok.injEq] at h
      rw [← h]
      exact Nat.zero_le _
    | cons c ip =>
      rw [xlateLoop] at h
      split_ifs at h
      · split at h
        · cases h
        · exact hmap h
      · split at h
        · cases h
        · exact hmap h

/-- the characters fill up to 20 slots -/
theorem xlateToUni_slots {ulen : ℕ} (h : xlateToUni sbi name = .ok (uname, ulen)) :
    uname.length = 13 * (uname.length / 13) ∧ uname.length / 13 ≤ 20 := by
  have hfill : ∃ u : List UInt16, u.length ≤ 256 ∧ fillSlots u = uname := by
    unfold xlateToUni at h
    split_ifs at h with hutf8
    · split at h
      · cases h
      · split_ifs at h with hlong
        · cases h
        · exact ⟨_, by omega, congrArg Prod.fst (Except.ok.inj h)⟩
    · cases hx : xlateLoop sbi.nlsIo sbi.unicodeXlate 256 name with
      | error err =>
        rw [hx] at h
        cases h
      | ok u =>
        rw [hx] at h
        exact ⟨u, xlateLoop_length_le 256 hx, congrArg Prod.fst (Except.ok.inj h)⟩
  obtain ⟨u, hu, rfl⟩ := hfill
  obtain ⟨h13, -, hlt⟩ := fillSlots_length u
  omega

theorem xlateLoop_error {nls : Nls} {escape : Bool} (room : ℕ) : ∀ {name : List UInt8} {err : ℤ},
    xlateLoop nls escape room name = .error err → err ≠ 0 := by
  induction room with
  | zero =>
    intro name err h
    cases name with
    | nil => cases h
    | cons c ip =>
      rw [xlateLoop, Except.error.injEq] at h
      rw [← h]
      decide
  | succ room ih =>
    have hmap : ∀ {w : UInt16} {rest : List UInt8} {err : ℤ}, (xlateLoop nls escape room rest).map (w :: ·) = .error err →
        err ≠ 0 := by
      intro w rest err h
      cases hrest : xlateLoop nls escape room rest with
      | error e =>
        rw [hrest] at h
        rw [← Except.error.inj h]
        exact ih hrest
      | ok v =>
        rw [hrest] at h
        cases h
    have hinval : ∀ {err : ℤ}, (Except.error (- EINVAL) : Except ℤ (List UInt16)) = .error err → err ≠ 0 := by
      intro err h
      rw [← Except.error.inj h]
      decide
    intro name err h
    cases name with
    | nil => cases h
    | cons c ip =>
      rw [xlateLoop] at h
      split_ifs at h
      · exact hinval h
      · split at h
        · exact hinval h
        · exact hmap h
      · split at h
        · exact hinval h
        · exact hmap h

/-- a mount by which names can be made short, and whose table of UTF-8 fails with error codes -/
structure VfatSb.MakesNames (sbi : VfatSb) : Prop where
  sane : sbi.nlsDisk.Sane
  flags : sbi.shortname &&& VFAT_SFN_CREATE_WIN95 ≠ 0 ∨ sbi.shortname &&& VFAT_SFN_CREATE_WINNT ≠ 0
  utf8 : ∀ name err, sbi.utf8sToUtf16s name = .error err → err ≠ 0

theorem VfatSb.MakesNames.error (h : sbi.MakesNames) {err : ℤ} (hx : xlateToUni sbi name = .error err) : err ≠ 0 := by
  unfold xlateToUni at hx
  split_ifs at hx with hutf8
  · split at hx
    case h_1 e he =>
      rw [← Except.error.inj hx]
      exact h.utf8 name e he
    case h_2 u hu =>
      split_ifs at hx with hlong
      · rw [← Except.error.inj hx]
        decide
      · cases hx
  · cases hloop : xlateLoop sbi.nlsIo sbi.unicodeXlate 256 name with
    | error e =>
      rw [hloop] at hx
      rw [← Except.error.inj hx]
      exact xlateLoop_error 256 hloop
    | ok u =>
      rw [hloop] at hx
      cases hx

/-- the characters of a name are not zero -/
def NoZero (sbi : VfatSb) (name : List UInt8) : Prop :=
  ∀ uname ulen, xlateToUni sbi name = .ok (uname, ulen) → ∀ w ∈ uname.take ulen, w ≠ 0

/-- the slots that are built: `m` of the long name, and the entry with a short name that no entry has -/
structure Built (sb : FatSb) (sbi : VfatSb) (l : List ℤ) (vol : Vol) (name : List UInt8) (w : BuiltSlots) (short : List UInt8)
    (long : List UInt16) (m : ℕ) : Prop where
  nr : w.nrSlots = m + 1
  le : m ≤ 20
  length : long.length = 13 * m
  chars : m ≠ 0 → ∃ ulen, xlateToUni sbi name = .ok (long, ulen)
  good : GoodName short
  new : ∀ j < nrSlots sb l, Live (slotEnt sb l vol j) → entName (slotEnt sb l vol j) ≠ short
  slots : ∃ tz isDir lcase cluster ts, w.slots = longSlots long (fatChecksum short) m ++ shortEntry tz short isDir lcase cluster ts

/-- why a name is refused, and the error; `Has` are the short names that the directory has -/
inductive Refusal (sbi : VfatSb) (aenv : AddEnv) (Has : List UInt8 → Prop) (name : List UInt8) : ℤ → Prop
  | empty (nil : name = []) : Refusal sbi aenv Has name (- ENOENT)
  | memory (fails : aenv.kmalloc = false ∨ aenv.getname = false) : Refusal sbi aenv Has name (- ENOMEM)
  | chars {err : ℤ} (fails : xlateToUni sbi name = .error err) : Refusal sbi aenv Has name err
  | bad {uname : List UInt16} {ulen : ℕ} (chars : xlateToUni sbi name = .ok (uname, ulen))
      (bad : vfatIsUsedBadchars (uname.take ulen) ≠ 0) : Refusal sbi aenv Has name (vfatIsUsedBadchars (uname.take ulen))
  | short {uname : List UInt16} {ulen : ℕ} {err : ℤ} (chars : xlateToUni sbi name = .ok (uname, ulen))
      (refused : ShortRefused sbi.nlsDisk (uname.take ulen) Has err) : Refusal sbi aenv Has name err
  | space : Refusal sbi aenv Has name (- ENOSPC)

theorem ShortRefused.mono {nls : Nls} {Has Has' : List UInt8 → Prop} {err : ℤ} (h : ShortRefused nls u Has err)
    (hhas : ∀ n, GoodName n → Has n → Has' n) : ShortRefused nls u Has' err := by
  cases h with
  | empty base => exact .empty base
  | taken good has => exact .taken good (hhas _ good has)

theorem Refusal.mono {Has Has' : List UInt8 → Prop} {err : ℤ} (h : Refusal sbi aenv Has name err)
    (hhas : ∀ n, GoodName n → Has n → Has' n) : Refusal sbi aenv Has' name err := by
  cases h with
  | empty nil => exact .empty nil
  | memory fails => exact .memory fails
  | chars fails => exact .chars fails
  | bad chars bad => exact .bad chars bad
  | short chars refused => exact .short chars (refused.mono hhas)
  | space => exact .space

/-- **What `vfat_build_slots` builds.** -/
theorem vfatBuildSlots_built (hdir : CachedDir sb s.vol l ino) (hread : ¬ ReadFails env) (hmakes : sbi.MakesNames)
    (hzero : NoZero sbi name) :
    (∃ w, vfatBuildSlots env sb sbi tz ino aenv name isDir cluster ts s = some w ∧ DirLooked sb l s ino w.ino w.s ∧
      (w.err ≠ 0 → Refusal sbi aenv (fun n => ∃ j < nrSlots sb l, HasName sb l s.vol n j) name w.err) ∧
      (w.err = 0 → ∃ short long m, Built sb sbi l s.vol name w short long m)) ∨
    vfatBuildSlots env sb sbi tz ino aenv name isDir cluster ts s = none ∧ 2 ^ 16 < nrSlots sb l := by
  unfold vfatBuildSlots
  by_cases hget : aenv.getname = false
  · rw [if_pos hget]
    exact Or.inl ⟨_, rfl, DirLooked.refl hdir, fun _ => .memory (Or.inr hget), fun h => absurd h (show (- ENOMEM : ℤ) ≠ 0 by decide)⟩
  rw [if_neg hget]
  cases hx : xlateToUni sbi name with
  | error err => exact Or.inl ⟨_, rfl, DirLooked.refl hdir, fun _ => .chars hx, fun h => absurd h (hmakes.error hx)⟩
  | ok p =>
    obtain ⟨uname, ulen⟩ := p
    simp only
    by_cases hbad : vfatIsUsedBadchars (uname.take ulen) ≠ 0
    · rw [if_pos hbad]
      exact Or.inl ⟨_, rfl, DirLooked.refl hdir, fun _ => .bad hx hbad, fun h => absurd h hbad⟩
    rw [if_neg hbad]
    have hstart : OnlyRead sb l s ino (ino, s) := .refl hdir
    rcases vfatCreateShortname_new (vfatFindForm_finds hread) hmakes.sane hmakes.flags (hzero uname ulen hx) hstart
      (2 ^ 16) aenv.jiffies aenv.jiffies' with ⟨r, hr, hshort⟩ | ⟨hnone, hmany⟩
    · rw [hr]
      simp only
      by_cases hneg : r.ret < 0
      · rw [if_pos hneg]
        exact Or.inl ⟨_, rfl, hshort.inv, fun _ => .short hx (hshort.err hneg), fun h => absurd h hneg.ne⟩
      rw [if_neg hneg]
      have hret := not_lt.1 hneg
      have hnew : ∀ j < nrSlots sb l, Live (slotEnt sb l s.vol j) → entName (slotEnt sb l s.vol j) ≠ r.nameRes := by
        intro j hj hlive heq
        exact hshort.new hret ⟨j, hj, hlive, by rw [heq]; exact strncmpEq_refl _⟩
      by_cases h1 : r.ret = 1
      · -- the short name is the whole name
        rw [if_pos h1]
        exact Or.inl ⟨_, rfl, hshort.inv, fun h => absurd rfl h, fun _ => ⟨r.nameRes, [], 0, rfl, by decide, rfl,
          fun h => absurd rfl h, hshort.good hret, hnew, ⟨_, _, _, _, _, rfl⟩⟩⟩
      · rw [if_neg h1]
        obtain ⟨h13, h20⟩ := xlateToUni_slots hx
        exact Or.inl ⟨_, rfl, hshort.inv, fun h => absurd rfl h, fun _ => ⟨r.nameRes, uname, uname.length / 13, rfl, h20, h13,
          fun _ => ⟨ulen, hx⟩, hshort.good hret, hnew, ⟨_, _, _, _, _, rfl⟩⟩⟩
    · rw [hnone]
      exact Or.inr ⟨rfl, not_le.1 fun hsmall => not_tooMany hsmall s.vol (hmany le_rfl)⟩

/-- the slots that are built are those of a file, where they are stored -/
theorem built_row (es : ℕ → Buf) {vol : Vol} {w : BuiltSlots} {short : List UInt8} {long : List UInt16}
    (h : Built sb sbi l vol name w short long m)
    (hes : ∀ j < w.nrSlots, ∀ k < DENT_SIZE, w.slots[DENT_SIZE * j + k]? = some (es (i + j) k)) :
    FileRow es i (m + 1) ∧ entName (es (i + m)) = short ∧ ∀ p < 13 * m, long[p]? = some (rowChar es i m p) := by
  obtain ⟨tz, isDir, lcase, cluster, ts, hslots⟩ := h.slots
  have hlen := longSlots_length (fatChecksum short) h.length.ge
  rw [hslots, h.nr] at hes
  have hshort : Holds32 (es (i + m)) (shortEntry tz short isDir lcase cluster ts) := by
    intro k hk
    have hk' := hes m (Nat.lt_succ_self m) k hk
    rwa [List.getElem?_append_right (by omega), hlen, Nat.add_sub_cancel_left] at hk'
  have hlong : ∀ t < m, ∀ k < DENT_SIZE, (longSlots long (fatChecksum short) m)[DENT_SIZE * t + k]? = some (es (i + t) k) := by
    intro t ht k hk
    have hlt : DENT_SIZE * t + k < DENT_SIZE * m := by
      have hmul := Nat.mul_le_mul_left DENT_SIZE ht
      rw [Nat.mul_succ] at hmul
      omega
    rw [← hes t (by omega) k hk, List.getElem?_append_left (by omega)]
  have hname := (shortEntry_fields h.good.length hshort).1
  have hlive := shortEntry_live h.good hshort
  rcases Nat.eq_zero_or_pos m with rfl | hm
  · exact ⟨⟨Nat.one_pos, hlive, fun h0 => absurd rfl h0⟩, hname, fun p hp => absurd hp (Nat.not_lt_zero p)⟩
  · obtain ⟨hrow, hchars⟩ := longSlots_row h.length hm h.le (by rw [hname]) hlong
    exact ⟨⟨Nat.succ_pos m, hlive, fun _ => hrow⟩, hname, hchars⟩

theorem Built.slots_length {vol : Vol} {w : BuiltSlots} {short : List UInt8} {long : List UInt16}
    (h : Built sb sbi l vol name w short long m) : w.slots.length = DENT_SIZE * w.nrSlots := by
  obtain ⟨tz, isDir, lcase, cluster, ts, hslots⟩ := h.slots
  rw [hslots, List.length_append, longSlots_length _ h.length.ge, shortEntry_length h.good.length, h.nr, Nat.mul_succ]

/-! ## Files that stay -/

/-- an entry that is free stays free, and one that is not stays as it is -/
structure Stays (de de' : Buf) : Prop where
  free : IsFree de' ↔ IsFree de
  same : ¬ IsFree de → de' = de

theorem Stays.of_eq (h : de' = de) : Stays de de' := ⟨by rw [h], fun _ => h⟩

theorem Stays.of_free (h : IsFree de) (h' : IsFree de') : Stays de de' := ⟨⟨fun _ => h, fun _ => h'⟩, fun hf => absurd h hf⟩

theorem slotEnt_stays {l' : List ℤ} {vol vol' : Vol} (h : SlotKept (slot sb l vol i) (slot sb l' vol' i)) :
    Stays (slotEnt sb l vol i) (slotEnt sb l' vol' i) := by
  rw [SlotKept, ← slotEnt_isFree, ← slotEnt_isFree] at h
  refine ⟨h.1, fun hf => funext fun k => ?_⟩
  unfold slotEnt
  split_ifs with hk
  · exact h.2 hf k hk
  · rfl

theorem Stays.skipped (h : Stays de de') (hskip : Skipped de) : Skipped de' := by
  by_cases hf : IsFree de
  · exact Or.inl (h.free.2 hf)
  · rw [h.same hf]
    exact hskip

theorem FileRow.stays (h : FileRow es i k) (hstay : ∀ x, i ≤ x → x < i + k → Stays (es x) (es' x)) : FileRow es' i k :=
  h.congr fun x h1 h2 => (hstay x h1 h2).same (h.not_free h1 h2)

theorem files_stay (h : Files es 0 n fs) (hstay : ∀ x < n, Stays (es x) (es' x)) : Files es' 0 n fs :=
  h.mono (fun x _ hlt hskip => (hstay x hlt).skipped hskip) fun x k _ hle hrow => hrow.stays fun y _ hlt => hstay y (by omega)

/-- the files outside the `k` entries from entry `a` on stay -/
theorem outside_of_stays (hstay : ∀ x, x < a ∨ a + k ≤ x → Stays (es x) (es' x)) :
    Outside (fun x => Skipped (es x)) (fun x => Skipped (es' x)) (FileRow es) (FileRow es') a k where
  blank := fun x hx hskip => (hstay x hx).skipped hskip
  item := fun x m hx hrow => hrow.stays fun y h1 h2 => hstay y (by omega)

/-- the first `n` entries, with free ones behind them -/
def cutAt (es : ℕ → Buf) (n : ℕ) : ℕ → Buf := fun x => if x < n then es x else fun _ => 0

theorem cutAt_free (es : ℕ → Buf) (hx : n ≤ x) : IsFree (cutAt es n x) := by
  unfold cutAt
  rw [if_neg (not_lt.2 hx)]
  exact Or.inl rfl

theorem cutAt_stays (es : ℕ → Buf) (hx : x < n) : Stays (es x) (cutAt es n x) := Stays.of_eq (if_pos hx)

theorem stays_cutAt (es : ℕ → Buf) (hx : x < n) : Stays (cutAt es n x) (es x) := Stays.of_eq (if_pos hx).symm

/-- **A file is put where entries are free**, or behind the end of the directory, which gets free entries behind it. -/
theorem files_insert {n' : ℕ} (h : Files es 0 n fs) (hn : n ≤ n') (hk : 0 < k) (ha : a ≤ n) (hfit : a + k ≤ n')
    (hfree : ∀ x, a ≤ x → x < a + k → x < n → IsFree (es x)) (hkept : ∀ x < n, x < a ∨ a + k ≤ x → es' x = es x)
    (hbehind : ∀ x, n ≤ x → a + k ≤ x → x < n' → IsFree (es' x)) (hrow : FileRow es' a k) :
    ∃ gs hs, fs = gs ++ hs ∧ Files es' 0 n' (gs ++ (a, k) :: hs) := by
  have hcut : Files (cutAt es n) 0 n' fs := by
    rw [← List.append_nil fs]
    exact Divided.append (files_stay h fun x hx => cutAt_stays es hx) (.of_blank hn fun x hx _ => Or.inl (cutAt_free es hx))
  have hclear : Clear (FileRow (cutAt es n)) a k := by
    apply FileRow.clear hk
    intro x h1 h2
    rcases Nat.lt_or_ge x n with hx | hx
    · exact (cutAt_stays es hx).free.2 (hfree x h1 h2 hx)
    · exact cutAt_free es hx
  have hout : ∀ x, x < a ∨ a + k ≤ x → Stays (cutAt es n x) (cutAt es' n' x) := by
    intro x hx
    rcases Nat.lt_or_ge x n with hlt | hge
    · refine Stays.of_eq ?_
      unfold cutAt
      rw [if_pos hlt, if_pos (hlt.trans_le hn), hkept x hlt hx]
    refine Stays.of_free (cutAt_free es hge) ?_
    rcases Nat.lt_or_ge x n' with hlt' | hge'
    · exact (cutAt_stays es' hlt').free.2 (hbehind x hge (by omega) hlt')
    · exact cutAt_free es' hge'
  have hrow' : FileRow (cutAt es' n') a k := hrow.stays fun x _ h2 => cutAt_stays es' (by omega)
  obtain ⟨gs, hs, hfs, hfiles⟩ := hcut.insert (Nat.zero_le a) hfit hk hclear (outside_of_stays hout) hrow'
  exact ⟨gs, hs, hfs, files_stay hfiles fun x hx => stays_cutAt es' hx⟩

/-! ## A name is added -/

/-- the short name of a file, in its last entry -/
def HasFile (es : ℕ → Buf) (fs : List (ℕ × ℕ)) (name : List UInt8) : Prop := ∃ f ∈ fs, entName (es (f.1 + (f.2 - 1))) = name

/-- the name is refused, and no file has changed; nor has what of the inode says where the directory is -/
structure NameRefused (sb : FatSb) (sbi : VfatSb) (dirsync : Bool) (aenv : AddEnv) (s : St) (ino : CachedInode) (l : List ℤ)
    (fs : List (ℕ × ℕ)) (name : List UInt8) (r : CDriver.AddEntries) : Prop where
  err : r.err ≠ 0
  why : Refusal sbi aenv (HasFile (slotEnt sb l s.vol) fs) name r.err
  same : plainDir dirsync r.ino.toVfsInode = plainDir dirsync ino.toVfsInode
  ready : CachedReady sb r.s dirsync r.ino l
  stays : ∀ x < nrSlots sb l, Stays (slotEnt sb l s.vol x) (slotEnt sb l r.s.vol x)

/-- the file at the `m + 1` entries from entry `a` on is new, with the characters of the name if it has a long one, and a short name
that no file has; the others are as they were -/
structure NameAdded (sb : FatSb) (sbi : VfatSb) (dirsync : Bool) (s : St) (l : List ℤ) (fs : List (ℕ × ℕ)) (name : List UInt8)
    (r : CDriver.AddEntries) (cs : List ℤ) (a m : ℕ) : Prop where
  err : r.err = 0
  ready : CachedReady sb r.s dirsync r.ino (l ++ cs)
  files : ∃ gs hs, fs = gs ++ hs ∧ Files (slotEnt sb (l ++ cs) r.s.vol) 0 (nrSlots sb (l ++ cs)) (gs ++ (a, m + 1) :: hs)
  kept : ∀ f ∈ fs, ∀ x, f.1 ≤ x → x < f.1 + f.2 → slotEnt sb (l ++ cs) r.s.vol x = slotEnt sb l s.vol x
  new : ∀ f ∈ fs, entName (slotEnt sb l s.vol (f.1 + (f.2 - 1))) ≠ entName (slotEnt sb (l ++ cs) r.s.vol (a + m))
  chars : m ≠ 0 → ∃ uname ulen, xlateToUni sbi name = .ok (uname, ulen) ∧
    ∀ p < 13 * m, uname[p]? = some (rowChar (slotEnt sb (l ++ cs) r.s.vol) a m p)
  sinfo : r.sinfo = some (rowInfo sb (l ++ cs) a (m + 1))

/-- how a call ends: the name is refused or added, and only in a directory of more than 65536 entries can a search be endless -/
inductive NameOutcome (sb : FatSb) (sbi : VfatSb) (dirsync : Bool) (aenv : AddEnv) (s : St) (ino : CachedInode) (l : List ℤ)
    (fs : List (ℕ × ℕ)) (name : List UInt8) : Option CDriver.AddEntries → Prop
  | refused {r : CDriver.AddEntries} (why : NameRefused sb sbi dirsync aenv s ino l fs name r) :
      NameOutcome sb sbi dirsync aenv s ino l fs name (some r)
  | added {r : CDriver.AddEntries} {cs : List ℤ} {a m : ℕ} (new : NameAdded sb sbi dirsync s l fs name r cs a m) :
      NameOutcome sb sbi dirsync aenv s ino l fs name (some r)
  | endless (large : 2 ^ 16 < nrSlots sb l) : NameOutcome sb sbi dirsync aenv s ino l fs name none

/-- the slots that are built are written to the directory -/
theorem added_of_done {w : BuiltSlots} {r : CDriver.AddEntries} {short : List UInt8} {long : List UInt16}
    (hfiles : Files (slotEnt sb l s.vol) 0 (nrSlots sb l) fs) (hbuilt : Built sb sbi l s.vol name w short long m)
    (hvol : w.s.vol = s.vol) (h : AddDone sb w.s l w.slots w.nrSlots (r.plain dirsync) cs a) (hdir : CachedDir sb r.s.vol (l ++ cs) r.ino) :
    NameAdded sb sbi dirsync s l fs name r cs a m := by
  have hnr := hbuilt.nr
  obtain ⟨hrow, hname, hchars⟩ := built_row (slotEnt sb (l ++ cs) r.s.vol) hbuilt fun j hj k hk => by
    rw [slotEnt_of_lt sb (l ++ cs) r.s.vol (a + j) hk]
    exact h.added.written j hj k hk
  have hkept : ∀ x < nrSlots sb l, x < a ∨ a + (m + 1) ≤ x → slotEnt sb (l ++ cs) r.s.vol x = slotEnt sb l s.vol x := by
    intro x hx hout
    funext k
    unfold slotEnt
    split_ifs with hk
    · rw [← hvol]
      exact h.added.kept x hx (by rwa [hnr]) k hk
    · rfl
  have hfree : ∀ x, a ≤ x → x < a + (m + 1) → x < nrSlots sb l → IsFree (slotEnt sb l s.vol x) := by
    intro x h1 h2 hx
    obtain ⟨j, rfl⟩ := Nat.exists_eq_add_of_le h1
    rw [slotEnt_isFree, ← hvol]
    exact h.added.free j (by omega) hx
  have hn : nrSlots sb l ≤ nrSlots sb (l ++ cs) := by
    unfold nrSlots
    rw [nrBlocks_append]
    exact Nat.mul_le_mul_right _ (Nat.le_add_right _ _)
  have hfit := h.added.fits
  rw [hnr] at hfit
  have hbehind : ∀ x, nrSlots sb l ≤ x → a + (m + 1) ≤ x → x < nrSlots sb (l ++ cs) → IsFree (slotEnt sb (l ++ cs) r.s.vol x) := by
    intro x h1 h2 h3
    rw [slotEnt_isFree]
    exact h.behind x h1 (by rwa [hnr]) h3
  refine ⟨h.err, .of_plain hdir h.ready, files_insert hfiles hn (Nat.succ_pos m) h.le hfit hfree hkept hbehind hrow, ?_, ?_, ?_, ?_⟩
  · intro f hf x h1 h2
    obtain ⟨-, hle, -, hfile⟩ := hfiles.item_of_mem hf
    refine hkept x (by omega) ?_
    by_contra hin
    exact hfile.not_free h1 h2 (hfree x (by omega) (by omega) (by omega))
  · intro f hf
    obtain ⟨-, hle, hpos, hfile⟩ := hfiles.item_of_mem hf
    rw [hname]
    exact hbuilt.new _ (by omega) hfile.live
  · intro hm
    obtain ⟨ulen, hx⟩ := hbuilt.chars hm
    exact ⟨long, ulen, hx, hchars⟩
  · have hsinfo := h.added.sinfo
    rw [hnr] at hsinfo
    exact hsinfo

/-- a call of `vfat_add_entry` in a directory that is a row of files -/
theorem vfatAddEntry_ends (henv : env.NoFault) (h : CachedReady sb s dirsync ino l) (hmakes : sbi.MakesNames)
    (hfiles : Files (slotEnt sb l s.vol) 0 (nrSlots sb l) fs) (hzero : NoZero sbi (vfatStriptail qname)) :
    NameOutcome sb sbi dirsync aenv s ino l fs (vfatStriptail qname)
      (vfatAddEntry env sb opts sbi dirsync s ino aenv qname isDir cluster ts) := by
  have hrefused : ∀ {ino' s' err}, DirLooked sb l s ino ino' s' → err ≠ 0 →
      Refusal sbi aenv (HasFile (slotEnt sb l s.vol) fs) (vfatStriptail qname) err →
      NameOutcome sb sbi dirsync aenv s ino l fs (vfatStriptail qname) (some ⟨err, none, ino', s'⟩) := by
    intro ino' s' err hlook herr hwhy
    exact .refused ⟨herr, hwhy, congrArg (plainDir dirsync) hlook.inode, h.of_looked hlook,
      fun x _ => Stays.of_eq (by rw [hlook.looked.vol])⟩
  have hstart : DirLooked sb l s ino ino s := .refl h.dir
  unfold vfatAddEntry
  by_cases hempty : vfatStriptail qname = []
  · rw [if_pos hempty]
    exact hrefused hstart (by decide) (.empty hempty)
  rw [if_neg hempty]
  by_cases hmem : aenv.kmalloc = false
  · rw [if_pos hmem]
    exact hrefused hstart (by decide) (.memory (Or.inl hmem))
  rw [if_neg hmem]
  rcases vfatBuildSlots_built h.dir (not_readFails_of_noFault henv) hmakes hzero with ⟨w, hw, hlook, hwhy, hbuilt⟩ | ⟨hnone, hmany⟩
  · rw [hw]
    simp only
    by_cases herr : w.err ≠ 0
    · rw [if_pos herr]
      refine hrefused hlook herr ((hwhy herr).mono fun n hgood ⟨j, hj, hhas⟩ => ?_)
      obtain ⟨f, hf, rfl⟩ := Files.of_live hfiles hj hhas.1
      exact ⟨f, hf, hhas.eq hgood⟩
    rw [if_neg herr]
    obtain ⟨short, long, m, hb⟩ := hbuilt (not_not.1 herr)
    have hle := hb.le
    obtain ⟨r, hr, hout⟩ := CDriver.fatAddEntries_cached henv opts (h.of_looked hlook) (by rw [hb.nr]; omega) (by rw [hb.nr]; omega)
      hb.slots_length
    rw [hr]
    rcases hout with ⟨hfail, hdir⟩ | ⟨cs, a, hdone, hdir⟩
    · have hrerr : r.err = - ENOSPC := hfail.err
      have hne : r.err ≠ 0 := by
        rw [hrerr]
        decide
      have hsame : plainDir dirsync r.ino.toVfsInode = plainDir dirsync w.ino.toVfsInode := hfail.same
      have hready := hfail.ready
      rw [← hsame] at hready
      simp only [if_pos hne]
      refine .refused ⟨hne, ?_, hsame.trans (congrArg (plainDir dirsync) hlook.inode), .of_plain hdir hready,
        fun x hx => slotEnt_stays ?_⟩
      · rw [hrerr]
        exact .space
      rw [← hlook.looked.vol]
      exact hfail.kept x hx
    · have hadded := added_of_done hfiles hb hlook.looked.vol hdone hdir
      have hnow := hadded.ready.touched ts ts ts
      simp only [hadded.err, ne_eq, not_true_eq_false, if_false]
      rw [hnow.fatWriteInode rfl]
      exact .added ⟨rfl, hnow, hadded.files, hadded.kept, hadded.new, hadded.chars, hadded.sinfo⟩
  · rw [hnone]
    exact .endless hmany

end

theorem asciiSb_makesNames : asciiSb.MakesNames where
  sane := asciiNls_sane
  flags := Or.inr (by decide)
  utf8 := by
    intro _ _ h
    rw [← Except.error.inj h]
    decide

/-- the files of `namesSt` -/
theorem namesDir_files : Files (slotEnt tinySb [3] namesSt.vol) 0 (nrSlots tinySb [3]) [(1, 3), (4, 1)] := by
  have hlabel : Skipped (slotEnt tinySb [3] namesSt.vol 0) := Or.inr ⟨by decide +kernel, by decide +kernel⟩
  have hlong : FileRow (slotEnt tinySb [3] namesSt.vol) 1 3 := by
    refine ⟨by decide, ⟨by decide +kernel, by decide +kernel⟩, fun _ => ⟨by decide, by decide, ?_⟩⟩
    exact ⟨by decide +kernel, by decide +kernel, by decide +kernel, by decide +kernel⟩
  have hshort : FileRow (slotEnt tinySb [3] namesSt.vol) 4 1 :=
    ⟨by decide, ⟨by decide +kernel, by decide +kernel⟩, fun h => absurd rfl h⟩
  have hfree : ∀ x, 5 ≤ x → x < nrSlots tinySb [3] → IsFree (slotEnt tinySb [3] namesSt.vol x) := by
    have hall : ∀ x < nrSlots tinySb [3], 5 ≤ x → IsFree (slotEnt tinySb [3] namesSt.vol x) := by decide +kernel
    exact fun x h5 hx => hall x hx h5
  exact .blank hlabel (.item (by decide) hlong (.item (by decide) hshort
    (.of_blank (by decide) fun x h5 hx => Or.inl (hfree x h5 hx))))

theorem namesDir_ready : CachedReady tinySb namesSt false namesInode [3] where
  dir := namesDir_cached
  prevFree := ⟨le_rfl, by decide⟩
  start := by decide
  few := by decide
  lazy := Or.inl rfl

/-- `Long Names.text` -/
def longNamesAsked : List UInt8 := "Long Names.text".toList.map ch

theorem noZero_longNames : NoZero asciiSb (vfatStriptail longNamesAsked) := by
  have hx : xlateToUni asciiSb (vfatStriptail longNamesAsked) = .ok (fillSlots longNamesText, 15) := by decide +kernel
  have hall : ∀ w ∈ (fillSlots longNamesText).take 15, w ≠ 0 := by simp [fillSlots, longNamesText]
  intro uname ulen h
  rw [hx, Except.ok.injEq, Prod.mk.injEq] at h
  rw [← h.1, ← h.2]
  exact hall

end AtsLdd.Vfat
