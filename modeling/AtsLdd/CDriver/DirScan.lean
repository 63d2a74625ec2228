/-
Searching a directory of the C driver: `fat_get_short_entry` and `fat_scan`, and the first stage of `fat_add_entries`
(src/C/myfat/dir.c). They are those of the driver without a cluster cache, over `fat_get_entry` of this one.

- `fatScan_agrees`, `searchFree_agrees`: with the cache and without it they find the same, and the directory is only read.
-/
import AtsLdd.CDriver.DirEntry
import AtsLdd.Fat.SlotSearch

namespace AtsLdd.Fat.CDriver

open AtsLdd.Machine AtsLdd.LinkTable

/-! ## Model -/

/-- `fat_get_short_entry`: entries that are free or volume labels are passed over -/
def fatGetShortEntry (env : Env) (sb : FatSb) (mem : Bool) : ℕ → St → CachedInode → DirCursor → Option GetEntry
  | 0, s, ino, cur => some ⟨false, cur, ino, s⟩
  | fuel + 1, s, ino, cur =>
    match fatGetEntry env sb mem s ino cur with
    | none => none
    | some r =>
      if r.ok = false ∨ ¬ IsFree (r.cur.ent r.s) ∧ entAttr (r.cur.ent r.s) &&& ATTR_VOLUME = 0 then some r
      else fatGetShortEntry env sb mem fuel r.s r.ino r.cur

/-- what `fat_scan` leaves -/
structure Scan where
  ret : ℤ
  sinfo : SlotInfo
  ino : CachedInode
  s : St

/-- the loop of `fat_scan` -/
def fatScanLoop (env : Env) (sb : FatSb) (mem : Bool) (name : List UInt8) (entries : ℕ) :
    ℕ → St → CachedInode → DirCursor → Option Scan
  | 0, s, ino, cur => some ⟨- ENOENT, ⟨0, cur.pos, 0, cur.de, cur.bh⟩, ino, s⟩
  | fuel + 1, s, ino, cur =>
    match fatGetShortEntry env sb mem entries s ino cur with
    | none => none
    | some r =>
      if r.ok = false then some ⟨- ENOENT, ⟨0, r.cur.pos, 0, r.cur.de, r.cur.bh⟩, r.ino, r.s⟩
      else if strncmpEq (entName (r.cur.ent r.s)) name then
        some ⟨0, ⟨fatMakeIPos sb (r.cur.bh.getD 0) (r.cur.de.getD 0), r.cur.pos - DENT_SIZE, 1, r.cur.de, r.cur.bh⟩, r.ino, r.s⟩
      else fatScanLoop env sb mem name entries fuel r.s r.ino r.cur

/-- a bound on the steps of a scan -/
def dirEntries (sb : FatSb) (ino : CachedInode) : ℕ := blocksOf sb ino.iSize * sb.dirPerBlock + 1

/-- `fat_scan`; the fields of `sinfo` that it does not set on an error are 0 -/
def fatScan (env : Env) (sb : FatSb) (mem : Bool) (s : St) (ino : CachedInode) (name : List UInt8) : Option Scan :=
  fatScanLoop env sb mem name (dirEntries sb ino) (dirEntries sb ino) s ino dirCursorInit

/-- the loop of the first stage of `fat_add_entries`; the fuel is a bound on the entries -/
def searchLoop (env : Env) (sb : FatSb) (mem : Bool) (nrSlots : ℕ) :
    ℕ → CachedInode → FreeSearch → Option (SearchEnd × FreeSearch × CachedInode)
  | 0, ino, f => some (.ended, f, ino)
  | fuel + 1, ino, f =>
    match fatGetEntry env sb mem f.s ino f.cur with
    | none => none
    | some r =>
      let f := { f with cur := r.cur, s := r.s }
      if r.ok = false then some (.ended, f, r.ino)
      else if FAT_MAX_DIR_SIZE ≤ r.cur.pos then some (.full, f, r.ino)
      else if IsFree (r.cur.ent r.s) then
        if f.freeSlots + 1 = nrSlots then some (.found, f.free, r.ino) else searchLoop env sb mem nrSlots fuel r.ino f.free
      else searchLoop env sb mem nrSlots fuel r.ino f.used

/-- the first stage -/
def searchFree (env : Env) (sb : FatSb) (mem : Bool) (s : St) (ino : CachedInode) (nrSlots : ℕ) :
    Option (SearchEnd × FreeSearch × CachedInode) :=
  searchLoop env sb mem nrSlots (dirEntries sb ino) ino ⟨dirCursorInit, none, [], 0, s⟩

/-! ## With the cache and without it -/

section
variable {env : Env} {sb : FatSb} {s s' : St} {ino : CachedInode} {dir : Inode} {l : List ℤ}

theorem CachedDir.dirEntries (h : CachedDir sb s.vol l ino) (hdir : DirOn sb s.vol dir l) :
    dirEntries sb ino = Fat.dirEntries sb dir := by
  unfold CDriver.dirEntries Fat.dirEntries
  rw [h.nrEntries, hdir.dirBlocks]
  rfl

/-- **The next entry of a file** is the same. -/
theorem fatGetShortEntry_agrees (hread : ¬ ReadFails env) (fuel : ℕ) : ∀ {i : ℕ} {s s' : St} {ino : CachedInode} {cur : DirCursor},
    DirOn sb s.vol dir l → CachedDir sb s'.vol l ino → s'.vol = s.vol → CursorAt sb l i cur →
    ∃ ok cur' j t t' ino', Fat.fatGetShortEntry env sb dir fuel s cur = (ok, cur', t) ∧
      fatGetShortEntry env sb true fuel s' ino cur = some ⟨ok, cur', ino', t'⟩ ∧ Looked s t ∧ DirLooked sb l s' ino ino' t' ∧
      (ok = true → CursorAt sb l j cur') := by
  induction fuel with
  | zero => exact fun _ hdir _ _ => ⟨false, _, 0, _, _, _, rfl, rfl, Looked.refl _, .refl hdir, fun h => absurd h (by simp)⟩
  | succ fuel ih =>
    intro i s s' ino cur hdir h hvol hcur
    rw [Fat.fatGetShortEntry, fatGetShortEntry]
    rcases Nat.lt_or_ge i (nrSlots sb l) with hi | hi
    · obtain ⟨t, hplain, hlook⟩ := Fat.fatGetEntry_slot hdir (readable_of_not_readFails hread sb l) hcur hi
      obtain ⟨ino', t', hget, hlook'⟩ := fatGetEntry_slot h hread hcur hi
      rw [hplain, hget]
      simp only [slotCursor_ent, hlook.vol, hlook'.looked.vol, hvol, Bool.true_eq_false, false_or]
      by_cases hlive : ¬ IsFree (slot sb l s.vol i) ∧ entAttr (slot sb l s.vol i) &&& ATTR_VOLUME = 0
      · rw [if_pos hlive, if_pos hlive]
        exact ⟨true, _, i + 1, t, t', ino', rfl, rfl, hlook, hlook', fun _ => cursorAt_slot hi⟩
      · rw [if_neg hlive, if_neg hlive]
        have hdir' : DirOn sb t.vol dir l := by rwa [hlook.vol]
        have hvol' : t'.vol = t.vol := by rw [hlook'.looked.vol, hlook.vol, hvol]
        obtain ⟨ok, cur', j, u, u', ino'', h1, h2, h3, h4, h5⟩ := ih hdir' hlook'.dir hvol' (cursorAt_slot hi)
        exact ⟨ok, cur', j, u, u', ino'', h1, h2, hlook.trans h3, hlook'.trans h4, h5⟩
    · obtain ⟨ino', t', hget, hlook'⟩ := fatGetEntry_end h hread hcur hi
      rw [Fat.fatGetEntry_end env hdir hcur hi, hget]
      exact ⟨false, _, 0, _, t', ino', rfl, rfl, cur.release_looked s, hlook', fun h => absurd h (by simp)⟩

theorem fatScanLoop_agrees (hread : ¬ ReadFails env) (name : List UInt8) (entries fuel : ℕ) :
    ∀ {i : ℕ} {s s' : St} {ino : CachedInode} {cur : DirCursor}, DirOn sb s.vol dir l → CachedDir sb s'.vol l ino → s'.vol = s.vol →
    CursorAt sb l i cur → ∃ ret sinfo t t' ino', Fat.fatScanLoop env sb dir name entries fuel s cur = (ret, sinfo, t) ∧
      fatScanLoop env sb true name entries fuel s' ino cur = some ⟨ret, sinfo, ino', t'⟩ ∧ DirLooked sb l s' ino ino' t' := by
  induction fuel with
  | zero => exact fun _ hdir _ _ => ⟨_, _, _, _, _, rfl, rfl, .refl hdir⟩
  | succ fuel ih =>
    intro i s s' ino cur hdir h hvol hcur
    obtain ⟨ok, cur', j, t, t', ino', hplain, hget, hlook, hlook', hnext⟩ := fatGetShortEntry_agrees hread entries hdir h hvol hcur
    rw [Fat.fatScanLoop, fatScanLoop, hplain, hget]
    cases ok with
    | false => exact ⟨_, _, _, _, _, rfl, rfl, hlook'⟩
    | true =>
      have hvol' : t'.vol = t.vol := by rw [hlook'.looked.vol, hlook.vol, hvol]
      have hent : cur'.ent t' = cur'.ent t := by
        unfold DirCursor.ent
        rw [hvol']
      simp only [hent, Bool.true_eq_false, if_false]
      by_cases hname : strncmpEq (entName (cur'.ent t)) name = true
      · rw [if_pos hname, if_pos hname]
        exact ⟨_, _, _, _, _, rfl, rfl, hlook'⟩
      · rw [if_neg hname, if_neg hname]
        have hdir' : DirOn sb t.vol dir l := by rwa [hlook.vol]
        obtain ⟨ret, sinfo, u, u', ino'', h1, h2, h3⟩ := ih hdir' hlook'.dir hvol' (hnext rfl)
        exact ⟨ret, sinfo, u, u', ino'', h1, h2, hlook'.trans h3⟩

/-- **A scan finds the same**, with the cache and without it. -/
theorem fatScan_agrees (h : CachedDir sb s.vol l ino) (hdir : DirOn sb s.vol dir l) (hread : ¬ ReadFails env) (name : List UInt8) :
    ∃ ret sinfo t t' ino', Fat.fatScan env sb s dir name = (ret, sinfo, t) ∧
      fatScan env sb true s ino name = some ⟨ret, sinfo, ino', t'⟩ ∧ DirLooked sb l s ino ino' t' := by
  unfold fatScan Fat.fatScan
  rw [h.dirEntries hdir]
  exact fatScanLoop_agrees hread name _ _ hdir h rfl (cursorAt_start sb l 0 none)

/-- the state of the buffers does not matter to what is in hand -/
theorem FreeSearch.free_at (f : FreeSearch) (s : St) :
    ∃ t, ({ f with s := s } : FreeSearch).free = { f.free with s := t } ∧ Looked s t := by
  unfold FreeSearch.free
  cases f.cur.bh with
  | none => exact ⟨s, rfl, Looked.refl s⟩
  | some b =>
    simp only
    split_ifs
    · exact ⟨s, rfl, Looked.refl s⟩
    · exact ⟨_, rfl, rfl⟩

theorem searchLoop_agrees (hread : ¬ ReadFails env) (nr fuel : ℕ) : ∀ {i : ℕ} {s' : St} {ino : CachedInode} {f : FreeSearch},
    DirOn sb f.s.vol dir l → CachedDir sb s'.vol l ino → s'.vol = f.s.vol → CursorAt sb l i f.cur →
    ∃ fin g t' ino', Fat.searchLoop env sb dir nr fuel f = (fin, g) ∧
      searchLoop env sb true nr fuel ino { f with s := s' } = some (fin, { g with s := t' }, ino') ∧ DirLooked sb l s' ino ino' t' := by
  induction fuel with
  | zero => exact fun _ hdir _ _ => ⟨_, _, _, _, rfl, rfl, .refl hdir⟩
  | succ fuel ih =>
    intro i s' ino f hdir h hvol hcur
    rw [Fat.searchLoop, searchLoop]
    rcases Nat.lt_or_ge i (nrSlots sb l) with hi | hi
    · obtain ⟨t, hplain, hlook⟩ := Fat.fatGetEntry_slot hdir (readable_of_not_readFails hread sb l) hcur hi
      obtain ⟨ino', t', hget, hlook'⟩ := fatGetEntry_slot h hread hcur hi
      have hvol' : t'.vol = t.vol := by rw [hlook'.looked.vol, hlook.vol, hvol]
      have hdir' : DirOn sb t.vol dir l := by rwa [hlook.vol]
      rw [hplain, hget]
      simp only [slotCursor_ent, hvol', Bool.true_eq_false, if_false]
      by_cases hfull : FAT_MAX_DIR_SIZE ≤ (slotCursor sb l i).pos
      · rw [if_pos hfull, if_pos hfull]
        exact ⟨_, _, t', ino', rfl, rfl, hlook'⟩
      rw [if_neg hfull, if_neg hfull]
      obtain ⟨g, hg⟩ : ∃ g : FreeSearch, g = { f with cur := slotCursor sb l i, s := t } := ⟨_, rfl⟩
      have hgs : g.s = t := by rw [hg]
      obtain ⟨hfcur, -, htwin⟩ := FreeSearch.free_fields g
      obtain ⟨u', hfree, hlooku⟩ := FreeSearch.free_at g t'
      have hlook'' : DirLooked sb l s' ino ino' u' := hlook'.then hlooku
      have heq : ({ f with cur := slotCursor sb l i, s := t' } : FreeSearch) = { g with s := t' } := by rw [hg]
      simp only [heq, ← hg]
      by_cases hent : IsFree (slot sb l t.vol i)
      · rw [if_pos hent, if_pos hent, hfree]
        by_cases hfound : f.freeSlots + 1 = nr
        · rw [if_pos hfound, if_pos hfound]
          exact ⟨_, _, u', ino', rfl, rfl, hlook''⟩
        · rw [if_neg hfound, if_neg hfound]
          obtain ⟨fin, k, v', ino'', h1, h2, h3⟩ := ih (f := g.free) (i := i + 1) (by rw [htwin.vol, hgs]; exact hdir') hlook''.dir
            (by rw [hlooku.vol, htwin.vol, hgs, hvol']) (by rw [hfcur, hg]; exact cursorAt_slot hi)
          exact ⟨fin, k, v', ino'', h1, h2, hlook''.trans h3⟩
      · rw [if_neg hent, if_neg hent]
        have hused : ({ g with s := t' } : FreeSearch).used = { g.used with s := g.bhs.foldl brelse t' } := rfl
        have hlooku : Looked t' (g.bhs.foldl brelse t') := foldl_brelse_looked g.bhs t'
        have hgu : g.used.s.vol = t.vol := by
          rw [← hgs]
          exact (foldl_brelse_looked g.bhs g.s).vol
        have hlook'' := hlook'.then hlooku
        rw [hused]
        obtain ⟨fin, k, v', ino'', h1, h2, h3⟩ := ih (f := g.used) (i := i + 1) (by rw [hgu]; exact hdir') hlook''.dir
          (by rw [hlooku.vol, hgu, hvol']) (by rw [show g.used.cur = g.cur from rfl, hg]; exact cursorAt_slot hi)
        exact ⟨fin, k, v', ino'', h1, h2, hlook''.trans h3⟩
    · obtain ⟨ino', t', hget, hlook'⟩ := fatGetEntry_end h hread hcur hi
      rw [Fat.fatGetEntry_end env hdir hcur hi, hget]
      exact ⟨_, _, t', ino', rfl, rfl, hlook'⟩

/-- **The search for free slots** ends the same, with the cache and without it. -/
theorem searchFree_agrees (h : CachedDir sb s.vol l ino) (hdir : DirOn sb s.vol dir l) (hread : ¬ ReadFails env) (nr : ℕ) :
    ∃ fin g t' ino', Fat.searchFree env sb s dir nr = (fin, g) ∧
      searchFree env sb true s ino nr = some (fin, { g with s := t' }, ino') ∧ DirLooked sb l s ino ino' t' := by
  unfold searchFree Fat.searchFree
  rw [h.dirEntries hdir]
  exact searchLoop_agrees hread nr _ hdir h rfl (cursorAt_start sb l 0 none)

end

end AtsLdd.Fat.CDriver
