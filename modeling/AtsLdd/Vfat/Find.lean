/-
Looking a name up in a directory whose blocks can be read: `vfat_find` (namei_vfat.c).

- `vfatFind_sound`: whatever the directory holds, what is found is the row of slots of a file, and the name without the dots at
  its end is the short name or the long name of the file;
- `vfatFind_files`: in a directory that is a row of files, it is the first file with the name.
-/
import AtsLdd.Vfat.DirReader

namespace AtsLdd.Vfat

open AtsLdd.Fat AtsLdd.Division
open AtsLdd.Fat.CDriver (CachedInode CachedDir ReadFails blocksOf)

/-! ## The code -/

/-- `vfat_striptail_len`: a name without the dots at its end -/
def vfatStriptail (qname : List UInt8) : List UInt8 := (qname.reverse.dropWhile (· = ch '.')).reverse

/-- what `vfat_find` leaves: 0 or a negative error, and the slots that are found -/
structure VfatFind (ζ : Type*) where
  err : ℤ
  sinfo : Option SlotInfo
  z : ζ

/-- `vfat_find`, over the entries that `rd` hands out, no more than `entries`; `fresh` is the buffer that `__getname` finds -/
def vfatFind {ζ : Type*} (sb : FatSb) (sbi : VfatSb) (rd : EntryReader (DirCursor × ζ)) (entries : ℕ)
    (fresh : Option (ℕ → UInt16)) (qname : List UInt8) (z : ζ) : VfatFind ζ :=
  let name := vfatStriptail qname
  if name = [] then ⟨- ENOENT, none, z⟩
  else
    let r := fatSearchLong rd sbi entries fresh name (dirCursorInit, z)
    if r.err ≠ 0 then ⟨r.err, none, r.z.2⟩
    else
      -- the label `found` of `fat_search_long`
      let cur := r.z.1
      ⟨0, some ⟨fatMakeIPos sb (cur.bh.getD 0) (cur.de.getD 0), cur.pos - r.nrSlots * DENT_SIZE, r.nrSlots, cur.de, cur.bh⟩, r.z.2⟩

/-! ## What is found -/

section
variable {ζ : Type*} {rd : EntryReader (DirCursor × ζ)} {Inv : ζ → Prop} {z : ζ} {sb : FatSb} {l : List ℤ} {vol : Vol}
  {sbi : VfatSb} {qname : List UInt8} {fs : List (ℕ × ℕ)} {entries : ℕ}

/-- a search that finds nothing -/
theorem vfatFind_missing {fresh : Option (ℕ → UInt16)} {w : DirCursor × ζ} (hne : vfatStriptail qname ≠ [])
    (h : fatSearchLong rd sbi entries fresh (vfatStriptail qname) (dirCursorInit, z) = ⟨- ENOENT, w, 0⟩) :
    vfatFind sb sbi rd entries fresh qname z = ⟨- ENOENT, none, w.2⟩ := by
  unfold vfatFind
  simp only [if_neg hne, h, if_pos (show (- ENOENT : ℤ) ≠ 0 by decide)]

/-- a search that has come to the entry of a file -/
theorem vfatFind_found {fresh : Option (ℕ → UInt16)} {w : DirCursor × ζ} {i m : ℕ} (hne : vfatStriptail qname ≠ [])
    (h : fatSearchLong rd sbi entries fresh (vfatStriptail qname) (dirCursorInit, z) = ⟨0, w, m + 1⟩)
    (hat : ReaderAt sb l Inv (i + m + 1) w) :
    vfatFind sb sbi rd entries fresh qname z = ⟨0, some (rowInfo sb l i (m + 1)), w.2⟩ := by
  obtain ⟨-, hcur⟩ := hat.slot (i + m) rfl
  have hpos : DENT_SIZE * (i + m + 1) - (m + 1) * DENT_SIZE = DENT_SIZE * i := by
    unfold DENT_SIZE
    omega
  have hlast : i + (m + 1) - 1 = i + m := by omega
  unfold vfatFind rowInfo
  simp only [if_neg hne, h, ne_eq, not_true_eq_false, if_false, hcur, slotCursor, Option.getD_some, hpos, hlast]

/-- **The first file with the name** is found. -/
theorem vfatFind_files (hreads : ReadsSlots rd sb l Inv vol) (hz : Inv z) (fresh : ℕ → UInt16)
    (hfiles : Files (slotEnt sb l vol) 0 (nrSlots sb l) fs) (hne : vfatStriptail qname ≠ []) : ∃ z', Inv z' ∧
    ((∀ f ∈ fs, ¬ Named sbi (slotEnt sb l vol) (vfatStriptail qname) f) ∧
      vfatFind sb sbi rd (nrSlots sb l) (some fresh) qname z = ⟨- ENOENT, none, z'⟩ ∨
    ∃ gs f hs, fs = gs ++ f :: hs ∧ (∀ g ∈ gs, ¬ Named sbi (slotEnt sb l vol) (vfatStriptail qname) g) ∧
      Named sbi (slotEnt sb l vol) (vfatStriptail qname) f ∧
      vfatFind sb sbi rd (nrSlots sb l) (some fresh) qname z = ⟨0, some (rowInfo sb l f.1 f.2), z'⟩) := by
  rcases fatSearchLong_files hreads fresh hfiles (readerAt_start sb l hz) sbi (vfatStriptail qname) with
    ⟨hnone, w, hres, hover⟩ | ⟨gs, f, hs, w, hfs, hgs, hnamed, hres, hat⟩
  · exact ⟨w.2, hover.inv, Or.inl ⟨hnone, vfatFind_missing hne hres⟩⟩
  · have hmem : f ∈ fs := by
      rw [hfs]
      exact List.mem_append_right gs List.mem_cons_self
    obtain ⟨-, -, hpos, -⟩ := hfiles.item_of_mem hmem
    obtain ⟨m, hm⟩ : ∃ m, f.2 = m + 1 := ⟨f.2 - 1, by omega⟩
    rw [hm] at hres hat
    refine ⟨w.2, hat.inv, Or.inr ⟨gs, f, hs, hfs, hgs, hnamed, ?_⟩⟩
    rw [hm]
    exact vfatFind_found hne hres hat

end

/-- **Nothing is found but a file with the name**, whatever the entries of the directory hold: the slots that are found are those
of its entry and of the row of its long name before it. -/
theorem vfatFind_sound {env : Env} {sb : FatSb} {ino : CachedInode} {l : List ℤ} {s : St} (hdir : CachedDir sb s.vol l ino)
    (hread : ¬ ReadFails env) (sbi : VfatSb) (fresh : ℕ → UInt16) (qname : List UInt8) :
    ∃ ino' s', Looked s s' ∧ CachedDir sb s'.vol l ino' ∧
    (vfatFind sb sbi (cachedReader env sb) (blocksOf sb ino.iSize * sb.dirPerBlock) (some fresh) qname (ino, s) =
      ⟨- ENOENT, none, ino', s'⟩ ∨
    ∃ i m, vfatFind sb sbi (cachedReader env sb) (blocksOf sb ino.iSize * sb.dirPerBlock) (some fresh) qname (ino, s) =
        ⟨0, some (rowInfo sb l i (m + 1)), ino', s'⟩ ∧
      FileAt (slotEnt sb l s.vol) (nrSlots sb l) i m ∧ NameIs sbi (slotEnt sb l s.vol) (vfatStriptail qname) i m) := by
  rw [hdir.nrEntries]
  by_cases hne : vfatStriptail qname = []
  · refine ⟨ino, s, Looked.refl s, hdir, Or.inl ?_⟩
    unfold vfatFind
    simp only [if_pos hne]
  have hstart : OnlyRead sb l s ino (ino, s) := .refl hdir
  rcases fatSearchLong_sound (cachedReader_reads hread) (readerAt_start sb l hstart) sbi fresh (vfatStriptail qname) with
    ⟨w, hres, hdone⟩ | ⟨i, m, w, hres, hat, hfile, hname⟩
  · have hinv : OnlyRead sb l s ino w.2 := by
      rcases hdone with hover | ⟨i, hat⟩
      · exact hover.inv
      · exact hat.inv
    exact ⟨_, _, hinv.looked, hinv.dir, Or.inl (vfatFind_missing hne hres)⟩
  · exact ⟨_, _, hat.inv.looked, hat.inv.dir, Or.inr ⟨i, m, vfatFind_found hne hres hat, hfile, hname⟩⟩

/-- `long name.TEXT.` -/
def longNameAsked : List UInt8 := "long name.TEXT.".toList.map ch

/-- `Long Name.text` is found in three entries, in whatever case its name is asked for -/
theorem vfatFind_sound_names : ∃ ino' s', Looked namesSt s' ∧ CachedDir tinySb s'.vol [3] ino' ∧
    vfatFind tinySb asciiSb (cachedReader goodEnv tinySb) (blocksOf tinySb namesInode.iSize * tinySb.dirPerBlock) (some fun _ => 7)
      longNameAsked (namesInode, namesSt) = ⟨0, some (rowInfo tinySb [3] 1 3), ino', s'⟩ ∧
    FileAt (slotEnt tinySb [3] namesSt.vol) (nrSlots tinySb [3]) 1 2 ∧
    NameIs asciiSb (slotEnt tinySb [3] namesSt.vol) (vfatStriptail longNameAsked) 1 2 := by
  obtain ⟨ino', s', hlook, hdir, hres⟩ := vfatFind_sound namesDir_cached goodEnv_reads asciiSb (fun _ => 7) longNameAsked
  have heval : (vfatFind tinySb asciiSb (cachedReader goodEnv tinySb) (blocksOf tinySb namesInode.iSize * tinySb.dirPerBlock)
      (some fun _ => 7) longNameAsked (namesInode, namesSt)).sinfo.map (fun f => (f.slotOff, f.nrSlots)) = some (32, 3) := by
    decide +kernel
  rcases hres with hnone | ⟨i, m, hfind, hfile, hname⟩
  · rw [hnone] at heval
    exact absurd heval (by simp)
  · rw [hfind] at heval
    simp only [rowInfo, Option.map_some, Option.some.injEq, Prod.mk.injEq, DENT_SIZE] at heval
    obtain rfl : i = 1 := by omega
    obtain rfl : m = 2 := by omega
    exact ⟨ino', s', hlook, hdir, hfind, hfile, hname⟩

end AtsLdd.Vfat
