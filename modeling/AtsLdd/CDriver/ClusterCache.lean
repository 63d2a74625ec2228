/-
The cache of cluster chains of the C driver (src/C/myfat/cache.c): for every inode, up to `FAT_MAX_CACHE` stretches of
consecutive clusters of its chain, the last used one first. `fat_get_cluster` starts its walk from the nearest stretch and
remembers where it got to.

- `Coherent`: every stretch is one of the chain, they begin at different indices, and they are counted;
- `fatGetCluster_spec`: from a coherent cache, `fat_get_cluster` answers what the walk from the first cluster does, unless a
  block of the FAT cannot be read, and leaves a coherent cache; its assertions hold;
- `getClusters_walk`: so do calls for any indices one after the other.

The calls for one inode are modelled one after the other, so nothing happens while `fat_cache_add` drops its lock.
-/
import AtsLdd.Core.LinkWalk
import AtsLdd.Fat.Chains
import AtsLdd.Fat.InodeEntry
import AtsLdd.Fat.Release

namespace AtsLdd.Fat.CDriver

open AtsLdd.Machine AtsLdd.Chain AtsLdd.LinkTable

/-! ## Model -/

def FAT_MAX_CACHE : ℕ := 8

def FAT_CACHE_VALID : ℕ := 0

/-- `struct fat_cache` -/
structure FatCache where
  /-- the number of clusters that follow the first one contiguously -/
  nrContig : ℤ
  fcluster : ℤ
  dcluster : ℤ

/-- `struct fat_cache_id` -/
structure FatCacheId where
  id : ℕ
  nrContig : ℤ
  fcluster : ℤ
  dcluster : ℤ

def FatCacheId.entry (cid : FatCacheId) : FatCache := ⟨cid.nrContig, cid.fcluster, cid.dcluster⟩

/-- an inode with its cache -/
structure CachedInode extends VfsInode where
  /-- the list `cache_lru` -/
  cacheLru : List FatCache
  nrCaches : ℕ
  cacheValidId : ℕ

/-- `fat_cache_update_lru`, of the entry at index `i` of the list -/
def CachedInode.updateLru (ino : CachedInode) (i : ℕ) : CachedInode :=
  match ino.cacheLru[i]? with
  | none => ino
  | some p => { ino with cacheLru := p :: ino.cacheLru.eraseIdx i }

/-- the loop of `fat_cache_lookup`: the hit, with its index in the list, and `offset`; `nohit` has `fcluster` 0 -/
def cacheLookupLoop (fclus : ℤ) : ℕ → Option (ℕ × FatCache) → ℤ → List FatCache → Option (ℕ × FatCache) × ℤ
  | _, hit, offset, [] => (hit, offset)
  | i, hit, offset, p :: ps =>
    if p.fcluster ≤ fclus ∧ hit.elim 0 (fun h => h.2.fcluster) < p.fcluster then
      if p.fcluster + p.nrContig < fclus then cacheLookupLoop fclus (i + 1) (some (i, p)) p.nrContig ps
      else (some (i, p), fclus - p.fcluster)
    else cacheLookupLoop fclus (i + 1) hit offset ps

/-- `fat_cache_lookup`: on a hit, the stretch and the offset in it -/
def fatCacheLookup (ino : CachedInode) (fclus : ℤ) : Option (FatCacheId × ℤ) × CachedInode :=
  match cacheLookupLoop fclus 0 none (-1) ino.cacheLru with
  | (none, _) => (none, ino)
  | (some (i, hit), offset) => (some (⟨ino.cacheValidId, hit.nrContig, hit.fcluster, hit.dcluster⟩, offset), ino.updateLru i)

/-- `fat_cache_merge`: the index of the entry with which `new` was merged; `none` is its `BUG_ON` -/
def fatCacheMerge (ino : CachedInode) (new : FatCacheId) : Option (Option ℕ × CachedInode) :=
  match ino.cacheLru.findIdx? fun p => p.fcluster = new.fcluster with
  | none => some (none, ino)
  | some i =>
    match ino.cacheLru[i]? with
    | none => some (none, ino)
    | some p =>
      if p.dcluster ≠ new.dcluster then none
      else some (some i, { ino with cacheLru := ino.cacheLru.set i { p with nrContig := max p.nrContig new.nrContig } })

/-- `fat_cache_add`; `mem` tells whether there is memory for an entry. `none` is the `BUG_ON` of `fat_cache_merge`, or a write
through a pointer that is not an entry's. -/
def fatCacheAdd (mem : Bool) (ino : CachedInode) (new : FatCacheId) : Option CachedInode :=
  if new.fcluster = -1 then some ino
  else if new.id ≠ FAT_CACHE_VALID ∧ new.id ≠ ino.cacheValidId then some ino
  else
    match fatCacheMerge ino new with
    | none => none
    | some (some i, ino) => some (ino.updateLru i)
    | some (none, ino) =>
      if ino.nrCaches < FAT_MAX_CACHE then
        -- a second merge, behind the allocation, finds no more than the first one
        if mem then some { ino with nrCaches := ino.nrCaches + 1, cacheLru := new.entry :: ino.cacheLru } else none
      else if ino.cacheLru = [] then none
      else some { ino with cacheLru := new.entry :: ino.cacheLru.dropLast }

/-- `fat_cache_inval_inode`; the id is an `unsigned int` -/
def fatCacheInvalInode (ino : CachedInode) : CachedInode :=
  let id := (ino.cacheValidId + 1) % 2 ^ 32
  { ino with
    cacheLru := []
    nrCaches := ino.nrCaches - ino.cacheLru.length
    cacheValidId := if id = FAT_CACHE_VALID then (id + 1) % 2 ^ 32 else id }

/-- `cache_init` -/
def cacheInit (fclus dclus : ℤ) : FatCacheId := ⟨FAT_CACHE_VALID, 0, fclus, dclus⟩

/-- `cache_contiguous` -/
def cacheContiguous (cid : FatCacheId) (dclus : ℤ) : Bool × FatCacheId :=
  let cid := { cid with nrContig := cid.nrContig + 1 }
  (decide (cid.dcluster + cid.nrContig = dclus), cid)

/-- the variables of the loop of `fat_get_cluster` -/
structure CacheWalk where
  fatent : FatEntry
  cid : FatCacheId
  fclus : ℤ
  dclus : ℤ

/-- the loop of `fat_get_cluster`: `nr` behind it -/
def cacheWalkLoop (env : Env) (sb : FatSb) (cluster : ℤ) : ℕ → St → CacheWalk → ℤ × CacheWalk × St
  | 0, s, w => (0, w, s)
  | fuel + 1, s, w =>
    if cluster ≤ w.fclus then (0, w, s)
    else if (clusterLimit sb : ℤ) < w.fclus then (- EIO, w, s) -- a loop in the chain
    else
      let (nr, fatent, s) := fatEntRead env sb s w.fatent w.dclus
      let w := { w with fatent := fatent }
      if nr < 0 then (nr, w, s)
      else if nr = FAT_ENT_FREE then (- EIO, w, s)
      else if nr = FAT_ENT_EOF then (FAT_ENT_EOF, w, s)
      else
        let (contiguous, cid) := cacheContiguous w.cid nr
        cacheWalkLoop env sb cluster fuel s
          ⟨fatent, if contiguous then cid else cacheInit (w.fclus + 1) nr, w.fclus + 1, nr⟩

/-- what `fat_get_cluster` leaves: 0, `FAT_ENT_EOF` or -EIO, the index reached and the cluster there -/
structure CachedGet where
  ret : ℤ
  fclus : ℤ
  dclus : ℤ
  ino : CachedInode
  s : St

/-- where the loop of `fat_get_cluster` starts: behind the stretch that was looked up, or at the first cluster -/
def cacheWalkStart (iStart : ℤ) : Option (FatCacheId × ℤ) → CacheWalk
  | none => ⟨fatentInit, cacheInit (-1) (-1), 0, iStart⟩
  | some (cid, offset) =>
    ⟨fatentInit, if offset < 0 then cacheInit (-1) (-1) else cid, cid.fcluster + offset, cid.dcluster + offset⟩

/-- `fat_get_cluster` of cache.c; `none` is an assertion that fails -/
def fatGetCluster (env : Env) (sb : FatSb) (mem : Bool) (s : St) (ino : CachedInode) (cluster : ℤ) : Option CachedGet :=
  if ino.iStart = 0 then none
  else if cluster = 0 then some ⟨0, 0, ino.iStart, ino, s⟩
  else
    let (hit, ino) := fatCacheLookup ino cluster
    let (nr, w, s) := cacheWalkLoop env sb cluster (clusterLimit sb + 2) s (cacheWalkStart ino.iStart hit)
    let s := (w.fatent.brelse s).2
    if nr < 0 then some ⟨nr, w.fclus, w.dclus, ino, s⟩
    else (fatCacheAdd mem ino w.cid).map fun ino => ⟨nr, w.fclus, w.dclus, ino, s⟩

/-! ## Coherence -/

/-- the entry is a stretch of the chain from `a`, behind its first cluster and up to index `bound` at most -/
def FatCache.Right (T : ℤ → Link ℤ) (bound : ℕ) (a : ℤ) (p : FatCache) : Prop :=
  ∃ k n : ℕ, p.fcluster = k ∧ p.nrContig = n ∧ 1 ≤ k ∧ k + n ≤ bound ∧ Stretch T a k n p.dcluster

/-- the cache of an inode fits the chain from its first cluster, and knows nothing behind index `bound` -/
structure Coherent (T : ℤ → Link ℤ) (bound : ℕ) (ino : CachedInode) : Prop where
  right : ∀ p ∈ ino.cacheLru, p.Right T bound ino.iStart
  apart : (ino.cacheLru.map FatCache.fcluster).Nodup
  count : ino.nrCaches = ino.cacheLru.length
  few : ino.nrCaches ≤ FAT_MAX_CACHE

section
variable {T T' : ℤ → Link ℤ} {bound : ℕ} {ino ino' : CachedInode} {a : ℤ}

theorem FatCache.Right.congr {p : FatCache} (h : p.Right T bound a)
    (hT : ∀ i < bound, ∀ x y, nth (succ T) a i = some x → T x = .next y → T' x = .next y) : p.Right T' bound a := by
  obtain ⟨k, n, hk, hn, hpos, hle, hst⟩ := h
  exact ⟨k, n, hk, hn, hpos, hle, hst.congr fun i hi => hT i (hi.trans_le hle)⟩

/-- **Links that stay** keep a cache coherent, also when the chain grows at its end. -/
theorem Coherent.congr (h : Coherent T bound ino)
    (hT : ∀ i < bound, ∀ x y, nth (succ T) ino.iStart i = some x → T x = .next y → T' x = .next y) : Coherent T' bound ino :=
  ⟨fun p hp => (h.right p hp).congr hT, h.apart, h.count, h.few⟩

theorem Coherent.mono (h : Coherent T bound ino) {bound' : ℕ} (hle : bound ≤ bound') : Coherent T bound' ino where
  right := by
    intro p hp
    obtain ⟨k, n, hk, hn, hpos, hkn, hst⟩ := h.right p hp
    exact ⟨k, n, hk, hn, hpos, hkn.trans hle, hst⟩
  apart := h.apart
  count := h.count
  few := h.few

/-- an order of use does not matter -/
theorem Coherent.perm (h : Coherent T bound ino) {l : List FatCache} (hl : l.Perm ino.cacheLru) :
    Coherent T bound { ino with cacheLru := l } where
  right := fun p hp => h.right p (hl.mem_iff.1 hp)
  apart := (hl.map FatCache.fcluster).nodup_iff.2 h.apart
  count := h.count.trans hl.length_eq.symm
  few := h.few

theorem updateLru_coherent (h : Coherent T bound ino) (i : ℕ) : Coherent T bound (ino.updateLru i) ∧
    (ino.updateLru i).toVfsInode = ino.toVfsInode := by
  unfold CachedInode.updateLru
  cases hi : ino.cacheLru[i]? with
  | none => exact ⟨h, rfl⟩
  | some p =>
    obtain ⟨hlt, rfl⟩ := List.getElem?_eq_some_iff.1 hi
    exact ⟨h.perm (List.getElem_cons_eraseIdx_perm hlt), rfl⟩

/-- the other fields of the inode do not matter -/
theorem Coherent.of_eq (h : Coherent T bound ino) (hstart : ino'.iStart = ino.iStart) (hlru : ino'.cacheLru = ino.cacheLru)
    (hnr : ino'.nrCaches = ino.nrCaches) : Coherent T bound ino' where
  right := by rw [hlru, hstart]; exact h.right
  apart := by rw [hlru]; exact h.apart
  count := by rw [hlru, hnr]; exact h.count
  few := by rw [hnr]; exact h.few

/-- **An invalidated cache** is empty, and fits any chain. -/
theorem Coherent.invalidated (h : Coherent T bound ino) (T' : ℤ → Link ℤ) (bound' : ℕ) (hlru : ino'.cacheLru = [])
    (hnr : ino'.nrCaches = (fatCacheInvalInode ino).nrCaches) : Coherent T' bound' ino' := by
  have hzero : ino'.nrCaches = 0 := by
    rw [hnr]
    show ino.nrCaches - ino.cacheLru.length = 0
    rw [h.count, Nat.sub_self]
  refine ⟨?_, ?_, ?_, ?_⟩
  · rw [hlru]
    exact fun p hp => absurd hp List.not_mem_nil
  · rw [hlru]
    exact List.nodup_nil
  · rw [hlru, hzero]
    rfl
  · rw [hzero]
    exact Nat.zero_le _

/-! ## Looking up -/

/-- the entry `p`, with `offset`, is the one to start from on the way to index `n` -/
structure Hit (ino : CachedInode) (n : ℤ) (p : FatCache) (offset : ℤ) : Prop where
  mem : p ∈ ino.cacheLru
  le : p.fcluster ≤ n
  /-- the last cluster of the stretch, or the one asked for -/
  offset_eq : p.fcluster + p.nrContig < n ∧ offset = p.nrContig ∨ n ≤ p.fcluster + p.nrContig ∧ offset = n - p.fcluster

theorem cacheLookupLoop_hit (n : ℤ) (ps : List FatCache) : ∀ (i : ℕ) (hit : Option (ℕ × FatCache)) (offset : ℤ),
    (∀ p ∈ ps, p ∈ ino.cacheLru) → (∀ h ∈ hit, Hit ino n h.2 offset) →
    ∀ h ∈ (cacheLookupLoop n i hit offset ps).1, Hit ino n h.2 (cacheLookupLoop n i hit offset ps).2 := by
  induction ps with
  | nil => exact fun _ _ _ _ hhit => hhit
  | cons p ps ih =>
    intro i hit offset hps hhit
    obtain ⟨hp, hrest⟩ := List.forall_mem_cons.1 hps
    rw [cacheLookupLoop]
    split_ifs with hnear hshort
    · apply ih _ _ _ hrest
      intro h hh
      obtain rfl := Option.mem_some_iff.1 hh
      exact ⟨hp, hnear.1, Or.inl ⟨hshort, rfl⟩⟩
    · intro h hh
      obtain rfl := Option.mem_some_iff.1 hh
      exact ⟨hp, hnear.1, Or.inr ⟨not_lt.1 hshort, rfl⟩⟩
    · exact ih _ _ _ hrest hhit

/-- what may be remembered: nothing, or a stretch of the chain -/
def FatCacheId.Fits (T : ℤ → Link ℤ) (bound : ℕ) (a : ℤ) (cid : FatCacheId) : Prop :=
  cid = cacheInit (-1) (-1) ∨ cid.entry.Right T bound a

/-- the stretch ends at index `f` -/
def FatCacheId.EndsAt (cid : FatCacheId) (f : ℕ) : Prop := cid.fcluster = -1 ∨ cid.fcluster + cid.nrContig = f

/-- **A lookup** starts the walk on the chain, at most at the index asked for. -/
theorem fatCacheLookup_spec (h : Coherent T bound ino) (n : ℤ) :
    ∃ f : ℕ, Coherent T bound (fatCacheLookup ino n).2 ∧ (fatCacheLookup ino n).2.toVfsInode = ino.toVfsInode ∧
      (cacheWalkStart ino.iStart (fatCacheLookup ino n).1).fclus = f ∧
      nth (succ T) ino.iStart f = some (cacheWalkStart ino.iStart (fatCacheLookup ino n).1).dclus ∧
      f ≤ n.toNat ∧ f ≤ bound ∧ (cacheWalkStart ino.iStart (fatCacheLookup ino n).1).cid.Fits T bound ino.iStart ∧
      ((cacheWalkStart ino.iStart (fatCacheLookup ino n).1).cid.EndsAt f ∨ n ≤ f) := by
  have hhit := cacheLookupLoop_hit n ino.cacheLru 0 none (-1) (fun _ hp => hp) fun _ hh => absurd hh (Option.not_mem_none _)
  unfold fatCacheLookup
  generalize cacheLookupLoop n 0 none (-1) ino.cacheLru = r at hhit
  obtain ⟨hit, offset⟩ := r
  cases hit with
  | none => exact ⟨0, h, rfl, rfl, rfl, Nat.zero_le _, Nat.zero_le _, Or.inl rfl, Or.inl (Or.inl rfl)⟩
  | some ip =>
    obtain ⟨i, p⟩ := ip
    obtain ⟨hmem, hle, hoff⟩ := hhit (i, p) rfl
    obtain ⟨k, m, hk, hm, hpos, hlim, hst⟩ := h.right p hmem
    obtain ⟨hcoh, hino⟩ := updateLru_coherent h i
    have hright : FatCache.Right T bound ino.iStart p := ⟨k, m, hk, hm, hpos, hlim, hst⟩
    rw [hk, hm] at hoff
    rw [hk] at hle
    -- the offset, as an index into the stretch
    obtain ⟨j, hj⟩ : ∃ j : ℕ, offset = j := ⟨offset.toNat, by omega⟩
    subst hj
    have hstart : cacheWalkStart ino.iStart (some (⟨ino.cacheValidId, p.nrContig, p.fcluster, p.dcluster⟩, (j : ℤ))) =
        ⟨fatentInit, ⟨ino.cacheValidId, p.nrContig, p.fcluster, p.dcluster⟩, p.fcluster + j, p.dcluster + j⟩ := by
      unfold cacheWalkStart
      simp only [if_neg (not_lt.2 (Int.natCast_nonneg j))]
    simp only [hstart]
    refine ⟨k + j, hcoh, hino, by rw [hk]; push_cast; rfl, hst j (by omega), by omega, by omega, Or.inr hright, ?_⟩
    rcases hoff with ⟨-, hj⟩ | ⟨-, hj⟩
    · exact Or.inl (Or.inr (by simp only; omega))
    · exact Or.inr (by omega)

/-! ## Remembering -/

theorem FatCache.Right.ne_dummy {p : FatCache} (h : p.Right T bound a) : p.fcluster ≠ -1 := by
  obtain ⟨k, -, hk, -⟩ := h
  omega

/-- an entry and a stretch from the same index begin at the same cluster, and one of them is all of the other -/
theorem FatCache.Right.merge {p q : FatCache} (hp : p.Right T bound a) (hq : q.Right T bound a) (hpq : p.fcluster = q.fcluster) :
    p.dcluster = q.dcluster ∧ FatCache.Right T bound a { p with nrContig := max p.nrContig q.nrContig } := by
  obtain ⟨k, n, hk, hn, hpos, hlim, hst⟩ := hp
  obtain ⟨k', n', hk', hn', -, hlim', hst'⟩ := hq
  obtain rfl : k = k' := by omega
  have hd := hst.head_eq hst'
  refine ⟨hd, k, max n n', hk, ?_, hpos, ?_, ?_⟩
  · simp only [hn, hn']
    push_cast
    rfl
  · rcases max_choice n n' with hmax | hmax <;> rw [hmax] <;> assumption
  · rcases max_choice n n' with hmax | hmax
    · rwa [hmax]
    · rw [hmax]
      simp only [hd]
      exact hst'

/-- **A merge** finds the entry from the same index, and `BUG_ON` does not stop it. -/
theorem fatCacheMerge_spec (h : Coherent T bound ino) {new : FatCacheId} (hnew : new.entry.Right T bound ino.iStart) :
    (fatCacheMerge ino new = some (none, ino) ∧ ∀ p ∈ ino.cacheLru, p.fcluster ≠ new.fcluster) ∨
      ∃ i ino', fatCacheMerge ino new = some (some i, ino') ∧ Coherent T bound ino' ∧ ino'.toVfsInode = ino.toVfsInode := by
  unfold fatCacheMerge
  cases hfind : ino.cacheLru.findIdx? fun p => decide (p.fcluster = new.fcluster) with
  | none =>
    refine Or.inl ⟨rfl, fun p hp => ?_⟩
    have hne := List.findIdx?_eq_none_iff.1 hfind p hp
    simpa using hne
  | some i =>
    obtain ⟨hi, hsame, -⟩ := List.findIdx?_eq_some_iff_getElem.1 hfind
    have hsame' : ino.cacheLru[i].fcluster = new.fcluster := of_decide_eq_true hsame
    obtain ⟨hd, hright⟩ := (h.right _ (List.getElem_mem hi)).merge hnew hsame'
    have hd' : ino.cacheLru[i].dcluster = new.dcluster := hd
    simp only [List.getElem?_eq_getElem hi]
    rw [if_neg (not_not.2 hd')]
    refine Or.inr ⟨i, _, rfl, ⟨?_, ?_, ?_, h.few⟩, rfl⟩
    · intro p hp
      rcases List.mem_or_eq_of_mem_set hp with hp | rfl
      · exact h.right p hp
      · exact hright
    · have hmap : (ino.cacheLru.set i { ino.cacheLru[i] with nrContig := max ino.cacheLru[i].nrContig new.nrContig }).map
          FatCache.fcluster = ino.cacheLru.map FatCache.fcluster := by
        apply List.ext_getElem (by simp)
        intro j hj hj'
        by_cases hji : i = j <;> simp [hji]
      rw [hmap]
      exact h.apart
    · simp only [List.length_set]
      exact h.count

/-- **Remembering a stretch** leaves a coherent cache, and the only thing that can stop it is a lack of memory. -/
theorem fatCacheAdd_spec (h : Coherent T bound ino) {new : FatCacheId} (hnew : new.Fits T bound ino.iStart) :
    ∃ ino', fatCacheAdd true ino new = some ino' ∧ Coherent T bound ino' ∧ ino'.toVfsInode = ino.toVfsInode := by
  unfold fatCacheAdd
  rcases hnew with rfl | hright
  · exact ⟨ino, rfl, h, rfl⟩
  have hreal : new.fcluster ≠ -1 := hright.ne_dummy
  rw [if_neg hreal]
  by_cases hid : new.id ≠ FAT_CACHE_VALID ∧ new.id ≠ ino.cacheValidId
  · rw [if_pos hid]
    exact ⟨ino, rfl, h, rfl⟩
  rw [if_neg hid]
  rcases fatCacheMerge_spec h hright with ⟨hmerge, hnone⟩ | ⟨i, ino', hmerge, hcoh, hino⟩
  · rw [hmerge]
    simp only [if_true]
    have hcount := h.count
    split_ifs with hroom hempty
    · refine ⟨_, rfl, ⟨?_, ?_, ?_, hroom⟩, rfl⟩
      · exact List.forall_mem_cons.2 ⟨hright, h.right⟩
      · rw [List.map_cons, List.nodup_cons]
        refine ⟨?_, h.apart⟩
        rintro hin
        obtain ⟨p, hp, hpf⟩ := List.mem_map.1 hin
        exact hnone p hp hpf
      · simp only [List.length_cons, hcount]
    · -- a cache that is full is not empty
      rw [hempty, List.length_nil] at hcount
      unfold FAT_MAX_CACHE at hroom
      omega
    · refine ⟨_, rfl, ⟨?_, ?_, ?_, h.few⟩, rfl⟩
      · exact List.forall_mem_cons.2 ⟨hright, fun p hp => h.right p (List.mem_of_mem_dropLast hp)⟩
      · rw [List.map_cons, List.nodup_cons]
        refine ⟨?_, ((List.dropLast_sublist _).map _).nodup h.apart⟩
        intro hin
        obtain ⟨p, hp, hpf⟩ := List.mem_map.1 hin
        exact hnone p (List.mem_of_mem_dropLast hp) hpf
      · simp only [List.length_cons, List.length_dropLast, hcount]
        have hpos := List.length_pos_of_ne_nil hempty
        omega
  · rw [hmerge]
    obtain ⟨hcoh', hino'⟩ := updateLru_coherent hcoh i
    exact ⟨_, rfl, hcoh', hino'.trans hino⟩

end

/-! ## Walking -/

/-- what `fat_get_cluster` answers when the walk to an index ended so: its result, the index and the cluster -/
def walkAnswer (r : ℕ × ℤ × Stop) : ℤ × ℤ × ℤ :=
  (match r.2.2 with
    | .reached => 0
    | .last => FAT_ENT_EOF
    | .long => - EIO
    | .free => - EIO, r.1, r.2.1)

/-- a block could not be read -/
def ReadFails (env : Env) : Prop := ∃ t b, env.bread t b = false

section
variable {env : Env} {sb : FatSb} {s : St} {ino : CachedInode} {a : ℤ}

/-- the answer of one read of an entry, by what the table says of it -/
theorem fatEntRead_table (env : Env) (sb : FatSb) (s : St) (e : FatEntry) (c : ℤ) :
    ∃ v e' s', fatEntRead env sb s e c = (v, e', s') ∧ Looked s s' ∧
      (v = - EIO ∧ (ReadFails env ∨ table sb s.vol c = .free) ∨ InRange sb c ∧ v = fatLink sb s.vol c) := by
  have hlook := (fatEntRead_looked env sb s e c).1
  by_cases hc : InRange sb c
  · obtain ⟨v, e', s', hread, -, ⟨hv, -⟩ | ⟨hv, -, hfail⟩⟩ := fatEntRead_spec env s e hc
    · rw [hread] at hlook
      exact ⟨v, e', s', hread, hlook, Or.inr ⟨hc, hv⟩⟩
    · rw [hread] at hlook
      exact ⟨v, e', s', hread, hlook, Or.inl ⟨hv, Or.inl ⟨_, _, hfail⟩⟩⟩
  · obtain ⟨s', hread, -⟩ := fatEntRead_outside env s e hc
    rw [hread] at hlook
    exact ⟨_, _, s', hread, hlook, Or.inl ⟨rfl, Or.inr (if_neg hc)⟩⟩

/-- a step to the next cluster grows the stretch that is remembered, or begins a new one -/
theorem cacheContiguous_fits {T : ℤ → Link ℤ} {bound f : ℕ} {cid : FatCacheId} (hfits : cid.Fits T bound a) (hend : cid.EndsAt f)
    {nr : ℤ} (hpos : 0 < nr) (hnext : nth (succ T) a (f + 1) = some nr) (hf : f < bound) :
    let cid' := if (cacheContiguous cid nr).1 then (cacheContiguous cid nr).2 else cacheInit ((f : ℤ) + 1) nr
    cid'.Fits T bound a ∧ cid'.EndsAt (f + 1) := by
  intro cid'
  by_cases hcont : cid.dcluster + (cid.nrContig + 1) = nr
  · have hcid' : cid' = { cid with nrContig := cid.nrContig + 1 } := if_pos (decide_eq_true hcont)
    rcases hfits with rfl | ⟨k, n, hk, hn, hk1, hkn, hst⟩
    · -- nothing lies behind the dummy
      simp only [cacheInit] at hcont
      omega
    have hk' : cid.fcluster = k := hk
    have hn' : cid.nrContig = n := hn
    have hkf : k + n = f := by
      rcases hend with hdummy | hkf
      · omega
      · rw [hk', hn'] at hkf
        exact_mod_cast hkf
    rw [hcid']
    refine ⟨Or.inr ⟨k, n + 1, hk', ?_, hk1, by omega, hst.extend ?_⟩, Or.inr ?_⟩
    · show cid.nrContig + 1 = _
      rw [hn']
      push_cast
      rfl
    · rw [← Nat.add_assoc, hkf, hnext, ← hcont, hn']
      push_cast
      rfl
    · show cid.fcluster + (cid.nrContig + 1) = _
      rw [hk', hn', ← hkf]
      push_cast
      ring
  · have hcid' : cid' = cacheInit ((f : ℤ) + 1) nr := if_neg (fun h => hcont (of_decide_eq_true h))
    rw [hcid']
    refine ⟨Or.inr ⟨f + 1, 0, ?_, rfl, Nat.succ_pos f, by omega, Stretch.single hnext⟩, Or.inr ?_⟩
    · show (f : ℤ) + 1 = _
      push_cast
      rfl
    · show (f : ℤ) + 1 + 0 = _
      push_cast
      ring

/-- **The loop of `fat_get_cluster`**, from any place on the chain, ends as the walk from the first cluster does, unless a
block of the FAT cannot be read. -/
theorem cacheWalkLoop_spec (env : Env) (sb : FatSb) {n : ℤ} {bound : ℕ} (hbound : min n.toNat (clusterLimit sb + 1) ≤ bound)
    (fuel : ℕ) : ∀ {s : St} {w : CacheWalk} {f : ℕ}, w.fclus = f →
    nth (succ (table sb s.vol)) a f = some w.dclus → f ≤ clusterLimit sb + 1 → clusterLimit sb + 2 ≤ f + fuel →
    w.cid.Fits (table sb s.vol) bound a → (w.cid.EndsAt f ∨ n ≤ f) →
    ∃ nr w' s', cacheWalkLoop env sb n fuel s w = (nr, w', s') ∧ Looked s s' ∧
      w'.cid.Fits (table sb s.vol) bound a ∧
      ((nr, w'.fclus, w'.dclus) = walkAnswer (walk (table sb s.vol) (clusterLimit sb) (n.toNat - f) f w.dclus) ∨
        nr = - EIO ∧ ReadFails env) := by
  induction fuel with
  | zero =>
    intro s w f _ _ hlim hfuel
    omega
  | succ fuel ih =>
    intro s w f hf hat hlim hfuel hfits hend
    rw [cacheWalkLoop, hf]
    by_cases hn : n ≤ f
    · rw [if_pos hn, Nat.sub_eq_zero_of_le (Int.toNat_le.2 hn)]
      exact ⟨0, w, s, rfl, Looked.refl s, hfits, Or.inl (by rw [hf]; rfl)⟩
    rw [if_neg hn]
    obtain ⟨m, hm⟩ : ∃ m, n.toNat - f = m + 1 := ⟨n.toNat - f - 1, by omega⟩
    rw [hm]
    by_cases hlong : clusterLimit sb < f
    · rw [if_pos (by exact_mod_cast hlong), walk, if_pos hlong]
      exact ⟨_, w, s, rfl, Looked.refl s, hfits, Or.inl (by rw [hf]; rfl)⟩
    rw [if_neg (by exact_mod_cast hlong)]
    obtain ⟨v, e', s', hread, hlook, hv⟩ := fatEntRead_table env sb s w.fatent w.dclus
    rw [hread]
    simp only
    rcases hv with ⟨rfl, hv⟩ | ⟨hin, rfl⟩
    · -- the entry is not read: its block is unreadable, or it lies outside the FAT
      rw [if_pos (by decide)]
      refine ⟨_, _, s', rfl, hlook, hfits, ?_⟩
      rcases hv with hfail | hfree
      · exact Or.inr ⟨rfl, hfail⟩
      · rw [walk, if_neg hlong, hfree]
        exact Or.inl rfl
    have hnonneg : 0 ≤ fatLink sb s.vol w.dclus := (fat32EntGet_bounds _ _).1
    rw [if_neg (not_lt.2 hnonneg)]
    by_cases hfree : fatLink sb s.vol w.dclus = FAT_ENT_FREE
    · rw [if_pos hfree, walk, if_neg hlong, (table_eq_free hin).2 hfree]
      exact ⟨_, _, s', rfl, hlook, hfits, Or.inl rfl⟩
    rw [if_neg hfree]
    by_cases heof : fatLink sb s.vol w.dclus = FAT_ENT_EOF
    · rw [if_pos heof, walk, if_neg hlong, (table_eq_last hin).2 heof]
      exact ⟨_, _, s', rfl, hlook, hfits, Or.inl rfl⟩
    rw [if_neg heof]
    have hnext : table sb s.vol w.dclus = .next (fatLink sb s.vol w.dclus) := by
      rw [table_of_inRange hin, toLink, if_neg hfree, if_neg heof]
    have hat' : nth (succ (table sb s.vol)) a (f + 1) = some (fatLink sb s.vol w.dclus) := by
      rw [nth_succ, hat, Option.bind_some, succ_eq_some]
      exact hnext
    have hpos : 0 < fatLink sb s.vol w.dclus := lt_of_le_of_ne hnonneg fun h => hfree h.symm
    have htight : w.cid.EndsAt f := hend.resolve_right hn
    obtain ⟨hfits', hend'⟩ := cacheContiguous_fits hfits htight hpos hat' (by omega)
    have hvol : s'.vol = s.vol := hlook.vol
    rw [walk_next (not_lt.1 hlong) hnext]
    obtain ⟨nr, w', s'', hloop, hlook', hfits'', hans⟩ := ih (s := s') (w := ⟨e', _, (f : ℤ) + 1, fatLink sb s.vol w.dclus⟩)
      (f := f + 1) (by push_cast; rfl) (by rw [hvol]; exact hat') (by omega) (by omega) (by rw [hvol]; exact hfits') (Or.inl hend')
    rw [hvol, show n.toNat - (f + 1) = m by omega] at hans
    rw [hvol] at hfits''
    exact ⟨nr, w', s'', hloop, hlook.trans hlook', hfits'', hans⟩

/-- what a call of `fat_get_cluster` for index `n` is to leave -/
structure GetsCluster (env : Env) (sb : FatSb) (bound : ℕ) (s : St) (ino : CachedInode) (n : ℤ) (r : CachedGet) : Prop where
  /-- the answer of the walk from the first cluster, unless a block cannot be read -/
  answer : (r.ret, r.fclus, r.dclus) = walkAnswer (walk (table sb s.vol) (clusterLimit sb) n.toNat 0 ino.iStart) ∨
    r.ret = - EIO ∧ ReadFails env
  coherent : Coherent (table sb s.vol) bound r.ino
  inode : r.ino.toVfsInode = ino.toVfsInode
  looked : Looked s r.s

/-- **The cache does not show**: from a coherent cache, `fat_get_cluster` answers what the walk from the first cluster does. -/
theorem fatGetCluster_spec (env : Env) {bound : ℕ} (h : Coherent (table sb s.vol) bound ino) (h0 : ino.iStart ≠ 0) {n : ℤ}
    (hlo : min n.toNat (clusterLimit sb + 1) ≤ bound) (hhi : bound ≤ clusterLimit sb + 1) :
    ∃ r, fatGetCluster env sb true s ino n = some r ∧ GetsCluster env sb bound s ino n r := by
  unfold fatGetCluster
  rw [if_neg h0]
  by_cases hn : n = 0
  · rw [if_pos hn, hn]
    exact ⟨_, rfl, Or.inl rfl, h, rfl, Looked.refl s⟩
  rw [if_neg hn]
  obtain ⟨f, hcoh, hino, hf, hat, hfn, hlim, hfits, hend⟩ := fatCacheLookup_spec h n
  generalize fatCacheLookup ino n = look at hcoh hino hf hat hfits hend ⊢
  obtain ⟨hit, ino1⟩ := look
  simp only at hcoh hino hf hat hfits hend ⊢
  have hstart : ino1.iStart = ino.iStart := congrArg VfsInode.iStart hino
  rw [hstart]
  obtain ⟨nr, w, s', hloop, hlook, hfits', hans⟩ := cacheWalkLoop_spec env sb hlo (clusterLimit sb + 2) hf hat
    (hlim.trans hhi) (Nat.le_add_left _ _) hfits hend
  rw [walk_from hat hfn (hlim.trans hhi)] at hans
  have hlook' : Looked s (w.fatent.brelse s').2 := by
    apply hlook.trans
    rcases w.fatent with ⟨entry, _ | b, ptr⟩
    · exact Looked.refl s'
    · exact brelse_looked s' b
  rw [hloop]
  simp only
  by_cases hneg : nr < 0
  · rw [if_pos hneg]
    exact ⟨_, rfl, hans, hcoh, hino, hlook'⟩
  · rw [if_neg hneg]
    rw [← hstart] at hfits'
    obtain ⟨ino2, hadd, hcoh2, hino2⟩ := fatCacheAdd_spec hcoh hfits'
    rw [hadd]
    exact ⟨_, rfl, hans, hcoh2, hino2.trans hino, hlook'⟩

/-! ## Many calls -/

/-- calls of `fat_get_cluster` for one index after the other, with what each of them answers -/
def getClusters (env : Env) (sb : FatSb) : St → CachedInode → List ℤ → Option (List (ℤ × ℤ × ℤ) × CachedInode × St)
  | s, ino, [] => some ([], ino, s)
  | s, ino, n :: ns =>
    match fatGetCluster env sb true s ino n with
    | none => none
    | some r => (getClusters env sb r.s r.ino ns).map fun q => ((r.ret, r.fclus, r.dclus) :: q.1, q.2)

/-- **The cache never shows**: whatever indices are asked for, and in whatever order, from an inode whose cache is coherent
every call answers what the walk from the first cluster does. -/
theorem getClusters_walk (env : Env) (hread : ∀ t b, env.bread t b = true) (ns : List ℤ) : ∀ {s : St} {ino : CachedInode},
    Coherent (table sb s.vol) (clusterLimit sb + 1) ino → ino.iStart ≠ 0 →
    ∃ ino' s', getClusters env sb s ino ns =
        some (ns.map fun n => walkAnswer (walk (table sb s.vol) (clusterLimit sb) n.toNat 0 ino.iStart), ino', s') ∧
      Coherent (table sb s.vol) (clusterLimit sb + 1) ino' ∧ Looked s s' := by
  induction ns with
  | nil => exact fun {s ino} h _ => ⟨ino, s, rfl, h, Looked.refl s⟩
  | cons n ns ih =>
    intro s ino h h0
    obtain ⟨r, hget, hr⟩ := fatGetCluster_spec env h h0 (n := n) (min_le_right _ _) le_rfl
    have hanswer := hr.answer.resolve_right (by
      rintro ⟨-, t, b, hfail⟩
      exact Bool.noConfusion ((hread t b).symm.trans hfail))
    have hvol : r.s.vol = s.vol := hr.looked.vol
    have hstart : r.ino.iStart = ino.iStart := congrArg VfsInode.iStart hr.inode
    obtain ⟨ino', s', hrest, hcoh, hlook⟩ := ih (s := r.s) (by rw [hvol]; exact hr.coherent) (by rw [hstart]; exact h0)
    rw [hvol, hstart] at hrest
    rw [hvol] at hcoh
    refine ⟨ino', s', ?_, hcoh, hr.looked.trans hlook⟩
    rw [getClusters, hget]
    simp only
    rw [hrest, Option.map_some, hanswer, List.map_cons]

end

/-- the file of the clusters 3 and 4, whose second cluster is remembered -/
def cachedFile : CachedInode := { newInode with iStart := 3, cacheLru := [⟨0, 1, 4⟩], nrCaches := 1, cacheValidId := 1 }

theorem cachedFile_coherent : Coherent (table tinySb tinyChains.s.vol) (clusterLimit tinySb + 1) cachedFile := by
  have hat : nth (succ (table tinySb tinyChains.s.vol)) 3 1 = some 4 := tinyChains_path.nth_eq 1
  refine ⟨fun p hp => ?_, List.nodup_singleton _, rfl, by decide⟩
  rw [List.mem_singleton.1 hp]
  exact ⟨1, 0, rfl, rfl, le_rfl, Nat.le_add_left _ _, Stretch.single hat⟩

/-- the second cluster is looked up, then the third one, which there is not, then the first -/
theorem getClusters_walk_tiny : ∃ ino' s', getClusters goodEnv tinySb tinyChains.s cachedFile [1, 2, 0] =
      some ([1, 2, 0].map fun n : ℤ => walkAnswer (walk (table tinySb tinyChains.s.vol) (clusterLimit tinySb) n.toNat 0 3), ino', s') ∧
    Coherent (table tinySb tinyChains.s.vol) (clusterLimit tinySb + 1) ino' ∧ Looked tinyChains.s s' :=
  getClusters_walk goodEnv (fun _ _ => rfl) [1, 2, 0] cachedFile_coherent (by decide)

end AtsLdd.Fat.CDriver
