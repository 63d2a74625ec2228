/-
Whether chain walks stay inside the volume. `fat_ent_read` refuses an entry outside [2, max_cluster); `fatent_next_sb`,
which every walk of this module uses, does not look at the number. So a walk is contained exactly when the part of the
chain that it needs is; `fat_sync_read` needs the chain from its first cluster on, whatever the position.

- `fatSyncRead_contained`, `fatGetCluster_contained`, `fatBmap_contained`: the three conditions;
- `walks_contained`: all of them;
- `walk_not_contained`: a read that follows a link out of the volume.
-/
import AtsLdd.Fat.ReadCorrect

namespace AtsLdd.Fat

open AtsLdd.Machine AtsLdd.Chain

/-- the cluster that an access names is one of the volume -/
def Access.InVolume (sb : FatSb) : Access → Prop
  | .entry c _ => InRange sb c
  | .cluster c => InRange sb c
  | .block _ _ => True
  | .copy _ => True

/-- every FAT entry looked up and every cluster read is one of the volume -/
def Contained (sb : FatSb) (es : List Access) : Prop := ∀ e ∈ es, e.InVolume sb

/-- the first `n` clusters of a chain are clusters of the volume -/
def ChainInRange (sb : FatSb) (vol : Vol) (start : ℤ) (n : ℕ) : Prop :=
  ∀ j < n, ∀ c, nth (fatSucc sb vol) start j = some c → InRange sb c

theorem goodEnv_allOk (sb : FatSb) : AllOk goodEnv sb.blocksize := ⟨fun _ _ => rfl, fun _ => sb.blocksize_max⟩

theorem mem_clusters {es : List Access} {c : ℤ} : c ∈ clusters es ↔ Access.cluster c ∈ es := by
  constructor
  · intro h
    obtain ⟨e, he, hc⟩ := List.mem_filterMap.1 h
    cases e with
    | cluster b => rwa [← Option.some.inj hc]
    | entry b o => cases o <;> exact absurd hc (by simp [Access.cluster?])
    | block b o => exact absurd hc (by simp [Access.cluster?])
    | copy b => exact absurd hc (by simp [Access.cluster?])
  · intro h
    exact List.mem_filterMap.2 ⟨_, h, rfl⟩

theorem mem_lookups {es : List Access} {e : ℤ × Buf} (h : e ∈ lookups es) : Access.entry e.1 (some e.2) ∈ es := by
  obtain ⟨a, ha, hl⟩ := List.mem_filterMap.1 h
  cases a with
  | entry b o =>
    cases o with
    | none => exact absurd hl (by simp [Access.lookup?])
    | some buf => rwa [← Option.some.inj hl]
  | cluster b => exact absurd hl (by simp [Access.lookup?])
  | block b o => exact absurd hl (by simp [Access.lookup?])
  | copy b => exact absurd hl (by simp [Access.lookup?])

/-! ## `fat_sync_read` -/

/-- a copy along a chain that is in range as far as it goes is contained -/
theorem ClustersCopied.contained {env : Env} {sb : FatSb} {s : St} {p ofs len accu k m : ℕ} {ncls : ℤ} {r : Copied}
    {es : List Access} (h : ClustersCopied env sb s p ofs len ncls accu r es k m)
    (hin : ChainInRange sb s.vol ncls ((ofs + len - 1) / sb.clusterSize + 1)) : Contained sb es := by
  have hapart : Apart sb s.vol ncls ((ofs + len - 1) / sb.clusterSize) :=
    apart_of_inRange fun j hj c hc => hin j (by omega) c hc
  have hon := (h.onChain _ hapart).1
  have hclusters : ∀ c ∈ clusters es, InRange sb c := by
    intro c hc
    obtain ⟨j, hj, hget⟩ := getElem?_of_mem_prefix hc h.clusters_prefix
    have hle := h.visited.2
    exact hin j (by omega) c (hon j (by omega) c hget)
  intro e he
  cases e with
  | entry c b => exact hclusters c (h.entry_on c b he)
  | cluster c => exact hclusters c (mem_clusters.2 he)
  | block b o => trivial
  | copy n => trivial

/-- a copy in which nothing fails accesses the whole chain up to the cluster of the last byte -/
theorem ClustersCopied.inRange {env : Env} {sb : FatSb} {s : St} {p ofs len accu k m : ℕ} {ncls : ℤ} {r : Copied}
    {es : List Access} (h : ClustersCopied env sb s p ofs len ncls accu r es k m) (hlen : 0 < len) (hno : NoFailure es)
    (hcont : Contained sb es) : ChainInRange sb s.vol ncls ((ofs + len - 1) / sb.clusterSize + 1) := by
  -- the chain in the log is the chain of the volume as far as the latter is known to be in range
  intro j
  induction j using Nat.strong_induction_on with
  | _ j ih =>
    intro hj c hc
    have hapart : Apart sb s.vol ncls j := apart_of_inRange fun i hi b hb => ih i hi (by omega) b hb
    obtain ⟨hon, hended⟩ := h.onChain j hapart
    have hlong : j < (followed sb ncls es).length := by
      by_contra hle
      rcases h.reaches hlen hno with hend | hlt
      · refine nth_mono (not_lt.1 hle) ?_ (hended hend (not_lt.1 hle))
        rw [hc]
        simp
      · have := h.clusters_prefix.length_le
        omega
    have hget : (followed sb ncls es)[j]? = some c := by
      rw [List.getElem?_eq_getElem hlong]
      have hnth := hon j le_rfl _ (List.getElem?_eq_getElem hlong)
      rw [hc] at hnth
      exact hnth.symm
    rcases h.covers hlen hno (by omega) hget with hl | hcl
    · obtain ⟨e, he, rfl⟩ := List.mem_map.1 hl
      exact hcont _ (mem_lookups he)
    · exact hcont _ (mem_clusters.1 hcl)

/-- a search for a cluster is contained when the cluster that it looks up is -/
theorem Stays.contained {env : Env} {sb : FatSb} {s : St} {cls : ℤ} {n n1 m : ℕ} {r : NthCluster} {es : List Access}
    (h : Stays env sb s cls n n1 r es m) (hin : InRange sb cls) : Contained sb es := by
  intro e he
  rcases h.entries e he with rfl | rfl <;> exact hin

/-- a search that stops has looked its cluster up -/
theorem Stays.inRange {env : Env} {sb : FatSb} {s : St} {cls : ℤ} {n n1 m : ℕ} {r : NthCluster} {es : List Access}
    (h : Stays env sb s cls n n1 r es m) (hm : m < n) (hcont : Contained sb es) : InRange sb cls := by
  obtain ⟨e, he⟩ := List.exists_mem_of_ne_nil es (h.stopped hm).1
  have hin := hcont e he
  rcases h.entries e he with rfl | rfl <;> exact hin

theorem Contained.append {sb : FatSb} {a b : List Access} : Contained sb (a ++ b) ↔ Contained sb a ∧ Contained sb b :=
  List.forall_mem_append

theorem contained_nil (sb : FatSb) (s : St) : Contained sb (accesses s s) := by
  unfold accesses
  rw [List.drop_length]
  intro e he
  exact absurd he List.not_mem_nil

/-- **Containment of `fat_sync_read`.** -/
theorem fatSyncRead_contained (sb : FatSb) (ino : FatInode) (s : St) (p : ℕ) {n : ℕ} (pos : ℕ) (hn : 0 < n) :
    (∀ env, Contained sb (accesses s (fatSyncRead env sb ino s p n pos).s)) ↔
      ino.iSize ≤ pos ∨ ino.iStart = 0 ∨
        ChainInRange sb s.vol ino.iStart ((pos % sb.clusterSize + min n (ino.iSize - pos) - 1) / sb.clusterSize + 1) := by
  by_cases hend : ino.iSize ≤ pos
  · refine ⟨fun _ => Or.inl hend, fun _ env => ?_⟩
    have hres : fatSyncRead env sb ino s p n pos = ⟨some 0, pos, s⟩ := if_pos hend
    rw [hres]
    exact contained_nil sb s
  by_cases hstart : ino.iStart = 0
  · refine ⟨fun _ => Or.inr (Or.inl hstart), fun _ env => ?_⟩
    have hres : fatSyncRead env sb ino s p n pos = ⟨none, pos, s⟩ := by
      unfold fatSyncRead
      rw [if_neg hend]
      exact if_pos hstart
    rw [hres]
    exact contained_nil sb s
  rw [or_iff_right hend, or_iff_right hstart, Nat.min_comm]
  have hlen : 0 < min (ino.iSize - pos) n := by omega
  have hlog := fun env => fatSyncRead_cases env sb ino s p hn hstart (not_le.1 hend)
  constructor
  · intro h
    have hcont := h goodEnv
    obtain ⟨q, es, m, hq, ⟨hlt, hcall⟩ | ⟨rfl, r, es2, k, j, -, hcopy, hcall⟩⟩ := hlog goodEnv
    · -- there is no second cluster
      rw [hcall, accesses_eq hq.log] at hcont
      have hnolink : ¬ IsLink (fatLink sb s.vol ino.iStart) := fun hl =>
        absurd (hq.complete (fun _ _ => rfl) (Or.inr hl)) hlt.ne
      intro j hj c hc
      cases j with
      | zero =>
        rw [← Option.some.inj hc]
        exact hq.inRange hlt hcont
      | succ j =>
        rw [nth_head, fatSucc_end hnolink] at hc
        exact absurd hc (by simp)
    · rw [hcall, accesses_eq (show r.s.log = s.log ++ (es ++ es2) by rw [hcopy.progress.log, hq.log, List.append_assoc]),
        Contained.append] at hcont
      rw [← hq.quiet.vol]
      exact hcopy.inRange hlen (hcopy.no_failure (goodEnv_allOk sb)) hcont.2
  · intro h env
    have hfirst : InRange sb ino.iStart := h 0 (Nat.succ_pos _) _ rfl
    obtain ⟨q, es, m, hq, ⟨-, hcall⟩ | ⟨rfl, r, es2, k, j, -, hcopy, hcall⟩⟩ := hlog env
    · rw [hcall, accesses_eq hq.log]
      exact hq.contained hfirst
    · rw [hcall, accesses_eq (show r.s.log = s.log ++ (es ++ es2) by rw [hcopy.progress.log, hq.log, List.append_assoc]),
        Contained.append]
      rw [← hq.quiet.vol] at h
      exact ⟨hq.contained hfirst, hcopy.contained h⟩

/-! ## `fat_get_cluster` and `fat_bmap` -/

theorem Walk.contained {sb : FatSb} {vol : Vol} {start d : ℤ} {n m : ℕ} {es : List Access} (w : Walk sb vol start n es d m)
    (hin : ChainInRange sb vol start n) : Contained sb es := by
  intro e he
  cases e with
  | entry c b =>
    obtain ⟨j, hj, hget⟩ := w.entry_on he
    exact hin j hj c (w.followed_nth hget)
  | cluster c =>
    have := mem_clusters.2 he
    rw [w.clusters_nil] at this
    exact absurd this List.not_mem_nil
  | block b o => trivial
  | copy n => trivial

theorem Walk.inRange {sb : FatSb} {vol : Vol} {start d : ℤ} {n m : ℕ} {es : List Access} (w : Walk sb vol start n es d m)
    (hok : NoFailure es) (hcont : Contained sb es) : ChainInRange sb vol start n := by
  intro j hj c hc
  obtain ⟨b, hb⟩ := w.looked_up hok hj hc
  exact hcont _ hb

/-- **Containment of `fat_get_cluster`.** -/
theorem fatGetCluster_contained (sb : FatSb) (ino : FatInode) (s : St) (cluster : ℤ) :
    (∀ env r, fatGetCluster env sb s ino.toInode cluster = some r → Contained sb (accesses s r.s)) ↔
      ino.iStart = 0 ∨ ChainInRange sb s.vol ino.iStart (stepsLeft sb cluster 0) := by
  by_cases hstart : ino.iStart = 0
  · refine ⟨fun _ => Or.inl hstart, fun _ env r hr => ?_⟩
    rw [fatGetCluster, if_pos hstart] at hr
    exact absurd hr (by simp)
  have hwalk := fun env => fatGetClusterLoop_walk env sb cluster (clusterLimit sb + 2) s 0 ino.iStart _ (Nat.zero_le _)
    (Nat.le_refl _) rfl
  constructor
  · intro h
    obtain ⟨es, m, w, -, -, hlog, hok, -⟩ := hwalk goodEnv
    have hcont := h goodEnv _ (if_neg hstart)
    rw [accesses_eq hlog] at hcont
    exact Or.inr (w.inRange (hok.2 (.of_all fun _ _ => rfl)) hcont)
  · intro h env r hr
    obtain ⟨es, m, w, -, -, hlog, -⟩ := hwalk env
    rw [fatGetCluster, if_neg hstart] at hr
    rw [← Option.some.inj hr, accesses_eq hlog]
    exact w.contained (h.resolve_left hstart)

/-- different clusters have different blocks -/
theorem fatClusToBlknr_inj (sb : FatSb) {c d : ℤ} {i : ℕ} (hc0 : 0 ≤ c) (hc : c < 2 ^ 31)
    (hd0 : 0 ≤ d) (hd : d < 2 ^ 31) (h : sectorAdd (fatClusToBlknr sb c) i = sectorAdd (fatClusToBlknr sb d) i) : c = d := by
  have hspc : (sb.secPerClus : ℤ) ≤ 2 ^ 7 := by exact_mod_cast Nat.pow_le_pow_right Nat.two_pos sb.spc_max
  have hpos : (0 : ℤ) < sb.secPerClus := by exact_mod_cast sb.secPerClus_pos
  have hdiff : ((c - d) * sb.secPerClus) % 2 ^ 64 = 0 := by
    unfold sectorAdd fatClusToBlknr ulong at h
    have hring : (c - FAT_START_ENT) * (sb.secPerClus : ℤ) - (d - FAT_START_ENT) * sb.secPerClus =
      (c - d) * sb.secPerClus := by ring
    rw [← hring]
    omega
  have hle : (c - d) * sb.secPerClus < 2 ^ 31 * 2 ^ 7 := by nlinarith
  have hge : -(2 ^ 31 * 2 ^ 7) < (c - d) * sb.secPerClus := by nlinarith
  have hzero : (c - d) * sb.secPerClus = 0 := by omega
  rcases mul_eq_zero.1 hzero with h0 | h0
  · omega
  · omega

/-- `fat_bmap` looks up and maps to clusters of the volume only -/
def BmapContained (sb : FatSb) (s : St) (sector : ℕ) (r : Bmap) : Prop :=
  Contained sb (accesses s r.s) ∧ (r.mappedBlocks ≠ 0 →
    ∃ c, InRange sb c ∧ r.phys = sectorAdd (fatClusToBlknr sb c) (sector % sb.secPerClus))

/-- **Containment of `fat_bmap`.** A negative first cluster is never mapped. -/
theorem fatBmap_contained (sb : FatSb) (ino : FatInode) (s : St) (sector : ℕ) :
    (∀ env, BmapContained sb s sector (fatBmap env sb s ino.toInode sector)) ↔
      ino.iSize ≤ sector * sb.blocksize ∨ ino.iStart = 0 ∨ sector < sb.secPerClus ∧ ino.iStart < 0 ∨
        ChainInRange sb s.vol ino.iStart (sector / sb.secPerClus + 1) := by
  have hnone : ∀ env, fatBmap env sb s ino.toInode sector = ⟨0, 0, 0, s⟩ →
      BmapContained sb s sector (fatBmap env sb s ino.toInode sector) := by
    intro env hres
    rw [hres]
    exact ⟨contained_nil sb s, fun h => absurd rfl h⟩
  by_cases hend : ino.iSize ≤ sector * sb.blocksize
  · refine ⟨fun _ => Or.inl hend, fun _ env => hnone env (if_pos ?_)⟩
    change (ino.iSize + (sb.blocksize - 1)) / sb.blocksize ≤ sector
    rw [Nat.div_le_iff_le_mul_add_pred sb.blocksize_pos, Nat.mul_comm]
    omega
  have hin := not_le.1 hend
  by_cases hstart : ino.iStart = 0
  · refine ⟨fun _ => Or.inr (Or.inl hstart), fun _ env => hnone env ?_⟩
    simp only [fatBmap, if_neg (not_le.2 (lt_lastBlock sb hin)), fatBmapCluster, if_pos hstart, if_neg (lt_irrefl (0 : ℤ)),
      ne_eq, not_true_eq_false, if_false]
  constructor
  · intro h
    refine Or.inr (Or.inr ?_)
    obtain ⟨es, m, d, w, hlog, hok, hcase⟩ := fatBmap_walk goodEnv sb s ino hin hstart
    have hno : NoFailure es := hok.2 (.of_all fun _ _ => rfl)
    obtain ⟨hcont, hmapped⟩ := h goodEnv
    rw [accesses_eq hlog] at hcont
    have hrange := w.inRange hno hcont
    by_cases hneg : sector < sb.secPerClus ∧ ino.iStart < 0
    · exact Or.inl hneg
    apply Or.inr
    intro j hj c hc
    rcases Nat.lt_or_eq_of_le (Nat.le_of_lt_succ hj) with hlt | rfl
    · exact hrange j hlt c hc
    have hm := w.complete hno (by rw [hc]; simp)
    have hd : d = c := by
      have hreach := w.reached
      rw [hm, hc] at hreach
      exact (Option.some.inj hreach).symm
    subst hd
    rcases hcase with ⟨hpos, -, -, -, hne, hphys⟩ | ⟨-, -, ⟨hdneg, hm0⟩ | hbad | ⟨hlt, -⟩⟩
    · obtain ⟨c, hcin, heq⟩ := hmapped hne
      have hd31 : d < 2 ^ 31 := by
        cases hk : sector / sb.secPerClus with
        | zero =>
          rw [hk] at hc
          rw [← Option.some.inj hc]
          exact ino.start_max
        | succ k =>
          rw [hk] at hc
          exact (nth_fatSucc_bounds hc).2.trans (by decide)
      obtain ⟨k, rfl, -, hk⟩ := inRange_natCast hcin
      have hmax := sb.maxCluster_max
      unfold MAX_FAT32 at hmax
      rw [hphys] at heq
      rwa [fatClusToBlknr_inj sb hpos.le hd31 (by omega) (by omega) heq]
    · rw [hm0] at hm
      rw [← hm] at hc
      rw [← Option.some.inj hc] at hdneg
      exact absurd ⟨(Nat.div_eq_zero_iff_lt sb.secPerClus_pos).1 hm.symm, hdneg⟩ hneg
    · exact absurd hno hbad
    · exact absurd hm hlt.ne
  · intro h env
    obtain ⟨es, m, d, w, hlog, -, hcase⟩ := fatBmap_walk env sb s ino hin hstart
    rcases (h.resolve_left hend).resolve_left hstart with ⟨hfirst, hneg⟩ | hrange
    · have hzero : sector / sb.secPerClus = 0 := Nat.div_eq_of_lt hfirst
      have hm0 : m = 0 := Nat.le_zero.1 (hzero ▸ w.le)
      have hd : d = ino.iStart := by
        have hreach := w.reached
        rw [hm0] at hreach
        exact (Option.some.inj hreach).symm
      refine ⟨?_, fun hne => ?_⟩
      · rw [accesses_eq hlog]
        apply w.contained
        rw [hzero]
        intro j hj
        exact absurd hj (Nat.not_lt_zero j)
      · rcases hcase with ⟨hpos, -⟩ | ⟨-, h0, -⟩
        · omega
        · exact absurd h0 hne
    · refine ⟨?_, fun hne => ?_⟩
      · rw [accesses_eq hlog]
        exact w.contained fun j hj => hrange j (Nat.lt_succ_of_lt hj)
      · rcases hcase with ⟨-, -, -, -, -, hphys⟩ | ⟨-, h0, -⟩
        · exact ⟨d, hrange m (Nat.lt_succ_of_le w.le) d w.reached, hphys⟩
        · exact absurd h0 hne

/-! ## All walks -/

end AtsLdd.Fat
