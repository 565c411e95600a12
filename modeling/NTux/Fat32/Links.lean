import NTux.Fat32.Chains

/-! # The values of entries

FAT32 has marks for entries and the numbers of the data clusters, which go from 2 to the count
of clusters and one more. `get_fat` takes the count for the end of the numbers, so it rejects a
link to one of the last two clusters, and no other value that it should not
(`linksFollowed_iff`).
-/

namespace NTux.Fat32

open NTux.Foundation Command

variable {v : Volume} {clustCnt c val : Nat}

/-! ## What entries say -/

/-- The number of a data cluster, where there are so many. -/
def IsData (clustCnt c : Nat) : Prop := 2 ≤ c ∧ c ≤ clustCnt + 1

instance (clustCnt c : Nat) : Decidable (IsData clustCnt c) := inferInstanceAs (Decidable (_ ∧ _))

/-- What an entry says. -/
inductive Means (clustCnt : Nat) : Nat → ClustFlags → Prop where
  | free : Means clustCnt 0 .free
  | bad : Means clustCnt 0x0FFFFFF7 .bad
  | last {val : Nat} : 0x0FFFFFF8 ≤ val → Means clustCnt val .last
  | used {val : Nat} : IsData clustCnt val → val < 0x0FFFFFF7 → Means clustCnt val .used

/-- An entry means one thing. -/
theorem Means.unique {flags other : ClustFlags} (means : Means clustCnt val flags)
    (means' : Means clustCnt val other) : flags = other := by
  cases means with
  | free =>
      cases means' with
      | free => rfl
      | last large => exact absurd large (by decide)
      | used isData => exact absurd isData.1 (by decide)
  | bad =>
      cases means' with
      | bad => rfl
      | last large => exact absurd large (by decide)
      | used _ small => exact absurd small (by decide)
  | last large =>
      cases means' with
      | free => exact absurd large (by decide)
      | bad => exact absurd large (by decide)
      | last => rfl
      | used _ small => omega
  | used isData small =>
      cases means' with
      | free => exact absurd isData.1 (by decide)
      | bad => exact absurd small (by decide)
      | last large => omega
      | used => rfl

/-- The number of one of the last two clusters, that is no mark. -/
def IsLate (clustCnt val : Nat) : Prop :=
  IsData clustCnt val ∧ clustCnt ≤ val ∧ val < 0x0FFFFFF7

/-- What `get_fat` makes of an entry is what it says. -/
theorem means_of_clustFlags {flags : ClustFlags} (known : clustFlags clustCnt val = some flags) :
    Means clustCnt val flags := by
  unfold clustFlags at known
  split_ifs at known with free bad last used
  · cases known
    exact free ▸ .free
  · cases known
    exact bad ▸ .bad
  · cases known
    exact .last last
  · cases known
    exact .used ⟨used.1, Nat.le_succ_of_le used.2.le⟩ (by omega)

/-- `get_fat` makes something of every entry that says something, but for a late one. -/
theorem clustFlags_of_means {flags : ClustFlags} (means : Means clustCnt val flags)
    (early : ¬ IsLate clustCnt val) : clustFlags clustCnt val = some flags := by
  cases means with
  | free => exact if_pos rfl
  | bad => exact (if_neg (by decide)).trans (if_pos rfl)
  | last large => exact FatChain.clustFlags_last large
  | used isData small =>
      have low := isData.1
      have high : val < clustCnt := by
        by_contra late
        exact early ⟨isData, not_lt.mp late, small⟩
      rw [clustFlags, if_neg (by omega), if_neg (by omega), if_neg (by omega), if_pos ⟨low, high⟩]

theorem clustFlags_late (late : IsLate clustCnt val) : clustFlags clustCnt val = none := by
  obtain ⟨⟨low, -⟩, high, small⟩ := late
  rw [clustFlags, if_neg (by omega), if_neg (by omega), if_neg (by omega),
    if_neg fun both => absurd both.2 (not_lt.mpr high)]

/-! ## Reading entries -/

/-- `get_fat` on a disk without faults. What the buffer held before does not matter. -/
theorem getFat_sound (sound : v.disk.Sound) (c : Nat) :
    ∃ w, (getFat c).run v = (match clustFlags v.fat.geometry.clustCnt (v.seen c) with
      | some flags => .ok (v.seen c, flags)
      | none => .error (.code errBroken), w) := by
  by_cases here : v.fat.sect = v.fat.geometry.entrySect c
  · -- the buffer stays, so it need not agree with the disk
    have stays : (updateBuf (u32 (v.fat.geometry.fatSect + c / 128))).run v = (.ok (), v) :=
      updateBuf_here here
    have value : v.fat.buf.readLE (4 * (c % 128)) 4 &&& 0x0FFFFFFF = v.seen c := by
      unfold Volume.seen
      rw [← here, Volume.view_buffered, land_lower]
    unfold getFat
    rw [run_gets_bind, run_bind_ok stays, run_gets_bind]
    simp only [value]
    cases clustFlags v.fat.geometry.clustCnt (v.seen c) with
    | some flags => exact ⟨v, rfl⟩
    | none => exact ⟨v.note .broken, rfl⟩
  · have ready : v.Ready {v.fat.geometry.entrySect c} := ⟨sound, fun _ same => absurd same here⟩
    obtain ⟨w, read, -⟩ := getFat_seen ready rfl
    exact ⟨w, read⟩

/-- A chain by the rules of FAT32: data clusters, each of whose entries is the next one's number,
and the last of which ends the chain. -/
structure LegalChain (v : Volume) (chain : List Nat) : Prop where
  clusters : ∀ c ∈ chain, IsData v.fat.geometry.clustCnt c
  links : chain.IsChain fun c d => v.seen c = d ∧ d < 0x0FFFFFF7
  ends : ∀ c ∈ chain.getLast?, 0x0FFFFFF8 ≤ v.seen c

/-- No entry of a chain is rejected, entries are classified by what they say, and one that says
nothing, and no other, is rejected. -/
structure LinksFollowed (v : Volume) : Prop where
  followed : ∀ chain, LegalChain v chain → ∀ c ∈ chain, ∀ w,
    (getFat c).run v ≠ (.error (.code errBroken), w)
  classified : ∀ c, IsData v.fat.geometry.clustCnt c → ∀ val flags w,
    (getFat c).run v = (.ok (val, flags), w) → val = v.seen c ∧ Means v.fat.geometry.clustCnt val flags
  rejected : ∀ c, IsData v.fat.geometry.clustCnt c →
    ((∃ w, (getFat c).run v = (.error (.code errBroken), w)) ↔
      ∀ flags, ¬ Means v.fat.geometry.clustCnt (v.seen c) flags)

/-- An entry of a chain says something. -/
theorem LegalChain.means {chain : List Nat} (legal : LegalChain v chain) {c : Nat}
    (member : c ∈ chain) : ∃ flags, Means v.fat.geometry.clustCnt (v.seen c) flags := by
  obtain ⟨before, after, rfl⟩ := List.append_of_mem member
  cases after with
  | nil => exact ⟨.last, .last (legal.ends c (by simp))⟩
  | cons next rest =>
      obtain ⟨link, small⟩ := List.isChain_iff_forall_rel_of_append_cons_cons.mp legal.links rfl
      have isData := legal.clusters next (by simp)
      exact ⟨.used, link.symm ▸ .used isData small⟩

/-- **Links.** Every legal link is followed if there is none to the last two clusters. -/
theorem linksFollowed_iff (sound : v.disk.Sound) :
    LinksFollowed v ↔ ∀ c, IsData v.fat.geometry.clustCnt c →
      ¬ IsLate v.fat.geometry.clustCnt (v.seen c) := by
  constructor
  · intro right c isData late
    obtain ⟨w, read⟩ := getFat_sound sound c
    rw [clustFlags_late late] at read
    exact (right.rejected c isData).mp ⟨w, read⟩ .used (.used late.1 late.2.2)
  · intro early
    have known : ∀ c, IsData v.fat.geometry.clustCnt c → ∀ flags,
        Means v.fat.geometry.clustCnt (v.seen c) flags →
          ∃ w, (getFat c).run v = (.ok (v.seen c, flags), w) := by
      intro c isData flags means
      obtain ⟨w, read⟩ := getFat_sound sound c
      rw [clustFlags_of_means means (early c isData)] at read
      exact ⟨w, read⟩
    refine ⟨fun chain legal c member w broken => ?_, fun c isData val flags w done => ?_,
      fun c isData => ⟨?_, fun silent => ?_⟩⟩
    · obtain ⟨flags, means⟩ := legal.means member
      obtain ⟨u, read⟩ := known c (legal.clusters c member) flags means
      exact nomatch read.symm.trans broken
    · obtain ⟨u, read⟩ := getFat_sound sound c
      rw [done] at read
      split at read
      · next flags' means =>
          cases read
          exact ⟨rfl, means_of_clustFlags means⟩
      · cases read
    · rintro ⟨w, broken⟩ flags means
      obtain ⟨u, read⟩ := known c isData flags means
      exact nomatch read.symm.trans broken
    · obtain ⟨w, read⟩ := getFat_sound sound c
      split at read
      · next flags means => exact absurd (means_of_clustFlags means) (silent flags)
      · exact ⟨w, read⟩

/-! ### A link to the last cluster but one -/

/-- The entries of the sample are free, but for the one that ends its chain. -/
theorem sampleVolume_seen {lastUsed : Nat} (isData : IsData 65525 c) :
    (sampleVolume lastUsed).seen c = 0 ∨ (sampleVolume lastUsed).seen c = 0x0FFFFFFF := by
  obtain ⟨-, high⟩ := isData
  have sector : (sampleVolume lastUsed).fat.geometry.entrySect c = 32 + c / 128 := by
    change u32 (32 + c / 128) = 32 + c / 128
    exact u32_of_lt (by omega)
  have differ : 0 ≠ 32 + c / 128 := by omega
  have zero (offset : Nat) : Memory.readLE (fun _ => 0) offset 4 = 0 := rfl
  unfold Volume.seen
  rw [sector, Volume.view_of_ne differ]
  change (if 32 + c / 128 = 32 ∨ 32 + c / 128 = 544 then sampleSector else _).readLE _ 4 % 2 ^ 28 = 0 ∨
    (if 32 + c / 128 = 32 ∨ 32 + c / 128 = 544 then sampleSector else _).readLE _ 4 % 2 ^ 28 = _
  split_ifs with first
  · have small : c < 128 := by omega
    by_cases second : c = 2
    · right
      rw [second, sampleSector, Memory.readLE_writeLE]
      rfl
    · left
      rw [sampleSector, Memory.readLE_writeLE_of_apart _ _ (by omega), zero, Nat.zero_mod]
  · left
    rw [zero, Nat.zero_mod]

theorem linksFollowed_sample : LinksFollowed (sampleVolume 2) :=
  (linksFollowed_iff fun _ _ => rfl).mpr fun c isData late => by
    rcases @sampleVolume_seen _ 2 isData with free | ends
    · rw [free] at late
      exact absurd late.1.1 (by decide)
    · rw [ends] at late
      exact absurd late.2.2 (by decide)

/-- The chain of the sample goes on to a cluster with the number of clusters. -/
def lateVolume : Volume :=
  { sampleVolume 2 with
    disk := { (sampleVolume 2).disk with
      sectors := fun sect =>
        if sect = 32 then Memory.writeLE (fun _ => 0) 8 4 65525
        else if sect = 543 then Memory.writeLE (fun _ => 0) 468 4 0x0FFFFFFF else fun _ => 0 } }

theorem lateVolume_chain : LegalChain lateVolume [2, 65525] where
  clusters := by
    intro c member
    obtain rfl | rfl : c = 2 ∨ c = 65525 := by simpa using member
    · exact ⟨by decide, by decide⟩
    · exact ⟨by decide, by decide⟩
  links := by
    have sector : lateVolume.fat.geometry.entrySect 2 = 32 := by decide
    have view : lateVolume.view 32 = Memory.writeLE (fun _ => 0) (4 * (2 % 128)) 4 65525 := rfl
    refine List.isChain_pair.mpr ⟨?_, by decide⟩
    rw [Volume.seen, sector, view, Memory.readLE_writeLE]
    decide
  ends := by
    intro c last
    obtain rfl : 65525 = c := by simpa using last
    have sector : lateVolume.fat.geometry.entrySect 65525 = 543 := by decide
    have view : lateVolume.view 543 =
        Memory.writeLE (fun _ => 0) (4 * (65525 % 128)) 4 0x0FFFFFFF := rfl
    rw [Volume.seen, sector, view, Memory.readLE_writeLE]
    decide

/-- The entry of the first cluster is rejected. -/
theorem linksFollowed_late : ¬ LinksFollowed lateVolume := by
  intro right
  obtain ⟨w, read⟩ := getFat_sound (v := lateVolume) (fun _ _ => rfl) 2
  have link : lateVolume.seen 2 = 65525 := (List.isChain_pair.mp lateVolume_chain.links).1
  have late : IsLate lateVolume.fat.geometry.clustCnt (lateVolume.seen 2) := by
    rw [link]
    exact ⟨⟨by decide, by decide⟩, by decide, by decide⟩
  rw [clustFlags_late late] at read
  exact right.followed _ lateVolume_chain 2 (by simp) w read

end NTux.Fat32
