import NTux.Fat32.Takings

/-! # Opening files

`fat_file_open` seeks to the end of a file that is to be extended, and the loop of
`fat_file_seek` takes clusters where the chain ends before the file does. What fails without that
leaves the volume untouched (`followChain_refused`, `openEntry_refused`).
-/

namespace NTux.Fat32

open NTux.Foundation Command

variable {v w u : Volume} {fuel : Nat}

/-! ## Volumes that are left as they were -/

/-- The driver sees the same sectors of a disk without faults, and counts as many free
clusters. -/
structure Volume.Untouched (v w : Volume) : Prop where
  ready : w.Ready Set.univ
  view : w.view = v.view
  geometry : w.fat.geometry = v.fat.geometry
  freeCnt : w.freeCnt = v.freeCnt

namespace Volume.Untouched

theorem refl (ready : v.Ready Set.univ) : v.Untouched v := ⟨ready, rfl, rfl, rfl⟩

theorem trans (first : v.Untouched w) (second : w.Untouched u) : v.Untouched u :=
  ⟨second.ready, second.view.trans first.view, second.geometry.trans first.geometry,
    second.freeCnt.trans first.freeCnt⟩

end Volume.Untouched

/-- A volume on a disk without faults is left untouched. -/
def Volume.Spared (v w : Volume) : Prop := v.Ready Set.univ → v.Untouched w

instance : IsPreorder Volume Volume.Spared where
  refl _ ready := .refl ready
  trans _ _ _ first second ready := (first ready).trans (second (first ready).ready)

theorem spared_overlooks : Overlooks Volume.Spared where
  buffer sect v ready := by
    have ready : v.Ready Set.univ := ready
    obtain ⟨w, moved, ready', agrees, -⟩ := updateBuf_spec ready sect
    change v.Untouched ((updateBuf sect).run v).2
    rw [moved]
    exact ⟨ready', funext fun sect => agrees.view (Set.mem_univ sect), agrees.geometry,
      Volume.freeCnt_of_unbuffered agrees.unbuffered⟩
  noted mishap v ready := ⟨⟨ready.sound, ready.coherent⟩, rfl, rfl, rfl⟩

/-- `stretch_chain` that fails leaves the volume untouched. -/
theorem stretchChain_refused {prev : Nat} {stopped : Stop} (ready : v.Ready Set.univ)
    (failed : (stretchChain fuel prev).run v = (.error stopped, w)) : v.Untouched w := by
  have marked : v.Untouched v.marked := ⟨⟨ready.sound, ready.coherent⟩, rfl, rfl, rfl⟩
  have looked := findFree_looks spared_overlooks fuel prev v.marked marked.ready
  generalize found : (findFree fuel prev).run v.marked = ended at looked
  obtain ⟨result, u⟩ := ended
  obtain ⟨x, ran, -⟩ := stretchChain_found found fun _ _ => looked.ready.sound
  cases result with
  | ok c => cases ran.symm.trans failed
  | error other =>
      have ended : (stretchChain fuel prev).run v = (.error other, u) := by
        unfold stretchChain
        rw [run_modifyFat_bind]
        exact run_bind_error found
      cases ended.symm.trans failed
      exact marked.trans looked

/-! ## Opening -/

/-- The chain of an open file ends where the file is. -/
def OpenFile.AtLast (s : OpenFile) : Prop :=
  ∃ next v, (getFat s.file.clust).run s.volume = (.ok (next, .last), v)

/-- In so many turns, the loop of `fat_file_seek` stretches the chain, and fails in a later
turn. -/
inductive StretchFails (fuel : Nat) : Nat → OpenFile → Prop where
  | here {count : Nat} {s t u : OpenFile} {err : Int} :
      s.AtLast → (followLink fuel).run s = (.ok (), t) →
        (followChain fuel count).run t = (.error (.code err), u) → StretchFails fuel (count + 1) s
  | later {count : Nat} {s t : OpenFile} :
      (followLink fuel).run s = (.ok (), t) → StretchFails fuel count t →
        StretchFails fuel (count + 1) s

/-- What a turn of the loop reads leaves the volume untouched. -/
theorem onVolume_getFat_untouched {s t : OpenFile} {result : Except Stop (Nat × ClustFlags)}
    {clust : Nat} (ready : s.volume.Ready Set.univ)
    (looked : (onVolume (getFat clust)).run s = (result, t)) :
    s.volume.Untouched t.volume ∧
      ∃ v, (getFat clust).run s.volume = (result, v) ∧ t = s.withVolume v := by
  have same := getFat_looks spared_overlooks clust s.volume ready
  rw [onVolume, run_zoom] at looked
  cases looked
  exact ⟨same, _, rfl, rfl⟩

/-- A turn that fails leaves the volume untouched. -/
theorem followLink_refused {s t : OpenFile} {stopped : Stop} (ready : s.volume.Ready Set.univ)
    (failed : (followLink fuel).run s = (.error stopped, t)) : s.volume.Untouched t.volume := by
  rw [followLink, run_gets_bind] at failed
  rcases of_run_bind_error failed with looked | ⟨⟨next, flags⟩, u, looked, rest⟩
  · exact (onVolume_getFat_untouched ready looked).1
  · have same := (onVolume_getFat_untouched ready looked).1
    dsimp only at rest
    split_ifs at rest
    · cases rest
      exact same
    · rcases of_run_bind_error rest with stretched | ⟨clust, x, -, modified⟩
      · rw [onVolume, run_zoom] at stretched
        cases result : (stretchChain fuel s.file.clust).run u.volume with
        | mk ended w =>
            rw [result] at stretched
            cases stretched
            exact same.trans (stretchChain_refused same.ready result)
      · cases modified
    · cases rest

/-- A turn leaves the volume untouched, unless the chain ends where the file is. -/
theorem followLink_spared {s t : OpenFile} (ready : s.volume.Ready Set.univ)
    (done : (followLink fuel).run s = (.ok (), t)) : s.AtLast ∨ s.volume.Untouched t.volume := by
  rw [followLink, run_gets_bind] at done
  obtain ⟨⟨next, flags⟩, u, looked, rest⟩ := of_run_bind_ok done
  obtain ⟨same, v, read, -⟩ := onVolume_getFat_untouched ready looked
  dsimp only at rest
  split_ifs at rest with broken last
  · cases rest
  · exact .inl ⟨next, v, last ▸ read⟩
  · cases rest
    exact .inr same

/-- A turn at the end of the chain takes a cluster. -/
theorem followLink_took {s t : OpenFile} (last : s.AtLast)
    (done : (followLink fuel).run s = (.ok (), t)) : s.volume.Took 1 t.volume := by
  obtain ⟨next, v, read⟩ := last
  have looked : (onVolume (getFat s.file.clust)).run s = (.ok (next, .last), s.withVolume v) := by
    rw [onVolume, run_zoom, read]
  have same : s.volume.SameCount v := by
    have counted := getFat_looks sameCount_overlooks s.file.clust s.volume
    rw [read] at counted
    exact counted
  rw [followLink, run_gets_bind, run_bind_ok looked] at done
  dsimp only at done
  rw [if_neg (by decide), if_pos rfl] at done
  obtain ⟨clust, x, stretched, modified⟩ := of_run_bind_ok done
  cases modified
  rw [onVolume, run_zoom] at stretched
  obtain ⟨result, volume⟩ := Prod.mk.inj stretched
  have took : v.Took 1 ((stretchChain fuel s.file.clust).run v).2 :=
    stretchChain_took (Prod.ext result rfl)
  rw [← volume]
  exact .after same took

/-- The loop that fails so has taken a cluster, and no more than one for each turn. -/
theorem StretchFails.took {count : Nat} {s : OpenFile} (fails : StretchFails fuel count s) :
    ∃ err t k, (followChain fuel count).run s = (.error (.code err), t) ∧ 0 < k ∧ k ≤ count ∧
      s.volume.Took k t.volume := by
  induction fails with
  | @here count s t u err last link failed =>
      have few := followChain_takes fuel count t
      rw [failed] at few
      obtain ⟨k, bound, took⟩ := few
      refine ⟨err, u, 1 + k, ?_, by omega, by omega, (followLink_took last link).trans took⟩
      rw [followChain, run_bind_ok link, failed]
  | @later count s t link _ ih =>
      obtain ⟨err, u, k, failed, positive, bound, took⟩ := ih
      have few := followLink_takes fuel s
      rw [link] at few
      obtain ⟨j, bound', took'⟩ := few
      refine ⟨err, u, j + k, ?_, by omega, by omega, took'.trans took⟩
      rw [followChain, run_bind_ok link, failed]

/-- The loop fails so, or it leaves the volume untouched where it fails. -/
theorem followChain_refused {count : Nat} {err : Int} {t : OpenFile} : ∀ {s : OpenFile},
    s.volume.Ready Set.univ → (followChain fuel count).run s = (.error (.code err), t) →
      s.volume.Untouched t.volume ∨ StretchFails fuel count s := by
  induction count with
  | zero => exact fun _ failed => nomatch (congrArg Prod.fst failed)
  | succ count ih =>
      intro s ready failed
      rw [followChain] at failed
      rcases of_run_bind_error failed with refused | ⟨⟨⟩, u, link, rest⟩
      · exact .inl (followLink_refused ready refused)
      · rcases followLink_spared ready link with last | same
        · exact .inr (.here last link rest)
        · exact (ih same.ready rest).imp same.trans (.later link)

/-! ## A file that is opened -/

/-- The file of an entry, before `fat_file_open` seeks. -/
def openedFile (v : Volume) (file : File) (fat dirSect dirIdx : Nat) (flags : OpenFlags)
    (sfn : Slot) : OpenFile where
  volume := v
  file := File.ofEntry fat dirSect dirIdx flags sfn file.buf
  bytes := 0
  out := []
  home := none

/-- The turns of the loop of `fat_file_seek` to where a file is opened. -/
def openTurns (g : Geometry) (flags : OpenFlags) (sfn : Slot) : Nat :=
  (if flags.append ∧ !flags.trunc then sfn.size else 0) / g.clustSize

theorem openTurns_lt (g : Geometry) (flags : OpenFlags) (sfn : Slot) :
    openTurns g flags sfn < 2 ^ 32 := by
  have small : sfn.size < 2 ^ 32 := Memory.readLE_lt sfn 28 4
  refine (Nat.div_le_self _ _).trans_lt ?_
  split
  · exact small
  · decide

/-- `fat_file_open` from the entry on. -/
theorem openEntry_run (fuel fat dirSect dirIdx : Nat) (flags : OpenFlags) (sfn : Slot) (v : Volume)
    (file : File) :
    (openEntry fuel fat dirSect dirIdx flags sfn).run
        { volume := v, file := file, bytes := 0, out := [], home := none } =
      (followChain fuel (openTurns v.fat.geometry flags sfn) >>= fun _ =>
        modifyFile (fun file =>
          { file with sect := v.fat.geometry.sectorOf file.clust
                        (if flags.append ∧ !flags.trunc then sfn.size else 0)
                      offset := if flags.append ∧ !flags.trunc then sfn.size else 0 }) >>=
          fun _ => moveFile 0xffffffff).run
        (openedFile v file fat dirSect dirIdx flags sfn) := by
  have small : sfn.size < 2 ^ 32 := Memory.readLE_lt sfn 28 4
  have target : (openedFile v file fat dirSect dirIdx flags sfn).target 0
      (if flags.append then .fromEnd else .start) =
        ((if flags.append ∧ !flags.trunc then sfn.size else 0 : Nat) : Int) := by
    unfold OpenFile.target openedFile File.ofEntry
    cases flags.append <;> cases flags.trunc <;> simp [Seek.base]
  have inRange : ¬ (((if flags.append ∧ !flags.trunc then sfn.size else 0 : Nat) : Int) < 0 ∨
      0xffffffff < ((if flags.append ∧ !flags.trunc then sfn.size else 0 : Nat) : Int)) := by
    split <;> omega
  have start : (openEntry fuel fat dirSect dirIdx flags sfn).run
      { volume := v, file := file, bytes := 0, out := [], home := none } =
      (fatFileSeek fuel 0 (if flags.append then .fromEnd else .start)).run
        (openedFile v file fat dirSect dirIdx flags sfn) := rfl
  rw [start, fatFileSeek_run fuel (Option.some_ne_none fat) target inRange]
  have first : (openedFile v file fat dirSect dirIdx flags sfn).file.offset = 0 := rfl
  dsimp only
  rw [first, Nat.zero_div, Int.toNat_natCast]
  simp only [Nat.not_lt_zero, if_false, Nat.sub_zero]
  rfl

theorem moveFile_sound {s : OpenFile} (sound : s.volume.disk.Sound) (ssect : Nat) :
    ∃ t, (moveFile ssect).run s = (.ok (), t) := by
  have flushed : ∃ t, (flushFile ssect).run s = (.ok (), t) ∧ t.volume.disk.Sound := by
    rw [flushFile, run_gets_bind]
    split
    · rw [run_bind, onVolume, run_zoom, diskWrite_sound sound]
      exact ⟨_, rfl, sound.later rfl (Nat.le_succ _)⟩
    · exact ⟨s, rfl, sound⟩
  rw [moveFile, run_gets_bind]
  split
  · obtain ⟨t, wrote, sound'⟩ := flushed
    rw [run_bind_ok wrote, fillFile, run_gets_bind, run_bind, onVolume, run_zoom,
      diskRead_sound sound']
    exact ⟨_, rfl⟩
  · exact ⟨s, rfl⟩

/-- Opening fails only where the loop of `fat_file_seek` fails. -/
theorem openEntry_refused {fat dirSect dirIdx : Nat} {flags : OpenFlags} {sfn : Slot} {file : File}
    {stopped : Stop} {t : OpenFile} (sound : v.disk.Sound)
    (failed : (openEntry fuel fat dirSect dirIdx flags sfn).run
      { volume := v, file := file, bytes := 0, out := [], home := none } = (.error stopped, t)) :
    (followChain fuel (openTurns v.fat.geometry flags sfn)).run
      (openedFile v file fat dirSect dirIdx flags sfn) = (.error stopped, t) := by
  rw [openEntry_run] at failed
  rcases of_run_bind_error failed with followed | ⟨⟨⟩, u, followed, moved⟩
  · exact followed
  · have accessed := followChain_accesses fuel (openTurns v.fat.geometry flags sfn)
      (openedFile v file fat dirSect dirIdx flags sfn)
    rw [followed] at accessed
    rw [run_modifyFile_bind] at moved
    obtain ⟨x, arrived⟩ := moveFile_sound (s := u.withFile _) (accessed.sound sound) 0xffffffff
    cases moved.symm.trans arrived

end NTux.Fat32
