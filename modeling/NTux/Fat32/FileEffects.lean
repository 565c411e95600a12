import NTux.Fat32.Effects
import NTux.Fat32.OpenFiles

/-! # What open files do to a volume

A file whose clusters and sectors are in the data area (`File.Rests`) stays so, whatever is done
to it and to other files, and whether its calls succeed or not: the buffer of the file is only
written there, and the FAT is changed by stretching a chain at its end.
-/

namespace NTux.Fat32

open NTux.Foundation Command Volume

variable {g : Geometry} {spare gone : Set Nat} {v w : Volume} {s t u : OpenFile} {c fuel : Nat}

/-! ## Sectors of the data area -/

/-- A sector of the data area is written, past the buffer of the volume. -/
theorem diskWrite_calm (good : v.Good g spare) {sect : Nat} (data : sect ∈ g.dataArea)
    (buf : Sector) : ∃ w, (diskWrite buf sect).run v = (.ok (), w) ∧ v.Calm g spare w := by
  have outside := good.data_notMem data
  refine ⟨_, diskWrite_sound good.ready.sound buf sect, calm_of_agrees good ⟨fun s inside => ?_, rfl⟩
    ⟨good.ready.sound.later rfl (Nat.le_succ _), fun clean inside => ?_⟩⟩
  · have differ : s ≠ sect := fun same => outside (same ▸ inside)
    unfold Volume.view
    dsimp only
    rw [Function.update_of_ne differ]
  · have differ : v.fat.sect ≠ sect := fun same => outside (same ▸ inside)
    exact (Function.update_of_ne differ _ _).trans (good.ready.coherent clean inside)

/-- Any sector is read, past the buffer of the volume. -/
theorem diskRead_calm (good : v.Good g spare) (sect : Nat) :
    ∃ buf w, (diskRead sect).run v = (.ok (true, buf), w) ∧ v.Calm g spare w :=
  ⟨_, _, diskRead_sound good.ready.sound sect, calm_of_agrees good ⟨fun _ _ => rfl, rfl⟩
    ⟨good.ready.sound.later rfl (Nat.le_succ _), good.ready.coherent⟩⟩

/-- The buffer of the volume moves to a sector of the data area and is changed there. -/
theorem updateEdit_calm (good : v.Good g spare) {sect : Nat} (data : sect ∈ g.dataArea)
    (edit : Sector → Sector) : ∃ w x, (updateBuf sect).run v = (.ok (), w) ∧
      (editBuf edit).run w = (.ok (), x) ∧ v.Calm g spare x := by
  obtain ⟨w, moved, ready, agrees, here, -⟩ := updateBuf_spec good.ready sect
  have calm := calm_of_agrees good agrees ready
  have outside : w.fat.sect ∉ g.held spare := fun held => by
    rw [here] at held
    exact good.data_notMem data (Geometry.held_subset held)
  obtain ⟨x, edited, calm', -⟩ := editBuf_calm calm.good outside edit
  exact ⟨w, x, moved, edited, calm.trans calm'⟩

/-! ## The place of a file -/

/-- The clusters of a file are clusters, and so is its entry in one; its buffer would be written
to a cluster if it had to be. -/
structure File.Clustered (g : Geometry) (file : File) : Prop where
  first : g.IsClust file.sclust
  here : g.IsClust file.clust
  entry : file.dirSect ∈ g.dataArea
  dirty : file.flags.fileDirty = true → file.sect ∈ g.dataArea

/-- The file is at a sector of the data area. -/
structure File.Rests (g : Geometry) (file : File) : Prop extends file.Clustered g where
  sect : file.sect ∈ g.dataArea

/-- What was done for a file left its volume without faults. -/
structure OpenFile.Steps (g : Geometry) (spare gone : Set Nat) (s t : OpenFile) : Prop where
  effect : s.volume.Effect g spare gone t.volume
  clustered : t.file.Clustered g
  rests : s.file.Rests g → t.file.Rests g

namespace OpenFile.Steps

theorem refl (good : s.volume.Good g spare) (clustered : s.file.Clustered g) :
    s.Steps g spare gone s := ⟨.refl good, clustered, id⟩

theorem good (steps : s.Steps g spare gone t) : t.volume.Good g spare := steps.effect.good

theorem trans (first : s.Steps g spare gone t) (second : t.Steps g spare gone u) :
    s.Steps g spare gone u :=
  ⟨first.effect.trans second.effect, second.clustered, fun rests => second.rests (first.rests rests)⟩

end OpenFile.Steps

/-- Nothing but the caller's bytes and what is not part of the place is changed. -/
theorem File.Rests.congr {file file' : File} (rests : file.Rests g)
    (sclust : file'.sclust = file.sclust) (clust : file'.clust = file.clust)
    (dirSect : file'.dirSect = file.dirSect) (sect : file'.sect = file.sect) : file'.Rests g where
  first := sclust ▸ rests.first
  here := clust ▸ rests.here
  entry := dirSect ▸ rests.entry
  dirty _ := sect ▸ rests.sect
  sect := sect ▸ rests.sect

/-! ## Following the chain -/

/-- The file has gone along its chain, which may have been stretched. -/
structure OpenFile.Follows (g : Geometry) (spare gone : Set Nat) (s t : OpenFile) : Prop where
  effect : s.volume.Effect g spare gone t.volume
  file : ∃ c, g.IsClust c ∧ t.file = { s.file with clust := c }

theorem OpenFile.Follows.trans (first : s.Follows g spare gone t)
    (second : t.Follows g spare gone u) : s.Follows g spare gone u := by
  obtain ⟨c, -, file⟩ := first.file
  obtain ⟨d, isClust, file'⟩ := second.file
  refine ⟨first.effect.trans second.effect, d, isClust, ?_⟩
  rw [file', file]

theorem followLink_follows (fuel : Nat) (good : s.volume.Good g spare)
    (here : g.IsClust s.file.clust) :
    (followLink fuel).wp (fun _ t => s.Follows g spare gone t) (fun _ t => s.Follows g spare gone t)
      s := by
  have still : ∀ {w : Volume}, s.volume.Effect g spare gone w →
      s.Follows g spare gone (s.withVolume w) := fun effect => ⟨effect, s.file.clust, here, rfl⟩
  unfold followLink wp
  rw [run_gets_bind]
  apply wp_bind
  apply wp_onVolume
  refine (getFat_link good here.inFat).mono ?_ fun _ w read => still (read.1.effect good)
  rintro ⟨next, flags⟩ w ⟨calm, link, known⟩
  dsimp only at link known ⊢
  have effect : s.volume.Effect g spare gone w := calm.effect good
  by_cases broken : flags = .bad ∨ flags = .free
  · rw [if_pos broken]
    exact wp_stop (still effect)
  rw [if_neg broken]
  by_cases last : flags = .last
  · rw [if_pos last]
    have stretchable : w.Stretchable g s.file.clust :=
      .inr ⟨here, by rw [calm.link good here.inFat, known, last]⟩
    apply wp_bind
    apply wp_onVolume
    refine (stretchChain_effect gone fuel effect.good stretchable).mono ?_ fun _ x stretched =>
      still (effect.trans stretched)
    rintro c x ⟨stretched, isClust, -⟩
    exact ⟨effect.trans stretched, c, isClust, rfl⟩
  · rw [if_neg last]
    have used : flags = .used := by
      cases flags with
      | free => exact absurd (.inr rfl) broken
      | used => rfl
      | last => exact absurd rfl last
      | bad => exact absurd (.inl rfl) broken
    exact ⟨effect, next, link ▸ clustFlags_used (used ▸ known), rfl⟩

theorem followChain_follows (fuel : Nat) (count : Nat) : ∀ {s : OpenFile},
    s.volume.Good g spare → g.IsClust s.file.clust →
    (followChain fuel count).wp (fun _ t => s.Follows g spare gone t)
      (fun _ t => s.Follows g spare gone t) s := by
  induction count with
  | zero => exact fun good here => ⟨.refl good, _, here, rfl⟩
  | succ count ih =>
      intro s good here
      rw [followChain]
      apply wp_bind
      refine (followLink_follows fuel good here).mono ?_ fun _ _ failed => failed
      intro _ t first
      obtain ⟨c, isClust, file⟩ := first.file
      have here' : g.IsClust t.file.clust := by rw [file]; exact isClust
      exact (ih first.effect.good here').mono (fun _ _ later => first.trans later)
        fun _ _ later => first.trans later

/-! ## Seeking -/

/-- The buffer of a file is written back to where it was, and another sector is read. -/
theorem moveFile_steps {ssect : Nat} (good : s.volume.Good g spare) (rests : s.file.Rests g)
    (dirty : s.file.flags.fileDirty = true → ssect ∈ g.dataArea) :
    (moveFile ssect).wp (fun _ t => s.Steps g spare gone t) (fun _ t => s.Steps g spare gone t)
      s := by
  have flushed : ∃ t, (flushFile ssect).run s = (.ok (), t) ∧ s.Steps g spare gone t ∧
      t.file.Rests g := by
    unfold flushFile
    rw [run_gets_bind]
    by_cases isDirty : s.file.flags.fileDirty = true
    · obtain ⟨w, written, calm⟩ := diskWrite_calm good (dirty isDirty) s.file.buf
      have wrote : (onVolume (diskWrite s.file.buf ssect)).run s = (.ok (), s.withVolume w) := by
        rw [onVolume, run_zoom, written]
      have rests' : File.Rests g { s.file with flags := { s.file.flags with fileDirty := false } } :=
        rests.congr rfl rfl rfl rfl
      rw [if_pos isDirty, run_bind_ok wrote]
      exact ⟨_, rfl, ⟨calm.effect good, rests'.toClustered, fun _ => rests'⟩, rests'⟩
    · rw [if_neg isDirty]
      exact ⟨s, rfl, .refl good rests.toClustered, rests⟩
  unfold moveFile wp
  rw [run_gets_bind]
  by_cases moved : s.file.sect ≠ ssect
  · obtain ⟨t, run, steps, rests'⟩ := flushed
    obtain ⟨buf, w, read, calm⟩ := diskRead_calm steps.good t.file.sect
    have looked : (onVolume (diskRead t.file.sect)).run t = (.ok (true, buf), t.withVolume w) := by
      rw [onVolume, run_zoom, read]
    rw [if_pos moved, run_bind_ok run, fillFile, run_gets_bind, run_bind_ok looked]
    have filled : File.Rests g { t.file with buf := buf } := rests'.congr rfl rfl rfl rfl
    exact steps.trans ⟨calm.effect steps.good, filled.toClustered, fun _ => filled⟩
  · rw [if_neg moved]
    exact .refl good rests.toClustered

/-- The file before its chain is followed, back at its first cluster or not. -/
theorem rewind_steps (good : s.volume.Good g spare) (clustered : s.file.Clustered g)
    (back : Prop) [Decidable back] :
    ∃ b, s.withFile (fun file => if back then rewind g file else file) = b ∧
      s.Steps g spare gone b ∧ b.file.flags = s.file.flags := by
  refine ⟨_, rfl, ?_⟩
  unfold OpenFile.withFile
  dsimp only
  split
  · have inside : g.clustToSect s.file.sclust ∈ g.clustArea s.file.sclust :=
      ⟨le_rfl, Nat.lt_add_of_pos_right (Nat.two_pow_pos _)⟩
    have data := good.layout.clustArea_subset clustered.first inside
    have start : (rewind g s.file).Clustered g :=
      ⟨clustered.first, clustered.first, clustered.entry, fun _ => data⟩
    exact ⟨⟨.refl good, start, fun _ => ⟨start, data⟩⟩, rfl⟩
  · exact ⟨.refl good clustered, rfl⟩

/-- A file that has gone along its chain. -/
theorem OpenFile.Follows.steps (follows : s.Follows g spare gone t)
    (clustered : s.file.Clustered g) : s.Steps g spare gone t := by
  obtain ⟨c, isClust, file⟩ := follows.file
  have went : t.file.Clustered g := by
    rw [file]
    exact ⟨clustered.first, isClust, clustered.entry, clustered.dirty⟩
  refine ⟨follows.effect, went, fun before => ⟨went, ?_⟩⟩
  rw [file]
  exact before.sect

/-- The end of a seek, from a file whose buffer may be written to `ssect`. -/
theorem seekTo_steps (fuel turns off : Nat) {ssect : Nat} {place : File → Nat}
    (inData : ∀ file, g.IsClust file.clust → place file ∈ g.dataArea) (good : s.volume.Good g spare)
    (clustered : s.file.Clustered g) (dirty : s.file.flags.fileDirty = true → ssect ∈ g.dataArea) :
    (followChain fuel turns >>= fun _ =>
      modifyFile (fun file => { file with sect := place file, offset := off }) >>=
        fun _ => moveFile ssect).wp (fun _ t => s.Steps g spare gone t ∧ t.file.Rests g)
      (fun _ t => s.Steps g spare gone t) s := by
  apply wp_bind
  refine (followChain_follows fuel _ good clustered.here).mono ?_ fun _ _ failed =>
    failed.steps clustered
  intro _ t follows
  have steps := follows.steps clustered
  have data := inData t.file steps.clustered.here
  obtain ⟨x, named, volume, there, flags⟩ : ∃ x, t.withFile (fun file => { file with
      sect := place file, offset := off }) = x ∧ x.volume = t.volume ∧
      x.file.Rests g ∧ x.file.flags = t.file.flags :=
    ⟨_, rfl, rfl, ⟨⟨steps.clustered.first, steps.clustered.here, steps.clustered.entry,
      fun _ => data⟩, data⟩, rfl⟩
  obtain ⟨c, -, file⟩ := follows.file
  have dirty' : x.file.flags.fileDirty = true → ssect ∈ g.dataArea := by
    rw [flags, file]
    exact dirty
  have before : s.Steps g spare gone x :=
    ⟨volume.symm ▸ steps.effect, there.toClustered, fun _ => there⟩
  unfold wp
  rw [run_modifyFile_bind, named]
  exact (moveFile_steps before.good there dirty').mono
    (fun _ _ later => ⟨before.trans later, later.rests there⟩) fun _ _ later => before.trans later

/-- **Seeking**, which ends at a sector of the data area if it succeeds. -/
theorem fatFileSeek_steps (fuel : Nat) {offset : Int} {origin : Seek} (good : s.volume.Good g spare)
    (clustered : s.file.Clustered g) :
    (fatFileSeek fuel offset origin).wp (fun _ t => s.Steps g spare gone t ∧ t.file.Rests g)
      (fun _ t => s.Steps g spare gone t) s := by
  unfold wp
  by_cases mounted : s.file.fat = none
  · rw [fatFileSeek_unmounted fuel mounted]
    exact .refl good clustered
  obtain ⟨off64, target⟩ : ∃ off64, s.target offset origin = off64 := ⟨_, rfl⟩
  by_cases outside : off64 < 0 ∨ 0xffffffff < off64
  · rw [fatFileSeek_outside fuel mounted target outside]
    exact .refl good clustered
  · rw [fatFileSeek_run fuel mounted target outside, good.geometry]
    obtain ⟨b, named, steps, flags⟩ := @rewind_steps g spare gone s good clustered
      (off64.toNat / g.clustSize < s.file.offset / g.clustSize) _
    dsimp only
    rw [named]
    have inData : ∀ file : File, g.IsClust file.clust →
        g.sectorOf file.clust off64.toNat ∈ g.dataArea := fun file isClust =>
      good.layout.clustArea_subset isClust (good.layout.sectorOf_mem isClust _)
    exact (seekTo_steps fuel _ _ inData steps.good steps.clustered
      fun isDirty => clustered.dirty (flags ▸ isDirty)).mono
      (fun _ _ later => ⟨steps.trans later.1, later.2⟩) fun _ _ later => steps.trans later

/-! ## Reading and writing -/

/-- What was done for a file at a sector of the data area left it at one. -/
structure OpenFile.Works (g : Geometry) (spare gone : Set Nat) (s t : OpenFile) : Prop where
  effect : s.volume.Effect g spare gone t.volume
  rests : t.file.Rests g

namespace OpenFile.Works

theorem good (works : s.Works g spare gone t) : t.volume.Good g spare := works.effect.good

theorem trans (first : s.Works g spare gone t) (second : t.Works g spare gone u) :
    s.Works g spare gone u := ⟨first.effect.trans second.effect, second.rests⟩

end OpenFile.Works

/-- A command works, whether it stops or not. -/
abbrev FileWorks {α : Type} (g : Geometry) (spare gone : Set Nat) (command : FileM α)
    (s : OpenFile) : Prop :=
  command.wp (fun _ t => s.Works g spare gone t) (fun _ t => s.Works g spare gone t) s

theorem OpenFile.Works.then {α : Type} {command : FileM α} (before : s.Works g spare gone t)
    (later : FileWorks g spare gone command t) :
    command.wp (fun _ u => s.Works g spare gone u) (fun _ u => s.Works g spare gone u) t :=
  later.mono (fun _ _ works => before.trans works) fun _ _ works => before.trans works

/-- The caller's bytes and the other fields of the file say nothing about its place. -/
theorem OpenFile.works_of_same (good : s.volume.Good g spare) (rests : s.file.Rests g)
    (volume : t.volume = s.volume) (sclust : t.file.sclust = s.file.sclust)
    (clust : t.file.clust = s.file.clust) (dirSect : t.file.dirSect = s.file.dirSect)
    (sect : t.file.sect = s.file.sect) : s.Works g spare gone t where
  effect := volume.symm ▸ .refl good
  rests := rests.congr sclust clust dirSect sect

/-- What does nothing to the FAT, for a file. -/
theorem onVolume_works {α : Type} {command : FatM α} (calms : Calms g spare command)
    (good : s.volume.Good g spare) (rests : s.file.Rests g) :
    FileWorks g spare gone (onVolume command) s :=
  wp_onVolume ((calms.from good).mono (fun _ _ calm => ⟨calm.effect good, rests⟩)
    fun _ _ calm => ⟨calm.effect good, rests⟩)

theorem fatFileSeek_works (fuel : Nat) (offset : Int) (origin : Seek) (good : s.volume.Good g spare)
    (rests : s.file.Rests g) : FileWorks g spare gone (fatFileSeek fuel offset origin) s :=
  (fatFileSeek_steps fuel good rests.toClustered).mono
    (fun _ _ steps => ⟨steps.1.effect, steps.2⟩) fun _ _ steps => ⟨steps.effect, steps.rests rests⟩

/-- The loop of `fat_file_read`: each turn is a seek. -/
theorem readLoop_works (fuel turns : Nat) : ∀ {len : Int} {s : OpenFile}, s.volume.Good g spare →
    s.file.Rests g → FileWorks g spare gone (readLoop fuel turns len) s := by
  induction turns with
  | zero => exact fun good rests => wp_stop ⟨.refl good, rests⟩
  | succ turns ih =>
      intro len s good rests
      unfold FileWorks wp
      rw [readLoop, run_gets_bind]
      by_cases ends : len = 0 ∨ s.file.size ≤ s.file.offset
      · rw [if_pos ends]
        exact ⟨.refl good, rests⟩
      · rw [if_neg ends]
        dsimp only
        rw [run_modify_bind]
        have delivered : s.Works g spare gone (s.deliver (readCount len s.file)) :=
          OpenFile.works_of_same good rests rfl rfl rfl rfl rfl
        apply wp_bind
        refine (delivered.then (fatFileSeek_works fuel _ _ delivered.good delivered.rests)).mono ?_
          fun _ _ failed => failed
        exact fun _ t sought => sought.then (ih sought.good sought.rests)

/-- The loop of `fat_file_write`: each turn is a change of the file's buffer and a seek, whose
failure ends the loop. -/
theorem writeLoop_works (fuel turns : Nat) : ∀ {src : List Byte} {len : Int} {s : OpenFile},
    s.volume.Good g spare → s.file.Rests g →
    FileWorks g spare gone (writeLoop fuel turns src len) s := by
  induction turns with
  | zero => exact fun good rests => wp_stop ⟨.refl good, rests⟩
  | succ turns ih =>
      intro src len s good rests
      unfold FileWorks wp
      rw [writeLoop, run_gets_bind]
      by_cases ends : len = 0
      · rw [if_pos ends]
        exact ⟨.refl good, rests⟩
      rw [if_neg ends]
      dsimp only
      by_cases negative : min len (512 - s.file.offset % 512 : Nat) < 0
      · rw [if_pos negative]
        exact ⟨.refl good, rests⟩
      rw [if_neg negative, run_modify_bind, run_bind, run_attempt]
      have accepted : s.Works g spare gone
          (s.accept src (min len (512 - s.file.offset % 512 : Nat)).toNat) :=
        OpenFile.works_of_same good rests rfl rfl rfl rfl rfl
      have sought := accepted.then (fatFileSeek_works fuel
        (min len (512 - s.file.offset % 512 : Nat)) .curr accepted.good accepted.rests)
      unfold wp at sought
      generalize (fatFileSeek fuel _ .curr).run _ = ended at sought ⊢
      obtain ⟨(_ | _ | _) | ⟨⟩, t⟩ := ended
      · exact sought.then (onVolume_works (note_calms .lost) sought.good sought.rests)
      · exact sought
      · exact sought
      · exact sought.then (ih sought.good sought.rests)

theorem fatFileRead_works (fuel : Nat) (len : Int) (good : s.volume.Good g spare)
    (rests : s.file.Rests g) : FileWorks g spare gone (fatFileRead fuel len) s := by
  unfold FileWorks wp
  rcases fatFileRead_cases (s := s) fuel len with ⟨e, failed⟩ | began
  · rw [failed]
    exact OpenFile.works_of_same good rests rfl rfl rfl rfl rfl
  · have start : s.Works g spare gone s.startRead :=
      OpenFile.works_of_same good rests rfl rfl rfl rfl rfl
    rw [began]
    exact start.then (readLoop_works fuel fuel start.good start.rests)

theorem fatFileWrite_works (fuel : Nat) (src : List Byte) (len : Int) (good : s.volume.Good g spare)
    (rests : s.file.Rests g) : FileWorks g spare gone (fatFileWrite fuel src len) s := by
  unfold FileWorks wp
  rcases fatFileWrite_cases (s := s) fuel src len with ⟨e, failed⟩ | began
  · rw [failed]
    exact OpenFile.works_of_same good rests rfl rfl rfl rfl rfl
  · have start : s.Works g spare gone s.startWrite :=
      OpenFile.works_of_same good rests rfl rfl rfl rfl rfl
    rw [began]
    apply wp_bind
    refine (start.then (writeLoop_works fuel fuel start.good start.rests)).mono ?_
      fun _ _ failed => failed
    exact fun _ t wrote =>
      wrote.trans (OpenFile.works_of_same wrote.good wrote.rests rfl rfl rfl rfl rfl)

/-! ## Synchronizing -/

/-- The entry of a file is in the data area. -/
theorem syncEntry_works (good : s.volume.Good g spare) (rests : s.file.Rests g) :
    FileWorks g spare gone syncEntry s := by
  unfold syncEntry FileWorks wp
  rw [run_gets_bind]
  by_cases touched : s.file.flags.accessed ∨ s.file.flags.modified
  · rw [if_pos touched]
    obtain ⟨w, x, moved, edited, calm⟩ := updateEdit_calm good rests.entry
      (Sector.putSlot s.file.dirIdx s.file.touchEntry)
    have there : (onVolume (updateBuf s.file.dirSect)).run s = (.ok (), s.withVolume w) := by
      rw [onVolume, run_zoom, moved]
    have changed : (onVolume (editBuf (Sector.putSlot s.file.dirIdx s.file.touchEntry))).run
        (s.withVolume w) = (.ok (), s.withVolume x) := by
      rw [onVolume, run_zoom]
      change (((editBuf _).run w).1, s.withVolume ((editBuf _).run w).2) = _
      rw [edited]
    rw [run_bind_ok there, changed]
    exact ⟨calm.effect good, rests⟩
  · rw [if_neg touched]
    exact ⟨.refl good, rests⟩

theorem fatFileSync_works (good : s.volume.Good g spare) (rests : s.file.Rests g) :
    FileWorks g spare gone fatFileSync s := by
  unfold fatFileSync FileWorks wp
  rw [run_gets_bind]
  by_cases none : s.file.fat = none
  · rw [if_pos none]
    exact ⟨.refl good, rests⟩
  rw [if_neg none]
  obtain ⟨w, written, calm⟩ := diskWrite_calm good rests.sect s.file.buf
  have wrote : (onVolume (diskWrite s.file.buf s.file.sect)).run s = (.ok (), s.withVolume w) := by
    rw [onVolume, run_zoom, written]
  have first : s.Works g spare gone (s.withVolume w) := ⟨calm.effect good, rests⟩
  rw [run_bind_ok wrote]
  apply wp_bind
  refine (first.then (syncEntry_works first.good first.rests)).mono ?_ fun _ _ failed => failed
  intro _ t entered
  apply wp_bind
  refine (entered.then (onVolume_works syncFs_calms entered.good entered.rests)).mono ?_
    fun _ _ failed => failed
  exact fun _ u synced =>
    synced.trans (OpenFile.works_of_same synced.good synced.rests rfl rfl rfl rfl rfl)

/-! ## Opening -/

/-- **Opening** the entry of a cluster, in a sector of the data area: if it succeeds the file is
at a sector of the data area. -/
theorem openEntry_steps (fuel fat : Nat) {dirSect : Nat} (dirIdx : Nat) (flags : OpenFlags)
    {sfn : Slot} (good : s.volume.Good g spare) (first : g.IsClust sfn.cluster)
    (entry : dirSect ∈ g.dataArea) :
    (openEntry fuel fat dirSect dirIdx flags sfn).wp
      (fun _ t => s.volume.Effect g spare gone t.volume ∧ t.file.Rests g)
      (fun _ t => s.volume.Effect g spare gone t.volume) s := by
  obtain ⟨b, named, volume, clustered⟩ : ∃ b, s.withFile (fun file =>
      File.ofEntry fat dirSect dirIdx flags sfn file.buf) = b ∧ b.volume = s.volume ∧
      b.file.Clustered g :=
    ⟨_, rfl, rfl, first, first, entry, fun dirty => absurd dirty Bool.false_ne_true⟩
  have good' : b.volume.Good g spare := volume.symm ▸ good
  unfold openEntry wp
  rw [run_modifyFile_bind, named, ← volume]
  exact (fatFileSeek_steps fuel good' clustered).mono (fun _ _ sought => ⟨sought.1.effect, sought.2⟩)
    fun _ _ sought => sought.effect

end NTux.Fat32
