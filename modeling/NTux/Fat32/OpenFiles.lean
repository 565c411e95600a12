import NTux.Fat32.Chains
import NTux.Fat32.Faults
import NTux.Fat32.File
import NTux.Foundation.Runs

/-! # The representation of an open file

Between calls, `clust` is the cluster of the file's chain that has the offset, `sect` is the
offset's sector of it, and the buffer belongs to this sector (`OpenFile.Consistent`). Every
run of calls on a file keeps this, on a disk with any faults, as long as no seek fails after
it has begun to change the file (`file_consistent_of_run`).
-/

namespace NTux.Fat32

open NTux.Foundation Command

variable {g : Geometry} {v w : Volume} {c d k n : Nat} {s t : OpenFile}

/-! ## Links of chains -/

theorem clustFlags_of_isClust (fit : v.Fit g) (isClust : g.IsClust c) :
    clustFlags g.clustCnt c = some .used := by
  have small := fit.small
  obtain ⟨low, high⟩ := isClust
  rw [clustFlags, if_neg (by omega), if_neg (by omega), if_neg (by omega), if_pos ⟨low, high⟩]

namespace Volume.Leads

/-- Links are kept. -/
theorem kept (fit : v.Fit g) (kept : v.Kept g w) (leads : v.Leads k c d) (first : g.IsClust c) :
    w.Leads k c d :=
  leads.carry fit.geometry kept.fit.geometry (fun c isClust => kept.link c isClust.inFat) first

/-- Where the entries are the same, the same links lead from a cluster. -/
theorem of_same (fit : v.Fit g) (fit' : w.Fit g) (same : ∀ c, g.InFat c → w.link c = v.link c)
    (leads : w.Leads k c d) (first : g.IsClust c) : v.Leads k c d :=
  leads.carry fit'.geometry fit.geometry (fun c isClust _ => (same c isClust.inFat).symm) first

end Volume.Leads

/-! ## The file's place in its chain -/

/-- The file is at a place of its chain, and the volume's buffer is not at the chain. -/
structure OpenFile.Holds (g : Geometry) (k : Nat) (s : OpenFile) : Prop where
  fit : s.volume.Fit g
  first : g.IsClust s.file.sclust
  leads : s.volume.Leads k s.file.sclust s.file.clust
  apart : ∀ n d, s.volume.Leads n s.file.sclust d → s.volume.fat.sect ∉ g.clustArea d

/-- The buffer has what belongs to a sector: the sector's bytes, if they were not changed. -/
structure OpenFile.Buffered (sect : Nat) (s : OpenFile) : Prop where
  home : s.home = some sect
  buf : s.file.flags.fileDirty = false → s.file.buf = s.volume.disk.sectors sect

/-- **The representation.** -/
structure OpenFile.Consistent (s : OpenFile) : Prop where
  clust : s.volume.Leads (s.file.offset / s.volume.fat.geometry.clustSize) s.file.sclust s.file.clust
  sect : s.file.sect = s.volume.fat.geometry.sectorOf s.file.clust s.file.offset
  buffered : s.Buffered s.file.sect

/-- A consistent file on a volume that fits. -/
structure OpenFile.Placed (g : Geometry) (s : OpenFile) : Prop where
  holds : s.Holds g (s.file.offset / g.clustSize)
  consistent : s.Consistent

namespace OpenFile.Holds

/-- The current cluster is one. -/
theorem isClust (holds : s.Holds g k) : g.IsClust s.file.clust :=
  holds.leads.isClust holds.fit.geometry holds.first

/-- The volume goes on and keeps the links. -/
theorem kept (holds : s.Holds g k) (kept : s.volume.Kept g w) : (s.withVolume w).Holds g k where
  fit := kept.fit
  first := holds.first
  leads := holds.leads.kept holds.fit kept holds.first
  apart := by
    intro n d leads
    rcases kept.buffer with side | ⟨equal, same⟩
    · intro inside
      have isClust := leads.isClust kept.fit.geometry holds.first
      exact kept.fit.layout.data_notMem (kept.fit.layout.clustArea_subset isClust inside) side
    · change w.fat.sect ∉ _
      rw [equal]
      exact holds.apart n d (leads.of_same holds.fit kept.fit same holds.first)

end OpenFile.Holds

/-- The bytes of a sector of the chain are on the disk. -/
theorem OpenFile.Buffered.kept {sect : Nat} (buffered : s.Buffered sect)
    (kept : s.volume.Kept g w) (data : sect ∈ g.dataArea) (apart : s.volume.fat.sect ≠ sect) :
    (s.withVolume w).Buffered sect where
  home := buffered.home
  buf clean := (buffered.buf clean).trans (kept.disk data apart).2.symm

/-- What the volume does for a file. -/
theorem wp_onVolume {α : Type} {command : FatM α} {value : α → OpenFile → Prop}
    {reason : Stop → OpenFile → Prop}
    (holds : command.wp (fun a v => value a (s.withVolume v)) (fun e v => reason e (s.withVolume v))
      s.volume) : (onVolume command).wp value reason s := by
  unfold wp at holds ⊢
  rw [onVolume, run_zoom]
  generalize command.run s.volume = ended at holds ⊢
  obtain ⟨_ | _, v⟩ := ended <;> exact holds

/-- **A link.** The loop of `fat_file_seek` goes on by one cluster, or it fails and the file is
as it was; the volume keeps its links unless a read fails. -/
theorem followLink_faults (fuel : Nat) (holds : s.Holds g k) :
    (followLink fuel).wp
      (fun _ t => t.Holds g (k + 1) ∧ s.volume.Kept g t.volume ∧
        t = (s.withVolume t.volume).withFile fun file => { file with clust := t.file.clust })
      (fun _ t => t = s.withVolume t.volume ∧
        (s.volume.Kept g t.volume ∨ reads s.volume.mishaps < reads t.volume.mishaps)) s := by
  have geometry := holds.fit.geometry
  unfold followLink wp
  rw [run_gets_bind]
  apply wp_bind
  apply wp_onVolume
  refine (getFat_faults holds.fit holds.isClust.inFat).mono ?_ ?_
  · rintro ⟨next, flags⟩ v ⟨same, side, value, known⟩
    dsimp only at value known
    subst value
    have kept := same.kept
    have moved := holds.kept kept
    have link := same.link _ holds.isClust.inFat
    unfold wp
    dsimp only
    by_cases broken : flags = .bad ∨ flags = .free
    · rw [if_pos broken]
      exact ⟨rfl, .inl kept⟩
    · rw [if_neg broken]
      by_cases last : flags = .last
      · subst last
        rw [if_pos rfl]
        apply wp_bind
        apply wp_onVolume
        have ends : clustFlags g.clustCnt (v.link s.file.clust) = some .last := by rw [link, known]
        refine (stretchChain_faults fuel same.fit holds.isClust ends).mono ?_ ?_
        · rintro d w ⟨kept', side', isClust, linked⟩
          have total := kept.trans kept'
          have used : clustFlags w.fat.geometry.clustCnt (w.link s.file.clust) = some .used := by
            rw [linked, kept'.fit.geometry]
            exact clustFlags_of_isClust kept'.fit isClust
          have longer := (holds.kept total).leads.next used
          rw [OpenFile.withVolume] at longer
          dsimp only at longer
          rw [linked] at longer
          refine ⟨⟨total.fit, holds.first, longer, ?_⟩, total, rfl⟩
          intro n e leads inside
          exact total.fit.layout.data_notMem (total.fit.layout.clustArea_subset
            (leads.isClust total.fit.geometry holds.first) inside) side'
        · rintro - w (kept' | more)
          · exact ⟨rfl, .inl (kept.trans kept')⟩
          · exact ⟨rfl, .inr (by rwa [← kept.reads])⟩
      · rw [if_neg last]
        have isUsed : flags = .used := by
          cases flags with
          | free => exact absurd (.inr rfl) broken
          | used => rfl
          | last => exact absurd rfl last
          | bad => exact absurd (.inl rfl) broken
        subst isUsed
        have used : clustFlags v.fat.geometry.clustCnt (v.link s.file.clust) = some .used := by
          rw [same.fit.geometry, link, known]
        have longer := moved.leads.next used
        rw [OpenFile.withVolume] at longer
        dsimp only at longer
        rw [link] at longer
        refine ⟨⟨same.fit, holds.first, longer, ?_⟩, kept, rfl⟩
        exact moved.apart
  · rintro - v (same | more)
    · exact ⟨rfl, .inl same.kept⟩
    · exact ⟨rfl, .inr more⟩

/-- The file after links were followed: its cluster is another one, and the volume went on. -/
structure OpenFile.Moves (g : Geometry) (s t : OpenFile) : Prop where
  kept : s.volume.Kept g t.volume
  file : t = (s.withVolume t.volume).withFile fun file => { file with clust := t.file.clust }

theorem OpenFile.Moves.trans {u : OpenFile} (first : s.Moves g t) (second : t.Moves g u) :
    s.Moves g u where
  kept := first.kept.trans second.kept
  file := by
    have same := second.file
    rw [first.file] at same
    exact same

/-- The loop of `fat_file_seek`, where it does not fail. -/
theorem followChain_ok (fuel : Nat) : ∀ {n : Nat} {k : Nat} {s t : OpenFile}, s.Holds g k →
    (followChain fuel n).run s = (.ok (), t) → t.Holds g (k + n) ∧ s.Moves g t := by
  intro n
  induction n with
  | zero =>
      intro k s t holds done
      cases done
      exact ⟨holds, (Volume.Same.refl holds.fit).kept, rfl⟩
  | succ n ih =>
      intro k s t holds done
      obtain ⟨⟨⟩, u, link, rest⟩ := of_run_bind_ok done
      obtain ⟨holds', kept, file⟩ := (followLink_faults fuel holds).of_ok link
      obtain ⟨holds'', moves⟩ := ih holds' rest
      rw [Nat.add_assoc, Nat.add_comm 1] at holds''
      exact ⟨holds'', OpenFile.Moves.trans ⟨kept, file⟩ moves⟩

/-! ## The file's buffer -/

/-- Bytes that are written to a sector of the data area, not the one that is buffered. -/
theorem Volume.Fit.write (fit : v.Fit g) {sect : Nat} (data : sect ∈ g.dataArea)
    (apart : v.fat.sect ≠ sect) (buf : Sector) (count : Nat) :
    Volume.Fit g { v with disk := { v.disk with
        sectors := Function.update v.disk.sectors sect buf, count := count } } ∧
      ∀ c, g.InFat c → Volume.link { v with disk := { v.disk with
        sectors := Function.update v.disk.sectors sect buf, count := count } } c = v.link c := by
  refine ⟨⟨fit.geometry, fit.layout, fit.small, fit.shift, fit.begins, fun clean inside => ?_⟩, ?_⟩
  · change Function.update v.disk.sectors sect buf v.fat.sect = v.fat.buf
    rw [Function.update_of_ne apart]
    exact fit.coherent clean inside
  · intro c inFat
    have differ : g.fatSect + c / 128 ≠ sect := by
      rintro rfl
      exact fit.layout.data_notMem data (.inl (.inl (Geometry.mem_fatArea inFat)))
    unfold Volume.link Volume.entry entryAt
    dsimp only
    rw [fit.geometry]
    unfold Volume.view
    dsimp only
    rw [Function.update_of_ne differ]

/-- The file's place does not change as long as the links do not, and the buffer does not
move. -/
theorem OpenFile.Holds.same (holds : s.Holds g k) (fit : w.Fit g)
    (links : ∀ c, g.InFat c → w.link c = s.volume.link c)
    (sect : w.fat.sect = s.volume.fat.sect) {f : File → File}
    (sclust : (f s.file).sclust = s.file.sclust) (clust : (f s.file).clust = s.file.clust)
    (home : Option Nat) : OpenFile.Holds g k
      { s with volume := w, file := f s.file, home := home } where
  fit := fit
  first := sclust ▸ holds.first
  leads := by
    change w.Leads k (f s.file).sclust (f s.file).clust
    rw [sclust, clust]
    exact holds.leads.of_same fit holds.fit (fun c inFat => (links c inFat).symm) holds.first
  apart := by
    intro n d leads
    change w.Leads n (f s.file).sclust d at leads
    change w.fat.sect ∉ _
    rw [sect]
    rw [sclust] at leads
    exact holds.apart n d (leads.of_same holds.fit fit links holds.first)

/-- A buffer that is written to a sector, and the file, whose place stays. -/
theorem flushFile_ok {ssect : Nat} (holds : s.Holds g k)
    (before : s.Buffered ssect ∧ ssect ∈ g.dataArea ∧ s.volume.fat.sect ≠ ssect ∨
      s.file.flags.fileDirty = false)
    (done : (flushFile ssect).run s = (.ok (), t)) :
    t.Holds g k ∧ t.file.flags.fileDirty = false ∧ t.file.sclust = s.file.sclust ∧
      t.file.clust = s.file.clust ∧ t.file.sect = s.file.sect ∧ t.file.offset = s.file.offset := by
  unfold flushFile at done
  rw [run_gets_bind] at done
  by_cases dirty : s.file.flags.fileDirty = true
  · rw [if_pos dirty] at done
    rcases before with ⟨-, data, apart⟩ | clean
    · obtain ⟨⟨⟩, u, written, rest⟩ := of_run_bind_ok done
      rw [onVolume, run_zoom] at written
      rcases diskWrite_cases s.file.buf ssect s.volume with wrote | failed
      · rw [wrote] at written
        cases written
        cases rest
        obtain ⟨fit, links⟩ := holds.fit.write data apart s.file.buf (s.volume.disk.count + 1)
        exact ⟨holds.same fit links rfl
          (f := fun file => { file with flags := { file.flags with fileDirty := false } }) rfl rfl
          s.home, rfl, rfl, rfl, rfl, rfl⟩
      · rw [failed] at written
        cases written
    · rw [clean] at dirty
      cases dirty
  · rw [if_neg dirty] at done
    cases done
    exact ⟨holds, by simpa using dirty, rfl, rfl, rfl, rfl⟩

/-- The buffer is read from the file's sector. -/
theorem fillFile_ok (holds : s.Holds g k) (done : fillFile.run s = (.ok (), t)) :
    t.Holds g k ∧ t.Buffered s.file.sect ∧ t.file.sclust = s.file.sclust ∧
      t.file.clust = s.file.clust ∧ t.file.sect = s.file.sect ∧ t.file.offset = s.file.offset := by
  unfold fillFile at done
  rw [run_gets_bind, run_bind, onVolume, run_zoom] at done
  rcases diskRead_cases s.file.sect s.volume with read | ⟨junk, failed⟩
  · rw [read] at done
    cases done
    refine ⟨?_, ⟨rfl, fun _ => rfl⟩, rfl, rfl, rfl, rfl⟩
    exact holds.same (w := { s.volume with disk := { s.volume.disk with
      count := s.volume.disk.count + 1 } }) ⟨holds.fit.geometry, holds.fit.layout, holds.fit.small,
        holds.fit.shift, holds.fit.begins, holds.fit.coherent⟩ (fun _ _ => rfl) rfl
      (f := fun file => { file with buf := s.volume.disk.sectors file.sect }) rfl rfl _
  · rw [failed] at done
    cases done

/-- Where the buffer comes from before a seek: from a sector of the chain, or from nowhere, as
after `fat_file_open`. -/
def OpenFile.Ready (g : Geometry) (s : OpenFile) : Prop :=
  (s.Buffered s.file.sect ∧ ∃ n d, s.volume.Leads n s.file.sclust d ∧ s.file.sect ∈ g.clustArea d) ∨
    s.file.flags.fileDirty = false ∧ s.file.sect ∉ g.dataArea

/-- The buffer follows the file to a sector of the chain. -/
theorem moveFile_ok {ssect : Nat} (holds : s.Holds g k) (data : s.file.sect ∈ g.dataArea)
    (before : s.Buffered ssect ∧ ssect ∈ g.dataArea ∧ s.volume.fat.sect ≠ ssect ∨
      s.file.flags.fileDirty = false ∧ ssect ∉ g.dataArea)
    (done : (moveFile ssect).run s = (.ok (), t)) :
    t.Holds g k ∧ t.Buffered s.file.sect ∧ t.file.sclust = s.file.sclust ∧
      t.file.clust = s.file.clust ∧ t.file.sect = s.file.sect ∧ t.file.offset = s.file.offset := by
  unfold moveFile at done
  rw [run_gets_bind] at done
  by_cases moved : s.file.sect ≠ ssect
  · rw [if_pos moved] at done
    obtain ⟨⟨⟩, u, flushed, filled⟩ := of_run_bind_ok done
    obtain ⟨holds', -, sclust, clust, sect, offset⟩ :=
      flushFile_ok holds (before.imp_right And.left) flushed
    obtain ⟨holds'', buffered, sclust', clust', sect', offset'⟩ := fillFile_ok holds' filled
    exact ⟨holds'', sect ▸ buffered, sclust'.trans sclust, clust'.trans clust, sect'.trans sect,
      offset'.trans offset⟩
  · rw [if_neg moved] at done
    cases done
    obtain rfl := not_not.mp moved
    rcases before with ⟨buffered, -, -⟩ | ⟨-, outside⟩
    · exact ⟨holds, buffered, rfl, rfl, rfl, rfl⟩
    · exact absurd data outside

/-! ## Seeking -/

/-- The offset that a seek goes to. -/
def OpenFile.target (s : OpenFile) (offset : Int) (origin : Seek) : Int :=
  origin.base s.file + offset

theorem fatFileSeek_unmounted (fuel : Nat) {offset : Int} {origin : Seek} (none : s.file.fat = none) :
    (fatFileSeek fuel offset origin).run s = (.error (.code errParam), s) := by
  unfold fatFileSeek
  rw [run_gets_bind, if_pos none]
  rfl

theorem fatFileSeek_outside (fuel : Nat) {offset off64 : Int} {origin : Seek}
    (mounted : s.file.fat ≠ none) (target : s.target offset origin = off64)
    (outside : off64 < 0 ∨ 0xffffffff < off64) :
    (fatFileSeek fuel offset origin).run s = (.error (.code errEof), s) := by
  have sum : origin.base s.file + offset = off64 := target
  unfold fatFileSeek
  simp only [run_gets_bind, if_neg mounted, sum, if_pos outside]
  rfl

/-- `fat_file_seek`, where there is a volume and the offset is one. -/
theorem fatFileSeek_run (fuel : Nat) {offset off64 : Int} {origin : Seek}
    (mounted : s.file.fat ≠ none) (target : s.target offset origin = off64)
    (inRange : ¬ (off64 < 0 ∨ 0xffffffff < off64)) :
    (fatFileSeek fuel offset origin).run s =
      let g := s.volume.fat.geometry
      let off := off64.toNat
      let dst := off / g.clustSize
      let src := s.file.offset / g.clustSize
      (followChain fuel (if dst < src then dst else dst - src) >>= fun _ =>
        modifyFile (fun file => { file with sect := g.sectorOf file.clust off, offset := off }) >>=
          fun _ => moveFile s.file.sect).run
        (s.withFile fun file => if dst < src then rewind g file else file) := by
  have sum : origin.base s.file + offset = off64 := target
  unfold fatFileSeek
  simp only [run_gets_bind, if_neg mounted, sum, if_neg inRange]
  rfl

/-- The end of a seek: links are followed to an offset's cluster, and the buffer follows the
file to the offset's sector. -/
theorem seekTo_ok (fuel : Nat) {b u : OpenFile} {off turns : Nat} (start : b.Holds g k)
    (holds : s.Holds g n) (ready : s.Ready g) (volume : b.volume = s.volume) (home : b.home = s.home)
    (flags : b.file.flags = s.file.flags) (buf : b.file.buf = s.file.buf)
    (count : k + turns = off / g.clustSize) {place : File → Nat}
    (placed_eq : ∀ file, place file = g.sectorOf file.clust off)
    (followed : (followChain fuel turns).run b = (.ok (), u))
    (placed : (moveFile s.file.sect).run (u.withFile fun file =>
      { file with sect := place file, offset := off }) = (.ok (), t)) :
    t.Placed g := by
  obtain ⟨holds', moves⟩ := followChain_ok fuel start followed
  rw [count] at holds'
  have kept : s.volume.Kept g u.volume := volume ▸ moves.kept
  have isClust := holds'.isClust
  have layout := holds.fit.layout
  have data : place u.file ∈ g.dataArea := by
    rw [placed_eq]
    exact layout.clustArea_subset isClust (layout.sectorOf_mem isClust off)
  -- The file is at its new offset, and the buffer still belongs to the old sector.
  have before : (u.withFile fun file =>
        { file with sect := place file, offset := off }).Buffered s.file.sect ∧
      s.file.sect ∈ g.dataArea ∧ u.volume.fat.sect ≠ s.file.sect ∨
      u.file.flags.fileDirty = false ∧ s.file.sect ∉ g.dataArea := by
    have home' : u.home = s.home := (congrArg OpenFile.home moves.file).trans home
    have flags' : u.file.flags = s.file.flags :=
      (congrArg (fun t => t.file.flags) moves.file).trans flags
    have buf' : u.file.buf = s.file.buf := (congrArg (fun t => t.file.buf) moves.file).trans buf
    rcases ready with ⟨buffered, n, d, leads, inside⟩ | ⟨clean, outside⟩
    · have isClust' := leads.isClust holds.fit.geometry holds.first
      have onData := layout.clustArea_subset isClust' inside
      have apart : s.volume.fat.sect ≠ s.file.sect := fun equal =>
        holds.apart n d leads (equal ▸ inside)
      obtain ⟨apart', disk⟩ := kept.disk onData apart
      refine .inl ⟨⟨home'.trans buffered.home, fun clean => ?_⟩, onData, apart'⟩
      change u.file.buf = u.volume.disk.sectors s.file.sect
      rw [buf', disk]
      exact buffered.buf (flags' ▸ clean)
    · exact .inr ⟨flags' ▸ clean, outside⟩
  have arrived : (u.withFile fun file =>
      { file with sect := place file, offset := off }).Holds g (off / g.clustSize) :=
    ⟨holds'.fit, holds'.first, holds'.leads, holds'.apart⟩
  obtain ⟨final, buffered, -, clust, sect, offset⟩ := moveFile_ok arrived data before placed
  have offset' : t.file.offset = off := offset
  have sect' : t.file.sect = g.sectorOf t.file.clust off := by
    rw [sect, clust]
    exact placed_eq u.file
  refine ⟨offset' ▸ final, ?_, ?_, ?_⟩
  · rw [final.fit.geometry, offset']
    exact final.leads
  · rw [final.fit.geometry, offset']
    exact sect'
  · rw [sect]
    exact buffered

/-- **A seek that does not fail** leaves the file consistent at its new offset. -/
theorem fatFileSeek_ok (fuel : Nat) {offset : Int} {origin : Seek}
    (holds : s.Holds g (s.file.offset / g.clustSize)) (ready : s.Ready g)
    (done : (fatFileSeek fuel offset origin).run s = (.ok (), t)) : t.Placed g := by
  have mounted : s.file.fat ≠ none := by
    intro none
    rw [fatFileSeek_unmounted fuel none] at done
    cases done
  obtain ⟨off64, target⟩ : ∃ off64, s.target offset origin = off64 := ⟨_, rfl⟩
  have inRange : ¬ (off64 < 0 ∨ 0xffffffff < off64) := by
    intro outside
    rw [fatFileSeek_outside fuel mounted target outside] at done
    cases done
  rw [fatFileSeek_run fuel mounted target inRange, holds.fit.geometry] at done
  dsimp only at done
  obtain ⟨⟨⟩, u, followed, placed⟩ := of_run_bind_ok done
  rw [run_modifyFile_bind] at placed
  by_cases back : off64.toNat / g.clustSize < s.file.offset / g.clustSize
  · simp only [if_pos back] at followed
    have start : (s.withFile (rewind g)).Holds g 0 :=
      ⟨holds.fit, holds.first, rfl, holds.apart⟩
    exact seekTo_ok fuel start holds ready rfl rfl rfl rfl (Nat.zero_add _) (fun _ => rfl) followed
      placed
  · simp only [if_neg back] at followed
    have count := Nat.add_sub_cancel' (Nat.not_lt.mp back)
    exact seekTo_ok fuel holds holds ready rfl rfl rfl rfl count (fun _ => rfl) followed placed

/-! ## Seeks that fail -/

/-- The file, its buffer and the volume are at the same place. -/
theorem OpenFile.Placed.congr (placed : s.Placed g) (volume : s.volume.Same g t.volume)
    (disk : t.volume.disk = s.volume.disk) (home : t.home = s.home)
    (sclust : t.file.sclust = s.file.sclust) (clust : t.file.clust = s.file.clust)
    (sect : t.file.sect = s.file.sect) (offset : t.file.offset = s.file.offset)
    (buf : t.file.flags.fileDirty = true ∨
      t.file.flags.fileDirty = s.file.flags.fileDirty ∧ t.file.buf = s.file.buf) : t.Placed g := by
  obtain ⟨holds, consistent⟩ := placed
  have moved := holds.kept volume.kept
  have geometry : t.volume.fat.geometry = s.volume.fat.geometry :=
    volume.fit.geometry.trans holds.fit.geometry.symm
  have leads := moved.leads
  have apart := moved.apart
  refine ⟨⟨volume.fit, sclust ▸ holds.first, ?_, ?_⟩, ?_, ?_, ?_, fun clean => ?_⟩
  · rw [offset, sclust, clust]
    exact leads
  · rw [sclust]
    exact apart
  · rw [geometry, holds.fit.geometry, offset, sclust, clust]
    exact leads
  · rw [sect, geometry, clust, offset]
    exact consistent.sect
  · rw [home, sect]
    exact consistent.buffered.home
  · rcases buf with dirty | ⟨same, buf⟩
    · exact absurd (clean.symm.trans dirty) Bool.false_ne_true
    · rw [buf, disk, sect]
      exact consistent.buffered.buf (same ▸ clean)

/-- The sector of a file is one of its chain. -/
theorem OpenFile.Placed.sect_mem (placed : s.Placed g) : s.file.sect ∈ g.clustArea s.file.clust := by
  have layout := placed.holds.fit.layout
  rw [placed.consistent.sect, placed.holds.fit.geometry]
  exact layout.sectorOf_mem placed.holds.isClust _

theorem OpenFile.Placed.ready (placed : s.Placed g) : s.Ready g :=
  .inl ⟨placed.consistent.buffered, _, _, placed.holds.leads, placed.sect_mem⟩

/-- A seek fails before it changes the file: there is no volume, the offset is none, or it is
the first link that cannot be followed, and no read has failed. -/
inductive SeekFailsEarly (fuel : Nat) (offset : Int) (origin : Seek) (s : OpenFile) : Prop where
  | unmounted : s.file.fat = none → SeekFailsEarly fuel offset origin s
  | outside : s.file.fat ≠ none → s.target offset origin < 0 ∨ 0xffffffff < s.target offset origin →
      SeekFailsEarly fuel offset origin s
  | link {e : Stop} {t : OpenFile} : s.file.fat ≠ none →
      ¬ (s.target offset origin < 0 ∨ 0xffffffff < s.target offset origin) →
      s.file.offset / s.volume.fat.geometry.clustSize <
        (s.target offset origin).toNat / s.volume.fat.geometry.clustSize →
      (followLink fuel).run s = (.error e, t) →
      reads t.volume.mishaps = reads s.volume.mishaps → SeekFailsEarly fuel offset origin s

/-- The file is as it was, on a volume that has kept its links. -/
theorem OpenFile.Placed.kept (placed : s.Placed g) (kept : s.volume.Kept g w) :
    (s.withVolume w).Placed g := by
  have holds := placed.holds.kept kept
  have data := holds.fit.layout.clustArea_subset placed.holds.isClust placed.sect_mem
  have apart : s.volume.fat.sect ≠ s.file.sect := fun equal =>
    placed.holds.apart _ _ placed.holds.leads (equal ▸ placed.sect_mem)
  have geometry : w.fat.geometry = s.volume.fat.geometry :=
    kept.fit.geometry.trans placed.holds.fit.geometry.symm
  refine ⟨holds, ?_, ?_, placed.consistent.buffered.kept kept data apart⟩
  · change w.Leads (s.file.offset / w.fat.geometry.clustSize) _ _
    rw [kept.fit.geometry]
    exact holds.leads
  · change s.file.sect = w.fat.geometry.sectorOf _ _
    rw [geometry]
    exact placed.consistent.sect

/-- **A seek that fails early** leaves the file as it was. -/
theorem seek_early {fuel : Nat} {offset : Int} {origin : Seek} (placed : s.Placed g)
    (early : SeekFailsEarly fuel offset origin s) :
    ((fatFileSeek fuel offset origin).run s).2.Placed g := by
  cases early with
  | unmounted none =>
      rw [fatFileSeek_unmounted fuel none]
      exact placed
  | outside mounted outside =>
      rw [fatFileSeek_outside fuel mounted rfl outside]
      exact placed
  | @link e t mounted inRange forward failed noRead =>
      have stopped : (fatFileSeek fuel offset origin).run s = (.error e, t) := by
        rw [fatFileSeek_run fuel mounted rfl inRange]
        dsimp only
        have plain : (s.withFile fun file => if (s.target offset origin).toNat /
            s.volume.fat.geometry.clustSize < s.file.offset / s.volume.fat.geometry.clustSize then
              rewind s.volume.fat.geometry file else file) = s := by
          simp only [if_neg (Nat.lt_asymm forward)]
          rfl
        obtain ⟨count, more⟩ := Nat.exists_eq_add_of_lt forward
        rw [plain, if_neg (Nat.lt_asymm forward), more, Nat.add_assoc, Nat.add_sub_cancel_left,
          followChain]
        exact run_bind_error (run_bind_error failed)
      rw [stopped]
      obtain ⟨same, outcome⟩ := (followLink_faults fuel placed.holds).of_error failed
      rcases outcome with kept | more
      · rw [same]
        exact placed.kept kept
      · exact absurd more (by omega)

/-! ## Calls -/

/-- A seek succeeds, or it fails before it changes the file. -/
def SeekFits (fuel : Nat) (offset : Int) (origin : Seek) (s : OpenFile) : Prop :=
  (∃ t, (fatFileSeek fuel offset origin).run s = (.ok (), t)) ∨ SeekFailsEarly fuel offset origin s

/-- A seek that fits leaves the file at its place. -/
theorem seek_placed {fuel : Nat} {offset : Int} {origin : Seek} (placed : s.Placed g)
    (fits : SeekFits fuel offset origin s) :
    ((fatFileSeek fuel offset origin).run s).2.Placed g := by
  rcases fits with ⟨t, done⟩ | early
  · rw [done]
    exact fatFileSeek_ok fuel placed.holds placed.ready done
  · exact seek_early placed early

/-- Every seek of the loop of `fat_file_read` fits. -/
def ReadFits (fuel : Nat) : Nat → Int → OpenFile → Prop
  | 0, _, _ => True
  | turns + 1, len, s =>
      len = 0 ∨ s.file.size ≤ s.file.offset ∨
        SeekFits fuel (readCount len s.file) .curr (s.deliver (readCount len s.file)) ∧
          ∀ t, (fatFileSeek fuel (readCount len s.file) .curr).run
              (s.deliver (readCount len s.file)) = (.ok (), t) →
            ReadFits fuel turns (len - readCount len s.file) t

theorem readLoop_placed (fuel : Nat) {turns : Nat} : ∀ {len : Int} {s : OpenFile}, s.Placed g →
    ReadFits fuel turns len s → ((readLoop fuel turns len).run s).2.Placed g := by
  induction turns with
  | zero => exact fun placed _ => placed
  | succ turns ih =>
      intro len s placed fits
      rw [readLoop, run_gets_bind]
      by_cases ends : len = 0 ∨ s.file.size ≤ s.file.offset
      · rw [if_pos ends]
        exact placed
      · rw [if_neg ends]
        dsimp only
        rw [run_modify_bind]
        have delivered : (s.deliver (readCount len s.file)).Placed g :=
          placed.congr (.refl placed.holds.fit) rfl rfl rfl rfl rfl rfl (.inr ⟨rfl, rfl⟩)
        rcases fits with zero | short | ⟨fits, later⟩
        · exact absurd (.inl zero) ends
        · exact absurd (.inr short) ends
        have sought := seek_placed delivered fits
        rw [run_bind]
        generalize (fatFileSeek fuel (readCount len s.file) .curr).run
          (s.deliver (readCount len s.file)) = ended at sought later ⊢
        obtain ⟨_ | ⟨⟩, t⟩ := ended
        · exact sought
        · exact ih sought (later t rfl)

/-- Every seek of the loop of `fat_file_write` fits. -/
def WriteFits (fuel : Nat) : Nat → List Byte → Int → OpenFile → Prop
  | 0, _, _, _ => True
  | turns + 1, src, len, s =>
      let cnt := min len.toNat (512 - s.file.offset % 512)
      len ≤ 0 ∨ SeekFits fuel cnt .curr (s.accept src cnt) ∧
        ∀ t, (fatFileSeek fuel cnt .curr).run (s.accept src cnt) = (.ok (), t) →
          WriteFits fuel turns (src.drop cnt) (len - cnt) t

theorem writeLoop_placed (fuel : Nat) {turns : Nat} : ∀ {src : List Byte} {len : Int} {s : OpenFile},
    s.Placed g → WriteFits fuel turns src len s →
      ((writeLoop fuel turns src len).run s).2.Placed g := by
  induction turns with
  | zero => exact fun placed _ => placed
  | succ turns ih =>
      intro src len s placed fits
      rcases Int.lt_trichotomy len 0 with negative | rfl | positive
      · rw [writeLoop, run_gets_bind, if_neg negative.ne]
        dsimp only
        rw [if_pos (by omega)]
        exact placed
      · rw [writeLoop_done]
        exact placed
      · rw [writeLoop_turn fuel turns src s positive]
        rcases fits with nonpositive | ⟨fits, later⟩
        · exact absurd positive (by omega)
        dsimp only at fits later ⊢
        generalize min len.toNat (512 - s.file.offset % 512) = cnt at fits later ⊢
        have accepted : (s.accept src cnt).Placed g :=
          placed.congr (.refl placed.holds.fit) rfl rfl rfl rfl rfl rfl (.inl rfl)
        have sought := seek_placed accepted fits
        generalize (fatFileSeek fuel cnt .curr).run (s.accept src cnt) = ended at sought later ⊢
        obtain ⟨(_ | _ | _) | ⟨⟩, t⟩ := ended
        · exact sought.congr (same_note sought.holds.fit (by decide)) rfl rfl rfl rfl rfl rfl
            (.inr ⟨rfl, rfl⟩)
        · exact sought
        · exact sought
        · exact ih sought (later t rfl)

/-- A call on an open file. -/
inductive FileCall where
  | seek (offset : Int) (origin : Seek)
  | read (len : Int)
  | write (src : List Byte) (len : Int)

/-- The function that is called. -/
def FileCall.command (fuel : Nat) : FileCall → FileM Unit
  | seek offset origin => fatFileSeek fuel offset origin
  | read len => fatFileRead fuel len
  | write src len => fatFileWrite fuel src len

/-- The file when `fat_file_read` begins to read. -/
def OpenFile.startRead (s : OpenFile) : OpenFile :=
  { s with bytes := 0, out := []
           file := { s.file with flags := { s.file.flags with accessed := true } } }

/-- The file when `fat_file_write` begins to write. -/
def OpenFile.startWrite (s : OpenFile) : OpenFile :=
  { s with bytes := 0
           file := { s.file with flags := { s.file.flags with modified := true, accessed := true } } }

/-- No seek of the call fails after it has begun to change the file. -/
def FileCall.Fits (s : OpenFile) : Nat × FileCall → Prop
  | (fuel, .seek offset origin) => SeekFits fuel offset origin s
  | (fuel, .read len) => ReadFits fuel fuel len s.startRead
  | (fuel, .write src len) => WriteFits fuel fuel src len s.startWrite

def FileStep (s : OpenFile) (call : Nat × FileCall) (t : OpenFile) : Prop :=
  t = ((call.2.command call.1).run s).2

/-- `fat_file_read` fails before it begins to read, or it reads. -/
theorem fatFileRead_cases (fuel : Nat) (len : Int) :
    (∃ e, (fatFileRead fuel len).run s = (.error e, { s with bytes := 0, out := [] })) ∨
      (fatFileRead fuel len).run s = (readLoop fuel fuel len).run s.startRead := by
  unfold fatFileRead
  rw [run_modify_bind, run_gets_bind]
  dsimp only
  by_cases none : s.file.fat = none
  · rw [if_pos none]
    exact .inl ⟨_, rfl⟩
  · rw [if_neg none]
    by_cases denied : (!s.file.flags.read) = true
    · rw [if_pos denied]
      exact .inl ⟨_, rfl⟩
    · rw [if_neg denied, run_modifyFile_bind]
      exact .inr rfl

/-- `fat_file_write` fails before it begins to write, or it writes. -/
theorem fatFileWrite_cases (fuel : Nat) (src : List Byte) (len : Int) :
    (∃ e, (fatFileWrite fuel src len).run s = (.error e, { s with bytes := 0 })) ∨
      (fatFileWrite fuel src len).run s = (writeLoop fuel fuel src len >>= fun _ =>
        modifyFile fun file => { file with size := max file.size file.offset }).run s.startWrite := by
  unfold fatFileWrite
  rw [run_modify_bind, run_gets_bind]
  dsimp only
  by_cases none : s.file.fat = none
  · rw [if_pos none]
    exact .inl ⟨_, rfl⟩
  · rw [if_neg none]
    by_cases denied : (!s.file.flags.write) = true
    · rw [if_pos denied]
      exact .inl ⟨_, rfl⟩
    · rw [if_neg denied, run_modifyFile_bind]
      exact .inr rfl

/-- **A call** whose seeks fit leaves the file at its place. -/
theorem call_placed {call : Nat × FileCall} (placed : s.Placed g) (fits : FileCall.Fits s call)
    (step : FileStep s call t) : t.Placed g := by
  obtain ⟨fuel, call⟩ := call
  obtain rfl := step
  have same : s.volume.Same g s.volume := .refl placed.holds.fit
  cases call with
  | seek offset origin => exact seek_placed placed fits
  | read len =>
      change ((fatFileRead fuel len).run s).2.Placed g
      rcases fatFileRead_cases fuel len with ⟨e, failed⟩ | began
      · rw [failed]
        exact placed.congr same rfl rfl rfl rfl rfl rfl (.inr ⟨rfl, rfl⟩)
      · rw [began]
        have start : s.startRead.Placed g :=
          placed.congr same rfl rfl rfl rfl rfl rfl (.inr ⟨rfl, rfl⟩)
        exact readLoop_placed fuel start fits
  | write src len =>
      change ((fatFileWrite fuel src len).run s).2.Placed g
      rcases fatFileWrite_cases fuel src len with ⟨e, failed⟩ | began
      · rw [failed]
        exact placed.congr same rfl rfl rfl rfl rfl rfl (.inr ⟨rfl, rfl⟩)
      · rw [began]
        have start : s.startWrite.Placed g :=
          placed.congr same rfl rfl rfl rfl rfl rfl (.inr ⟨rfl, rfl⟩)
        have written := writeLoop_placed fuel start fits
        rw [run_bind]
        generalize (writeLoop fuel fuel src len).run s.startWrite = ended at written ⊢
        obtain ⟨_ | ⟨⟩, t⟩ := ended
        · exact written
        · exact written.congr (.refl written.holds.fit) rfl rfl rfl rfl rfl rfl (.inr ⟨rfl, rfl⟩)

/-! ## Runs -/

/-- The file's first cluster is one, `0xffffffff` is no sector of a file, and the volume's
buffer is not at the file's chain. -/
structure Openable (g : Geometry) (s : OpenFile) (sfn : Slot) : Prop where
  fit : s.volume.Fit g
  first : g.IsClust sfn.cluster
  nowhere : 0xffffffff ∉ g.dataArea
  apart : ∀ n d, s.volume.Leads n sfn.cluster d → s.volume.fat.sect ∉ g.clustArea d

/-- `fat_file_open` leaves the file at its first place. -/
theorem openEntry_placed {fuel fat dirSect dirIdx : Nat} {flags : OpenFlags} {sfn : Slot}
    (openable : Openable g s sfn)
    (opened : (openEntry fuel fat dirSect dirIdx flags sfn).run s = (.ok (), t)) : t.Placed g := by
  unfold openEntry at opened
  rw [run_modifyFile_bind] at opened
  refine fatFileSeek_ok fuel ?_ (.inr ⟨rfl, openable.nowhere⟩) opened
  have start : (s.withFile fun file => File.ofEntry fat dirSect dirIdx flags sfn file.buf).file.offset /
      g.clustSize = 0 := Nat.zero_div _
  rw [start]
  exact ⟨openable.fit, openable.first, rfl, openable.apart⟩

/-- The entry of a file that begins with the second cluster. -/
def sampleEntry : Slot := Memory.writeLE (fun _ => 0) 26 2 2

/-- Opened for reading and writing. -/
def sampleFlags : OpenFlags := ⟨true, true, false, false⟩

/-- A `File` before it is opened. -/
def unopened (v : Volume) : OpenFile where
  volume := v
  file := { fat := none, dirSect := 0, sclust := 0, clust := 0, sect := 0, size := 0, offset := 0,
            dirIdx := 0, attr := 0, flags := ⟨false, false, false, false, false⟩, buf := fun _ => 0 }
  bytes := 0
  out := []
  home := none

/-- The file of the entry after `fat_file_open`. -/
def opened (v : Volume) : OpenFile :=
  ((openEntry 1 0 0 0 sampleFlags sampleEntry).run (unopened v)).2

theorem sampleVolume_fit (lastUsed : Nat) (begins : 2 ≤ nextClust 65525 lastUsed) :
    (sampleVolume lastUsed).Fit sampleGeometry :=
  ⟨rfl, sampleGeometry_layout, by decide, by decide, begins, fun _ _ => rfl⟩

theorem sampleEntry_isClust : sampleGeometry.IsClust sampleEntry.cluster :=
  ⟨by decide, by decide⟩

theorem sampleEntry_openable : Openable sampleGeometry (unopened (sampleVolume 2)) sampleEntry where
  fit := sampleVolume_fit 2 (by decide)
  first := sampleEntry_isClust
  nowhere := by
    rintro ⟨-, high⟩
    exact absurd high (by decide)
  apart := by
    intro n d leads inside
    have isClust := leads.isClust rfl sampleEntry_isClust
    have data := sampleGeometry_layout.clustArea_subset isClust inside
    exact absurd data.1 (by decide)

/-- Clusters of two sectors, on a disk whose second operation fails. -/
def jammedVolume : Volume :=
  { sampleVolume 2 with
    fat := { (sampleVolume 2).fat with
      geometry := { sampleGeometry with clustShift := 1, clustMsk := 1 } }
    disk := { (sampleVolume 2).disk with
      answer := fun n => if n = 1 then some fun _ => 1 else none } }

end NTux.Fat32
