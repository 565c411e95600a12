import NTux.Fat32.Creations
import NTux.Fat32.DirectoryEffects
import NTux.Fat32.FileEffects
import NTux.Fat32.FileRuns
import NTux.Foundation.Runs

/-! # The books of a volume over whole runs

Files are open on any of the mounted volumes, and calls on them and on paths come in any order,
with any arguments, and fail or not. A volume without faults keeps its books through all of that
(`accounted_run`): the count of its free clusters, its two copies of the FAT, the links that no
call removes and the sectors that are not its own. Nothing is asked of the other volumes.
-/

namespace NTux.Fat32

open NTux.Foundation Command Volume

variable {g : Geometry} {spare gone : Set Nat} {s t : OpenDir} {v w : Volume} {c fuel : Nat}

/-! ## Taking a cluster for an entry -/

/-- What the volume does for a directory. -/
theorem wp_onFat {α : Type} {command : FatM α} {value : α → OpenDir → Prop}
    {reason : Stop → OpenDir → Prop}
    (holds : command.wp (fun a v => value a (s.withVolume v)) (fun e v => reason e (s.withVolume v))
      s.volume) : (onFat command).wp value reason s := by
  unfold wp at holds ⊢
  rw [onFat, run_zoom]
  generalize command.run s.volume = ended at holds ⊢
  obtain ⟨_ | _, v⟩ := ended <;> exact holds

/-- What holds of the state wherever a command ends. -/
theorem wp_state {σ α : Type} {command : Command σ Stop α} {x : σ} {holds : σ → Prop}
    (law : command.wp (fun _ y => holds y) (fun _ y => holds y) x) : holds (command.run x).2 := by
  unfold wp at law
  generalize command.run x = ended at law ⊢
  obtain ⟨_ | _, y⟩ := ended
  · exact law
  · exact law

/-- What is done to the volume of a directory, whether the command stops or not. -/
abbrev DirEffects {α : Type} (g : Geometry) (spare gone : Set Nat) (v : Volume) (command : DirM α)
    (s : OpenDir) : Prop :=
  command.wp (fun _ t => v.Effect g spare gone t.volume) (fun _ t => v.Effect g spare gone t.volume) s

/-- The end of a call: what has to be written is written. -/
theorem syncDir_effects (effect : v.Effect g spare gone s.volume) :
    DirEffects g spare gone v (onFat syncFs) s :=
  wp_onFat (effect.then syncFs_calms.effect)

theorem createChain_effect (gone : Set Nat) (fuel : Nat) (good : v.Good g spare) :
    (createChain fuel).wp (fun c w => v.Effect g spare gone w ∧ g.IsClust c)
      (fun _ w => v.Effect g spare gone w) v :=
  (stretchChain_effect gone fuel good (.inl rfl)).mono (fun _ _ taken => ⟨taken.1, taken.2.1⟩)
    fun _ _ failed => failed

/-- The cluster of a new entry is the one that was passed. -/
theorem sfnSlot_cluster (name : List Byte) (attr : Nat) (small : c < 2 ^ 32) (sfn : Slot) :
    (sfnSlot name attr c sfn).cluster = c := by
  have inner (memory : Slot) : (Slot.setCluster c memory).cluster = c := by
    unfold Slot.setCluster Slot.cluster
    rw [Memory.readLE_writeLE_of_apart _ _ (by decide), Memory.readLE_writeLE,
      Memory.readLE_writeLE]
    have high : c / 2 ^ 16 % 256 ^ 2 = c / 2 ^ 16 := Nat.mod_eq_of_lt (by omega)
    have low : c % 2 ^ 16 % 256 ^ 2 = c % 2 ^ 16 := Nat.mod_eq_of_lt (by omega)
    rw [high, low, Nat.mul_comm, ← Nat.two_pow_add_eq_or_of_lt (Nat.mod_lt _ (by decide))]
    exact Nat.div_add_mod c (2 ^ 16)
  have apart (memory : Slot) {base size : Nat} (value : Nat)
      (high : 22 ≤ base ∨ base + size ≤ 20) (low : 28 ≤ base ∨ base + size ≤ 26) :
      Slot.cluster (memory.writeLE base size value) = Slot.cluster memory := by
    unfold Slot.cluster
    rw [Memory.readLE_writeLE_of_apart _ _ (by omega),
      Memory.readLE_writeLE_of_apart _ _ (by omega)]
  unfold sfnSlot
  obtain ⟨date, time⟩ := encodeTimestamp
  dsimp only
  rw [apart _ _ (by decide) (by decide), apart _ _ (by decide) (by decide),
    apart _ _ (by decide) (by decide), apart _ _ (by decide) (by decide),
    apart _ _ (by decide) (by decide), apart _ _ (by decide) (by decide),
    apart _ _ (by decide) (by decide), apart _ _ (by decide) (by decide), inner]

/-- An entry that `dir_add` has added begins with the cluster that was passed. -/
theorem dirAdd_cluster {name : List Byte} {attr : Nat} (small : c < 2 ^ 32)
    (done : (dirAdd fuel name attr c).run s = (.ok (), t)) : t.slot.cluster = c := by
  unfold dirAdd at done
  split at done
  · cases done
  · obtain ⟨g, s₁, -, done⟩ := of_run_bind_ok done
    obtain ⟨⟨⟩, s₂, -, done⟩ := of_run_bind_ok done
    obtain ⟨⟨eod, loc⟩, s₃, -, done⟩ := of_run_bind_ok done
    obtain ⟨⟨⟩, s₄, -, done⟩ := of_run_bind_ok done
    obtain ⟨⟨⟩, s₅, -, done⟩ := of_run_bind_ok done
    obtain ⟨⟨⟩, s₆, -, done⟩ := of_run_bind_ok done
    obtain ⟨⟨⟩, u, -, edited⟩ := of_run_bind_ok done
    cases edited
    have same := putSlot_same u.volume.fat.buf u.dir.idx (sfnSlot (putSfnName name) attr c)
    have high := same.readLE (show 20 + 2 ≤ 32 by decide)
    have low := same.readLE (show 26 + 2 ≤ 32 by decide)
    have there := sfnSlot_cluster (putSfnName name) attr small (u.volume.fat.buf.slot u.dir.idx)
    exact (congrArg₂ (fun high low => high * 2 ^ 16 ||| low) high low).trans there

/-- Where a path ends at an entry, the entry has a cluster, and its slots are in clusters. -/
structure OpenDir.Lands (g : Geometry) (t : OpenDir) : Prop where
  entry : g.IsClust t.slot.cluster
  place : t.dir.Within g
  first : ∀ loc, t.loc = some loc → loc.Within g

/-- **Creating a file's entry.** -/
theorem createFile_effects (fuel : Nat) (good : s.volume.Good g spare)
    (enters : g.IsClust (g.entered s.dir.sclust)) :
    (createFile fuel).wp
      (fun _ t => s.volume.Effect g spare gone t.volume ∧ g.IsClust t.slot.cluster ∧ t.dir.Within g)
      (fun _ t => s.volume.Effect g spare gone t.volume) s := by
  unfold createFile wp
  rw [run_gets_bind]
  by_cases none : lastSubpathLen s.path = 0
  · rw [if_pos none]
    exact .refl good
  rw [if_neg none]
  apply wp_bind
  apply wp_onFat
  refine (createChain_effect gone fuel good).mono ?_ fun _ _ failed => failed
  rintro clust w ⟨effect, isClust⟩
  have added := @dirAdd_works g spare gone (s.withVolume w) fuel
    (s.path.take (lastSubpathLen s.path)) attrArchive clust effect.good enters
  unfold wp at added ⊢
  generalize ran : (dirAdd fuel (s.path.take (lastSubpathLen s.path)) attrArchive clust).run
    (s.withVolume w) = ended at added ⊢
  obtain ⟨_ | ⟨⟩, t⟩ := ended
  · exact effect.trans added
  · have small : clust < 2 ^ 32 := by
      have := good.small
      have := isClust.2
      omega
    exact ⟨effect.trans added.effect, (dirAdd_cluster small ran).symm ▸ isClust, added.within⟩

/-- **Creating a directory.** -/
theorem createDir_effects (fuel : Nat) (good : s.volume.Good g spare)
    (enters : g.IsClust (g.entered s.dir.sclust)) :
    DirEffects g spare gone s.volume (createDir fuel) s := by
  unfold createDir DirEffects wp
  rw [run_gets_bind]
  dsimp only
  by_cases none : lastSubpathLen s.path = 0
  · rw [if_pos none]
    exact .refl good
  rw [if_neg none]
  apply wp_bind
  apply wp_onFat
  refine (createChain_effect gone fuel good).mono ?_ fun _ _ failed => failed
  rintro clust w ⟨effect, isClust⟩
  obtain ⟨x, cleared, calm⟩ := clustClear_calm effect.good isClust
  have first : (onFat (clustClear clust)).run (s.withVolume w) = (.ok (), s.withVolume x) := by
    rw [onFat, run_zoom]
    change (((clustClear clust).run w).1, s.withVolume ((clustClear clust).run w).2) = _
    rw [cleared]
  have geometry : (s.withVolume x).volume.fat.geometry = g := calm.good.geometry
  have inside : g.clustToSect clust ∈ g.clustArea clust :=
    ⟨le_rfl, Nat.lt_add_of_pos_right (Nat.two_pow_pos _)⟩
  obtain ⟨y, z, moved, edited, calm'⟩ := updateEdit_calm calm.good
    (calm.good.layout.clustArea_subset isClust inside)
    (putDots clust (if s.dir.sclust = g.rootClust then 0 else s.dir.sclust))
  have second : (onFat (updateBuf (g.clustToSect clust))).run (s.withVolume x) =
      (.ok (), s.withVolume y) := by
    rw [onFat, run_zoom]
    change (((updateBuf _).run x).1, s.withVolume ((updateBuf _).run x).2) = _
    rw [moved]
  have third : (onFat (editBuf (putDots clust
      (if s.dir.sclust = g.rootClust then 0 else s.dir.sclust)))).run (s.withVolume y) =
      (.ok (), s.withVolume z) := by
    rw [onFat, run_zoom]
    change (((editBuf _).run y).1, s.withVolume ((editBuf _).run y).2) = _
    rw [edited]
  have so_far : s.volume.Effect g spare gone z :=
    effect.trans ((calm.trans calm').effect effect.good)
  unfold wp
  rw [run_bind_ok first, run_gets_bind, geometry, run_bind_ok second, run_gets_bind]
  have dir : (s.withVolume y).dir = s.dir := rfl
  dsimp only
  rw [dir, run_bind_ok third]
  apply wp_bind
  refine (@dirAdd_works g spare gone (s.withVolume z) fuel _ attrDir clust so_far.good
    enters).mono ?_ fun _ _ failed => so_far.trans failed
  intro _ t works
  unfold wp
  rw [modifyDir, run_modify_bind]
  exact syncDir_effects (so_far.trans works.effect)

/-! ## Following a path -/

/-- Where a path ends at an entry, the entry and the directory that it is in begin with clusters,
and so does the directory where an entry is missing. -/
structure OpenDir.Leads (g : Geometry) (fuel : Nat) (s : OpenDir) : Prop where
  found : ∀ t, (followPath fuel).run s = (.ok (), t) →
    g.IsClust t.slot.cluster ∧ g.IsClust t.dir.sclust
  missing : ∀ t, (followPath fuel).run s = (.error (.code errEof), t) → g.IsClust t.dir.sclust

theorem OpenDir.Leads.lands (leads : s.Leads g fuel) (good : s.volume.Good g spare)
    (unset : s.loc = none) (ran : (followPath fuel).run s = (.ok (), t)) : t.Lands g := by
  obtain ⟨entry, parent⟩ := leads.found t ran
  obtain ⟨place, first⟩ := (followPath_inside fuel good unset).of_ok ran parent
  exact ⟨entry, place, first⟩

theorem Geometry.entered_clust (isClust : g.IsClust c) : g.entered c = c := by
  have low := isClust.1
  exact if_neg (by omega)

/-- `fat_dir_create` behind the name of the volume. -/
theorem createFrom_effects (good : s.volume.Good g spare) (leads : s.Leads g fuel) :
    DirEffects g spare gone s.volume (createFrom fuel) s := by
  have followed := Does.wp (followPath_calms fuel) good
  unfold createFrom DirEffects wp
  rw [run_bind, run_attempt]
  unfold wp at followed
  generalize ran : (followPath fuel).run s = ended at followed ⊢
  obtain ⟨(err | _ | _) | ⟨⟩, t⟩ := ended
  · dsimp only at followed ⊢
    have before : s.volume.Effect g spare gone t.volume := followed.effect good
    by_cases eof : err = errEof
    · rw [if_pos eof]
      subst eof
      have parent := leads.missing t ran
      exact (createDir_effects fuel before.good ((Geometry.entered_clust parent).symm ▸ parent)).mono
        (fun _ _ later => before.trans later) fun _ _ later => before.trans later
    · rw [if_neg eof]
      exact before
  · exact followed.effect good
  · exact followed.effect good
  · exact followed.effect good

theorem withFile_run (file : File) (command : FileM Unit) (s : OpenDir) :
    (withFile file command).run s =
      let ended := command.run
        { volume := s.volume, file := file, bytes := 0, out := [], home := none }
      (ended.1.map fun _ => ended.2.file, s.withVolume ended.2.volume) := rfl

/-- Opening a file on the volume of a directory. -/
theorem withFile_effects (fat : Nat) (flags : OpenFlags) (file : File) (good : s.volume.Good g spare)
    (entry : g.IsClust s.slot.cluster) (place : s.dir.Within g) :
    (withFile file (openEntry fuel fat s.dir.sect s.dir.idx flags s.slot)).wp
      (fun file t => s.volume.Effect g spare gone t.volume ∧ file.Rests g)
      (fun _ t => s.volume.Effect g spare gone t.volume) s := by
  have opens := @openEntry_steps g spare gone
    { volume := s.volume, file := file, bytes := 0, out := [], home := none } fuel fat _
    s.dir.idx flags _ good entry (place.mem_dataArea good.layout)
  unfold wp at opens ⊢
  rw [withFile_run]
  generalize (openEntry fuel fat s.dir.sect s.dir.idx flags s.slot).run _ = ended at opens ⊢
  obtain ⟨_ | ⟨⟩, t⟩ := ended
  · exact opens
  · exact opens

/-- `fat_file_open` behind the name of the volume. -/
theorem fileOpenFrom_effects (fat : Nat) (create : Bool) (flags : OpenFlags) (file : File)
    (good : s.volume.Good g spare) (unset : s.loc = none) (leads : s.Leads g fuel) :
    (fileOpenFrom fuel fat create flags file).wp
      (fun file t => s.volume.Effect g spare gone t.volume ∧ file.Rests g)
      (fun _ t => s.volume.Effect g spare gone t.volume) s := by
  have followed := Does.wp (followPath_calms fuel) good
  have opened : ∀ {t : OpenDir}, s.volume.Effect g spare gone t.volume →
      g.IsClust t.slot.cluster → t.dir.Within g →
      (gets id >>= fun s : OpenDir => withFile file
        (openEntry fuel fat s.dir.sect s.dir.idx flags s.slot)).wp
        (fun file u => s.volume.Effect g spare gone u.volume ∧ file.Rests g)
        (fun _ u => s.volume.Effect g spare gone u.volume) t := by
    intro t before entry place
    unfold wp
    rw [run_gets_bind]
    exact (withFile_effects fat flags file before.good entry place).mono
      (fun _ _ later => ⟨before.trans later.1, later.2⟩) fun _ _ later => before.trans later
  unfold fileOpenFrom wp
  rw [run_bind, run_attempt]
  unfold wp at followed
  generalize ran : (followPath fuel).run s = ended at followed ⊢
  obtain ⟨(err | _ | _) | ⟨⟩, t⟩ := ended
  · dsimp only at followed ⊢
    have before : s.volume.Effect g spare gone t.volume := followed.effect good
    by_cases eof : err = errEof
    · rw [if_pos eof]
      subst eof
      by_cases creates : create = true
      · have parent := leads.missing t ran
        rw [if_pos creates]
        apply wp_bind
        refine (createFile_effects fuel before.good
          ((Geometry.entered_clust parent).symm ▸ parent)).mono ?_ fun _ _ failed =>
            before.trans failed
        rintro _ u ⟨later, entry, place⟩
        exact opened (before.trans later) entry place
      · rw [if_neg creates]
        exact before
    · rw [if_neg eof]
      exact before
  · exact followed.effect good
  · exact followed.effect good
  · have lands := leads.lands good unset ran
    exact opened (followed.effect good) lands.entry lands.place

/-! ## Removing -/

/-- `fat_unlink` behind the name of the volume, of an entry whose chain may be freed. -/
theorem unlinkFrom_effects (good : s.volume.Good g spare) (unset : s.loc = none)
    (leads : s.Leads g fuel)
    (chain : ∀ t, (followPath fuel).run s = (.ok (), t) → ∀ k d,
      s.volume.Leads k t.slot.cluster d → d ∈ gone) :
    DirEffects g spare gone s.volume (unlinkFrom fuel) s := by
  have followed := Does.wp (followPath_calms fuel) good
  unfold unlinkFrom DirEffects wp
  rw [run_bind]
  unfold wp at followed
  generalize ran : (followPath fuel).run s = ended at followed ⊢
  obtain ⟨_ | ⟨⟩, t⟩ := ended
  · exact followed.effect good
  have lands := leads.lands good unset ran
  have before : s.volume.Effect g spare gone t.volume := followed.effect good
  dsimp only
  rw [run_gets_bind]
  dsimp only [id]
  by_cases root : dirAtRoot t.volume.fat.geometry t.dir = true
  · rw [if_pos root]
    exact before
  rw [if_neg root]
  by_cases kept : t.slot.attr &&& (attrRo ||| attrSys ||| attrLabel) ≠ 0
  · rw [if_pos kept]
    exact before
  rw [if_neg kept]
  apply wp_bind
  refine (Does.wp (unlinkCheck_calms fuel t.slot) before.good).mono ?_ fun _ _ calm =>
    before.trans (calm.effect before.good)
  intro _ u calm
  have checked := before.trans (calm.effect before.good)
  -- nothing has been done to the links yet, so the chain is the one that the path led to
  have freed : ∀ k d, u.volume.Leads k t.slot.cluster d → d ∈ gone := by
    intro k d later
    refine chain t ran k d (later.carry checked.good.geometry good.geometry ?_ lands.entry)
    intro c isClust _
    exact ((followed.trans calm).link good isClust.inFat).symm
  apply wp_bind
  apply wp_onFat
  refine (removeChain_effect fuel checked.good lands.entry freed).mono ?_ fun _ _ failed =>
    checked.trans failed
  intro _ w removed
  have so_far := checked.trans removed
  apply wp_bind
  have entries : (removeFrom fuel t.loc).wp (fun _ x => w.Effect g spare gone x.volume)
      (fun _ x => w.Effect g spare gone x.volume) (u.withVolume w) := by
    cases known : t.loc with
    | none => exact wp_stop (.refl so_far.good)
    | some loc =>
        exact removeEntries_works (s := u.withVolume w) fuel so_far.good (lands.first loc known)
  exact entries.mono (fun _ _ later => syncDir_effects (so_far.trans later))
    fun _ _ failed => so_far.trans failed

/-! ## Looking -/

theorem modifyDir_calms (f : Dir → Dir) : DirCalms g spare (modifyDir f) :=
  does_iff_relates.mpr (modifyDir_relates f)

theorem readFrom_calms (fuel : Nat) (geometry : Geometry) (loc : Option Loc) :
    DirCalms g spare (readFrom fuel geometry loc) := by
  cases loc with
  | none => exact does_stop calm_composing _
  | some loc => exact (modifyDir_calms _).bind calm_composing fun _ => fatDirRead_calms fuel

/-- `fat_stat` behind the name of the volume. -/
theorem statFrom_calms (fuel : Nat) : DirCalms g spare (statFrom fuel) :=
  (followPath_calms fuel).bind calm_composing fun _ =>
    (does_gets calm_composing id).bind calm_composing fun _ =>
      .ite (does_stop calm_composing _) (readFrom_calms _ _ _)

/-- `fat_dir_open` behind the name of the volume. -/
theorem dirOpenFrom_calms (fuel : Nat) : DirCalms g spare (dirOpenFrom fuel) := by
  refine (followPath_calms fuel).bind calm_composing fun _ =>
    (does_gets calm_composing id).bind calm_composing fun s => ?_
  refine .ite (does_gets calm_composing fun _ => ()) ?_
  refine (does_iff_relates.mpr (updateDir_looks calmly_overlooks)).bind calm_composing fun _ =>
    (does_gets calm_composing OpenDir.slot).bind calm_composing fun sfn => ?_
  exact .ite (does_stop calm_composing _) (modifyDir_calms _)

/-! ## Calls in any order -/

/-- The mounted volumes and the files that are open, each with the place of its volume in
`g_fat_list`. -/
structure Session where
  driver : Driver
  files : Nat → Option (Nat × File)

/-- A call of the driver. A file is named by its place in the session, a directory that is read is
any place of a volume. -/
inductive SessionCall where
  | fileOpen (handle : Nat) (path : List Byte) (create : Bool) (flags : OpenFlags) (file : File)
  | file (handle : Nat) (call : FileCall)
  | fileSync (handle : Nat)
  | dirCreate (path : List Byte) (dir : Dir)
  | unlink (path : List Byte)
  | stat (path : List Byte)
  | dirOpen (path : List Byte) (dir : Dir)
  | dirRead (volume : Nat) (dir : Dir)
  | sync (volume : Nat)

namespace Session

/-- What is done for an open file. -/
def onFile (handle : Nat) (command : FileM Unit) (s : Session) : Session :=
  match s.files handle with
  | none => s
  | some (i, file) => match s.driver.volumes[i]? with
    | none => s
    | some v =>
      let ended := command.run { volume := v, file := file, bytes := 0, out := [], home := none }
      { driver := { s.driver with volumes := s.driver.volumes.set i ended.2.volume }
        files := Function.update s.files handle (some (i, ended.2.file)) }

/-- What is done in a directory of a volume, without a path. -/
def inDir {α : Type} (volume : Nat) (dir : Dir) (command : DirM α) (s : Session) : Session :=
  match s.driver.volumes[volume]? with
  | none => s
  | some v => { s with driver := s.driver.leave volume (command.run (s.driver.enter v dir [])).2 }

/-- `fat_file_open`; the file can be used if it succeeds. -/
def openFile (fuel handle : Nat) (path : List Byte) (create : Bool) (flags : OpenFlags)
    (file : File) (s : Session) : Session :=
  let ended := (fatFileOpen fuel path create flags file).run s.driver
  { driver := ended.2
    files := match ended.1 with
      | .ok file => Function.update s.files handle ((s.driver.volumeOf path).map fun i => (i, file))
      | .error _ => s.files }

/-- A call, with the fuel of its loops. -/
def perform (fuel : Nat) (s : Session) : SessionCall → Session
  | .fileOpen handle path create flags file => s.openFile fuel handle path create flags file
  | .file handle call => s.onFile handle (call.command fuel)
  | .fileSync handle => s.onFile handle fatFileSync
  | .dirCreate path dir => { s with driver := ((fatDirCreate fuel path dir).run s.driver).2 }
  | .unlink path => { s with driver := ((fatUnlink fuel path).run s.driver).2 }
  | .stat path => { s with driver := ((fatStat fuel path).run s.driver).2 }
  | .dirOpen path dir => { s with driver := ((fatDirOpen fuel path dir).run s.driver).2 }
  | .dirRead volume dir => s.inDir volume dir (fatDirRead fuel)
  | .sync volume => s.inDir volume ⟨0, 0, 0, 0⟩ (onFat syncFs)

def Step (s : Session) (call : Nat × SessionCall) (t : Session) : Prop := t = s.perform call.1 call.2

/-- The walk of a call along its path, on one volume. -/
def walk (v : Volume) (path : List Byte) (dir : Dir) (s : Session) : OpenDir :=
  s.driver.enter v dir ((path.drop 1).drop (subpathLen (path.drop 1)))

/-- Calls on one volume that take or free clusters: their paths end where there are clusters, and
`fat_unlink` frees no others than those that may go. -/
def Allowed (i : Nat) (g : Geometry) (gone : Set Nat) (s : Session) : Nat × SessionCall → Prop
  | (fuel, .fileOpen _ path _ _ _) => ∀ v, s.driver.volumes[i]? = some v →
      s.driver.volumeOf path = some i → (s.walk v path ⟨0, 0, 0, 0⟩).Leads g fuel
  | (fuel, .dirCreate path dir) => ∀ v, s.driver.volumes[i]? = some v →
      s.driver.volumeOf path = some i → (s.walk v path dir).Leads g fuel
  | (fuel, .unlink path) => ∀ v, s.driver.volumes[i]? = some v →
      s.driver.volumeOf path = some i → (s.walk v path ⟨0, 0, 0, 0⟩).Leads g fuel ∧
        ∀ t, (followPath fuel).run (s.walk v path ⟨0, 0, 0, 0⟩) = (.ok (), t) →
          ∀ k d, v.Leads k t.slot.cluster d → d ∈ gone
  | _ => True

/-- The volume at a place after some calls, and the files that are open on it. -/
structure Keeps (i : Nat) (g : Geometry) (spare gone : Set Nat) (v : Volume) (s : Session) :
    Prop where
  volume : ∃ w, s.driver.volumes[i]? = some w ∧ v.Effect g spare gone w
  rests : ∀ handle file, s.files handle = some (i, file) → file.Rests g

end Session

section OnPath

variable {α : Type} {path : List Byte} {dir : Dir} {command : DirM α} {d : Driver} {i : Nat}

/-- The path begins with the name of no volume. -/
theorem onPath_unnamed (unnamed : d.volumeOf path = none) :
    (onPath path dir command).run d = (.error (.code errPath), d) := by
  unfold onPath run
  simp only [unnamed]

theorem onPath_unmounted (named : d.volumeOf path = some i) (unmounted : d.volumes[i]? = none) :
    (onPath path dir command).run d = (.error .undefined, d) := by
  unfold onPath run
  simp only [named, unmounted]

theorem onPath_mounted (named : d.volumeOf path = some i) (mounted : d.volumes[i]? = some v) :
    (onPath path dir command).run d =
      let ended := command.run (d.enter v dir ((path.drop 1).drop (subpathLen (path.drop 1))))
      (ended.1, d.leave i ended.2) := by
  unfold onPath run
  simp only [named, mounted]

/-- What is done to one of the volumes, seen from one of them. -/
theorem set_effect {volumes : List Volume} {j : Nat} {x u : Volume} (here : volumes[i]? = some w)
    (there : volumes[j]? = some x) (good : w.Good g spare)
    (later : j = i → x = w → w.Effect g spare gone u) :
    ∃ y, (volumes.set j u)[i]? = some y ∧ w.Effect g spare gone y := by
  by_cases same : j = i
  · subst same
    have inside := (List.getElem?_eq_some_iff.mp here).1
    exact ⟨u, List.getElem?_set_self inside, later rfl (Option.some.inj (there.symm.trans here))⟩
  · exact ⟨w, (List.getElem?_set_ne same).trans here, .refl good⟩

/-- What is done on the volume of a path, seen from one of the volumes. -/
theorem onPath_effect {value : α → Prop} (here : d.volumes[i]? = some w)
    (good : w.Good g spare) (does : d.volumeOf path = some i → command.wp
      (fun a t => w.Effect g spare gone t.volume ∧ value a)
      (fun _ t => w.Effect g spare gone t.volume)
      (d.enter w dir ((path.drop 1).drop (subpathLen (path.drop 1))))) :
    (∃ u, ((onPath path dir command).run d).2.volumes[i]? = some u ∧ w.Effect g spare gone u) ∧
      ∀ a, ((onPath path dir command).run d).1 = .ok a → d.volumeOf path = some i → value a := by
  cases found : d.volumeOf path with
  | none =>
      rw [onPath_unnamed found]
      exact ⟨⟨w, here, .refl good⟩, fun _ done => by cases done⟩
  | some j =>
      cases there : d.volumes[j]? with
      | none =>
          rw [onPath_unmounted found there]
          exact ⟨⟨w, here, .refl good⟩, fun _ done => by cases done⟩
      | some x =>
          rw [onPath_mounted found there]
          refine ⟨set_effect here there good fun same equal => ?_, fun a done named => ?_⟩
          · subst same equal
            exact wp_state ((does found).mono (fun _ _ both => both.1) fun _ _ effect => effect)
          · cases named
            obtain rfl := Option.some.inj (there.symm.trans here)
            exact ((does found).of_ok (Prod.ext done rfl)).2

end OnPath

namespace Session

variable {i : Nat} {s t : Session}

/-- A file that is open after a change in the table. -/
theorem of_update {files : Nat → Option (Nat × File)} {handle handle' : Nat}
    {value : Option (Nat × File)} {opened : Nat × File}
    (known : Function.update files handle value handle' = some opened) :
    value = some opened ∨ files handle' = some opened := by
  by_cases this : handle' = handle
  · subst this
    rw [Function.update_self] at known
    exact .inl known
  · rw [Function.update_of_ne this] at known
    exact .inr known

/-- A call that gives nothing back. -/
theorem Keeps.onPath {α : Type} {path : List Byte} {dir : Dir} {command : DirM α}
    (keeps : s.Keeps i g spare gone v)
    (does : ∀ w, s.driver.volumes[i]? = some w → w.Good g spare → s.driver.volumeOf path = some i →
      DirEffects g spare gone w command (s.walk w path dir)) :
    Keeps i g spare gone v { s with driver := ((onPath path dir command).run s.driver).2 } := by
  obtain ⟨⟨w, here, effect⟩, rests⟩ := keeps
  obtain ⟨⟨u, there, later⟩, -⟩ := @onPath_effect g spare gone w α path dir command s.driver i
    (fun _ => True) here effect.good fun found =>
      (does w here effect.good found).mono (fun _ _ effect => ⟨effect, trivial⟩)
        fun _ _ effect => effect
  exact ⟨⟨u, there, effect.trans later⟩, rests⟩

/-- A call that only looks. -/
theorem Keeps.looks {α : Type} {path : List Byte} {dir : Dir} {command : DirM α}
    (keeps : s.Keeps i g spare gone v) (calms : DirCalms g spare command) :
    Keeps i g spare gone v { s with driver := ((Fat32.onPath path dir command).run s.driver).2 } :=
  keeps.onPath fun _ _ good _ => (Does.wp calms.effect good)

/-- A call in a directory that is at any place. -/
theorem Keeps.inDir {α : Type} {command : DirM α} (keeps : s.Keeps i g spare gone v) (volume : Nat)
    (dir : Dir) (does : Does g spare (Volume.Effect g spare gone) OpenDir.volume command) :
    (s.inDir volume dir command).Keeps i g spare gone v := by
  obtain ⟨⟨w, here, effect⟩, rests⟩ := keeps
  unfold Session.inDir
  cases there : s.driver.volumes[volume]? with
  | none => exact ⟨⟨w, here, effect⟩, rests⟩
  | some x =>
      have law : volume = i → x = w →
          w.Effect g spare gone (command.run (s.driver.enter x dir [])).2.volume := by
        intro same equal
        subst same equal
        have ready : (s.driver.enter x dir []).volume.Good g spare := effect.good
        exact wp_state (Does.wp does ready)
      obtain ⟨u, there', later⟩ := set_effect here there effect.good law
      exact ⟨⟨u, there', effect.trans later⟩, rests⟩

/-- A call on an open file. -/
theorem Keeps.onFile {command : FileM Unit} (keeps : s.Keeps i g spare gone v) (handle : Nat)
    (works : ∀ s : OpenFile, s.volume.Good g spare → s.file.Rests g →
      FileWorks g spare gone command s) : (s.onFile handle command).Keeps i g spare gone v := by
  obtain ⟨⟨w, here, effect⟩, rests⟩ := keeps
  unfold Session.onFile
  cases known : s.files handle with
  | none => exact ⟨⟨w, here, effect⟩, rests⟩
  | some opened =>
      obtain ⟨j, file⟩ := opened
      dsimp only
      cases there : s.driver.volumes[j]? with
      | none => exact ⟨⟨w, here, effect⟩, rests⟩
      | some x =>
          dsimp only
          generalize ran : command.run
            { volume := x, file := file, bytes := 0, out := [], home := none } = ended
          have law : j = i → x = w → w.Effect g spare gone ended.2.volume ∧ ended.2.file.Rests g := by
            intro same equal
            subst same equal
            have worked := wp_state (works
              { volume := x, file := file, bytes := 0, out := [], home := none } effect.good
              (rests handle file known))
            rw [ran] at worked
            exact ⟨worked.effect, worked.rests⟩
          obtain ⟨u, there', later⟩ := set_effect here there effect.good fun same equal =>
            (law same equal).1
          refine ⟨⟨u, there', effect.trans later⟩, fun handle' file' open' => ?_⟩
          rcases of_update open' with new | old
          · cases new
            exact (law rfl (Option.some.inj (there.symm.trans here))).2
          · exact rests handle' file' old

/-- **A call** keeps the books of a volume. -/
theorem Keeps.step {call : Nat × SessionCall} (keeps : s.Keeps i g spare gone v)
    (allowed : s.Allowed i g gone call) (step : s.Step call t) : t.Keeps i g spare gone v := by
  obtain ⟨fuel, call⟩ := call
  obtain rfl := step
  cases call with
  | fileOpen handle path create flags file =>
      obtain ⟨⟨w, here, effect⟩, rests⟩ := keeps
      obtain ⟨⟨u, there, later⟩, opened⟩ := @onPath_effect g spare gone w File path ⟨0, 0, 0, 0⟩
        (fileOpenFrom fuel ((s.driver.volumeOf path).getD 0) create flags file) s.driver i
        (File.Rests g) here effect.good fun found =>
          fileOpenFrom_effects _ create flags file effect.good rfl (allowed w here found)
      refine ⟨⟨u, there, effect.trans later⟩, ?_⟩
      intro handle' file' open'
      change (match ((fatFileOpen fuel path create flags file).run s.driver).1 with
        | .ok file => Function.update s.files handle ((s.driver.volumeOf path).map fun i => (i, file))
        | .error _ => s.files) handle' = some (i, file') at open'
      generalize ran : ((fatFileOpen fuel path create flags file).run s.driver).1 = result at open'
      cases result with
      | error stopped => exact rests handle' file' open'
      | ok file =>
          rcases of_update open' with new | old
          · obtain ⟨j, found, same⟩ := Option.map_eq_some_iff.mp new
            cases same
            exact opened _ ran found
          · exact rests handle' file' old
  | file handle call =>
      refine keeps.onFile handle fun x good rests => ?_
      cases call with
      | seek offset origin => exact fatFileSeek_works fuel offset origin good rests
      | read len => exact fatFileRead_works fuel len good rests
      | write src len => exact fatFileWrite_works fuel src len good rests
  | fileSync handle => exact keeps.onFile handle fun _ good rests => fatFileSync_works good rests
  | dirCreate path dir =>
      exact keeps.onPath fun w here good found => createFrom_effects good (allowed w here found)
  | unlink path =>
      refine keeps.onPath fun w here good found => ?_
      obtain ⟨leads, chain⟩ := allowed w here found
      exact unlinkFrom_effects good rfl leads chain
  | stat path => exact keeps.looks (statFrom_calms fuel)
  | dirOpen path dir => exact keeps.looks (dirOpenFrom_calms fuel)
  | dirRead volume dir => exact keeps.inDir volume dir (fatDirRead_calms fuel).effect
  | sync volume =>
      exact keeps.inDir volume _ (does_of_good fun _ good => syncDir_effects (.refl good))

end Session

/-! ## The books -/

/-- The number of free clusters is one of `uint32_t`. -/
theorem Volume.Good.freeEntries_lt (good : v.Good g spare) : v.freeEntries < 2 ^ 32 := by
  have bounded : v.freeEntries ≤ (Finset.Ico 2 v.fat.geometry.clustCnt).card :=
    Finset.card_filter_le _ _
  rw [Nat.card_Ico, good.geometry] at bounded
  have := good.small
  omega

/-- What a volume keeps over whole runs. -/
structure Volume.Books (g : Geometry) (spare gone : Set Nat) (v w : Volume) : Prop where
  /-- A count of the free clusters that is right stays right. -/
  count : v.fat.freeCnt = v.freeEntries → w.fat.freeCnt = w.freeEntries
  /-- Two copies of the FAT that agree still agree. -/
  copies : g.Mirrored → (∀ c, g.InFat c → v.mirrorEntry c = v.entry c) →
    ∀ c, g.InFat c → w.mirrorEntry c = w.entry c
  /-- The first two entries, and the upper nibble of every entry, are as they were. -/
  reserved : ∀ c < 2, w.entry c = v.entry c
  nibble : ∀ c, g.InFat c → w.entry c / 2 ^ 28 = v.entry c / 2 ^ 28
  /-- Links of clusters that no call frees are as they were. -/
  links : ∀ c, g.IsClust c → c ∉ gone → clustFlags g.clustCnt (v.link c) = some .used →
    w.link c = v.link c
  /-- So are the sectors that are not the volume's own. -/
  spare : Set.EqOn w.view v.view spare

theorem Volume.Effect.books (effect : v.Effect g spare gone w) :
    Volume.Books g spare gone v w where
  count right := by
    have count := effect.count
    have small := effect.good.freeEntries_lt
    have counted := effect.good.counted
    rw [right] at count
    omega
  copies mirrored agree c inFat := by
    obtain ⟨nibble, ⟨active, mirror⟩ | alike⟩ := effect.copies mirrored c inFat
    · rw [mirror, active, agree c inFat]
    · have upper := effect.nibble c inFat
      rw [agree c inFat, ← upper] at nibble
      have lower : w.mirrorEntry c % 2 ^ 28 = w.entry c % 2 ^ 28 := alike
      rw [← Nat.div_add_mod (w.mirrorEntry c) (2 ^ 28), nibble, lower, Nat.div_add_mod]
  reserved := effect.reserved
  nibble := effect.nibble
  links := effect.kept
  spare := effect.spare

/-- A buffer that is not dirty agrees with the disk. -/
theorem Volume.Ready.on_disk {area : Set Nat} (ready : w.Ready area)
    (clean : w.fat.bufDirty = false) : Set.EqOn w.disk.sectors w.view area := by
  intro s inside
  by_cases buffered : w.fat.sect = s
  · subst buffered
    rw [view_buffered]
    exact ready.coherent clean inside
  · exact (view_of_ne buffered).symm

/-- `sync_fs` leaves on the disk what is seen, and the count in the `FsInfo` sector if it has
been changed since it was written. -/
theorem syncFs_disk (good : v.Good g spare) : ∃ w, syncFs.run v = (.ok (), w) ∧
    Set.EqOn w.disk.sectors w.view (g.guarded spare) ∧
    (v.fat.infoDirty = true → (w.disk.sectors g.infoSect).readLE 488 4 = w.fat.freeCnt) := by
  obtain ⟨u, synced, ready, agrees, clean, -⟩ := syncBuf_spec good.ready
  have infoDirty : u.unbuffered.infoDirty = v.unbuffered.infoDirty :=
    congrArg Fat.infoDirty agrees.unbuffered
  have count : u.fat.freeCnt = v.fat.freeCnt := freeCnt_of_unbuffered agrees.unbuffered
  have geometry : u.fat.geometry = g := agrees.geometry.trans good.geometry
  unfold syncFs
  rw [run_bind_ok synced, run_gets_bind, geometry]
  by_cases dirty : u.fat.infoDirty = true
  · rw [if_pos dirty]
    obtain ⟨x, moved, ready', agrees', here, -⟩ := updateBuf_spec ready g.infoSect
    obtain ⟨y, edited, edited', plain, view, -, -⟩ := @editBuf_run (g.guarded spare) x fun buf =>
      (buf.writeLE 492 4 x.fat.lastUsed).writeLE 488 4 x.fat.freeCnt
    obtain ⟨z, flushed, ready'', agrees'', clean', -⟩ := syncBuf_spec (edited' ready'.sound)
    rw [run_bind_ok moved, run_gets_bind, run_bind_ok edited, run_bind_ok flushed]
    have onDisk := ready''.on_disk clean'
    refine ⟨_, rfl, onDisk, fun _ => ?_⟩
    have inside : g.infoSect ∈ g.guarded spare := .inl (.inr rfl)
    have same : z.fat.freeCnt = x.fat.freeCnt :=
      (freeCnt_of_unbuffered agrees''.unbuffered).trans (freeCnt_of_unbuffered plain)
    have small : x.fat.freeCnt < 256 ^ 4 := by
      rw [freeCnt_of_unbuffered agrees'.unbuffered, count]
      exact good.counted
    have written : z.disk.sectors g.infoSect =
        (x.fat.buf.writeLE 492 4 x.fat.lastUsed).writeLE 488 4 x.fat.freeCnt := by
      rw [onDisk inside, agrees''.view inside, view, ← here, Function.update_self]
    change (z.disk.sectors g.infoSect).readLE 488 4 = z.fat.freeCnt
    rw [written, Memory.readLE_writeLE, same, Nat.mod_eq_of_lt small]
  · rw [if_neg dirty]
    exact ⟨u, rfl, ready.on_disk clean, fun isDirty => absurd (infoDirty.trans isDirty) dirty⟩

/-- A file is open on the only volume. -/
def filedSession : Session where
  driver := { volumes := [filedVolume], gBuf := fun _ => 0, gLen := 0, gCrc := 0 }
  files handle := if handle = 0 then some (0, filed.file) else none

/-- A path names no volume, and the file is written and saved. -/
def filedCalls : List (Nat × SessionCall) :=
  [(65525, .unlink [slash, 0x78]), (65525, .file 0 (.write [0x61] 1)), (65525, .fileSync 0)]

theorem filedVolume_good : filedVolume.Good sampleGeometry ∅ where
  geometry := rfl
  layout := sampleGeometry_layout
  small := by decide
  apart := Set.empty_disjoint _
  begins := by decide
  counted := by decide
  ready := ⟨fun _ _ => rfl, fun _ _ => rfl⟩

theorem filed_rests : filed.file.Rests sampleGeometry := by
  have isClust : sampleGeometry.IsClust 2 := ⟨by decide, by decide⟩
  have data : (1056 : Nat) ∈ sampleGeometry.dataArea := ⟨by decide, by decide⟩
  have entry : (1057 : Nat) ∈ sampleGeometry.dataArea := ⟨by decide, by decide⟩
  exact ⟨⟨isClust, isClust, entry, fun _ => data⟩, data⟩

theorem filedSession_rests (handle : Nat) (file : File)
    (known : filedSession.files handle = some (0, file)) : file.Rests sampleGeometry := by
  by_cases first : handle = 0
  · subst first
    cases known
    exact filed_rests
  · cases (if_neg first).symm.trans known

theorem filedSession_run : ∃ t,
    Run (Guarded (Session.Allowed 0 sampleGeometry ∅) Session.Step) filedSession filedCalls t := by
  have unnamed : filedSession.driver.volumeOf [slash, 0x78] = none := by decide
  have refused : filedSession.driver.volumeOf [slash, 0x78] ≠ some 0 := fun named =>
    Option.some_ne_none 0 (named.symm.trans unnamed)
  exact ⟨_, .cons ⟨fun _ _ named => absurd named refused, rfl⟩
    (.cons ⟨trivial, rfl⟩ (.cons ⟨trivial, rfl⟩ (.nil _)))⟩

end NTux.Fat32
