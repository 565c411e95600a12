import NTux.Fat32.LongNames
import NTux.Fat32.Opening
import NTux.Fat32.Traversal

/-! # Creating files and directories

`fat_file_open` and `fat_dir_create` take the cluster of a new entry before `dir_add` looks at
the name and for room, and `fat_file_open` takes clusters to seek behind the end of a chain.
Whatever fails afterwards, they keep what they have taken; in every other case a call that fails
leaves the volume as it was (`leaksNothing_iff`).
-/

namespace NTux.Fat32

open NTux.Foundation Command

variable {v w u : Volume} {s t : OpenDir} {fuel : Nat}

/-! ## What a volume holds -/

/-- The slots of a directory, up to a number of clusters, from its first cluster on. -/
def Volume.dirSlots (v : Volume) : Nat → Nat → List (List Byte)
  | 0, _ => []
  | count + 1, clust =>
    (v.fat.geometry.clustSlots clust).map (fun loc =>
        (List.range 32).map ((v.view loc.sect).slot loc.idx)) ++
      if clustFlags v.fat.geometry.clustCnt (v.link clust) = some .used then
        v.dirSlots count (v.link clust)
      else []

/-- The entries in front of the end of a directory that are not free. -/
def Volume.liveEntries (v : Volume) (count clust : Nat) : List (List Byte) :=
  ((v.dirSlots count clust).takeWhile fun slot => slot.headD 0 ≠ sfnLast).filter fun slot =>
    slot.headD 0 ≠ sfnFree

/-- The same clusters are free, as many are counted, and every directory has the same entries. -/
structure Volume.Intact (v w : Volume) : Prop where
  freeClusts : w.freeClusts = v.freeClusts
  freeCnt : w.freeCnt = v.freeCnt
  entries : ∀ count clust, w.liveEntries count clust = v.liveEntries count clust

namespace Volume.Untouched

theorem link (same : v.Untouched w) (c : Nat) : w.link c = v.link c := by
  unfold Volume.link Volume.entry
  rw [same.view, same.geometry]

theorem dirSlots (same : v.Untouched w) (count clust : Nat) :
    w.dirSlots count clust = v.dirSlots count clust := by
  induction count generalizing clust with
  | zero => rfl
  | succ count ih =>
      unfold Volume.dirSlots
      rw [same.geometry, same.view, same.link, ih]

/-- Where the same sectors are seen, nothing has been lost. -/
theorem intact (same : v.Untouched w) : v.Intact w where
  freeClusts := freeClusts_congr same.geometry fun c _ => same.link c
  freeCnt := same.freeCnt
  entries count clust := by
    unfold Volume.liveEntries
    rw [same.dirSlots]

end Volume.Untouched

/-! ## Adding an entry -/

/-- `dir_add` fails: the name is too long, there is no room and the directory is not stretched to
make it, or the directory breaks off where the entry is written. -/
inductive AddFails (fuel : Nat) (name : List Byte) (s : OpenDir) : Prop where
  | long : 255 < name.length → AddFails fuel name s
  | room {err : Int} {t : OpenDir} : name.length ≤ 255 →
      (dirRoom fuel ((name.length + 12) / 13 + 1)).run s = (.error (.code err), t) →
      AddFails fuel name s
  | writing {err : Int} {t u : OpenDir} : name.length ≤ 255 →
      (dirRoom fuel ((name.length + 12) / 13 + 1)).run s = (.ok (), t) →
      (putFrags name (getCrc (putSfnName name)) ((name.length + 12) / 13) lfnHeadMsk).run t =
        (.error (.code err), u) →
      AddFails fuel name s

/-- On a disk without faults a slot is written. -/
theorem updateSlot_sound (sound : s.volume.disk.Sound) (edit : Slot → Slot) :
    ∃ t, (updateDir >>= fun _ => editSlot edit).run s = (.ok (), t) := by
  have nowhere : s.volume.Ready ∅ := ⟨sound, fun _ inside => absurd inside (Set.notMem_empty _)⟩
  obtain ⟨w, moved, -⟩ := updateBuf_spec nowhere s.dir.sect
  have updated : updateDir.run s = (.ok (), s.withVolume w) := by
    rw [updateDir, run_gets_bind, onFat, run_zoom, moved]
  exact ⟨_, run_bind_ok updated⟩

theorem dirRoom_accesses (fuel need : Nat) : DirAccesses (dirRoom fuel need) := by
  refine (relates_gets _).bind fun _ => (modifyDir_relates _).bind fun _ => ?_
  refine (findRoom_accesses _ _ _ _ _ _).bind fun (eod, loc) => Relates.bind ?_ fun _ => ?_
  · exact .ite (updateDir_accesses.bind fun _ => editSlot_accesses _) (relates_pure _)
  · exact modifyDir_relates _

theorem AddFails.error {name : List Byte} (fails : AddFails fuel name s) (named : name ≠ [])
    (attr clust : Nat) :
    ∃ err t, (dirAdd fuel name attr clust).run s = (.error (.code err), t) := by
  cases fails with
  | long long =>
      unfold dirAdd
      rw [if_pos (.inr long)]
      exact ⟨errParam, s, rfl⟩
  | @room err t short full =>
      rw [dirAdd_eq fuel attr clust named short]
      exact ⟨err, t, run_bind_error full⟩
  | @writing err t u short room broken =>
      rw [dirAdd_eq fuel attr clust named short, run_bind_ok room]
      exact ⟨err, u, run_bind_error broken⟩

/-- On a disk without faults, `dir_add` does not fail in another way. -/
theorem addFails_of_error {name : List Byte} {attr clust : Nat} {err : Int} (named : name ≠ [])
    (sound : s.volume.disk.Sound)
    (failed : (dirAdd fuel name attr clust).run s = (.error (.code err), t)) :
    AddFails fuel name s := by
  by_cases long : 255 < name.length
  · exact .long long
  have short : name.length ≤ 255 := Nat.le_of_not_lt long
  rw [dirAdd_eq fuel attr clust named short] at failed
  rcases of_run_bind_error failed with full | ⟨⟨⟩, u, room, failed⟩
  · exact .room short full
  rcases of_run_bind_error failed with broken | ⟨⟨⟩, x, put, failed⟩
  · exact .writing short room broken
  have sound' := accesses_sound (dirRoom_accesses fuel _) sound room
  obtain ⟨y, added⟩ := updateSlot_sound (accesses_sound (putFrags_accesses _ _ _ _) sound' put)
    (sfnSlot (putSfnName name) attr clust)
  cases failed.symm.trans added

/-- An entry that `dir_add` has added is one of an empty file. -/
theorem dirAdd_size {name : List Byte} {attr clust : Nat}
    (done : (dirAdd fuel name attr clust).run s = (.ok (), t)) : t.slot.size = 0 := by
  unfold dirAdd at done
  split at done
  · cases done
  · obtain ⟨g, s₁, -, done⟩ := of_run_bind_ok done
    obtain ⟨⟨⟩, s₂, -, done⟩ := of_run_bind_ok done
    obtain ⟨⟨eod, loc⟩, s₃, -, done⟩ := of_run_bind_ok done
    obtain ⟨⟨⟩, s₄, -, done⟩ := of_run_bind_ok done
    obtain ⟨⟨⟩, s₅, -, done⟩ := of_run_bind_ok done
    obtain ⟨⟨⟩, s₆, -, done⟩ := of_run_bind_ok done
    obtain ⟨⟨⟩, u, -, edited⟩ := of_run_bind_ok done
    cases edited
    have same := putSlot_same u.volume.fat.buf u.dir.idx (sfnSlot (putSfnName name) attr clust)
    have size := same.readLE (show 28 + 4 ≤ 32 by decide)
    exact size.trans (Memory.readLE_writeLE _ 28 4 0)

/-! ## Calls that create -/

/-- A call that creates what its path names: `fat_file_open` with `FAT_CREATE`, or
`fat_dir_create`. -/
inductive Creation where
  | fileOpen (flags : OpenFlags) (file : File)
  | dirCreate (dir : Dir)

/-- The end of `fat_file_open`, at the entry. -/
def openFound (fuel fat : Nat) (flags : OpenFlags) (file : File) : DirM Unit := do
  let s ← gets id
  let _ ← withFile file (openEntry fuel fat s.dir.sect s.dir.idx flags s.slot)
  pure ()

namespace Creation

def call (fuel : Nat) (path : List Byte) : Creation → Command Driver Stop Unit
  | fileOpen flags file => do
    let _ ← fatFileOpen fuel path true flags file
    pure ()
  | dirCreate dir => fatDirCreate fuel path dir

/-- The `Dir` with which the path is followed. -/
def start : Creation → Dir
  | fileOpen _ _ => ⟨0, 0, 0, 0⟩
  | dirCreate dir => dir

/-- The call behind the name of the volume. -/
def within (fuel fat : Nat) : Creation → DirM Unit
  | fileOpen flags file => do
    let _ ← fileOpenFrom fuel fat true flags file
    pure ()
  | dirCreate _ => createFrom fuel

/-- The attributes of a new entry. -/
def attr : Creation → Nat
  | fileOpen _ _ => attrArchive
  | dirCreate _ => attrDir

/-- What is done to a new cluster before the entry is added. -/
def prepare (clust : Nat) : Creation → DirM Geometry
  | fileOpen _ _ => gets (·.volume.fat.geometry)
  | dirCreate _ => do
    onFat (clustClear clust)
    let g ← gets (·.volume.fat.geometry)
    onFat (updateBuf (g.clustToSect clust))
    let dir ← gets (·.dir)
    let parent := if dir.sclust = g.rootClust then 0 else dir.sclust
    onFat (editBuf (putDots clust parent))
    pure g

/-- What is done when the entry has been added. -/
def finish (fuel fat clust : Nat) (g : Geometry) : Creation → DirM Unit
  | fileOpen flags file => openFound fuel fat flags file
  | dirCreate _ => do
    modifyDir (dirEnter g clust)
    onFat syncFs

variable {create : Creation} {fat clust : Nat} {g : Geometry}

theorem call_run (fuel : Nat) (path : List Byte) (create : Creation) (w : Driver) :
    (create.call fuel path).run w =
      onPath path create.start (create.within fuel ((w.volumeOf path).getD 0)) w := by
  cases create with
  | dirCreate dir => rfl
  | fileOpen flags file =>
      have opened : (fatFileOpen fuel path true flags file).run w = onPath path ⟨0, 0, 0, 0⟩
          (fileOpenFrom fuel ((w.volumeOf path).getD 0) true flags file) w := rfl
      rw [call, run_bind, opened]
      generalize (w.volumeOf path).getD 0 = fat
      unfold onPath
      cases w.volumeOf path with
      | none => rfl
      | some i =>
          dsimp only
          cases w.volumes[i]? with
          | none => rfl
          | some v =>
              dsimp only [start, within]
              rw [run_bind]
              generalize (fileOpenFrom fuel fat true flags file).run _ = ended
              obtain ⟨_ | _, _⟩ := ended
              · rfl
              · rfl

/-- The call behind `follow_path` that has found nothing. -/
theorem within_eof (ended : (followPath fuel).run s = (.error (.code errEof), t))
    (create : Creation) :
    (create.within fuel fat).run s =
      (if lastSubpathLen t.path = 0 then fail errPath
        else onFat (createChain fuel) >>= fun clust => create.prepare clust >>= fun g =>
          dirAdd fuel (t.path.take (lastSubpathLen t.path)) create.attr clust >>= fun _ =>
            create.finish fuel fat clust g).run t := by
  cases create with
  | dirCreate dir =>
      rw [within, createFrom, run_bind, run_attempt, ended]
      dsimp only
      rw [if_pos rfl, createDir, run_gets_bind]
      dsimp only
      split
      · rfl
      · simp only [prepare, bind_bind]
        rfl
  | fileOpen flags file =>
      rw [within, fileOpenFrom, bind_bind, run_bind, run_attempt, ended]
      dsimp only
      rw [if_pos rfl, if_pos rfl, bind_bind, bind_bind, createFile, bind_bind, run_gets_bind]
      dsimp only
      split
      · rfl
      · simp only [prepare, bind_bind]
        rfl

/-- The call behind `follow_path` that has failed in another way. -/
theorem within_stopped {stopped : Stop} (other : stopped ≠ .code errEof)
    (ended : (followPath fuel).run s = (.error stopped, t)) (create : Creation) :
    (create.within fuel fat).run s = (.error stopped, t) := by
  cases create with
  | dirCreate dir =>
      rw [within, createFrom, run_bind, run_attempt, ended]
      cases stopped with
      | code err =>
          dsimp only
          rw [if_neg fun same => other (congrArg Stop.code same)]
          rfl
      | undefined => rfl
      | running => rfl
  | fileOpen flags file =>
      rw [within, fileOpenFrom, bind_bind, run_bind, run_attempt, ended]
      cases stopped with
      | code err =>
          dsimp only
          rw [if_neg fun same => other (congrArg Stop.code same)]
          rfl
      | undefined => rfl
      | running => rfl

/-- The call behind `follow_path` that has found an entry. -/
theorem within_found (found : (followPath fuel).run s = (.ok (), t)) :
    ∀ create : Creation, (create.within fuel fat).run s =
      (match create with
        | fileOpen flags file => openFound fuel fat flags file
        | dirCreate _ => pure ()).run t
  | dirCreate dir => by
      rw [within, createFrom, run_bind, run_attempt, found]
  | fileOpen flags file => by
      rw [within, fileOpenFrom, bind_bind, run_bind, run_attempt, found]
      rfl

/-! ## What does not fail -/

/-- On a disk without faults a new cluster is prepared, and no cluster is taken for that. -/
theorem prepare_sound (sound : s.volume.disk.Sound) (clust : Nat) (create : Creation) :
    ∃ g t, (create.prepare clust).run s = (.ok g, t) ∧ s.volume.SameCount t.volume ∧
      t.volume.disk.Sound := by
  cases create with
  | fileOpen flags file => exact ⟨s.volume.fat.geometry, s, rfl, rfl, sound⟩
  | dirCreate dir =>
      obtain ⟨v, cleared, zeroed⟩ := clustClear_zeroed sound clust
      have counted := clustClear_keeps clust s.volume
      rw [cleared] at counted
      have first : (onFat (clustClear clust)).run s = (.ok (), s.withVolume v) := by
        rw [onFat, run_zoom, cleared]
      obtain ⟨w, moved, ready, -⟩ := updateBuf_spec zeroed.ready (v.fat.geometry.clustToSect clust)
      have counted' := sameCount_overlooks.buffer (v.fat.geometry.clustToSect clust) v
      rw [moved] at counted'
      have second : (onFat (updateBuf (v.fat.geometry.clustToSect clust))).run (s.withVolume v) =
          (.ok (), s.withVolume w) := by
        rw [onFat, run_zoom]
        change ((updateBuf _).run v |>.1, s.withVolume ((updateBuf _).run v).2) = _
        rw [moved]
      rw [prepare, run_bind_ok first, run_gets_bind]
      change ∃ g t, (onFat (updateBuf (v.fat.geometry.clustToSect clust)) >>= _).run
        (s.withVolume v) = (.ok g, t) ∧ _
      rw [run_bind_ok second]
      exact ⟨_, _, rfl, counted'.trans counted, ready.sound⟩

theorem openFound_run (fuel fat : Nat) (flags : OpenFlags) (file : File) (s : OpenDir) :
    (openFound fuel fat flags file).run s =
      (((openEntry fuel fat s.dir.sect s.dir.idx flags s.slot).run
          { volume := s.volume, file := file, bytes := 0, out := [], home := none }).1,
        s.withVolume ((openEntry fuel fat s.dir.sect s.dir.idx flags s.slot).run
          { volume := s.volume, file := file, bytes := 0, out := [], home := none }).2.volume) := by
  rw [openFound, run_gets_bind, run_bind]
  dsimp only [id, Command.run, withFile]
  generalize openEntry fuel fat s.dir.sect s.dir.idx flags s.slot _ = ended
  obtain ⟨_ | ⟨⟩, _⟩ := ended
  · rfl
  · rfl

/-- Where an entry is not opened, the loop of `fat_file_seek` fails. -/
theorem openFound_refused {flags : OpenFlags} {file : File} {stopped : Stop}
    (sound : s.volume.disk.Sound)
    (failed : (openFound fuel fat flags file).run s = (.error stopped, t)) :
    ∃ u, (followChain fuel (openTurns s.volume.fat.geometry flags s.slot)).run
        (openedFile s.volume file fat s.dir.sect s.dir.idx flags s.slot) = (.error stopped, u) ∧
      t.volume = u.volume := by
  rw [openFound_run] at failed
  generalize ended : (openEntry fuel fat s.dir.sect s.dir.idx flags s.slot).run
    { volume := s.volume, file := file, bytes := 0, out := [], home := none } = last at failed
  obtain ⟨result, u⟩ := last
  cases failed
  exact ⟨u, openEntry_refused sound ended, rfl⟩

/-- Where the loop of `fat_file_seek` fails, an entry is not opened. -/
theorem openFound_error {flags : OpenFlags} {file : File} {stopped : Stop} {u : OpenFile}
    (failed : (followChain fuel (openTurns s.volume.fat.geometry flags s.slot)).run
      (openedFile s.volume file fat s.dir.sect s.dir.idx flags s.slot) = (.error stopped, u)) :
    (openFound fuel fat flags file).run s = (.error stopped, s.withVolume u.volume) := by
  rw [openFound_run, openEntry_run, run_bind_error failed]

/-- On a disk without faults, nothing fails behind an entry of an empty file. -/
theorem finish_sound (sound : s.volume.disk.Sound) (empty : s.slot.size = 0) (fuel fat clust : Nat)
    (g : Geometry) (create : Creation) :
    ∃ t, (create.finish fuel fat clust g).run s = (.ok (), t) := by
  cases create with
  | fileOpen flags file =>
      have none : openTurns s.volume.fat.geometry flags s.slot = 0 := by
        unfold openTurns
        rw [empty, ite_self, Nat.zero_div]
      generalize opened : (openFound fuel fat flags file).run s = ended
      obtain ⟨stopped | ⟨⟩, t⟩ := ended
      · obtain ⟨u, failed, -⟩ := openFound_refused sound opened
        rw [none] at failed
        cases failed
      · exact ⟨t, opened⟩
  | dirCreate dir =>
      obtain ⟨w, synced⟩ := syncFs_sound sound
      refine ⟨(s.withDir (dirEnter g clust)).withVolume w, ?_⟩
      rw [finish, modifyDir, run_modify_bind, onFat, run_zoom, OpenDir.withDir_volume, synced]

end Creation

/-! ## Clusters that nothing has -/

/-- The call takes a cluster and fails afterwards, behind the name of the volume. -/
inductive Creation.StrandsIn (fuel fat : Nat) (s : OpenDir) : Creation → Prop where
  /-- Nothing has the name, a cluster is taken for the new entry, and the entry is not added. -/
  | adding {create : Creation} {g : Geometry} {clust : Nat} {t u v : OpenDir} :
      (followPath fuel).run s = (.error (.code errEof), t) → lastSubpathLen t.path ≠ 0 →
      (onFat (createChain fuel)).run t = (.ok clust, u) →
      (create.prepare clust).run u = (.ok g, v) →
      AddFails fuel (t.path.take (lastSubpathLen t.path)) v → StrandsIn fuel fat s create
  /-- The entry is found, and its chain is stretched on the way to the end of the file. -/
  | seeking {flags : OpenFlags} {file : File} {t : OpenDir} :
      (followPath fuel).run s = (.ok (), t) →
      StretchFails fuel (openTurns t.volume.fat.geometry flags t.slot)
        (openedFile t.volume file fat t.dir.sect t.dir.idx flags t.slot) →
      StrandsIn fuel fat s (.fileOpen flags file)

theorem take_lastSubpath {path : List Byte} (named : lastSubpathLen path ≠ 0) :
    path.take (lastSubpathLen path) ≠ [] := by
  intro empty
  rcases List.take_eq_nil_iff.mp empty with none | none
  · exact named none
  · exact named (none ▸ rfl)

namespace Creation

variable {create : Creation} {fat : Nat}

/-- A call that fails leaves the volume untouched, unless it has taken a cluster. -/
theorem within_refused {err : Int} (ready : s.volume.Ready Set.univ)
    (failed : (create.within fuel fat).run s = (.error (.code err), t)) :
    s.volume.Untouched t.volume ∨ create.StrandsIn fuel fat s := by
  have same := followPath_looks spared_overlooks fuel s ready
  generalize followed : (followPath fuel).run s = ended at same
  obtain ⟨stopped | ⟨⟩, u⟩ := ended
  · by_cases eof : stopped = .code errEof
    · rw [eof] at followed
      rw [within_eof followed] at failed
      split at failed
      · cases failed
        exact .inl same
      · next named =>
          rcases of_run_bind_error failed with full | ⟨clust, x, created, failed⟩
          · rw [onFat, run_zoom] at full
            generalize result : (createChain fuel).run u.volume = last at full
            obtain ⟨stopped, w⟩ := last
            cases full
            exact .inl (same.trans (stretchChain_refused same.ready result))
          · have sound := accesses_sound (onFat_relates (stretchChain_accesses fuel 0))
              same.ready.sound created
            obtain ⟨g, y, prepared, -, sound'⟩ := prepare_sound sound clust create
            rw [run_bind_ok prepared] at failed
            rcases of_run_bind_error failed with refused | ⟨⟨⟩, z, added, failed⟩
            · -- the cluster is not given back
              exact .inr (.adding followed named created prepared
                (addFails_of_error (take_lastSubpath named) sound' refused))
            · -- the entry is there, of an empty file or a directory
              have sound'' := accesses_sound (dirAdd_accesses _ _ _ _) sound' added
              obtain ⟨x, finished⟩ :=
                finish_sound sound'' (dirAdd_size added) fuel fat clust g create
              cases failed.symm.trans finished
    · rw [within_stopped eof followed] at failed
      cases failed
      exact .inl same
  · rw [within_found followed] at failed
    cases create with
    | dirCreate dir => cases failed
    | fileOpen flags file =>
        obtain ⟨x, refused, volume⟩ := openFound_refused same.ready.sound failed
        rw [volume]
        rcases followChain_refused same.ready refused with still | fails
        · exact .inl (same.trans still)
        · exact .inr (.seeking followed fails)

/-- A call that takes a cluster and fails afterwards shows it in the count. -/
theorem StrandsIn.took (sound : s.volume.disk.Sound) (strands : create.StrandsIn fuel fat s) :
    ∃ err t k, (create.within fuel fat).run s = (.error (.code err), t) ∧ 0 < k ∧ k < 2 ^ 32 ∧
      s.volume.Took k t.volume := by
  cases strands with
  | @adding _ g clust t u x followed named created prepared fails =>
      have counted := followPath_looks sameCount_overlooks fuel s
      rw [followed] at counted
      have sound' := accesses_sound (followPath_accesses fuel) sound followed
      have sound'' := accesses_sound (onFat_relates (stretchChain_accesses fuel 0)) sound' created
      obtain ⟨g', x', again, counted', sound⟩ := prepare_sound sound'' clust create
      cases prepared.symm.trans again
      obtain ⟨err, y, refused⟩ := fails.error (take_lastSubpath named) create.attr clust
      have took : t.volume.Took 1 u.volume := by
        rw [onFat, run_zoom] at created
        generalize result : (createChain fuel).run t.volume = last at created
        obtain ⟨found, w⟩ := last
        cases created
        exact stretchChain_took result
      have few := dirAdd_takes fuel (t.path.take (lastSubpathLen t.path)) create.attr clust sound
      rw [refused] at few
      obtain ⟨k, bound, more⟩ := few
      refine ⟨err, y, 1 + k, ?_, by omega, by omega,
        .after counted (took.trans (.after counted' more))⟩
      rw [within_eof followed, if_neg named, run_bind_ok created, run_bind_ok prepared,
        run_bind_error refused]
  | @seeking flags file t followed fails =>
      have counted := followPath_looks sameCount_overlooks fuel s
      rw [followed] at counted
      obtain ⟨err, u, k, failed, positive, bound, took⟩ := fails.took
      refine ⟨err, t.withVolume u.volume, k, ?_, positive,
        bound.trans_lt (openTurns_lt _ _ _), .after counted took⟩
      rw [within_found followed]
      exact openFound_error failed

/-! ## What a failed call leaves -/

/-- Where the call fails, every volume has the same free clusters, as many are counted, and its
directories have the same entries. -/
def LeaksNothing (create : Creation) (fuel : Nat) (path : List Byte) (w : Driver) : Prop :=
  ∀ err w', (create.call fuel path).run w = (.error (.code err), w') →
    List.Forall₂ Volume.Intact w.volumes w'.volumes

/-- On the volume of the path, the call takes a cluster and fails afterwards. -/
def Strands (create : Creation) (fuel : Nat) (path : List Byte) (w : Driver) : Prop :=
  ∃ i v, w.volumeOf path = some i ∧ w.volumes[i]? = some v ∧
    create.StrandsIn fuel i
      (w.enter v create.start ((path.drop 1).drop (subpathLen (path.drop 1))))

variable {w : Driver} {path : List Byte} {i : Nat}

theorem call_found (found : w.volumeOf path = some i) (there : w.volumes[i]? = some v)
    (create : Creation) :
    (create.call fuel path).run w =
      (((create.within fuel i).run
          (w.enter v create.start ((path.drop 1).drop (subpathLen (path.drop 1))))).1,
        w.leave i ((create.within fuel i).run
          (w.enter v create.start ((path.drop 1).drop (subpathLen (path.drop 1))))).2) := by
  rw [call_run, onPath, found]
  dsimp only
  rw [there]
  rfl

/-- A list of which one member is replaced. -/
theorem forall₂_set {α : Type} {rel : α → α → Prop} {l : List α} {a b : α}
    (still : List.Forall₂ rel l l) (there : l[i]? = some a) :
    List.Forall₂ rel l (l.set i b) ↔ rel a b := by
  induction l generalizing i with
  | nil => cases there
  | cons x l ih =>
      obtain ⟨head, tail⟩ := List.forall₂_cons.mp still
      cases i with
      | zero =>
          cases there
          rw [List.set_cons_zero, List.forall₂_cons]
          exact and_iff_left tail
      | succ i =>
          rw [List.set_cons_succ, List.forall₂_cons, ih tail there]
          exact and_iff_right head

theorem intact_refl (ready : ∀ v ∈ w.volumes, v.Ready Set.univ) :
    List.Forall₂ Volume.Intact w.volumes w.volumes :=
  List.forall₂_same.mpr fun v member => (Volume.Untouched.refl (ready v member)).intact

/-- What has been taken is missed. -/
theorem not_leaksNothing (ready : ∀ v ∈ w.volumes, v.Ready Set.univ)
    (strands : create.Strands fuel path w) : ¬ create.LeaksNothing fuel path w := by
  intro leaks
  obtain ⟨i, v, found, there, strands⟩ := strands
  obtain ⟨err, t, k, failed, positive, bound, took⟩ :=
    strands.took (ready v (List.mem_of_getElem? there)).sound
  have intact := leaks err (w.leave i t) (by rw [call_found found there, failed])
  have same := (forall₂_set (intact_refl ready) there).mp intact
  exact took.freeCnt_ne positive bound same.freeCnt

/-- A volume with the name `a`, which is found for other names of one character. -/
def sampleNamed : Volume :=
  { sampleVolume 2 with fat := { (sampleVolume 2).fat with name := [0x61], sect := 1056 } }

def sampleDriver : Driver where
  volumes := [sampleNamed]
  gBuf := fun _ => 0
  gLen := 0
  gCrc := 0

theorem sampleDriver_ready : ∀ v ∈ sampleDriver.volumes, v.Ready Set.univ := by
  intro v member
  obtain rfl := List.mem_singleton.mp member
  exact ⟨fun _ _ => rfl, fun _ _ => rfl⟩

/-- `/b/c/c`: there is no directory in which an entry could be created. -/
def orphanPath : List Byte := [slash, 0x62, slash, 0x63, slash, 0x63]

def longName : List Byte := List.replicate 256 0x63

/-- `/b/c…c`. -/
def longPath : List Byte := slash :: 0x62 :: slash :: longName

section Plain

variable {name : List Byte} (plain : ∀ c ∈ name, c ≠ 0 ∧ c ≠ slash)

include plain

theorem subpathLen_plain : subpathLen name = name.length := by
  unfold subpathLen
  rw [List.takeWhile_eq_self_iff.mpr fun c member => decide_eq_true (plain c member)]

theorem lastSubpathLen_plain : lastSubpathLen name = name.length := by
  unfold lastSubpathLen
  dsimp only
  rw [subpathLen_plain plain, List.drop_length]
  rfl

/-- A path of one name is followed by a search of the root. -/
theorem followPath_plain {stopped : Stop} (named : name ≠ []) (path : s.path = slash :: name)
    (failed : (dirSearch (fuel + 1) name).run
      { s with path := name, dir := dirEnter s.volume.fat.geometry
                 s.volume.fat.geometry.rootClust s.dir } = (.error stopped, t)) :
    (followPath (fuel + 1)).run s = (.error stopped, t) := by
  obtain ⟨c, rest, rfl⟩ := List.exists_cons_of_ne_nil named
  have slashes : (slash :: c :: rest).dropWhile (· = slash) = c :: rest := by
    rw [List.dropWhile_cons_of_pos (by simp), List.dropWhile_cons_of_neg]
    simpa using (plain c List.mem_cons_self).2
  have len := subpathLen_plain plain
  have some : ¬ (c :: rest).length = 0 := Nat.succ_ne_zero _
  have again : dirEnter s.volume.fat.geometry
      (dirEnter s.volume.fat.geometry s.volume.fat.geometry.rootClust s.dir).clust
      (dirEnter s.volume.fat.geometry s.volume.fat.geometry.rootClust s.dir) =
      dirEnter s.volume.fat.geometry s.volume.fat.geometry.rootClust s.dir := by
    unfold dirEnter dirAtClust
    simp only [ite_self]
  rw [followPath, run_gets_bind, modifyDir, run_modify_bind, run_gets_bind, followLoop,
    run_modify_bind, run_gets_bind]
  dsimp only [OpenDir.withDir]
  rw [path, slashes, len, if_neg some, if_neg (by simp), run_gets_bind, modifyDir, run_modify_bind]
  apply run_bind_error
  rw [List.take_length]
  rw [← again] at failed
  exact failed

end Plain

/-- At the root of the volume. -/
def sampleRoot (name : List Byte) : OpenDir := sampleDriver.enter sampleNamed ⟨2, 2, 1056, 0⟩ name

/-- The root is empty. -/
theorem sampleNamed_absent {name : List Byte} (plain : ∀ c ∈ name, c ≠ 0 ∧ c ≠ slash)
    (named : name ≠ []) (dir : Dir) :
    (followPath 1).run (sampleDriver.enter sampleNamed dir (slash :: name)) =
      (.error (.code errEof), sampleRoot name) := by
  have entered : dirEnter sampleNamed.fat.geometry sampleNamed.fat.geometry.rootClust dir =
      ⟨2, 2, 1056, 0⟩ := rfl
  have begun : (sampleRoot name).withDir (fun dir =>
      dirAtClust sampleNamed.fat.geometry dir.sclust dir) = sampleRoot name := by
    have first : dirAtClust sampleNamed.fat.geometry 2 ⟨2, 2, 1056, 0⟩ = ⟨2, 2, 1056, 0⟩ := rfl
    exact congrArg (fun dir => { sampleRoot name with dir := dir }) first
  have here : updateDir.run (sampleRoot name) = (.ok (), sampleRoot name) := rfl
  have last : (sampleRoot name).slot.isLast = true := rfl
  have searched : (dirSearch 1 name).run (sampleRoot name) =
      (.error (.code errEof), sampleRoot name) := by
    rw [dirSearch, run_gets_bind, modifyDir, run_modify_bind]
    change (searchLoop name 1).run ((sampleRoot name).withDir fun dir =>
      dirAtClust sampleNamed.fat.geometry dir.sclust dir) = _
    rw [begun, searchLoop, run_bind_ok here, run_gets_bind, id, if_pos last]
    rfl
  refine followPath_plain plain named rfl ?_
  change (dirSearch 1 name).run (sampleDriver.enter sampleNamed
    (dirEnter sampleNamed.fat.geometry sampleNamed.fat.geometry.rootClust dir) name) = _
  rw [entered]
  exact searched

/-- There is a free cluster. -/
theorem sampleNamed_created (name : List Byte) :
    ∃ u, (onFat (createChain 1)).run (sampleRoot name) = (.ok 3, u) := by
  obtain ⟨w, created⟩ : ∃ w, (createChain 1).run sampleNamed = (.ok 3, w) :=
    ⟨((createChain 1).run sampleNamed).2, Prod.ext rfl rfl⟩
  refine ⟨(sampleRoot name).withVolume w, ?_⟩
  rw [onFat, run_zoom]
  exact congrArg (fun ended => (ended.1, (sampleRoot name).withVolume ended.2)) created

end Creation

end NTux.Fat32
