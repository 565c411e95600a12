import NTux.Fat32.File
import NTux.Fat32.Lookup

/-! # The object of a path

`follow_path` succeeds for the root of a volume as it does for an entry, and leaves it to its
callers to tell which it was. `fat_unlink` and `fat_dir_open` take a directory at the first slot
of the root for the root itself, `fat_stat` and `fat_file_open` take no path for the root. A
walk that remembers what it has met (`namedBy`) says what the path is for, and so where the
callers are wrong (`actsOnNamed_iff`).
-/

namespace NTux.Fat32

open NTux.Foundation Command

/-! ## The callers -/

/-- `fat_dir_read` from a place that may not have been set. -/
def readFrom (fuel : Nat) (g : Geometry) : Option Loc → DirM DirInfo
  | none => stop .undefined
  | some loc => do
    modifyDir (moveTo g loc)
    fatDirRead fuel

/-- `fat_stat` behind the name of the volume. -/
def statFrom (fuel : Nat) : DirM DirInfo := do
  followPath fuel
  let s ← gets id
  if subpathLen s.path ≠ 0 then fail errPath else readFrom fuel s.volume.fat.geometry s.loc

/-- `fat_stat`. -/
def fatStat (fuel : Nat) (path : List Byte) : Command Driver Stop DirInfo :=
  onPath path ⟨0, 0, 0, 0⟩ (statFrom fuel)

/-- `fat_dir_open` behind the name of the volume. -/
def dirOpenFrom (fuel : Nat) : DirM Unit := do
  followPath fuel
  let s ← gets id
  if dirAtRoot s.volume.fat.geometry s.dir then pure ()
  else
    updateDir
    let sfn ← gets OpenDir.slot
    if sfn.attr &&& attrDir = 0 then fail errPath
    else modifyDir (dirEnter s.volume.fat.geometry sfn.cluster)

/-- `fat_dir_open`. -/
def fatDirOpen (fuel : Nat) (path : List Byte) (dir : Dir) : Command Driver Stop Unit :=
  onPath path dir (dirOpenFrom fuel)

/-- A new entry for `fat_file_open`, if there is none with the name. -/
def createFile (fuel : Nat) : DirM Unit := do
  let path ← gets (·.path)
  let len := lastSubpathLen path
  if len = 0 then fail errPath
  else
    let clust ← onFat (createChain fuel)
    dirAdd fuel (path.take len) attrArchive clust

/-- What the volume does for a file that is not open yet, and the file in the end. -/
def withFile (file : File) (c : FileM Unit) : DirM File := fun s =>
  let ended := c.run { volume := s.volume, file := file, bytes := 0, out := [], home := none }
  (ended.1.map fun _ => ended.2.file, s.withVolume ended.2.volume)

/-- `fat_file_open` behind the name of the volume, which is in its place in `g_fat_list`. -/
def fileOpenFrom (fuel fat : Nat) (create : Bool) (flags : OpenFlags) (file : File) :
    DirM File := do
  match ← attempt (followPath fuel) with
  | .ok () => pure ()
  | .error (.code err) =>
    if err = errEof then
      if create then createFile fuel else fail errDenied
    else fail err
  | .error other => stop other
  let s ← gets id
  withFile file (openEntry fuel fat s.dir.sect s.dir.idx flags s.slot)

/-- `fat_file_open`. -/
def fatFileOpen (fuel : Nat) (path : List Byte) (create : Bool) (flags : OpenFlags) (file : File) :
    Command Driver Stop File := fun w =>
  onPath path ⟨0, 0, 0, 0⟩ (fileOpenFrom fuel ((w.volumeOf path).getD 0) create flags file) w

/-! ## What a path names -/

/-- An entry that was found: where it begins, and where its short entry is. -/
structure FoundEntry where
  first : Loc
  place : Dir
  deriving DecidableEq

/-- The path ends behind the name of the volume. -/
def NamesRoot (path : List Byte) : Prop := subpathLen (path.dropWhile (· = slash)) = 0

/-- The walk to the entry at which `dir_search` ends. -/
def foundBy (name : List Byte) : Nat → DirM FoundEntry
  | 0 => stop .running
  | turns + 1 => do
    let start ← gets (·.dir)
    match ← nextEntry with
    | none =>
      dirNext
      foundBy name turns
    | some entry =>
      if entry.taken name then
        let place ← gets (·.dir)
        return ⟨⟨start.sect, start.idx⟩, place⟩
      else
        dirNext
        foundBy name turns

/-- The walk along a path, with the entry that the part before the rest of it names; there is
none for the root. -/
def namedLoop (fuel : Nat) : Nat → Nat → Bool → Option FoundEntry → DirM (Option FoundEntry)
  | 0, _, _, _ => stop .running
  | turns + 1, dirClust, dirEnterable, named => do
    modify fun s => { s with path := s.path.dropWhile (· = slash) }
    let path ← gets (·.path)
    let len := subpathLen path
    if len = 0 then pure named
    else if !dirEnterable then fail errPath
    else
      let g ← gets (·.volume.fat.geometry)
      modifyDir (dirEnter g dirClust)
      modify OpenDir.atStart
      let found ← foundBy (path.take len) fuel
      modify fun s => { s with path := path.drop len }
      let sfn ← gets OpenDir.slot
      namedLoop fuel turns sfn.cluster (sfn.attr &&& attrDir ≠ 0) (some found)

/-- The entry that a path names, or none for the root of its volume. -/
def namedBy (fuel : Nat) : DirM (Option FoundEntry) := do
  let g ← gets (·.volume.fat.geometry)
  modifyDir (dirEnter g g.rootClust)
  let dir ← gets (·.dir)
  namedLoop fuel fuel dir.clust true none

/-! ## What the callers take for it -/

/-- What a caller of `follow_path` does something with. -/
inductive Taken where
  /-- The root directory. -/
  | root
  /-- The entry that begins at a place. -/
  | entryAt (first : Loc)
  /-- The slot at a place, in the buffer as it is. -/
  | slotAt (place : Dir)
  /-- A `Loc` that has not been set. -/
  | unset

/-- What is taken is what the path names. -/
def Taken.Fits : Taken → Option FoundEntry → Prop
  | root, named => named = none
  | entryAt first, named => ∃ found, named = some found ∧ found.first = first
  | slotAt place, named => ∃ found, named = some found ∧ found.place = place
  | unset, _ => False

/-- The functions that act on the object of a path. -/
inductive PathCall where
  | stat
  | fileOpen
  | unlink
  | dirOpen
  deriving DecidableEq, Repr

/-- What each of them takes after `follow_path`. -/
def PathCall.takes : PathCall → OpenDir → Taken
  | stat, s => match s.loc with
    | none => .unset
    | some loc => .entryAt loc
  | fileOpen, s => .slotAt s.dir
  | unlink, s | dirOpen, s =>
    if dirAtRoot s.volume.fat.geometry s.dir then .root else .slotAt s.dir

/-! ## What is done with it -/

/-- `fat_stat` behind `follow_path`. -/
def statTaken (fuel : Nat) : Taken → DirM DirInfo
  | .entryAt loc => do
    let g ← gets (·.volume.fat.geometry)
    modifyDir (moveTo g loc)
    fatDirRead fuel
  | _ => stop .undefined

/-- `fat_unlink` behind `follow_path`. -/
def unlinkTaken (fuel : Nat) : Taken → DirM Unit
  | .slotAt place => do
    let s ← gets id
    let sfn := s.volume.fat.buf.slot place.idx
    if sfn.attr &&& (attrRo ||| attrSys ||| attrLabel) ≠ 0 then fail errDenied
    else
      unlinkCheck fuel sfn
      onFat (removeChain fuel sfn.cluster)
      removeFrom fuel s.loc
      onFat syncFs
  | _ => fail errDenied

/-- `fat_dir_open` behind `follow_path`. -/
def dirOpenTaken : Taken → DirM Unit
  | .slotAt place => do
    let g ← gets (·.volume.fat.geometry)
    onFat (updateBuf place.sect)
    let buf ← gets (·.volume.fat.buf)
    let sfn := buf.slot place.idx
    if sfn.attr &&& attrDir = 0 then fail errPath else modifyDir (dirEnter g sfn.cluster)
  | _ => pure ()

/-- `fat_file_open` behind a `follow_path` that succeeds. -/
def fileOpenTaken (fuel fat : Nat) (flags : OpenFlags) (file : File) : Taken → DirM File
  | .slotAt place => do
    let buf ← gets (·.volume.fat.buf)
    withFile file (openEntry fuel fat place.sect place.idx flags (buf.slot place.idx))
  | _ => stop .undefined

variable {s t : OpenDir} {fuel : Nat}

/-- What a caller does behind `follow_path` may be said by what it takes. -/
theorem after_followPath {α : Type} {body : OpenDir → DirM α} {takes : OpenDir → Taken}
    {onTaken : Taken → DirM α} (same : ∀ t, (body t).run t = (onTaken (takes t)).run t) :
    (followPath fuel >>= fun _ => gets id >>= body) =
      (followPath fuel >>= fun _ => gets takes >>= onTaken) := by
  funext s
  change Command.run _ s = Command.run _ s
  rw [run_bind, run_bind]
  generalize (followPath fuel).run s = followed
  obtain ⟨stopped | ⟨⟩, t⟩ := followed
  · rfl
  · exact same t

theorem unlinkFrom_taken (fuel : Nat) :
    unlinkFrom fuel =
      (followPath fuel >>= fun _ => gets PathCall.unlink.takes >>= unlinkTaken fuel) := by
  apply after_followPath
  intro t
  rw [PathCall.takes]
  split <;> rfl

theorem dirOpenFrom_taken (fuel : Nat) :
    dirOpenFrom fuel =
      (followPath fuel >>= fun _ => gets PathCall.dirOpen.takes >>= dirOpenTaken) := by
  apply after_followPath
  intro t
  rw [PathCall.takes]
  split
  · rfl
  · rw [dirOpenTaken, run_gets_bind, updateDir, run_bind, run_gets_bind, run_bind, onFat, run_zoom]
    generalize (updateBuf t.dir.sect).run t.volume = updated
    obtain ⟨_ | _, v⟩ := updated
    · rfl
    · dsimp only
      rw [run_gets_bind, run_gets_bind]
      rfl

theorem fileOpenFrom_taken {fat : Nat} {create : Bool} {flags : OpenFlags} {file : File}
    (followed : (followPath fuel).run s = (.ok (), t)) :
    (fileOpenFrom fuel fat create flags file).run s =
      (gets PathCall.fileOpen.takes >>= fileOpenTaken fuel fat flags file).run t := by
  rw [fileOpenFrom, run_bind, run_attempt, followed]
  rfl

/-! ## Searching -/

theorem modifyDir_keeps_loc (f : Dir → Dir) : (modifyDir f).Keeps OpenDir.loc := fun _ => rfl

theorem onFat_keeps_loc {α : Type} (c : FatM α) : (onFat c).Keeps OpenDir.loc := fun _ => rfl

theorem updateDir_keeps_loc : updateDir.Keeps OpenDir.loc :=
  (keeps_gets _).bind fun _ => onFat_keeps_loc _

theorem dirNext_keeps_loc : dirNext.Keeps OpenDir.loc := by
  refine (modifyDir_keeps_loc _).bind fun _ => (keeps_gets _).bind fun _ => ?_
  refine (keeps_pure _).ite ?_
  refine (modifyDir_keeps_loc _).bind fun _ => (keeps_gets _).bind fun _ => ?_
  refine (keeps_gets _).bind fun _ => (keeps_pure _).ite ?_
  refine (keeps_gets _).bind fun _ => (onFat_keeps_loc _).bind fun (next, flags) => ?_
  refine (keeps_stop _).ite ((keeps_stop _).ite ?_)
  exact (keeps_gets _).bind fun _ => modifyDir_keeps_loc _

theorem parseLfnName_keeps_loc : parseLfnName.Keeps OpenDir.loc := by
  have frags : ∀ cnt, (parseFrags cnt).Keeps OpenDir.loc := by
    intro cnt
    induction cnt with
    | zero => exact keeps_pure _
    | succ cnt ih =>
        refine (keeps_gets _).bind fun _ => (keeps_stop _).ite ?_
        refine Keeps.bind (keeps_modify fun _ => rfl) fun _ => ?_
        exact dirNext_keeps_loc.bind fun _ => updateDir_keeps_loc.bind fun _ => ih
  refine updateDir_keeps_loc.bind fun _ => (keeps_gets _).bind fun _ => ?_
  refine Keeps.bind (keeps_modify fun _ => rfl) fun _ => ?_
  refine (keeps_stop _).ite ((keeps_stop _).ite ?_)
  exact (frags _).bind fun _ => (keeps_gets _).bind fun _ => (keeps_pure _).ite (keeps_stop _)

/-- The place of an entry is noted where it begins. -/
theorem nextEntry_loc {entry : EntryName} (read : nextEntry.run s = (.ok (some entry), t)) :
    t.loc = some ⟨s.dir.sect, s.dir.idx⟩ := by
  have moved : updateDir.run s = ((updateDir.run s).1, (updateDir.run s).2) := rfl
  have same : (updateDir.run s).2.dir = s.dir := rfl
  rw [nextEntry, run_bind] at read
  generalize updateDir.run s = updated at read same
  obtain ⟨stopped | ⟨⟩, u⟩ := updated
  · cases read
  dsimp only at read same
  rw [run_gets_bind, id] at read
  split at read
  · cases read
  split at read
  · cases read
  rw [run_modify_bind, run_gets_bind] at read
  split at read
  · obtain ⟨⟨⟩, w, parsed, rest⟩ := of_run_bind_ok read
    rw [run_gets_bind] at rest
    split at rest
    · cases rest
    · cases rest
      have kept := parseLfnName_keeps_loc { u with loc := some ⟨u.dir.sect, u.dir.idx⟩ }
      rw [parsed, same] at kept
      exact kept
  · cases read
    rw [same]

/-- A search that ends at an entry is the search of the code. -/
theorem run_searchLoop (name : List Byte) (turns : Nat) : ∀ s : OpenDir,
    (searchLoop name turns).run s =
      (((foundBy name turns).run s).1.map fun _ => (), ((foundBy name turns).run s).2) := by
  induction turns with
  | zero => exact fun s => rfl
  | succ turns ih =>
      intro s
      have next : ∀ u, (dirNext >>= fun _ => searchLoop name turns).run u =
          (((dirNext >>= fun _ => foundBy name turns).run u).1.map fun _ => (),
            ((dirNext >>= fun _ => foundBy name turns).run u).2) := by
        intro u
        rw [run_bind, run_bind]
        generalize dirNext.run u = moved
        obtain ⟨_ | ⟨⟩, w⟩ := moved
        · rfl
        · exact ih w
      rw [searchLoop_turn, foundBy, run_gets_bind, run_bind]
      generalize nextEntry.run s = read
      obtain ⟨_ | _ | entry, u⟩ := read
      · rfl
      · exact next u
      · dsimp only
        split
        · rfl
        · exact next u

theorem foundBy_ok {name : List Byte} {turns : Nat} {found : FoundEntry} :
    ∀ {s : OpenDir}, (foundBy name turns).run s = (.ok found, t) →
      t.loc = some found.first ∧ t.dir = found.place := by
  induction turns with
  | zero => exact fun done => nomatch (congrArg Prod.fst done)
  | succ turns ih =>
      intro s done
      rw [foundBy, run_gets_bind] at done
      obtain ⟨entry, u, read, rest⟩ := of_run_bind_ok done
      cases entry with
      | none =>
          obtain ⟨⟨⟩, w, -, later⟩ := of_run_bind_ok rest
          exact ih later
      | some entry =>
          dsimp only at rest
          split at rest
          · cases rest
            exact ⟨nextEntry_loc read, rfl⟩
          · obtain ⟨⟨⟩, w, -, later⟩ := of_run_bind_ok rest
            exact ih later

/-! ## Following a path -/

/-- The walk that remembers what it met is the one of the code. -/
theorem run_followLoop (fuel turns : Nat) : ∀ (s : OpenDir) (dirClust : Nat) (dirEnterable : Bool)
    (named : Option FoundEntry),
    (followLoop fuel turns dirClust dirEnterable).run s =
      (((namedLoop fuel turns dirClust dirEnterable named).run s).1.map fun _ => (),
        ((namedLoop fuel turns dirClust dirEnterable named).run s).2) := by
  induction turns with
  | zero => exact fun s _ _ _ => rfl
  | succ turns ih =>
      intro s dirClust dirEnterable named
      rw [followLoop, namedLoop, run_modify_bind, run_modify_bind, run_gets_bind, run_gets_bind]
      generalize ({ s with path := s.path.dropWhile (· = slash) } : OpenDir) = u
      by_cases ended : subpathLen u.path = 0
      · rw [if_pos ended, if_pos ended]
        rfl
      rw [if_neg ended, if_neg ended]
      by_cases closed : (!dirEnterable) = true
      · rw [if_pos closed, if_pos closed]
        rfl
      rw [if_neg closed, if_neg closed, run_gets_bind, run_gets_bind, modifyDir, run_modify_bind,
        run_modify_bind, run_modify_bind, run_bind, run_bind, dirSearch, run_gets_bind, modifyDir,
        run_modify_bind]
      have same := run_searchLoop (u.path.take (subpathLen u.path)) fuel
        (u.withDir (dirEnter u.volume.fat.geometry dirClust)).atStart
      rw [OpenDir.atStart] at same ⊢
      rw [same]
      generalize (foundBy (u.path.take (subpathLen u.path)) fuel).run _ = found
      obtain ⟨_ | found, w⟩ := found
      · rfl
      · dsimp only [Except.map]
        rw [run_modify_bind, run_modify_bind, run_gets_bind, run_gets_bind]
        exact ih _ _ _ _

theorem run_followPath (fuel : Nat) (s : OpenDir) :
    (followPath fuel).run s =
      (((namedBy fuel).run s).1.map fun _ => (), ((namedBy fuel).run s).2) :=
  run_followLoop fuel fuel _ _ _ none

/-- The walk ends where it begins, or at the last entry that it found. -/
theorem namedLoop_ok {turns : Nat} : ∀ {s : OpenDir} {dirClust : Nat} {dirEnterable : Bool}
    {named result : Option FoundEntry},
    (namedLoop fuel turns dirClust dirEnterable named).run s = (.ok result, t) →
      subpathLen t.path = 0 ∧
        ((NamesRoot s.path ∧ result = named ∧ t.volume = s.volume ∧ t.dir = s.dir ∧ t.loc = s.loc) ∨
          (¬ NamesRoot s.path ∧ ∃ found, result = some found ∧ t.loc = some found.first ∧
            t.dir = found.place)) := by
  induction turns with
  | zero => exact fun done => nomatch (congrArg Prod.fst done)
  | succ turns ih =>
      intro s dirClust dirEnterable named result done
      rw [namedLoop, run_modify_bind, run_gets_bind] at done
      by_cases ended : subpathLen (s.path.dropWhile (· = slash)) = 0
      · rw [if_pos ended] at done
        cases done
        exact ⟨ended, .inl ⟨ended, rfl, rfl, rfl, rfl⟩⟩
      rw [if_neg ended] at done
      split at done
      · cases done
      rw [run_gets_bind, modifyDir, run_modify_bind, run_modify_bind] at done
      obtain ⟨found, u, met, rest⟩ := of_run_bind_ok done
      obtain ⟨noted, placed⟩ := foundBy_ok met
      rw [run_modify_bind, run_gets_bind] at rest
      obtain ⟨finished, ⟨-, rfl, -, dir, loc⟩ | ⟨-, later⟩⟩ := ih rest
      · exact ⟨finished, .inr ⟨ended, found, rfl, loc.trans noted, dir.trans placed⟩⟩
      · exact ⟨finished, .inr ⟨ended, later⟩⟩

/-- The directory of a path for the root is at the root, and no entry has been noted. -/
theorem namedBy_ok {named : Option FoundEntry} (done : (namedBy fuel).run s = (.ok named, t)) :
    subpathLen t.path = 0 ∧
      ((NamesRoot s.path ∧ named = none ∧ dirAtRoot t.volume.fat.geometry t.dir = true ∧
          t.loc = s.loc) ∨
        (¬ NamesRoot s.path ∧ ∃ found, named = some found ∧ t.loc = some found.first ∧
          t.dir = found.place)) := by
  rw [namedBy, run_gets_bind, modifyDir, run_modify_bind, run_gets_bind] at done
  obtain ⟨finished, ⟨root, rfl, volume, dir, loc⟩ | ⟨entry, later⟩⟩ := namedLoop_ok done
  · refine ⟨finished, .inl ⟨root, rfl, ?_, loc⟩⟩
    rw [volume, dir]
    simp [dirAtRoot, OpenDir.withDir, dirEnter, dirAtClust]
  · exact ⟨finished, .inr ⟨entry, later⟩⟩

/-- A path for the root is followed at once. -/
theorem namedBy_root (root : NamesRoot s.path) : ∃ t, (namedBy 1).run s = (.ok none, t) := by
  rw [namedBy, run_gets_bind, modifyDir, run_modify_bind, run_gets_bind, namedLoop,
    run_modify_bind, run_gets_bind]
  have ended : subpathLen (s.path.dropWhile (· = slash)) = 0 := root
  dsimp only [OpenDir.withDir]
  rw [if_pos ended, run_pure]
  exact ⟨_, rfl⟩

theorem statFrom_taken (followed : (followPath fuel).run s = (.ok (), t)) :
    (statFrom fuel).run s = (gets PathCall.stat.takes >>= statTaken fuel).run t := by
  have finished : subpathLen t.path = 0 := by
    rw [run_followPath] at followed
    generalize ran : (namedBy fuel).run s = ended at followed
    obtain ⟨_ | named, u⟩ := ended
    · cases followed
    · cases followed
      exact (namedBy_ok ran).1
  rw [statFrom, run_bind_ok followed, run_gets_bind, run_gets_bind, id, if_neg (not_not.mpr finished),
    PathCall.takes]
  cases t.loc with
  | none =>
      dsimp only
      rw [readFrom, statTaken]
      exact nofun
  | some loc => rw [readFrom, statTaken, run_gets_bind]

/-! ## The object -/

/-- The function acts on what the path names, whenever the path can be followed. -/
def PathCall.ActsOnNamed (call : PathCall) (s : OpenDir) : Prop :=
  ∀ fuel named t, (namedBy fuel).run s = (.ok named, t) → (call.takes t).Fits named

/-- The function can tell what the path names: it is an entry, or an entry elsewhere than in
the first slot of the root. -/
def PathCall.CanTell (call : PathCall) (s : OpenDir) : Prop :=
  match call with
  | stat | fileOpen => ¬ NamesRoot s.path
  | unlink | dirOpen => ∀ fuel found t, (namedBy fuel).run s = (.ok (some found), t) →
      dirAtRoot t.volume.fat.geometry found.place = false

/-- The functions that take any path for one of an entry. -/
theorem actsOnNamed_entry {call : PathCall}
    (never : ∀ t : OpenDir, call.takes t ≠ .root)
    (fits : ∀ (t : OpenDir) (found : FoundEntry), t.loc = some found.first → t.dir = found.place →
      (call.takes t).Fits (some found)) :
    call.ActsOnNamed s ↔ ¬ NamesRoot s.path := by
  constructor
  · intro acts root
    obtain ⟨t, done⟩ := namedBy_root root
    have fit := acts 1 none t done
    have other := never t
    generalize call.takes t = taken at fit other
    cases taken with
    | root => exact other rfl
    | entryAt first => exact nomatch fit
    | slotAt place => exact nomatch fit
    | unset => exact fit
  · intro entry fuel named t done
    obtain ⟨-, ⟨root, -⟩ | ⟨-, found, rfl, noted, placed⟩⟩ := namedBy_ok done
    · exact absurd root entry
    · exact fits t found noted placed

/-- The functions that look for the root. -/
theorem actsOnNamed_root {call : PathCall}
    (takes : ∀ t : OpenDir, call.takes t =
      if dirAtRoot t.volume.fat.geometry t.dir then .root else .slotAt t.dir) :
    call.ActsOnNamed s ↔ ∀ fuel found t, (namedBy fuel).run s = (.ok (some found), t) →
      dirAtRoot t.volume.fat.geometry found.place = false := by
  constructor
  · intro acts fuel found t done
    have fit := acts fuel (some found) t done
    obtain ⟨-, ⟨-, none, -⟩ | ⟨-, other, same, -, placed⟩⟩ := namedBy_ok done
    · cases none
    · obtain rfl := Option.some.inj same
      rw [takes, placed] at fit
      by_contra atRoot
      rw [if_pos (Bool.not_eq_false _ ▸ atRoot)] at fit
      cases fit
  · intro elsewhere fuel named t done
    rw [takes]
    obtain ⟨-, ⟨-, rfl, atRoot, -⟩ | ⟨-, found, rfl, -, placed⟩⟩ := namedBy_ok done
    · rw [if_pos atRoot]
      rfl
    · have away := elsewhere fuel found t done
      rw [placed, if_neg (by simp [away])]
      exact ⟨found, rfl, rfl⟩

/-- **The object of a path.** -/
theorem actsOnNamed_iff (call : PathCall) (s : OpenDir) : call.ActsOnNamed s ↔ call.CanTell s := by
  cases call with
  | stat =>
      refine actsOnNamed_entry (fun t => ?_) fun t found noted _ => ?_
      · unfold PathCall.takes
        dsimp only
        split <;> exact fun same => nomatch same
      · simp only [PathCall.takes, noted]
        exact ⟨found, rfl, rfl⟩
  | fileOpen =>
      exact actsOnNamed_entry (fun t same => nomatch same) fun t found _ placed =>
        ⟨found, rfl, placed.symm⟩
  | unlink => exact actsOnNamed_root fun t => rfl
  | dirOpen => exact actsOnNamed_root fun t => rfl

/-- For the root of a volume there is no entry to be read. -/
theorem actsOnNamed_rootPath :
    ¬ PathCall.stat.ActsOnNamed
      ⟨sampleVolume 2, ⟨2, 2, 0, 0⟩, none, [slash], fun _ => 0, 0, 0⟩ := by
  have root : NamesRoot [slash] := by
    unfold NamesRoot
    decide
  generalize sampleVolume 2 = v
  intro acts
  obtain ⟨t, done⟩ := @namedBy_root ⟨v, ⟨2, 2, 0, 0⟩, none, [slash], fun _ => 0, 0, 0⟩ root
  have unset := acts 1 none t done
  obtain ⟨-, ⟨-, -, -, none⟩ | ⟨entry, -⟩⟩ := namedBy_ok done
  · rw [PathCall.takes, none] at unset
    exact unset
  · exact entry root

end NTux.Fat32
