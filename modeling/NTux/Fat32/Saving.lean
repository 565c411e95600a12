import NTux.Fat32.FileRuns
import NTux.Fat32.Fragments
import NTux.Fat32.Opening

/-! # Files that are saved

`fat_file_sync` writes the buffer of a file, its entry and the buffer of the volume
(`fatFileSync_saves`). What is on the disk then is all that is needed to go on: the file of any
volume that is mounted on it later has the same bytes and the same size (`saved_reopened`).
-/

namespace NTux.Fat32

open NTux.Foundation Command

variable {g : Geometry} {v w : Volume} {chain more : List Nat} {c d fuel cap : Nat}
  {s t u : OpenFile} {f : CellFile Byte}

/-! ## Synchronizing the volume -/

/-- `sync_fs` leaves a buffer that is on the disk, where it was or at the `FsInfo` sector. -/
theorem syncFs_settles (layout : v.fat.geometry.Layout) (ready : v.Ready v.fat.geometry.area) :
    ∃ w, syncFs.run v = (.ok (), w) ∧ SameCounts v w ∧ (Rewrites v w fun _ entry => entry) ∧
      w.fat.bufDirty = false ∧
      (w.fat.sect = v.fat.sect ∨ w.fat.sect = v.fat.geometry.infoSect) := by
  obtain ⟨w, ran, same, rewrites⟩ := syncFs_spec layout ready
  refine ⟨w, ran, same, rewrites, ?_⟩
  obtain ⟨u, synced, ready', agrees, clean, sect, -⟩ := syncBuf_spec ready
  unfold syncFs at ran
  rw [run_bind_ok synced, run_gets_bind] at ran
  by_cases dirty : u.fat.infoDirty = true
  · rw [if_pos dirty] at ran
    obtain ⟨x, moved, ready'', -, here, -⟩ := updateBuf_spec ready' u.fat.geometry.infoSect
    obtain ⟨y, edited, edited', -, -, here', -⟩ := @editBuf_run v.fat.geometry.area
      x fun buf => (buf.writeLE 492 4 x.fat.lastUsed).writeLE 488 4 x.fat.freeCnt
    obtain ⟨z, flushed, -, -, clean', here'', -⟩ := syncBuf_spec (edited' ready''.sound)
    rw [run_bind_ok moved, run_gets_bind, run_bind_ok edited, run_bind_ok flushed] at ran
    cases ran
    refine ⟨clean', .inr ?_⟩
    change z.fat.sect = _
    rw [here'', here', here, agrees.geometry]
  · rw [if_neg dirty] at ran
    cases ran
    exact ⟨clean, .inl sect⟩

/-- Where the buffer is on the disk, the disk has what is seen. -/
theorem Volume.Healthy.disk (healthy : v.Healthy g) (clean : v.fat.bufDirty = false) :
    Set.EqOn v.disk.sectors v.view g.area := by
  intro sect inside
  have geometry := healthy.fit.geometry
  exact healthy.ready.disk (geometry ▸ inside) fun dirty => nomatch clean.symm.trans dirty

/-! ## The entry of a file -/

/-- The entry of a file is in a cluster that is in use for something else, and has the file's first
cluster, and its size if the file was not modified. -/
structure OpenFile.Recorded (g : Geometry) (chain : List Nat) (s : OpenFile) : Prop where
  owner : ∃ c, g.IsClust c ∧ c ∉ chain ∧ s.volume.link c ≠ 0 ∧ s.file.dirSect ∈ g.clustArea c
  cluster : ((s.volume.view s.file.dirSect).slot s.file.dirIdx).cluster = s.file.sclust
  size : s.file.flags.modified = false →
    ((s.volume.view s.file.dirSect).slot s.file.dirIdx).size = s.file.size

namespace OpenFile

theorem Recorded.data (recorded : s.Recorded g chain) (layout : g.Layout) :
    s.file.dirSect ∈ g.dataArea := by
  obtain ⟨c, isClust, -, -, inside⟩ := recorded.owner
  exact layout.clustArea_subset isClust inside

/-- The entry is in no cluster of the file. -/
theorem Recorded.apart (recorded : s.Recorded g chain) (layout : g.Layout)
    (clusters : ∀ c ∈ chain, g.IsClust c) : ∀ c ∈ chain, s.file.dirSect ∉ g.clustArea c := by
  intro c member inside
  obtain ⟨d, isClust, outside, -, inside'⟩ := recorded.owner
  have differ : c ≠ d := by
    rintro rfl
    exact outside member
  exact Set.disjoint_left.mp (layout.clustArea_disjoint (clusters c member) isClust differ) inside
    inside'

/-- Calls leave the entry of a file as it is. -/
theorem Becomes.recorded (becomes : s.Becomes g chain more f t) (recorded : s.Recorded g chain) :
    t.Recorded g (chain ++ more) := by
  have layout := becomes.grows.healthy.fit.layout
  have identity := becomes.identity
  simp only [File.identity, Prod.mk.injEq] at identity
  obtain ⟨-, dirSect, sclust, dirIdx, -⟩ := identity
  obtain ⟨c, isClust, outside, used, inside⟩ := recorded.owner
  have outside' : c ∉ chain ++ more := by
    intro member
    rcases List.mem_append.mp member with old | new
    · exact outside old
    · exact used (becomes.grows.fresh c new)
  have seen : t.volume.view s.file.dirSect = s.volume.view s.file.dirSect := by
    refine becomes.grows.data _ (recorded.data layout) fun d member inside' => ?_
    have differ : c ≠ d := by
      rintro rfl
      exact outside' member
    exact Set.disjoint_left.mp (layout.clustArea_disjoint isClust
      (becomes.grows.isClust member) differ) inside inside'
  constructor
  case owner =>
    refine ⟨c, isClust, outside', ?_, dirSect ▸ inside⟩
    rwa [becomes.grows.link isClust.inFat outside']
  case cluster =>
    rw [dirSect, dirIdx, seen, sclust]
    exact recorded.cluster
  case size =>
    intro unmodified
    obtain ⟨before, size⟩ := becomes.unmodified unmodified
    rw [dirSect, dirIdx, seen, size]
    exact recorded.size before

/-- The sectors as they are on the disk when the file has been saved. -/
def savedView (s : OpenFile) : Nat → Sector :=
  if s.file.flags.accessed ∨ s.file.flags.modified then
    Function.update s.seen s.file.dirSect
      (Sector.putSlot s.file.dirIdx s.file.touchEntry (s.seen s.file.dirSect))
  else s.seen

end OpenFile

/-- The file's first cluster stays in its entry. -/
theorem File.touchEntry_cluster (file : File) (sfn : Slot) :
    (file.touchEntry sfn).cluster = sfn.cluster := by
  unfold File.touchEntry
  obtain ⟨date, time⟩ := encodeTimestamp
  dsimp only
  have touched : Slot.cluster (if file.flags.accessed then sfn.writeLE 18 2 date else sfn) =
      sfn.cluster := by
    split
    · unfold Slot.cluster
      rw [Memory.readLE_writeLE_of_apart _ _ (by decide),
        Memory.readLE_writeLE_of_apart _ _ (by decide)]
    · rfl
  split
  · rw [← touched]
    generalize (if file.flags.accessed then sfn.writeLE 18 2 date else sfn) = slot
    unfold Slot.cluster
    rw [Memory.readLE_writeLE_of_apart _ _ (by decide),
      Memory.readLE_writeLE_of_apart _ _ (by decide),
      Memory.readLE_writeLE_of_apart _ _ (by decide),
      Memory.readLE_writeLE_of_apart _ _ (by decide),
      Memory.readLE_writeLE_of_apart _ _ (by decide),
      Memory.readLE_writeLE_of_apart _ _ (by decide),
      Memory.readLE_writeLE_of_apart _ _ (by decide),
      Memory.readLE_writeLE_of_apart _ _ (by decide)]
  · exact touched

/-- The entry of a file that was modified has its size. -/
theorem File.touchEntry_size (file : File) (sfn : Slot) (small : file.size < 2 ^ 32) :
    (file.touchEntry sfn).size = if file.flags.modified then file.size else sfn.size := by
  unfold File.touchEntry
  obtain ⟨date, time⟩ := encodeTimestamp
  dsimp only
  split
  · unfold Slot.size
    rw [Memory.readLE_writeLE_of_apart _ _ (by decide),
      Memory.readLE_writeLE_of_apart _ _ (by decide), Memory.readLE_writeLE]
    exact Nat.mod_eq_of_lt small
  · split
    · exact Memory.readLE_writeLE_of_apart _ _ (by decide)
    · rfl

/-! ## Saving -/

/-- A file after it was saved. -/
structure OpenFile.Saves (g : Geometry) (chain : List Nat) (f : CellFile Byte) (s t : OpenFile) :
    Prop where
  shows : t.Shows g chain f
  settled : t.volume.fat.bufDirty = false
  entry : ∀ c, g.InFat c → t.volume.entry c = s.volume.entry c
  data : Set.EqOn t.volume.view s.savedView g.dataArea
  identity : t.file.identity = s.file.identity

/-- The file's buffer is written to its sector. -/
theorem writeBuf_shows (shown : s.Shows g chain f) :
    ∃ w, (onVolume (diskWrite s.file.buf s.file.sect)).run s = (.ok (), s.withVolume w) ∧
      (s.withVolume w).Shows g chain f ∧ w.view = s.seen ∧
      ∀ c, g.InFat c → w.entry c = s.volume.entry c := by
  have stands := shown.stands
  have healthy := stands.healthy
  have member := List.mem_of_getElem? stands.clust
  have data := healthy.fit.layout.clustArea_subset (stands.isClust member) stands.sect_mem
  have apart : s.volume.fat.sect ≠ s.file.sect := fun equal =>
    stands.apart _ member (equal ▸ stands.sect_mem)
  obtain ⟨w, wrote⟩ : ∃ w : Volume, w = { s.volume with disk := { s.volume.disk with
    sectors := Function.update s.volume.disk.sectors s.file.sect s.file.buf
    count := s.volume.disk.count + 1 } } := ⟨_, rfl⟩
  have view : w.view = s.seen := wrote ▸ Volume.view_written apart s.file.buf _
  have fat : w.fat = s.volume.fat := by rw [wrote]
  have sound : w.disk.Sound := by
    rw [wrote]
    exact healthy.sound.later rfl (Nat.le_succ _)
  have kept : w.disk.sectors s.volume.fat.sect = s.volume.disk.sectors s.volume.fat.sect := by
    rw [wrote]
    exact Function.update_of_ne apart _ _
  obtain ⟨healthy', -, entry⟩ := healthy.write fat sound kept fun sect outside => by
    rw [view]
    refine Function.update_of_ne ?_ _ _
    rintro rfl
    exact outside data
  have link : ∀ c ∈ chain, w.link c = s.volume.link c := fun c inChain => by
    rw [Volume.link, entry c (stands.isClust inChain).inFat, Volume.link]
  have seen : (s.withVolume w).seen = s.seen := by
    change Function.update w.view s.file.sect s.file.buf = s.seen
    rw [view]
    unfold OpenFile.seen OpenFile.seenAt
    exact Function.update_idem _ _ _
  refine ⟨w, ?_, ⟨⟨⟨healthy', ?_, stands.nodup, ?_, stands.clust⟩, stands.mounted, stands.first,
    stands.sect, fun _ => ?_⟩, shown.place, shown.size, fun i b known => ?_⟩, view, entry⟩
  · rw [onVolume, run_zoom, diskWrite_sound healthy.sound, wrote]
  · exact stands.isChain.congr (congrArg Fat.geometry fat) link
  · change ∀ c ∈ chain, w.fat.sect ∉ g.clustArea c
    rw [fat]
    exact stands.apart
  · change s.file.buf = w.view s.file.sect
    rw [view]
    unfold OpenFile.seen OpenFile.seenAt
    rw [Function.update_self]
  · unfold OpenFile.byteAt
    rw [seen]
    exact shown.cells i b known

/-- The file's entry is brought up to date in the volume's buffer. -/
theorem syncEntry_saves (shown : s.Shows g chain f) (recorded : s.Recorded g chain)
    (written : s.volume.view = s.seen) :
    ∃ w, syncEntry.run s = (.ok (), s.withVolume w) ∧ (s.withVolume w).Shows g chain f ∧
      Set.EqOn w.view s.savedView g.dataArea ∧
      (∀ c, g.InFat c → w.entry c = s.volume.entry c) ∧
      (∀ c ∈ chain, w.fat.sect ∉ g.clustArea c) := by
  have stands := shown.stands
  have healthy := stands.healthy
  have geometry := healthy.fit.geometry
  have layout := healthy.fit.layout
  have data := recorded.data layout
  unfold syncEntry OpenFile.savedView
  rw [run_gets_bind]
  by_cases touched : s.file.flags.accessed ∨ s.file.flags.modified
  · rw [if_pos touched, if_pos touched]
    have ready : s.volume.Ready g.area := geometry ▸ healthy.ready
    obtain ⟨u, moved, ready', agrees, here, -⟩ := updateBuf_spec ready s.file.dirSect
    obtain ⟨w, edited, ready'', plain, view, here', -⟩ :=
      @editBuf_run g.area u (Sector.putSlot s.file.dirIdx s.file.touchEntry)
    have first : (onVolume (updateBuf s.file.dirSect)).run s = (.ok (), s.withVolume u) := by
      rw [onVolume, run_zoom, moved]
    have second : (onVolume (editBuf (Sector.putSlot s.file.dirIdx s.file.touchEntry))).run
        (s.withVolume u) = (.ok (), s.withVolume w) := by
      have volume : (s.withVolume u).volume = u := rfl
      rw [onVolume, run_zoom, volume, edited]
      rfl
    have held : u.fat.buf = s.volume.view s.file.dirSect := by
      rw [← agrees.view (Geometry.dataArea_subset data), ← here, Volume.view_buffered]
    rw [here, held] at view
    have other : ∀ sect ∈ g.area, sect ≠ s.file.dirSect → w.view sect = s.volume.view sect :=
      fun sect inside differ => by
        rw [view, Function.update_of_ne differ, agrees.view inside]
    obtain ⟨healthy', -, entry⟩ := healthy.edited (plain.trans agrees.unbuffered)
      (ready'' ready'.sound) fun sect inside => by
        refine other sect (Geometry.fatArea_subset inside) ?_
        rintro rfl
        exact layout.data_notMem data (.inl (.inl inside))
    have apart := recorded.apart layout fun c member => stands.isClust member
    have apart' : ∀ c ∈ chain, w.fat.sect ∉ g.clustArea c := fun c member => by
      rw [here', here]
      exact apart c member
    refine ⟨w, (run_bind_ok first).trans second, shown.withVolume healthy' entry apart' ?_, ?_,
      entry, apart'⟩
    · intro c member sect inside
      refine other sect (Geometry.dataArea_subset
        (layout.clustArea_subset (stands.isClust member) inside)) ?_
      rintro rfl
      exact apart c member inside
    · intro sect inside
      rw [view, ← written, Function.update_apply, Function.update_apply,
        agrees.view (Geometry.dataArea_subset inside)]
  · rw [if_neg touched, if_neg touched]
    exact ⟨s.volume, rfl, shown, fun _ _ => congrFun written _, fun _ _ => rfl, stands.apart⟩

/-- The volume's buffer is written, and the volume's counts. -/
theorem syncFs_saves (shown : s.Shows g chain f) :
    ∃ w, (onVolume syncFs).run s = (.ok (), s.withVolume w) ∧ (s.withVolume w).Shows g chain f ∧
      w.fat.bufDirty = false ∧ Set.EqOn w.view s.volume.view g.dataArea ∧
      ∀ c, g.InFat c → w.entry c = s.volume.entry c := by
  have stands := shown.stands
  have healthy := stands.healthy
  have geometry := healthy.fit.geometry
  have layout := healthy.fit.layout
  obtain ⟨w, ran, same, rewrites, clean, sect⟩ := syncFs_settles healthy.layout healthy.ready
  have data := rewrites.data
  rw [geometry] at data sect
  have entry : ∀ c, g.InFat c → w.entry c = s.volume.entry c := fun c inFat =>
    rewrites.entry c (geometry ▸ inFat)
  refine ⟨w, by rw [onVolume, run_zoom, ran], ?_, clean, data, entry⟩
  refine shown.withVolume (healthy.sameSearch ⟨rewrites, same.lastUsed⟩) entry ?_ ?_
  · intro c member inside
    rcases sect with equal | equal
    · exact stands.apart c member (equal ▸ inside)
    · exact layout.data_notMem (layout.clustArea_subset (stands.isClust member) inside)
        (equal ▸ .inr rfl)
  · exact fun c member => data.mono (layout.clustArea_subset (stands.isClust member))

/-- **Saving.** `fat_file_sync` leaves a volume whose buffer is on the disk, with the bytes of the
file in its sectors and an entry that is up to date. -/
theorem fatFileSync_saves (shown : s.Shows g chain f) (recorded : s.Recorded g chain) :
    ∃ t, fatFileSync.run s = (.ok (), t) ∧ s.Saves g chain f t := by
  have stands := shown.stands
  have layout := stands.healthy.fit.layout
  have member := List.mem_of_getElem? stands.clust
  obtain ⟨v, wrote, shown', view, entry⟩ := writeBuf_shows shown
  have seen : (s.withVolume v).seen = s.seen := by
    change Function.update v.view s.file.sect s.file.buf = s.seen
    rw [view]
    unfold OpenFile.seen OpenFile.seenAt
    exact Function.update_idem _ _ _
  -- The entry is in no sector of the file, so it is seen as it was.
  have entrySeen : v.view s.file.dirSect = s.volume.view s.file.dirSect := by
    rw [view]
    refine Function.update_of_ne (fun equal => ?_) _ _
    refine recorded.apart layout (fun c inChain => stands.isClust inChain) _ member ?_
    rw [equal]
    exact stands.sect_mem
  have recorded' : (s.withVolume v).Recorded g chain := by
    obtain ⟨⟨c, isClust, outside, used, inside⟩, cluster, size⟩ := recorded
    refine ⟨⟨c, isClust, outside, ?_, inside⟩, ?_, ?_⟩
    · change v.link c ≠ 0
      rw [Volume.link, entry c isClust.inFat]
      exact used
    · change ((v.view s.file.dirSect).slot _).cluster = _
      rw [entrySeen]
      exact cluster
    · change _ → ((v.view s.file.dirSect).slot _).size = _
      rw [entrySeen]
      exact size
  obtain ⟨w, synced, shown'', data, entry', -⟩ :=
    syncEntry_saves shown' recorded' (view.trans seen.symm)
  obtain ⟨x, settled, shown3, clean, data', entry''⟩ := syncFs_saves shown''
  have same : (s.withVolume v).savedView = s.savedView := by
    unfold OpenFile.savedView
    rw [seen]
    rfl
  refine ⟨((s.withVolume x).withFile fun file => { file with
    flags := { file.flags with modified := false, accessed := false } }), ?_, ?_⟩
  · unfold fatFileSync
    rw [run_gets_bind, if_neg stands.mounted, run_bind_ok wrote, run_bind_ok synced,
      run_bind_ok settled]
    rfl
  · constructor
    case shows => exact shown3.congr rfl rfl rfl
    case settled => exact clean
    case entry =>
      exact fun c inFat => (entry'' c inFat).trans ((entry' c inFat).trans (entry c inFat))
    case data => exact data'.trans (same ▸ data)
    case identity => rfl

/-! ## Opening again -/

/-- The buffer of a file that is opened is read. -/
theorem moveFile_fills {ssect : Nat} (sound : s.volume.disk.Sound)
    (clean : s.file.flags.fileDirty = false) (moved : s.file.sect ≠ ssect)
    (apart : s.volume.fat.sect ≠ s.file.sect) :
    ∃ w home, (moveFile ssect).run s = (.ok (), { (s.withVolume w).withFile fun file =>
        { file with buf := s.volume.view s.file.sect } with home := home }) ∧
      w.view = s.volume.view ∧ w.fat = s.volume.fat ∧ w.disk.Sound ∧
      w.disk.sectors = s.volume.disk.sectors := by
  have still : (flushFile ssect).run s = (.ok (), s) := by
    unfold flushFile
    rw [run_gets_bind, if_neg (by rw [clean]; decide)]
    rfl
  have looked : (onVolume (diskRead s.file.sect)).run s = (.ok (true,
      s.volume.disk.sectors s.file.sect), s.withVolume { s.volume with disk :=
        { s.volume.disk with count := s.volume.disk.count + 1 } }) := by
    rw [onVolume, run_zoom, diskRead_sound sound]
  refine ⟨{ s.volume with disk := { s.volume.disk with count := s.volume.disk.count + 1 } },
    some s.file.sect, ?_, rfl, rfl, sound.later rfl (Nat.le_succ _), rfl⟩
  unfold moveFile fillFile
  rw [run_gets_bind, if_pos moved, run_bind_ok still, run_gets_bind, run_bind_ok looked,
    Volume.view_of_ne apart]
  rfl

/-- **Opening** an entry gives a file at its beginning, or at its end for appending, whose bytes
are those of the chain that the entry begins. -/
theorem openEntry_stands {fat dirSect dirIdx : Nat} {flags : OpenFlags} {sfn : Slot} {file : File}
    (healthy : v.Healthy g) (isChain : FatChain v chain) (nodup : chain.Nodup)
    (apart : ∀ c ∈ chain, v.fat.sect ∉ g.clustArea c) (first : chain.head? = some sfn.cluster)
    (nowhere : 0xffffffff ∉ g.dataArea) (enough : g.clustCnt ≤ fuel)
    (room : openTurns g flags sfn < chain.length + v.takeable.card) :
    ∃ t more, (openEntry fuel fat dirSect dirIdx flags sfn).run
        { volume := v, file := file, bytes := 0, out := [], home := none } = (.ok (), t) ∧
      t.Stands g (chain ++ more) ∧ v.Grows g chain more t.volume ∧
      t.file.offset = (if flags.append ∧ !flags.trunc then sfn.size else 0) ∧
      t.file.size = (if flags.trunc then 0 else sfn.size) ∧
      (t.file.flags.read = flags.read ∧ t.file.flags.write = flags.write) ∧
      Set.EqOn t.seen v.view g.dataArea := by
  have geometry := healthy.fit.geometry
  have along : (openedFile v file fat dirSect dirIdx flags sfn).Along g chain 0 :=
    ⟨healthy, isChain, nodup, apart, by
      rw [← List.head?_eq_getElem?]
      exact first⟩
  obtain ⟨w, d, more, followed, grows, there, apart', data⟩ :=
    followChain_along enough (openTurns g flags sfn) along (by
      rw [Nat.zero_add]
      exact room)
  rw [Nat.zero_add] at there
  obtain ⟨off, offset⟩ : ∃ off, (if flags.append ∧ !flags.trunc then sfn.size else 0) = off :=
    ⟨_, rfl⟩
  have turns : openTurns g flags sfn = off / g.clustSize := by
    rw [openTurns, offset]
  rw [turns] at there followed
  have new := List.mem_of_getElem? there
  have isClust := grows.isClust new
  have inside : g.sectorOf d off ∈ g.clustArea d := grows.healthy.fit.layout.sectorOf_mem isClust off
  obtain ⟨x, home, moved, view, sameFat, sound, sectors⟩ := @moveFile_fills
    (((openedFile v file fat dirSect dirIdx flags sfn).withVolume w).withFile fun file =>
      { file with clust := d, sect := g.sectorOf d off, offset := off }) 0xffffffff
    grows.healthy.sound rfl (fun equal => nowhere (by
      rw [← equal]
      exact grows.healthy.fit.layout.clustArea_subset isClust inside))
    fun equal => apart' d new (by
      change w.fat.sect = g.sectorOf d off at equal
      rw [equal]
      exact inside)
  have entry : ∀ c, g.InFat c → x.entry c = w.entry c := fun c _ => by
    unfold Volume.entry entryAt
    rw [sameFat, view]
    rfl
  obtain ⟨healthy', takeable, -⟩ := grows.healthy.write sameFat sound
    (congrFun sectors _) fun sect _ => congrFun view sect
  have grows' : v.Grows g chain more x :=
    grows.congr healthy' takeable entry fun sect _ _ => congrFun view sect
  rw [openEntry_run, geometry, turns, offset, run_bind_ok followed, run_modifyFile_bind]
  refine ⟨_, more, moved, ⟨⟨grows'.healthy, grows'.isChain, grows'.nodup, ?_, there⟩,
    Option.some_ne_none fat, ?_, rfl, fun _ => ?_⟩, grows', rfl, rfl, ⟨rfl, rfl⟩, ?_⟩
  · change ∀ c ∈ chain ++ more, x.fat.sect ∉ g.clustArea c
    rw [sameFat]
    exact apart'
  · rw [List.head?_append, first]
    rfl
  · exact (congrFun view _).symm
  · intro sect member
    change Function.update x.view (g.sectorOf d off) (w.view (g.sectorOf d off)) sect = _
    rw [view]
    change Function.update w.view (g.sectorOf d off) (w.view (g.sectorOf d off)) sect = _
    rw [Function.update_eq_self]
    exact data member

/-- **An entry that is opened is a file of bytes.** Once `fat_file_open` has found its entry, the
calls for which there are clusters are answered as a file of cells answers them, which begins
with the bytes of the entry's chain. -/
theorem opened_refines {fat dirSect dirIdx : Nat} {flags : OpenFlags} {sfn : Slot} {file : File}
    (healthy : v.Healthy g) (isChain : FatChain v chain) (nodup : chain.Nodup)
    (apart : ∀ c ∈ chain, v.fat.sect ∉ g.clustArea c) (first : chain.head? = some sfn.cluster)
    (nowhere : 0xffffffff ∉ g.dataArea) (enough : g.clustCnt ≤ fuel)
    (allowed : flags.read = true ∧ flags.write = true)
    (room : cap ≤ chain.length + v.takeable.card)
    (place : f.place = if flags.append ∧ !flags.trunc then sfn.size else 0)
    (size : f.size = if flags.trunc then 0 else sfn.size) (begins : f.place / g.clustSize < cap)
    (cells : ∀ i, ∀ b ∈ f.cells i, i < chain.length * g.clustSize ∧ fileByte v chain i = b)
    {calls : List FileCall} (fits : FitsAll FileCall.perform (FileCall.Within g cap fuel) f calls) :
    ∃ s answers t all, (openEntry fuel fat dirSect dirIdx flags sfn).run
        { volume := v, file := file, bytes := 0, out := [], home := none } = (.ok (), s) ∧
      (each (FileCall.serve fuel) calls).run s = (.ok answers, t) ∧
      List.Forall₂ FileCall.Tells (serveAll FileCall.perform f calls).1 answers ∧
      t.Shows g all (serveAll FileCall.perform f calls).2 := by
  have small : f.size < 2 ^ 32 := by
    rw [size]
    split
    · decide
    · exact Memory.readLE_lt sfn 28 4
  have turns : openTurns g flags sfn < chain.length + v.takeable.card := by
    rw [openTurns, ← place]
    exact begins.trans_le room
  obtain ⟨s, more, opens, stands, grows, offset, size', flags', seen⟩ :=
    @openEntry_stands g v chain fuel fat dirSect dirIdx flags sfn file healthy isChain nodup apart
      first nowhere enough turns
  have shown : s.Shows g (chain ++ more) f := by
    refine ⟨stands, place.trans offset.symm, size.trans size'.symm, fun i b known => ?_⟩
    obtain ⟨less, byte⟩ := cells i b known
    have inside := div_lt_of_lt_mul less
    have member := grows.isClust (List.mem_append_left more (List.getElem_mem inside))
    have sector : g.place chain i ∈ g.dataArea := by
      unfold Geometry.place
      rw [List.getD_eq_getElem _ _ inside]
      exact healthy.fit.layout.clustArea_subset member (healthy.fit.layout.sectorOf_mem member i)
    refine ⟨less.trans_le (Nat.mul_le_mul_right _ (by simp)), ?_⟩
    rw [← byte]
    unfold OpenFile.byteAt fileByte
    rw [Geometry.place_append inside, seen sector, healthy.fit.geometry]
    rfl
  have serves : s.Serves g (chain ++ more) cap f := by
    refine ⟨shown, small, ?_, ?_⟩
    · rw [flags'.1, flags'.2]
      exact allowed
    · have takeable := grows.takeable
      unfold OpenFile.Room
      rw [List.length_append]
      omega
  obtain ⟨answers, t, later, ran, tells, becomes⟩ := each_becomes serves enough fits
  exact ⟨s, answers, t, _, opens, ran, tells, becomes.shows⟩

/-- Three bytes are read from the file of an entry. -/
theorem opened_refines_filed : ∃ s answers t all, (openEntry 65525 0 1057 0 sampleFlags
      sampleEntry).run (unopened filedVolume) = (.ok (), s) ∧
    (each (FileCall.serve 65525) [.write [1, 2, 3] 3, .seek (-2) .curr, .read 5]).run s =
      (.ok answers, t) ∧
    List.Forall₂ FileCall.Tells [(3, []), (0, []), (2, [some 2, some 3])] answers ∧
    t.Shows sampleGeometry all (serveAll FileCall.perform noCells
      [.write [1, 2, 3] 3, .seek (-2) .curr, .read 5]).2 :=
  @opened_refines sampleGeometry filedVolume [2] 65525 3 noCells 0 1057 0 sampleFlags sampleEntry
    (unopened filedVolume).file filedVolume_healthy (filedVolume_chain (.inl rfl))
    (List.nodup_singleton 2) (fun c member inside => by
      obtain rfl := List.mem_singleton.mp member
      exact absurd inside.1 (by decide)) rfl (fun inside => absurd inside.2 (by decide)) le_rfl
    ⟨rfl, rfl⟩ filedVolume_room rfl rfl (by decide) nofun
    [.write [1, 2, 3] 3, .seek (-2) .curr, .read 5] (by decide)

/-- A volume that is mounted on the disk of another one. Its buffer is at no sector of a chain. -/
structure Volume.Resumes (g : Geometry) (chain : List Nat) (v w : Volume) : Prop where
  healthy : w.Healthy g
  clean : w.fat.bufDirty = false
  disk : Set.EqOn w.disk.sectors v.disk.sectors g.area
  apart : ∀ c ∈ chain, w.fat.sect ∉ g.clustArea c

/-- The entry that was saved is that of the file. -/
theorem OpenFile.Recorded.savedSlot (recorded : s.Recorded g chain) (shown : s.Shows g chain f)
    (small : f.size < 2 ^ 32) :
    ((s.savedView s.file.dirSect).slot s.file.dirIdx).cluster = s.file.sclust ∧
      ((s.savedView s.file.dirSect).slot s.file.dirIdx).size = f.size := by
  have seen : s.seen s.file.dirSect = s.volume.view s.file.dirSect := by
    refine Function.update_of_ne (fun equal => ?_) _ _
    have stands := shown.stands
    refine recorded.apart stands.healthy.fit.layout (fun c inChain => stands.isClust inChain) _
      (List.mem_of_getElem? stands.clust) ?_
    rw [equal]
    exact stands.sect_mem
  have size := shown.size
  unfold OpenFile.savedView
  by_cases touched : s.file.flags.accessed ∨ s.file.flags.modified
  · rw [if_pos touched, Function.update_self, seen]
    have same := putSlot_same (s.volume.view s.file.dirSect) s.file.dirIdx s.file.touchEntry
    refine ⟨?_, ?_⟩
    · rw [← recorded.cluster,
        ← s.file.touchEntry_cluster ((s.volume.view s.file.dirSect).slot s.file.dirIdx)]
      unfold Slot.cluster
      rw [same.readLE (by decide), same.readLE (by decide)]
    · have entry := s.file.touchEntry_size ((s.volume.view s.file.dirSect).slot s.file.dirIdx)
        (size ▸ small)
      rw [Slot.size, same.readLE (by decide), ← Slot.size, entry, size]
      by_cases modified : s.file.flags.modified = true
      · rw [if_pos modified]
      · rw [if_neg modified]
        exact recorded.size (by simpa using modified)
  · rw [if_neg touched, seen, size]
    exact ⟨recorded.cluster, recorded.size (by
      have unmodified := fun modified => touched (.inr modified)
      simpa using unmodified)⟩

namespace OpenFile.Saves

variable (saves : s.Saves g chain f t)
include saves

/-- The volume itself goes on. -/
theorem resumes : t.volume.Resumes g chain t.volume :=
  ⟨saves.shows.stands.healthy, saves.settled, Set.eqOn_refl _ _, saves.shows.stands.apart⟩

/-- The mounted volume shows what was saved. -/
theorem view (resumes : t.volume.Resumes g chain w) : Set.EqOn w.view s.savedView g.dataArea := by
  have healthy := saves.shows.stands.healthy
  have same : Set.EqOn w.view t.volume.view g.area :=
    ((resumes.healthy.disk resumes.clean).symm.trans resumes.disk).trans
      (healthy.disk saves.settled)
  exact (same.mono Geometry.dataArea_subset).trans saves.data

/-- The mounted volume has the chain. -/
theorem isChain (resumes : t.volume.Resumes g chain w) : FatChain w chain := by
  have stands := saves.shows.stands
  have same : Set.EqOn w.view t.volume.view g.area :=
    ((resumes.healthy.disk resumes.clean).symm.trans resumes.disk).trans
      (stands.healthy.disk saves.settled)
  have geometry : w.fat.geometry = t.volume.fat.geometry :=
    resumes.healthy.fit.geometry.trans stands.healthy.fit.geometry.symm
  refine stands.isChain.congr geometry fun c member => ?_
  have inFat := (stands.isClust member).inFat
  have inside : g.fatSect + c / 128 ∈ g.area :=
    .inl (.inl (.inl (Geometry.mem_fatArea inFat)))
  unfold Volume.link Volume.entry entryAt
  rw [geometry, stands.healthy.fit.geometry, same inside]

/-- **A file that was saved is opened again** on any volume that is mounted on the disk, and shows
the same file of cells. -/
theorem reopens (recorded : s.Recorded g chain) (shown : s.Shows g chain f)
    (small : f.size < 2 ^ 32) (resumes : t.volume.Resumes g chain w)
    (nowhere : 0xffffffff ∉ g.dataArea) (enough : g.clustCnt ≤ fuel) {fat : Nat}
    {flags : OpenFlags} {file : File} (keeps : flags.trunc = false) {place : Nat}
    (begins : place = if flags.append then f.size else 0)
    (room : place / g.clustSize < chain.length + w.takeable.card) :
    ∃ r more, (openEntry fuel fat s.file.dirSect s.file.dirIdx flags
        ((w.view s.file.dirSect).slot s.file.dirIdx)).run
          { volume := w, file := file, bytes := 0, out := [], home := none } = (.ok (), r) ∧
      r.Shows g (chain ++ more) (f.moved place) := by
  have stands := shown.stands
  have layout := stands.healthy.fit.layout
  have entry : w.view s.file.dirSect = s.savedView s.file.dirSect :=
    saves.view resumes (recorded.data layout)
  obtain ⟨cluster, size⟩ := recorded.savedSlot shown small
  rw [entry]
  have offset : (if flags.append ∧ !flags.trunc then
      ((s.savedView s.file.dirSect).slot s.file.dirIdx).size else 0) = place := by
    rw [size, begins, keeps]
    simp
  obtain ⟨r, more, opens, stands', grows, offset', size', -, seen⟩ :=
    @openEntry_stands g w chain fuel fat s.file.dirSect s.file.dirIdx flags
      ((s.savedView s.file.dirSect).slot s.file.dirIdx) file resumes.healthy (saves.isChain resumes)
      stands.nodup resumes.apart (by rw [stands.first, cluster]) nowhere enough (by
        rw [openTurns, offset]
        exact room)
  refine ⟨r, more, opens, stands', ?_, ?_, fun i b known => ?_⟩
  · exact (offset'.trans offset).symm
  · rw [size', keeps]
    exact size.symm
  · obtain ⟨less, byte⟩ := shown.cells i b known
    have inside := div_lt_of_lt_mul less
    have member := stands.place_mem inside
    refine ⟨less.trans_le (Nat.mul_le_mul_right _ (by simp)), ?_⟩
    have other : g.place chain i ≠ s.file.dirSect := by
      intro equal
      have inArea : g.place chain i ∈ g.clustArea chain[i / g.clustSize] := by
        unfold Geometry.place
        rw [List.getD_eq_getElem _ _ inside]
        exact layout.sectorOf_mem (stands.isClust (List.getElem_mem inside)) i
      refine recorded.apart layout (fun c inChain => stands.isClust inChain) _
        (List.getElem_mem inside) ?_
      rw [← equal]
      exact inArea
    have saved : s.savedView (g.place chain i) = s.seen (g.place chain i) := by
      unfold OpenFile.savedView
      split
      · exact Function.update_of_ne other _ _
      · rfl
    rw [← byte]
    unfold OpenFile.byteAt
    rw [Geometry.place_append inside, seen member, saves.view resumes member, saved]

end OpenFile.Saves

theorem filed_recorded : filed.Recorded sampleGeometry [2] where
  owner := by
    have third : sampleGeometry.IsClust 3 := ⟨by decide, by decide⟩
    have entry := (filed_healthy.1.write (w := filedVolume) rfl (fun _ _ => rfl) rfl
      fun _ _ => rfl).2.2 3 third.inFat
    refine ⟨3, third, by simp, ?_, by decide, by decide⟩
    rw [Volume.link, ← entry]
    change filedVolume.link 3 ≠ 0
    rw [filedVolume_link third]
    decide
  cluster := rfl
  size := fun _ => rfl

end NTux.Fat32
