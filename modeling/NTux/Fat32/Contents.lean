import NTux.Fat32.Growth
import NTux.Fat32.Reading
import NTux.Foundation.CellFile

/-! # The contents of an open file

The buffer of an open file stands in front of its sector, as the volume's buffer does
(`OpenFile.seen`). `fat_file_seek` moves the buffer and stretches the chain where it goes behind
the end, and the bytes that are seen through the file are the same behind it
(`fatFileSeek_stands`).
-/

namespace NTux.Fat32

open NTux.Foundation Command

variable {g : Geometry} {v w : Volume} {chain more : List Nat} {c d k fuel : Nat}
  {s t u : OpenFile}

/-! ## The bytes of an open file -/

/-- The sector of an offset. -/
def Geometry.place (g : Geometry) (chain : List Nat) (off : Nat) : Nat :=
  g.sectorOf (chain.getD (off / g.clustSize) 0) off

/-- A file whose buffer has been moved or written. -/
def File.refilled (buf : Sector) (dirty : Bool) (file : File) : File :=
  { file with buf := buf, flags := { file.flags with fileDirty := dirty } }

namespace OpenFile

/-- The sectors as they are seen through the file, whose buffer belongs to a sector. -/
def seenAt (sect : Nat) (s : OpenFile) : Nat → Sector :=
  Function.update s.volume.view sect s.file.buf

/-- The sectors as they are seen through the file. -/
def seen (s : OpenFile) : Nat → Sector := s.seenAt s.file.sect

/-- The byte at an offset of a file. -/
def byteAt (g : Geometry) (chain : List Nat) (s : OpenFile) (off : Nat) : Byte :=
  s.seen (g.place chain off) (off % 512)

/-- A file whose cluster is at a place of its chain, on a volume without faults. The volume's
buffer is at no sector of the chain. -/
structure Along (g : Geometry) (chain : List Nat) (k : Nat) (s : OpenFile) : Prop where
  healthy : s.volume.Healthy g
  isChain : FatChain s.volume chain
  nodup : chain.Nodup
  apart : ∀ c ∈ chain, s.volume.fat.sect ∉ g.clustArea c
  clust : chain[k]? = some s.file.clust

/-- A file that is open at its offset. -/
structure Stands (g : Geometry) (chain : List Nat) (s : OpenFile) : Prop extends
    s.Along g chain (s.file.offset / g.clustSize) where
  mounted : s.file.fat ≠ none
  first : chain.head? = some s.file.sclust
  sect : s.file.sect = g.sectorOf s.file.clust s.file.offset
  clean : s.file.flags.fileDirty = false → s.file.buf = s.volume.view s.file.sect

end OpenFile

/-- A cluster is not empty. -/
theorem Volume.Healthy.clustSize (healthy : v.Healthy g) : g.clustSize = 512 * 2 ^ g.clustShift :=
  Geometry.clustSize_eq healthy.fit.shift

theorem Volume.Healthy.clustSize_pos (healthy : v.Healthy g) : 0 < g.clustSize := by
  have positive : 0 < 2 ^ g.clustShift := Nat.two_pow_pos _
  rw [healthy.clustSize]
  omega

namespace OpenFile.Along

theorem isClust (along : s.Along g chain k) (member : c ∈ chain) : g.IsClust c :=
  along.healthy.fit.geometry ▸ along.isChain.clusters c member

theorem mem_clustArea (along : s.Along g chain k) (here : chain[k]? = some c) (off : Nat) :
    g.sectorOf c off ∈ g.clustArea c :=
  along.healthy.fit.layout.sectorOf_mem (along.isClust (List.mem_of_getElem? here)) off

end OpenFile.Along

/-- Two offsets in one sector are in one cluster and less than a sector apart. -/
theorem Geometry.place_inj (layout : g.Layout) (shift : g.clustShift ≤ 7)
    (clusters : ∀ c ∈ chain, g.IsClust c) (nodup : chain.Nodup) {i j : Nat}
    (inside : i / g.clustSize < chain.length) (inside' : j / g.clustSize < chain.length)
    (same : g.place chain i = g.place chain j) : i / 512 = j / 512 := by
  unfold Geometry.place at same
  rw [List.getD_eq_getElem _ _ inside, List.getD_eq_getElem _ _ inside'] at same
  have isClust := clusters _ (List.getElem_mem inside)
  have isClust' := clusters _ (List.getElem_mem inside')
  have equal : chain[i / g.clustSize] = chain[j / g.clustSize] := by
    by_contra differ
    refine Set.disjoint_left.mp (layout.clustArea_disjoint isClust isClust' differ)
      (layout.sectorOf_mem isClust i) ?_
    rw [same]
    exact layout.sectorOf_mem isClust' j
  have index := (List.Nodup.getElem_inj_iff nodup).mp equal
  rw [layout.sectorOf isClust, layout.sectorOf isClust', equal, Nat.add_left_cancel_iff] at same
  rw [Geometry.div_clustSize shift, Geometry.div_clustSize shift] at index
  rw [← Nat.div_add_mod (i / 512) (2 ^ g.clustShift), index, same, Nat.div_add_mod]

/-! ## Moving the buffer -/

/-- The sectors of the data area are written, and nothing else of the volume is changed. -/
theorem Volume.Healthy.write (healthy : v.Healthy g) (fat : w.fat = v.fat)
    (sound : w.disk.Sound) (apart : w.disk.sectors v.fat.sect = v.disk.sectors v.fat.sect)
    (view : ∀ s, s ∉ g.dataArea → w.view s = v.view s) :
    w.Healthy g ∧ w.takeable = v.takeable ∧ ∀ c, g.InFat c → w.entry c = v.entry c := by
  have geometry := healthy.fit.geometry
  have entry : ∀ c, g.InFat c → w.entry c = v.entry c := fun c inFat => by
    have outside : g.fatSect + c / 128 ∉ g.dataArea := fun member =>
      Set.disjoint_left.mp healthy.fit.layout.data member (.inl (.inl (Geometry.mem_fatArea inFat)))
    unfold Volume.entry entryAt
    rw [fat, geometry, view _ outside]
  have link : ∀ c, g.InFat c → w.link c = v.link c := fun c inFat => by
    rw [Volume.link, entry c inFat, Volume.link]
  refine ⟨⟨⟨fat ▸ geometry, healthy.fit.layout, healthy.fit.small, healthy.fit.shift,
    fat ▸ healthy.fit.begins, ?_⟩, sound, fat ▸ healthy.small, fun c isClust => ?_⟩, ?_, entry⟩
  · rw [fat, apart]
    exact healthy.fit.coherent
  · rw [link c isClust.inFat]
    exact healthy.valid c isClust
  · have free : w.freeClusts = v.freeClusts := freeClusts_congr (congrArg Fat.geometry fat)
      fun c isClust => link c (geometry ▸ isClust).inFat
    rw [Volume.takeable, Volume.takeable, free, fat]

/-- A sector that is not buffered is written. -/
theorem Volume.view_written {sect : Nat} (apart : v.fat.sect ≠ sect) (buf : Sector) (count : Nat) :
    Volume.view { v with disk := { v.disk with
      sectors := Function.update v.disk.sectors sect buf, count := count } } =
        Function.update v.view sect buf := by
  funext other
  change (if v.fat.sect = other then v.fat.buf else
    Function.update v.disk.sectors sect buf other) = Function.update v.view sect buf other
  by_cases here : other = sect
  · rw [here, if_neg apart, Function.update_self, Function.update_self]
  · rw [Function.update_of_ne here, Function.update_of_ne here]
    rfl

/-- What moving the buffer from a sector does: the same is seen, and the file's buffer is that of
its sector. -/
structure OpenFile.Refills (g : Geometry) (ssect : Nat) (s t : OpenFile) : Prop where
  healthy : t.volume.Healthy g
  takeable : t.volume.takeable = s.volume.takeable
  entry : ∀ c, g.InFat c → t.volume.entry c = s.volume.entry c
  fat : t.volume.fat = s.volume.fat
  file : t.file = s.file.refilled t.file.buf t.file.flags.fileDirty
  seen : t.seen = s.seenAt ssect
  outside : ∀ sect ≠ ssect, t.volume.view sect = s.volume.view sect
  clean : t.file.flags.fileDirty = false → t.file.buf = t.volume.view t.file.sect
  caller : t.bytes = s.bytes ∧ t.out = s.out

/-- The buffer is written to the sector where the file was, if it is dirty. -/
theorem flushFile_refills {ssect : Nat} (healthy : s.volume.Healthy g) (data : ssect ∈ g.dataArea)
    (apart : s.volume.fat.sect ≠ ssect)
    (clean : s.file.flags.fileDirty = false → s.file.buf = s.volume.view ssect) :
    ∃ t, (flushFile ssect).run s = (.ok (), t) ∧ t.volume.Healthy g ∧
      t.volume.takeable = s.volume.takeable ∧
      (∀ c, g.InFat c → t.volume.entry c = s.volume.entry c) ∧ t.volume.fat = s.volume.fat ∧
      t.file = s.file.refilled s.file.buf false ∧
      t.volume.view = s.seenAt ssect ∧ t.bytes = s.bytes ∧ t.out = s.out := by
  unfold flushFile
  rw [run_gets_bind]
  by_cases dirty : s.file.flags.fileDirty = true
  · rw [if_pos dirty]
    have wrote : (onVolume (diskWrite s.file.buf ssect)).run s = (.ok (), s.withVolume
        { s.volume with disk := { s.volume.disk with
            sectors := Function.update s.volume.disk.sectors ssect s.file.buf
            count := s.volume.disk.count + 1 } }) := by
      rw [onVolume, run_zoom, diskWrite_sound healthy.sound]
    rw [run_bind_ok wrote]
    have view := Volume.view_written apart s.file.buf (s.volume.disk.count + 1)
    obtain ⟨healthy', takeable, entry⟩ := @Volume.Healthy.write g s.volume
      { s.volume with disk := { s.volume.disk with
        sectors := Function.update s.volume.disk.sectors ssect s.file.buf
        count := s.volume.disk.count + 1 } } healthy rfl
      (healthy.sound.later rfl (Nat.le_succ _)) (Function.update_of_ne apart _ _) fun sect other => by
        rw [view]
        refine Function.update_of_ne ?_ _ _
        rintro rfl
        exact other data
    exact ⟨_, rfl, healthy', takeable, entry, rfl, rfl, view, rfl, rfl⟩
  · rw [if_neg dirty]
    have isClean : s.file.flags.fileDirty = false := by simpa using dirty
    refine ⟨s, rfl, healthy, rfl, fun _ _ => rfl, rfl, ?_, ?_, rfl, rfl⟩
    · rw [← isClean]
      rfl
    · unfold OpenFile.seenAt
      rw [clean isClean, Function.update_eq_self]

/-- **The buffer follows the file** to another sector, and the same is seen. -/
theorem moveFile_refills {ssect : Nat} (healthy : s.volume.Healthy g) (data : ssect ∈ g.dataArea)
    (apart : s.volume.fat.sect ≠ ssect) (apart' : s.volume.fat.sect ≠ s.file.sect)
    (clean : s.file.flags.fileDirty = false → s.file.buf = s.volume.view ssect) :
    ∃ t, (moveFile ssect).run s = (.ok (), t) ∧ s.Refills g ssect t := by
  unfold moveFile
  rw [run_gets_bind]
  by_cases moved : s.file.sect ≠ ssect
  · rw [if_pos moved]
    obtain ⟨u, flushed, healthy', takeable, entry, fat, file, view, bytes, out⟩ :=
      flushFile_refills healthy data apart clean
    rw [run_bind_ok flushed]
    have sect : u.file.sect = s.file.sect := by
      rw [file]
      rfl
    have looked : (onVolume (diskRead u.file.sect)).run u = (.ok (true,
        u.volume.disk.sectors u.file.sect), u.withVolume { u.volume with disk :=
          { u.volume.disk with count := u.volume.disk.count + 1 } }) := by
      rw [onVolume, run_zoom, diskRead_sound healthy'.sound]
    have buf : u.volume.disk.sectors u.file.sect = u.volume.view u.file.sect := by
      refine (Volume.view_of_ne ?_).symm
      rw [fat, sect]
      exact apart'
    obtain ⟨healthy'', takeable', entry'⟩ := @Volume.Healthy.write g u.volume
      { u.volume with disk := { u.volume.disk with count := u.volume.disk.count + 1 } } healthy' rfl
      (healthy'.sound.later rfl (Nat.le_succ _)) rfl fun _ _ => rfl
    rw [buf] at looked
    refine ⟨{ (u.withVolume { u.volume with disk :=
        { u.volume.disk with count := u.volume.disk.count + 1 } }).withFile fun file =>
          { file with buf := u.volume.view u.file.sect } with home := some u.file.sect }, ?_, ?_⟩
    · unfold fillFile
      rw [run_gets_bind, run_bind_ok looked]
      rfl
    · constructor
      case healthy => exact healthy''
      case takeable => exact takeable'.trans takeable
      case entry => exact fun c inFat => (entry' c inFat).trans (entry c inFat)
      case fat => exact fat
      case file =>
        change { u.file with buf := u.volume.view u.file.sect } =
          s.file.refilled (u.volume.view u.file.sect) u.file.flags.fileDirty
        generalize u.volume.view u.file.sect = buf
        rw [file]
        rfl
      case seen =>
        change Function.update u.volume.view u.file.sect (u.volume.view u.file.sect) = _
        rw [Function.update_eq_self, view]
      case outside =>
        intro sect other
        change u.volume.view sect = s.volume.view sect
        rw [view]
        exact Function.update_of_ne other _ _
      case clean => exact fun _ => rfl
      case caller => exact ⟨bytes, out⟩
  · rw [if_neg moved]
    have here := not_not.mp moved
    refine ⟨s, rfl, healthy, rfl, fun _ _ => rfl, rfl, rfl, ?_, fun _ _ => rfl, ?_, rfl, rfl⟩
    · rw [OpenFile.seen, here]
    · rw [here]
      exact clean

/-! ## Following the chain -/

/-- Reading an entry moves the volume's buffer away from the chain. -/
theorem getFat_along (along : s.Along g chain k) (isClust : g.IsClust c) :
    ∃ w, (getFat c).run s.volume =
        (match clustFlags g.clustCnt (s.volume.link c) with
          | some flags => .ok (s.volume.link c, flags)
          | none => .error (.code errBroken), w) ∧
      s.volume.Grows g chain [] w ∧ (∀ c ∈ chain, w.fat.sect ∉ g.clustArea c) ∧
      Set.EqOn w.view s.volume.view g.dataArea ∧ w.takeable = s.volume.takeable ∧
      w.link c = s.volume.link c := by
  have geometry := along.healthy.fit.geometry
  have inFat : s.volume.fat.geometry.InFat c := geometry ▸ isClust.inFat
  obtain ⟨w, read, ready, agrees, sect⟩ :=
    getFat_spec along.healthy.layout along.healthy.ready inFat
  have rewrites := agrees.rewrites ready
  have data := agrees.view.mono Geometry.dataArea_subset
  rw [geometry] at read ready agrees data
  obtain ⟨healthy, takeable⟩ := along.healthy.agrees agrees ready
  refine ⟨w, read, ?_, ?_, data, takeable, rewrites.link inFat⟩
  · exact (Volume.Grows.refl along.healthy along.isChain along.nodup).congr healthy takeable
      (fun d inFat' => rewrites.entry d (geometry ▸ inFat')) fun sect member _ => data member
  · intro d member inside
    have isClust' := along.isClust member
    refine along.healthy.fit.layout.data_notMem
      (along.healthy.fit.layout.clustArea_subset isClust' inside) ?_
    rw [sect, geometry]
    exact .inl (.inl (Geometry.mem_fatArea isClust.inFat))

/-- **A link** is followed, or a cluster is taken behind the last one. -/
theorem followLink_along (along : s.Along g chain k)
    (room : k + 1 < chain.length + s.volume.takeable.card) (enough : g.clustCnt ≤ fuel) :
    ∃ w d more, (followLink fuel).run s =
        (.ok (), (s.withVolume w).withFile fun file => { file with clust := d }) ∧
      s.volume.Grows g chain more w ∧ (chain ++ more)[k + 1]? = some d ∧
      (∀ c ∈ chain ++ more, w.fat.sect ∉ g.clustArea c) ∧
      Set.EqOn w.view s.volume.view g.dataArea := by
  have geometry := along.healthy.fit.geometry
  have inside := (List.getElem?_eq_some_iff.mp along.clust).1
  have isClust := along.isClust (List.mem_of_getElem? along.clust)
  obtain ⟨w, read, grows, apart, data, takeable, link⟩ := getFat_along along isClust
  unfold followLink
  rw [run_gets_bind]
  by_cases within : k + 1 < chain.length
  · have there := List.getElem?_eq_getElem within
    obtain ⟨leads, used⟩ := along.isChain.link_at along.clust there
    rw [geometry] at used
    rw [used, leads] at read
    have looked : (onVolume (getFat s.file.clust)).run s =
        (.ok (chain[k + 1], .used), s.withVolume w) := by
      rw [onVolume, run_zoom, read]
    refine ⟨w, chain[k + 1], [], ?_, grows, ?_, ?_, data⟩
    · rw [run_bind_ok looked]
      rfl
    · rw [List.append_nil, there]
    · rwa [List.append_nil]
  · have length : chain.length = k + 1 := by omega
    have last := along.isChain.last_at along.clust length
    rw [geometry] at last
    rw [last] at read
    have looked : (onVolume (getFat s.file.clust)).run s =
        (.ok (s.volume.link s.file.clust, .last), s.withVolume w) := by
      rw [onVolume, run_zoom, read]
    have spare : w.takeable.Nonempty := by
      rw [← Finset.card_pos, takeable]
      omega
    obtain ⟨d, x, stretched, takes⟩ :=
      stretchChain_takeable grows.healthy isClust (link.symm ▸ last) spare enough
    have ends : chain.getLast? = some s.file.clust := by
      rw [List.getLast?_eq_getElem?, length, Nat.add_sub_cancel]
      exact along.clust
    have isChain := grows.isChain
    rw [List.append_nil] at isChain
    have grown := Volume.Grows.of_takes takes isChain along.nodup ends
    have isData : Set.EqOn x.view w.view g.dataArea := takes.geometry ▸ takes.rewrites.data
    refine ⟨x, d, [d], ?_, grows.after grown, ?_, ?_, isData.trans data⟩
    · rw [run_bind_ok looked]
      have took : (onVolume (stretchChain fuel s.file.clust)).run (s.withVolume w) =
          (.ok d, s.withVolume x) := by
        have volume : (s.withVolume w).volume = w := rfl
        rw [onVolume, run_zoom, volume, stretched]
        rfl
      exact run_bind_ok took
    · rw [List.getElem?_append_right (by omega), length, Nat.sub_self]
      rfl
    · intro c member inArea
      exact takes.healthy.fit.layout.data_notMem
        (takes.healthy.fit.layout.clustArea_subset (grown.isClust member) inArea) takes.buffer

/-- **The loop of `fat_file_seek`** goes along the chain and stretches it. -/
theorem followChain_along (enough : g.clustCnt ≤ fuel) (turns : Nat) : ∀ {s : OpenFile}
    {chain : List Nat} {k : Nat}, s.Along g chain k →
    k + turns < chain.length + s.volume.takeable.card →
    ∃ w d more, (followChain fuel turns).run s =
        (.ok (), (s.withVolume w).withFile fun file => { file with clust := d }) ∧
      s.volume.Grows g chain more w ∧ (chain ++ more)[k + turns]? = some d ∧
      (∀ c ∈ chain ++ more, w.fat.sect ∉ g.clustArea c) ∧
      Set.EqOn w.view s.volume.view g.dataArea := by
  induction turns with
  | zero =>
      intro s chain k along _
      refine ⟨s.volume, s.file.clust, [], rfl, .refl along.healthy along.isChain along.nodup, ?_, ?_,
        Set.eqOn_refl _ _⟩
      · rw [List.append_nil]
        exact along.clust
      · rw [List.append_nil]
        exact along.apart
  | succ turns ih =>
      intro s chain k along room
      obtain ⟨w, d, more, link, grows, there, apart, data⟩ :=
        followLink_along along (by omega) enough
      have takeable := grows.takeable
      obtain ⟨x, e, later, rest, grows', there', apart', data'⟩ := @ih
        ((s.withVolume w).withFile fun file => { file with clust := d }) (chain ++ more) (k + 1)
        ⟨grows.healthy, grows.isChain, grows.nodup, apart, there⟩ (by
          rw [List.length_append]
          change k + 1 + turns < chain.length + more.length + w.takeable.card
          omega)
      refine ⟨x, e, more ++ later, ?_, grows.trans grows', ?_, ?_, data'.trans data⟩
      · rw [followChain, run_bind_ok link, rest]
        rfl
      · rw [← List.append_assoc, Nat.add_comm turns 1, ← Nat.add_assoc]
        exact there'
      · rw [← List.append_assoc]
        exact apart'

/-! ## Seeking -/

/-- A file that was moved: its chain may have grown, and the same is seen through it. -/
structure OpenFile.Seeks (g : Geometry) (chain more : List Nat) (off : Nat) (s t : OpenFile) :
    Prop where
  stands : t.Stands g (chain ++ more)
  grows : s.volume.Grows g chain more t.volume
  seen : Set.EqOn t.seen s.seen g.dataArea
  file : t.file = { s.file.refilled t.file.buf t.file.flags.fileDirty with
    clust := t.file.clust, sect := t.file.sect, offset := off }
  caller : t.bytes = s.bytes ∧ t.out = s.out

/-- The sector of a file is one of its chain. -/
theorem OpenFile.Stands.sect_mem (stands : s.Stands g chain) :
    s.file.sect ∈ g.clustArea s.file.clust := by
  rw [stands.sect]
  exact stands.mem_clustArea stands.clust _

/-- The file is at a cluster, and the buffer follows it to the sector of its offset. -/
theorem moveFile_seeks {off : Nat} (stands : s.Stands g chain) {b : OpenFile}
    (base : b.file = s.file ∨ b.file = rewind g s.file) (caller : b.bytes = s.bytes ∧ b.out = s.out)
    (grows : s.volume.Grows g chain more w)
    (there : (chain ++ more)[off / g.clustSize]? = some d)
    (apart : ∀ c ∈ chain ++ more, w.fat.sect ∉ g.clustArea c)
    (data : Set.EqOn w.view s.volume.view g.dataArea) :
    ∃ t, (moveFile s.file.sect).run ((b.withVolume w).withFile fun file =>
        { file with clust := d, sect := g.sectorOf d off, offset := off }) = (.ok (), t) ∧
      s.Seeks g chain more off t := by
  have layout := grows.healthy.fit.layout
  have buf : b.file.buf = s.file.buf ∧ b.file.flags = s.file.flags := by
    rcases base with same | same
    · rw [same]
      exact ⟨rfl, rfl⟩
    · rw [same]
      exact ⟨rfl, rfl⟩
  have old := List.mem_append_left more (List.mem_of_getElem? stands.clust)
  have new := List.mem_of_getElem? there
  have inside : g.sectorOf d off ∈ g.clustArea d := layout.sectorOf_mem (grows.isClust new) off
  have isData := layout.clustArea_subset (grows.isClust old) stands.sect_mem
  obtain ⟨t, moved, refills⟩ := @moveFile_refills g
    ((b.withVolume w).withFile fun file =>
      { file with clust := d, sect := g.sectorOf d off, offset := off })
    s.file.sect grows.healthy isData (fun equal => apart _ old (equal ▸ stands.sect_mem))
    (fun equal => apart _ new (equal ▸ inside)) (by
      intro clean
      change b.file.buf = w.view s.file.sect
      rw [buf.1, data isData]
      exact stands.clean (buf.2 ▸ clean))
  have file : t.file = { s.file.refilled t.file.buf t.file.flags.fileDirty with
      clust := d, sect := g.sectorOf d off, offset := off } := by
    have placed := refills.file
    generalize t.file.buf = buf', t.file.flags.fileDirty = dirty at placed ⊢
    rw [placed]
    change File.refilled buf' dirty { b.file with
      clust := d, sect := g.sectorOf d off, offset := off } = _
    rcases base with same | same
    · rw [same]
      rfl
    · rw [same]
      rfl
  have clust : t.file.clust = d := by rw [file]
  have sect : t.file.sect = g.sectorOf d off := by rw [file]
  have offset : t.file.offset = off := by rw [file]
  have grows' : s.volume.Grows g chain more t.volume :=
    grows.congr refills.healthy refills.takeable refills.entry fun sect member outside =>
      refills.outside sect fun equal => outside _ old (equal ▸ stands.sect_mem)
  refine ⟨t, moved, ⟨⟨⟨grows'.healthy, grows'.isChain, grows'.nodup, ?_, ?_⟩, ?_, ?_, ?_,
    refills.clean⟩, grows', ?_, ?_, ?_⟩⟩
  · rw [refills.fat]
    exact apart
  · rw [offset, clust]
    exact there
  · rw [file]
    exact stands.mounted
  · have first : t.file.sclust = s.file.sclust := by
      rw [file]
      rfl
    rw [first, List.head?_append, stands.first]
    rfl
  · rw [sect, clust, offset]
  · rw [refills.seen]
    intro sector member
    change Function.update w.view s.file.sect b.file.buf sector =
      Function.update s.volume.view s.file.sect s.file.buf sector
    rw [buf.1, Function.update_apply, Function.update_apply, data member]
  · rw [clust, sect]
    exact file
  · exact ⟨refills.caller.1.trans caller.1, refills.caller.2.trans caller.2⟩

/-- **Seeking.** `fat_file_seek` goes to any offset for which there are clusters, those of the
file or free ones, and the bytes that are seen are as before. -/
theorem fatFileSeek_stands (stands : s.Stands g chain) (enough : g.clustCnt ≤ fuel) {offset : Int}
    {origin : Seek} {off : Nat} (target : s.target offset origin = off) (small : off < 2 ^ 32)
    (room : off / g.clustSize < chain.length + s.volume.takeable.card) :
    ∃ t more, (fatFileSeek fuel offset origin).run s = (.ok (), t) ∧ s.Seeks g chain more off t := by
  have geometry := stands.healthy.fit.geometry
  rw [fatFileSeek_run fuel stands.mounted target (by omega), geometry]
  dsimp only
  rw [Int.toNat_natCast]
  by_cases back : off / g.clustSize < s.file.offset / g.clustSize
  · simp only [if_pos back]
    have along : (s.withFile (rewind g)).Along g chain 0 :=
      ⟨stands.healthy, stands.isChain, stands.nodup, stands.apart, by
        rw [← List.head?_eq_getElem?]
        exact stands.first⟩
    obtain ⟨w, d, more, followed, grows, there, apart, data⟩ :=
      followChain_along enough (off / g.clustSize) along (by rwa [Nat.zero_add])
    rw [Nat.zero_add] at there
    obtain ⟨t, moved, seeks⟩ := @moveFile_seeks g w chain more d s off stands
      (s.withFile (rewind g)) (.inr rfl) ⟨rfl, rfl⟩ grows there apart data
    refine ⟨t, more, ?_, seeks⟩
    rw [run_bind_ok followed, run_modifyFile_bind]
    exact moved
  · simp only [if_neg back]
    have forward := Nat.add_sub_cancel' (Nat.not_lt.mp back)
    obtain ⟨w, d, more, followed, grows, there, apart, data⟩ :=
      followChain_along enough (off / g.clustSize - s.file.offset / g.clustSize) stands.toAlong
        (forward.symm ▸ room)
    rw [forward] at there
    obtain ⟨t, moved, seeks⟩ := @moveFile_seeks g w chain more d s off stands s (.inl rfl)
      ⟨rfl, rfl⟩ grows there apart data
    refine ⟨t, more, ?_, seeks⟩
    have plain : (s.withFile fun file => file) = s := rfl
    rw [plain, run_bind_ok followed, run_modifyFile_bind]
    exact moved

end NTux.Fat32
