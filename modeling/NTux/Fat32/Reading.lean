import NTux.Fat32.Looking
import NTux.Fat32.OpenFiles

/-! # Reading files

`fat_file_read` goes on by `fat_file_seek`, which follows the chain to the cluster of the new
offset and stretches the chain if it has none. A read that ends behind the last byte of the last
cluster takes a cluster therefore, or fails if there is none; every other read gives the bytes of
the file and leaves the volume as it is (`read_right_iff`).
-/

namespace NTux.Fat32

open NTux.Foundation Command

variable {g : Geometry} {v w : Volume} {chain : List Nat} {c d k : Nat} {s t : OpenFile}

/-! ## Places in a chain -/

/-- A cluster of the chain leads to the next one. -/
theorem FatChain.link_at (isChain : FatChain v chain) (here : chain[k]? = some c)
    (next : chain[k + 1]? = some d) :
    v.link c = d ∧ clustFlags v.fat.geometry.clustCnt (v.link c) = some .used := by
  induction k generalizing chain with
  | zero =>
      obtain ⟨rest, rfl⟩ : ∃ rest, chain = c :: d :: rest := by
        match chain, here, next with
        | _ :: _ :: rest, rfl, rfl => exact ⟨rest, rfl⟩
      exact isChain.next
  | succ k ih =>
      match chain, here, next with
      | [_], here, _ => exact nomatch here
      | _ :: _ :: _, here, next => exact ih isChain.tail here next

/-- The last cluster of the chain. -/
theorem FatChain.last_at (isChain : FatChain v chain) (here : chain[k]? = some c)
    (last : chain.length = k + 1) :
    clustFlags v.fat.geometry.clustCnt (v.link c) = some .last := by
  obtain ⟨e, ends, marked⟩ := isChain.ends
  rw [List.getLast?_eq_getElem?, last, Nat.add_sub_cancel] at ends
  obtain rfl := Option.some.inj (here.symm.trans ends)
  exact FatChain.clustFlags_last marked

/-- A cluster has whole sectors. -/
theorem Geometry.clustSize_eq (shift : g.clustShift ≤ 7) : g.clustSize = 512 * 2 ^ g.clustShift := by
  have small : 2 ^ g.clustShift ≤ 2 ^ 7 := Nat.pow_le_pow_right (by decide) shift
  exact u32_of_lt (by omega)

/-- The index of an offset's cluster. -/
theorem Geometry.div_clustSize (shift : g.clustShift ≤ 7) (off : Nat) :
    off / g.clustSize = off / 512 / 2 ^ g.clustShift := by
  rw [Geometry.clustSize_eq shift, Nat.div_div_eq_div_mul]

/-! ## An open file -/

/-- The byte of a file at an offset. -/
def fileByte (v : Volume) (chain : List Nat) (off : Nat) : Byte :=
  v.view (v.fat.geometry.sectorOf (chain.getD (off / v.fat.geometry.clustSize) 0) off) (off % 512)

/-- The volume's buffer is not about to be written to the clusters of a chain. -/
def Volume.Apart (v : Volume) (chain : List Nat) : Prop :=
  v.fat.bufDirty = true → ∀ c ∈ chain, v.fat.sect ∉ v.fat.geometry.clustArea c

/-- A file that is open for reading and not dirty, on a volume without faults: the chain is long
enough for the size, the file is at the sector of its offset, and no sector of its clusters is
about to be written from the volume's buffer. -/
structure OpenFile.Reads (chain : List Nat) (s : OpenFile) : Prop where
  layout : s.volume.fat.geometry.Layout
  shift : s.volume.fat.geometry.clustShift ≤ 7
  ready : s.volume.Ready s.volume.fat.geometry.area
  isChain : FatChain s.volume chain
  apart : s.volume.Apart chain
  mounted : s.file.fat ≠ none
  clean : s.file.flags.fileDirty = false
  fits : s.file.size ≤ chain.length * s.volume.fat.geometry.clustSize
  small : s.file.size < 2 ^ 32
  clust : chain[s.file.offset / s.volume.fat.geometry.clustSize]? = some s.file.clust
  sect : s.file.sect = s.volume.fat.geometry.sectorOf s.file.clust s.file.offset
  buf : s.file.buf = s.volume.view s.file.sect

/-- The sector of a place is one of the chain. -/
theorem sectorOf_mem_area (layout : v.fat.geometry.Layout) (isChain : FatChain v chain)
    (here : chain[k]? = some c) (off : Nat) :
    v.fat.geometry.sectorOf c off ∈ v.fat.geometry.area :=
  Geometry.dataArea_subset (layout.clustArea_subset
    (isChain.clusters c (List.mem_of_getElem? here))
    (layout.sectorOf_mem (isChain.clusters c (List.mem_of_getElem? here)) off))

/-- What is read from the disk is what the driver sees. -/
theorem Volume.Ready.disk {area : Set Nat} (ready : v.Ready area) {sect : Nat} (inside : sect ∈ area)
    (apart : v.fat.bufDirty = true → v.fat.sect ≠ sect) : v.disk.sectors sect = v.view sect := by
  by_cases here : v.fat.sect = sect
  · have clean : v.fat.bufDirty = false := Bool.eq_false_iff.mpr fun dirty => apart dirty here
    rw [← here, Volume.view_buffered]
    exact ready.coherent clean (here ▸ inside)
  · rw [Volume.view_of_ne here]

/-- The buffer of the file is filled from its sector. -/
theorem fillFile_run {area : Set Nat} (ready : s.volume.Ready area) (inside : s.file.sect ∈ area)
    (apart : s.volume.fat.bufDirty = true → s.volume.fat.sect ≠ s.file.sect) :
    ∃ w, fillFile.run s = (.ok (), { (s.withVolume w).withFile fun file =>
        { file with buf := s.volume.view s.file.sect } with home := some s.file.sect }) ∧
      w.Ready area ∧ s.volume.Agrees area w ∧ w.fat = s.volume.fat := by
  have read := diskRead_sound ready.sound s.file.sect
  refine ⟨{ s.volume with disk := { s.volume.disk with count := s.volume.disk.count + 1 } }, ?_,
    ⟨ready.sound.later rfl (Nat.le_succ _), ready.coherent⟩, ⟨fun _ _ => rfl, rfl⟩, rfl⟩
  have looked : (onVolume (diskRead s.file.sect)).run s = (.ok (true, s.volume.disk.sectors s.file.sect),
      s.withVolume { s.volume with disk :=
        { s.volume.disk with count := s.volume.disk.count + 1 } }) := by
    rw [onVolume, run_zoom, read]
  unfold fillFile
  rw [run_gets_bind, run_bind_ok looked, ready.disk inside apart]
  rfl

/-- The buffer of a file that is not dirty follows it to another sector. -/
theorem moveFile_run {area : Set Nat} {ssect : Nat} (ready : s.volume.Ready area)
    (inside : s.file.sect ∈ area)
    (apart : s.volume.fat.bufDirty = true → s.volume.fat.sect ≠ s.file.sect)
    (clean : s.file.flags.fileDirty = false) (held : s.file.buf = s.volume.view ssect) :
    ∃ w home, (moveFile ssect).run s = (.ok (), { (s.withVolume w).withFile fun file =>
        { file with buf := s.volume.view s.file.sect } with home := home }) ∧
      w.Ready area ∧ s.volume.Agrees area w ∧ w.fat = s.volume.fat := by
  unfold moveFile
  rw [run_gets_bind]
  by_cases moved : s.file.sect ≠ ssect
  · rw [if_pos moved]
    have still : (flushFile ssect).run s = (.ok (), s) := by
      unfold flushFile
      rw [run_gets_bind, if_neg (by rw [clean]; decide)]
      rfl
    rw [run_bind_ok still]
    obtain ⟨w, filled, rest⟩ := fillFile_run ready inside apart
    exact ⟨w, _, filled, rest⟩
  · rw [if_neg moved]
    refine ⟨s.volume, s.home, ?_, ready, .refl, rfl⟩
    have same : s.volume.view s.file.sect = s.file.buf := by rw [held, not_not.mp moved]
    rw [same]
    rfl

/-! ## Following the chain -/

/-- A link that leads to another cluster is followed. -/
theorem followLink_used (fuel : Nat) (layout : s.volume.fat.geometry.Layout)
    (ready : s.volume.Ready s.volume.fat.geometry.area) (isChain : FatChain s.volume chain)
    (here : chain[k]? = some s.file.clust) (next : chain[k + 1]? = some d) :
    ∃ w, (followLink fuel).run s =
        (.ok (), (s.withVolume w).withFile fun file => { file with clust := d }) ∧
      w.Ready s.volume.fat.geometry.area ∧ s.volume.Agrees s.volume.fat.geometry.area w ∧
      ∀ c ∈ chain, w.fat.sect ∉ s.volume.fat.geometry.clustArea c := by
  have isClust := isChain.clusters _ (List.mem_of_getElem? here)
  obtain ⟨link, used⟩ := isChain.link_at here next
  obtain ⟨w, read, ready', agrees, at'⟩ := getFat_spec layout ready isClust.inFat
  rw [used, link] at read
  refine ⟨w, ?_, ready', agrees, fun c member inside => ?_⟩
  · have looked : (onVolume (getFat s.file.clust)).run s = (.ok (d, .used), s.withVolume w) := by
      rw [onVolume, run_zoom, read]
    unfold followLink
    rw [run_gets_bind, run_bind_ok looked]
    rfl
  · rw [at'] at inside
    exact layout.data_notMem (layout.clustArea_subset (isChain.clusters c member) inside)
      (.inl (.inl (Geometry.mem_fatArea isClust.inFat)))

/-- **The loop of `fat_file_seek`**, within the chain. -/
theorem followChain_used (fuel : Nat) : ∀ {turns k : Nat} {s : OpenFile},
    s.volume.fat.geometry.Layout → s.volume.Ready s.volume.fat.geometry.area →
    FatChain s.volume chain → s.volume.Apart chain → chain[k]? = some s.file.clust →
    chain[k + turns]? = some d →
      ∃ w, (followChain fuel turns).run s =
          (.ok (), (s.withVolume w).withFile fun file => { file with clust := d }) ∧
        w.Ready s.volume.fat.geometry.area ∧ s.volume.Agrees s.volume.fat.geometry.area w ∧
        w.Apart chain := by
  intro turns
  induction turns with
  | zero =>
      intro k s layout ready isChain apart here there
      obtain rfl : s.file.clust = d := Option.some.inj (here.symm.trans there)
      exact ⟨s.volume, rfl, ready, .refl, apart⟩
  | succ turns ih =>
      intro k s layout ready isChain apart here there
      have within : k + 1 < chain.length := by
        have := (List.getElem?_eq_some_iff.mp there).1
        omega
      obtain ⟨w, link, ready', agrees, apart'⟩ :=
        followLink_used fuel layout ready isChain here (List.getElem?_eq_getElem within)
      have geometry := agrees.geometry
      have isChain' := isChain.congr geometry fun c member =>
        (agrees.rewrites ready').link (isChain.clusters c member).inFat
      obtain ⟨w', rest, ready'', agrees', apart''⟩ := ih (k := k + 1)
        (s := (s.withVolume w).withFile fun file => { file with clust := chain[k + 1] })
        (geometry ▸ layout) (geometry ▸ ready') isChain'
        (fun _ c member => geometry ▸ apart' c member) (List.getElem?_eq_getElem within)
        (by rwa [Nat.add_assoc, Nat.add_comm 1])
      refine ⟨w', ?_, geometry ▸ ready'', agrees.trans (geometry ▸ agrees'), apart''⟩
      rw [followChain, run_bind_ok link, rest]
      rfl

/-! ## Seeking forward -/

/-- A file behind a seek: it is at a cluster of its chain, and its buffer has the bytes of the
offset's sector. -/
def OpenFile.arrive (w : Volume) (home : Option Nat) (clust off : Nat) (s : OpenFile) : OpenFile :=
  { (s.withVolume w).withFile fun file =>
      { file with clust := clust, sect := s.volume.fat.geometry.sectorOf clust off, offset := off
                  buf := s.volume.view (s.volume.fat.geometry.sectorOf clust off) }
    with home := home }

/-- The volume goes on and the file is at another place of the chain. -/
theorem OpenFile.Reads.arrive (reads : s.Reads chain) (ready : w.Ready s.volume.fat.geometry.area)
    (agrees : s.volume.Agrees s.volume.fat.geometry.area w) (apart : w.Apart chain) {off : Nat}
    (there : chain[off / s.volume.fat.geometry.clustSize]? = some d) (home : Option Nat) :
    (s.arrive w home d off).Reads chain := by
  have geometry := agrees.geometry
  have isChain := reads.isChain.congr geometry fun c member =>
    (agrees.rewrites ready).link (reads.isChain.clusters c member).inFat
  constructor
  case layout => exact geometry ▸ reads.layout
  case shift => exact geometry ▸ reads.shift
  case ready => exact geometry ▸ ready
  case isChain => exact isChain
  case apart => exact apart
  case mounted => exact reads.mounted
  case clean => exact reads.clean
  case fits => exact geometry ▸ reads.fits
  case small => exact reads.small
  case clust => exact geometry ▸ there
  case sect => exact congrArg (fun g => g.sectorOf d off) geometry.symm
  case buf =>
    have inside := sectorOf_mem_area reads.layout reads.isChain there off
    exact (agrees.view inside).symm

/-- **Seeking.** Within the chain, `fat_file_seek` changes nothing that the driver sees of the
volume. -/
theorem fatFileSeek_within (fuel : Nat) {cnt off : Nat} (reads : s.Reads chain)
    (sum : s.file.offset + cnt = off) (inFile : off ≤ s.file.size)
    (there : chain[off / s.volume.fat.geometry.clustSize]? = some d) :
    ∃ w home, (fatFileSeek fuel cnt .curr).run s = (.ok (), s.arrive w home d off) ∧
      w.Ready s.volume.fat.geometry.area ∧ s.volume.Agrees s.volume.fat.geometry.area w ∧
      w.Apart chain := by
  have target : s.target cnt .curr = (off : Int) := by
    rw [← sum]
    exact (Int.natCast_add _ _).symm
  have inRange : ¬ ((off : Int) < 0 ∨ 0xffffffff < (off : Int)) := by
    have := reads.small
    omega
  have forward : s.file.offset / s.volume.fat.geometry.clustSize ≤
      off / s.volume.fat.geometry.clustSize := Nat.div_le_div_right (by omega)
  obtain ⟨w, followed, ready, agrees, apart⟩ := followChain_used fuel reads.layout reads.ready
    reads.isChain reads.apart reads.clust (Nat.add_sub_cancel' forward ▸ there)
  have isClust := reads.isChain.clusters d (List.mem_of_getElem? there)
  have inside := sectorOf_mem_area reads.layout reads.isChain there off
  have before : s.file.sect ∈ s.volume.fat.geometry.area :=
    reads.sect ▸ sectorOf_mem_area reads.layout reads.isChain reads.clust s.file.offset
  have clear : w.fat.bufDirty = true → w.fat.sect ≠ s.volume.fat.geometry.sectorOf d off := by
    intro dirty here
    refine apart dirty d (List.mem_of_getElem? there) ?_
    rw [here, agrees.geometry]
    exact reads.layout.sectorOf_mem isClust off
  -- The file is at its new sector, and its buffer still has the bytes of the old one.
  obtain ⟨w', home, moved, ready', agrees', fat⟩ := @moveFile_run
    ((s.withVolume w).withFile fun file => { file with
      clust := d, sect := s.volume.fat.geometry.sectorOf d off, offset := off })
    s.volume.fat.geometry.area s.file.sect ready inside clear reads.clean
    (reads.buf.trans (agrees.view before).symm)
  refine ⟨w', home, ?_, ready', agrees.trans agrees', ?_⟩
  · have plain : (s.withFile fun file => file) = s := rfl
    rw [fatFileSeek_run fuel reads.mounted target inRange]
    dsimp only
    rw [Int.toNat_natCast, if_neg (Nat.not_lt.mpr forward)]
    simp only [if_neg (Nat.not_lt.mpr forward)]
    rw [plain, run_bind_ok followed, run_modifyFile_bind]
    refine moved.trans ?_
    unfold OpenFile.arrive
    rw [← agrees.view inside]
    rfl
  · unfold Volume.Apart
    rw [fat]
    exact apart

/-! ## The bytes of a turn -/

/-- The bytes of a file from an offset on. -/
def fileBytes (v : Volume) (chain : List Nat) (off count : Nat) : List Byte :=
  (List.range count).map fun i => fileByte v chain (off + i)

theorem fileBytes_add (v : Volume) (chain : List Nat) (off first second : Nat) :
    fileBytes v chain off (first + second) =
      fileBytes v chain off first ++ fileBytes v chain (off + first) second := by
  unfold fileBytes
  rw [List.range_add, List.map_append, List.map_map]
  refine congrArg _ (List.map_congr_left fun i _ => ?_)
  exact congrArg (fileByte v chain) (Nat.add_assoc off first i).symm

/-- The bytes within a chain do not depend on what is buffered. -/
theorem fileBytes_congr (layout : v.fat.geometry.Layout) (isChain : FatChain v chain)
    (agrees : v.Agrees v.fat.geometry.area w) {off count : Nat}
    (within : (off + count) / v.fat.geometry.clustSize < chain.length) :
    fileBytes w chain off count = fileBytes v chain off count := by
  refine List.map_congr_left fun i member => ?_
  have less : (off + i) / v.fat.geometry.clustSize < chain.length :=
    (Nat.div_le_div_right (Nat.add_le_add_left (List.mem_range.mp member).le off)).trans_lt within
  have here := List.getElem?_eq_getElem less
  have inside := sectorOf_mem_area layout isChain here (off + i)
  unfold fileByte
  rw [agrees.geometry, List.getD_eq_getElem?_getD, here, Option.getD_some, agrees.view inside]

/-- How many bytes a turn copies. -/
theorem readCount_eq {len : Int} (nonneg : 0 ≤ len) (fits : len < 2 ^ 31) {file : File}
    (small : file.size < 2 ^ 32) (inFile : file.offset ≤ file.size) :
    readCount len file =
      min len.toNat (min (512 - file.offset % 512) (file.size - file.offset)) := by
  have count : uint32 len = len.toNat := by
    unfold uint32
    rw [Int.emod_eq_of_lt nonneg (by omega)]
  have left : sub32 file.size file.offset = file.size - file.offset := sub32_of_le small inFile
  unfold readCount
  rw [count, left]
  dsimp only
  split <;> omega

/-- The buffer has the bytes of the file, as far as the sector goes. -/
theorem bytesAt_eq (reads : s.Reads chain) {count : Nat} (short : s.file.offset % 512 + count ≤ 512) :
    s.file.bytesAt count = fileBytes s.volume chain s.file.offset count := by
  refine List.map_congr_left fun i member => ?_
  have less := List.mem_range.mp member
  have sector : (s.file.offset + i) / 512 = s.file.offset / 512 := by omega
  have byte : (s.file.offset + i) % 512 = s.file.offset % 512 + i := by omega
  have clust := reads.clust
  rw [Geometry.div_clustSize reads.shift] at clust
  unfold fileByte
  rw [Geometry.div_clustSize reads.shift, sector, byte, List.getD_eq_getElem?_getD, clust,
    Option.getD_some, reads.buf, reads.sect]
  unfold Geometry.sectorOf
  rw [sector]

/-! ## Reading within the chain -/

/-- How many bytes `fat_file_read` gives. -/
def OpenFile.wanted (len : Int) (s : OpenFile) : Nat := min len.toNat (s.file.size - s.file.offset)

/-- The next bytes are the caller's. -/
theorem OpenFile.Reads.deliver (reads : s.Reads chain) (cnt : Nat) : (s.deliver cnt).Reads chain :=
  ⟨reads.layout, reads.shift, reads.ready, reads.isChain, reads.apart, reads.mounted, reads.clean,
    reads.fits, reads.small, reads.clust, reads.sect, reads.buf⟩

/-- **The loop of `fat_file_read`**, where it ends at a place of the chain. -/
theorem readLoop_within (fuel : Nat) : ∀ {turns : Nat} {len : Int} {s : OpenFile}, s.Reads chain →
    0 ≤ len → len < 2 ^ 31 → s.file.offset ≤ s.file.size →
    (s.file.offset + s.wanted len) / s.volume.fat.geometry.clustSize < chain.length →
    s.wanted len < turns →
      ∃ t, (readLoop fuel turns len).run s = (.ok (), t) ∧
        s.volume.Agrees s.volume.fat.geometry.area t.volume ∧ t.bytes = s.bytes + s.wanted len ∧
        t.out = s.out ++ fileBytes s.volume chain s.file.offset (s.wanted len) := by
  intro turns
  induction turns with
  | zero => exact fun _ _ _ _ _ many => absurd many (Nat.not_lt_zero _)
  | succ turns ih =>
      intro len s reads nonneg fits inFile within many
      rw [readLoop, run_gets_bind]
      by_cases ends : len = 0 ∨ s.file.size ≤ s.file.offset
      · have none : s.wanted len = 0 := by
          unfold OpenFile.wanted
          omega
        rw [if_pos ends, none]
        exact ⟨s, rfl, .refl, rfl, (List.append_nil _).symm⟩
      · rw [if_neg ends]
        dsimp only
        rw [run_modify_bind]
        have count := readCount_eq nonneg fits reads.small inFile
        generalize readCount len s.file = cnt at count ⊢
        obtain ⟨off, sum⟩ : ∃ off, s.file.offset + cnt = off := ⟨_, rfl⟩
        have most : cnt ≤ s.wanted len := by
          unfold OpenFile.wanted
          omega
        have less : off / s.volume.fat.geometry.clustSize < chain.length :=
          (Nat.div_le_div_right (by omega)).trans_lt within
        have there := List.getElem?_eq_getElem less
        obtain ⟨w, home, sought, ready, agrees, apart⟩ :=
          fatFileSeek_within fuel (reads.deliver cnt) sum (by
            change off ≤ s.file.size
            omega) there
        have geometry := agrees.geometry
        -- What is left to read begins behind this turn's bytes.
        have left : OpenFile.wanted (len - cnt) ((s.deliver cnt).arrive w home
            chain[off / s.volume.fat.geometry.clustSize] off) = s.wanted len - cnt := by
          change min (len - cnt).toNat (s.file.size - off) = min len.toNat _ - cnt
          omega
        obtain ⟨t, rest, agrees', bytes, out⟩ := @ih (len - cnt) _
          ((reads.deliver cnt).arrive ready agrees apart there home) (by omega) (by omega)
          (by
            change off ≤ s.file.size
            omega)
          (by
            rw [left]
            change (off + _) / w.fat.geometry.clustSize < _
            have total : off + (s.wanted len - cnt) = s.file.offset + s.wanted len := by omega
            rw [geometry, total]
            exact within)
          (by
            rw [left]
            omega)
        rw [left] at bytes out
        have all : s.wanted len = cnt + (s.wanted len - cnt) := by omega
        refine ⟨t, (run_bind_ok sought).trans rest, agrees.trans (geometry ▸ agrees'), ?_, ?_⟩
        · refine bytes.trans ?_
          change s.bytes + cnt + _ = _
          omega
        · have congr : fileBytes w chain off (s.wanted len - cnt) =
              fileBytes s.volume chain off (s.wanted len - cnt) :=
            fileBytes_congr reads.layout reads.isChain agrees (by
              have total : off + (s.wanted len - cnt) = s.file.offset + s.wanted len := by omega
              rw [total]
              exact within)
          refine out.trans ?_
          change s.out ++ s.file.bytesAt cnt ++ fileBytes w chain off (s.wanted len - cnt) = _
          rw [bytesAt_eq reads (by omega), congr, List.append_assoc, ← sum, ← fileBytes_add, ← all]

/-! ## Taking a cluster -/

/-- The count of free clusters. -/
abbrev Volume.freeCnt (v : Volume) : Nat := v.fat.freeCnt

theorem note_keeps (mishap : Mishap) : (note mishap).Keeps Volume.freeCnt :=
  keeps_modify fun _ => rfl

theorem diskRead_keeps (sect : Nat) : (diskRead sect).Keeps Volume.freeCnt := by
  intro v
  rcases diskRead_cases sect v with read | ⟨_, failed⟩
  · rw [read]
  · rw [failed]
    rfl

theorem diskWrite_keeps (buf : Sector) (sect : Nat) : (diskWrite buf sect).Keeps Volume.freeCnt := by
  intro v
  rcases diskWrite_cases buf sect v with wrote | failed
  · rw [wrote]
  · rw [failed]
    rfl

theorem syncBuf_keeps : syncBuf.Keeps Volume.freeCnt :=
  (keeps_gets _).bind fun _ => .ite
    ((diskWrite_keeps _ _).bind fun _ => keeps_modify fun _ => rfl) (keeps_pure _)

theorem updateBuf_keeps (sect : Nat) : (updateBuf sect).Keeps Volume.freeCnt :=
  (keeps_gets _).bind fun _ => .ite
    (syncBuf_keeps.bind fun _ => (diskRead_keeps sect).bind fun _ =>
      Keeps.bind (keeps_modify fun _ => rfl) fun _ => .ite (keeps_modify fun _ => rfl)
        (keeps_stop _)) (keeps_pure _)

theorem putFat_keeps (clust val : Nat) : (putFat clust val).Keeps Volume.freeCnt := by
  have put : ∀ base, (putFat2 base clust val).Keeps Volume.freeCnt := fun _ =>
    (updateBuf_keeps _).bind fun _ => keeps_modify fun _ => rfl
  exact (keeps_gets _).bind fun _ => .ite ((put _).bind fun _ => put _) (put _)

theorem syncFs_keeps : syncFs.Keeps Volume.freeCnt :=
  syncBuf_keeps.bind fun _ => (keeps_gets _).bind fun _ => .ite
    ((updateBuf_keeps _).bind fun _ => (keeps_gets _).bind fun _ =>
      Keeps.bind (keeps_modify fun _ => rfl) fun _ => syncBuf_keeps.bind fun _ =>
        keeps_modify fun _ => rfl) (keeps_pure _)

/-- As many free clusters are counted. -/
def Volume.SameCount (v w : Volume) : Prop := w.freeCnt = v.freeCnt

instance : IsPreorder Volume Volume.SameCount where
  refl _ := rfl
  trans _ _ _ first second := second.trans first

theorem sameCount_overlooks : Overlooks Volume.SameCount := ⟨updateBuf_keeps, note_keeps⟩

theorem findFree_keeps (fuel prev : Nat) : (findFree fuel prev).Keeps Volume.freeCnt :=
  findFree_looks sameCount_overlooks fuel prev

theorem linkFrom_keeps (prev clust : Nat) : (linkFrom prev clust).Keeps Volume.freeCnt :=
  .ite (putFat_keeps _ _) (keeps_pure _)

/-- `stretch_chain` counts the cluster that it takes. -/
theorem stretchChain_counts {fuel prev : Nat} (done : (stretchChain fuel prev).run v = (.ok c, w)) :
    w.freeCnt = sub32 v.freeCnt 1 := by
  unfold stretchChain at done
  rw [run_modifyFat_bind] at done
  obtain ⟨clust, u, found, rest⟩ := of_run_bind_ok done
  obtain ⟨⟨⟩, x, put, rest⟩ := of_run_bind_ok rest
  obtain ⟨⟨⟩, y, linked, rest⟩ := of_run_bind_ok rest
  rw [run_modifyFat_bind] at rest
  obtain ⟨⟨⟩, z, synced, last⟩ := of_run_bind_ok rest
  cases last
  have counted := syncFs_keeps.of_run synced
  have same := (((linkFrom_keeps _ _).of_run linked).trans ((putFat_keeps _ _).of_run put)).trans
    ((findFree_keeps _ _).of_run found)
  exact counted.trans (congrArg (sub32 · 1) same)

/-- Behind the last cluster, a link takes one. -/
theorem followLink_last {fuel : Nat} (layout : s.volume.fat.geometry.Layout)
    (ready : s.volume.Ready s.volume.fat.geometry.area)
    (inFat : s.volume.fat.geometry.InFat s.file.clust)
    (last : clustFlags s.volume.fat.geometry.clustCnt (s.volume.link s.file.clust) = some .last)
    (done : (followLink fuel).run s = (.ok (), t)) :
    t.volume.freeCnt = sub32 s.volume.freeCnt 1 ∧ t.file.size = s.file.size := by
  obtain ⟨w, read, -, agrees, -⟩ := getFat_spec layout ready inFat
  rw [last] at read
  have looked : (onVolume (getFat s.file.clust)).run s =
      (.ok (s.volume.link s.file.clust, .last), s.withVolume w) := by
    rw [onVolume, run_zoom, read]
  unfold followLink at done
  rw [run_gets_bind, run_bind_ok looked] at done
  dsimp only at done
  rw [if_neg (by decide), if_pos rfl] at done
  obtain ⟨next, u, stretched, rest⟩ := of_run_bind_ok done
  rw [onVolume, run_zoom] at stretched
  cases rest
  obtain ⟨result, same⟩ := Prod.mk.inj stretched
  refine ⟨?_, (congrArg (fun u => u.file.size) same).symm⟩
  have counted := stretchChain_counts (Prod.ext result rfl)
  rw [← same]
  refine counted.trans (congrArg (sub32 · 1) ?_)
  exact Volume.freeCnt_of_unbuffered agrees.unbuffered

/-- The buffer follows the file without a change of the file's place or of the count. -/
theorem moveFile_keeps (ssect : Nat) :
    (moveFile ssect).Keeps fun s => (s.file.offset, s.file.size, s.volume.freeCnt) := by
  have written : ∀ buf sect, (onVolume (diskWrite buf sect)).Keeps fun s =>
      (s.file.offset, s.file.size, s.volume.freeCnt) := fun buf sect s =>
    congrArg (fun n => (s.file.offset, s.file.size, n)) (diskWrite_keeps buf sect s.volume)
  have read : ∀ sect, (onVolume (diskRead sect)).Keeps fun s =>
      (s.file.offset, s.file.size, s.volume.freeCnt) := fun sect s =>
    congrArg (fun n => (s.file.offset, s.file.size, n)) (diskRead_keeps sect s.volume)
  have flush : ∀ ssect, (flushFile ssect).Keeps fun s =>
      (s.file.offset, s.file.size, s.volume.freeCnt) := fun _ =>
    (keeps_gets _).bind fun _ => .ite
      ((written _ _).bind fun _ => keeps_modify fun _ => rfl) (keeps_pure _)
  exact (keeps_gets _).bind fun _ => .ite ((flush _).bind fun _ => (keeps_gets _).bind fun _ =>
    (read _).bind fun _ => Keeps.bind (keeps_modify fun _ => rfl) fun _ =>
      .ite (keeps_pure _) (keeps_stop _)) (keeps_pure _)

/-- The file is at another place, and the buffer follows it. -/
theorem moveFile_placed {ssect off : Nat} {place : File → Nat}
    (done : (moveFile ssect).run (s.withFile fun file =>
      { file with sect := place file, offset := off }) = (.ok (), t)) :
    t.file.offset = off ∧ t.file.size = s.file.size ∧ t.volume.freeCnt = s.volume.freeCnt := by
  have same := (moveFile_keeps ssect).of_run done
  rw [Prod.mk.injEq, Prod.mk.injEq] at same
  exact same

/-! ## Reading to the end of the last cluster -/

/-- A seek to the end of the last cluster takes a cluster, where it does not fail. -/
theorem fatFileSeek_beyond {fuel cnt off : Nat} (reads : s.Reads chain)
    (sum : s.file.offset + cnt = off) (inFile : off ≤ s.file.size)
    (short : s.file.offset % 512 + cnt ≤ 512) (positive : 0 < cnt)
    (ends : off = chain.length * s.volume.fat.geometry.clustSize)
    (done : (fatFileSeek fuel cnt .curr).run s = (.ok (), t)) :
    t.file.offset = off ∧ t.file.size = s.file.size ∧
      t.volume.freeCnt = sub32 s.volume.freeCnt 1 := by
  have target : s.target cnt .curr = (off : Int) := by
    rw [← sum]
    exact (Int.natCast_add _ _).symm
  have inRange : ¬ ((off : Int) < 0 ∨ 0xffffffff < (off : Int)) := by
    have := reads.small
    omega
  have large : 512 ≤ s.volume.fat.geometry.clustSize := by
    rw [Geometry.clustSize_eq reads.shift]
    exact Nat.le_mul_of_pos_right _ (Nat.two_pow_pos _)
  have dst : off / s.volume.fat.geometry.clustSize = chain.length := by
    rw [ends, Nat.mul_div_cancel _ (by omega)]
  obtain ⟨k, place⟩ : ∃ k, s.file.offset / s.volume.fat.geometry.clustSize = k := ⟨_, rfl⟩
  have within := (List.getElem?_eq_some_iff.mp reads.clust).1
  -- The turn begins in the last cluster.
  have src : chain.length = k + 1 := by
    obtain ⟨n, length⟩ := Nat.exists_eq_add_of_lt within
    have clusters : off = (chain.length - 1) * s.volume.fat.geometry.clustSize +
        s.volume.fat.geometry.clustSize := by
      rw [ends, ← Nat.succ_mul]
      exact congrArg (· * _) (by omega)
    have back : chain.length - 1 ≤ k := by
      rw [← place, Nat.le_div_iff_mul_le (by omega)]
      omega
    omega
  have here := reads.clust
  rw [place] at here
  have isClust := reads.isChain.clusters _ (List.mem_of_getElem? here)
  have last := reads.isChain.last_at here src
  rw [fatFileSeek_run fuel reads.mounted target inRange] at done
  dsimp only at done
  have turns : chain.length - k = 1 := by omega
  rw [Int.toNat_natCast, dst, place, if_neg (by omega), turns] at done
  simp only [if_neg (show ¬ chain.length < k by omega)] at done
  have plain : (s.withFile fun file => file) = s := rfl
  rw [plain] at done
  obtain ⟨⟨⟩, u, followed, placed⟩ := of_run_bind_ok done
  obtain ⟨⟨⟩, u', link, rest⟩ := of_run_bind_ok followed
  cases rest
  obtain ⟨counted, size⟩ := followLink_last reads.layout reads.ready isClust.inFat last link
  rw [run_modifyFile_bind] at placed
  obtain ⟨offset, size', count⟩ := moveFile_placed placed
  exact ⟨offset, size'.trans size, count.trans counted⟩

/-- **The loop of `fat_file_read`**, where it ends at the end of the last cluster: a cluster is
taken, or it fails. -/
theorem readLoop_beyond (fuel : Nat) : ∀ {turns : Nat} {len : Int} {s t : OpenFile}, s.Reads chain →
    0 < len → len < 2 ^ 31 → s.file.offset < s.file.size →
    s.file.offset + s.wanted len = chain.length * s.volume.fat.geometry.clustSize →
    (readLoop fuel turns len).run s = (.ok (), t) →
      t.volume.freeCnt = sub32 s.volume.freeCnt 1 := by
  intro turns
  induction turns with
  | zero =>
      intro len s t _ _ _ _ _ done
      cases done
  | succ turns ih =>
      intro len s t reads positive fits inFile ends done
      rw [readLoop, run_gets_bind, if_neg (by omega)] at done
      dsimp only at done
      rw [run_modify_bind] at done
      have count := readCount_eq positive.le fits reads.small inFile.le
      generalize readCount len s.file = cnt at count done
      obtain ⟨off, sum⟩ : ∃ off, s.file.offset + cnt = off := ⟨_, rfl⟩
      have most : cnt ≤ s.wanted len := by
        unfold OpenFile.wanted
        omega
      have inFile' : off ≤ s.file.size := by omega
      by_cases final : cnt = s.wanted len
      · obtain ⟨⟨⟩, u, sought, rest⟩ := of_run_bind_ok done
        obtain ⟨offset, size, counted⟩ := fatFileSeek_beyond (reads.deliver cnt) sum inFile'
          (by
            change s.file.offset % 512 + cnt ≤ 512
            omega) (by omega) (by
            rw [← sum, final]
            exact ends) sought
        -- Nothing is left to read.
        have finished : len - cnt = 0 ∨ u.file.size ≤ u.file.offset := by
          rw [offset, size]
          change _ ∨ s.file.size ≤ off
          unfold OpenFile.wanted at final
          omega
        cases turns with
        | zero => cases rest
        | succ turns =>
            rw [readLoop, run_gets_bind, if_pos finished] at rest
            cases rest
            exact counted
      · have less : off / s.volume.fat.geometry.clustSize < chain.length := by
          refine Nat.div_lt_of_lt_mul ?_
          rw [Nat.mul_comm, ← ends]
          omega
        have there := List.getElem?_eq_getElem less
        obtain ⟨w, home, sought, ready, agrees, apart⟩ :=
          fatFileSeek_within fuel (reads.deliver cnt) sum inFile' there
        have geometry := agrees.geometry
        rw [run_bind_ok sought] at done
        have counted := ih ((reads.deliver cnt).arrive ready agrees apart there home) (by
            unfold OpenFile.wanted at final
            omega) (by omega) (by
            change off < s.file.size
            unfold OpenFile.wanted at final
            omega) (by
            change off + min (len - cnt).toNat (s.file.size - off) =
              chain.length * w.fat.geometry.clustSize
            rw [geometry]
            refine Eq.trans ?_ ends
            unfold OpenFile.wanted
            omega) done
        refine counted.trans (congrArg (sub32 · 1) ?_)
        exact Volume.freeCnt_of_unbuffered agrees.unbuffered

/-! ## Reading -/

/-- The caller got the bytes of the file from its offset on, and the entries of the FAT, what is
recorded of the free clusters and the data area are as they were. -/
structure OpenFile.ReadsRight (chain : List Nat) (len : Int) (s t : OpenFile) : Prop where
  bytes : t.bytes = s.wanted len
  out : t.out = fileBytes s.volume chain s.file.offset (s.wanted len)
  entry : ∀ c, s.volume.fat.geometry.InFat c → t.volume.entry c = s.volume.entry c
  mirror : s.volume.fat.geometry.Mirrored → ∀ c, s.volume.fat.geometry.InFat c →
    t.volume.mirrorEntry c = s.volume.mirrorEntry c
  freeCnt : t.volume.fat.freeCnt = s.volume.fat.freeCnt
  lastUsed : t.volume.fat.lastUsed = s.volume.fat.lastUsed
  data : Set.EqOn t.volume.view s.volume.view s.volume.fat.geometry.dataArea

/-- Enough fuel makes `fat_file_read` return `FAT_ERR_NONE`, and it reads right. -/
def OpenFile.ReadsAll (chain : List Nat) (len : Int) (s : OpenFile) : Prop :=
  ∃ enough, ∀ fuel ≥ enough, ∃ t, (fatFileRead fuel len).run s = (.ok (), t) ∧
    s.ReadsRight chain len t

/-- The read ends at the end of the file's last cluster. -/
def OpenFile.EndsChain (chain : List Nat) (len : Int) (s : OpenFile) : Prop :=
  0 < len ∧ s.file.offset < s.file.size ∧
    s.file.offset + s.wanted len = chain.length * s.volume.fat.geometry.clustSize

theorem fatFileRead_run (fuel : Nat) {len : Int} (mounted : s.file.fat ≠ none)
    (allowed : s.file.flags.read = true) :
    (fatFileRead fuel len).run s = (readLoop fuel fuel len).run s.startRead := by
  unfold fatFileRead
  rw [run_modify_bind, run_gets_bind]
  dsimp only
  rw [if_neg mounted, if_neg (by rw [allowed]; decide)]
  rfl

theorem OpenFile.Reads.startRead (reads : s.Reads chain) : s.startRead.Reads chain :=
  ⟨reads.layout, reads.shift, reads.ready, reads.isChain, reads.apart, reads.mounted, reads.clean,
    reads.fits, reads.small, reads.clust, reads.sect, reads.buf⟩

/-- Nothing is read behind the end. -/
theorem readsAll_empty {len : Int} (mounted : s.file.fat ≠ none)
    (allowed : s.file.flags.read = true) (ends : len = 0 ∨ s.file.size ≤ s.file.offset) :
    s.ReadsAll chain len := by
  have none : s.wanted len = 0 := by
    unfold OpenFile.wanted
    omega
  refine ⟨1, fun fuel many => ⟨s.startRead, ?_, ?_⟩⟩
  · obtain ⟨turns, rfl⟩ := Nat.exists_eq_add_of_le' many
    rw [fatFileRead_run _ mounted allowed, readLoop, run_gets_bind]
    exact congrArg (fun c => Command.run c s.startRead) (if_pos ends)
  · constructor
    case bytes => exact none.symm
    case out =>
      rw [none]
      rfl
    case entry => exact fun _ _ => rfl
    case mirror => exact fun _ _ _ => rfl
    case freeCnt => rfl
    case lastUsed => rfl
    case data => exact Set.eqOn_refl _ _

theorem readsAll_within {len : Int} (reads : s.Reads chain) (allowed : s.file.flags.read = true)
    (nonneg : 0 ≤ len) (fits : len < 2 ^ 31) (inFile : s.file.offset ≤ s.file.size)
    (within : (s.file.offset + s.wanted len) / s.volume.fat.geometry.clustSize < chain.length) :
    s.ReadsAll chain len := by
  refine ⟨s.wanted len + 1, fun fuel many => ?_⟩
  obtain ⟨t, ran, agrees, bytes, out⟩ :=
    readLoop_within fuel reads.startRead nonneg fits inFile within many
  have onSectors := agrees.view
  have same : ∀ sect ∈ s.volume.fat.geometry.area, t.volume.view sect = s.volume.view sect :=
    fun _ inside => onSectors inside
  have geometry := agrees.geometry
  refine ⟨t, (fatFileRead_run fuel reads.mounted allowed).trans ran, ?_⟩
  constructor
  case bytes => exact bytes.trans (Nat.zero_add _)
  case out => exact out.trans (List.nil_append _)
  case entry =>
    intro c inFat
    unfold Volume.entry entryAt
    rw [geometry]
    exact congrArg (fun buf => Memory.readLE buf _ 4)
      (same _ (Geometry.fatArea_subset (Geometry.mem_fatArea inFat)))
  case mirror =>
    intro mirrored c inFat
    unfold Volume.mirrorEntry entryAt
    rw [geometry]
    exact congrArg (fun buf => Memory.readLE buf _ 4)
      (same _ (Geometry.mirrorArea_subset (Geometry.mem_mirrorArea mirrored inFat)))
  case freeCnt => exact Volume.freeCnt_of_unbuffered agrees.unbuffered
  case lastUsed => exact Volume.lastUsed_of_unbuffered agrees.unbuffered
  case data => exact fun sect inside => same sect (Geometry.dataArea_subset inside)

/-- A read that ends at the end of the last cluster fails, or it takes a cluster. -/
theorem not_readsAll_ends {len : Int} (reads : s.Reads chain) (allowed : s.file.flags.read = true)
    (fits : len < 2 ^ 31) (ends : s.EndsChain chain len) : ¬ s.ReadsAll chain len := by
  rintro ⟨enough, all⟩
  obtain ⟨t, ran, right⟩ := all enough le_rfl
  obtain ⟨positive, inFile, total⟩ := ends
  rw [fatFileRead_run enough reads.mounted allowed] at ran
  have counted := readLoop_beyond enough reads.startRead positive fits inFile total ran
  have taken : sub32 s.volume.fat.freeCnt 1 = s.volume.fat.freeCnt :=
    counted.symm.trans right.freeCnt
  unfold sub32 at taken
  omega

/-- A file that was not opened for reading is not read. -/
theorem not_readsAll_denied {len : Int} (mounted : s.file.fat ≠ none)
    (denied : ¬ s.file.flags.read = true) : ¬ s.ReadsAll chain len := by
  rintro ⟨enough, all⟩
  obtain ⟨t, ran, -⟩ := all enough le_rfl
  unfold fatFileRead at ran
  rw [run_modify_bind, run_gets_bind] at ran
  dsimp only at ran
  rw [if_neg mounted, if_pos (by simpa using denied)] at ran
  exact nomatch (congrArg Prod.fst ran)

/-- The file of one cluster, with a size. -/
def sizedFile (size : Nat) : OpenFile :=
  (opened (sampleVolume 2)).withFile fun file => { file with size := size }

theorem sizedFile_reads {size : Nat} (fits : size ≤ 512) : (sizedFile size).Reads [2] where
  layout := sampleGeometry_layout
  shift := Nat.zero_le 7
  ready := ⟨fun _ _ => rfl, fun _ _ => rfl⟩
  isChain :=
    ((sampleVolume_chains 2).each [2] (List.mem_singleton_self [2])).congr rfl fun _ _ => rfl
  apart := nofun
  mounted := nofun
  clean := rfl
  fits := fits
  small := fits.trans_lt (by decide)
  clust := by
    change [2][0 / sampleGeometry.clustSize]? = some 2
    rw [Nat.zero_div]
    rfl
  sect := rfl
  buf := rfl

end NTux.Fat32
