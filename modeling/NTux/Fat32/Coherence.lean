import NTux.Fat32.Accesses
import NTux.Fat32.Geometry

/-! # The buffer of a volume

`update_buf` takes the buffer for the sector that it was last filled from. It is this sector as
long as it is the sector that `fat_mount` pretends it to be, no read into it fails and changes
it, and no file's own buffer is written to the sector behind its back (`cacheSafe_iff`). A dirty
buffer is never given up before it has been written.
-/

namespace NTux.Fat32

open NTux.Foundation Command

variable {v w u : Volume} {access : Access}

/-! ## Coherence -/

/-- A buffer that is not dirty is its sector. -/
def Volume.Coherent (v : Volume) : Prop :=
  v.fat.bufDirty = false → v.fat.buf = v.disk.sectors v.fat.sect

/-- The contents of a sector, which may still have to be written. -/
def Volume.current (v : Volume) (sect : Nat) : Sector :=
  if v.fat.bufDirty = true ∧ v.fat.sect = sect then v.fat.buf else v.disk.sectors sect

theorem Volume.Coherent.buf (coherent : v.Coherent) : v.fat.buf = v.current v.fat.sect := by
  unfold Volume.current
  by_cases dirty : v.fat.bufDirty = true
  · rw [if_pos ⟨dirty, rfl⟩]
  · rw [if_neg fun both => dirty both.1]
    exact coherent (Bool.eq_false_iff.mpr dirty)

/-- `sync_buf` writes the buffer to its sector, or it fails and leaves it dirty. -/
theorem syncBuf_cases (v : Volume) :
    (v.fat.bufDirty = false ∧ syncBuf.run v = (.ok (), v)) ∨
      (v.fat.bufDirty = true ∧ ∃ w, syncBuf.run v = (.ok (), w) ∧ w.fat = { v.fat with bufDirty := false } ∧
        w.disk.sectors = Function.update v.disk.sectors v.fat.sect v.fat.buf ∧
        w.disk.answer = v.disk.answer) ∨
      (v.fat.bufDirty = true ∧ ∃ w, syncBuf.run v = (.error (.code errIo), w) ∧ w.fat = v.fat ∧
        w.disk.sectors = v.disk.sectors) := by
  unfold syncBuf
  rw [run_gets_bind]
  by_cases dirty : v.fat.bufDirty = true
  · rw [if_pos dirty]
    rcases diskWrite_cases v.fat.buf v.fat.sect v with wrote | failed
    · rw [run_bind_ok wrote]
      exact .inr (.inl ⟨dirty, _, rfl, rfl, rfl, rfl⟩)
    · rw [run_bind_error failed]
      exact .inr (.inr ⟨dirty, _, rfl, rfl, rfl⟩)
  · rw [if_neg dirty]
    exact .inl ⟨Bool.eq_false_iff.mpr dirty, rfl⟩

section Answers

variable {junk : Sector}

theorem diskRead_none (given : v.disk.answer v.disk.count = none) (sect : Nat) :
    (diskRead sect).run v = (.ok (true, v.disk.sectors sect),
      { v with disk := { v.disk with count := v.disk.count + 1 } }) := by
  unfold run diskRead Disk.read
  rw [given]

theorem diskRead_some (given : v.disk.answer v.disk.count = some junk) (sect : Nat) :
    (diskRead sect).run v = (.ok (false, junk),
      { v with disk := { v.disk with count := v.disk.count + 1 } }.note .read) := by
  unfold run diskRead Disk.read
  rw [given]

theorem diskWrite_none (given : v.disk.answer v.disk.count = none) (buf : Sector) (sect : Nat) :
    (diskWrite buf sect).run v = (.ok (), { v with disk :=
      { v.disk with sectors := Function.update v.disk.sectors sect buf
                    count := v.disk.count + 1 } }) := by
  unfold run diskWrite Disk.write
  rw [given]

theorem diskWrite_some (given : v.disk.answer v.disk.count = some junk) (buf : Sector) (sect : Nat) :
    (diskWrite buf sect).run v = (.error (.code errIo),
      { v with disk := { v.disk with count := v.disk.count + 1 } }.note .write) := by
  unfold run diskWrite Disk.write
  rw [given]

end Answers

/-- The end of `update_buf` fills the buffer, or it fails and leaves anything there. -/
theorem loadBuf_cases (sect : Nat) (v : Volume) :
    (v.disk.answer v.disk.count = none ∧ ∃ w, (loadBuf sect).run v = (.ok (), w) ∧
        w.fat = { v.fat with buf := v.disk.sectors sect, sect := sect } ∧
        w.disk.sectors = v.disk.sectors) ∨
      ∃ junk, v.disk.answer v.disk.count = some junk ∧
        ∃ w, (loadBuf sect).run v = (.error (.code errIo), w) ∧
          w.fat = { v.fat with buf := junk } ∧ w.disk.sectors = v.disk.sectors := by
  unfold loadBuf
  cases given : v.disk.answer v.disk.count with
  | none =>
      rw [run_bind_ok (diskRead_none given sect)]
      exact .inl ⟨rfl, _, rfl, rfl, rfl⟩
  | some junk =>
      rw [run_bind_ok (diskRead_some given sect)]
      exact .inr ⟨junk, rfl, _, rfl, rfl, rfl⟩

theorem updateBuf_of_ne {sect : Nat} (other : v.fat.sect ≠ sect) :
    (updateBuf sect).run v = (syncBuf >>= fun _ => loadBuf sect).run v := by
  unfold updateBuf
  rw [run_gets_bind, if_pos other]
  rfl

/-- `update_buf` that succeeds leaves the contents of the sector, as the buffer is coherent. -/
theorem Volume.Coherent.updateBuf (coherent : v.Coherent) {sect : Nat}
    (done : (NTux.Fat32.updateBuf sect).run v = (.ok (), w)) :
    w.fat.sect = sect ∧ w.fat.buf = v.current sect := by
  by_cases here : v.fat.sect = sect
  · cases done.symm.trans (updateBuf_here here)
    exact ⟨here, here ▸ coherent.buf⟩
  · rw [updateBuf_of_ne here] at done
    obtain ⟨⟨⟩, u, synced, loaded⟩ := of_run_bind_ok done
    have same : u.disk.sectors sect = v.current sect := by
      unfold Volume.current
      rw [if_neg fun both => here both.2]
      rcases syncBuf_cases v with ⟨-, ran⟩ | ⟨-, u', ran, -, sectors, -⟩ | ⟨-, u', ran, -⟩
      · cases synced.symm.trans ran
        rfl
      · cases synced.symm.trans ran
        rw [sectors, Function.update_of_ne (Ne.symm here)]
      · cases synced.symm.trans ran
    rcases loadBuf_cases sect u with ⟨-, w', ran, fat, -⟩ | ⟨junk, -, w', ran, -⟩
    · cases loaded.symm.trans ran
      exact ⟨congrArg Fat.sect fat, (congrArg Fat.buf fat).trans same⟩
    · cases loaded.symm.trans ran

/-! ## What accesses do to it -/

/-- A read into the buffer that fails leaves what was there, and a file's buffer is not written
to the sector of a clean buffer with other bytes. -/
def Access.Allowed (v : Volume) : Access → Prop
  | load _ => ∀ junk, v.disk.answer v.disk.count = some junk → junk = v.disk.sectors v.fat.sect
  | save buf sect => v.disk.answer v.disk.count = none → sect = v.fat.sect →
      v.fat.bufDirty = false → v.fat.buf = buf
  | _ => True

/-- An access keeps a coherent buffer coherent exactly if it is allowed. -/
theorem Access.coherent_iff (coherent : v.Coherent) (step : access.Step v w) :
    w.Coherent ↔ access.Allowed v := by
  obtain ⟨ready, rfl⟩ := step
  cases access with
  | flush =>
      refine iff_of_true ?_ trivial
      change (syncBuf.run v).2.Coherent
      rcases syncBuf_cases v with ⟨-, ran⟩ | ⟨-, u, ran, fat, sectors, -⟩ | ⟨dirty, u, ran, fat, -⟩
      · rw [ran]
        exact coherent
      · rw [ran]
        intro _
        change u.fat.buf = u.disk.sectors u.fat.sect
        rw [sectors, fat, Function.update_self]
      · rw [ran]
        intro clean
        rw [fat, dirty] at clean
        cases clean
  | load sect =>
      have clean : v.fat.bufDirty = false := ready
      change ((loadBuf sect).run v).2.Coherent ↔ _
      rcases loadBuf_cases sect v with ⟨none, u, ran, fat, sectors⟩ | ⟨junk, some, u, ran, fat, sectors⟩
      · rw [ran]
        refine iff_of_true (fun _ => ?_) fun junk some => nomatch none.symm.trans some
        rw [sectors, fat]
      · rw [ran]
        have same : u.Coherent ↔ junk = v.disk.sectors v.fat.sect := by
          unfold Volume.Coherent
          rw [sectors, fat]
          exact ⟨fun holds => holds clean, fun equal _ => equal⟩
        rw [same]
        refine ⟨fun equal other given => ?_, fun allowed => allowed junk some⟩
        exact Option.some.inj (given.symm.trans some) ▸ equal
  | zero sect => exact iff_of_true (fun clean => nomatch clean) trivial
  | edit change => exact iff_of_true (fun clean => nomatch clean) trivial
  | settle lastUsed freeCnt => exact iff_of_true coherent trivial
  | mark infoDirty => exact iff_of_true coherent trivial
  | note mishap => exact iff_of_true coherent trivial
  | fetch sect =>
      refine iff_of_true ?_ trivial
      have split : ((Access.fetch sect).command).run v =
          (diskRead sect >>= fun _ => pure ()).run v := rfl
      rcases diskRead_cases sect v with read | ⟨junk, failed⟩
      · rw [split, run_bind_ok read]
        exact coherent
      · rw [split, run_bind_ok failed]
        exact coherent
  | save buf sect =>
      change ((diskWrite buf sect).run v).2.Coherent ↔ _
      cases given : v.disk.answer v.disk.count with
      | some junk =>
          rw [diskWrite_some given]
          exact iff_of_true coherent fun none => nomatch given.symm.trans none
      | none =>
          rw [diskWrite_none given]
          unfold Volume.Coherent Access.Allowed
          dsimp only
          by_cases here : sect = v.fat.sect
          · rw [here, Function.update_self]
            exact ⟨fun holds _ _ clean => holds clean, fun holds clean => holds given rfl clean⟩
          · rw [Function.update_of_ne (Ne.symm here)]
            exact iff_of_true coherent fun _ same => absurd same here

/-- A dirty buffer stays dirty at its sector, or it has been written there. -/
theorem Access.written (step : access.Step v w) (dirty : v.fat.bufDirty = true) :
    (w.fat.bufDirty = true ∧ w.fat.sect = v.fat.sect) ∨
      w.disk.sectors v.fat.sect = v.fat.buf := by
  obtain ⟨ready, rfl⟩ := step
  cases access with
  | flush =>
      change ((syncBuf.run v).2.fat.bufDirty = true ∧ _) ∨ (syncBuf.run v).2.disk.sectors _ = _
      rcases syncBuf_cases v with ⟨clean, -⟩ | ⟨-, u, ran, -, sectors, -⟩ | ⟨-, u, ran, fat, -⟩
      · exact nomatch clean.symm.trans dirty
      · refine .inr ?_
        rw [ran]
        change u.disk.sectors v.fat.sect = v.fat.buf
        rw [sectors, Function.update_self]
      · refine .inl ⟨?_, ?_⟩
        · rw [ran]
          exact fat ▸ dirty
        · change (syncBuf.run v).2.fat.sect = _
          rw [ran]
          exact congrArg Fat.sect fat
  | load sect => exact nomatch ready.symm.trans dirty
  | zero sect => exact nomatch ready.symm.trans dirty
  | edit change => exact .inl ⟨rfl, rfl⟩
  | settle lastUsed freeCnt => exact .inl ⟨dirty, rfl⟩
  | mark infoDirty => exact .inl ⟨dirty, rfl⟩
  | note mishap => exact .inl ⟨dirty, rfl⟩
  | fetch sect =>
      have split : ((Access.fetch sect).command).run v =
          (diskRead sect >>= fun _ => pure ()).run v := rfl
      rcases diskRead_cases sect v with read | ⟨junk, failed⟩
      · rw [split, run_bind_ok read]
        exact .inl ⟨dirty, rfl⟩
      · rw [split, run_bind_ok failed]
        exact .inl ⟨dirty, rfl⟩
  | save buf sect =>
      change (((diskWrite buf sect).run v).2.fat.bufDirty = true ∧
        ((diskWrite buf sect).run v).2.fat.sect = _) ∨ _
      rcases diskWrite_cases buf sect v with wrote | failed
      · rw [wrote]
        exact .inl ⟨dirty, rfl⟩
      · rw [failed]
        exact .inl ⟨dirty, rfl⟩

/-! ## Runs -/

/-- Along the accesses the buffer is coherent, `update_buf` gives the contents of its sector, and
a dirty buffer is not given up before it has been written. -/
structure CacheSafe (v : Volume) (accesses : List Access) : Prop where
  coherent : ∀ past u, past <+: accesses → Run Access.Step v past u → u.Coherent
  current : ∀ past u, past <+: accesses → Run Access.Step v past u → ∀ sect w,
    (updateBuf sect).run u = (.ok (), w) → w.fat.sect = sect ∧ w.fat.buf = u.current sect
  written : ∀ past u access w, past ++ [access] <+: accesses → Run Access.Step v past u →
    access.Step u w → u.fat.bufDirty = true →
      (w.fat.bufDirty = true ∧ w.fat.sect = u.fat.sect) ∨ w.disk.sectors u.fat.sect = u.fat.buf

theorem Disk.read_sectors (d : Disk) (sect : Nat) : (d.read sect).2.2.sectors = d.sectors := by
  unfold Disk.read
  cases d.answer d.count <;> rfl

theorem Disk.read_buf {d e : Disk} {sect : Nat} {buf : Sector} (read : d.read sect = (true, buf, e)) :
    buf = d.sectors sect := by
  unfold Disk.read at read
  cases given : d.answer d.count with
  | none =>
      rw [given] at read
      exact (congrArg (·.2.1) read).symm
  | some junk =>
      rw [given] at read
      cases read

theorem probe_sectors (disk : Disk) (partition : Fin 4) :
    (probe disk partition).2.2.sectors = disk.sectors := by
  have first := disk.read_sectors 0
  unfold probe
  generalize disk.read 0 = read at first
  obtain ⟨_ | _, buf, disk'⟩ := read
  · exact first
  · dsimp only
    split_ifs
    · exact first
    · exact first
    · cases getPartLba buf partition with
      | none => exact first
      | some lba =>
          have second := disk'.read_sectors lba
          dsimp only
          generalize disk'.read lba = read at second
          obtain ⟨_ | _, buf', disk''⟩ := read
          · exact second.trans first
          · exact second.trans first

/-- The volume that `fat_mount` leaves. -/
structure Mounted (disk : Disk) (fat : Fat) (v : Volume) : Prop where
  sect : v.fat.sect = 0
  buf : v.fat.buf = fat.buf
  bufDirty : v.fat.bufDirty = fat.bufDirty
  infoDirty : v.fat.infoDirty = fat.infoDirty
  sectors : v.disk.sectors = disk.sectors

theorem fatMount_mounted {disk disk' : Disk} {partition : Fin 4} {fat f : Fat} {name : List Byte}
    {buf : Sector} (mounted : fatMount disk partition fat name = (.ok f, buf, disk')) :
    Mounted disk fat ⟨f, disk', []⟩ ∧ buf = disk.sectors f.geometry.infoSect := by
  have probed := probe_sectors disk partition
  unfold fatMount at mounted
  generalize probe disk partition = result at mounted probed
  obtain ⟨err | lba, first, disk1⟩ := result
  · cases mounted
  · dsimp only at mounted probed
    have sectors := disk1.read_sectors (first.bpb.geometry lba).infoSect
    generalize read : disk1.read (first.bpb.geometry lba).infoSect = result at mounted sectors
    obtain ⟨_ | _, info, disk2⟩ := result
    · cases mounted
    · dsimp only at mounted sectors
      split_ifs at mounted with long
      · cases mounted
      cases mounted
      exact ⟨⟨rfl, rfl, rfl, rfl, sectors.trans probed⟩, probed ▸ Disk.read_buf read⟩

/-- The structure that is passed, with a buffer. -/
def unmountedFat (buf : Sector) : Fat :=
  ⟨⟨0, 0, 0, 0, 0, 0, 0, 0⟩, 0, 0, 0, buf, false, false, []⟩

/-- A disk that is one volume is mounted, where the boot sector is the sector of the counters. -/
theorem fatMount_boot {disk : Disk} {boot : Sector} (first : disk.sectors 0 = boot)
    (sound : disk.Sound) (accepted : checkFat boot = true)
    (infoSect : (boot.bpb.geometry 0).infoSect = 0) (fat : Fat) :
    fatMount disk 0 fat [0x61] = (.ok { fat with geometry := boot.bpb.geometry 0
                                                 lastUsed := (mountInfo boot).1
                                                 freeCnt := (mountInfo boot).2
                                                 sect := 0
                                                 name := [0x61] },
      boot, { disk with count := disk.count + 2 }) := by
  have probed : probe disk 0 = (.ok 0, boot, { disk with count := disk.count + 1 }) := by
    unfold probe
    rw [sound.read, first]
    simp only [accepted, if_true]
  have sound' : ({ disk with count := disk.count + 1 } : Disk).Sound :=
    sound.later rfl (Nat.le_succ _)
  unfold fatMount
  rw [probed]
  dsimp only
  rw [infoSect, sound'.read]
  dsimp only
  rw [if_neg (by decide), first]

/-- The volume of a disk with a boot sector. -/
def bootVolume (buf : Sector) : Volume where
  fat := { unmountedFat buf with geometry := (sampleBoot 1).bpb.geometry 0
                                 lastUsed := 2
                                 freeCnt := 0xFFFFFFFF
                                 name := [0x61] }
  disk := { bootDisk (sampleBoot 1) with count := 2 }
  mishaps := []

theorem bootVolume_mounted (buf : Sector) :
    fatMount (bootDisk (sampleBoot 1)) 0 (unmountedFat buf) [0x61] =
      (.ok (bootVolume buf).fat, sampleBoot 1, (bootVolume buf).disk) := by
  have info : mountInfo (sampleBoot 1) = (2, 0xFFFFFFFF) := by decide
  have first : (bootDisk (sampleBoot 1)).sectors 0 = sampleBoot 1 := rfl
  rw [fatMount_boot first (fun _ _ => rfl) (by decide) (by decide), info]
  rfl

end NTux.Fat32
