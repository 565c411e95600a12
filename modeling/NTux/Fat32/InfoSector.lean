import NTux.Fat32.Coherence

/-! # The sector of the counters

`sync_fs` writes the number of free clusters and the cluster that was taken last to the sector
`info_sect`, whatever this sector is: that it had the signatures of an `FsInfo` is known only to
`fat_mount`. Where it had them, nothing but the two fields is changed as long as the buffer is
this sector whenever it says so; where it had none, nothing is changed as long as no cluster is
taken or freed (`infoSafe_of_run`).
-/

namespace NTux.Fat32

open NTux.Foundation Command

variable {v w u : Volume} {access : Access} {valid : Prop} {sect : Nat}

/-! ## What has to stay -/

/-- The three signatures of an `FsInfo`. -/
def Sector.HasInfo (buf : Sector) : Prop :=
  buf.readLE 508 4 = fsinfoTailSig ∧ buf.readLE 0 4 = fsinfoHeadSig ∧
    buf.readLE 484 4 = fsinfoStructSig

instance (buf : Sector) : Decidable buf.HasInfo := inferInstanceAs (Decidable (_ ∧ _))

/-- The bytes that `sync_fs` has to leave: all of them, or where there is an `FsInfo` those
outside of its two fields. -/
def infoRest (valid : Prop) : Set Nat := {off | valid → off ∉ Set.Ico 488 496}

/-- The two fields are written in front of the rest. -/
theorem putInfo_eqOn (is : valid) (buf : Sector) (lastUsed freeCnt : Nat) :
    Set.EqOn ((buf.writeLE 492 4 lastUsed).writeLE 488 4 freeCnt) buf (infoRest valid) := by
  intro off rest
  have outside := rest is
  rw [Memory.writeLE, Memory.store_of_notMem _ _ fun inside => outside ⟨inside.1, by
    have below := inside.2
    omega⟩]
  exact Memory.store_of_notMem _ _ fun inside => outside ⟨le_trans (by decide) inside.1, inside.2⟩

/-- The buffer has the bytes of the sector that have to stay, where it may be written there, and
the counters are to be written only to an `FsInfo`. -/
structure Volume.InfoKept (valid : Prop) (sect : Nat) (v : Volume) : Prop where
  infoSect : v.fat.geometry.infoSect = sect
  held : v.fat.sect = sect → (valid ∨ v.fat.bufDirty = true) →
    Set.EqOn v.fat.buf (v.disk.sectors sect) (infoRest valid)
  marked : v.fat.infoDirty = true → valid

/-- What an access may do: what it brings into a buffer of this sector has the bytes of the
sector that have to stay, and no counters are to be written where there is no `FsInfo`. -/
def Access.KeepsInfo (valid : Prop) (v : Volume) : Access → Prop
  | load _ => ∀ junk, v.disk.answer v.disk.count = some junk → valid →
      v.fat.sect = v.fat.geometry.infoSect →
        Set.EqOn junk (v.disk.sectors v.fat.geometry.infoSect) (infoRest valid)
  | zero sect => sect = v.fat.geometry.infoSect →
      Set.EqOn (fun _ => 0) (v.disk.sectors v.fat.geometry.infoSect) (infoRest valid)
  | edit change => v.fat.sect = v.fat.geometry.infoSect →
      Set.EqOn (change v.fat.buf) (v.disk.sectors v.fat.geometry.infoSect) (infoRest valid)
  | mark infoDirty => infoDirty = true → valid
  | save buf sect => v.disk.answer v.disk.count = none → sect = v.fat.geometry.infoSect →
      v.fat.sect = v.fat.geometry.infoSect → (valid ∨ v.fat.bufDirty = true) →
        Set.EqOn v.fat.buf buf (infoRest valid)
  | _ => True

/-- An access with which `InfoKept` is kept. -/
theorem Volume.InfoKept.step (kept : v.InfoKept valid sect) (allowed : access.KeepsInfo valid v)
    (step : access.Step v w) : w.InfoKept valid sect := by
  obtain ⟨infoSect, held, marked⟩ := kept
  obtain ⟨ready, rfl⟩ := step
  unfold Access.KeepsInfo at allowed
  rw [infoSect] at allowed
  cases access with
  | flush =>
      change (syncBuf.run v).2.InfoKept valid sect
      rcases syncBuf_cases v with ⟨-, ran⟩ | ⟨-, u, ran, fat, sectors, -⟩ | ⟨-, u, ran, fat, sectors⟩
      · rw [ran]
        exact ⟨infoSect, held, marked⟩
      · rw [ran]
        refine ⟨by rw [fat, ← infoSect], fun here _ => ?_, fun dirty => marked (by rwa [fat] at dirty)⟩
        have same : v.fat.sect = sect := by rw [← here, fat]
        rw [sectors, fat, same, Function.update_self]
        exact Set.eqOn_refl _ _
      · rw [ran]
        refine ⟨fat ▸ infoSect, ?_, fat ▸ marked⟩
        rw [fat, sectors]
        exact held
  | load other =>
      change ((loadBuf other).run v).2.InfoKept valid sect
      have clean : v.fat.bufDirty = false := ready
      rcases loadBuf_cases other v with ⟨-, u, ran, fat, sectors⟩ | ⟨junk, some, u, ran, fat, sectors⟩
      · rw [ran]
        refine ⟨by rw [fat, ← infoSect], fun here _ => ?_, fun dirty => marked (by rwa [fat] at dirty)⟩
        have same : other = sect := by rw [← here, fat]
        rw [sectors, fat, same]
        exact Set.eqOn_refl _ _
      · rw [ran]
        refine ⟨by rw [fat, ← infoSect], fun here may => ?_, fun dirty => marked (by rwa [fat] at dirty)⟩
        rw [fat] at here may
        rw [sectors, fat]
        exact allowed junk some (may.resolve_right fun dirty => nomatch clean.symm.trans dirty) here
  | zero other => exact ⟨infoSect, fun here _ => allowed here, marked⟩
  | edit change => exact ⟨infoSect, fun here _ => allowed here, marked⟩
  | settle lastUsed freeCnt => exact ⟨infoSect, held, marked⟩
  | mark infoDirty => exact ⟨infoSect, held, allowed⟩
  | note mishap => exact ⟨infoSect, held, marked⟩
  | fetch other =>
      have split : ((Access.fetch other).command).run v =
          (diskRead other >>= fun _ => pure ()).run v := rfl
      rcases diskRead_cases other v with read | ⟨junk, failed⟩
      · rw [split, run_bind_ok read]
        exact ⟨infoSect, held, marked⟩
      · rw [split, run_bind_ok failed]
        exact ⟨infoSect, held, marked⟩
  | save buf other =>
      change ((diskWrite buf other).run v).2.InfoKept valid sect
      cases given : v.disk.answer v.disk.count with
      | some junk =>
          rw [diskWrite_some given]
          exact ⟨infoSect, held, marked⟩
      | none =>
          rw [diskWrite_none given]
          refine ⟨infoSect, fun here may => ?_, marked⟩
          dsimp only
          by_cases same : other = sect
          · rw [same, Function.update_self]
            exact allowed given same here may
          · rw [Function.update_of_ne (Ne.symm same)]
            exact held here may

/-! ## `sync_fs` -/

/-- The beginning of `sync_fs`. -/
theorem Volume.InfoKept.syncBuf (kept : v.InfoKept valid sect) :
    Set.EqOn ((NTux.Fat32.syncBuf.run v).2.disk.sectors sect) (v.disk.sectors sect) (infoRest valid) := by
  rcases syncBuf_cases v with ⟨-, ran⟩ | ⟨dirty, u, ran, -, sectors, -⟩ | ⟨-, u, ran, -, sectors⟩
  · rw [ran]
    exact Set.eqOn_refl _ _
  · rw [ran]
    change Set.EqOn (u.disk.sectors sect) _ _
    rw [sectors]
    by_cases here : v.fat.sect = sect
    · rw [here, Function.update_self]
      exact kept.held here (.inr dirty)
    · rw [Function.update_of_ne (Ne.symm here)]
      exact Set.eqOn_refl _ _
  · rw [ran]
    change Set.EqOn (u.disk.sectors sect) _ _
    rw [sectors]
    exact Set.eqOn_refl _ _

/-- `sync_fs` leaves the bytes that have to stay. -/
theorem Volume.InfoKept.syncFs (kept : v.InfoKept valid sect) :
    Set.EqOn ((NTux.Fat32.syncFs.run v).2.disk.sectors sect) (v.disk.sectors sect)
      (infoRest valid) := by
  have first := kept.syncBuf
  have kept' := kept.step (show Access.KeepsInfo valid v .flush from trivial) ⟨trivial, rfl⟩
  change ((NTux.Fat32.syncBuf.run v).2).InfoKept valid sect at kept'
  unfold NTux.Fat32.syncFs
  rw [run_bind]
  generalize synced : NTux.Fat32.syncBuf.run v = ended at first kept'
  obtain ⟨_ | ⟨⟩, u⟩ := ended
  · exact first
  dsimp only at first kept' ⊢
  have clean := (syncBuf_clean synced).1
  refine Set.EqOn.trans ?_ first
  rw [run_gets_bind]
  by_cases dirty : u.fat.infoDirty = true
  swap
  · rw [if_neg dirty]
    exact Set.eqOn_refl _ _
  rw [if_pos dirty, kept'.infoSect]
  have is := kept'.marked dirty
  -- the sector comes into the buffer, or nothing is written
  have moved : (∃ x, (updateBuf sect).run u = (.ok (), x) ∧ x.fat.sect = sect ∧
      x.InfoKept valid sect ∧ x.disk.sectors = u.disk.sectors) ∨
      ∃ err x, (updateBuf sect).run u = (.error err, x) ∧ x.disk.sectors = u.disk.sectors := by
    by_cases here : u.fat.sect = sect
    · exact .inl ⟨u, updateBuf_here here, here, kept', rfl⟩
    · have still : NTux.Fat32.syncBuf.run u = (.ok (), u) := by
        rcases syncBuf_cases u with ⟨-, ran⟩ | ⟨dirty', -⟩ | ⟨dirty', -⟩
        · exact ran
        · cases clean.symm.trans dirty'
        · cases clean.symm.trans dirty'
      rw [updateBuf_of_ne here, run_bind_ok still]
      rcases loadBuf_cases sect u with ⟨-, x, ran, fat, sectors⟩ | ⟨junk, -, x, ran, fat, sectors⟩
      · refine .inl ⟨x, ran, by rw [fat], ⟨by rw [fat, ← kept'.infoSect], fun _ _ => ?_, fun _ => is⟩,
          sectors⟩
        rw [fat, sectors]
        exact Set.eqOn_refl _ _
      · exact .inr ⟨_, x, ran, sectors⟩
  rcases moved with ⟨x, ran, here, kept'', sectors⟩ | ⟨err, x, ran, sectors⟩
  · rw [run_bind_ok ran, run_gets_bind, ← sectors]
    -- what is written has the bytes that have to stay
    obtain ⟨y, edited, keptY, same⟩ : ∃ y, (editBuf fun buf => (buf.writeLE 492 4
        x.fat.lastUsed).writeLE 488 4 x.fat.freeCnt).run x = (.ok (), y) ∧ y.InfoKept valid sect ∧
        y.disk.sectors = x.disk.sectors :=
      ⟨_, rfl, ⟨kept''.infoSect, fun _ _ => (putInfo_eqOn is _ _ _).trans
        (kept''.held here (.inl is)), fun _ => is⟩, rfl⟩
    have last := keptY.syncBuf
    rw [run_bind_ok edited, run_bind, ← same]
    generalize NTux.Fat32.syncBuf.run y = ended at last
    obtain ⟨_ | ⟨⟩, z⟩ := ended
    · exact last
    · exact last
  · rw [run_bind_error ran, sectors]
    exact Set.eqOn_refl _ _

/-! ## Runs -/

/-- The accesses of a call do what they may do. -/
def AllKeepInfo (valid : Prop) (v : Volume) (accesses : List Access) : Prop :=
  ∃ w, Run (Guarded (fun v a => Access.KeepsInfo valid v a) Access.Step) v accesses w

/-- Wherever the accesses lead to, `sync_fs` changes nothing of the sector of the counters but
the two fields of an `FsInfo`. -/
structure InfoSafe (valid : Prop) (v : Volume) (accesses : List Access) : Prop where
  untouched : ¬ valid → ∀ past u, past <+: accesses → Run Access.Step v past u →
    (syncFs.run u).2.disk.sectors v.fat.geometry.infoSect = u.disk.sectors v.fat.geometry.infoSect
  fields : valid → ∀ past u, past <+: accesses → Run Access.Step v past u →
    ∀ off, off ∉ Set.Ico 488 496 → (syncFs.run u).2.disk.sectors v.fat.geometry.infoSect off =
      u.disk.sectors v.fat.geometry.infoSect off

/-- The accesses of calls that are all allowed. -/
theorem AllKeepInfo.run {calls : List (List Access)}
    (run : Run (Guarded (AllKeepInfo valid) Served) v calls w) :
    Run (Guarded (fun v a => Access.KeepsInfo valid v a) Access.Step) v calls.flatten w := by
  induction run with
  | nil v => exact .nil v
  | @cons v u w accesses calls call _ ih =>
      obtain ⟨⟨x, guarded⟩, served⟩ := call
      exact (Run.guarded_initial Access.step_function guarded List.prefix_rfl served.2).append ih

/-- **The sector of the counters.** From `fat_mount` on, `sync_fs` leaves a sector without the
signatures of an `FsInfo` as it is, and one with them but for the two fields, as long as the
accesses of every call are allowed. -/
theorem infoSafe_of_run {disk disk' : Disk} {partition : Fin 4} {fat f : Fat} {name : List Byte}
    {buf : Sector} (mounted : fatMount disk partition fat name = (.ok f, buf, disk'))
    (held : f.geometry.infoSect = 0 → (buf.HasInfo ∨ fat.bufDirty = true) →
      Set.EqOn fat.buf (disk.sectors 0) (infoRest buf.HasInfo))
    (marked : fat.infoDirty = true → buf.HasInfo) {calls : List (List Access)}
    (run : Run (Guarded (AllKeepInfo buf.HasInfo) Served) ⟨f, disk', []⟩ calls w) :
    InfoSafe buf.HasInfo ⟨f, disk', []⟩ calls.flatten := by
  obtain ⟨sect, contents, bufDirty, infoDirty, sectors⟩ := (fatMount_mounted mounted).1
  have initial : Volume.InfoKept buf.HasInfo f.geometry.infoSect ⟨f, disk', []⟩ := by
    refine ⟨rfl, fun here may => ?_, fun dirty => marked (infoDirty ▸ dirty)⟩
    rw [sect] at here
    rw [bufDirty] at may
    rw [contents, sectors, ← here]
    exact held here.symm may
  have kept : ∀ past u, past <+: calls.flatten → Run Access.Step ⟨f, disk', []⟩ past u →
      Set.EqOn ((syncFs.run u).2.disk.sectors f.geometry.infoSect)
        (u.disk.sectors f.geometry.infoSect) (infoRest buf.HasInfo) := by
    intro past u before reached
    have guarded := Run.guarded_initial Access.step_function (AllKeepInfo.run run) before reached
    have kept : u.InfoKept buf.HasInfo f.geometry.infoSect :=
      guarded.invariant (fun _ _ _ kept step => kept.step step.1 step.2) initial
    exact kept.syncFs
  refine ⟨fun none past u before reached => funext fun off => ?_, ?_⟩
  · exact kept past u before reached fun is => absurd is none
  · exact fun _ past u before reached off outside => kept past u before reached fun _ => outside

/-- A volume without an `FsInfo` is synchronized. -/
theorem infoSafe_sample : InfoSafe (sampleBoot 1).HasInfo (bootVolume fun _ => 0) [.flush] := by
  have step : Access.Step (bootVolume fun _ => 0) .flush (bootVolume fun _ => 0) := ⟨trivial, rfl⟩
  have guarded : Run (Guarded (AllKeepInfo (sampleBoot 1).HasInfo) Served) (bootVolume fun _ => 0)
      [[.flush]] (bootVolume fun _ => 0) :=
    .single ⟨⟨_, .single ⟨trivial, step⟩⟩, ⟨0, .sync, rfl⟩, .single step⟩
  have none : ¬ (sampleBoot 1).HasInfo := by decide
  refine infoSafe_of_run (bootVolume_mounted fun _ => 0) (fun _ may => ?_) nofun guarded
  exact absurd may (not_or.mpr ⟨none, nofun⟩)

/-- A boot sector of a volume without an `FsInfo`. -/
def brokenBoot : Sector := (sampleBoot 1).writeLE 44 4 2

/-- The root of the volume has a free slot, and an entry with a cluster that is free. -/
def brokenRoot : Sector :=
  (((Memory.store (fun _ => 0) 32 11 fun _ => sfnPad).writeLE 43 1 attrArchive).writeLE 58 2 5).writeLE
    0 1 0xe5

def brokenDisk : Disk where
  sectors := fun sect => if sect = 0 then brokenBoot else if sect = 1056 then brokenRoot else fun _ => 0
  answer := fun _ => none
  count := 0

/-- The volume is mounted. -/
def brokenVolume : Volume where
  fat := { unmountedFat fun _ => 0 with geometry := brokenBoot.bpb.geometry 0
                                        lastUsed := 2
                                        freeCnt := 0xFFFFFFFF
                                        name := [0x61] }
  disk := { brokenDisk with count := 2 }
  mishaps := []

/-- `fat_unlink` of a path in the root. -/
def brokenUnlink : Operation :=
  .dir .unlink ⟨brokenVolume, ⟨0, 0, 0, 0⟩, none, [slash, 0x62], fun _ => 0, 0, 0⟩

/-- Where `fat_unlink` fails after it has begun to free clusters, the next `fat_sync` writes to
the boot sector. -/
theorem infoSafe_not_unlink : ¬ ∀ (disk disk' : Disk) (partition : Fin 4) (fat f : Fat)
    (name : List Byte) (buf : Sector) (fuel : Nat) (operation : Operation),
    fatMount disk partition fat name = (.ok f, buf, disk') → ¬ buf.HasInfo →
      (syncFs.run (operation.after fuel ⟨f, disk', []⟩)).2.disk.sectors f.geometry.infoSect =
        (operation.after fuel ⟨f, disk', []⟩).disk.sectors f.geometry.infoSect := by
  intro claim
  have info : mountInfo brokenBoot = (2, 0xFFFFFFFF) := by decide
  have mounted : fatMount brokenDisk 0 (unmountedFat fun _ => 0) [0x61] =
      (.ok brokenVolume.fat, brokenBoot, brokenVolume.disk) := by
    have first : brokenDisk.sectors 0 = brokenBoot := rfl
    rw [fatMount_boot first (fun _ _ => rfl) (by decide) (by decide), info]
    rfl
  have same := claim _ _ _ _ _ _ _ 3 brokenUnlink mounted (by decide)
  -- a byte of the number of free clusters
  have before : (brokenUnlink.after 3 brokenVolume).disk.sectors 0 488 = 0 := rfl
  have after : (syncFs.run (brokenUnlink.after 3 brokenVolume)).2.disk.sectors 0 488 = 0xFF := rfl
  have infoSect : brokenVolume.fat.geometry.infoSect = 0 := by decide
  rw [infoSect] at same
  have byte : (0xFF : Byte) = 0 := after.symm.trans ((congrFun same 488).trans before)
  exact absurd byte (by decide)

end NTux.Fat32
