import NTux.Fat32.Listing
import NTux.Fat32.Looking
import NTux.Fat32.OpenFiles

/-! # Accesses to the buffer and the disk

Whatever the driver does to a volume is a run of a few kinds of accesses: the buffer of the
volume is written back, filled, cleared or changed, a file's own buffer is read or written, or
a field that has nothing to do with the buffer is set. The buffer is filled and cleared only
after it has been written back (`Operation.accesses`).
-/

namespace NTux.Fat32

open NTux.Foundation Command

/-! ## The accesses -/

/-- The end of `update_buf`: the buffer is read from a sector. -/
def loadBuf (sect : Nat) : FatM Unit := do
  let (ok, buf) ← diskRead sect
  modifyFat fun fat => { fat with buf := buf }
  if ok then modifyFat fun fat => { fat with sect := sect } else fail errIo

/-- A turn of `clust_clear`: the buffer is a sector of zeros. -/
def zeroBuf (sect : Nat) : FatM Unit :=
  modifyFat fun fat => { fat with buf := fun _ => 0, bufDirty := true, sect := sect }

/-- An access. -/
inductive Access where
  | flush
  | load (sect : Nat)
  | zero (sect : Nat)
  | edit (change : Sector → Sector)
  | settle (lastUsed freeCnt : Nat)
  | mark (infoDirty : Bool)
  | fetch (sect : Nat)
  | save (buf : Sector) (sect : Nat)
  | note (mishap : Mishap)

namespace Access

/-- What an access does. -/
def command : Access → FatM Unit
  | flush => syncBuf
  | load sect => loadBuf sect
  | zero sect => zeroBuf sect
  | edit change => editBuf change
  | settle lastUsed freeCnt =>
    modifyFat fun fat => { fat with lastUsed := lastUsed, freeCnt := freeCnt }
  | mark infoDirty => modifyFat fun fat => { fat with infoDirty := infoDirty }
  | fetch sect => do
    let _ ← diskRead sect
    pure ()
  | save buf sect => diskWrite buf sect
  | note mishap => NTux.Fat32.note mishap

/-- The buffer is given up only if it is not dirty. -/
def Ready (v : Volume) : Access → Prop
  | load _ | zero _ => v.fat.bufDirty = false
  | _ => True

/-- An access that is ready is made. -/
def Step (v : Volume) (access : Access) (w : Volume) : Prop :=
  access.Ready v ∧ (access.command.run v).2 = w

theorem step_function (v : Volume) (access : Access) (w u : Volume) (first : access.Step v w)
    (second : access.Step v u) : w = u :=
  first.2.symm.trans second.2

end Access

/-- The accesses lead from the volume to the other one. -/
abbrev Volume.Accessed : Volume → Volume → Prop := Reaches Access.Step

/-- The command makes accesses only. -/
abbrev FatAccesses {α : Type} (c : FatM α) : Prop := c.Relates Volume.Accessed id

abbrev DirAccesses {α : Type} (c : DirM α) : Prop := c.Relates Volume.Accessed (·.volume)

abbrev FileAccesses {α : Type} (c : FileM α) : Prop := c.Relates Volume.Accessed (·.volume)

variable {v w : Volume} {α : Type}

/-! ## The volume -/

theorem accessed (access : Access) (ready : access.Ready v) : v.Accessed (access.command.run v).2 :=
  ⟨[access], .single ⟨ready, rfl⟩⟩

/-- An access that needs no clean buffer. -/
theorem Access.accesses (access : Access) (ready : ∀ v, access.Ready v) :
    FatAccesses access.command := fun v => accessed access (ready v)

theorem fail_accesses (err : Int) : FatAccesses (fail err : FatM α) := relates_stop _

theorem syncBuf_accesses : FatAccesses syncBuf := Access.flush.accesses fun _ => trivial

theorem editBuf_accesses (edit : Sector → Sector) : FatAccesses (editBuf edit) :=
  (Access.edit edit).accesses fun _ => trivial

theorem mark_accesses (infoDirty : Bool) :
    FatAccesses (modifyFat fun fat => { fat with infoDirty := infoDirty }) :=
  (Access.mark infoDirty).accesses fun _ => trivial

theorem note_accesses (mishap : Mishap) : FatAccesses (note mishap) :=
  (Access.note mishap).accesses fun _ => trivial

/-- A change of the counters. -/
theorem settle_accesses (lastUsed freeCnt : Fat → Nat) : FatAccesses (modifyFat fun fat =>
    { fat with lastUsed := lastUsed fat, freeCnt := freeCnt fat }) := fun v =>
  accessed (.settle (lastUsed v.fat) (freeCnt v.fat)) trivial

theorem diskWrite_accesses (buf : Sector) (sect : Nat) : FatAccesses (diskWrite buf sect) :=
  (Access.save buf sect).accesses fun _ => trivial

theorem diskRead_accesses (sect : Nat) : FatAccesses (diskRead sect) := by
  intro v
  have made : (((Access.fetch sect).command).run v).2 = ((diskRead sect).run v).2 := by
    change ((diskRead sect >>= fun _ => pure ()).run v).2 = _
    rw [run_bind]
    generalize (diskRead sect).run v = ended
    obtain ⟨_ | _, w⟩ := ended <;> rfl
  exact made ▸ accessed (.fetch sect) trivial

/-- After `sync_buf` the buffer is not dirty. -/
theorem syncBuf_clean (done : syncBuf.run v = (.ok (), w)) :
    w.fat.bufDirty = false ∧ w.fat.buf = v.fat.buf := by
  unfold syncBuf at done
  rw [run_gets_bind] at done
  by_cases dirty : v.fat.bufDirty = true
  · rw [if_pos dirty] at done
    obtain ⟨⟨⟩, u, wrote, rest⟩ := of_run_bind_ok done
    cases rest
    rcases diskWrite_cases v.fat.buf v.fat.sect v with written | written
    · obtain ⟨-, rfl⟩ := Prod.mk.inj (wrote.symm.trans written)
      exact ⟨rfl, rfl⟩
    · cases wrote.symm.trans written
  · rw [if_neg dirty] at done
    cases done
    exact ⟨by simpa using dirty, rfl⟩

theorem updateBuf_accesses (sect : Nat) : FatAccesses (updateBuf sect) := by
  intro v
  change Volume.Accessed v ((updateBuf sect).run v).2
  have split : (updateBuf sect).run v = (if v.fat.sect ≠ sect then
      syncBuf >>= fun _ => loadBuf sect else pure () : FatM Unit).run v := rfl
  rw [split]
  by_cases other : v.fat.sect ≠ sect
  · rw [if_pos other, run_bind]
    have flushed := syncBuf_accesses v
    generalize synced : syncBuf.run v = ended at flushed
    obtain ⟨_ | ⟨⟩, u⟩ := ended
    · exact flushed
    · exact trans_of Volume.Accessed flushed (accessed (.load sect) (syncBuf_clean synced).1)
  · rw [if_neg other]
    exact refl_of Volume.Accessed v

/-- Functions that only look make accesses only. -/
theorem accessed_overlooks : Overlooks Volume.Accessed := ⟨updateBuf_accesses, note_accesses⟩

theorem syncFs_accesses : FatAccesses syncFs := by
  refine syncBuf_accesses.bind fun _ => (relates_gets _).bind fun _ => .ite ?_ (relates_pure _)
  refine (updateBuf_accesses _).bind fun _ => (relates_gets _).bind fun _ => ?_
  exact (editBuf_accesses _).bind fun _ => syncBuf_accesses.bind fun _ => mark_accesses _

theorem putFat2_accesses (fatSect clust val : Nat) : FatAccesses (putFat2 fatSect clust val) :=
  (updateBuf_accesses _).bind fun _ => editBuf_accesses _

theorem putFat_accesses (clust val : Nat) : FatAccesses (putFat clust val) :=
  (relates_gets _).bind fun _ => .ite
    ((putFat2_accesses _ _ _).bind fun _ => putFat2_accesses _ _ _) (putFat2_accesses _ _ _)

theorem removeLoop_accesses (fuel clust : Nat) : FatAccesses (removeLoop fuel clust) := by
  induction fuel generalizing clust with
  | zero => exact relates_stop _
  | succ fuel ih =>
      refine (getFat_looks accessed_overlooks _).bind fun _ => .ite (fail_accesses _) ?_
      exact (putFat_accesses _ _).bind fun _ =>
        (settle_accesses Fat.lastUsed fun fat => u32 (fat.freeCnt + 1)).bind fun _ =>
          .ite (relates_pure _) (ih _)

theorem removeChain_accesses (fuel clust : Nat) : FatAccesses (removeChain fuel clust) :=
  (mark_accesses true).bind fun _ => (removeLoop_accesses _ _).bind fun _ => syncFs_accesses

theorem stretchChain_accesses (fuel prev : Nat) : FatAccesses (stretchChain fuel prev) := by
  refine (mark_accesses true).bind fun _ =>
    (findFree_looks accessed_overlooks _ _).bind fun clust => ?_
  refine (putFat_accesses _ _).bind fun _ => Relates.bind
    (.ite (putFat_accesses _ _) (relates_pure _)) fun _ => ?_
  refine (settle_accesses (fun _ => clust) fun fat => sub32 fat.freeCnt 1).bind fun _ => ?_
  exact syncFs_accesses.bind fun _ => relates_pure _

/-- The loop of `clust_clear`, from a clean buffer. -/
theorem clearLoop_accesses (count sect : Nat) : ∀ {v : Volume}, v.fat.bufDirty = false →
    v.Accessed ((clearLoop (count + 1) sect).run
      (v.withFat fun fat => { fat with buf := fun _ => 0 })).2 := by
  induction count generalizing sect with
  | zero =>
      intro v clean
      have zeroed := accessed (.zero sect) clean
      have flushed := syncBuf_accesses ((zeroBuf sect).run v).2
      refine trans_of Volume.Accessed zeroed ?_
      have split : (clearLoop 1 sect).run (v.withFat fun fat => { fat with buf := fun _ => 0 }) =
          (syncBuf >>= fun _ => pure () : FatM Unit).run ((zeroBuf sect).run v).2 := rfl
      rw [split]
      exact (syncBuf_accesses.bind fun _ => relates_pure _) _
  | succ count ih =>
      intro v clean
      refine trans_of Volume.Accessed (accessed (.zero sect) clean) ?_
      have split : (clearLoop (count + 2) sect).run
          (v.withFat fun fat => { fat with buf := fun _ => 0 }) =
          (syncBuf >>= fun _ => clearLoop (count + 1) (u32 (sect + 1))).run
            ((zeroBuf sect).run v).2 := rfl
      rw [split, run_bind]
      have flushed := syncBuf_accesses ((zeroBuf sect).run v).2
      generalize synced : syncBuf.run ((zeroBuf sect).run v).2 = ended at flushed
      obtain ⟨_ | ⟨⟩, u⟩ := ended
      · exact flushed
      · obtain ⟨clean', buf⟩ := syncBuf_clean synced
        -- the buffer is still the one of zeros
        have same : (u.withFat fun fat => { fat with buf := fun _ => 0 }) = u := by
          obtain ⟨fat, disk, mishaps⟩ := u
          obtain ⟨_, _, _, _, _, _, _, _⟩ := fat
          obtain rfl := buf
          rfl
        have rest := ih (u32 (sect + 1)) clean'
        rw [same] at rest
        exact trans_of Volume.Accessed flushed rest

theorem clustClear_accesses (clust : Nat) : FatAccesses (clustClear clust) := by
  intro v
  unfold clustClear
  rw [run_bind]
  have flushed := syncBuf_accesses v
  generalize synced : syncBuf.run v = ended at flushed
  obtain ⟨_ | ⟨⟩, u⟩ := ended
  · exact flushed
  · refine trans_of Volume.Accessed flushed ?_
    obtain ⟨count, positive⟩ := Nat.exists_eq_succ_of_ne_zero
      (Nat.two_pow_pos u.fat.geometry.clustShift).ne'
    have rest := clearLoop_accesses count (u.fat.geometry.clustToSect clust) (syncBuf_clean synced).1
    rw [← Nat.succ_eq_add_one, ← positive] at rest
    exact rest

/-! ## Files -/

theorem onVolume_accesses {c : FatM α} (accesses : FatAccesses c) : FileAccesses (onVolume c) :=
  accesses.zoom (fun _ => rfl) fun _ _ => rfl

theorem fileModify_accesses {f : OpenFile → OpenFile} (same : ∀ s, (f s).volume = s.volume) :
    FileAccesses (modify f) := relates_modify same

theorem modifyFile_accesses (f : File → File) : FileAccesses (modifyFile f) :=
  fileModify_accesses fun _ => rfl

theorem followLink_accesses (fuel : Nat) : FileAccesses (followLink fuel) :=
  (relates_gets _).bind fun _ => (onVolume_accesses (getFat_looks accessed_overlooks _)).bind fun _ =>
    .ite (relates_stop _) (.ite
      ((onVolume_accesses (stretchChain_accesses _ _)).bind fun _ => modifyFile_accesses _)
      (modifyFile_accesses _))

theorem followChain_accesses (fuel count : Nat) : FileAccesses (followChain fuel count) := by
  induction count with
  | zero => exact relates_pure _
  | succ count ih => exact (followLink_accesses fuel).bind fun _ => ih

theorem moveFile_accesses (ssect : Nat) : FileAccesses (moveFile ssect) := by
  refine (relates_gets _).bind fun _ => .ite (Relates.bind ?_ fun _ => ?_) (relates_pure _)
  · refine (relates_gets _).bind fun _ => .ite ?_ (relates_pure _)
    exact (onVolume_accesses (diskWrite_accesses _ _)).bind fun _ => modifyFile_accesses _
  · refine (relates_gets _).bind fun _ => (onVolume_accesses (diskRead_accesses _)).bind fun _ => ?_
    exact (fileModify_accesses (by intro _; rfl)).bind fun _ => .ite (relates_pure _) (relates_stop _)

theorem fatFileSeek_accesses (fuel : Nat) (offset : Int) (seek : Seek) :
    FileAccesses (fatFileSeek fuel offset seek) :=
  (relates_gets _).bind fun _ => .ite (relates_stop _) (.ite (relates_stop _)
    ((relates_gets _).bind fun _ => (modifyFile_accesses _).bind fun _ =>
      (followChain_accesses _ _).bind fun _ => (modifyFile_accesses _).bind fun _ =>
        moveFile_accesses _))

theorem openEntry_accesses (fuel fat dirSect dirIdx : Nat) (flags : OpenFlags) (sfn : Slot) :
    FileAccesses (openEntry fuel fat dirSect dirIdx flags sfn) :=
  (modifyFile_accesses _).bind fun _ => fatFileSeek_accesses _ _ _

theorem readLoop_accesses (fuel turns : Nat) (len : Int) :
    FileAccesses (readLoop fuel turns len) := by
  induction turns generalizing len with
  | zero => exact relates_stop _
  | succ turns ih =>
      exact (relates_gets _).bind fun _ => .ite (relates_pure _)
        ((fileModify_accesses (by intro _; rfl)).bind fun _ => (fatFileSeek_accesses _ _ _).bind fun _ => ih _)

theorem fatFileRead_accesses (fuel : Nat) (len : Int) : FileAccesses (fatFileRead fuel len) :=
  (fileModify_accesses (by intro _; rfl)).bind fun _ => (relates_gets _).bind fun _ => .ite (relates_stop _)
    (.ite (relates_stop _) ((modifyFile_accesses _).bind fun _ => readLoop_accesses _ _ _))

theorem writeLoop_accesses (fuel turns : Nat) (src : List Byte) (len : Int) :
    FileAccesses (writeLoop fuel turns src len) := by
  induction turns generalizing src len with
  | zero => exact relates_stop _
  | succ turns ih =>
      refine (relates_gets _).bind fun _ => .ite (relates_pure _) (.ite (relates_stop _) ?_)
      refine (fileModify_accesses (by intro _; rfl)).bind fun _ => ?_
      refine (fatFileSeek_accesses _ _ _).attempt.bind fun sought => ?_
      rcases sought with (err | _ | _) | ⟨⟩
      · exact onVolume_accesses (note_accesses _)
      · exact relates_stop _
      · exact relates_stop _
      · exact ih _ _

theorem fatFileWrite_accesses (fuel : Nat) (src : List Byte) (len : Int) :
    FileAccesses (fatFileWrite fuel src len) :=
  (fileModify_accesses (by intro _; rfl)).bind fun _ => (relates_gets _).bind fun _ => .ite (relates_stop _)
    (.ite (relates_stop _) ((modifyFile_accesses _).bind fun _ =>
      (writeLoop_accesses _ _ _ _).bind fun _ => modifyFile_accesses _))

theorem fatFileSync_accesses : FileAccesses fatFileSync := by
  refine (relates_gets _).bind fun _ => .ite (relates_stop _) ?_
  refine (onVolume_accesses (diskWrite_accesses _ _)).bind fun _ => Relates.bind ?_ fun _ =>
    (onVolume_accesses syncFs_accesses).bind fun _ => modifyFile_accesses _
  refine (relates_gets _).bind fun _ => .ite ?_ (relates_pure _)
  exact (onVolume_accesses (updateBuf_accesses _)).bind fun _ =>
    onVolume_accesses (editBuf_accesses _)

/-! ## Directories -/

theorem updateDir_accesses : DirAccesses updateDir := updateDir_looks accessed_overlooks

theorem dirNext_accesses : DirAccesses dirNext := dirNext_looks accessed_overlooks

theorem followPath_accesses (fuel : Nat) : DirAccesses (followPath fuel) :=
  followPath_looks accessed_overlooks fuel

theorem dirNextStretch_accesses (fuel : Nat) : DirAccesses (dirNextStretch fuel) := by
  refine dirNext_accesses.attempt.bind fun moved => ?_
  rcases moved with (err | _ | _) | ⟨⟩
  · refine .ite ?_ (relates_stop _)
    refine (relates_gets _).bind fun _ => (onFat_relates (stretchChain_accesses _ _)).bind fun _ => ?_
    refine (relates_gets _).bind fun _ => (modifyDir_relates _).bind fun _ => ?_
    exact onFat_relates (clustClear_accesses _)
  · exact relates_stop _
  · exact relates_stop _
  · exact relates_pure _

theorem editSlot_accesses (edit : Slot → Slot) : DirAccesses (editSlot edit) :=
  (relates_gets _).bind fun _ => onFat_relates (editBuf_accesses _)

theorem removeSlots_accesses (last : Loc) (turns : Nat) : DirAccesses (removeSlots last turns) := by
  induction turns with
  | zero => exact relates_stop _
  | succ turns ih =>
      refine updateDir_accesses.bind fun _ => (editSlot_accesses _).bind fun _ => ?_
      exact (relates_gets _).bind fun _ => .ite (relates_pure _) (dirNext_accesses.bind fun _ => ih)

theorem findRoom_accesses (fuel need turns cnt : Nat) (eod : Bool) (loc : Loc) :
    DirAccesses (findRoom fuel need turns cnt eod loc) := by
  induction turns generalizing cnt eod loc with
  | zero => exact relates_stop _
  | succ turns ih =>
      refine .ite (relates_pure _) ?_
      exact updateDir_accesses.bind fun _ => (relates_gets _).bind fun _ =>
        (dirNextStretch_accesses _).bind fun _ => ih _ _ _

theorem putFrags_accesses (name : List Byte) (crc : Byte) (i mask : Nat) :
    DirAccesses (putFrags name crc i mask) := by
  induction i generalizing mask with
  | zero => exact relates_pure _
  | succ i ih =>
      exact updateDir_accesses.bind fun _ => (editSlot_accesses _).bind fun _ =>
        dirNext_accesses.bind fun _ => ih _

theorem dirAdd_accesses (fuel : Nat) (name : List Byte) (attr clust : Nat) :
    DirAccesses (dirAdd fuel name attr clust) := by
  refine .ite (relates_stop _) ((relates_gets _).bind fun _ => (modifyDir_relates _).bind fun _ => ?_)
  refine (findRoom_accesses _ _ _ _ _ _).bind fun (eod, loc) => Relates.bind ?_ fun _ => ?_
  · exact .ite (updateDir_accesses.bind fun _ => editSlot_accesses _) (relates_pure _)
  · exact (modifyDir_relates _).bind fun _ => (putFrags_accesses _ _ _ _).bind fun _ =>
      updateDir_accesses.bind fun _ => editSlot_accesses _

/-! ## Paths -/

theorem statFrom_accesses (fuel : Nat) : DirAccesses (statFrom fuel) := by
  refine (followPath_accesses _).bind fun _ => (relates_gets _).bind fun s => .ite (relates_stop _) ?_
  cases s.loc with
  | none => exact relates_stop _
  | some loc => exact (modifyDir_relates _).bind fun _ => readEntry_looks accessed_overlooks _

theorem unlinkFrom_accesses (fuel : Nat) : DirAccesses (unlinkFrom fuel) := by
  refine (followPath_accesses _).bind fun _ => (relates_gets _).bind fun s => ?_
  refine .ite (relates_stop _) (.ite (relates_stop _) (Relates.bind (.ite ?_ (relates_pure _))
    fun _ => ?_))
  · exact (relates_gets _).bind fun _ => (relates_gets _).bind fun _ => (modifyDir_relates _).bind
      fun _ => (dirAdvance_looks accessed_overlooks _).bind fun _ =>
        (checkEmpty_looks accessed_overlooks _).bind fun _ => modifyDir_relates _
  · refine (onFat_relates (removeChain_accesses _ _)).bind fun _ => Relates.bind ?_ fun _ =>
      onFat_relates syncFs_accesses
    cases s.loc with
    | none => exact relates_stop _
    | some loc =>
        exact (relates_gets _).bind fun _ => (relates_gets _).bind fun _ =>
          (modifyDir_relates _).bind fun _ => removeSlots_accesses _ _

theorem createDir_accesses (fuel : Nat) : DirAccesses (createDir fuel) := by
  refine (relates_gets _).bind fun _ => .ite (relates_stop _) ?_
  refine (onFat_relates (stretchChain_accesses _ _)).bind fun _ => ?_
  refine (onFat_relates (clustClear_accesses _)).bind fun _ => (relates_gets _).bind fun _ => ?_
  refine (onFat_relates (updateBuf_accesses _)).bind fun _ => (relates_gets _).bind fun _ => ?_
  refine (onFat_relates (editBuf_accesses _)).bind fun _ => (dirAdd_accesses _ _ _ _).bind fun _ => ?_
  exact (modifyDir_relates _).bind fun _ => onFat_relates syncFs_accesses

theorem createFrom_accesses (fuel : Nat) : DirAccesses (createFrom fuel) := by
  refine (followPath_accesses _).attempt.bind fun followed => ?_
  rcases followed with (err | _ | _) | ⟨⟩
  · exact .ite (createDir_accesses _) (relates_stop _)
  · exact relates_stop _
  · exact relates_stop _
  · exact relates_pure _

theorem dirOpenFrom_accesses (fuel : Nat) : DirAccesses (dirOpenFrom fuel) :=
  (followPath_accesses _).bind fun _ => (relates_gets _).bind fun _ => .ite (relates_pure _)
    (updateDir_accesses.bind fun _ => (relates_gets _).bind fun _ => .ite (relates_stop _)
      (modifyDir_relates _))

theorem withFile_accesses (file : File) {c : FileM Unit} (accesses : FileAccesses c) :
    DirAccesses (withFile file c) := fun s =>
  accesses { volume := s.volume, file := file, bytes := 0, out := [], home := none }

theorem createFile_accesses (fuel : Nat) : DirAccesses (createFile fuel) :=
  (relates_gets _).bind fun _ => .ite (relates_stop _)
    ((onFat_relates (stretchChain_accesses _ _)).bind fun _ => dirAdd_accesses _ _ _ _)

theorem fileOpenFrom_accesses (fuel fat : Nat) (create : Bool) (flags : OpenFlags) (file : File) :
    DirAccesses (fileOpenFrom fuel fat create flags file) := by
  have opened : DirAccesses (gets id >>= fun s : OpenDir =>
      withFile file (openEntry fuel fat s.dir.sect s.dir.idx flags s.slot)) :=
    (relates_gets _).bind fun _ => withFile_accesses _ (openEntry_accesses _ _ _ _ _ _)
  refine (followPath_accesses _).attempt.bind fun followed => ?_
  rcases followed with (err | _ | _) | ⟨⟩
  · refine .ite (.ite ?_ ?_) ?_
    · exact (createFile_accesses _).bind fun _ => opened
    · exact Relates.bind (relates_stop _) fun _ => opened
    · exact Relates.bind (relates_stop _) fun _ => opened
  · exact Relates.bind (relates_stop _) fun _ => opened
  · exact Relates.bind (relates_stop _) fun _ => opened
  · exact opened

/-! ## Operations -/

/-- What is done to a volume by way of a path or a directory. -/
inductive DirCall where
  | stat
  | unlink
  | fileOpen (fat : Nat) (create : Bool) (flags : OpenFlags) (file : File)
  | dirCreate
  | dirOpen
  | dirRead
  | dirNext

/-- What the function does behind the name of the volume. -/
def DirCall.command (fuel : Nat) : DirCall → DirM Unit
  | stat => do
    let _ ← statFrom fuel
    pure ()
  | unlink => unlinkFrom fuel
  | fileOpen fat create flags file => do
    let _ ← fileOpenFrom fuel fat create flags file
    pure ()
  | dirCreate => createFrom fuel
  | dirOpen => dirOpenFrom fuel
  | dirRead => do
    let _ ← fatDirRead fuel
    pure ()
  | dirNext => fatDirNext

/-- A call of the driver for a volume: `fat_sync`, which is the end of `fat_umount` too, a call
for a path or a directory, a call for an open file, and `fat_file_sync`, which is
`fat_file_close` too. -/
inductive Operation where
  | sync
  | dir (call : DirCall) (s : OpenDir)
  | file (call : FileCall) (s : OpenFile)
  | fileSync (s : OpenFile)

namespace Operation

/-- The volume afterwards. -/
def after (fuel : Nat) (v : Volume) : Operation → Volume
  | sync => (syncFs.run v).2
  | dir call s => ((call.command fuel).run (s.withVolume v)).2.volume
  | file call s => ((call.command fuel).run (s.withVolume v)).2.volume
  | fileSync s => (fatFileSync.run (s.withVolume v)).2.volume

/-- **Accesses.** Every call of the driver makes accesses only. -/
theorem accesses (fuel : Nat) (v : Volume) (operation : Operation) :
    v.Accessed (operation.after fuel v) := by
  cases operation with
  | sync => exact syncFs_accesses v
  | fileSync s => exact fatFileSync_accesses (s.withVolume v)
  | file call s =>
      cases call with
      | seek offset origin => exact fatFileSeek_accesses fuel offset origin (s.withVolume v)
      | read len => exact fatFileRead_accesses fuel len (s.withVolume v)
      | write src len => exact fatFileWrite_accesses fuel src len (s.withVolume v)
  | dir call s =>
      cases call with
      | stat => exact (statFrom_accesses fuel).bind (fun _ => relates_pure _) (s.withVolume v)
      | unlink => exact unlinkFrom_accesses fuel (s.withVolume v)
      | fileOpen fat create flags file =>
          exact (fileOpenFrom_accesses fuel fat create flags file).bind (fun _ => relates_pure _)
            (s.withVolume v)
      | dirCreate => exact createFrom_accesses fuel (s.withVolume v)
      | dirOpen => exact dirOpenFrom_accesses fuel (s.withVolume v)
      | dirRead =>
          exact (readEntry_looks accessed_overlooks _).bind (fun _ => relates_pure _) (s.withVolume v)
      | dirNext => exact dirNext_accesses (s.withVolume v)

end Operation

/-- A call of the driver leads from the volume to the other one by these accesses. -/
def Served (v : Volume) (accesses : List Access) (w : Volume) : Prop :=
  (∃ fuel operation, w = Operation.after fuel v operation) ∧
    Run Access.Step v accesses w

/-- The accesses of several calls, one after the other. -/
theorem Served.run {calls : List (List Access)} (served : Run Served v calls w) :
    Run Access.Step v calls.flatten w := by
  induction served with
  | nil v => exact .nil v
  | cons call _ ih => exact call.2.append ih

end NTux.Fat32
