import NTux.Fat32.Accesses
import NTux.Fat32.DirectoryEffects
import NTux.Fat32.FreeSearch
import NTux.Fat32.Reading

/-! # Clusters that are taken

Nothing but `stretch_chain` counts clusters down, so the count of free clusters tells how many
have been taken (`Volume.Took`), whatever the volume holds. `dir_add` takes a few, as the cluster
that it stretches a directory by is all room, and following the chain of a file takes no more
than it follows links.
-/

namespace NTux.Fat32

open NTux.Foundation Command

variable {v w u : Volume} {j k m n : Nat}

/-! ## The count -/

/-- So many clusters are taken, by the count of free clusters. -/
def Volume.Took (k : Nat) (v w : Volume) : Prop :=
  (w.freeCnt + k) % 2 ^ 32 = v.freeCnt % 2 ^ 32

theorem Volume.Took.trans (first : v.Took j w) (second : w.Took k u) : v.Took (j + k) u := by
  unfold Took at *
  omega

theorem Volume.Took.after (same : v.SameCount w) (took : w.Took k u) : v.Took k u := by
  unfold Took at took ⊢
  rw [same] at took
  exact took

/-- Taking clusters shows in the count, unless it goes around. -/
theorem Volume.Took.freeCnt_ne (took : v.Took k w) (some : 0 < k) (few : k < 2 ^ 32) :
    w.freeCnt ≠ v.freeCnt := by
  intro same
  unfold Took at took
  omega

/-- Up to so many clusters are taken. -/
def Volume.TookFew (n : Nat) (v w : Volume) : Prop := ∃ k ≤ n, v.Took k w

namespace Volume.TookFew

theorem refl (v : Volume) : v.TookFew 0 v := ⟨0, le_rfl, rfl⟩

theorem mono (few : v.TookFew m w) (le : m ≤ n) : v.TookFew n w := by
  obtain ⟨k, bound, took⟩ := few
  exact ⟨k, bound.trans le, took⟩

theorem trans (first : v.TookFew m w) (second : w.TookFew n u) : v.TookFew (m + n) u := by
  obtain ⟨j, bound, took⟩ := first
  obtain ⟨k, bound', took'⟩ := second
  exact ⟨j + k, Nat.add_le_add bound bound', took.trans took'⟩

theorem of_same (same : v.SameCount w) : v.TookFew 0 w := ⟨0, le_rfl, congrArg (· % 2 ^ 32) same⟩

end Volume.TookFew

section Commands

variable {σ ε α β : Type} {part : σ → Volume}

/-- The rules of a sequence, by the clusters that each part takes. -/
theorem takes_bind {c : Command σ ε α} {f : α → Command σ ε β}
    (first : c.Relates (Volume.TookFew m) part)
    (second : ∀ a, (f a).Relates (Volume.TookFew n) part) :
    (c >>= f).Relates (Volume.TookFew (m + n)) part := by
  intro s
  have before := first s
  rw [run_bind]
  generalize c.run s = ended at before ⊢
  obtain ⟨_ | a, t⟩ := ended
  · exact before.mono (Nat.le_add_right _ _)
  · exact before.trans (second a t)

theorem takes_mono {c : Command σ ε α} (takes : c.Relates (Volume.TookFew m) part) (le : m ≤ n) :
    c.Relates (Volume.TookFew n) part := fun s => (takes s).mono le

/-- A command that takes nothing. -/
theorem takes_none {c : Command σ ε α} (same : c.Relates Volume.SameCount part) :
    c.Relates (Volume.TookFew n) part := fun s =>
  (Volume.TookFew.of_same (same s)).mono (Nat.zero_le _)

/-- A command behind one that takes nothing. -/
theorem takes_then {c : Command σ ε α} {f : α → Command σ ε β}
    (first : c.Relates Volume.SameCount part) (second : ∀ a, (f a).Relates (Volume.TookFew n) part) :
    (c >>= f).Relates (Volume.TookFew n) part :=
  takes_mono (takes_bind (m := 0) (takes_none first) second) (Nat.zero_add n).le

end Commands

/-- `stretch_chain` takes a cluster, or none. -/
theorem stretchChain_takes (fuel prev : Nat) :
    (stretchChain fuel prev).Relates (Volume.TookFew 1) id := by
  have counted : ∀ clust, (modifyFat fun fat =>
      { fat with lastUsed := clust, freeCnt := sub32 fat.freeCnt 1 }).Relates
        (Volume.TookFew 1) id := by
    intro clust v
    refine ⟨1, le_rfl, ?_⟩
    change (sub32 v.fat.freeCnt 1 + 1) % 2 ^ 32 = v.fat.freeCnt % 2 ^ 32
    unfold sub32
    omega
  have marked : (modifyFat fun fat => { fat with infoDirty := true }).Relates
      Volume.SameCount id := fun _ => rfl
  refine takes_then marked fun _ => takes_then (findFree_keeps _ _) fun clust => ?_
  refine takes_then (putFat_keeps _ _) fun _ => takes_then (linkFrom_keeps _ _) fun _ => ?_
  refine takes_bind (n := 0) (counted clust) fun _ => takes_none ?_
  exact syncFs_keeps.bind fun _ => keeps_pure _

theorem stretchChain_took {fuel prev c : Nat} (done : (stretchChain fuel prev).run v = (.ok c, w)) :
    v.Took 1 w := by
  have counted := stretchChain_counts done
  unfold Volume.Took
  rw [counted, sub32]
  omega

/-! ## Disks without faults -/

/-- An access to a disk without faults. -/
theorem Access.Step.sound {access : Access} (step : access.Step v w) (sound : v.disk.Sound) :
    w.disk.Sound := by
  obtain ⟨-, rfl⟩ := step
  have nowhere : v.Ready ∅ := ⟨sound, fun _ inside => absurd inside (Set.notMem_empty _)⟩
  cases access with
  | flush =>
      obtain ⟨w, synced, ready, -⟩ := syncBuf_spec nowhere
      change (syncBuf.run v).2.disk.Sound
      rw [synced]
      exact ready.sound
  | load sect =>
      change ((loadBuf sect).run v).2.disk.Sound
      unfold loadBuf
      rw [run_bind_ok (diskRead_sound sound sect)]
      exact sound.later rfl (Nat.le_succ _)
  | fetch sect =>
      change ((diskRead sect >>= fun _ => pure () : FatM Unit).run v).2.disk.Sound
      rw [run_bind_ok (diskRead_sound sound sect)]
      exact sound.later rfl (Nat.le_succ _)
  | save buf sect =>
      change ((diskWrite buf sect).run v).2.disk.Sound
      rw [diskWrite_sound sound]
      exact sound.later rfl (Nat.le_succ _)
  | zero sect => exact sound
  | edit change => exact sound
  | settle lastUsed freeCnt => exact sound
  | mark infoDirty => exact sound
  | note mishap => exact sound

theorem Volume.Accessed.sound (accessed : v.Accessed w) (sound : v.disk.Sound) : w.disk.Sound := by
  obtain ⟨accesses, run⟩ := accessed
  exact @Run.invariant _ _ _ _ _ _ (fun v : Volume => v.disk.Sound)
    (fun _ _ _ sound step => step.sound sound) run sound

theorem accesses_sound {α : Type} {c : DirM α} {s t : OpenDir} {result : Except Stop α}
    (accesses : DirAccesses c) (sound : s.volume.disk.Sound) (ran : c.run s = (result, t)) :
    t.volume.disk.Sound := by
  have accessed := accesses s
  rw [ran] at accessed
  exact accessed.sound sound

/-! ## A cluster that is cleared -/

/-- The buffer is a sector of zeros, and the driver sees it in a sector. -/
structure Volume.Zeroed (sect : Nat) (v : Volume) : Prop where
  ready : v.Ready Set.univ
  buf : v.fat.buf = fun _ => 0
  sector : v.disk.sectors sect = fun _ => 0

theorem Volume.Zeroed.view {sect : Nat} (zeroed : v.Zeroed sect) : v.view sect = fun _ => 0 := by
  unfold Volume.view
  split
  · exact zeroed.buf
  · exact zeroed.sector

/-- A turn of `clust_clear`. -/
theorem clearSector_zeroed (sound : v.disk.Sound) (zeros : v.fat.buf = fun _ => 0) (sect : Nat) :
    ∃ w, syncBuf.run (v.withFat fun fat => { fat with bufDirty := true, sect := sect }) =
        (.ok (), w) ∧ w.Zeroed sect ∧ ∀ other, v.Zeroed other → w.Zeroed other := by
  have dirty : (v.withFat fun fat => { fat with bufDirty := true, sect := sect }).fat.bufDirty =
      true := rfl
  unfold syncBuf
  rw [run_gets_bind, if_pos dirty, run_bind_ok (diskWrite_sound (v := v.withFat _) sound _ _)]
  have written : Function.update v.disk.sectors sect v.fat.buf sect = v.fat.buf :=
    Function.update_self _ _ _
  have ready : ∀ w : Volume, w.disk.answer = v.disk.answer → v.disk.count ≤ w.disk.count →
      w.disk.sectors = Function.update v.disk.sectors sect v.fat.buf → w.fat.sect = sect →
      w.fat.buf = v.fat.buf → w.Ready Set.univ := by
    intro w answer later sectors here buf
    refine ⟨sound.later answer later, fun _ _ => ?_⟩
    rw [sectors, here, written, buf]
  refine ⟨_, rfl, ⟨ready _ rfl (Nat.le_succ _) rfl rfl rfl, zeros, written.trans zeros⟩,
    fun other zeroed => ⟨ready _ rfl (Nat.le_succ _) rfl rfl rfl, zeros, ?_⟩⟩
  change Function.update v.disk.sectors sect v.fat.buf other = _
  rw [Function.update_apply]
  split
  · exact zeros
  · exact zeroed.sector

theorem clearLoop_zeroed (count : Nat) {first : Nat} : ∀ {v : Volume} {sect : Nat},
    v.Zeroed first → ∃ w, (clearLoop count sect).run v = (.ok (), w) ∧ w.Zeroed first := by
  induction count with
  | zero => exact fun zeroed => ⟨_, rfl, zeroed⟩
  | succ count ih =>
      intro v sect zeroed
      obtain ⟨w, written, -, kept⟩ := clearSector_zeroed zeroed.ready.sound zeroed.buf sect
      obtain ⟨u, rest, zeroed'⟩ := @ih w (u32 (sect + 1)) (kept first zeroed)
      refine ⟨u, ?_, zeroed'⟩
      rw [clearLoop, run_modifyFat_bind, run_bind_ok written, rest]

/-- **Clearing.** The first sector of a cluster that has been cleared is a sector of zeros. -/
theorem clustClear_zeroed (sound : v.disk.Sound) (c : Nat) :
    ∃ w, (clustClear c).run v = (.ok (), w) ∧ w.Zeroed (v.fat.geometry.clustToSect c) := by
  have nowhere : v.Ready ∅ := ⟨sound, fun _ inside => absurd inside (Set.notMem_empty _)⟩
  obtain ⟨u, synced, ready, agrees, -⟩ := syncBuf_spec nowhere
  obtain ⟨count, more⟩ := Nat.exists_eq_succ_of_ne_zero
    (Nat.two_pow_pos v.fat.geometry.clustShift).ne'
  obtain ⟨x, written, zeroed, -⟩ := clearSector_zeroed
    (v := u.withFat fun fat => { fat with buf := fun _ => 0 }) ready.sound rfl
    (v.fat.geometry.clustToSect c)
  obtain ⟨w, rest, zeroed'⟩ := clearLoop_zeroed count zeroed
  refine ⟨w, ?_, zeroed'⟩
  unfold clustClear
  rw [run_bind_ok synced, run_gets_bind, agrees.geometry, run_modifyFat_bind, more, clearLoop,
    run_modifyFat_bind, run_bind_ok written]
  exact rest

/-! ## Directories -/

variable {s t : OpenDir} {fuel : Nat}

theorem editBuf_keeps (edit : Sector → Sector) : (editBuf edit).Keeps Volume.freeCnt := fun _ => rfl

theorem editSlot_keeps (edit : Slot → Slot) : DirRelates Volume.SameCount (editSlot edit) :=
  (relates_gets _).bind fun _ => onFat_relates (editBuf_keeps _)

theorem clustClear_keeps (clust : Nat) : (clustClear clust).Keeps Volume.freeCnt := by
  have cleared : ∀ count sect, (clearLoop count sect).Keeps Volume.freeCnt := by
    intro count
    induction count with
    | zero => exact fun _ => keeps_pure _
    | succ count ih =>
        exact fun _ => Keeps.bind (keeps_modify fun _ => rfl) fun _ => syncBuf_keeps.bind fun _ => ih _
  exact syncBuf_keeps.bind fun _ => (keeps_gets _).bind fun _ =>
    Keeps.bind (keeps_modify fun _ => rfl) fun _ => cleared _ _

theorem dirStretch_takes (fuel : Nat) : DirRelates (Volume.TookFew 1) (dirStretch fuel) := by
  refine takes_then (relates_gets _) fun _ => ?_
  refine takes_bind (n := 0) (onFat_relates (stretchChain_takes _ _)) fun _ => takes_none ?_
  exact (relates_gets _).bind fun _ => (modifyDir_relates _).bind fun _ =>
    onFat_relates (clustClear_keeps _)

theorem dirNextStretch_takes (fuel : Nat) : DirRelates (Volume.TookFew 1) (dirNextStretch fuel) := by
  refine takes_then (dirNext_looks sameCount_overlooks).attempt fun moved => ?_
  rcases moved with (err | _ | _) | ⟨⟩
  · exact .ite (dirStretch_takes _) (takes_none (relates_stop _))
  · exact takes_none (relates_stop _)
  · exact takes_none (relates_stop _)
  · exact takes_none (relates_pure _)

/-- A directory that is stretched is at a slot of zeros. -/
theorem dirStretch_zeroed (sound : s.volume.disk.Sound)
    (done : (dirStretch fuel).run s = (.ok (), t)) :
    t.volume.Zeroed t.dir.sect ∧ t.dir.idx = 0 := by
  rw [dirStretch, run_gets_bind] at done
  obtain ⟨next, u, stretched, rest⟩ := of_run_bind_ok done
  have sound' := accesses_sound (onFat_relates (stretchChain_accesses fuel s.dir.clust)) sound
    stretched
  obtain ⟨w, cleared, zeroed⟩ := clustClear_zeroed sound' next
  rw [run_gets_bind, modifyDir, run_modify_bind, onFat, run_zoom, OpenDir.withDir_volume,
    cleared] at rest
  cases rest
  exact ⟨zeroed, rfl⟩

/-- At a slot of zeros the directory ends. -/
theorem updateDir_zeroed (zeroed : s.volume.Zeroed s.dir.sect) :
    ∃ w, updateDir.run s = (.ok (), s.withVolume w) ∧ (s.withVolume w).slot.isLast = true := by
  obtain ⟨w, moved, -, agrees, here, -⟩ := updateBuf_spec zeroed.ready s.dir.sect
  refine ⟨w, ?_, ?_⟩
  · rw [updateDir, run_gets_bind, onFat, run_zoom, moved]
  · have zeros : w.fat.buf = fun _ => 0 := by
      rw [← Volume.view_buffered, here, agrees.view (Set.mem_univ _), zeroed.view]
    unfold Slot.isLast OpenDir.slot Sector.slot OpenDir.withVolume
    rw [zeros]
    rfl

/-- Behind its end a directory is all room. -/
theorem findRoom_takes_end (fuel need turns : Nat) : ∀ (cnt : Nat) (loc : Loc),
    DirRelates (Volume.TookFew (need - cnt)) (findRoom fuel need turns cnt true loc) := by
  induction turns with
  | zero => exact fun _ _ => takes_none (relates_stop _)
  | succ turns ih =>
      intro cnt loc
      rw [findRoom]
      by_cases enough : need ≤ cnt
      · rw [if_pos enough]
        exact takes_none (relates_pure _)
      · rw [if_neg enough]
        refine takes_then (updateDir_looks sameCount_overlooks) fun _ => ?_
        refine takes_then (relates_gets _) fun s => ?_
        have sum : 1 + (need - (cnt + 1)) = need - cnt := by omega
        exact sum ▸ takes_bind (dirNextStretch_takes fuel) fun _ => ih _ _

theorem dirNextStretch_cases (done : (dirNextStretch fuel).run s = (.ok (), t)) :
    dirNext.run s = (.ok (), t) ∨
      ∃ u, dirNext.run s = (.error (.code errEof), u) ∧ (dirStretch fuel).run u = (.ok (), t) := by
  rw [dirNextStretch, run_bind, run_attempt] at done
  generalize dirNext.run s = moved at done ⊢
  obtain ⟨(err | _ | _) | ⟨⟩, u⟩ := moved
  · dsimp only at done
    by_cases eof : err = errEof
    · rw [if_pos eof] at done
      exact .inr ⟨u, by rw [eof], done⟩
    · rw [if_neg eof] at done
      cases done
  · cases done
  · cases done
  · exact .inl done

/-- At a slot of zeros, `dir_add` has met the end of the directory. -/
theorem findRoom_takes_zeroed (fuel need turns cnt : Nat) (eod : Bool) (loc : Loc)
    (zeroed : s.volume.Zeroed s.dir.sect) :
    s.volume.TookFew (need - cnt) ((findRoom fuel need turns cnt eod loc).run s).2.volume := by
  cases turns with
  | zero => exact takes_none (relates_stop _) s
  | succ turns =>
      rw [findRoom]
      by_cases enough : need ≤ cnt
      · rw [if_pos enough]
        exact takes_none (relates_pure _) s
      · rw [if_neg enough]
        obtain ⟨w, moved, last⟩ := updateDir_zeroed zeroed
        have free : (s.withVolume w).slot.isFree = true := by
          unfold Slot.isLast at last
          unfold Slot.isFree
          simp only [decide_eq_true_eq] at last ⊢
          exact .inl last
        have same : s.volume.SameCount w := by
          have looked := updateDir_looks sameCount_overlooks s
          rw [moved] at looked
          exact looked
        rw [run_bind_ok moved, run_gets_bind]
        dsimp only [id]
        rw [last, free, Bool.or_true, if_pos rfl]
        have sum : 1 + (need - (cnt + 1)) = need - cnt := by omega
        have rest : DirRelates (Volume.TookFew (need - cnt)) (dirNextStretch fuel >>= fun _ =>
            findRoom fuel need turns (cnt + 1) true (if (true && decide (cnt = 0)) = true then
              ⟨(s.withVolume w).dir.sect, (s.withVolume w).dir.idx⟩ else loc)) :=
          sum ▸ takes_bind (dirNextStretch_takes fuel) fun _ => findRoom_takes_end _ _ _ _ _
        exact ((Volume.TookFew.of_same same).trans (rest (s.withVolume w))).mono (Nat.zero_add _).le

/-- **Room.** The search for room takes a cluster for each slot at most, and one more. -/
theorem findRoom_takes (fuel need turns : Nat) : ∀ {s : OpenDir} (cnt : Nat) (eod : Bool)
    (loc : Loc), s.volume.disk.Sound →
      s.volume.TookFew (need + 1) ((findRoom fuel need turns cnt eod loc).run s).2.volume := by
  induction turns with
  | zero => exact fun _ _ _ _ => takes_none (relates_stop _) _
  | succ turns ih =>
      intro s cnt eod loc sound
      rw [findRoom]
      by_cases enough : need ≤ cnt
      · rw [if_pos enough]
        exact takes_none (relates_pure _) s
      · rw [if_neg enough]
        have looked := updateDir_looks sameCount_overlooks s
        have accessed := updateDir_accesses s
        rw [run_bind]
        generalize updateDir.run s = updated at looked accessed ⊢
        obtain ⟨_ | ⟨⟩, t⟩ := updated
        · exact (Volume.TookFew.of_same looked).mono (Nat.zero_le _)
        · have sound' : t.volume.disk.Sound := accessed.sound sound
          refine ((Volume.TookFew.of_same looked).trans ?_).mono (Nat.zero_add _).le
          change t.volume.TookFew (need + 1) _
          dsimp only
          rw [run_gets_bind]
          dsimp only [id]
          generalize (if ((eod || t.slot.isFree) && decide (cnt = 0)) = true then
            (⟨t.dir.sect, t.dir.idx⟩ : Loc) else loc) = loc'
          generalize (if (eod || t.slot.isFree) = true then cnt + 1 else 0) = cnt'
          have stretched := dirNextStretch_takes fuel t
          have accessed' := dirNextStretch_accesses fuel t
          rw [run_bind]
          generalize moved : (dirNextStretch fuel).run t = ended at stretched accessed' ⊢
          obtain ⟨_ | ⟨⟩, u⟩ := ended
          · exact stretched.mono (by omega)
          · rcases dirNextStretch_cases moved with plain | ⟨x, ended, stretch⟩
            · have same := dirNext_looks sameCount_overlooks t
              rw [plain] at same
              have rest := ih cnt' (eod || t.slot.isLast) loc' (accessed'.sound sound')
              exact ((Volume.TookFew.of_same same).trans rest).mono (Nat.zero_add _).le
            · have sound'' := accesses_sound dirNext_accesses sound' ended
              have rest := findRoom_takes_zeroed fuel need turns cnt' (eod || t.slot.isLast) loc'
                (dirStretch_zeroed sound'' stretch).1
              exact (stretched.trans rest).mono (by omega)

theorem putFrags_keeps (name : List Byte) (crc : Byte) (i mask : Nat) :
    DirRelates Volume.SameCount (putFrags name crc i mask) := by
  induction i generalizing mask with
  | zero => exact relates_pure _
  | succ i ih =>
      exact (updateDir_looks sameCount_overlooks).bind fun _ => (editSlot_keeps _).bind fun _ =>
        (dirNext_looks sameCount_overlooks).bind fun _ => ih _

/-- **Adding an entry** takes a few clusters. -/
theorem dirAdd_takes (fuel : Nat) (name : List Byte) (attr clust : Nat) (sound : s.volume.disk.Sound) :
    s.volume.TookFew 22 ((dirAdd fuel name attr clust).run s).2.volume := by
  unfold dirAdd
  by_cases bad : name = [] ∨ 255 < name.length
  · rw [if_pos bad]
    exact takes_none (relates_stop _) s
  · rw [if_neg bad, run_gets_bind, modifyDir, run_modify_bind, run_bind]
    have few : (name.length + 12) / 13 + 1 ≤ 21 := by omega
    have room := findRoom_takes fuel ((name.length + 12) / 13 + 1) fuel
      (s := s.withDir fun dir => dirEnter s.volume.fat.geometry dir.sclust dir) 0 false ⟨0, 0⟩
      sound
    generalize (findRoom fuel ((name.length + 12) / 13 + 1) fuel 0 false ⟨0, 0⟩).run _ = ended
      at room ⊢
    obtain ⟨_ | ⟨eod, loc⟩, t⟩ := ended
    · exact room.mono (by omega)
    · have edited : ∀ edit, DirRelates Volume.SameCount (updateDir >>= fun _ => editSlot edit) :=
        fun _ => (updateDir_looks sameCount_overlooks).bind fun _ => editSlot_keeps _
      have rest : DirRelates Volume.SameCount (putEnd eod >>= fun _ => modifyDir
          (moveTo s.volume.fat.geometry loc) >>= fun _ => putFrags name (getCrc (putSfnName name))
            ((name.length + 12) / 13) lfnHeadMsk >>= fun _ => updateDir >>= fun _ =>
              editSlot (sfnSlot (putSfnName name) attr clust)) := by
        refine Relates.bind (.ite (edited _) (relates_pure _)) fun _ => ?_
        exact (modifyDir_relates _).bind fun _ => (putFrags_keeps _ _ _ _).bind fun _ => edited _
      exact (room.trans (Volume.TookFew.of_same (rest t))).mono (by omega)

/-! ## Files -/

theorem followLink_takes (fuel : Nat) :
    (followLink fuel).Relates (Volume.TookFew 1) OpenFile.volume := by
  have zoomed : ∀ {α : Type} {n : Nat} {c : FatM α}, c.Relates (Volume.TookFew n) id →
      (onVolume c).Relates (Volume.TookFew n) OpenFile.volume := fun takes =>
    takes.zoom (fun _ => rfl) fun _ _ => rfl
  have modified : ∀ f, (modifyFile f).Relates (Volume.TookFew 0) OpenFile.volume := fun f =>
    takes_none (relates_modify fun _ => rfl)
  refine takes_then (relates_gets _) fun file => ?_
  refine takes_mono (m := 0 + 1) (takes_bind (zoomed (takes_none
    (getFat_looks sameCount_overlooks _))) fun (next, flags) => ?_) (by decide)
  refine .ite (takes_none (relates_stop _)) (.ite ?_ (takes_mono (modified _) (by decide)))
  exact takes_bind (n := 0) (zoomed (stretchChain_takes _ _)) fun _ => modified _

/-- Following links takes a cluster for each of them at most. -/
theorem followChain_takes (fuel count : Nat) :
    (followChain fuel count).Relates (Volume.TookFew count) OpenFile.volume := by
  induction count with
  | zero => exact takes_none (relates_pure _)
  | succ count ih =>
      exact takes_mono (takes_bind (followLink_takes fuel) fun _ => ih) (Nat.add_comm 1 count).le

end NTux.Fat32
