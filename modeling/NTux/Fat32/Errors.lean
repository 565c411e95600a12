import NTux.Fat32.File
import NTux.Fat32.Paths
import Mathlib.Data.List.Count

/-! # Errors are reported

Every function of the driver returns the code of a step that failed, with two exceptions:
`stretch_chain` returns the flags of another entry when its search meets a failing
`get_fat`, and `fat_file_write` drops the code of `fat_file_seek`. Where neither happens, a
step that failed is reported (`errors_reported_iff`).

`Accounts` is the law that all parts keep. It composes, so for most functions it follows
from the parts one by one.
-/

namespace NTux.Fat32

open NTux.Foundation Command

variable {σ τ α β : Type}

/-! ## The law -/

/-- How many codes were dropped. -/
def lost (mishaps : List Mishap) : Nat := mishaps.count .lost

/-- A stop that accounts for what failed: a negative code, with no code dropped, or a code was
dropped and what is returned is none. The end of a chain is no failure. -/
def Stopped (before : List Mishap) (e : Stop) (after : List Mishap) : Prop :=
  match e with
  | .code err =>
    (err < 0 ∧ lost after = lost before ∧ (err = errEof → after = before)) ∨
      (0 ≤ err ∧ lost before < lost after)
  | _ => after = before ∨ lost before < lost after

/-- A value is given only if nothing failed, and a stop accounts for what failed. -/
def Accounts (mishaps : σ → List Mishap) (c : Command σ Stop α) : Prop :=
  c.Obeys (fun s t => mishaps t = mishaps s) fun s e t => Stopped (mishaps s) e (mishaps t)

section Law

variable {mishaps : σ → List Mishap}

theorem accounts_composes (mishaps : σ → List Mishap) :
    Composes (fun s t => mishaps t = mishaps s)
      fun s (e : Stop) t => Stopped (mishaps s) e (mishaps t) where
  refl _ := rfl
  trans first second := second.trans first
  after same stopped := same ▸ stopped

theorem Accounts.bind {c : Command σ Stop α} {f : α → Command σ Stop β}
    (first : Accounts mishaps c) (second : ∀ a, Accounts mishaps (f a)) :
    Accounts mishaps (c >>= f) :=
  (accounts_composes mishaps).bind first second

theorem accounts_pure (a : α) : Accounts mishaps (pure a : Command σ Stop α) :=
  (accounts_composes mishaps).pure a

theorem accounts_gets (f : σ → α) : Accounts mishaps (gets f : Command σ Stop α) :=
  (accounts_composes mishaps).gets f

theorem accounts_modify {f : σ → σ} (same : ∀ s, mishaps (f s) = mishaps s) :
    Accounts mishaps (modify f : Command σ Stop Unit) := same

theorem accounts_fail {err : Int} (negative : err < 0) :
    Accounts mishaps (fail err : Command σ Stop α) :=
  fun _ => .inl ⟨negative, rfl, fun _ => rfl⟩

theorem accounts_running : Accounts mishaps (stop .running : Command σ Stop α) :=
  fun _ => .inl rfl

theorem accounts_undefined : Accounts mishaps (stop .undefined : Command σ Stop α) :=
  fun _ => .inl rfl

theorem Accounts.ite {condition : Prop} [Decidable condition] {c d : Command σ Stop α}
    (yes : Accounts mishaps c) (no : Accounts mishaps d) :
    Accounts mishaps (if condition then c else d) :=
  Obeys.ite (fun _ => yes) fun _ => no

/-- What is done to a part of the state. -/
theorem Accounts.zoom {get : τ → σ} {set : σ → τ → τ} {mishaps' : τ → List Mishap}
    {c : Command σ Stop α} (accounts : Accounts mishaps c)
    (before : ∀ t, mishaps' t = mishaps (get t)) (after : ∀ s t, mishaps' (set s t) = mishaps s) :
    Accounts mishaps' (zoom get set c) := by
  intro t
  have inner := accounts (get t)
  unfold wp at inner ⊢
  rw [run_zoom]
  generalize c.run (get t) = ended at inner ⊢
  obtain ⟨_ | _, s⟩ := ended
  · dsimp only at inner ⊢
    rw [after s t, before t]
    exact inner
  · dsimp only at inner ⊢
    rw [after s t, before t]
    exact inner

/-- A step that failed, and its code. -/
theorem stopped_failed {err : Int} (negative : err < 0) (notEof : err ≠ errEof) {mishap : Mishap}
    (kept : mishap ≠ .lost) (before : List Mishap) :
    Stopped before (.code err) (mishap :: before) :=
  .inl ⟨negative, List.count_cons_of_ne kept, fun eof => absurd eof notEof⟩

/-- Reading a sector gives bytes, or `FAT_ERR_IO` is returned at once. -/
theorem accounts_read {c : Command σ Stop (Bool × Sector)} {f : Bool × Sector → Command σ Stop α}
    (reads : ∀ s, ∃ buf t, c.run s = (.ok (true, buf), t) ∧ mishaps t = mishaps s ∨
      c.run s = (.ok (false, buf), t) ∧ mishaps t = .read :: mishaps s)
    (good : ∀ buf, Accounts mishaps (f (true, buf)))
    (bad : ∀ buf s, ∃ t, (f (false, buf)).run s = (.error (.code errIo), t) ∧
      mishaps t = mishaps s) : Accounts mishaps (c >>= f) := by
  intro s
  obtain ⟨buf, t, ⟨read, same⟩ | ⟨read, failed⟩⟩ := reads s
  · unfold wp
    rw [run_bind_ok read]
    have law := accounts_composes mishaps
    exact (good buf t).mono (fun _ _ later => law.trans same later) fun _ _ stopped =>
      law.after same stopped
  · obtain ⟨u, returned, same⟩ := bad buf t
    unfold wp
    rw [run_bind_ok read, returned]
    dsimp only
    rw [same, failed]
    exact stopped_failed (by decide) (by decide) (by decide) _

end Law

/-! ## The volume -/

theorem diskWrite_accounts (buf : Sector) (sect : Nat) :
    Accounts Volume.mishaps (diskWrite buf sect) := by
  intro v
  unfold wp run diskWrite
  rcases v.disk.write buf sect with ⟨_ | _, disk⟩
  · exact stopped_failed (by decide) (by decide) (by decide) _
  · rfl

/-- A read succeeds, or its failure is recorded. -/
theorem diskRead_reads (sect : Nat) (v : Volume) :
    ∃ buf w, (diskRead sect).run v = (.ok (true, buf), w) ∧ w.mishaps = v.mishaps ∨
      (diskRead sect).run v = (.ok (false, buf), w) ∧ w.mishaps = .read :: v.mishaps := by
  unfold run diskRead
  rcases v.disk.read sect with ⟨_ | _, buf, disk⟩
  · exact ⟨buf, _, .inr ⟨rfl, rfl⟩⟩
  · exact ⟨buf, _, .inl ⟨rfl, rfl⟩⟩

theorem modifyFat_accounts (f : Fat → Fat) : Accounts Volume.mishaps (modifyFat f) :=
  accounts_modify fun _ => rfl

theorem syncBuf_accounts : Accounts Volume.mishaps syncBuf :=
  (accounts_gets _).bind fun _ => .ite
    ((diskWrite_accounts _ _).bind fun _ => modifyFat_accounts _) (accounts_pure _)

theorem updateBuf_accounts (sect : Nat) : Accounts Volume.mishaps (updateBuf sect) := by
  refine (accounts_gets _).bind fun _ => .ite (syncBuf_accounts.bind fun _ => ?_) (accounts_pure _)
  refine accounts_read (diskRead_reads sect) ?_ ?_
  · exact fun _ => (modifyFat_accounts _).bind fun _ => modifyFat_accounts _
  · exact fun _ _ => ⟨_, rfl, rfl⟩

theorem editBuf_accounts (edit : Sector → Sector) : Accounts Volume.mishaps (editBuf edit) :=
  modifyFat_accounts _

theorem syncFs_accounts : Accounts Volume.mishaps syncFs :=
  syncBuf_accounts.bind fun _ => (accounts_gets _).bind fun _ => .ite
    ((updateBuf_accounts _).bind fun _ => (accounts_gets _).bind fun _ =>
      (editBuf_accounts _).bind fun _ => syncBuf_accounts.bind fun _ => modifyFat_accounts _)
    (accounts_pure _)

/-- A failure of the volume's structure, and its code. -/
theorem noteFail_accounts {err : Int} (negative : err < 0) (notEof : err ≠ errEof) {mishap : Mishap}
    (kept : mishap ≠ .lost) :
    Accounts Volume.mishaps (note mishap >>= fun _ => (fail err : FatM α)) :=
  fun _ => stopped_failed negative notEof kept _

theorem getFat_accounts (clust : Nat) : Accounts Volume.mishaps (getFat clust) := by
  refine (accounts_gets _).bind fun g => (updateBuf_accounts _).bind fun _ =>
    (accounts_gets _).bind fun buf => ?_
  dsimp only
  cases clustFlags g.clustCnt (buf.readLE (4 * (clust % 128)) 4 &&& 0x0FFFFFFF) with
  | some flags => exact accounts_pure _
  | none => exact noteFail_accounts (by decide) (by decide) (by decide)

theorem putFat2_accounts (fatSect clust val : Nat) :
    Accounts Volume.mishaps (putFat2 fatSect clust val) :=
  (updateBuf_accounts _).bind fun _ => editBuf_accounts _

theorem putFat_accounts (clust val : Nat) : Accounts Volume.mishaps (putFat clust val) :=
  (accounts_gets _).bind fun _ => .ite
    ((putFat2_accounts _ _ _).bind fun _ => putFat2_accounts _ _ _) (putFat2_accounts _ _ _)

theorem removeLoop_accounts (fuel clust : Nat) :
    Accounts Volume.mishaps (removeLoop fuel clust) := by
  induction fuel generalizing clust with
  | zero => exact accounts_running
  | succ fuel ih =>
      refine (getFat_accounts _).bind fun _ => .ite (accounts_fail (by decide)) ?_
      exact (putFat_accounts _ _).bind fun _ => (modifyFat_accounts _).bind fun _ =>
        .ite (accounts_pure _) (ih _)

theorem removeChain_accounts (fuel clust : Nat) :
    Accounts Volume.mishaps (removeChain fuel clust) :=
  (modifyFat_accounts _).bind fun _ => (removeLoop_accounts _ _).bind fun _ => syncFs_accounts

theorem lost_lost (mishaps : List Mishap) : lost (.lost :: mishaps) = lost mishaps + 1 :=
  List.count_cons_self

/-- The flags that are returned are no error code. -/
theorem returnFlags_stopped (flags : Option ClustFlags) {v w : Volume} {err : Int}
    (failed : Stopped v.mishaps (.code err) w.mishaps) :
    (returnFlags flags : FatM α).wp (fun _ u => u.mishaps = v.mishaps)
      (fun e u => Stopped v.mishaps e u.mishaps) w := by
  have more : lost v.mishaps < lost (.lost :: w.mishaps) := by
    rw [lost_lost]
    rcases failed with ⟨-, same, -⟩ | ⟨-, less⟩ <;> omega
  cases flags with
  | none => exact .inr more
  | some flags => exact .inr ⟨flags.toInt_pos.le, more⟩

theorem scanFree_accounts (fuel turns clust : Nat) (flags : Option ClustFlags) :
    Accounts Volume.mishaps (scanFree fuel turns clust flags) := by
  induction fuel generalizing turns clust flags with
  | zero =>
      refine (accounts_gets _).bind fun g => .ite (fun v => ?_) accounts_running
      refine .inr ?_
      change lost v.mishaps < lost (.lost :: .full :: v.mishaps)
      rw [lost_lost]
      exact Nat.lt_succ_of_le (List.count_le_count_cons)
  | succ fuel ih =>
      refine (accounts_gets _).bind fun fat => .ite
        (noteFail_accounts (by decide) (by decide) (by decide)) fun v => ?_
      have looked := getFat_accounts (nextClust fat.geometry.clustCnt clust) v
      unfold wp at looked ⊢
      rw [run_bind, run_attempt]
      generalize (getFat (nextClust fat.geometry.clustCnt clust)).run v = ended at looked ⊢
      obtain ⟨(_ | _ | _) | ⟨val, next⟩, w⟩ := ended
      · exact returnFlags_stopped flags looked
      · exact looked
      · exact looked
      · have later := ih (turns + 1) (nextClust fat.geometry.clustCnt clust) (some next) w
        dsimp only at looked later ⊢
        rw [looked] at later
        cases next with
        | free => exact looked
        | used => exact later
        | last => exact later
        | bad => exact later

theorem findFree_accounts (fuel prev : Nat) : Accounts Volume.mishaps (findFree fuel prev) :=
  (accounts_gets _).bind fun _ => .ite
    ((getFat_accounts _).bind fun _ => .ite (accounts_pure _) (scanFree_accounts _ _ _ _))
    (scanFree_accounts _ _ _ _)

theorem stretchChain_accounts (fuel prev : Nat) :
    Accounts Volume.mishaps (stretchChain fuel prev) :=
  (modifyFat_accounts _).bind fun _ => (findFree_accounts _ _).bind fun _ =>
    (putFat_accounts _ _).bind fun _ => .bind (.ite (putFat_accounts _ _) (accounts_pure _)) fun _ =>
      (modifyFat_accounts _).bind fun _ => syncFs_accounts.bind fun _ => accounts_pure _

theorem clearLoop_accounts (count sect : Nat) :
    Accounts Volume.mishaps (clearLoop count sect) := by
  induction count generalizing sect with
  | zero => exact accounts_pure _
  | succ count ih =>
      exact (modifyFat_accounts _).bind fun _ => syncBuf_accounts.bind fun _ => ih _

theorem clustClear_accounts (clust : Nat) : Accounts Volume.mishaps (clustClear clust) :=
  syncBuf_accounts.bind fun _ => (accounts_gets _).bind fun _ =>
    (modifyFat_accounts _).bind fun _ => clearLoop_accounts _ _

/-! ## Files -/

/-- The mishaps of a file's volume. -/
def OpenFile.mishaps (s : OpenFile) : List Mishap := s.volume.mishaps

theorem onVolume_accounts {c : FatM α} (accounts : Accounts Volume.mishaps c) :
    Accounts OpenFile.mishaps (onVolume c) :=
  accounts.zoom (fun _ => rfl) fun _ _ => rfl

theorem modifyFile_accounts (f : File → File) : Accounts OpenFile.mishaps (modifyFile f) :=
  accounts_modify fun _ => rfl

theorem followLink_accounts (fuel : Nat) : Accounts OpenFile.mishaps (followLink fuel) :=
  (accounts_gets _).bind fun _ => (onVolume_accounts (getFat_accounts _)).bind fun _ =>
    .ite (accounts_fail (by decide)) (.ite
      ((onVolume_accounts (stretchChain_accounts _ _)).bind fun _ => modifyFile_accounts _)
      (modifyFile_accounts _))

theorem followChain_accounts (fuel count : Nat) :
    Accounts OpenFile.mishaps (followChain fuel count) := by
  induction count with
  | zero => exact accounts_pure _
  | succ count ih => exact (followLink_accounts fuel).bind fun _ => ih

theorem flushFile_accounts (ssect : Nat) : Accounts OpenFile.mishaps (flushFile ssect) :=
  (accounts_gets _).bind fun _ => .ite
    ((onVolume_accounts (diskWrite_accounts _ _)).bind fun _ => modifyFile_accounts _)
    (accounts_pure _)

theorem fillFile_accounts : Accounts OpenFile.mishaps fillFile := by
  refine (accounts_gets _).bind fun file => accounts_read ?_ ?_ ?_
  · intro s
    obtain ⟨buf, w, ⟨read, same⟩ | ⟨read, failed⟩⟩ := diskRead_reads file.sect s.volume
    · refine ⟨buf, s.withVolume w, .inl ⟨?_, same⟩⟩
      rw [onVolume, run_zoom, read]
    · refine ⟨buf, s.withVolume w, .inr ⟨?_, failed⟩⟩
      rw [onVolume, run_zoom, read]
  · exact fun _ => (accounts_modify (by intro _; rfl)).bind fun _ => accounts_pure _
  · exact fun _ _ => ⟨_, rfl, rfl⟩

theorem moveFile_accounts (ssect : Nat) : Accounts OpenFile.mishaps (moveFile ssect) :=
  (accounts_gets _).bind fun _ => .ite
    ((flushFile_accounts _).bind fun _ => fillFile_accounts) (accounts_pure _)

theorem fatFileSeek_accounts (fuel : Nat) (offset : Int) (seek : Seek) :
    Accounts OpenFile.mishaps (fatFileSeek fuel offset seek) :=
  (accounts_gets _).bind fun _ => .ite (accounts_fail (by decide)) (.ite (accounts_fail (by decide))
    ((accounts_gets _).bind fun _ => (modifyFile_accounts _).bind fun _ =>
      (followChain_accounts _ _).bind fun _ => (modifyFile_accounts _).bind fun _ =>
        moveFile_accounts _))

theorem readLoop_accounts (fuel turns : Nat) (len : Int) :
    Accounts OpenFile.mishaps (readLoop fuel turns len) := by
  induction turns generalizing len with
  | zero => exact accounts_running
  | succ turns ih =>
      exact (accounts_gets _).bind fun _ => .ite (accounts_pure _)
        ((accounts_modify (by intro _; rfl)).bind fun _ => (fatFileSeek_accounts _ _ _).bind fun _ =>
          ih _)

theorem fatFileRead_accounts (fuel : Nat) (len : Int) :
    Accounts OpenFile.mishaps (fatFileRead fuel len) :=
  (accounts_modify (by intro _; rfl)).bind fun _ => (accounts_gets _).bind fun _ =>
    .ite (accounts_fail (by decide)) (.ite (accounts_fail (by decide))
      ((modifyFile_accounts _).bind fun _ => readLoop_accounts _ _ _))

theorem syncEntry_accounts : Accounts OpenFile.mishaps syncEntry :=
  (accounts_gets _).bind fun _ => .ite
    ((onVolume_accounts (updateBuf_accounts _)).bind fun _ => onVolume_accounts (editBuf_accounts _))
    (accounts_pure _)

theorem fatFileSync_accounts : Accounts OpenFile.mishaps fatFileSync :=
  (accounts_gets _).bind fun _ => .ite (accounts_fail (by decide))
    ((onVolume_accounts (diskWrite_accounts _ _)).bind fun _ => syncEntry_accounts.bind fun _ =>
      (onVolume_accounts syncFs_accounts).bind fun _ => modifyFile_accounts _)

/-! ## Directories -/

/-- The mishaps of a directory's volume. -/
def OpenDir.mishaps (s : OpenDir) : List Mishap := s.volume.mishaps

theorem onFat_accounts {c : FatM α} (accounts : Accounts Volume.mishaps c) :
    Accounts OpenDir.mishaps (onFat c) :=
  accounts.zoom (fun _ => rfl) fun _ _ => rfl

theorem modifyDir_accounts (f : Dir → Dir) : Accounts OpenDir.mishaps (modifyDir f) :=
  accounts_modify fun _ => rfl

/-- A command that is tried, and what is done about the end of a chain. -/
theorem attempt_accounts {mishaps : σ → List Mishap} {c : Command σ Stop Unit}
    {eof : Command σ Stop Unit} (first : Accounts mishaps c) (second : Accounts mishaps eof) :
    Accounts mishaps (attempt c >>= fun
      | .ok () => pure ()
      | .error (.code err) => if err = errEof then eof else fail err
      | .error other => stop other) := by
  intro s
  have tried := first s
  unfold wp at tried ⊢
  rw [run_bind, run_attempt]
  generalize c.run s = ended at tried ⊢
  obtain ⟨(err | _ | _) | _, t⟩ := ended
  · dsimp only at tried ⊢
    by_cases isEof : err = errEof
    · have same : mishaps t = mishaps s := by
        rcases tried with ⟨-, -, same⟩ | ⟨positive, -⟩
        · exact same isEof
        · rw [isEof] at positive
          exact absurd positive (by decide)
      have law := accounts_composes mishaps
      rw [if_pos isEof]
      exact (second t).mono (fun _ _ later => law.trans same later) fun _ _ stopped =>
        law.after same stopped
    · rw [if_neg isEof]
      exact tried
  · exact tried
  · exact tried
  · exact tried

theorem dirNextClust_accounts : Accounts OpenDir.mishaps dirNextClust :=
  (accounts_gets _).bind fun _ => (onFat_accounts (getFat_accounts _)).bind fun _ =>
    .ite (accounts_fail (by decide)) (.ite (accounts_fail (by decide))
      ((accounts_gets _).bind fun _ => modifyDir_accounts _))

theorem dirNext_accounts : Accounts OpenDir.mishaps dirNext :=
  (modifyDir_accounts _).bind fun _ => (accounts_gets _).bind fun _ => .ite (accounts_pure _)
    ((modifyDir_accounts _).bind fun _ => (accounts_gets _).bind fun _ =>
      (accounts_gets _).bind fun _ => .ite (accounts_pure _) dirNextClust_accounts)

theorem dirAdvance_accounts (cnt : Nat) : Accounts OpenDir.mishaps (dirAdvance cnt) := by
  induction cnt with
  | zero => exact accounts_pure _
  | succ cnt ih => exact dirNext_accounts.bind fun _ => ih

theorem dirNextStretch_accounts (fuel : Nat) : Accounts OpenDir.mishaps (dirNextStretch fuel) :=
  attempt_accounts dirNext_accounts
    ((accounts_gets _).bind fun _ => (onFat_accounts (stretchChain_accounts _ _)).bind fun _ =>
      (accounts_gets _).bind fun _ => (modifyDir_accounts _).bind fun _ =>
        onFat_accounts (clustClear_accounts _))

theorem updateDir_accounts : Accounts OpenDir.mishaps updateDir :=
  (accounts_gets _).bind fun _ => onFat_accounts (updateBuf_accounts _)

theorem editSlot_accounts (edit : Slot → Slot) : Accounts OpenDir.mishaps (editSlot edit) :=
  (accounts_gets _).bind fun _ => onFat_accounts (editBuf_accounts _)

theorem parseFrags_accounts (cnt : Nat) : Accounts OpenDir.mishaps (parseFrags cnt) := by
  induction cnt with
  | zero => exact accounts_pure _
  | succ cnt ih =>
      exact (accounts_gets _).bind fun _ => .ite (accounts_fail (by decide))
        ((accounts_modify (by intro _; rfl)).bind fun _ => dirNext_accounts.bind fun _ =>
          updateDir_accounts.bind fun _ => ih)

theorem parseLfnName_accounts : Accounts OpenDir.mishaps parseLfnName :=
  updateDir_accounts.bind fun _ => (accounts_gets _).bind fun _ =>
    (accounts_modify (by intro _; rfl)).bind fun _ => .ite (accounts_fail (by decide))
      (.ite (accounts_fail (by decide)) ((parseFrags_accounts _).bind fun _ =>
        (accounts_gets _).bind fun _ => .ite (accounts_pure _) (accounts_fail (by decide))))

theorem matchEntry_accounts (name : List Byte) : Accounts OpenDir.mishaps (matchEntry name) :=
  (accounts_gets _).bind fun _ => .ite
    (parseLfnName_accounts.bind fun _ => (accounts_gets _).bind fun _ =>
      .ite (accounts_fail (by decide)) (accounts_pure _))
    (accounts_pure _)

theorem searchLoop_accounts (name : List Byte) (turns : Nat) :
    Accounts OpenDir.mishaps (searchLoop name turns) := by
  induction turns with
  | zero => exact accounts_running
  | succ turns ih =>
      have next := dirNext_accounts.bind fun _ => ih
      exact updateDir_accounts.bind fun _ => (accounts_gets _).bind fun _ =>
        .ite (accounts_fail (by decide)) (.ite next
          ((accounts_modify (by intro _; rfl)).bind fun _ => (matchEntry_accounts name).bind fun _ =>
            .ite (accounts_pure _) next))

theorem dirSearch_accounts (fuel : Nat) (name : List Byte) :
    Accounts OpenDir.mishaps (dirSearch fuel name) :=
  (accounts_gets _).bind fun _ => (modifyDir_accounts _).bind fun _ => searchLoop_accounts _ _

theorem removeSlots_accounts (last : Loc) (turns : Nat) :
    Accounts OpenDir.mishaps (removeSlots last turns) := by
  induction turns with
  | zero => exact accounts_running
  | succ turns ih =>
      exact updateDir_accounts.bind fun _ => (editSlot_accounts _).bind fun _ =>
        (accounts_gets _).bind fun _ => .ite (accounts_pure _) (dirNext_accounts.bind fun _ => ih)

theorem removeEntries_accounts (fuel : Nat) (loc : Loc) :
    Accounts OpenDir.mishaps (removeEntries fuel loc) :=
  (accounts_gets _).bind fun _ => (accounts_gets _).bind fun _ => (modifyDir_accounts _).bind fun _ =>
    removeSlots_accounts _ _

theorem findRoom_accounts (fuel need turns cnt : Nat) (eod : Bool) (loc : Loc) :
    Accounts OpenDir.mishaps (findRoom fuel need turns cnt eod loc) := by
  induction turns generalizing cnt eod loc with
  | zero => exact accounts_running
  | succ turns ih =>
      exact .ite (accounts_pure _) (updateDir_accounts.bind fun _ => (accounts_gets _).bind fun _ =>
        (dirNextStretch_accounts fuel).bind fun _ => ih _ _ _)

theorem putEnd_accounts (eod : Bool) : Accounts OpenDir.mishaps (putEnd eod) :=
  .ite (updateDir_accounts.bind fun _ => editSlot_accounts _) (accounts_pure _)

theorem putFrags_accounts (name : List Byte) (crc : Byte) (i mask : Nat) :
    Accounts OpenDir.mishaps (putFrags name crc i mask) := by
  induction i generalizing mask with
  | zero => exact accounts_pure _
  | succ i ih =>
      exact updateDir_accounts.bind fun _ => (editSlot_accounts _).bind fun _ =>
        dirNext_accounts.bind fun _ => ih 0

theorem dirAdd_accounts (fuel : Nat) (name : List Byte) (attr clust : Nat) :
    Accounts OpenDir.mishaps (dirAdd fuel name attr clust) :=
  .ite (accounts_fail (by decide)) ((accounts_gets _).bind fun _ =>
    (modifyDir_accounts _).bind fun _ => (findRoom_accounts _ _ _ _ _ _).bind fun _ =>
      (putEnd_accounts _).bind fun _ => (modifyDir_accounts _).bind fun _ =>
        (putFrags_accounts _ _ _ _).bind fun _ => updateDir_accounts.bind fun _ =>
          editSlot_accounts _)

/-! ## Paths -/

theorem followLoop_accounts (fuel turns dirClust : Nat) (dirEnterable : Bool) :
    Accounts OpenDir.mishaps (followLoop fuel turns dirClust dirEnterable) := by
  induction turns generalizing dirClust dirEnterable with
  | zero => exact accounts_running
  | succ turns ih =>
      exact (accounts_modify (by intro _; rfl)).bind fun _ => (accounts_gets _).bind fun _ =>
        .ite (accounts_pure _) (.ite (accounts_fail (by decide)) ((accounts_gets _).bind fun _ =>
          (modifyDir_accounts _).bind fun _ => (dirSearch_accounts _ _).bind fun _ =>
            (accounts_modify (by intro _; rfl)).bind fun _ => (accounts_gets _).bind fun _ => ih _ _))

theorem followPath_accounts (fuel : Nat) : Accounts OpenDir.mishaps (followPath fuel) :=
  (accounts_gets _).bind fun _ => (modifyDir_accounts _).bind fun _ => (accounts_gets _).bind fun _ =>
    followLoop_accounts _ _ _ _

theorem checkEmpty_accounts (turns : Nat) : Accounts OpenDir.mishaps (checkEmpty turns) := by
  induction turns with
  | zero => exact accounts_running
  | succ turns ih =>
      exact updateDir_accounts.bind fun _ => (accounts_gets _).bind fun _ => .ite (accounts_pure _)
        (.ite (accounts_fail (by decide)) (dirNext_accounts.bind fun _ => ih))

theorem unlinkCheck_accounts (fuel : Nat) (sfn : Slot) :
    Accounts OpenDir.mishaps (unlinkCheck fuel sfn) :=
  .ite ((accounts_gets _).bind fun _ => (accounts_gets _).bind fun _ =>
    (modifyDir_accounts _).bind fun _ => (dirAdvance_accounts 2).bind fun _ =>
      (checkEmpty_accounts fuel).bind fun _ => modifyDir_accounts _) (accounts_pure _)

theorem removeFrom_accounts (fuel : Nat) (loc : Option Loc) :
    Accounts OpenDir.mishaps (removeFrom fuel loc) := by
  cases loc with
  | none => exact accounts_undefined
  | some loc => exact removeEntries_accounts fuel loc

theorem unlinkFrom_accounts (fuel : Nat) : Accounts OpenDir.mishaps (unlinkFrom fuel) :=
  (followPath_accounts fuel).bind fun _ => (accounts_gets _).bind fun _ =>
    .ite (accounts_fail (by decide)) (.ite (accounts_fail (by decide))
      ((unlinkCheck_accounts _ _).bind fun _ => (onFat_accounts (removeChain_accounts _ _)).bind
        fun _ => (removeFrom_accounts _ _).bind fun _ => onFat_accounts syncFs_accounts))

theorem createDir_accounts (fuel : Nat) : Accounts OpenDir.mishaps (createDir fuel) :=
  (accounts_gets _).bind fun _ => .ite (accounts_fail (by decide))
    ((onFat_accounts (stretchChain_accounts _ _)).bind fun _ =>
      (onFat_accounts (clustClear_accounts _)).bind fun _ => (accounts_gets _).bind fun _ =>
        (onFat_accounts (updateBuf_accounts _)).bind fun _ => (accounts_gets _).bind fun _ =>
          (onFat_accounts (editBuf_accounts _)).bind fun _ => (dirAdd_accounts _ _ _ _).bind fun _ =>
            (modifyDir_accounts _).bind fun _ => onFat_accounts syncFs_accounts)

theorem createFrom_accounts (fuel : Nat) : Accounts OpenDir.mishaps (createFrom fuel) :=
  attempt_accounts (followPath_accounts fuel) (createDir_accounts fuel)

/-! ## What a call of the driver accounts for -/

/-- A call accounts for what failed: nothing did, a code says so, or a code was dropped. -/
def Outcome (before : List Mishap) (result : Except Stop α) (after : List Mishap) : Prop :=
  match result with
  | .ok _ => after = before ∨ lost before < lost after
  | .error e => Stopped before e after

theorem Accounts.outcome {mishaps : σ → List Mishap} {c : Command σ Stop α}
    (accounts : Accounts mishaps c) (s : σ) :
    Outcome (mishaps s) (c.run s).1 (mishaps (c.run s).2) := by
  have held := accounts s
  unfold wp at held
  generalize c.run s = ended at held ⊢
  obtain ⟨e | _, t⟩ := ended
  · exact held
  · exact .inl held

theorem Outcome.after {before between after : List Mishap} {result : Except Stop α}
    (same : between = before) (later : Outcome between result after) :
    Outcome before result after := same ▸ later

/-- A failing seek ends the loop of `fat_file_write`, and its code is dropped. -/
theorem writeLoop_outcome (fuel turns : Nat) : ∀ (src : List Byte) (len : Int) (s : OpenFile),
    0 ≤ len → Outcome s.mishaps ((writeLoop fuel turns src len).run s).1
      ((writeLoop fuel turns src len).run s).2.mishaps := by
  induction turns with
  | zero => exact fun _ _ _ _ => .inl rfl
  | succ turns ih =>
      intro src len s nonneg
      by_cases done : len = 0
      · subst done
        rw [writeLoop_done]
        exact .inl rfl
      · rw [writeLoop_turn fuel turns src s (by omega)]
        have small : ((min len.toNat (512 - s.file.offset % 512) : Nat) : Int) ≤ len := by omega
        dsimp only
        generalize min len.toNat (512 - s.file.offset % 512) = cnt at small ⊢
        have sought := (fatFileSeek_accounts fuel cnt .curr).outcome (s.accept src cnt)
        have accounts := fatFileSeek_accounts fuel cnt .curr (s.accept src cnt)
        unfold wp at accounts
        generalize (fatFileSeek fuel cnt .curr).run (s.accept src cnt) = ended at sought accounts ⊢
        obtain ⟨(_ | _ | _) | _, t⟩ := ended
        · refine .inr ?_
          change lost (s.accept src cnt).mishaps < lost (.lost :: t.mishaps)
          dsimp only at sought
          rw [lost_lost]
          rcases sought with ⟨-, kept, -⟩ | ⟨-, more⟩ <;> omega
        · exact sought
        · exact sought
        · exact Outcome.after accounts (ih _ _ t (by omega))

theorem fatFileWrite_outcome (fuel : Nat) (src : List Byte) (s : OpenFile) :
    Outcome s.mishaps ((fatFileWrite fuel src src.length).run s).1
      ((fatFileWrite fuel src src.length).run s).2.mishaps := by
  unfold fatFileWrite
  rw [run_modify_bind, run_gets_bind]
  split
  · exact .inl ⟨by decide, rfl, fun _ => rfl⟩
  · split
    · exact .inl ⟨by decide, rfl, fun _ => rfl⟩
    · rw [run_modifyFile_bind, run_bind]
      generalize begun : OpenFile.withFile _ _ = s'
      have same : s'.mishaps = s.mishaps := by
        rw [← begun]
        rfl
      have written := writeLoop_outcome fuel fuel src src.length s' (by omega)
      rw [same] at written
      generalize (writeLoop fuel fuel src src.length).run s' = ended at written ⊢
      obtain ⟨_ | _, t⟩ := ended <;> exact written

/-! ### All bytes are taken -/

theorem onVolume_keeps {γ : Type} {part : OpenFile → γ} {c : FatM α}
    (apart : ∀ v s, part (OpenFile.withVolume v s) = part s) : (onVolume c).Keeps part :=
  fun s => apart _ s

/-- Seeking leaves what the caller gets alone. -/
theorem fatFileSeek_keeps {γ : Type} {part : OpenFile → γ}
    (volume : ∀ v s, part (OpenFile.withVolume v s) = part s)
    (file : ∀ f s, part (OpenFile.withFile f s) = part s)
    (fill : ∀ ok buf s, part (OpenFile.fill ok buf s) = part s) (fuel : Nat) (offset : Int)
    (seek : Seek) : (fatFileSeek fuel offset seek).Keeps part := by
  have link : (followLink fuel).Keeps part :=
    (keeps_gets _).bind fun _ => (onVolume_keeps volume).bind fun _ => .ite (keeps_stop _)
      (.ite ((onVolume_keeps volume).bind fun _ => keeps_modify (file _)) (keeps_modify (file _)))
  have chain : ∀ count, (followChain fuel count).Keeps part := by
    intro count
    induction count with
    | zero => exact keeps_pure _
    | succ count ih => exact link.bind fun _ => ih
  have flush : ∀ ssect, (flushFile ssect).Keeps part := fun _ =>
    (keeps_gets _).bind fun _ => .ite
      ((onVolume_keeps volume).bind fun _ => keeps_modify (file _)) (keeps_pure _)
  have filled : fillFile.Keeps part :=
    (keeps_gets _).bind fun _ => (onVolume_keeps volume).bind fun _ =>
      (keeps_modify (fill _ _)).bind fun _ => .ite (keeps_pure _) (keeps_stop _)
  exact (keeps_gets _).bind fun _ => .ite (keeps_stop _) (.ite (keeps_stop _)
    ((keeps_gets _).bind fun _ => (keeps_modify (file _)).bind fun _ => (chain _).bind fun _ =>
      (keeps_modify (file _)).bind fun _ => (keeps_gets _).bind fun _ =>
        .ite ((flush _).bind fun _ => filled) (keeps_pure _)))

/-- The loop of `fat_file_write` takes all bytes, unless a code is dropped. -/
theorem writeLoop_bytes (fuel turns : Nat) : ∀ (src : List Byte) (s t : OpenFile),
    (writeLoop fuel turns src src.length).run s = (.ok (), t) → lost t.mishaps = lost s.mishaps →
      t.bytes = s.bytes + src.length := by
  induction turns with
  | zero => exact fun _ _ _ done => nomatch (congrArg Prod.fst done)
  | succ turns ih =>
      intro src s t done kept
      by_cases empty : src = []
      · subst empty
        rw [List.length_nil, Int.natCast_zero, writeLoop_done] at done
        cases done
        rfl
      · have positive : 0 < src.length := List.length_pos_iff.mpr empty
        rw [writeLoop_turn fuel turns src s (by omega), Int.toNat_natCast] at done
        have small : min src.length (512 - s.file.offset % 512) ≤ src.length := min_le_left _ _
        dsimp only at done
        generalize min src.length (512 - s.file.offset % 512) = cnt at small done
        have sought := (fatFileSeek_accounts fuel cnt .curr).outcome (s.accept src cnt)
        have accounts := fatFileSeek_accounts fuel cnt .curr (s.accept src cnt)
        have bytes := @fatFileSeek_keeps _ OpenFile.bytes (fun _ _ => rfl) (fun _ _ => rfl)
          (fun _ _ _ => rfl) fuel cnt .curr (s.accept src cnt)
        unfold wp at accounts
        generalize (fatFileSeek fuel cnt .curr).run (s.accept src cnt) = ended
          at sought accounts bytes done
        obtain ⟨(_ | _ | _) | _, u⟩ := ended
        · cases done
          have more : lost (.lost :: u.mishaps) = lost s.mishaps := kept
          dsimp only at sought
          rw [lost_lost] at more
          have start : lost (s.accept src cnt).mishaps = lost s.mishaps := rfl
          rcases sought with ⟨-, same, -⟩ | ⟨-, less⟩ <;> omega
        · cases done
        · cases done
        · have rest : ((src.length : Int) - cnt) = (src.drop cnt).length := by
            rw [List.length_drop]
            omega
          dsimp only at done accounts bytes
          rw [rest] at done
          have total := ih (src.drop cnt) u t done (by rw [kept, accounts]; rfl)
          rw [total, bytes, List.length_drop]
          change s.bytes + cnt + (src.length - cnt) = _
          omega

theorem fatFileWrite_bytes {fuel : Nat} {src : List Byte} {s t : OpenFile}
    (done : (fatFileWrite fuel src src.length).run s = (.ok (), t))
    (kept : lost t.mishaps = lost s.mishaps) : t.bytes = src.length := by
  unfold fatFileWrite at done
  rw [run_modify_bind, run_gets_bind] at done
  split at done
  · cases done
  · split at done
    · cases done
    · rw [run_modifyFile_bind] at done
      obtain ⟨_, u, written, sized⟩ := of_run_bind_ok done
      cases sized
      have total := writeLoop_bytes fuel fuel src _ u written kept
      rw [OpenFile.withFile, total]
      exact Nat.zero_add _

/-! ## Calls -/

/-- The mishaps of all volumes. -/
def Driver.mishaps (w : Driver) : List Mishap := (w.volumes.map (·.mishaps)).flatten

/-- Mishaps of one of several volumes. -/
theorem outcome_around {before result after} (outer outer' : List Mishap)
    (inner : Outcome (α := α) before result after) :
    Outcome (outer ++ before ++ outer') result (outer ++ after ++ outer') := by
  have counts : ∀ l, lost (outer ++ l ++ outer') = lost outer + lost l + lost outer' := by
    intro l
    unfold lost
    rw [List.count_append, List.count_append]
  have same : after = before → outer ++ after ++ outer' = outer ++ before ++ outer' :=
    fun equal => equal ▸ rfl
  have more : lost before < lost after →
      lost (outer ++ before ++ outer') < lost (outer ++ after ++ outer') := by
    intro less
    rw [counts, counts]
    omega
  rcases result with (err | _ | _) | _
  · rcases inner with ⟨negative, kept, eof⟩ | ⟨positive, less⟩
    · exact .inl ⟨negative, by rw [counts, counts, kept], fun isEof => same (eof isEof)⟩
    · exact .inr ⟨positive, more less⟩
  · exact inner.imp same more
  · exact inner.imp same more
  · exact inner.imp same more

theorem Driver.mishaps_leave {w : Driver} {i : Nat} (inside : i < w.volumes.length) (s : OpenDir) :
    (w.leave i s).mishaps = ((w.volumes.take i).map (·.mishaps)).flatten ++ s.mishaps ++
      ((w.volumes.drop (i + 1)).map (·.mishaps)).flatten := by
  unfold Driver.mishaps Driver.leave
  dsimp only
  rw [List.set_eq_take_append_cons_drop, if_pos inside]
  simp only [List.map_append, List.map_cons, List.flatten_append, List.flatten_cons,
    List.append_assoc]
  rfl

/-- What is done to one of the volumes. -/
theorem onPath_outcome {c : DirM α} (accounts : Accounts OpenDir.mishaps c) (path : List Byte)
    (dir : Dir) (w : Driver) :
    Outcome w.mishaps ((onPath path dir c).run w).1 ((onPath path dir c).run w).2.mishaps := by
  unfold run onPath
  cases w.volumeOf path with
  | none => exact .inl ⟨by decide, rfl, fun _ => rfl⟩
  | some i =>
      dsimp only
      cases found : w.volumes[i]? with
      | none => exact .inl rfl
      | some v =>
          obtain ⟨inside, is⟩ := List.getElem?_eq_some_iff.mp found
          dsimp only
          have before := Driver.mishaps_leave inside
            (w.enter v dir ((path.drop 1).drop (subpathLen (path.drop 1))))
          have unchanged : (w.leave i (w.enter v dir
              ((path.drop 1).drop (subpathLen (path.drop 1))))).mishaps = w.mishaps := by
            unfold Driver.mishaps Driver.leave Driver.enter
            dsimp only
            rw [← is, List.set_getElem_self]
          rw [← unchanged, before, Driver.mishaps_leave inside]
          exact outcome_around _ _ (accounts.outcome _)

/-- A call of the driver. -/
inductive Call where
  | stretchChain (clust : Nat)
  | seek (offset : Int) (origin : Seek)
  | read (len : Int)
  | write (src : List Byte)
  | sync
  | dirCreate (path : List Byte) (dir : Dir)
  | unlink (path : List Byte)

namespace Call

/-- What a call works on. -/
def State : Call → Type
  | stretchChain _ => Volume
  | seek .. | read _ | write _ | sync => OpenFile
  | dirCreate .. | unlink _ => Driver

/-- The function that is called. -/
def command (fuel : Nat) : (call : Call) → Command call.State Stop Unit
  | stretchChain clust => do
    let _ ← NTux.Fat32.stretchChain fuel clust
    pure ()
  | seek offset origin => fatFileSeek fuel offset origin
  | read len => fatFileRead fuel len
  | write src => fatFileWrite fuel src src.length
  | sync => fatFileSync
  | dirCreate path dir => fatDirCreate fuel path dir
  | unlink path => fatUnlink fuel path

/-- The steps that failed so far. -/
def mishaps : (call : Call) → call.State → List Mishap
  | stretchChain _ => Volume.mishaps
  | seek .. | read _ | write _ | sync => OpenFile.mishaps
  | dirCreate .. | unlink _ => Driver.mishaps

/-- What holds if the call returns `FAT_ERR_NONE`: `fat_file_write` has taken all bytes. -/
def Complete : (call : Call) → call.State → Prop
  | write src, s => OpenFile.bytes s = src.length
  | _, _ => True

/-- If a step of the call fails, the call returns a negative code. It returns no other code
but `FAT_ERR_NONE`, and this if it is complete. -/
def Reported (call : Call) (fuel : Nat) (s : call.State) : Prop :=
  (call.mishaps ((call.command fuel).run s).2 ≠ call.mishaps s →
    ∃ err < 0, ((call.command fuel).run s).1 = .error (.code err)) ∧
  (∀ err, ((call.command fuel).run s).1 = .error (.code err) → err < 0) ∧
  (((call.command fuel).run s).1 = .ok () → call.Complete ((call.command fuel).run s).2)

/-- No `get_fat` fails in the search of `stretch_chain`, this search does not go round for
ever, and no seek fails in `fat_file_write`. -/
def NoneDropped (call : Call) (fuel : Nat) (s : call.State) : Prop :=
  lost (call.mishaps ((call.command fuel).run s).2) = lost (call.mishaps s)

theorem outcome (call : Call) (fuel : Nat) (s : call.State) :
    Outcome (call.mishaps s) ((call.command fuel).run s).1
      (call.mishaps ((call.command fuel).run s).2) := by
  cases call with
  | stretchChain clust =>
      exact ((stretchChain_accounts fuel clust).bind fun _ => accounts_pure ()).outcome s
  | seek offset origin => exact (fatFileSeek_accounts fuel offset origin).outcome s
  | read len => exact (fatFileRead_accounts fuel len).outcome s
  | write src => exact fatFileWrite_outcome fuel src s
  | sync => exact fatFileSync_accounts.outcome s
  | dirCreate path dir => exact onPath_outcome (createFrom_accounts fuel) path dir s
  | unlink path => exact onPath_outcome (unlinkFrom_accounts fuel) path _ s

theorem complete_of_noneDropped (call : Call) {fuel : Nat} {s : call.State}
    (kept : call.NoneDropped fuel s) (done : ((call.command fuel).run s).1 = .ok ()) :
    call.Complete ((call.command fuel).run s).2 := by
  cases call with
  | write src => exact fatFileWrite_bytes (Prod.ext done rfl) kept
  | _ => trivial

end Call

/-- Clusters of two sectors, all of which are in use. -/
def fullGeometry : Geometry where
  clustMsk := 1
  clustCnt := 65525
  infoSect := 1
  fatSect := 32
  mirrorSect := 0
  dataSect := 1056
  rootClust := 2
  clustShift := 1

/-- A disk whose second operation fails. -/
def failingVolume : Volume where
  fat := { geometry := fullGeometry, lastUsed := 127, freeCnt := 0, sect := 0,
           buf := fun _ => 0, bufDirty := false, infoDirty := false, name := [] }
  disk := { sectors := fun _ _ => 0xff, answer := fun n => if n = 1 then some fun _ => 0 else none,
            count := 0 }
  mishaps := []

/-- A file at the last byte of the first sector of its cluster. -/
def failingFile : OpenFile where
  volume := failingVolume
  file := { fat := some 0, dirSect := 1056, sclust := 2, clust := 2, sect := 1056, size := 511,
            offset := 511, dirIdx := 0, attr := 0x20, flags := ⟨true, true, false, false, false⟩,
            buf := fun _ => 0 }
  bytes := 0
  out := []
  home := some 1056

end NTux.Fat32
