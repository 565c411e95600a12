import NTux.Fat32.Volume
import Mathlib.Data.Set.Function

/-! # The sectors as the driver sees them

The buffer stands in front of its sector, so what the driver sees of a sector is the buffer
or the disk (`Volume.view`). On a disk without faults, moving the buffer changes nothing of
what is seen (`updateBuf_spec`), and a change of the buffer changes one sector.

A buffer that is not dirty has to agree with the disk for that. Nothing is asked of sectors
that the driver does not use: the area of those it does is a parameter.
-/

namespace NTux.Fat32

open NTux.Foundation

namespace Volume

variable {area : Set Nat} {v w u : Volume}

/-- What the driver sees of a sector. -/
def view (v : Volume) (sect : Nat) : Sector :=
  if v.fat.sect = sect then v.fat.buf else v.disk.sectors sect

/-- The volume's structure without its buffer. -/
def unbuffered (v : Volume) : Fat := { v.fat with sect := 0, buf := fun _ => 0, bufDirty := false }

/-- The disk has no more faults, and a buffer that is not dirty agrees with it. -/
structure Ready (area : Set Nat) (v : Volume) : Prop where
  sound : v.disk.Sound
  coherent : v.fat.bufDirty = false → v.fat.sect ∈ area → v.disk.sectors v.fat.sect = v.fat.buf

/-- The volumes differ in what is buffered only. -/
structure Agrees (area : Set Nat) (v w : Volume) : Prop where
  view : Set.EqOn w.view v.view area
  unbuffered : w.unbuffered = v.unbuffered

theorem Agrees.refl : v.Agrees area v := ⟨fun _ _ => rfl, rfl⟩

theorem Agrees.trans (first : v.Agrees area w) (second : w.Agrees area u) : v.Agrees area u :=
  ⟨second.view.trans first.view, second.unbuffered.trans first.unbuffered⟩

section Fields

variable (same : w.unbuffered = v.unbuffered)

include same

theorem geometry_of_unbuffered : w.fat.geometry = v.fat.geometry := by
  have fields := congrArg Fat.geometry same
  exact fields

theorem lastUsed_of_unbuffered : w.fat.lastUsed = v.fat.lastUsed := by
  have fields := congrArg Fat.lastUsed same
  exact fields

theorem freeCnt_of_unbuffered : w.fat.freeCnt = v.fat.freeCnt := by
  have fields := congrArg Fat.freeCnt same
  exact fields

end Fields

theorem Agrees.geometry (agrees : v.Agrees area w) : w.fat.geometry = v.fat.geometry :=
  geometry_of_unbuffered agrees.unbuffered

/-- The sector that is buffered is seen in the buffer. -/
theorem view_buffered (v : Volume) : v.view v.fat.sect = v.fat.buf := if_pos rfl

theorem view_of_ne {sect : Nat} (differ : v.fat.sect ≠ sect) :
    v.view sect = v.disk.sectors sect := if_neg differ

end Volume

open Volume Command

variable {area : Set Nat} {v : Volume}

/-! ## Moving the buffer -/

/-- `ops.write` on a sound disk. -/
theorem diskWrite_sound (sound : v.disk.Sound) (buf : Sector) (sect : Nat) :
    (diskWrite buf sect).run v = (.ok (), { v with disk :=
      { v.disk with sectors := Function.update v.disk.sectors sect buf
                    count := v.disk.count + 1 } }) := by
  unfold diskWrite run
  dsimp only
  rw [sound.write]

/-- `ops.read` on a sound disk. -/
theorem diskRead_sound (sound : v.disk.Sound) (sect : Nat) :
    (diskRead sect).run v = (.ok (true, v.disk.sectors sect),
      { v with disk := { v.disk with count := v.disk.count + 1 } }) := by
  unfold diskRead run
  dsimp only
  rw [sound.read]

/-- A disk that has gone on is still sound. -/
theorem Disk.Sound.later {d e : Disk} (sound : d.Sound) (answer : e.answer = d.answer)
    (later : d.count ≤ e.count) : e.Sound := fun n after => by
  rw [answer]
  exact sound n (later.trans after)

/-- `sync_buf` writes the buffer to its sector. -/
theorem syncBuf_spec (ready : v.Ready area) :
    ∃ w, syncBuf.run v = (.ok (), w) ∧ w.Ready area ∧ v.Agrees area w ∧
      w.fat.bufDirty = false ∧ w.fat.sect = v.fat.sect ∧ w.fat.buf = v.fat.buf ∧
      (∀ sect, sect ≠ v.fat.sect → w.disk.sectors sect = v.disk.sectors sect) ∧
      (v.fat.bufDirty = true → w.disk.sectors v.fat.sect = v.fat.buf) ∧
      (v.fat.bufDirty = false → w = v) := by
  unfold syncBuf
  rw [run_gets_bind]
  by_cases dirty : v.fat.bufDirty = true
  · rw [if_pos dirty, run_bind_ok (diskWrite_sound ready.sound _ _)]
    have same : ∀ sect, sect ≠ v.fat.sect →
        Function.update v.disk.sectors v.fat.sect v.fat.buf sect = v.disk.sectors sect :=
      fun sect differ => Function.update_of_ne differ _ _
    refine ⟨_, rfl, ⟨ready.sound.later rfl (Nat.le_succ _), ?_⟩, ⟨?_, rfl⟩, rfl, rfl, rfl, same,
      fun _ => Function.update_self _ _ _, fun clean => absurd dirty (by simp [clean])⟩
    · exact fun _ _ => Function.update_self _ _ _
    · intro sect _
      change (if v.fat.sect = sect then v.fat.buf else
        Function.update v.disk.sectors v.fat.sect v.fat.buf sect) = v.view sect
      unfold Volume.view
      split
      · rfl
      · next differ => exact same sect (Ne.symm differ)
  · rw [if_neg dirty]
    exact ⟨v, rfl, ready, .refl, by simpa using dirty, rfl, rfl, fun _ _ => rfl,
      fun isDirty => absurd isDirty dirty, fun _ => rfl⟩

/-- The buffer stays where it is. -/
theorem updateBuf_here {sect : Nat} (here : v.fat.sect = sect) :
    (updateBuf sect).run v = (.ok (), v) := by
  unfold updateBuf
  rw [run_gets_bind, if_neg (not_not.mpr here)]
  rfl

/-- **The buffer.** `update_buf` moves the buffer to a sector and changes nothing that the
driver sees. -/
theorem updateBuf_spec (ready : v.Ready area) (sect : Nat) :
    ∃ w, (updateBuf sect).run v = (.ok (), w) ∧ w.Ready area ∧ v.Agrees area w ∧
      w.fat.sect = sect ∧
      (∀ other, other ≠ v.fat.sect → w.disk.sectors other = v.disk.sectors other) ∧
      (v.fat.sect ∈ area → w.fat.sect ≠ v.fat.sect →
        w.disk.sectors v.fat.sect = v.fat.buf) := by
  by_cases same : v.fat.sect = sect
  · exact ⟨v, updateBuf_here same, ready, .refl, same, fun _ _ => rfl, fun _ differ => absurd rfl differ⟩
  · unfold updateBuf
    rw [run_gets_bind]
    obtain ⟨w, synced, ready', agrees, clean, at', buf, others, flushed, untouched⟩ :=
      syncBuf_spec ready
    rw [if_pos same, run_bind_ok synced, run_bind_ok (diskRead_sound ready'.sound sect)]
    refine ⟨_, rfl, ⟨ready'.sound.later rfl (Nat.le_succ _), fun _ _ => rfl⟩, ⟨?_, ?_⟩, rfl,
      others, ?_⟩
    · intro other inside
      change (if sect = other then w.disk.sectors sect else w.disk.sectors other) = v.view other
      have seen : w.disk.sectors other = v.view other := by
        rw [← agrees.view inside]
        by_cases buffered : w.fat.sect = other
        · subst buffered
          rw [view_buffered]
          exact ready'.coherent clean inside
        · exact (view_of_ne buffered).symm
      split
      · next equal => rw [equal, seen]
      · exact seen
    · have plain := agrees.unbuffered
      rw [← plain]
      unfold unbuffered
      rw [← clean]
      rfl
    · intro inside _
      cases dirty : v.fat.bufDirty with
      | true => exact flushed dirty
      | false =>
          obtain rfl := untouched dirty
          exact ready.coherent dirty inside

/-- Another content of the buffer. -/
theorem editBuf_run (edit : Sector → Sector) : ∃ w, (editBuf edit).run v = (.ok (), w) ∧
    (v.disk.Sound → w.Ready area) ∧ w.unbuffered = v.unbuffered ∧
    w.view = Function.update v.view v.fat.sect (edit v.fat.buf) ∧ w.fat.sect = v.fat.sect ∧
    w.disk = v.disk := by
  refine ⟨_, rfl, fun sound => ⟨sound, fun clean => nomatch clean⟩, rfl, ?_, rfl, rfl⟩
  funext sect
  rw [Function.update_apply]
  change (if v.fat.sect = sect then edit v.fat.buf else v.disk.sectors sect) = _
  unfold Volume.view
  by_cases buffered : v.fat.sect = sect
  · rw [if_pos buffered, if_pos buffered.symm]
  · rw [if_neg buffered, if_neg (Ne.symm buffered), if_neg buffered]

/-- A change of one sector through the buffer. -/
theorem updateEdit_spec (ready : v.Ready area) {sect : Nat} (inside : sect ∈ area)
    (edit : Sector → Sector) :
    ∃ w, ((updateBuf sect) >>= fun _ => editBuf edit).run v = (.ok (), w) ∧ w.Ready area ∧
      w.unbuffered = v.unbuffered ∧
      Set.EqOn w.view (Function.update v.view sect (edit (v.view sect))) area ∧
      w.fat.sect = sect := by
  obtain ⟨u, moved, ready', agrees, at', -, -⟩ := updateBuf_spec ready sect
  obtain ⟨w, edited, ready'', plain, view, at'', -⟩ := @editBuf_run area u edit
  rw [run_bind_ok moved]
  refine ⟨w, edited, ready'' ready'.sound, plain.trans agrees.unbuffered, ?_, at''.trans at'⟩
  intro other member
  have held : u.fat.buf = v.view sect := by
    rw [← agrees.view inside, ← at', view_buffered]
  rw [view, at', held]
  by_cases equal : other = sect
  · rw [equal, Function.update_self, Function.update_self]
  · rw [Function.update_of_ne equal, Function.update_of_ne equal, agrees.view member]

end NTux.Fat32
