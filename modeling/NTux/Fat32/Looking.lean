import NTux.Fat32.Paths

/-! # Functions that only look

Looking at entries of the FAT, walking over a directory, searching it and following a path do
nothing to a volume but move its buffer and note what went wrong. They keep every relation
between the volumes before and after that these two keep (`Overlooks`).
-/

namespace NTux.Fat32

open NTux.Foundation Command

variable {rel : Volume → Volume → Prop} {α : Type}

/-- The relation does not see where the buffer is, nor what went wrong. -/
structure Overlooks (rel : Volume → Volume → Prop) : Prop where
  buffer : ∀ sect, (updateBuf sect).Relates rel id
  noted : ∀ mishap, (note mishap).Relates rel id

variable [IsPreorder Volume rel]

/-! ## The FAT -/

section Volume

variable (overlooks : Overlooks rel)

include overlooks

theorem getFat_looks (clust : Nat) : (getFat clust).Relates rel id := by
  refine (relates_gets _).bind fun g => (overlooks.buffer _).bind fun _ =>
    (relates_gets _).bind fun buf => ?_
  dsimp only
  cases clustFlags g.clustCnt (buf.readLE (4 * (clust % 128)) 4 &&& 0x0FFFFFFF) with
  | some flags => exact relates_pure _
  | none => exact (overlooks.noted _).bind fun _ => relates_stop _

theorem returnFlags_looks (flags : Option ClustFlags) :
    (returnFlags flags : FatM α).Relates rel id := by
  refine (overlooks.noted _).bind fun _ => ?_
  cases flags with
  | some flags => exact relates_stop _
  | none => exact relates_stop _

theorem scanFree_looks (fuel turns clust : Nat) (flags : Option ClustFlags) :
    (scanFree fuel turns clust flags).Relates rel id := by
  induction fuel generalizing turns clust flags with
  | zero =>
      refine (relates_gets _).bind fun g => .ite ?_ (relates_stop _)
      exact (overlooks.noted _).bind fun _ => (overlooks.noted _).bind fun _ => relates_stop _
  | succ fuel ih =>
      refine (relates_gets _).bind fun fat => .ite
        ((overlooks.noted _).bind fun _ => relates_stop _) ?_
      refine (getFat_looks overlooks _).attempt.bind fun looked => ?_
      rcases looked with (err | _ | _) | ⟨val, found⟩
      · exact returnFlags_looks overlooks flags
      · exact relates_stop _
      · exact relates_stop _
      · cases found with
        | free => exact relates_pure _
        | used => exact ih _ _ _
        | last => exact ih _ _ _
        | bad => exact ih _ _ _

theorem findFree_looks (fuel prev : Nat) : (findFree fuel prev).Relates rel id :=
  (relates_gets _).bind fun _ => .ite
    ((getFat_looks overlooks _).bind fun _ => .ite (relates_pure _)
      (scanFree_looks overlooks _ _ _ _)) (scanFree_looks overlooks _ _ _ _)

end Volume

/-! ## Directories -/

/-- The volume of a directory before and after is related. -/
abbrev DirRelates (rel : Volume → Volume → Prop) (c : DirM α) : Prop := c.Relates rel (·.volume)

omit [IsPreorder Volume rel] in
theorem onFat_relates {c : FatM α} (relates : c.Relates rel id) : DirRelates rel (onFat c) :=
  relates.zoom (fun _ => rfl) fun _ _ => rfl

theorem dirModify_relates {f : OpenDir → OpenDir} (same : ∀ s, (f s).volume = s.volume) :
    DirRelates rel (modify f) := relates_modify same

theorem modifyDir_relates (f : Dir → Dir) : DirRelates rel (modifyDir f) :=
  dirModify_relates fun _ => rfl

section Directory

variable (overlooks : Overlooks rel)

include overlooks

theorem updateDir_looks : DirRelates rel updateDir :=
  (relates_gets _).bind fun _ => onFat_relates (overlooks.buffer _)

theorem dirNextClust_looks : DirRelates rel dirNextClust :=
  (relates_gets _).bind fun _ => (onFat_relates (getFat_looks overlooks _)).bind fun _ =>
    .ite (relates_stop _) (.ite (relates_stop _)
      ((relates_gets _).bind fun _ => modifyDir_relates _))

theorem dirNext_looks : DirRelates rel dirNext :=
  (modifyDir_relates _).bind fun _ => (relates_gets _).bind fun _ => .ite (relates_pure _)
    ((modifyDir_relates _).bind fun _ => (relates_gets _).bind fun _ => (relates_gets _).bind fun _ =>
      .ite (relates_pure _) (dirNextClust_looks overlooks))

theorem dirAdvance_looks (cnt : Nat) : DirRelates rel (dirAdvance cnt) := by
  induction cnt with
  | zero => exact relates_pure _
  | succ cnt ih => exact (dirNext_looks overlooks).bind fun _ => ih

theorem parseFrags_looks (cnt : Nat) : DirRelates rel (parseFrags cnt) := by
  induction cnt with
  | zero => exact relates_pure _
  | succ cnt ih =>
      refine (relates_gets _).bind fun _ => .ite (relates_stop _) ?_
      refine (dirModify_relates (by intro _; rfl)).bind fun _ => ?_
      exact (dirNext_looks overlooks).bind fun _ => (updateDir_looks overlooks).bind fun _ => ih

theorem parseLfnName_looks : DirRelates rel parseLfnName := by
  refine (updateDir_looks overlooks).bind fun _ => (relates_gets _).bind fun _ => ?_
  refine (dirModify_relates (by intro _; rfl)).bind fun _ => ?_
  refine .ite (relates_stop _) (.ite (relates_stop _) ?_)
  exact (parseFrags_looks overlooks _).bind fun _ => (relates_gets _).bind fun _ =>
    .ite (relates_pure _) (relates_stop _)

theorem matchEntry_looks (name : List Byte) : DirRelates rel (matchEntry name) :=
  (relates_gets _).bind fun _ => .ite ((parseLfnName_looks overlooks).bind fun _ =>
    (relates_gets _).bind fun _ => .ite (relates_stop _) (relates_pure _)) (relates_pure _)

theorem searchLoop_looks (name : List Byte) (turns : Nat) :
    DirRelates rel (searchLoop name turns) := by
  induction turns with
  | zero => exact relates_stop _
  | succ turns ih =>
      have next : DirRelates rel (dirNext >>= fun _ => searchLoop name turns) :=
        (dirNext_looks overlooks).bind fun _ => ih
      refine (updateDir_looks overlooks).bind fun _ => (relates_gets _).bind fun _ => ?_
      refine .ite (relates_stop _) (.ite next ?_)
      refine (dirModify_relates (by intro _; rfl)).bind fun _ => ?_
      exact (matchEntry_looks overlooks _).bind fun _ => .ite (relates_pure _) next

theorem dirSearch_looks (fuel : Nat) (name : List Byte) : DirRelates rel (dirSearch fuel name) :=
  (relates_gets _).bind fun _ => (modifyDir_relates _).bind fun _ => searchLoop_looks overlooks _ _

theorem readName_looks : DirRelates rel readName := by
  refine (relates_gets _).bind fun _ => .ite ?_ (dirModify_relates (by intro _; rfl))
  refine (parseLfnName_looks overlooks).bind fun _ => (updateDir_looks overlooks).bind fun _ => ?_
  exact (relates_gets _).bind fun _ => .ite (relates_stop _) (relates_pure _)

theorem readEntry_looks (turns : Nat) : DirRelates rel (readEntry turns) := by
  induction turns with
  | zero => exact relates_stop _
  | succ turns ih =>
      refine (updateDir_looks overlooks).bind fun _ => (relates_gets _).bind fun _ => ?_
      refine .ite (relates_stop _) (.ite ((dirNext_looks overlooks).bind fun _ => ih) ?_)
      exact (readName_looks overlooks).bind fun _ => relates_gets _

/-! ## Paths -/

theorem followLoop_looks (fuel turns dirClust : Nat) (dirEnterable : Bool) :
    DirRelates rel (followLoop fuel turns dirClust dirEnterable) := by
  induction turns generalizing dirClust dirEnterable with
  | zero => exact relates_stop _
  | succ turns ih =>
      refine (dirModify_relates (by intro _; rfl)).bind fun _ => (relates_gets _).bind fun _ => ?_
      refine .ite (relates_pure _) (.ite (relates_stop _) ((relates_gets _).bind fun _ => ?_))
      refine (modifyDir_relates _).bind fun _ => (dirSearch_looks overlooks _ _).bind fun _ => ?_
      exact (dirModify_relates (by intro _; rfl)).bind fun _ => (relates_gets _).bind fun _ => ih _ _

theorem followPath_looks (fuel : Nat) : DirRelates rel (followPath fuel) :=
  (relates_gets _).bind fun _ => (modifyDir_relates _).bind fun _ => (relates_gets _).bind fun _ =>
    followLoop_looks overlooks _ _ _ _

theorem checkEmpty_looks (turns : Nat) : DirRelates rel (checkEmpty turns) := by
  induction turns with
  | zero => exact relates_stop _
  | succ turns ih =>
      exact (updateDir_looks overlooks).bind fun _ => (relates_gets _).bind fun _ =>
        .ite (relates_pure _) (.ite (relates_stop _) ((dirNext_looks overlooks).bind fun _ => ih))

theorem unlinkCheck_looks (fuel : Nat) (sfn : Slot) : DirRelates rel (unlinkCheck fuel sfn) := by
  refine .ite ?_ (relates_pure _)
  refine (relates_gets _).bind fun _ => (relates_gets _).bind fun _ => ?_
  refine (modifyDir_relates _).bind fun _ => (dirAdvance_looks overlooks _).bind fun _ => ?_
  exact (checkEmpty_looks overlooks _).bind fun _ => modifyDir_relates _

end Directory

end NTux.Fat32
