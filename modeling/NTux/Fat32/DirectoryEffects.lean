import NTux.Fat32.Effects
import NTux.Fat32.Looking

/-! # What directories do to a volume

Reading a directory and following a path do nothing to the FAT, whatever the entries say.
The functions that change entries stay within the sectors of clusters, from a place that is
within them (`Dir.Within`).
-/

namespace NTux.Fat32

open NTux.Foundation Command Volume

variable {g : Geometry} {spare gone : Set Nat} {s t : OpenDir} {c : Nat} {α : Type}

/-! ## Reading -/

/-- Nothing is done to the FAT of a directory's volume. -/
abbrev DirCalms (g : Geometry) (spare : Set Nat) (command : DirM α) : Prop :=
  Does g spare (Volume.Calm g spare) OpenDir.volume command

/-- Nothing is done to the FAT of a volume without faults. -/
def Volume.Calmly (g : Geometry) (spare : Set Nat) (v w : Volume) : Prop :=
  v.Good g spare → v.Calm g spare w

instance : IsPreorder Volume (Volume.Calmly g spare) where
  refl _ good := .refl good
  trans _ _ _ first second good := (first good).trans (second (first good).good)

/-- A command is seen where it ends, whether it stops or not. -/
theorem does_iff_relates {σ : Type} {volume : σ → Volume} {command : Command σ Stop α} :
    Does g spare (Volume.Calm g spare) volume command ↔
      command.Relates (Volume.Calmly g spare) volume := by
  refine forall_congr' fun s => ?_
  unfold wp
  generalize command.run s = ended
  obtain ⟨_ | _, t⟩ := ended <;> exact Iff.rfl

theorem calmly_overlooks : Overlooks (Volume.Calmly g spare) where
  buffer sect := does_iff_relates.mp (updateBuf_calms sect)
  noted mishap := does_iff_relates.mp (note_calms mishap)

theorem fatDirRead_calms (turns : Nat) : DirCalms g spare (fatDirRead turns) :=
  does_iff_relates.mpr (readEntry_looks calmly_overlooks turns)

theorem followPath_calms (fuel : Nat) : DirCalms g spare (followPath fuel) :=
  does_iff_relates.mpr (followPath_looks calmly_overlooks fuel)

theorem unlinkCheck_calms (fuel : Nat) (sfn : Slot) : DirCalms g spare (unlinkCheck fuel sfn) :=
  does_iff_relates.mpr (unlinkCheck_looks calmly_overlooks fuel sfn)

/-! ## Places within clusters -/

/-- A sector from the start of a cluster on, up to the next sector number that is a multiple of
the cluster's size: those that a walk from the start of the cluster comes to. -/
def Geometry.Walked (g : Geometry) (c sect : Nat) : Prop :=
  g.IsClust c ∧ g.clustToSect c ≤ sect ∧
    sect / 2 ^ g.clustShift = g.clustToSect c / 2 ^ g.clustShift

/-- The place of a directory is in its cluster. -/
def Dir.Within (g : Geometry) (dir : Dir) : Prop := g.Walked dir.clust dir.sect

/-- A location is in some cluster. -/
def Loc.Within (g : Geometry) (loc : Loc) : Prop := ∃ c, g.Walked c loc.sect

namespace Geometry

theorem Walked.mem_clustArea {sect : Nat} (walked : g.Walked c sect) : sect ∈ g.clustArea c := by
  obtain ⟨-, low, same⟩ := walked
  refine ⟨low, ?_⟩
  have positive : 0 < 2 ^ g.clustShift := Nat.two_pow_pos _
  have above := Nat.lt_mul_div_succ sect positive
  rw [same, Nat.mul_add, Nat.mul_one] at above
  have below := Nat.mul_div_le (g.clustToSect c) (2 ^ g.clustShift)
  omega

theorem Walked.mem_dataArea (layout : g.Layout) {sect : Nat} (walked : g.Walked c sect) :
    sect ∈ g.dataArea := layout.clustArea_subset walked.1 walked.mem_clustArea

/-- The first sector of a cluster. -/
theorem walked_start (isClust : g.IsClust c) : g.Walked c (g.clustToSect c) :=
  ⟨isClust, le_rfl, rfl⟩

/-- The next sector, if its number is no multiple of the cluster's size. -/
theorem Walked.next (layout : g.Layout) {sect : Nat} (walked : g.Walked c sect)
    (inside : u32 (sect + 1) &&& g.clustMsk ≠ 0) : g.Walked c (u32 (sect + 1)) := by
  have data := walked.mem_dataArea layout
  have fits : sect + 1 ≤ 2 ^ 32 := data.2.trans_le layout.dataFits
  have positive : 0 < 2 ^ g.clustShift := Nat.two_pow_pos _
  rw [layout.land_mask] at inside
  have small : sect + 1 < 2 ^ 32 := by
    refine Nat.lt_of_le_of_ne fits fun equal => inside ?_
    rw [equal, u32, Nat.mod_self, Nat.zero_mod]
  rw [u32_of_lt small] at inside ⊢
  obtain ⟨isClust, low, same⟩ := walked
  refine ⟨isClust, low.trans (Nat.le_succ sect), ?_⟩
  rw [← same, Nat.succ_div, if_neg fun divides => inside (Nat.mod_eq_zero_of_dvd divides),
    Nat.add_zero]

/-- The cluster of a sector. -/
theorem Walked.sectToClust (layout : g.Layout) {sect : Nat} (walked : g.Walked c sect) :
    g.sectToClust sect = c := by
  have data := walked.mem_dataArea layout
  obtain ⟨low, high⟩ := walked.mem_clustArea
  have isClust := walked.1
  have below := isClust.1
  have start := layout.clustToSect isClust
  have positive : 0 < 2 ^ g.clustShift := Nat.two_pow_pos _
  have small : sect < 2 ^ 32 := data.2.trans_le layout.dataFits
  have inside : (sect - g.dataSect) / 2 ^ g.clustShift = c - 2 := by
    apply Nat.div_eq_of_lt_le
    · omega
    · rw [Nat.succ_mul]
      omega
  have counted := layout.clusters.2
  have upper := isClust.2
  unfold Geometry.sectToClust
  rw [sub32_of_le small data.1, inside, u32_of_lt (by omega), Nat.sub_add_cancel below]

end Geometry

theorem Loc.Within.moveTo (layout : g.Layout) {loc : Loc} (within : loc.Within g) (dir : Dir) :
    (moveTo g loc dir).Within g := by
  obtain ⟨c, walked⟩ := within
  unfold Dir.Within NTux.Fat32.moveTo
  rw [walked.sectToClust layout]
  exact walked

theorem Dir.Within.loc {dir : Dir} (within : dir.Within g) : Loc.Within g ⟨dir.sect, dir.idx⟩ :=
  ⟨dir.clust, within⟩

theorem within_dirAtClust (isClust : g.IsClust c) (dir : Dir) : (dirAtClust g c dir).Within g :=
  Geometry.walked_start isClust

/-! ## Walking -/

/-- A directory on a volume without faults, at a place that is within a cluster. -/
structure OpenDir.Placed (g : Geometry) (spare : Set Nat) (s : OpenDir) : Prop where
  good : s.volume.Good g spare
  within : s.dir.Within g

theorem OpenDir.withDir_dir (f : Dir → Dir) (s : OpenDir) : (s.withDir f).dir = f s.dir := rfl

theorem OpenDir.withDir_volume (f : Dir → Dir) (s : OpenDir) : (s.withDir f).volume = s.volume := rfl

/-- A directory that is moved to a place within a cluster. -/
theorem OpenDir.placed_withDir (good : s.volume.Good g spare) {f : Dir → Dir}
    (within : (f s.dir).Within g) : (s.withDir f).Placed g spare where
  good := good
  within := by
    rw [OpenDir.withDir_dir]
    exact within

/-- The sector of a directory's place is brought into the buffer. -/
theorem updateDir_run (good : s.volume.Good g spare) :
    ∃ w, updateDir.run s = (.ok (), s.withVolume w) ∧ s.volume.Calm g spare w ∧
      w.fat.sect = s.dir.sect := by
  obtain ⟨w, moved, ready, agrees, sect, -⟩ := updateBuf_spec good.ready s.dir.sect
  refine ⟨w, ?_, calm_of_agrees good agrees ready, sect⟩
  rw [updateDir, run_gets_bind, onFat, run_zoom, moved]

/-- The slot at a directory's place is changed. -/
theorem updateEdit_run (placed : s.Placed g spare) (edit : Slot → Slot) :
    ∃ v w, updateDir.run s = (.ok (), s.withVolume v) ∧
      (editSlot edit).run (s.withVolume v) = (.ok (), s.withVolume w) ∧
      s.volume.Calm g spare w := by
  obtain ⟨v, moved, calm, sect⟩ := updateDir_run placed.good
  have outside : v.fat.sect ∉ g.held spare := fun held => by
    rw [sect] at held
    exact placed.good.data_notMem (placed.within.mem_dataArea placed.good.layout)
      (Geometry.held_subset held)
  obtain ⟨w, edited, calm', -⟩ :=
    editBuf_calm calm.good outside (Sector.putSlot s.dir.idx edit)
  refine ⟨v, w, moved, ?_, calm.trans calm'⟩
  unfold editSlot
  rw [run_gets_bind, onFat, run_zoom]
  have volume : (s.withVolume v).volume = v := rfl
  have dir : (s.withVolume v).dir = s.dir := rfl
  rw [volume, dir, edited]
  rfl

/-- The end of a cluster: the next one, or it fails; at the end of the chain the directory is
at its last cluster. -/
theorem dirNextClust_placed (good : s.volume.Good g spare) (isClust : g.IsClust s.dir.clust) :
    dirNextClust.wp (fun _ t => s.volume.Calm g spare t.volume ∧ t.dir.Within g)
      (fun e t => s.volume.Calm g spare t.volume ∧
        (e = .code errEof → t.volume.Stretchable g t.dir.clust)) s := by
  have read := getFat_link good isClust.inFat
  unfold dirNextClust wp
  rw [run_gets_bind, run_bind, onFat, run_zoom]
  unfold wp at read
  generalize (getFat s.dir.clust).run s.volume = ended at read ⊢
  obtain ⟨e | ⟨next, flags⟩, w⟩ := ended
  · obtain ⟨calm, rfl⟩ := read
    exact ⟨calm, fun eof => absurd eof (by decide)⟩
  · obtain ⟨calm, link, known⟩ := read
    dsimp only at link known ⊢
    by_cases broken : flags = .bad ∨ flags = .free
    · rw [if_pos broken]
      exact ⟨calm, fun eof => absurd eof (by decide)⟩
    · rw [if_neg broken]
      have notFree : flags ≠ .free := fun free => broken (.inr free)
      by_cases last : flags = .last
      · rw [if_pos last]
        refine ⟨calm, fun _ => .inr ⟨isClust, ?_⟩⟩
        have same := calm.link good isClust.inFat
        exact (congrArg _ same).trans (known.trans (congrArg some last))
      · rw [if_neg last, run_gets_bind]
        have isUsed : flags = .used := by
          cases flags with
          | free => exact absurd rfl notFree
          | used => rfl
          | last => exact absurd rfl last
          | bad => exact absurd (.inl rfl) broken
        have next_clust : g.IsClust next := link.symm ▸ clustFlags_used (isUsed ▸ known)
        have geometry : (s.withVolume w).volume.fat.geometry = g := calm.good.geometry
        rw [geometry]
        exact ⟨calm, within_dirAtClust next_clust _⟩

/-- `dir_next` stays within clusters, or it fails; at the end of the chain the directory is
at its last cluster. -/
theorem dirNext_placed (placed : s.Placed g spare) :
    dirNext.wp (fun _ t => s.volume.Calm g spare t.volume ∧ t.dir.Within g)
      (fun e t => s.volume.Calm g spare t.volume ∧
        (e = .code errEof → t.volume.Stretchable g t.dir.clust)) s := by
  have good := placed.good
  have layout := good.layout
  have geometry : s.volume.fat.geometry = g := good.geometry
  unfold dirNext wp
  rw [modifyDir, run_modify_bind, run_gets_bind]
  by_cases inside : (s.withDir fun dir => { dir with idx := dir.idx + 32 }).dir.idx < 512
  · rw [if_pos inside]
    exact ⟨.refl good, placed.within⟩
  · rw [if_neg inside, modifyDir, run_modify_bind, run_gets_bind, run_gets_bind]
    by_cases same : u32 (s.dir.sect + 1) &&& g.clustMsk ≠ 0
    · rw [if_pos (geometry.symm ▸ same)]
      exact ⟨.refl good, placed.within.next layout same⟩
    · rw [if_neg (geometry.symm ▸ same)]
      exact dirNextClust_placed (s := OpenDir.withDir _ (OpenDir.withDir _ s)) good placed.within.1

/-! ## Searching -/

/-- Where a search is, but for the place itself. -/
def OpenDir.sought (s : OpenDir) : Nat × Option Loc := (s.dir.sclust, s.loc)

/-- A search goes on within clusters. -/
def OpenDir.Walks (g : Geometry) (spare : Set Nat) (s t : OpenDir) : Prop :=
  s.Placed g spare → t.Placed g spare ∧ t.sought = s.sought

/-- A command of a search; nothing is said of where it ends if it fails. -/
abbrev DirWalks (g : Geometry) (spare : Set Nat) (command : DirM α) : Prop :=
  command.Obeys (OpenDir.Walks g spare) fun _ _ _ => True

theorem walks_composes : Composes (OpenDir.Walks g spare) fun _ (_ : Stop) _ => True where
  refl _ placed := ⟨placed, rfl⟩
  trans first second placed :=
    ⟨(second (first placed).1).1, (second (first placed).1).2.trans (first placed).2⟩
  after _ _ := trivial

theorem dirNextClust_keeps : dirNextClust.Keeps OpenDir.sought := by
  refine (keeps_gets _).bind fun _ => Keeps.bind (fun _ => rfl) fun _ => ?_
  refine .ite (keeps_stop _) (.ite (keeps_stop _) ?_)
  exact (keeps_gets _).bind fun _ => keeps_modify fun _ => rfl

theorem dirNext_keeps : dirNext.Keeps OpenDir.sought := by
  refine Keeps.bind (keeps_modify fun _ => rfl) fun _ => (keeps_gets _).bind fun _ => ?_
  refine .ite (keeps_pure _) (Keeps.bind (keeps_modify fun _ => rfl) fun _ => ?_)
  exact (keeps_gets _).bind fun _ => (keeps_gets _).bind fun _ =>
    .ite (keeps_pure _) dirNextClust_keeps

theorem dirNext_walks : DirWalks g spare dirNext := by
  intro s
  have kept := dirNext_keeps s
  unfold wp
  generalize ran : dirNext.run s = ended at kept ⊢
  obtain ⟨_ | ⟨⟩, t⟩ := ended
  · trivial
  · intro placed
    obtain ⟨calm, within⟩ := (dirNext_placed placed).of_ok ran
    exact ⟨⟨calm.good, within⟩, kept⟩

theorem updateDir_walks : DirWalks g spare updateDir := by
  intro s
  unfold wp
  generalize ran : updateDir.run s = ended
  obtain ⟨_ | ⟨⟩, t⟩ := ended
  · trivial
  · intro placed
    obtain ⟨w, moved, calm, -⟩ := updateDir_run placed.good
    cases ran.symm.trans moved
    exact ⟨⟨calm.good, placed.within⟩, rfl⟩

/-- Other fields say nothing about where the search is. -/
theorem modify_walks {f : OpenDir → OpenDir} (volume : ∀ s, (f s).volume = s.volume)
    (dir : ∀ s, (f s).dir = s.dir) (loc : ∀ s, (f s).loc = s.loc) :
    DirWalks g spare (modify f : DirM Unit) := fun s placed =>
  ⟨⟨(volume s).symm ▸ placed.good, by rw [dir s]; exact placed.within⟩, by
    unfold OpenDir.sought
    rw [dir s, loc s]⟩

theorem parseFrags_walks (cnt : Nat) : DirWalks g spare (parseFrags cnt) := by
  induction cnt with
  | zero => exact walks_composes.pure _
  | succ cnt ih =>
      refine walks_composes.bind (walks_composes.gets _) fun _ =>
        .ite (fun _ _ => trivial) fun _ => ?_
      refine walks_composes.bind (modify_walks (fun _ => rfl) (fun _ => rfl) fun _ => rfl) fun _ => ?_
      exact walks_composes.bind dirNext_walks fun _ => walks_composes.bind updateDir_walks fun _ => ih

theorem parseLfnName_walks : DirWalks g spare parseLfnName := by
  refine walks_composes.bind updateDir_walks fun _ => walks_composes.bind (walks_composes.gets _)
    fun _ => walks_composes.bind (modify_walks (fun _ => rfl) (fun _ => rfl) fun _ => rfl) fun _ => ?_
  refine .ite (fun _ _ => trivial) fun _ => .ite (fun _ _ => trivial) fun _ => ?_
  refine walks_composes.bind (parseFrags_walks _) fun _ =>
    walks_composes.bind (walks_composes.gets _) fun _ => ?_
  exact .ite (fun _ => walks_composes.pure _) fun _ _ => trivial

theorem matchEntry_walks (name : List Byte) : DirWalks g spare (matchEntry name) := by
  refine walks_composes.bind (walks_composes.gets _) fun _ => .ite (fun _ => ?_)
    fun _ => walks_composes.pure _
  refine walks_composes.bind parseLfnName_walks fun _ => walks_composes.bind (walks_composes.gets _)
    fun _ => .ite (fun _ _ => trivial) fun _ => walks_composes.pure _

/-- The slots of an entry that was found are in clusters. -/
structure OpenDir.Found (g : Geometry) (spare : Set Nat) (s t : OpenDir) : Prop where
  placed : t.Placed g spare
  sclust : t.dir.sclust = s.dir.sclust
  first : ∀ loc, t.loc = some loc → loc.Within g

/-- The loop of `dir_search`. -/
theorem searchLoop_finds (name : List Byte) (turns : Nat) : ∀ {s : OpenDir}, s.Placed g spare →
    (searchLoop name turns).wp (fun _ t => s.Found g spare t) (fun _ _ => True) s := by
  induction turns with
  | zero => exact fun _ => trivial
  | succ turns ih =>
      intro s placed
      have next : ∀ {u : OpenDir}, u.Placed g spare → u.dir.sclust = s.dir.sclust →
          (dirNext >>= fun _ => searchLoop name turns).wp (fun _ t => s.Found g spare t)
            (fun _ _ => True) u := by
        intro u there same
        apply wp_bind
        refine (@dirNext_walks g spare u).mono (fun _ x walks => ?_) fun _ _ _ => trivial
        obtain ⟨placed', sought⟩ := walks there
        refine (ih placed').mono (fun _ t found => ?_) fun _ _ _ => trivial
        exact ⟨found.placed, found.sclust.trans ((congrArg Prod.fst sought).trans same), found.first⟩
      rw [searchLoop]
      apply wp_bind
      refine (@updateDir_walks g spare s).mono (fun _ u walks => ?_) fun _ _ _ => trivial
      obtain ⟨there, sought⟩ := walks placed
      have same : u.dir.sclust = s.dir.sclust := congrArg Prod.fst sought
      unfold wp
      rw [run_gets_bind]
      dsimp only [id]
      by_cases last : u.slot.isLast = true
      · rw [if_pos last]
        trivial
      rw [if_neg last]
      by_cases free : u.slot.isFree = true
      · rw [if_pos free]
        exact next there same
      rw [if_neg free, run_modify_bind]
      -- the place is remembered as the first slot of the entry
      apply wp_bind
      refine (@matchEntry_walks g spare name _).mono (fun taken x walks => ?_) fun _ _ _ => trivial
      obtain ⟨placed', sought'⟩ := walks ⟨there.good, there.within⟩
      have same' : x.dir.sclust = s.dir.sclust := (congrArg Prod.fst sought').trans same
      cases taken with
      | false => exact next placed' same'
      | true =>
          refine ⟨placed', same', fun loc known => ?_⟩
          have here : some loc = some ⟨u.dir.sect, u.dir.idx⟩ :=
            known.symm.trans (congrArg Prod.snd sought')
          cases here
          exact there.within.loc

theorem dirSearch_finds (fuel : Nat) (name : List Byte) (good : s.volume.Good g spare)
    (enters : g.IsClust s.dir.sclust) :
    (dirSearch fuel name).wp (fun _ t => s.Found g spare t) (fun _ _ => True) s := by
  obtain ⟨x, named, sclust, placed⟩ : ∃ x, s.withDir (fun dir => dirAtClust g dir.sclust dir) = x ∧
      x.dir.sclust = s.dir.sclust ∧ x.Placed g spare :=
    ⟨_, rfl, rfl, OpenDir.placed_withDir good (within_dirAtClust enters _)⟩
  unfold dirSearch wp
  rw [run_gets_bind, good.geometry, modifyDir, run_modify_bind, named]
  exact (searchLoop_finds name fuel placed).mono
    (fun _ _ found => ⟨found.placed, found.sclust.trans sclust, found.first⟩) fun _ _ _ => trivial

/-! ### The directory of a search -/

section Searched

/-- The first cluster of the directory that is searched. -/
def OpenDir.searched (s : OpenDir) : Nat := s.dir.sclust

theorem updateDir_searched : updateDir.Keeps OpenDir.searched := fun _ => rfl

theorem dirNext_searched : dirNext.Keeps OpenDir.searched := fun s =>
  congrArg Prod.fst (dirNext_keeps s)

theorem parseFrags_searched (cnt : Nat) : (parseFrags cnt).Keeps OpenDir.searched := by
  induction cnt with
  | zero => exact keeps_pure _
  | succ cnt ih =>
      refine (keeps_gets _).bind fun _ => .ite (keeps_stop _) (Keeps.bind (keeps_modify fun _ => rfl)
        fun _ => ?_)
      exact dirNext_searched.bind fun _ => updateDir_searched.bind fun _ => ih

theorem parseLfnName_searched : parseLfnName.Keeps OpenDir.searched := by
  refine updateDir_searched.bind fun _ => (keeps_gets _).bind fun _ =>
    Keeps.bind (keeps_modify fun _ => rfl) fun _ => ?_
  refine .ite (keeps_stop _) (.ite (keeps_stop _) ((parseFrags_searched _).bind fun _ => ?_))
  exact (keeps_gets _).bind fun _ => .ite (keeps_pure _) (keeps_stop _)

theorem matchEntry_searched (name : List Byte) : (matchEntry name).Keeps OpenDir.searched :=
  (keeps_gets _).bind fun _ => .ite (parseLfnName_searched.bind fun _ =>
    (keeps_gets _).bind fun _ => .ite (keeps_stop _) (keeps_pure _)) (keeps_pure _)

theorem searchLoop_searched (name : List Byte) (turns : Nat) :
    (searchLoop name turns).Keeps OpenDir.searched := by
  induction turns with
  | zero => exact keeps_stop _
  | succ turns ih =>
      have next : (dirNext >>= fun _ => searchLoop name turns).Keeps OpenDir.searched :=
        dirNext_searched.bind fun _ => ih
      refine updateDir_searched.bind fun _ => (keeps_gets _).bind fun _ => ?_
      refine .ite (keeps_stop _) (.ite next (Keeps.bind (keeps_modify fun _ => rfl) fun _ => ?_))
      exact (matchEntry_searched _).bind fun taken => .ite (keeps_pure _) next

theorem dirSearch_searched (fuel : Nat) (name : List Byte) :
    (dirSearch fuel name).Keeps OpenDir.searched :=
  (keeps_gets _).bind fun _ => Keeps.bind (keeps_modify fun _ => rfl) fun _ => searchLoop_searched _ _

end Searched

/-! ### The end of a path -/

/-- If the directory begins with a cluster, its place and the slots that were found are in
clusters. -/
def OpenDir.Inside (g : Geometry) (s : OpenDir) : Prop :=
  g.IsClust s.dir.sclust → s.dir.Within g ∧ ∀ loc, s.loc = some loc → loc.Within g

theorem dirSearch_inside (fuel : Nat) (name : List Byte) (good : s.volume.Good g spare) :
    (dirSearch fuel name).wp (fun _ t => t.volume.Good g spare ∧ t.Inside g) (fun _ _ => True) s := by
  have calms : DirCalms g spare (dirSearch fuel name) :=
    does_iff_relates.mpr (dirSearch_looks calmly_overlooks fuel name)
  have calm := Does.wp calms good
  have searched := dirSearch_searched fuel name s
  unfold wp at calm ⊢
  generalize ran : (dirSearch fuel name).run s = ended at calm searched ⊢
  obtain ⟨_ | ⟨⟩, t⟩ := ended
  · trivial
  · refine ⟨calm.good, fun isClust => ?_⟩
    have same : t.dir.sclust = s.dir.sclust := searched
    have found := (dirSearch_finds fuel name good (same ▸ isClust)).of_ok ran
    exact ⟨found.placed.within, found.first⟩

theorem followLoop_inside (fuel turns : Nat) : ∀ {s : OpenDir} {dirClust : Nat} {dirEnterable : Bool},
    s.volume.Good g spare → s.Inside g →
    (followLoop fuel turns dirClust dirEnterable).wp (fun _ t => t.Inside g) (fun _ _ => True) s := by
  induction turns with
  | zero => exact fun _ _ => trivial
  | succ turns ih =>
      intro s dirClust dirEnterable good inside
      unfold wp
      rw [followLoop, run_modify_bind, run_gets_bind]
      dsimp only
      by_cases ends : subpathLen (s.path.dropWhile (· = slash)) = 0
      · rw [if_pos ends]
        exact inside
      rw [if_neg ends]
      by_cases closed : (!dirEnterable) = true
      · rw [if_pos closed]
        trivial
      rw [if_neg closed, run_gets_bind, modifyDir, run_modify_bind]
      apply wp_bind
      refine (@dirSearch_inside g spare _ fuel _ ?_).mono ?_ fun _ _ _ => trivial
      · exact good
      · rintro _ t ⟨good', inside'⟩
        unfold wp
        rw [run_modify_bind, run_gets_bind]
        exact ih good' inside'

/-- **A path ends** within clusters, if the directory of its last part begins with one. -/
theorem followPath_inside (fuel : Nat) (good : s.volume.Good g spare) (unset : s.loc = none) :
    (followPath fuel).wp (fun _ t => t.Inside g) (fun _ _ => True) s := by
  unfold followPath wp
  rw [run_gets_bind, good.geometry, modifyDir, run_modify_bind, run_gets_bind]
  refine followLoop_inside fuel fuel good fun isClust => ⟨within_dirAtClust isClust _, ?_⟩
  intro loc known
  cases unset.symm.trans known

/-! ## Stretching -/

/-- A directory after something was done to its volume. -/
structure OpenDir.Works (g : Geometry) (spare gone : Set Nat) (s t : OpenDir) : Prop where
  effect : s.volume.Effect g spare gone t.volume
  within : t.dir.Within g

theorem OpenDir.Works.placed (works : s.Works g spare gone t) : t.Placed g spare :=
  ⟨works.effect.good, works.within⟩

theorem OpenDir.Works.trans {u : OpenDir} (first : s.Works g spare gone t)
    (second : t.Works g spare gone u) :
    s.Works g spare gone u := ⟨first.effect.trans second.effect, second.within⟩

/-- `dir_next_stretch` stays within clusters. -/
theorem dirNextStretch_works (fuel : Nat) (placed : s.Placed g spare) :
    (dirNextStretch fuel).wp (fun _ t => s.Works g spare gone t)
      (fun _ t => s.volume.Effect g spare gone t.volume) s := by
  have good := placed.good
  unfold dirNextStretch wp
  rw [run_bind, run_attempt]
  have next := dirNext_placed placed
  unfold wp at next
  generalize dirNext.run s = ended at next ⊢
  obtain ⟨e | ⟨⟩, t⟩ := ended
  · obtain ⟨calm, stretchable⟩ := next
    have before : s.volume.Effect g spare gone t.volume := calm.effect good
    cases e with
    | code err =>
        dsimp only
        by_cases eof : err = errEof
        · rw [if_pos eof]
          subst eof
          unfold dirStretch
          rw [run_gets_bind, run_bind, onFat, run_zoom]
          have stretched := stretchChain_effect gone fuel before.good (stretchable rfl)
          unfold wp at stretched
          generalize (stretchChain fuel t.dir.clust).run t.volume = result at stretched ⊢
          obtain ⟨e | next, w⟩ := result
          · exact before.trans stretched
          · obtain ⟨effect, isClust, -⟩ := stretched
            have geometry : (t.withVolume w).volume.fat.geometry = g := effect.good.geometry
            obtain ⟨x, cleared, calm'⟩ := clustClear_calm effect.good isClust
            dsimp only
            rw [run_gets_bind, geometry, modifyDir, run_modify_bind, onFat, run_zoom]
            have volume : ((t.withVolume w).withDir (dirAtClust g next)).volume = w := rfl
            rw [volume, cleared]
            exact ⟨(before.trans effect).trans (calm'.effect effect.good),
              within_dirAtClust isClust _⟩
        · rw [if_neg eof]
          exact before
    | undefined => exact before
    | running => exact before
  · exact ⟨next.1.effect good, next.2⟩

/-! ## Changing entries -/

/-- After a place, what a calm step leaves. -/
theorem OpenDir.Placed.works (placed : s.Placed g spare) {w : Volume}
    (calm : s.volume.Calm g spare w) : s.Works g spare gone (s.withVolume w) :=
  ⟨calm.effect placed.good, placed.within⟩

theorem dirNext_works (placed : s.Placed g spare) :
    dirNext.wp (fun _ t => s.Works g spare gone t)
      (fun _ t => s.volume.Effect g spare gone t.volume) s :=
  (dirNext_placed placed).mono (fun _ _ next => ⟨next.1.effect placed.good, next.2⟩)
    fun _ _ failed => failed.1.effect placed.good

/-- The rest of a command after some work. -/
theorem OpenDir.Works.then {command : DirM α} (before : s.Works g spare gone t)
    (later : command.wp (fun _ u => t.Works g spare gone u)
      (fun _ u => t.volume.Effect g spare gone u.volume) t) :
    command.wp (fun _ u => s.Works g spare gone u)
      (fun _ u => s.volume.Effect g spare gone u.volume) t :=
  later.mono (fun _ _ works => before.trans works) fun _ _ effect => before.effect.trans effect

/-- The loop of `remove_entries`. -/
theorem removeSlots_works (last : Loc) (turns : Nat) : ∀ {s : OpenDir}, s.Placed g spare →
    (removeSlots last turns).wp (fun _ t => s.Works g spare gone t)
      (fun _ t => s.volume.Effect g spare gone t.volume) s := by
  induction turns with
  | zero => exact fun placed => wp_stop (.refl placed.good)
  | succ turns ih =>
      intro s placed
      obtain ⟨v, w, moved, edited, calm⟩ := updateEdit_run placed (Slot.setFirst sfnFree)
      have works : s.Works g spare gone (s.withVolume w) := placed.works calm
      unfold wp
      rw [removeSlots, run_bind_ok moved, run_bind_ok edited, run_gets_bind]
      by_cases ends : (s.withVolume w).dir.sect = last.sect ∧ (s.withVolume w).dir.idx = last.idx
      · rw [if_pos ends]
        exact works
      · rw [if_neg ends]
        apply wp_bind
        refine (works.then (dirNext_works works.placed)).mono ?_ fun _ _ failed => failed
        exact fun _ t moved => moved.then (ih moved.placed)

/-- `remove_entries` from a location within a cluster. -/
theorem removeEntries_works (fuel : Nat) {loc : Loc} (good : s.volume.Good g spare)
    (within : loc.Within g) :
    (removeEntries fuel loc).wp (fun _ t => s.volume.Effect g spare gone t.volume)
      (fun _ t => s.volume.Effect g spare gone t.volume) s := by
  have placed := OpenDir.placed_withDir good (within.moveTo good.layout s.dir)
  obtain ⟨x, named, volume⟩ : ∃ x, s.withDir (moveTo g loc) = x ∧ x.volume = s.volume :=
    ⟨_, rfl, OpenDir.withDir_volume _ _⟩
  unfold removeEntries wp
  rw [run_gets_bind, run_gets_bind, good.geometry, modifyDir, run_modify_bind, named, ← volume]
  exact (removeSlots_works _ fuel (named ▸ placed)).mono (fun _ _ works => works.effect)
    fun _ _ failed => failed

/-- The room that `dir_add` looks for begins within a cluster. -/
theorem findRoom_works (fuel need : Nat) (turns : Nat) : ∀ {s : OpenDir} {cnt : Nat} {eod : Bool}
    {loc : Loc}, s.Placed g spare → (cnt = 0 ∨ loc.Within g) → 0 < need →
    (findRoom fuel need turns cnt eod loc).wp
      (fun room t => s.Works g spare gone t ∧ room.2.Within g)
      (fun _ t => s.volume.Effect g spare gone t.volume) s := by
  induction turns with
  | zero => exact fun placed _ _ => wp_stop (.refl placed.good)
  | succ turns ih =>
      intro s cnt eod loc placed within positive
      rw [findRoom]
      by_cases enough : need ≤ cnt
      · rw [if_pos enough]
        refine wp_pure ⟨⟨.refl placed.good, placed.within⟩, ?_⟩
        exact within.resolve_left (by omega)
      · rw [if_neg enough]
        obtain ⟨w, moved, calm, -⟩ := updateDir_run placed.good
        have works : s.Works g spare gone (s.withVolume w) := placed.works calm
        unfold wp
        rw [run_bind_ok moved, run_gets_bind]
        dsimp only [id]
        apply wp_bind
        refine (dirNextStretch_works fuel works.placed).mono ?_ fun _ _ failed =>
          works.effect.trans failed
        intro _ t stretched
        have so_far := works.trans stretched
        have first : (s.withVolume w).dir.Within g := works.within
        refine (ih so_far.placed ?_ positive).mono ?_ fun _ _ failed => so_far.effect.trans failed
        · cases isFree : eod || (s.withVolume w).slot.isFree with
          | false => exact .inl rfl
          | true =>
              by_cases zero : cnt = 0
              · simp only [zero, decide_true, Bool.and_self, if_true]
                exact .inr first.loc
              · simp only [zero, decide_false, Bool.and_false, Bool.false_eq_true, if_false]
                exact .inr (within.resolve_left zero)
        · exact fun room u later => ⟨so_far.trans later.1, later.2⟩

/-- A slot is changed, and the directory stays where it is. -/
theorem updateEdit_works (placed : s.Placed g spare) (edit : Slot → Slot) :
    (updateDir >>= fun _ => editSlot edit).wp (fun _ t => s.Works g spare gone t)
      (fun _ t => s.volume.Effect g spare gone t.volume) s := by
  obtain ⟨v, w, moved, edited, calm⟩ := updateEdit_run placed edit
  unfold wp
  rw [run_bind_ok moved, edited]
  exact placed.works calm

theorem putEnd_works (eod : Bool) (placed : s.Placed g spare) :
    (putEnd eod).wp (fun _ t => s.Works g spare gone t)
      (fun _ t => s.volume.Effect g spare gone t.volume) s := by
  unfold putEnd
  split
  · exact updateEdit_works placed _
  · exact ⟨.refl placed.good, placed.within⟩

/-- The loop of `dir_add` that writes a long name. -/
theorem putFrags_works (name : List Byte) (crc : Byte) (i : Nat) : ∀ {s : OpenDir} (mask : Nat),
    s.Placed g spare → (putFrags name crc i mask).wp (fun _ t => s.Works g spare gone t)
      (fun _ t => s.volume.Effect g spare gone t.volume) s := by
  induction i with
  | zero => exact fun _ placed => wp_pure ⟨.refl placed.good, placed.within⟩
  | succ i ih =>
      intro s mask placed
      obtain ⟨v, w, moved, edited, calm⟩ :=
        updateEdit_run placed (lfnSlot ((name.drop (13 * i)).take 13) (mask ||| (i + 1)) crc)
      have works : s.Works g spare gone (s.withVolume w) := placed.works calm
      unfold wp
      rw [putFrags, run_bind_ok moved, run_bind_ok edited]
      apply wp_bind
      refine (works.then (dirNext_works works.placed)).mono ?_ fun _ _ failed => failed
      exact fun _ t moved => moved.then (ih 0 moved.placed)

/-- The cluster that a directory begins with; a directory of the root has no number for its
parent. -/
def Geometry.entered (g : Geometry) (clust : Nat) : Nat := if clust = 0 then g.rootClust else clust

/-- **Adding an entry**, at which the directory is then. -/
theorem dirAdd_works (fuel : Nat) (name : List Byte) (attr clust : Nat) (good : s.volume.Good g spare)
    (enters : g.IsClust (g.entered s.dir.sclust)) :
    (dirAdd fuel name attr clust).wp (fun _ t => s.Works g spare gone t)
      (fun _ t => s.volume.Effect g spare gone t.volume) s := by
  unfold dirAdd
  by_cases bad : name = [] ∨ 255 < name.length
  · rw [if_pos bad]
    exact wp_stop (.refl good)
  · rw [if_neg bad]
    obtain ⟨x, named, volume, placed⟩ : ∃ x, s.withDir (fun dir => dirEnter g dir.sclust dir) = x ∧
        x.volume = s.volume ∧ x.Placed g spare :=
      ⟨_, rfl, OpenDir.withDir_volume _ _,
        OpenDir.placed_withDir good (within_dirAtClust enters _)⟩
    have same : ∀ {t : OpenDir}, x.Works g spare gone t → s.Works g spare gone t := fun works =>
      ⟨volume ▸ works.effect, works.within⟩
    unfold wp
    rw [run_gets_bind, good.geometry, modifyDir, run_modify_bind, named, ← volume]
    apply wp_bind
    refine (findRoom_works fuel _ fuel placed (.inl rfl) (Nat.succ_pos _)).mono ?_
      fun _ _ failed => failed
    rintro ⟨eod, loc⟩ t ⟨works, inside⟩
    apply wp_bind
    refine (works.then (putEnd_works eod works.placed)).mono ?_ fun _ _ failed => failed
    intro _ u ended
    obtain ⟨y, moved, volume', placed'⟩ : ∃ y, u.withDir (moveTo g loc) = y ∧
        y.volume = u.volume ∧ y.Placed g spare :=
      ⟨_, rfl, OpenDir.withDir_volume _ _,
        OpenDir.placed_withDir ended.effect.good (inside.moveTo good.layout u.dir)⟩
    have so_far : x.Works g spare gone y := ⟨volume'.symm ▸ ended.effect, placed'.within⟩
    unfold wp
    rw [modifyDir, run_modify_bind, moved]
    apply wp_bind
    refine (so_far.then (putFrags_works name _ _ lfnHeadMsk so_far.placed)).mono ?_
      fun _ _ failed => failed
    intro _ z written
    exact (written.then (updateEdit_works written.placed _)).mono (fun _ _ works => same works)
      fun _ _ failed => failed

end NTux.Fat32
