import NTux.Fat32.Fragments
import NTux.Fat32.DirectoryEffects

/-! # Long names

`dir_add` writes a long name in fragments, the last one first, and `parse_lfn_name` reads them
in the order of their slots. Both follow `dir_next`, so what was written is read again from
every place of a directory that has enough slots behind it (`longName_roundTrip`).
-/

namespace NTux.Fat32

open NTux.Foundation Command

/-! ## Where `dir_next` goes -/

/-- The place behind a directory's place, by the links of the FAT. -/
def nextDir (g : Geometry) (link : Nat → Nat) (dir : Dir) : Except Int Dir :=
  if dir.idx + 32 < 512 then .ok { dir with idx := dir.idx + 32 }
  else if u32 (dir.sect + 1) &&& g.clustMsk ≠ 0 then
    .ok { dir with idx := 0, sect := u32 (dir.sect + 1) }
  else match clustFlags g.clustCnt (link dir.clust) with
    | some .used => .ok (dirAtClust g (link dir.clust) dir)
    | some .last => .error errEof
    | _ => .error errBroken

/-- The volume has these links in a chain. -/
structure Serves (g : Geometry) (chain : List Nat) (link : Nat → Nat) (v : Volume) : Prop where
  geometry : v.fat.geometry = g
  ready : v.Ready g.area
  links : ∀ c ∈ chain, v.link c = link c

/-- A place that a walk over a chain comes to. -/
structure Cursor (g : Geometry) (chain : List Nat) (dir : Dir) : Prop where
  clust : dir.clust ∈ chain
  within : dir.Within g
  idx : dir.idx < 512
  slot : 32 ∣ dir.idx

variable {g : Geometry} {chain : List Nat} {link : Nat → Nat} {v w : Volume} {s t : OpenDir}
  {d e : Dir} {ds : List Dir} {name : List Byte} {crc : Byte}

theorem Serves.agrees (serves : Serves g chain link v) (layout : g.Layout)
    (clusters : ∀ c ∈ chain, g.IsClust c) (agrees : v.Agrees g.area w) (ready : w.Ready g.area) :
    Serves g chain link w where
  geometry := agrees.geometry.trans serves.geometry
  ready := ready
  links c member := by
    obtain ⟨rfl, -, links⟩ := serves
    rw [← links c member]
    exact (agrees.rewrites ready).link (clusters c member).inFat

/-- `dir_next` goes there. -/
theorem dirNext_run (layout : g.Layout) (clusters : ∀ c ∈ chain, g.IsClust c)
    (serves : Serves g chain link s.volume) (inside : s.dir.clust ∈ chain) :
    ∃ w, Serves g chain link w ∧ s.volume.Agrees g.area w ∧
      match nextDir g link s.dir with
      | .ok d => dirNext.run s = (.ok (), { s with volume := w, dir := d })
      | .error err => (dirNext.run s).1 = .error (.code err) := by
  have geometry := serves.geometry
  have start : dirNext.run s = (if s.dir.idx + 32 < 512 then pure () else do
      modifyDir fun dir => { dir with idx := 0, sect := u32 (dir.sect + 1) }
      let dir ← gets (·.dir)
      let g ← gets (·.volume.fat.geometry)
      if dir.sect &&& g.clustMsk ≠ 0 then pure () else dirNextClust : DirM Unit).run
        (s.withDir fun dir => { dir with idx := dir.idx + 32 }) := rfl
  unfold nextDir
  by_cases slot : s.dir.idx + 32 < 512
  · rw [if_pos slot] at start ⊢
    exact ⟨s.volume, serves, .refl, start⟩
  · rw [if_neg slot] at start ⊢
    have later : dirNext.run s =
        (if u32 (s.dir.sect + 1) &&& g.clustMsk ≠ 0 then pure () else dirNextClust : DirM Unit).run
          (s.withDir fun dir => { dir with idx := 0, sect := u32 (dir.sect + 1) }) := by
      rw [start, ← geometry]
      rfl
    by_cases sector : u32 (s.dir.sect + 1) &&& g.clustMsk ≠ 0
    · rw [if_pos sector] at later ⊢
      exact ⟨s.volume, serves, .refl, later⟩
    · rw [if_neg sector] at later ⊢
      obtain ⟨w, read, ready, agrees, -⟩ := getFat_spec (geometry ▸ layout) (geometry ▸ serves.ready)
        (geometry ▸ (clusters _ inside).inFat)
      rw [geometry] at read ready agrees
      rw [serves.links _ inside] at read
      refine ⟨w, serves.agrees layout clusters agrees ready, agrees, ?_⟩
      rw [later]
      unfold dirNextClust
      rw [run_gets_bind]
      cases known : clustFlags g.clustCnt (link s.dir.clust) with
      | none =>
          rw [known] at read
          have looked : (onFat (getFat s.dir.clust)).run
              (s.withDir fun dir => { dir with idx := 0, sect := u32 (dir.sect + 1) }) =
                (.error (.code errBroken), { s with volume := w, dir :=
                  { s.dir with idx := 0, sect := u32 (s.dir.sect + 1) } }) := by
            rw [onFat, run_zoom, OpenDir.withDir_volume, read]
            rfl
          exact congrArg Prod.fst (run_bind_error looked)
      | some flags =>
          rw [known] at read
          have looked : (onFat (getFat s.dir.clust)).run
              (s.withDir fun dir => { dir with idx := 0, sect := u32 (dir.sect + 1) }) =
                (.ok (link s.dir.clust, flags), { s with volume := w, dir :=
                  { s.dir with idx := 0, sect := u32 (s.dir.sect + 1) } }) := by
            rw [onFat, run_zoom, OpenDir.withDir_volume, read]
            rfl
          cases flags with
          | free => exact congrArg Prod.fst (run_bind_ok looked)
          | bad => exact congrArg Prod.fst (run_bind_ok looked)
          | last => exact congrArg Prod.fst (run_bind_ok looked)
          | used =>
              refine (run_bind_ok looked).trans ?_
              have geometry' : w.fat.geometry = g := agrees.geometry.trans geometry
              rw [← geometry']
              rfl

/-! ## Places of a walk -/

/-- Places that are met later have a higher number. -/
def placeNumber (chain : List Nat) (dir : Dir) : Nat :=
  chain.idxOf dir.clust * 2 ^ 41 + dir.sect * 512 + dir.idx

/-- The cluster behind one that is not the last. -/
theorem FatChain.idxOf_next {c : Nat} (isChain : FatChain v chain) (nodup : chain.Nodup)
    (member : c ∈ chain) (used : clustFlags v.fat.geometry.clustCnt (v.link c) = some .used) :
    v.link c ∈ chain ∧ chain.idxOf (v.link c) = chain.idxOf c + 1 := by
  obtain ⟨before, after, rfl⟩ := List.append_of_mem member
  cases after with
  | nil =>
      rw [FatChain.clustFlags_last isChain.link_last] at used
      cases used
  | cons next after =>
      obtain ⟨link, -⟩ := List.isChain_iff_forall_rel_of_append_cons_cons.mp isChain.links rfl
      obtain ⟨differ, -⟩ := List.nodup_cons.mp (List.nodup_append.mp nodup).2.1
      have outside {x : Nat} (later : x ∈ c :: next :: after) : x ∉ before := fun inside =>
        (List.nodup_append.mp nodup).2.2 x inside x later rfl
      have other : c ≠ next := by
        rintro rfl
        exact differ List.mem_cons_self
      refine ⟨by rw [link]; simp, ?_⟩
      rw [link, List.idxOf_append_of_notMem (outside (by simp)),
        List.idxOf_append_of_notMem (outside (by simp)), List.idxOf_cons_self,
        List.idxOf_cons_ne _ other, List.idxOf_cons_self]

/-- `dir_next` goes on to a place of the walk with a higher number. -/
theorem nextDir_cursor (layout : v.fat.geometry.Layout) (isChain : FatChain v chain)
    (nodup : chain.Nodup) (cursor : Cursor v.fat.geometry chain d)
    (next : nextDir v.fat.geometry v.link d = .ok e) :
    Cursor v.fat.geometry chain e ∧ placeNumber chain d < placeNumber chain e := by
  obtain ⟨member, within, idx, slot⟩ := cursor
  have small : d.sect < 2 ^ 32 := (within.mem_dataArea layout).2.trans_le layout.dataFits
  unfold nextDir at next
  split_ifs at next with inside sector
  · obtain rfl := Except.ok.inj next
    refine ⟨⟨member, within, inside, Nat.dvd_add slot (Nat.dvd_refl 32)⟩, ?_⟩
    unfold placeNumber
    dsimp only
    omega
  · obtain rfl := Except.ok.inj next
    have walked : Geometry.Walked v.fat.geometry d.clust (u32 (d.sect + 1)) := within.next layout sector
    refine ⟨⟨member, walked, Nat.zero_lt_succ 511, Nat.dvd_zero 32⟩, ?_⟩
    -- the number of the sector does not wrap
    have number : u32 (d.sect + 1) = d.sect + 1 := by
      refine u32_of_lt (Nat.lt_of_le_of_ne small fun wraps => sector ?_)
      rw [wraps, u32, Nat.mod_self, Nat.zero_and]
    unfold placeNumber
    dsimp only
    rw [number]
    omega
  · cases known : clustFlags v.fat.geometry.clustCnt (v.link d.clust) with
    | none =>
        rw [known] at next
        cases next
    | some flags =>
        rw [known] at next
        cases flags with
        | free => cases next
        | bad => cases next
        | last => cases next
        | used =>
            obtain rfl := Except.ok.inj next
            obtain ⟨later, index⟩ := isChain.idxOf_next nodup member known
            refine ⟨⟨later, within_dirAtClust (isChain.clusters _ later) d, Nat.zero_lt_succ 511,
              Nat.dvd_zero 32⟩, ?_⟩
            change chain.idxOf d.clust * 2 ^ 41 + d.sect * 512 + d.idx <
              chain.idxOf (v.link d.clust) * 2 ^ 41 + _ * 512 + 0
            rw [index]
            omega

/-- A place has one number. -/
theorem Cursor.number_eq (layout : g.Layout) (cursor : Cursor g chain d) (cursor' : Cursor g chain e)
    (sect : d.sect = e.sect) (idx : d.idx = e.idx) : placeNumber chain d = placeNumber chain e := by
  have clust : d.clust = e.clust := by
    rw [← Geometry.Walked.sectToClust layout cursor.within, sect,
      Geometry.Walked.sectToClust layout cursor'.within]
  rw [placeNumber, placeNumber, clust, sect, idx]

/-- The places that `dir_next` comes to. -/
def Path (g : Geometry) (link : Nat → Nat) : Dir → List Dir → Prop
  | _, [] => True
  | d, e :: ds => nextDir g link d = .ok e ∧ Path g link e ds

theorem Path.cursor (layout : v.fat.geometry.Layout) (isChain : FatChain v chain)
    (nodup : chain.Nodup) (cursor : Cursor v.fat.geometry chain d)
    (path : Path v.fat.geometry v.link d ds) :
    ∀ e ∈ ds, Cursor v.fat.geometry chain e ∧ placeNumber chain d < placeNumber chain e := by
  induction ds generalizing d with
  | nil => exact fun e member => absurd member List.not_mem_nil
  | cons first ds ih =>
      obtain ⟨next, rest⟩ := path
      obtain ⟨cursor', less⟩ := nextDir_cursor layout isChain nodup cursor next
      intro e member
      rcases List.mem_cons.mp member with rfl | later
      · exact ⟨cursor', less⟩
      · obtain ⟨cursor'', less'⟩ := ih cursor' rest e later
        exact ⟨cursor'', less.trans less'⟩

/-- The last of some places. -/
def lastDir : Dir → List Dir → Dir
  | d, [] => d
  | _, e :: ds => lastDir e ds

theorem lastDir_mem (d : Dir) (ds : List Dir) : lastDir d ds ∈ d :: ds := by
  induction ds generalizing d with
  | nil => exact List.mem_singleton_self d
  | cons e ds ih => exact List.mem_cons_of_mem _ (ih e)

theorem Path.cursor_last (layout : v.fat.geometry.Layout) (isChain : FatChain v chain)
    (nodup : chain.Nodup) (cursor : Cursor v.fat.geometry chain d)
    (path : Path v.fat.geometry v.link d ds) : Cursor v.fat.geometry chain (lastDir d ds) := by
  rcases List.mem_cons.mp (lastDir_mem d ds) with same | later
  · exact same.symm ▸ cursor
  · exact (path.cursor layout isChain nodup cursor _ later).1

/-- Where there are enough places behind one, `dir_advance` gives them. -/
theorem path_of_dirAdvance (layout : v.fat.geometry.Layout) (isChain : FatChain v chain)
    (nodup : chain.Nodup) : ∀ (cnt : Nat) {s t : OpenDir},
    Serves v.fat.geometry chain v.link s.volume → Cursor v.fat.geometry chain s.dir →
    (dirAdvance cnt).run s = (.ok (), t) →
      ∃ ds, ds.length = cnt ∧ Path v.fat.geometry v.link s.dir ds ∧ t.dir = lastDir s.dir ds ∧
        Serves v.fat.geometry chain v.link t.volume ∧ s.volume.Agrees v.fat.geometry.area t.volume
  | 0, s, t, serves, _, advanced => by
      cases advanced
      exact ⟨[], rfl, trivial, rfl, serves, .refl⟩
  | cnt + 1, s, t, serves, cursor, advanced => by
      obtain ⟨⟨⟩, u, moved, rest⟩ := of_run_bind_ok advanced
      obtain ⟨w, serves', agrees, next⟩ := dirNext_run layout isChain.clusters serves cursor.clust
      cases goes : nextDir v.fat.geometry v.link s.dir with
      | error err =>
          rw [goes] at next
          exact nomatch (congrArg Prod.fst moved).symm.trans next
      | ok d =>
          rw [goes] at next
          obtain ⟨-, rfl⟩ := Prod.mk.inj (moved.symm.trans next)
          have cursor' := (nextDir_cursor layout isChain nodup cursor goes).1
          obtain ⟨ds, length, path, last, serves'', agrees'⟩ :=
            path_of_dirAdvance layout isChain nodup cnt serves' cursor' rest
          exact ⟨d :: ds, congrArg (· + 1) length, ⟨goes, path⟩, last, serves'', agrees.trans agrees'⟩

/-! ## Writing -/

/-- The slot at a place. -/
def slotAt (v : Volume) (dir : Dir) : Slot := (v.view dir.sect).slot dir.idx

/-- A slot is written, and no other one. -/
theorem writeSlot_run (layout : g.Layout) (clusters : ∀ c ∈ chain, g.IsClust c)
    (serves : Serves g chain link s.volume) (cursor : Cursor g chain s.dir) (edit : Slot → Slot) :
    ∃ u w, updateDir.run s = (.ok (), s.withVolume u) ∧
      (editSlot edit).run (s.withVolume u) = (.ok (), s.withVolume w) ∧ Serves g chain link w ∧
      (slotAt w s.dir).Same (edit (slotAt s.volume s.dir)) ∧
      ∀ e, Cursor g chain e → placeNumber chain e ≠ placeNumber chain s.dir →
        (slotAt w e).Same (slotAt s.volume e) := by
  have data := cursor.within.mem_dataArea layout
  obtain ⟨w, written, ready, plain, view, -⟩ := updateEdit_spec serves.ready
    (Geometry.dataArea_subset data) (Sector.putSlot s.dir.idx edit)
  obtain ⟨⟨⟩, u, moved, edited⟩ := of_run_bind_ok written
  have geometry : w.fat.geometry = g := (Volume.geometry_of_unbuffered plain).trans serves.geometry
  refine ⟨u, w, ?_, ?_, ⟨geometry, ready, fun c member => ?_⟩, ?_, fun e cursor' differ => ?_⟩
  · rw [updateDir, run_gets_bind, onFat, run_zoom, moved]
  · have volume : (s.withVolume u).volume = u := rfl
    have dir : (s.withVolume u).dir = s.dir := rfl
    unfold editSlot
    rw [run_gets_bind, onFat, run_zoom, volume, dir, edited]
    rfl
  · -- the entry is not in the data area
    have inFat := Geometry.mem_fatArea (clusters c member).inFat
    have other : g.fatSect + c / 128 ≠ s.dir.sect := fun same =>
      Set.disjoint_left.mp layout.data data (.inl (.inl (same ▸ inFat)))
    rw [← serves.links c member]
    unfold Volume.link Volume.entry entryAt
    rw [geometry, serves.geometry, view (Geometry.fatArea_subset inFat), Function.update_of_ne other]
  · unfold slotAt
    rw [view (Geometry.dataArea_subset data), Function.update_self]
    exact putSlot_same _ _ _
  · unfold slotAt
    rw [view (Geometry.dataArea_subset (cursor'.within.mem_dataArea layout))]
    by_cases same : e.sect = s.dir.sect
    · rw [same, Function.update_self]
      have apart : e.idx ≠ s.dir.idx := fun idx => differ (cursor'.number_eq layout cursor same idx)
      have slot := cursor.slot
      have slot' := cursor'.slot
      exact putSlot_other edit (by omega)
    · rw [Function.update_of_ne same]
      exact fun _ _ => rfl

/-- The places but for the last have the fragments of a name. -/
def FragsAt (v : Volume) (name : List Byte) (crc : Byte) : Nat → Dir → List Dir → Prop
  | _, _, [] => True
  | mask, d, e :: ds =>
    IsFrag (slotAt v d) ((name.drop (13 * ds.length)).take 13) (mask ||| (ds.length + 1)) crc ∧
      FragsAt v name crc 0 e ds

/-- Fragments do not notice what happens at later places. -/
theorem FragsAt.congr (layout : v.fat.geometry.Layout) (isChain : FatChain v chain)
    (nodup : chain.Nodup) {u w : Volume} {mask : Nat} (cursor : Cursor v.fat.geometry chain d)
    (path : Path v.fat.geometry v.link d ds) (frags : FragsAt u name crc mask d ds)
    (same : ∀ e, Cursor v.fat.geometry chain e →
      placeNumber chain e < placeNumber chain (lastDir d ds) → (slotAt w e).Same (slotAt u e)) :
    FragsAt w name crc mask d ds := by
  induction ds generalizing d mask with
  | nil => trivial
  | cons e ds ih =>
      have later := (path.cursor layout isChain nodup cursor _ (lastDir_mem e ds)).2
      refine ⟨frags.1.congr (same d cursor later), ?_⟩
      exact ih (nextDir_cursor layout isChain nodup cursor path.1).1 path.2 frags.2 same

/-- A slot is seen again on a volume that agrees. -/
theorem slotAt_agrees (layout : g.Layout) (agrees : v.Agrees g.area w) (cursor : Cursor g chain d) :
    slotAt w d = slotAt v d := by
  unfold slotAt
  rw [agrees.view (Geometry.dataArea_subset (cursor.within.mem_dataArea layout))]

/-- The loop of `dir_add` writes the fragments at the places that `dir_next` comes to. -/
theorem putFrags_run (layout : v.fat.geometry.Layout) (isChain : FatChain v chain)
    (nodup : chain.Nodup) (nonzero : ∀ c ∈ name, c ≠ 0) (crc : Byte) : ∀ (ds : List Dir) {mask : Nat}
    {s : OpenDir}, Serves v.fat.geometry chain v.link s.volume → Cursor v.fat.geometry chain s.dir →
    Path v.fat.geometry v.link s.dir ds → mask < 256 → ds.length < 256 →
    ∃ t, (putFrags name crc ds.length mask).run s = (.ok (), t) ∧ t.dir = lastDir s.dir ds ∧
      Serves v.fat.geometry chain v.link t.volume ∧ FragsAt t.volume name crc mask s.dir ds ∧
      ∀ e, Cursor v.fat.geometry chain e → placeNumber chain e < placeNumber chain s.dir →
        (slotAt t.volume e).Same (slotAt s.volume e) := by
  intro ds
  induction ds with
  | nil => exact fun serves _ _ _ _ => ⟨_, rfl, rfl, serves, trivial, fun _ _ _ _ _ => rfl⟩
  | cons e ds ih =>
      intro mask s serves cursor path small few
      obtain ⟨u, w, moved, edited, serves', here, others⟩ := writeSlot_run layout isChain.clusters
        serves cursor (lfnSlot ((name.drop (13 * ds.length)).take 13) (mask ||| (ds.length + 1)) crc)
      obtain ⟨w', serves'', agrees, next⟩ :=
        dirNext_run (s := s.withVolume w) layout isChain.clusters serves' cursor.clust
      obtain ⟨goes, rest⟩ := path
      have goes' : nextDir v.fat.geometry v.link (s.withVolume w).dir = .ok e := goes
      rw [goes'] at next
      obtain ⟨cursor', less⟩ := nextDir_cursor layout isChain nodup cursor goes
      obtain ⟨t, ran, last, serves3, frags, kept⟩ :=
        ih (s := { s.withVolume w with volume := w', dir := e }) serves'' cursor' rest
          (by decide : 0 < 256) (by rw [List.length_cons] at few; omega)
      -- the later fragments are at other places
      have earlier {x : Dir} (cursorX : Cursor v.fat.geometry chain x)
          (before : placeNumber chain x < placeNumber chain e) :
          (slotAt t.volume x).Same (slotAt w x) := by
        have same := kept x cursorX before
        have agree := slotAt_agrees layout agrees cursorX
        exact agree ▸ same
      refine ⟨t, ?_, last, serves3, ⟨?_, frags⟩, fun x cursorX before => ?_⟩
      · rw [List.length_cons, putFrags, run_bind_ok moved, run_bind_ok edited, run_bind_ok next]
        exact ran
      · refine IsFrag.congr ((earlier cursor less).trans here) (isFrag_lfnSlot ?_ ?_ ?_ crc _)
        · exact List.length_take_le _ _
        · exact fun c member => nonzero c (List.mem_of_mem_drop (List.mem_of_mem_take member))
        · exact @Nat.or_lt_two_pow _ _ 8 small (by rw [List.length_cons] at few; omega)
      · exact (earlier cursorX (before.trans less)).trans (others x cursorX before.ne)

/-- The part of `dir_add` that finds room for an entry. -/
def dirRoom (fuel need : Nat) : DirM Unit := do
  let g ← gets (·.volume.fat.geometry)
  modifyDir fun dir => dirEnter g dir.sclust dir
  let (eod, loc) ← findRoom fuel need fuel 0 false ⟨0, 0⟩
  putEnd eod
  modifyDir (moveTo g loc)

/-- The part of `dir_add` that writes the entry there. -/
def writeEntry (name : List Byte) (attr clust : Nat) : DirM Unit := do
  putFrags name (getCrc (putSfnName name)) ((name.length + 12) / 13) lfnHeadMsk
  updateDir
  editSlot (sfnSlot (putSfnName name) attr clust)

/-- `dir_add` finds room and writes the entry there. -/
theorem dirAdd_eq (fuel : Nat) (attr clust : Nat) (some : name ≠ []) (short : name.length ≤ 255) :
    dirAdd fuel name attr clust =
      (dirRoom fuel ((name.length + 12) / 13 + 1) >>= fun _ => writeEntry name attr clust) := by
  have refused : ¬ (name = [] ∨ 255 < name.length) := by
    rintro (empty | long)
    · exact some empty
    · omega
  rw [dirAdd, if_neg refused]
  simp only [dirRoom, writeEntry, bind_bind]

/-- The entry is written at the places that `dir_next` comes to. -/
theorem writeEntry_run (layout : v.fat.geometry.Layout) (isChain : FatChain v chain)
    (nodup : chain.Nodup) (nonzero : ∀ c ∈ name, c ≠ 0) (serves : Serves v.fat.geometry chain v.link
    s.volume) (cursor : Cursor v.fat.geometry chain s.dir) (path : Path v.fat.geometry v.link s.dir ds)
    (length : ds.length = (name.length + 12) / 13) (few : ds.length < 256) (attr clust : Nat) :
    ∃ t, (writeEntry name attr clust).run s = (.ok (), t) ∧ t.dir = lastDir s.dir ds ∧
      Serves v.fat.geometry chain v.link t.volume ∧
      FragsAt t.volume name (getCrc (putSfnName name)) lfnHeadMsk s.dir ds ∧
      ∃ old, (slotAt t.volume t.dir).Same (sfnSlot (putSfnName name) attr clust old) := by
  obtain ⟨t, ran, last, serves', frags, -⟩ := putFrags_run layout isChain nodup nonzero
    (getCrc (putSfnName name)) ds serves cursor path (by decide : lfnHeadMsk < 256) few
  have cursor' : Cursor v.fat.geometry chain t.dir := by
    rw [last]
    exact path.cursor_last layout isChain nodup cursor
  obtain ⟨u, w, moved, edited, serves'', here, others⟩ := writeSlot_run layout isChain.clusters serves'
    cursor' (sfnSlot (putSfnName name) attr clust)
  refine ⟨t.withVolume w, ?_, last, serves'', ?_, _, here⟩
  · rw [length] at ran
    rw [writeEntry, run_bind_ok ran, run_bind_ok moved, edited]
  · refine frags.congr layout isChain nodup cursor path fun e cursorE before => ?_
    exact others e cursorE (by rw [last]; exact before.ne)

/-! ## Reading -/

/-- The buffer holds the sector of the place after `update_dir`. -/
theorem updateDir_slot (serves : Serves g chain link s.volume) :
    ∃ w, updateDir.run s = (.ok (), s.withVolume w) ∧ s.volume.Agrees g.area w ∧ w.Ready g.area ∧
      w.fat.sect = s.dir.sect := by
  obtain ⟨w, moved, ready, agrees, at', -, -⟩ := updateBuf_spec serves.ready s.dir.sect
  refine ⟨w, ?_, agrees, ready, at'⟩
  rw [updateDir, run_gets_bind, onFat, run_zoom, moved]

theorem OpenDir.slot_eq (here : s.volume.fat.sect = s.dir.sect) : s.slot = slotAt s.volume s.dir := by
  rw [OpenDir.slot, slotAt, ← here, Volume.view_buffered]

/-- The end of a name is in the buffer of names, from an index on. -/
structure OpenDir.Read (s : OpenDir) (name : List Byte) (start : Nat) : Prop where
  gLen : s.gLen = name.length - start
  gBuf : ∀ i, start ≤ i → i < name.length → s.gBuf i = name.getD i 0

/-- A fragment is read in front of the end of the name. -/
theorem OpenDir.Read.collect (short : name.length ≤ 255) {cnt : Nat}
    (read : s.Read name (13 * (cnt + 1))) :
    (s.collect cnt ((name.drop (13 * cnt)).take 13)).Read name (13 * cnt) := by
  have length : ((name.drop (13 * cnt)).take 13).length = min 13 (name.length - 13 * cnt) := by
    rw [List.length_take, List.length_drop]
  constructor
  · unfold OpenDir.collect
    dsimp only
    rw [read.gLen, length, Nat.mod_eq_of_lt (by omega)]
    omega
  · intro i low inside
    unfold OpenDir.collect
    dsimp only
    by_cases here : i < 13 * (cnt + 1)
    · rw [Memory.store_of_mem _ _ ⟨low, by omega⟩, List.getD_eq_getElem _ _ (by omega),
        List.getD_eq_getElem _ _ inside, List.getElem_take, List.getElem_drop]
      congr 1
      omega
    · rw [Memory.store_of_notMem _ _ fun member => by
        have above := member.2
        omega]
      exact read.gBuf i (by omega) inside

/-- The loop of `parse_lfn_name` reads the fragments. -/
theorem parseFrags_run (layout : v.fat.geometry.Layout) (isChain : FatChain v chain)
    (nodup : chain.Nodup) (short : name.length ≤ 255) {u : Volume} : ∀ (ds : List Dir) {mask : Nat}
    {s : OpenDir}, Serves v.fat.geometry chain v.link s.volume →
    u.Agrees v.fat.geometry.area s.volume → Cursor v.fat.geometry chain s.dir →
    Path v.fat.geometry v.link s.dir ds → FragsAt u name crc mask s.dir ds →
    s.volume.fat.sect = s.dir.sect → s.gCrc = crc → s.Read name (13 * ds.length) →
    ∃ t, (parseFrags ds.length).run s = (.ok (), t) ∧ t.dir = lastDir s.dir ds ∧
      u.Agrees v.fat.geometry.area t.volume ∧ t.volume.fat.sect = t.dir.sect ∧ t.gCrc = crc ∧
      t.Read name 0 := by
  intro ds
  induction ds with
  | nil => exact fun _ agrees _ _ _ here checked read => ⟨_, rfl, rfl, agrees, here, checked, read⟩
  | cons e ds ih =>
      intro mask s serves agrees cursor path frags here checked read
      obtain ⟨goes, rest⟩ := path
      obtain ⟨frag, frags⟩ := frags
      rw [← slotAt_agrees layout agrees cursor, ← OpenDir.slot_eq here] at frag
      -- the fragment, and the place behind it
      obtain ⟨w, serves', agrees', next⟩ := dirNext_run (s := s.collect ds.length s.slot.lfnChars)
        layout isChain.clusters serves cursor.clust
      have goes' : nextDir v.fat.geometry v.link (s.collect ds.length s.slot.lfnChars).dir = .ok e :=
        goes
      rw [goes'] at next
      obtain ⟨w', moved, agrees'', ready, here'⟩ := updateDir_slot
        (s := { s.collect ds.length s.slot.lfnChars with volume := w, dir := e }) serves'
      have cursor' := (nextDir_cursor layout isChain nodup cursor goes).1
      have read' : (s.collect ds.length s.slot.lfnChars).Read name (13 * ds.length) := by
        rw [frag.chars]
        exact read.collect short
      obtain ⟨t, ran, last, agreesT, hereT, checkedT, readT⟩ := ih
        (s := { s.collect ds.length s.slot.lfnChars with volume := w', dir := e })
        (serves'.agrees layout isChain.clusters agrees'' ready)
        ((agrees.trans agrees').trans agrees'') cursor' rest frags here' checked
        ⟨read'.gLen, read'.gBuf⟩
      refine ⟨t, ?_, last, agreesT, hereT, checkedT, readT⟩
      have fine : ¬ (s.slot.attr ≠ attrLfn ∨ s.slot.crc ≠ s.gCrc) := by
        rintro (attr | crc)
        · exact attr frag.attr
        · exact crc (frag.crc.trans checked.symm)
      rw [List.length_cons, parseFrags, run_gets_bind, id, if_neg fine, run_modify_bind,
        run_bind_ok next, run_bind_ok moved]
      exact ran

/-- The number of fragments and the mark are read from the first fragment. -/
theorem headSeq : ∀ cnt ≤ 20, (lfnHeadMsk ||| cnt) &&& lfnHeadMsk ≠ 0 ∧
    (lfnHeadMsk ||| cnt) &&& lfnSeqMsk = cnt := by decide

/-- `parse_lfn_name` reads the name at the places that `dir_next` comes to. -/
theorem parseLfnName_run (layout : v.fat.geometry.Layout) (isChain : FatChain v chain)
    (nodup : chain.Nodup) (some : name ≠ []) (short : name.length ≤ 255) {u : Volume}
    (serves : Serves v.fat.geometry chain v.link s.volume)
    (agrees : u.Agrees v.fat.geometry.area s.volume) (cursor : Cursor v.fat.geometry chain s.dir)
    (path : Path v.fat.geometry v.link s.dir ds) (length : ds.length = (name.length + 12) / 13)
    (frags : FragsAt u name crc lfnHeadMsk s.dir ds) :
    ∃ t, parseLfnName.run s = (.ok (), t) ∧ t.dir = lastDir s.dir ds ∧
      u.Agrees v.fat.geometry.area t.volume ∧ t.volume.fat.sect = t.dir.sect ∧ t.gCrc = crc ∧
      t.Read name 0 := by
  obtain ⟨w, moved, agrees', ready, here⟩ := updateDir_slot serves
  have many := List.length_pos_of_ne_nil some
  obtain ⟨e, rest, rfl⟩ : ∃ e rest, ds = e :: rest := List.exists_cons_of_length_pos (by omega)
  have few : rest.length + 1 ≤ 20 := by
    rw [List.length_cons] at length
    omega
  have slot : (s.withVolume w).slot = slotAt u s.dir :=
    (OpenDir.slot_eq here).trans (slotAt_agrees layout (agrees.trans agrees') cursor)
  obtain ⟨frag, -⟩ := id frags
  rw [← slot] at frag
  obtain ⟨head, cnt⟩ := headSeq (rest.length + 1) few
  obtain ⟨t, ran, last, agreesT, hereT, checked, read⟩ := parseFrags_run layout isChain nodup short
    (e :: rest) (s := { s.withVolume w with gCrc := (s.withVolume w).slot.crc, gLen := 0 })
    (serves.agrees layout isChain.clusters agrees' ready) (agrees.trans agrees') cursor path frags
    here frag.crc ⟨by dsimp only; omega, fun i low inside => by omega⟩
  refine ⟨t, ?_, last, agreesT, hereT, checked, read⟩
  rw [parseLfnName, run_bind_ok moved, run_gets_bind, run_modify_bind, frag.seq, if_neg head, cnt,
    if_neg (by omega)]
  refine Eq.trans (run_bind_ok ran) ?_
  rw [run_gets_bind, if_pos (by rw [read.gLen]; omega)]
  rfl

/-! ## The round trip -/

/-- What is written for a name at a directory's place is read there again, on every volume that
the driver sees in the same way. -/
def RoundTrips (name : List Byte) (attr clust : Nat) (s : OpenDir) : Prop :=
  ∃ t, (writeEntry name attr clust).run s = (.ok (), t) ∧
    (∀ fuel r, (dirRoom fuel ((name.length + 12) / 13 + 1)).run r = (.ok (), s) →
      (dirAdd fuel name attr clust).run r = (.ok (), t)) ∧
    ∀ r : OpenDir, r.volume.Ready s.volume.fat.geometry.area →
      t.volume.Agrees s.volume.fat.geometry.area r.volume → r.dir = s.dir →
      ∃ u, parseLfnName.run r = (.ok (), u) ∧ u.gLen = name.length ∧
        (List.range u.gLen).map u.gBuf = name ∧ u.dir = t.dir ∧
        (∃ old, u.slot.Same (sfnSlot (putSfnName name) attr clust old)) ∧
        u.slot.name = putSfnName name ∧ u.gCrc = getCrc u.slot.name

/-- **Long names.** A name that is written at a slot of a directory, with enough slots behind it,
is read there again: its length and its characters, with the checksum of the short entry, where
the reading ends. -/
theorem longName_roundTrip (layout : s.volume.fat.geometry.Layout)
    (ready : s.volume.Ready s.volume.fat.geometry.area) (isChain : FatChain s.volume chain)
    (nodup : chain.Nodup) (cursor : Cursor s.volume.fat.geometry chain s.dir) (some : name ≠ [])
    (short : name.length ≤ 255) (nonzero : ∀ c ∈ name, c ≠ 0)
    (room : ((dirAdvance ((name.length + 12) / 13)).run s).1 = .ok ()) (attr clust : Nat) :
    RoundTrips name attr clust s := by
  have serves : Serves s.volume.fat.geometry chain s.volume.link s.volume := ⟨rfl, ready, fun _ _ => rfl⟩
  obtain ⟨ds, length, path, -, -, -⟩ := path_of_dirAdvance layout isChain nodup _ serves cursor
    (Prod.ext room rfl)
  obtain ⟨t, wrote, last, serves', frags, entry⟩ := writeEntry_run layout isChain nodup nonzero serves
    cursor path length (by omega) attr clust
  have added (fuel : Nat) {r : OpenDir}
      (found : (dirRoom fuel ((name.length + 12) / 13 + 1)).run r = (.ok (), s)) :
      (dirAdd fuel name attr clust).run r = (.ok (), t) := by
    rw [dirAdd_eq fuel attr clust some short, run_bind_ok found]
    exact wrote
  refine ⟨t, wrote, fun fuel r found => added fuel found, ?_⟩
  intro r ready' agrees place
  obtain ⟨u, parsed, last', agrees', here, checked, read⟩ := parseLfnName_run layout isChain nodup some
    short (serves'.agrees layout isChain.clusters agrees ready') agrees (place ▸ cursor) (place ▸ path)
    length (place ▸ frags)
  have ends : u.dir = t.dir := by rw [last', place, last]
  have cursor' : Cursor s.volume.fat.geometry chain u.dir := by
    rw [ends, last]
    exact path.cursor_last layout isChain nodup cursor
  have slot : u.slot = slotAt t.volume t.dir := by
    rw [OpenDir.slot_eq here, slotAt_agrees layout agrees' cursor', ends]
  obtain ⟨old, entry⟩ := entry
  rw [← slot] at entry
  have sfn : u.slot.name = putSfnName name :=
    entry.name.trans (sfnSlot_name (putSfnName_length name) attr clust old)
  refine ⟨u, parsed, by rw [read.gLen, Nat.sub_zero], ?_, ends, ⟨old, entry⟩, sfn, ?_⟩
  · rw [read.gLen, Nat.sub_zero]
    refine List.ext_getElem (by simp) fun i _ inside => ?_
    rw [List.getElem_map, List.getElem_range, read.gBuf i (Nat.zero_le i) inside,
      List.getD_eq_getElem _ _ inside]
  · rw [checked, sfn]

/-- A directory at the first slot of its only cluster. -/
def sampleDir : OpenDir where
  volume := sampleVolume 2
  dir := ⟨2, 2, sampleGeometry.clustToSect 2, 0⟩
  loc := none
  path := []
  gBuf := fun _ => 0
  gLen := 0
  gCrc := 0

theorem longName_roundTrip_one : RoundTrips [0x61] attrArchive 0 sampleDir := by
  have isChain : FatChain sampleDir.volume [2] :=
    (sampleVolume_chains 2).each [2] (List.mem_singleton_self [2])
  have start : Geometry.IsClust sampleGeometry 2 := isChain.clusters 2 (List.mem_singleton_self 2)
  have cursor : Cursor sampleGeometry [2] sampleDir.dir :=
    ⟨List.mem_singleton_self 2, Geometry.walked_start start, Nat.zero_lt_succ 511, Nat.dvd_zero 32⟩
  have room : ((dirAdvance 1).run sampleDir).1 = .ok () := rfl
  have nonzero : ∀ c ∈ [(0x61 : Byte)], c ≠ 0 := by decide
  exact @longName_roundTrip [2] sampleDir [0x61] sampleGeometry_layout (sampleVolume_ready 2) isChain
    (List.nodup_singleton 2) cursor (List.cons_ne_nil _ _) (by decide) nonzero room attrArchive 0

end NTux.Fat32
