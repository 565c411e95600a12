import NTux.Fat32.Allocation
import NTux.Fat32.Clusters
import Mathlib.Order.Interval.Finset.Nat

/-! # What the functions on the FAT do to a volume

On a disk without faults, whatever the driver does changes the FAT by `put_fat` only, in both
copies alike if the second one is kept, and counts the clusters that it takes and frees
(`Effect`). Some sectors may be spared: those that are not the driver's own.

Moving a buffer, reading any sector, and writing outside of the driver's own structures
change nothing of that (`Calm`).
-/

namespace NTux.Fat32

open NTux.Foundation Command

variable {g : Geometry} {spare gone : Set Nat} {v w u : Volume} {c d : Nat}

/-! ## Volumes without faults -/

/-- The sectors that only the functions on the FAT may write, and those that are spared. -/
def Geometry.guarded (g : Geometry) (spare : Set Nat) : Set Nat := g.fatSide ∪ spare

/-- The copies of the FAT, and the sectors that are spared. -/
def Geometry.held (g : Geometry) (spare : Set Nat) : Set Nat := g.fatArea ∪ g.mirrorArea ∪ spare

theorem Geometry.held_subset : g.held spare ⊆ g.guarded spare := by
  rintro s (member | member)
  · exact .inl (.inl member)
  · exact .inr member

namespace Volume

/-- A mounted volume on a disk without faults: its areas are apart, every cluster number is
the number of a link, and the search for a free cluster begins with a cluster. -/
structure Good (g : Geometry) (spare : Set Nat) (v : Volume) : Prop where
  geometry : v.fat.geometry = g
  layout : g.Layout
  small : g.clustCnt ≤ 0x0FFFFFF7
  apart : Disjoint spare g.area
  begins : 2 ≤ nextClust g.clustCnt v.fat.lastUsed
  counted : v.fat.freeCnt < 2 ^ 32
  ready : v.Ready (g.guarded spare)

/-- The clusters whose entries are free. -/
def freeClusts (v : Volume) : Finset Nat :=
  (Finset.Ico 2 v.fat.geometry.clustCnt).filter fun c => v.link c = 0

/-- The number of free entries. -/
def freeEntries (v : Volume) : Nat := v.freeClusts.card

/-- The driver sees the same FAT and the same spared sectors, and has counted nothing. -/
structure Calm (g : Geometry) (spare : Set Nat) (v w : Volume) : Prop where
  good : w.Good g spare
  view : Set.EqOn w.view v.view (g.held spare)
  count : w.fat.freeCnt = v.fat.freeCnt

/-- What the driver may do: spared sectors and the entries of no cluster stay, an entry is
changed in both copies alike, and a link goes only from a cluster that may be freed. -/
structure Alike (g : Geometry) (spare gone : Set Nat) (v w : Volume) : Prop where
  good : w.Good g spare
  spare : Set.EqOn w.view v.view spare
  reserved : ∀ c < 2, w.entry c = v.entry c
  nibble : ∀ c, g.InFat c → w.entry c / 2 ^ 28 = v.entry c / 2 ^ 28
  copies : g.Mirrored → ∀ c, g.InFat c → w.mirrorEntry c / 2 ^ 28 = v.mirrorEntry c / 2 ^ 28 ∧
    (w.entry c = v.entry c ∧ w.mirrorEntry c = v.mirrorEntry c ∨
      w.mirrorEntry c % 2 ^ 28 = w.link c)
  kept : ∀ c, g.IsClust c → c ∉ gone → clustFlags g.clustCnt (v.link c) = some .used →
    w.link c = v.link c

/-- The count of free clusters goes with their number. -/
structure Effect (g : Geometry) (spare gone : Set Nat) (v w : Volume) : Prop extends
    v.Alike g spare gone w where
  count : (w.fat.freeCnt + v.freeEntries) % 2 ^ 32 = (v.fat.freeCnt + w.freeEntries) % 2 ^ 32

theorem Calm.refl (good : v.Good g spare) : v.Calm g spare v := ⟨good, fun _ _ => rfl, rfl⟩

theorem Calm.trans (first : v.Calm g spare w) (second : w.Calm g spare u) : v.Calm g spare u :=
  ⟨second.good, second.view.trans first.view, second.count.trans first.count⟩

theorem Calm.entry (good : v.Good g spare) (calm : v.Calm g spare w) (inFat : g.InFat c) :
    w.entry c = v.entry c := by
  unfold Volume.entry entryAt
  rw [calm.good.geometry, good.geometry,
    calm.view (.inl (.inl (Geometry.mem_fatArea inFat)))]

theorem Calm.mirrorEntry (good : v.Good g spare) (calm : v.Calm g spare w) (mirrored : g.Mirrored)
    (inFat : g.InFat c) : w.mirrorEntry c = v.mirrorEntry c := by
  unfold Volume.mirrorEntry entryAt
  rw [calm.good.geometry, good.geometry,
    calm.view (.inl (.inr (Geometry.mem_mirrorArea mirrored inFat)))]

theorem Calm.link (good : v.Good g spare) (calm : v.Calm g spare w) (inFat : g.InFat c) :
    w.link c = v.link c := by
  rw [Volume.link, calm.entry good inFat, Volume.link]

/-- Two volumes with the same links have the same free clusters. -/
theorem freeClusts_congr (geometry : w.fat.geometry = v.fat.geometry)
    (same : ∀ c, v.fat.geometry.IsClust c → w.link c = v.link c) : w.freeClusts = v.freeClusts := by
  unfold freeClusts
  rw [geometry]
  refine Finset.filter_congr fun c member => ?_
  rw [same c (Finset.mem_Ico.mp member)]

theorem Good.inFat_of_lt (good : v.Good g spare) (reserved : c < 2) : g.InFat c := by
  have some := good.layout.clusters.1
  unfold Geometry.InFat
  omega

/-- Nothing is done. -/
theorem Calm.effect (good : v.Good g spare) (calm : v.Calm g spare w) : v.Effect g spare gone w where
  good := calm.good
  spare := fun _ member => calm.view (.inr member)
  reserved c reserved := calm.entry good (good.inFat_of_lt reserved)
  nibble c inFat := by rw [calm.entry good inFat]
  copies mirrored c inFat :=
    ⟨by rw [calm.mirrorEntry good mirrored inFat],
      .inl ⟨calm.entry good inFat, calm.mirrorEntry good mirrored inFat⟩⟩
  kept _ isClust _ _ := calm.link good isClust.inFat
  count := by
    have same : w.freeClusts = v.freeClusts :=
      freeClusts_congr (calm.good.geometry.trans good.geometry.symm) fun c isClust =>
        calm.link good (good.geometry ▸ isClust).inFat
    rw [freeEntries, freeEntries, same, calm.count]

theorem Effect.refl (good : v.Good g spare) : v.Effect g spare gone v := (Calm.refl good).effect good

theorem Alike.trans (first : v.Alike g spare gone w) (second : w.Alike g spare gone u) :
    v.Alike g spare gone u where
  good := second.good
  spare := second.spare.trans first.spare
  reserved c reserved := (second.reserved c reserved).trans (first.reserved c reserved)
  nibble c inFat := (second.nibble c inFat).trans (first.nibble c inFat)
  copies mirrored c inFat := by
    obtain ⟨nibble, first⟩ := first.copies mirrored c inFat
    obtain ⟨nibble', second⟩ := second.copies mirrored c inFat
    refine ⟨nibble'.trans nibble, ?_⟩
    rcases second with ⟨active, mirror⟩ | alike
    · rcases first with ⟨active', mirror'⟩ | alike
      · exact .inl ⟨active.trans active', mirror.trans mirror'⟩
      · refine .inr ?_
        rw [mirror, alike, Volume.link, Volume.link, active]
    · exact .inr alike
  kept c isClust stays used := by
    have same := first.kept c isClust stays used
    rw [second.kept c isClust stays (same.symm ▸ used), same]

theorem Effect.trans (first : v.Effect g spare gone w) (second : w.Effect g spare gone u) :
    v.Effect g spare gone u where
  toAlike := first.toAlike.trans second.toAlike
  count := by
    have := first.count
    have := second.count
    omega

end Volume

open Volume

/-! ## Commands that do nothing to the FAT -/

/-- The volume of a state is related to the one before, whether the command stops or not. -/
def Does {σ α : Type} (g : Geometry) (spare : Set Nat) (done : Volume → Volume → Prop)
    (volume : σ → Volume) (command : Command σ Stop α) : Prop :=
  command.Obeys (fun s t => (volume s).Good g spare → done (volume s) (volume t))
    fun s _ t => (volume s).Good g spare → done (volume s) (volume t)

/-- A relation of volumes that composes. -/
structure Composing (g : Geometry) (spare : Set Nat) (done : Volume → Volume → Prop) : Prop where
  refl : ∀ {v}, v.Good g spare → done v v
  trans : ∀ {v w u}, done v w → done w u → done v u
  good : ∀ {v w}, done v w → w.Good g spare

theorem calm_composing : Composing g spare (Volume.Calm g spare) :=
  ⟨Calm.refl, Calm.trans, Calm.good⟩

section Does

variable {σ τ α β : Type} {done : Volume → Volume → Prop} {volume : σ → Volume}

theorem Composing.composes (law : Composing g spare done) (volume : σ → Volume) :
    Composes (fun s t => (volume s).Good g spare → done (volume s) (volume t))
      fun s (_ : Stop) t => (volume s).Good g spare → done (volume s) (volume t) where
  refl _ good := law.refl good
  trans first second good := law.trans (first good) (second (law.good (first good)))
  after first second good := law.trans (first good) (second (law.good (first good)))

theorem Does.bind (law : Composing g spare done) {command : Command σ Stop α}
    {next : α → Command σ Stop β} (first : Does g spare done volume command)
    (second : ∀ a, Does g spare done volume (next a)) :
    Does g spare done volume (command >>= next) :=
  (law.composes volume).bind first second

theorem does_gets (law : Composing g spare done) (f : σ → α) :
    Does g spare done volume (gets f : Command σ Stop α) := fun _ good => law.refl good

theorem does_stop (law : Composing g spare done) (e : Stop) :
    Does g spare done volume (stop e : Command σ Stop α) := fun _ good => law.refl good

theorem Does.ite {condition : Prop} [Decidable condition] {yes no : Command σ Stop α}
    (first : Does g spare done volume yes) (second : Does g spare done volume no) :
    Does g spare done volume (if condition then yes else no) :=
  Obeys.ite (fun _ => first) fun _ => second

/-- A command has to be looked at only on volumes without faults. -/
theorem does_of_good {command : Command σ Stop α}
    (law : ∀ s, (volume s).Good g spare → command.wp (fun _ t => done (volume s) (volume t))
      (fun _ t => done (volume s) (volume t)) s) : Does g spare done volume command := by
  intro s
  by_cases good : (volume s).Good g spare
  · exact (law s good).mono (fun _ _ after _ => after) fun _ _ after _ => after
  · unfold wp
    split
    · exact fun isGood => absurd isGood good
    · exact fun isGood => absurd isGood good

/-- What is done is seen from every good volume. -/
theorem Does.wp {command : Command σ Stop α} (does : Does g spare done volume command) {s : σ}
    (good : (volume s).Good g spare) : command.wp (fun _ t => done (volume s) (volume t))
      (fun _ t => done (volume s) (volume t)) s :=
  (does s).mono (fun _ _ after => after good) fun _ _ after => after good

theorem Does.effect {command : Command σ Stop α}
    (calm : Does g spare (Volume.Calm g spare) volume command) :
    Does g spare (Volume.Effect g spare gone) volume command :=
  does_of_good fun _ good => (calm.wp good).mono (fun _ _ calm => calm.effect good)
    fun _ _ calm => calm.effect good

end Does

/-- Nothing is done to the FAT. -/
abbrev Calms {α : Type} (g : Geometry) (spare : Set Nat) (command : FatM α) : Prop :=
  Does g spare (Volume.Calm g spare) (fun v : Volume => v) command

theorem Calms.from {α : Type} {command : FatM α} (calms : Calms g spare command)
    (good : v.Good g spare) :
    command.wp (fun _ w => v.Calm g spare w) (fun _ w => v.Calm g spare w) v :=
  Does.wp calms good

theorem calms_of_good {α : Type} {command : FatM α} (law : ∀ v : Volume, v.Good g spare →
    command.wp (fun _ w => v.Calm g spare w) (fun _ w => v.Calm g spare w) v) :
    Calms g spare command := does_of_good law

/-! ## The buffer -/

/-- The structure is changed outside of the buffer and the count. -/
theorem calm_withFat (good : v.Good g spare) {f : Fat → Fat}
    (geometry : (f v.fat).geometry = v.fat.geometry)
    (begins : 2 ≤ nextClust g.clustCnt (f v.fat).lastUsed) (sect : (f v.fat).sect = v.fat.sect)
    (buf : (f v.fat).buf = v.fat.buf) (bufDirty : (f v.fat).bufDirty = v.fat.bufDirty)
    (count : (f v.fat).freeCnt = v.fat.freeCnt) : v.Calm g spare (v.withFat f) := by
  have view : (v.withFat f).view = v.view := by
    funext s
    change (if (f v.fat).sect = s then (f v.fat).buf else _) = _
    rw [sect, buf]
    rfl
  refine ⟨⟨geometry.trans good.geometry, good.layout, good.small, good.apart, begins,
    count.symm ▸ good.counted, good.ready.sound, fun clean inside => ?_⟩,
    fun s _ => congrFun view s, count⟩
  change v.disk.sectors (f v.fat).sect = (f v.fat).buf
  rw [sect, buf]
  exact good.ready.coherent (bufDirty ▸ clean) (sect ▸ inside)

/-- Fields outside of the buffer change no link. -/
theorem leads_withFat {f : Fat → Fat} {k : Nat} (geometry : (f v.fat).geometry = v.fat.geometry)
    (sect : (f v.fat).sect = v.fat.sect) (buf : (f v.fat).buf = v.fat.buf) :
    (v.withFat f).Leads k c d ↔ v.Leads k c d := by
  have view : (v.withFat f).view = v.view := by
    funext s
    change (if (f v.fat).sect = s then (f v.fat).buf else _) = _
    rw [sect, buf]
    rfl
  have links : ∀ e, (v.withFat f).link e = v.link e := by
    intro e
    unfold Volume.link Volume.entry
    rw [view]
    change entryAt v.view (f v.fat).geometry.fatSect e % 2 ^ 28 = _
    rw [geometry]
  induction k generalizing c with
  | zero => exact Iff.rfl
  | succ k ih =>
      unfold Volume.Leads
      change clustFlags (f v.fat).geometry.clustCnt _ = _ ∧ _ ↔ _
      rw [geometry, links]
      exact and_congr_right fun _ => ih

/-- The same sectors are seen, and the same fields. -/
theorem calm_of_agrees (good : v.Good g spare) (agrees : v.Agrees (g.guarded spare) w)
    (ready : w.Ready (g.guarded spare)) : v.Calm g spare w where
  good := ⟨agrees.geometry.trans good.geometry, good.layout, good.small, good.apart,
    (lastUsed_of_unbuffered agrees.unbuffered).symm ▸ good.begins,
    (freeCnt_of_unbuffered agrees.unbuffered).symm ▸ good.counted, ready⟩
  view := agrees.view.mono Geometry.held_subset
  count := freeCnt_of_unbuffered agrees.unbuffered

theorem note_calms (mishap : Mishap) : Calms g spare (note mishap) := calms_of_good fun _ good =>
  calm_of_agrees good ⟨fun _ _ => rfl, rfl⟩ ⟨good.ready.sound, good.ready.coherent⟩

theorem syncBuf_calms : Calms g spare syncBuf := calms_of_good fun v good => by
  obtain ⟨w, synced, ready, agrees, -⟩ := syncBuf_spec (v := v) good.ready
  unfold wp
  rw [synced]
  exact calm_of_agrees good agrees ready

/-- Any sector may be read. -/
theorem updateBuf_calms (sect : Nat) : Calms g spare (updateBuf sect) := calms_of_good fun v good => by
  obtain ⟨w, moved, ready, agrees, -⟩ := updateBuf_spec (v := v) good.ready sect
  unfold wp
  rw [moved]
  exact calm_of_agrees good agrees ready

/-- Other bytes in the buffer of a sector that is not held. -/
theorem editBuf_calm (good : v.Good g spare) (outside : v.fat.sect ∉ g.held spare)
    (edit : Sector → Sector) : ∃ w, (editBuf edit).run v = (.ok (), w) ∧ v.Calm g spare w ∧
      w.fat.sect = v.fat.sect := by
  obtain ⟨w, edited, ready, plain, view, sect, -⟩ :=
    @editBuf_run (g.guarded spare) v edit
  refine ⟨w, edited, ⟨⟨(geometry_of_unbuffered plain).trans good.geometry, good.layout, good.small,
    good.apart, (lastUsed_of_unbuffered plain).symm ▸ good.begins,
    (freeCnt_of_unbuffered plain).symm ▸ good.counted, ready good.ready.sound⟩, ?_,
    freeCnt_of_unbuffered plain⟩, sect⟩
  intro s held
  rw [view, Function.update_of_ne]
  rintro rfl
  exact outside held

/-! ## Entries -/

/-- `get_fat` gives the link of a cluster. -/
theorem getFat_link (good : v.Good g spare) (inFat : g.InFat c) :
    (getFat c).wp (fun entry w => v.Calm g spare w ∧ entry.1 = v.link c ∧
      clustFlags g.clustCnt (v.link c) = some entry.2)
      (fun e w => v.Calm g spare w ∧ e = .code errBroken) v := by
  have side : g.fatSect + c / 128 ∈ g.guarded spare := .inl (.inl (.inl (Geometry.mem_fatArea inFat)))
  obtain ⟨w, moved, ready, agrees, sect, -⟩ :=
    updateBuf_spec (v := v) good.ready (g.fatSect + c / 128)
  have calm := calm_of_agrees good agrees ready
  have value : w.fat.buf.readLE (4 * (c % 128)) 4 &&& 0x0FFFFFFF = v.link c := by
    have held : w.fat.buf = v.view (g.fatSect + c / 128) := by
      rw [← agrees.view side, ← sect, view_buffered]
    unfold Volume.link Volume.entry entryAt
    rw [held, land_lower, good.geometry]
  unfold getFat wp
  rw [run_gets_bind, good.geometry, good.layout.fatSector inFat, run_bind_ok moved, run_gets_bind]
  dsimp only
  rw [value]
  cases known : clustFlags g.clustCnt (v.link c) with
  | some flags => exact ⟨calm, rfl, rfl⟩
  | none => exact ⟨calm.trans ((note_calms .broken).from calm.good), rfl⟩

/-- The entry of one cluster gets other lower bits, in each copy that is kept, and nothing else
that is held is changed. -/
structure Volume.Puts (g : Geometry) (spare : Set Nat) (c val : Nat) (v w : Volume) : Prop where
  good : w.Good g spare
  spare : Set.EqOn w.view v.view spare
  entry : ∀ d, g.InFat d → w.entry d = if d = c then setLower val (v.entry d) else v.entry d
  mirror : g.Mirrored → ∀ d, g.InFat d →
    w.mirrorEntry d = if d = c then setLower val (v.mirrorEntry d) else v.mirrorEntry d
  count : w.fat.freeCnt = v.fat.freeCnt

/-- A change in one copy of the FAT is a change of one sector. -/
theorem putFat2_good (good : v.Good g spare) {base : Nat} (fits : u32 (base + c / 128) = base + c / 128)
    (inside : base + c / 128 ∈ g.guarded spare) (val : Nat) :
    ∃ w, (putFat2 base c val).run v = (.ok (), w) ∧ w.Good g spare ∧
      w.fat.freeCnt = v.fat.freeCnt ∧
      Set.EqOn w.view (Function.update v.view (base + c / 128)
        (putEntry c val (v.view (base + c / 128)))) (g.guarded spare) := by
  obtain ⟨w, put, ready, plain, view, -⟩ := updateEdit_spec good.ready inside (putEntry c val)
  unfold putFat2
  rw [fits]
  exact ⟨w, put, ⟨(geometry_of_unbuffered plain).trans good.geometry, good.layout, good.small,
    good.apart, (lastUsed_of_unbuffered plain).symm ▸ good.begins,
    (freeCnt_of_unbuffered plain).symm ▸ good.counted, ready⟩, freeCnt_of_unbuffered plain, view⟩

/-- **Writing an entry.** -/
theorem putFat_puts (good : v.Good g spare) (inFat : g.InFat c) (val : Nat) :
    ∃ w, (putFat c val).run v = (.ok (), w) ∧ v.Puts g spare c val w := by
  have onFat := Geometry.mem_fatArea inFat
  have fatGuarded : g.fatArea ⊆ g.guarded spare := fun _ member => .inl (.inl (.inl member))
  have mirrorGuarded : g.mirrorArea ⊆ g.guarded spare := fun _ member => .inl (.inl (.inr member))
  have spareGuarded : spare ⊆ g.guarded spare := fun _ member => .inr member
  have spareNotFat : ∀ s ∈ spare, s ∉ g.fatArea := fun s member onFat =>
    Set.disjoint_left.mp good.apart member (Geometry.fatArea_subset onFat)
  have spareNotMirror : ∀ s ∈ spare, s ∉ g.mirrorArea := fun s member onMirror =>
    Set.disjoint_left.mp good.apart member (Geometry.mirrorArea_subset onMirror)
  unfold putFat
  rw [run_gets_bind, good.geometry]
  by_cases mirrored : g.mirrorSect ≠ 0
  · have onMirror := Geometry.mem_mirrorArea mirrored inFat
    obtain ⟨u, first, good', count, view⟩ :=
      putFat2_good good (good.layout.mirrorSector inFat) (mirrorGuarded onMirror) val
    obtain ⟨w, second, good'', count', view'⟩ :=
      putFat2_good good' (good.layout.fatSector inFat) (fatGuarded onFat) val
    rw [if_pos mirrored, run_bind_ok first]
    refine ⟨w, second, good'', ?_, ?_, ?_, count'.trans count⟩
    · intro s member
      rw [view' (spareGuarded member), Function.update_of_ne, view (spareGuarded member),
        Function.update_of_ne]
      · rintro rfl
        exact spareNotMirror _ member onMirror
      · rintro rfl
        exact spareNotFat _ member onFat
    · intro d inFat'
      have inner := entryAt_of_disjoint (c := d) view
        (fun member => Set.disjoint_left.mp good.layout.copies member onMirror) fatGuarded
        (Geometry.mem_fatArea inFat')
      unfold Volume.entry
      rw [good''.geometry, good.geometry, ← inner, ← entryAt_update]
      unfold entryAt
      rw [view' (fatGuarded (Geometry.mem_fatArea inFat'))]
    · intro _ d inFat'
      have outer := entryAt_of_disjoint (c := d) view'
        (fun member => Set.disjoint_left.mp good.layout.copies onFat member) mirrorGuarded
        (Geometry.mem_mirrorArea mirrored inFat')
      unfold Volume.mirrorEntry
      rw [good''.geometry, good.geometry, outer, ← entryAt_update]
      unfold entryAt
      rw [view (mirrorGuarded (Geometry.mem_mirrorArea mirrored inFat'))]
  · obtain ⟨w, put, good', count, view⟩ :=
      putFat2_good good (good.layout.fatSector inFat) (fatGuarded onFat) val
    rw [if_neg mirrored]
    refine ⟨w, put, good', ?_, ?_, fun isMirrored => absurd isMirrored mirrored, count⟩
    · intro s member
      rw [view (spareGuarded member), Function.update_of_ne]
      rintro rfl
      exact spareNotFat _ member onFat
    · intro d inFat'
      unfold Volume.entry
      rw [good'.geometry, good.geometry, ← entryAt_update]
      unfold entryAt
      rw [view (fatGuarded (Geometry.mem_fatArea inFat'))]

theorem Volume.Puts.link {val : Nat} (puts : v.Puts g spare c val w) (inFat : g.InFat d) :
    w.link d = if d = c then val % 2 ^ 28 else v.link d := by
  rw [Volume.link, puts.entry d inFat]
  split
  · exact setLower_mod _ _
  · rfl

/-- Another entry of a cluster is written alike in both copies. -/
theorem Volume.Puts.alike {val : Nat} (puts : v.Puts g spare c val w) (good : v.Good g spare)
    (isClust : g.IsClust c)
    (loses : c ∈ gone ∨ clustFlags g.clustCnt (v.link c) ≠ some .used) :
    v.Alike g spare gone w where
  good := puts.good
  spare := puts.spare
  reserved d reserved := by
    have low := isClust.1
    rw [puts.entry d (good.inFat_of_lt reserved), if_neg (by omega)]
  nibble d inFat := by
    rw [puts.entry d inFat]
    split
    · exact setLower_div _ _
    · rfl
  copies mirrored d inFat := by
    rw [Volume.link, puts.entry d inFat, puts.mirror mirrored d inFat]
    by_cases same : d = c
    · simp only [if_pos same]
      exact ⟨setLower_div _ _, .inr (by rw [setLower_mod, setLower_mod])⟩
    · simp only [if_neg same]
      exact ⟨trivial, .inl ⟨trivial, trivial⟩⟩
  kept d isClust' stays used := by
    rw [puts.link isClust'.inFat, if_neg]
    rintro rfl
    exact loses.elim stays fun unused => unused used

/-- The counters are changed. -/
theorem alike_withFat (good : v.Good g spare) {f : Fat → Fat}
    (geometry : (f v.fat).geometry = v.fat.geometry)
    (begins : 2 ≤ nextClust g.clustCnt (f v.fat).lastUsed) (sect : (f v.fat).sect = v.fat.sect)
    (buf : (f v.fat).buf = v.fat.buf) (bufDirty : (f v.fat).bufDirty = v.fat.bufDirty)
    (counted : (f v.fat).freeCnt < 2 ^ 32) :
    v.Alike g spare gone (v.withFat f) ∧ (v.withFat f).freeEntries = v.freeEntries := by
  have calm := calm_withFat good (f := fun fat => { f fat with freeCnt := fat.freeCnt })
    geometry begins sect buf bufDirty rfl
  have effect : v.Effect g spare gone _ := calm.effect good
  have same : (v.withFat f).freeClusts = v.freeClusts := by
    rw [← freeClusts_congr (calm.good.geometry.trans good.geometry.symm) fun c isClust =>
      calm.link good (good.geometry ▸ isClust).inFat]
    rfl
  refine ⟨⟨⟨geometry.trans good.geometry, good.layout, good.small, good.apart, begins, counted,
    calm.good.ready.sound, calm.good.ready.coherent⟩, effect.spare, effect.reserved, effect.nibble,
    effect.copies, effect.kept⟩, congrArg Finset.card same⟩

/-! ## The number of free clusters -/

theorem mem_freeClusts (good : v.Good g spare) :
    c ∈ v.freeClusts ↔ g.IsClust c ∧ v.link c = 0 := by
  rw [freeClusts, Finset.mem_filter, Finset.mem_Ico, good.geometry]
  rfl

/-- A free cluster is taken. -/
theorem Volume.Puts.taken {val : Nat} (puts : v.Puts g spare c val w) (good : v.Good g spare)
    (isClust : g.IsClust c) (free : v.link c = 0) (nonzero : val % 2 ^ 28 ≠ 0) :
    w.freeEntries + 1 = v.freeEntries := by
  have member : c ∈ v.freeClusts := (mem_freeClusts good).mpr ⟨isClust, free⟩
  have erased : w.freeClusts = v.freeClusts.erase c := by
    ext d
    rw [Finset.mem_erase, mem_freeClusts good, mem_freeClusts puts.good]
    by_cases same : d = c
    · subst same
      rw [puts.link isClust.inFat, if_pos rfl]
      exact iff_of_false (fun both => nonzero both.2) fun both => both.1 rfl
    · constructor
      · rintro ⟨isClust', zero⟩
        rw [puts.link isClust'.inFat, if_neg same] at zero
        exact ⟨same, isClust', zero⟩
      · rintro ⟨-, isClust', zero⟩
        rw [puts.link isClust'.inFat, if_neg same]
        exact ⟨isClust', zero⟩
  rw [freeEntries, freeEntries, erased]
  exact Finset.card_erase_add_one member

/-- A cluster in use is freed. -/
theorem Volume.Puts.freed (puts : v.Puts g spare c 0 w) (good : v.Good g spare)
    (isClust : g.IsClust c) (used : v.link c ≠ 0) : w.freeEntries = v.freeEntries + 1 := by
  have outside : c ∉ v.freeClusts := fun member => used ((mem_freeClusts good).mp member).2
  have inserted : w.freeClusts = insert c v.freeClusts := by
    ext d
    rw [Finset.mem_insert, mem_freeClusts good, mem_freeClusts puts.good]
    by_cases same : d = c
    · subst same
      simp [puts.link isClust.inFat, isClust]
    · constructor
      · rintro ⟨isClust', zero⟩
        rw [puts.link isClust'.inFat, if_neg same] at zero
        exact .inr ⟨isClust', zero⟩
      · rintro (equal | ⟨isClust', zero⟩)
        · exact absurd equal same
        · rw [puts.link isClust'.inFat, if_neg same]
          exact ⟨isClust', zero⟩
  rw [freeEntries, freeEntries, inserted]
  exact Finset.card_insert_of_notMem outside

/-- A cluster in use is linked to another one. -/
theorem Volume.Puts.linked {val : Nat} (puts : v.Puts g spare c val w) (good : v.Good g spare)
    (used : v.link c ≠ 0) (nonzero : val % 2 ^ 28 ≠ 0) :
    w.freeEntries = v.freeEntries := by
  have same : w.freeClusts = v.freeClusts := by
    ext d
    rw [mem_freeClusts good, mem_freeClusts puts.good]
    refine and_congr_right fun isClust' => ?_
    rw [puts.link isClust'.inFat]
    split
    · next equal => exact iff_of_false nonzero (equal ▸ used)
    · rfl
  rw [freeEntries, freeEntries, same]

/-! ## Synchronizing -/

theorem syncFs_calms : Calms g spare syncFs := by
  have info : g.infoSect ∈ g.guarded spare := .inl (.inr rfl)
  refine syncBuf_calms.bind calm_composing fun _ => calms_of_good fun v good => ?_
  unfold wp
  rw [run_gets_bind]
  by_cases dirty : v.fat.infoDirty = true
  · rw [if_pos dirty, good.geometry]
    have outside : g.infoSect ∉ g.held spare := by
      rintro (member | member)
      · exact good.layout.info member
      · exact Set.disjoint_left.mp good.apart member Geometry.infoSect_mem
    obtain ⟨w, moved, ready, agrees, sect, -⟩ := updateBuf_spec (v := v) good.ready g.infoSect
    have first := calm_of_agrees good agrees ready
    obtain ⟨x, edited, second, -⟩ := editBuf_calm first.good (sect.symm ▸ outside)
      fun buf => (buf.writeLE 492 4 w.fat.lastUsed).writeLE 488 4 w.fat.freeCnt
    rw [run_bind_ok moved, run_gets_bind, run_bind_ok edited]
    have both := first.trans second
    have third := syncBuf_calms.from both.good
    unfold wp at third
    rw [run_bind]
    generalize syncBuf.run x = ended at third ⊢
    obtain ⟨_ | ⟨⟩, y⟩ := ended
    · exact both.trans third
    · have total := both.trans third
      exact total.trans (calm_withFat total.good rfl total.good.begins rfl rfl rfl rfl)
  · rw [if_neg dirty]
    exact .refl good

/-! ## Removing a chain -/

/-- A cluster that is not free is freed and counted. -/
theorem putFree_effect (good : v.Good g spare) (isClust : g.IsClust c) (used : v.link c ≠ 0)
    (frees : c ∈ gone) :
    ∃ w, (putFat c 0).run v = (.ok (), w) ∧ w.fat.geometry = g ∧
      (∀ d, g.IsClust d → w.link d = if d = c then 0 else v.link d) ∧
      v.Effect g spare gone (w.withFat fun fat => { fat with freeCnt := u32 (fat.freeCnt + 1) }) := by
  obtain ⟨w, put, puts⟩ := putFat_puts good isClust.inFat 0
  obtain ⟨counted, entries⟩ := alike_withFat puts.good
    (f := fun fat => { fat with freeCnt := u32 (fat.freeCnt + 1) }) rfl puts.good.begins rfl rfl rfl
    (u32_lt _)
  refine ⟨w, put, puts.good.geometry, fun d isClust' => puts.link isClust'.inFat,
    ⟨(puts.alike good isClust (.inl frees)).trans counted, ?_⟩⟩
  have more := puts.freed good isClust used
  have count := puts.count
  rw [entries, more]
  change (u32 (w.fat.freeCnt + 1) + v.freeEntries) % 2 ^ 32 = _
  rw [count, u32, Nat.mod_add_mod]
  congr 1
  omega

theorem removeLoop_effect (fuel : Nat) : ∀ {v : Volume} {c : Nat}, v.Good g spare → g.IsClust c →
    (∀ k d, v.Leads k c d → d ∈ gone) →
      (removeLoop fuel c).wp (fun _ w => v.Effect g spare gone w)
        (fun _ w => v.Effect g spare gone w) v := by
  induction fuel with
  | zero => exact fun good _ _ => wp_stop (.refl good)
  | succ fuel ih =>
      intro v c good isClust chain
      rw [removeLoop]
      apply wp_bind
      refine (getFat_link good isClust.inFat).mono ?_ fun _ _ calm => calm.1.effect good
      rintro ⟨next, flags⟩ w ⟨calm, link, known⟩
      dsimp only at link known ⊢
      have read : v.Effect g spare gone w := calm.effect good
      by_cases broken : flags = .bad ∨ flags = .free
      · rw [if_pos broken]
        exact wp_stop read
      · rw [if_neg broken]
        have used : w.link c ≠ 0 := by
          rw [calm.link good isClust.inFat]
          intro zero
          rw [clustFlags_free.mpr zero] at known
          cases known
          exact broken (.inr rfl)
        obtain ⟨x, put, geometry, links, counted⟩ :=
          putFree_effect calm.good isClust used (chain 0 c rfl)
        have so_far := read.trans counted
        unfold wp
        rw [run_bind_ok put, run_modifyFat_bind]
        by_cases last : flags = .last
        · rw [if_pos last]
          exact so_far
        · rw [if_neg last]
          have isUsed : flags = .used := by
            cases flags with
            | free => exact absurd (.inr rfl) broken
            | used => rfl
            | last => exact absurd rfl last
            | bad => exact absurd (.inl rfl) broken
          have next_clust : g.IsClust next := by
            rw [link]
            exact clustFlags_used (isUsed ▸ known)
          -- the links behind the cluster are links of the chain, as the cluster has none now
          have rest : ∀ k d, Volume.Leads (x.withFat fun fat =>
              { fat with freeCnt := u32 (fat.freeCnt + 1) }) k next d → d ∈ gone := by
            intro k d leads
            refine chain (k + 1) d ⟨?_, ?_⟩
            · rw [good.geometry, known, isUsed]
            · rw [← link]
              have leads' := (leads_withFat (v := x) rfl rfl rfl).mp leads
              refine leads'.carry geometry good.geometry (fun e isClust' used' => ?_) next_clust
              rw [links e isClust'] at used' ⊢
              by_cases same : e = c
              · rw [if_pos same, clustFlags_free.mpr rfl] at used'
                cases used'
              · rw [if_neg same, calm.link good isClust'.inFat]
          exact (ih counted.good next_clust rest).mono (fun _ _ later => so_far.trans later)
            fun _ _ later => so_far.trans later

/-- A command after others. -/
theorem Volume.Effect.then {α : Type} {command : FatM α} (before : v.Effect g spare gone w)
    (does : Does g spare (Volume.Effect g spare gone) (fun v : Volume => v) command) :
    command.wp (fun _ u => v.Effect g spare gone u) (fun _ u => v.Effect g spare gone u) w :=
  (Does.wp does before.good).mono (fun _ _ later => before.trans later)
    fun _ _ later => before.trans later

/-- **Removing** the chain of a cluster. -/
theorem removeChain_effect (fuel : Nat) (good : v.Good g spare) (isClust : g.IsClust c)
    (chain : ∀ k d, v.Leads k c d → d ∈ gone) :
    (removeChain fuel c).wp (fun _ w => v.Effect g spare gone w)
      (fun _ w => v.Effect g spare gone w) v := by
  have marked : v.Effect g spare gone _ := (calm_withFat good
    (f := fun fat => { fat with infoDirty := true }) rfl good.begins rfl rfl rfl rfl).effect good
  have same : ∀ k d, Volume.Leads (v.withFat fun fat => { fat with infoDirty := true }) k c d →
      d ∈ gone := fun k d leads =>
    chain k d ((leads_withFat rfl rfl rfl).mp leads)
  unfold removeChain wp
  rw [run_modifyFat_bind]
  apply wp_bind
  refine (removeLoop_effect fuel marked.good isClust same).mono ?_ fun _ _ later => marked.trans later
  exact fun _ w later => (marked.trans later).then syncFs_calms.effect

/-! ## Taking a cluster -/

/-- Behind a cluster there is a cluster. -/
theorem Volume.Good.nextClust (good : v.Good g spare) (isClust : g.IsClust c) :
    g.IsClust (nextClust g.clustCnt c) := by
  refine ⟨?_, nextClust_lt good.layout.clusters.1 c⟩
  have fits := good.layout.clusters.2
  have low := isClust.1
  have high := isClust.2
  have small : u32 (c + 1) = c + 1 := u32_of_lt (by omega)
  unfold NTux.Fat32.nextClust
  rw [small]
  split <;> omega

/-- The search gives a free cluster. -/
theorem scanFree_calm (fuel : Nat) : ∀ {v : Volume} {turns c : Nat} {flags : Option ClustFlags},
    v.Good g spare → 2 ≤ nextClust g.clustCnt c →
    (scanFree fuel turns c flags).wp
      (fun d w => v.Calm g spare w ∧ g.IsClust d ∧ v.link d = 0) (fun _ w => v.Calm g spare w) v := by
  induction fuel with
  | zero =>
      intro v turns c flags good _
      have calms : Calms g spare (scanFree 0 turns c flags) := by
        unfold scanFree
        refine (does_gets calm_composing _).bind calm_composing fun _ => ?_
        refine Does.ite ?_ (does_stop calm_composing _)
        exact (note_calms _).bind calm_composing fun _ =>
          (note_calms _).bind calm_composing fun _ => does_stop calm_composing _
      have law := calms.from good
      unfold wp at law ⊢
      generalize ran : (scanFree 0 turns c flags).run v = ended at law ⊢
      obtain ⟨_ | d, w⟩ := ended
      · exact law
      · rw [scanFree, run_gets_bind] at ran
        split at ran <;> cases congrArg Prod.fst ran
  | succ fuel ih =>
      intro v turns c flags good low
      have isClust : g.IsClust (nextClust g.clustCnt c) :=
        ⟨low, nextClust_lt good.layout.clusters.1 c⟩
      unfold wp
      rw [scanFree, run_gets_bind, good.geometry]
      dsimp only
      by_cases round : nextClust g.clustCnt c = v.fat.lastUsed
      · rw [if_pos round]
        exact (note_calms .full).from good
      · rw [if_neg round, run_bind, run_attempt]
        have looked := getFat_link good isClust.inFat
        unfold wp at looked
        generalize (getFat (nextClust g.clustCnt c)).run v = ended at looked ⊢
        obtain ⟨(_ | _ | _) | ⟨val, next⟩, w⟩ := ended
        · dsimp only at looked ⊢
          rw [returnFlags_run]
          exact looked.1.trans ((note_calms .lost).from looked.1.good)
        · exact looked.1
        · exact looked.1
        · obtain ⟨calm, -, known⟩ := looked
          have rest : (scanFree fuel (turns + 1) (nextClust g.clustCnt c) (some next)).wp
              (fun d u => v.Calm g spare u ∧ g.IsClust d ∧ v.link d = 0)
              (fun _ u => v.Calm g spare u) w := by
            refine (ih calm.good (good.nextClust isClust).1).mono ?_ fun _ _ later =>
              calm.trans later
            rintro d u ⟨later, isClust', free⟩
            exact ⟨calm.trans later, isClust', calm.link good isClust'.inFat ▸ free⟩
          cases next with
          | free => exact ⟨calm, isClust, clustFlags_free.mp known⟩
          | used => exact rest
          | last => exact rest
          | bad => exact rest

/-- What `stretch_chain` may be called for: no cluster, or the last one of a chain. -/
def Volume.Stretchable (g : Geometry) (v : Volume) (prev : Nat) : Prop :=
  prev = 0 ∨ g.IsClust prev ∧ clustFlags g.clustCnt (v.link prev) = some .last

theorem findFree_calm (fuel : Nat) {prev : Nat} (good : v.Good g spare)
    (stretchable : v.Stretchable g prev) :
    (findFree fuel prev).wp
      (fun d w => v.Calm g spare w ∧ g.IsClust d ∧ v.link d = 0) (fun _ w => v.Calm g spare w) v := by
  unfold findFree wp
  rw [run_gets_bind]
  by_cases create : prev ≠ 0
  · rw [if_pos create]
    dsimp only
    rw [good.geometry]
    have isClust : g.IsClust prev := by
      rcases stretchable with zero | ⟨isClust, -⟩
      · exact absurd zero create
      · exact isClust
    have next := good.nextClust isClust
    apply wp_bind
    refine (getFat_link good next.inFat).mono ?_ fun _ _ calm => calm.1
    rintro ⟨val, flags⟩ w ⟨calm, -, known⟩
    dsimp only at known ⊢
    by_cases free : flags = .free
    · rw [if_pos free]
      exact ⟨calm, next, clustFlags_free.mp (free ▸ known)⟩
    · rw [if_neg free]
      refine (scanFree_calm fuel calm.good good.begins).mono ?_ fun _ _ later => calm.trans later
      rintro d u ⟨later, isClust', free⟩
      exact ⟨calm.trans later, isClust', calm.link good isClust'.inFat ▸ free⟩
  · rw [if_neg create]
    exact scanFree_calm fuel good good.begins

/-- **Taking a cluster** behind another one, or for a new chain. -/
theorem stretchChain_effect (gone : Set Nat) (fuel : Nat) {prev : Nat} (good : v.Good g spare)
    (stretchable : v.Stretchable g prev) :
    (stretchChain fuel prev).wp
      (fun c w => v.Effect g spare gone w ∧ g.IsClust c ∧ (prev ≠ 0 → w.link prev = c))
      (fun _ w => v.Effect g spare gone w) v := by
  have marked := calm_withFat good (f := fun fat => { fat with infoDirty := true }) rfl good.begins
    rfl rfl rfl rfl
  have stretchable' : (v.withFat fun fat => { fat with infoDirty := true }).Stretchable g prev :=
    stretchable.imp_right fun ⟨isClust, last⟩ =>
      ⟨isClust, marked.link good isClust.inFat ▸ last⟩
  unfold stretchChain wp
  rw [run_modifyFat_bind]
  apply wp_bind
  refine (findFree_calm fuel marked.good stretchable').mono ?_ fun _ _ calm =>
    (marked.trans calm).effect good
  rintro c w ⟨calm', isClust, free⟩
  have calm := marked.trans calm'
  have isFree : w.link c = 0 := calm'.link marked.good isClust.inFat ▸ free
  obtain ⟨x, put, puts⟩ := putFat_puts calm.good isClust.inFat 0x0FFFFFFF
  have taken := puts.taken calm.good isClust isFree (by decide)
  have unused : clustFlags g.clustCnt (w.link c) ≠ some .used := by
    rw [isFree, clustFlags_free.mpr rfl]
    decide
  have small : c % 2 ^ 28 ≠ 0 := by
    have := good.small
    have := isClust.1
    have := isClust.2
    rw [Nat.mod_eq_of_lt (by omega)]
    omega
  -- the link from the cluster that is stretched changes no number of free clusters
  obtain ⟨y, linked, alike, entries, count, link⟩ : ∃ y, (linkFrom prev c).run x = (.ok (), y) ∧
      x.Alike g spare gone y ∧ y.freeEntries = x.freeEntries ∧ y.fat.freeCnt = x.fat.freeCnt ∧
      (prev ≠ 0 → g.IsClust prev ∧ y.link prev = c) := by
    unfold linkFrom
    by_cases stretching : prev ≠ 0
    · rcases stretchable with zero | ⟨isClust', last⟩
      · exact absurd zero stretching
      have lastLink : clustFlags g.clustCnt (x.link prev) = some .last := by
        have apart : prev ≠ c := by
          rintro rfl
          rw [← calm.link good isClust'.inFat, isFree, clustFlags_free.mpr rfl] at last
          cases last
        rw [puts.link isClust'.inFat, if_neg apart, calm.link good isClust'.inFat, last]
      have notFree : x.link prev ≠ 0 := by
        intro zero
        rw [zero, clustFlags_free.mpr rfl] at lastLink
        cases lastLink
      have unused : clustFlags g.clustCnt (x.link prev) ≠ some .used := by
        rw [lastLink]
        decide
      obtain ⟨y, put', puts'⟩ := putFat_puts puts.good isClust'.inFat c
      rw [if_pos stretching]
      refine ⟨y, put', puts'.alike puts.good isClust' (.inr unused),
        puts'.linked puts.good notFree small, puts'.count, fun _ => ⟨isClust', ?_⟩⟩
      rw [puts'.link isClust'.inFat, if_pos rfl, Nat.mod_eq_of_lt]
      exact isClust.2.trans_le (good.small.trans (by decide))
    · rw [if_neg stretching]
      exact ⟨x, rfl, (Effect.refl puts.good).toAlike, rfl, rfl,
        fun nonzero => absurd nonzero stretching⟩
  have next := good.nextClust isClust
  obtain ⟨counted, entries'⟩ := alike_withFat alike.good
    (f := fun fat => { fat with lastUsed := c, freeCnt := sub32 fat.freeCnt 1 }) rfl next.1 rfl rfl
    rfl (Nat.mod_lt _ (by decide))
  have effect : v.Effect g spare gone
      (y.withFat fun fat => { fat with lastUsed := c, freeCnt := sub32 fat.freeCnt 1 }) := by
    have read : v.Effect g spare gone w := calm.effect good
    refine ⟨((read.toAlike.trans (puts.alike calm.good isClust (.inr unused))).trans alike).trans
      counted, ?_⟩
    have before := read.count
    have same := puts.count
    rw [entries', entries]
    change (sub32 y.fat.freeCnt 1 + v.freeEntries) % 2 ^ 32 = _
    unfold sub32
    omega
  rw [wp, run_bind_ok put, run_bind_ok linked, run_modifyFat_bind]
  apply wp_bind
  refine (syncFs_calms.from effect.good).mono ?_ fun _ _ calm =>
    effect.trans (calm.effect effect.good)
  intro _ z calm
  refine ⟨effect.trans (calm.effect effect.good), isClust, fun stretching => ?_⟩
  obtain ⟨isClust', linked⟩ := link stretching
  rw [calm.link effect.good isClust'.inFat]
  exact linked

/-! ## Clearing a cluster -/

/-- A sector of the data area is not guarded. -/
theorem Volume.Good.data_notMem (good : v.Good g spare) {s : Nat} (data : s ∈ g.dataArea) :
    s ∉ g.guarded spare := by
  rintro (side | spared)
  · exact good.layout.data_notMem data side
  · exact Set.disjoint_left.mp good.apart spared (Geometry.dataArea_subset data)

/-- The guarded sectors that were seen are on the disk, whatever is in the buffer. -/
structure Volume.Flushed (g : Geometry) (spare : Set Nat) (v w : Volume) : Prop where
  unbuffered : w.unbuffered = v.unbuffered
  sound : w.disk.Sound
  disk : Set.EqOn w.disk.sectors v.view (g.guarded spare)

/-- The buffer is at a sector that is not guarded. -/
theorem Volume.Flushed.calm (flushed : v.Flushed g spare w) (good : v.Good g spare)
    (outside : w.fat.sect ∉ g.guarded spare) : v.Calm g spare w := by
  refine calm_of_agrees good ⟨?_, flushed.unbuffered⟩ ⟨flushed.sound, fun _ inside =>
    absurd inside outside⟩
  intro s inside
  rw [view_of_ne fun equal => outside (equal ▸ inside)]
  exact flushed.disk inside

/-- A sector that is not guarded is written with the buffer. -/
theorem clearSector_flushed (flushed : v.Flushed g spare w) {sect : Nat}
    (outside : sect ∉ g.guarded spare) :
    ∃ u, syncBuf.run (w.withFat fun fat => { fat with bufDirty := true, sect := sect }) =
      (.ok (), u) ∧ v.Flushed g spare u ∧ u.fat.sect = sect := by
  have dirty : (w.withFat fun fat => { fat with bufDirty := true, sect := sect }).fat.bufDirty =
      true := rfl
  unfold syncBuf
  rw [run_gets_bind, if_pos dirty,
    run_bind_ok (diskWrite_sound (v := w.withFat _) flushed.sound _ _)]
  refine ⟨_, rfl, ⟨?_, flushed.sound.later rfl (Nat.le_succ _), ?_⟩, rfl⟩
  · rw [← flushed.unbuffered]
    rfl
  · intro s inside
    have differ : s ≠ sect := by
      rintro rfl
      exact outside inside
    exact (Function.update_of_ne differ _ _).trans (flushed.disk inside)

theorem clearLoop_flushed {count : Nat} : ∀ {w : Volume} {sect : Nat}, v.Flushed g spare w →
    (∀ i < count, sect + i ∉ g.guarded spare) → sect + count ≤ 2 ^ 32 →
    (count = 0 → w.fat.sect ∉ g.guarded spare) →
    ∃ u, (clearLoop count sect).run w = (.ok (), u) ∧ v.Flushed g spare u ∧
      u.fat.sect ∉ g.guarded spare := by
  induction count with
  | zero => exact fun flushed _ _ outside => ⟨_, rfl, flushed, outside rfl⟩
  | succ count ih =>
      intro w sect flushed outside fits _
      have first : sect ∉ g.guarded spare := outside 0 (Nat.succ_pos count)
      obtain ⟨u, written, flushed', at'⟩ := clearSector_flushed flushed first
      rw [clearLoop, run_modifyFat_bind, run_bind_ok written]
      cases count with
      | zero => exact ⟨u, rfl, flushed', at'.symm ▸ first⟩
      | succ count =>
          rw [u32_of_lt (by omega)]
          refine ih flushed' (fun i less => ?_) (by omega) nofun
          rw [Nat.add_assoc, Nat.add_comm 1]
          exact outside (i + 1) (Nat.succ_lt_succ less)

/-- **Clearing** a cluster. -/
theorem clustClear_calm (good : v.Good g spare) (isClust : g.IsClust c) :
    ∃ w, (clustClear c).run v = (.ok (), w) ∧ v.Calm g spare w := by
  obtain ⟨u, synced, ready, agrees, clean, -⟩ := syncBuf_spec (v := v) good.ready
  have geometry : u.fat.geometry = g := agrees.geometry.trans good.geometry
  have flushed : v.Flushed g spare (u.withFat fun fat => { fat with buf := fun _ => 0 }) := by
    refine ⟨?_, ready.sound, fun s inside => ?_⟩
    · rw [← agrees.unbuffered]
      rfl
    · rw [← agrees.view inside]
      change u.disk.sectors s = u.view s
      by_cases buffered : u.fat.sect = s
      · subst buffered
        rw [view_buffered]
        exact ready.coherent clean inside
      · exact (view_of_ne buffered).symm
  have inData := good.layout.clustArea_subset isClust
  have positive : 0 < 2 ^ g.clustShift := Nat.two_pow_pos _
  have inside : ∀ i < 2 ^ g.clustShift, g.clustToSect c + i ∈ g.dataArea := fun i less =>
    inData ⟨Nat.le_add_right _ _, Nat.add_lt_add_left less _⟩
  have fits : g.clustToSect c + 2 ^ g.clustShift ≤ 2 ^ 32 := by
    have last := (inside (2 ^ g.clustShift - 1) (by omega)).2
    have := good.layout.dataFits
    omega
  obtain ⟨w, cleared, flushed', outside⟩ := clearLoop_flushed flushed
    (fun i less => good.data_notMem (inside i less)) fits (by omega)
  unfold clustClear
  rw [run_bind_ok synced, run_gets_bind, geometry, run_modifyFat_bind]
  exact ⟨w, cleared, flushed'.calm good outside⟩

end NTux.Fat32
