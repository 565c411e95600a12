import NTux.Fat32.Effects
import NTux.Fat32.FreeSearch
import NTux.Fat32.OpenFiles

/-! # Chains that grow

On a volume without faults whose entries all say something (`Volume.Healthy`), `stretch_chain`
takes a free cluster as long as there is one but `last_used`, with fuel for one look at every
cluster (`stretchChain_takeable`). A cluster that is taken is one less that can be taken, so the
clusters of a chain and those that can be taken are together no fewer than before.
-/

namespace NTux.Fat32

open NTux.Foundation Command

variable {g : Geometry} {v w : Volume} {c d prev fuel : Nat} {chain : List Nat}

/-- A mounted volume on a disk without faults, where the entry of every cluster says something. -/
structure Volume.Healthy (g : Geometry) (v : Volume) : Prop where
  fit : v.Fit g
  sound : v.disk.Sound
  small : v.fat.lastUsed < 2 ^ 32 - 1
  valid : ∀ c, g.IsClust c → clustFlags g.clustCnt (v.link c) ≠ none

/-- The free clusters that a search comes to. -/
def Volume.takeable (v : Volume) : Finset Nat := v.freeClusts.erase v.fat.lastUsed

namespace Volume.Healthy

theorem ready (healthy : v.Healthy g) : v.Ready v.fat.geometry.area := by
  have geometry := healthy.fit.geometry
  exact ⟨healthy.sound, geometry ▸ healthy.fit.coherent⟩

theorem layout (healthy : v.Healthy g) : v.fat.geometry.Layout :=
  healthy.fit.geometry ▸ healthy.fit.layout

theorem mem_takeable (healthy : v.Healthy g) :
    c ∈ v.takeable ↔ c ≠ v.fat.lastUsed ∧ g.IsClust c ∧ v.link c = 0 := by
  rw [takeable, Finset.mem_erase, freeClusts, Finset.mem_filter, Finset.mem_Ico,
    healthy.fit.geometry]
  rfl

/-- The buffer has moved or was written, and the sectors of the FAT are seen as before. -/
theorem edited (healthy : v.Healthy g) (plain : w.unbuffered = v.unbuffered) (ready : w.Ready g.area)
    (view : Set.EqOn w.view v.view g.fatArea) :
    w.Healthy g ∧ w.takeable = v.takeable ∧ ∀ c, g.InFat c → w.entry c = v.entry c := by
  have geometry := Volume.geometry_of_unbuffered plain
  have used := Volume.lastUsed_of_unbuffered plain
  have entry : ∀ c, g.InFat c → w.entry c = v.entry c := fun c inFat => by
    unfold Volume.entry entryAt
    rw [geometry, healthy.fit.geometry, view (Geometry.mem_fatArea inFat)]
  have link : ∀ c, g.InFat c → w.link c = v.link c := fun c inFat => by
    rw [Volume.link, entry c inFat, Volume.link]
  refine ⟨⟨⟨geometry.trans healthy.fit.geometry, healthy.fit.layout, healthy.fit.small,
    healthy.fit.shift, used ▸ healthy.fit.begins, ready.coherent⟩, ready.sound,
    used ▸ healthy.small, fun c isClust => link c isClust.inFat ▸ healthy.valid c isClust⟩, ?_, entry⟩
  have free : w.freeClusts = v.freeClusts := freeClusts_congr geometry fun c isClust =>
    link c (healthy.fit.geometry ▸ isClust).inFat
  rw [takeable, takeable, free, used]

/-- The same is seen of a volume that has gone on. -/
theorem agrees (healthy : v.Healthy g) (agrees : v.Agrees g.area w) (ready : w.Ready g.area) :
    w.Healthy g ∧ w.takeable = v.takeable := by
  obtain ⟨healthy', takeable, -⟩ := healthy.edited agrees.unbuffered ready
    (agrees.view.mono Geometry.fatArea_subset)
  exact ⟨healthy', takeable⟩

/-- The entries are seen as before. -/
theorem sameSearch (healthy : v.Healthy g) (same : SameSearch v w) : w.Healthy g := by
  have geometry := same.rewrites.geometry.trans healthy.fit.geometry
  have coherent := same.rewrites.ready.coherent
  rw [geometry] at coherent
  refine ⟨⟨geometry, healthy.fit.layout, healthy.fit.small, healthy.fit.shift,
    same.lastUsed ▸ healthy.fit.begins, coherent⟩, same.rewrites.ready.sound,
    same.lastUsed ▸ healthy.small, fun c isClust => ?_⟩
  have inFat : v.fat.geometry.InFat c := healthy.fit.geometry ▸ isClust.inFat
  rw [same.rewrites.link inFat]
  exact healthy.valid c isClust

theorem searchable (healthy : v.Healthy g) : Searchable v.fat.geometry.area v := by
  have layout := healthy.layout
  refine ⟨healthy.ready, fun c small => ?_, layout.clusters.1, layout.clusters.2, healthy.small⟩
  have inFat : v.fat.geometry.InFat c := Nat.div_le_div_right (Nat.le_sub_one_of_lt small)
  rw [Geometry.entrySect, layout.fatSector inFat]
  exact Geometry.fatArea_subset (Geometry.mem_fatArea inFat)

/-- The search looks at clusters. -/
theorem isClust_of_mem_order (healthy : v.Healthy g) (member : c ∈ v.order) : g.IsClust c := by
  obtain ⟨small, differ, low⟩ := mem_walkOrder.mp member
  rw [healthy.fit.geometry] at small
  refine ⟨?_, small⟩
  have begins := healthy.fit.begins
  unfold nextClust at begins
  have fits := healthy.small
  rw [u32_of_lt (by omega)] at begins
  split_ifs at begins <;> omega

/-- An entry that does not say that its cluster is free says that it is in use. -/
theorem occupied (healthy : v.Healthy g) (isClust : g.IsClust c) (used : v.link c ≠ 0) :
    Occupied v c := by
  have geometry := healthy.fit.geometry
  have isClust' : v.fat.geometry.IsClust c := geometry ▸ isClust
  have seen := healthy.layout.seen isClust'.inFat
  cases known : clustFlags g.clustCnt (v.link c) with
  | none => exact absurd known (healthy.valid c isClust)
  | some flags =>
      refine ⟨flags, by rw [geometry, seen, known], ?_⟩
      rintro rfl
      exact used (clustFlags_free.mp known)

end Volume.Healthy

theorem length_walkOrder_le (clustCnt lastUsed : Nat) :
    (walkOrder clustCnt lastUsed).length ≤ clustCnt := by
  simp only [walkOrder, List.length_append, List.length_range']
  omega

/-- **The search** finds a cluster, if there is one for it. -/
theorem scanFree_takes (healthy : v.Healthy g) (room : v.takeable.Nonempty)
    (enough : g.clustCnt ≤ fuel) (flags : Option ClustFlags) :
    ∃ c w, (scanFree fuel 0 v.fat.lastUsed flags).run v = (.ok c, w) ∧ g.IsClust c ∧ v.link c = 0 ∧
      w.Ready v.fat.geometry.area ∧ v.Agrees v.fat.geometry.area w := by
  have geometry := healthy.fit.geometry
  rcases all_or_first (Occupied v) v.order with occupied | ⟨before, c, after, split, occupied, fails⟩
  · -- the cluster that there is would be in use
    obtain ⟨c, member⟩ := room
    obtain ⟨differ, isClust, free⟩ := healthy.mem_takeable.mp member
    have isClust' : v.fat.geometry.IsClust c := geometry ▸ isClust
    refine absurd ?_ (occupied c (Searchable.isClust_order isClust' differ)).ne_zero
    rw [healthy.layout.seen isClust'.inFat, free]
  · have isClust := healthy.isClust_of_mem_order (split ▸ List.mem_append_right _ List.mem_cons_self)
    have isClust' : v.fat.geometry.IsClust c := geometry ▸ isClust
    have free : v.link c = 0 := by
      by_contra used
      exact fails (healthy.occupied isClust used)
    obtain ⟨more, rfl⟩ : ∃ more, fuel = more + 1 + before.length := by
      have all := length_walkOrder_le v.fat.geometry.clustCnt v.fat.lastUsed
      change v.order.length ≤ _ at all
      rw [split, geometry] at all
      simp only [List.length_append, List.length_cons] at all
      exact ⟨fuel - 1 - before.length, by omega⟩
    obtain ⟨w, -, ready, agrees, found, -⟩ :=
      healthy.searchable.scanFree_first split occupied more flags
    refine ⟨c, w, found ?_, isClust, free, ready, agrees⟩
    rw [healthy.layout.seen isClust'.inFat, free, clustFlags_free.mpr rfl]

theorem Volume.Healthy.nextClust (healthy : v.Healthy g) (isClust : g.IsClust prev) :
    g.IsClust (nextClust g.clustCnt prev) := by
  have fits := healthy.fit.layout.clusters
  refine ⟨?_, nextClust_lt fits.1 prev⟩
  have low := isClust.1
  have high := isClust.2
  by_cases last : prev + 1 < g.clustCnt
  · rw [nextClust_succ last fits.2]
    omega
  · rw [nextClust_wrap (by omega) (by omega)]

/-- A cluster is found for a chain. -/
theorem findFree_takes (healthy : v.Healthy g) (isClust : g.IsClust prev)
    (room : v.takeable.Nonempty) (enough : g.clustCnt ≤ fuel) :
    ∃ c w, (findFree fuel prev).run v = (.ok c, w) ∧ g.IsClust c ∧ v.link c = 0 ∧
      w.Ready v.fat.geometry.area ∧ v.Agrees v.fat.geometry.area w := by
  have geometry := healthy.fit.geometry
  have nonzero : prev ≠ 0 := by
    have low := isClust.1
    omega
  have next := healthy.nextClust isClust
  have next' : v.fat.geometry.IsClust (Fat32.nextClust v.fat.geometry.clustCnt prev) := by
    rw [geometry]
    exact next
  have seen := healthy.layout.seen next'.inFat
  obtain ⟨u, ready, agrees, looked⟩ :=
    findFree_first healthy.ready nonzero (healthy.searchable.covers _ next'.2)
  by_cases free : v.link (Fat32.nextClust v.fat.geometry.clustCnt prev) = 0
  · rw [seen, free, clustFlags_free.mpr rfl] at looked
    exact ⟨_, u, looked fuel, by rw [geometry]; exact next, free, ready, agrees⟩
  · obtain ⟨flags, known, notFree⟩ := healthy.occupied (by rw [geometry]; exact next) free
    rw [known] at looked
    obtain ⟨healthy', same⟩ := healthy.agrees (geometry ▸ agrees) (geometry ▸ ready)
    obtain ⟨c, w, found, isClust', free', ready', agrees'⟩ :=
      scanFree_takes healthy' (same ▸ room) enough (some flags)
    have between := agrees.geometry
    have isClust'' : v.fat.geometry.IsClust c := geometry ▸ isClust'
    refine ⟨c, w, ?_, isClust', ?_, between ▸ ready', agrees.trans (between ▸ agrees')⟩
    · refine Eq.trans ?_ found
      rw [looked]
      cases flags with
      | free => exact absurd rfl notFree
      | used => rfl
      | last => rfl
      | bad => rfl
    · rw [← free', (agrees.rewrites ready).link isClust''.inFat]

/-- What is found is written. -/
theorem stretchChain_writes (healthy : v.Healthy g) (isClust : g.IsClust prev)
    (differ : c ≠ prev) (isClust' : g.IsClust c) {u : Volume}
    (found : (findFree fuel prev).run v.marked = (.ok c, u)) (ready : u.Ready g.area)
    (agrees : v.marked.Agrees g.area u) :
    ∃ w, (stretchChain fuel prev).run v = (.ok c, w) ∧ Rewrites v w (stretchedEntry prev c) ∧
      w.fat.lastUsed = c := by
  have geometry := healthy.fit.geometry
  have layout := healthy.layout
  have marked := rewrites_withFat healthy.ready (f := fun fat => { fat with infoDirty := true })
    rfl rfl rfl rfl
  have looked : Rewrites v.marked u fun _ entry => entry :=
    Volume.Agrees.rewrites (v := v.marked) (by rw [← geometry] at agrees; exact agrees)
      (by rw [← geometry] at ready; exact ready)
  have first := marked.trans looked
  have geometry' : u.fat.geometry = v.fat.geometry := first.geometry
  have inFat : u.fat.geometry.InFat c := by
    rw [geometry', geometry]
    exact isClust'.inFat
  obtain ⟨x, put, -, rewrites⟩ := putFat_spec (geometry' ▸ layout) first.ready inFat 0x0FFFFFFF
  have geometry'' : x.fat.geometry = v.fat.geometry := rewrites.geometry.trans geometry'
  have inFat' : x.fat.geometry.InFat prev := by
    rw [geometry'', geometry]
    exact isClust.inFat
  obtain ⟨y, linked, rewrites'⟩ := linkFrom_spec (geometry'' ▸ layout) rewrites.ready inFat' c
  have counted := rewrites_withFat rewrites'.ready
    (f := fun fat => { fat with lastUsed := c, freeCnt := sub32 fat.freeCnt 1 }) rfl rfl rfl rfl
  obtain ⟨w, synced, same, rewrites''⟩ := syncFs_spec
    (counted.geometry ▸ rewrites'.geometry ▸ geometry'' ▸ layout) counted.ready
  refine ⟨w, ?_, ?_, same.lastUsed⟩
  · unfold stretchChain
    rw [run_modifyFat_bind]
    refine (run_bind_ok found).trans ?_
    rw [run_bind_ok put, run_bind_ok linked, run_modifyFat_bind]
    exact run_bind_ok synced
  · refine ((((first.trans rewrites).trans rewrites').trans counted).trans rewrites'').congr
      fun d entry => ?_
    unfold stretchedEntry
    by_cases link : prev ≠ 0 ∧ d = prev
    · have other : d ≠ c := fun equal => differ (equal.symm.trans link.2)
      rw [if_pos link, if_pos link, if_neg other]
    · rw [if_neg link, if_neg link]

/-- What a chain's growth by a cluster does to the volume. -/
structure Volume.Takes (g : Geometry) (prev c : Nat) (v w : Volume) : Prop where
  healthy : w.Healthy g
  isClust : g.IsClust c
  free : v.link c = 0
  rewrites : Rewrites v w (stretchedEntry prev c)
  buffer : w.fat.sect ∈ g.fatSide
  takeable : v.takeable.card ≤ w.takeable.card + 1

namespace Volume.Takes

theorem geometry (takes : v.Takes g prev c w) : v.fat.geometry = g :=
  takes.rewrites.geometry.symm.trans takes.healthy.fit.geometry

/-- The entries of other clusters stay. -/
theorem entry (takes : v.Takes g prev c w) (inFat : g.InFat d) (notPrev : d ≠ prev)
    (notNew : d ≠ c) : w.entry d = v.entry d := by
  rw [takes.rewrites.entry d (takes.geometry ▸ inFat), stretchedEntry,
    if_neg fun both => notPrev both.2, if_neg notNew]

theorem link (takes : v.Takes g prev c w) (inFat : g.InFat d) (notPrev : d ≠ prev)
    (notNew : d ≠ c) : w.link d = v.link d := by
  rw [Volume.link, takes.entry inFat notPrev notNew, Volume.link]

/-- The cluster behind the end of a chain is in the chain. -/
theorem isChain (takes : v.Takes g prev c w) (isChain : FatChain v chain) (nodup : chain.Nodup)
    (last : chain.getLast? = some prev) :
    FatChain w (chain ++ [c]) ∧ (chain ++ [c]).Nodup := by
  have geometry := takes.geometry
  have unused : c ∉ chain := fun member => isChain.link_ne_zero c member takes.free
  obtain ⟨rest, rfl⟩ := List.getLast?_eq_some_iff.mp last
  have isClust : g.IsClust prev := geometry ▸ isChain.clusters prev (by simp)
  have nonzero : prev ≠ 0 := by
    have low := isClust.1
    omega
  have apart : c ≠ prev := fun equal => unused (by simp [equal])
  have fits := takes.healthy.fit.small
  have high := takes.isClust.2
  have linkOf : ∀ d, g.IsClust d → w.link d = stretchedEntry prev c d (v.entry d) % 2 ^ 28 :=
    fun d isClust' => takes.rewrites.linkOf (geometry ▸ isClust')
  constructor
  · refine isChain.append takes.rewrites.geometry ?_ (geometry ▸ takes.isClust) (by omega) ?_ ?_
    · intro d member
      refine takes.link (geometry ▸ isChain.clusters d (by simp [member])).inFat ?_ ?_
      · rintro rfl
        exact List.disjoint_of_nodup_append nodup member (List.mem_singleton_self _)
      · rintro rfl
        exact unused (by simp [member])
    · rw [linkOf prev isClust, stretchedEntry, if_pos ⟨nonzero, rfl⟩, setLower_mod]
      exact Nat.mod_eq_of_lt (by omega)
    · rw [linkOf c takes.isClust, stretchedEntry, if_neg (fun both => apart both.2), if_pos rfl,
        setLower_mod]
      decide
  · refine List.nodup_append.mpr ⟨nodup, List.nodup_singleton c, ?_⟩
    rintro d member e new rfl
    exact unused (List.mem_singleton.mp new ▸ member)

end Volume.Takes

/-- **Growth.** `stretch_chain` takes a free cluster, if there is one that a search comes to. -/
theorem stretchChain_takeable (healthy : v.Healthy g) (isClust : g.IsClust prev)
    (last : clustFlags g.clustCnt (v.link prev) = some .last) (room : v.takeable.Nonempty)
    (enough : g.clustCnt ≤ fuel) :
    ∃ c w, (stretchChain fuel prev).run v = (.ok c, w) ∧ v.Takes g prev c w := by
  have geometry := healthy.fit.geometry
  have healthy' : v.marked.Healthy g :=
    ⟨(same_withFat healthy.fit rfl healthy.fit.begins rfl rfl rfl).fit, healthy.sound,
      healthy.small, healthy.valid⟩
  have room' : v.marked.takeable.Nonempty := room
  obtain ⟨c, u, found, isClust', free, ready, agrees⟩ :=
    findFree_takes healthy' isClust room' enough
  have geometry' : v.marked.fat.geometry = g := geometry
  rw [geometry'] at ready agrees
  have differ : c ≠ prev := by
    rintro rfl
    have none : clustFlags g.clustCnt (v.link c) = some .free := clustFlags_free.mpr free
    cases none.symm.trans last
  obtain ⟨w, ran, rewrites, used⟩ :=
    stretchChain_writes healthy isClust differ isClust' found ready agrees
  obtain ⟨kept, side, -, linked⟩ :=
    (stretchChain_faults fuel healthy.fit isClust last).of_ok ran
  have entry : ∀ d, g.IsClust d → w.link d = stretchedEntry prev c d (v.entry d) % 2 ^ 28 :=
    fun d isClust'' => rewrites.linkOf (geometry ▸ isClust'')
  have link : ∀ d, g.IsClust d → d ≠ prev → d ≠ c → w.link d = v.link d := by
    intro d isClust'' other other'
    rw [entry d isClust'', stretchedEntry, if_neg fun both => other both.2, if_neg other']
    rfl
  have later : w.Healthy g := by
    have high := isClust'.2
    have most := healthy.fit.layout.clusters.2
    refine ⟨kept.fit, rewrites.ready.sound, by
      have fits := healthy.fit.small
      rw [used]
      omega, fun d isClust'' => ?_⟩
    by_cases other : d = prev
    · rw [other, linked, clustFlags_of_isClust kept.fit isClust']
      exact Option.some_ne_none _
    · by_cases other' : d = c
      · rw [entry d isClust'', stretchedEntry, if_neg fun both => other both.2, if_pos other',
          setLower_mod, FatChain.clustFlags_last (by decide)]
        exact Option.some_ne_none _
      · rw [link d isClust'' other other']
        exact healthy.valid d isClust''
  refine ⟨c, w, ran, later, isClust', free, rewrites, side, ?_⟩
  have rest : v.takeable.erase c ⊆ w.takeable := by
    intro d member
    obtain ⟨other', member⟩ := Finset.mem_erase.mp member
    obtain ⟨-, isClust'', free'⟩ := healthy.mem_takeable.mp member
    have other : d ≠ prev := by
      rintro rfl
      cases (clustFlags_free.mpr free').symm.trans last
    exact later.mem_takeable.mpr
      ⟨by rwa [used], isClust'', (link d isClust'' other other').trans free'⟩
  have fewer := Finset.card_le_card rest
  have one := Finset.pred_card_le_card_erase (s := v.takeable) (a := c)
  omega

/-! ## Growth over many steps -/

/-- A volume has gone on: one of its chains has grown by clusters that were free, and nothing was
done to the entries and the sectors of any other cluster. -/
structure Volume.Grows (g : Geometry) (chain more : List Nat) (v w : Volume) : Prop where
  healthy : w.Healthy g
  isChain : FatChain w (chain ++ more)
  nodup : (chain ++ more).Nodup
  fresh : ∀ c ∈ more, v.link c = 0
  entry : ∀ c, g.InFat c → c ∉ chain ++ more → w.entry c = v.entry c
  data : ∀ s ∈ g.dataArea, (∀ c ∈ chain ++ more, s ∉ g.clustArea c) → w.view s = v.view s
  takeable : v.takeable.card ≤ w.takeable.card + more.length

namespace Volume.Grows

variable {more later : List Nat} {u : Volume}

theorem refl (healthy : v.Healthy g) (isChain : FatChain v chain) (nodup : chain.Nodup) :
    v.Grows g chain [] v := by
  have all : chain ++ [] = chain := List.append_nil chain
  exact ⟨healthy, all.symm ▸ isChain, all.symm ▸ nodup, nofun, fun _ _ _ => rfl, fun _ _ _ => rfl,
    le_rfl⟩

theorem isClust (grows : v.Grows g chain more w) (member : c ∈ chain ++ more) : g.IsClust c :=
  grows.healthy.fit.geometry ▸ grows.isChain.clusters c member

theorem link (grows : v.Grows g chain more w) (inFat : g.InFat c) (outside : c ∉ chain ++ more) :
    w.link c = v.link c := by
  rw [Volume.link, grows.entry c inFat outside, Volume.link]

theorem trans (first : v.Grows g chain more w) (second : w.Grows g (chain ++ more) later u) :
    v.Grows g chain (more ++ later) u := by
  have all : chain ++ (more ++ later) = chain ++ more ++ later :=
    (List.append_assoc chain more later).symm
  have inner : ∀ {c}, c ∉ chain ++ more ++ later → c ∉ chain ++ more := fun outside member =>
    outside (List.mem_append_left _ member)
  constructor
  case healthy => exact second.healthy
  case isChain => exact all.symm ▸ second.isChain
  case nodup => exact all.symm ▸ second.nodup
  case fresh =>
    intro c member
    rcases List.mem_append.mp member with old | new
    · exact first.fresh c old
    · have free := second.fresh c new
      have outside : c ∉ chain ++ more := fun member =>
        first.isChain.link_ne_zero c member free
      rw [← free, first.link (second.isClust (List.mem_append_right _ new)).inFat outside]
  case entry =>
    intro c inFat outside
    rw [all] at outside
    exact (second.entry c inFat outside).trans (first.entry c inFat (inner outside))
  case data =>
    intro s member outside
    rw [all] at outside
    exact (second.data s member outside).trans
      (first.data s member fun c inside => outside c (List.mem_append_left _ inside))
  case takeable =>
    have before := first.takeable
    have after := second.takeable
    rw [List.length_append]
    omega

theorem after (first : v.Grows g chain [] w) (second : w.Grows g chain more u) :
    v.Grows g chain more u := by
  have all : chain ++ [] = chain := List.append_nil chain
  exact first.trans (all.symm ▸ second)

/-- Other sectors of the chain are written, or the buffer moves. -/
theorem congr (grows : v.Grows g chain more w) (healthy : u.Healthy g)
    (takeable : u.takeable = w.takeable) (entry : ∀ c, g.InFat c → u.entry c = w.entry c)
    (data : ∀ s ∈ g.dataArea, (∀ c ∈ chain ++ more, s ∉ g.clustArea c) → u.view s = w.view s) :
    v.Grows g chain more u where
  healthy := healthy
  isChain := grows.isChain.congr (healthy.fit.geometry.trans grows.healthy.fit.geometry.symm)
    fun c member => by
      rw [Volume.link, entry c (grows.isClust member).inFat, Volume.link]
  nodup := grows.nodup
  fresh := grows.fresh
  entry c inFat outside := (entry c inFat).trans (grows.entry c inFat outside)
  data s member outside := (data s member outside).trans (grows.data s member outside)
  takeable := takeable ▸ grows.takeable

/-- A cluster is taken. -/
theorem of_takes (takes : v.Takes g prev c w) (isChain : FatChain v chain) (nodup : chain.Nodup)
    (last : chain.getLast? = some prev) : v.Grows g chain [c] w := by
  obtain ⟨isChain', nodup'⟩ := takes.isChain isChain nodup last
  constructor
  case healthy => exact takes.healthy
  case isChain => exact isChain'
  case nodup => exact nodup'
  case fresh =>
    intro d member
    exact List.mem_singleton.mp member ▸ takes.free
  case entry =>
    intro d inFat outside
    refine takes.entry inFat ?_ ?_
    · rintro rfl
      exact outside (List.mem_append_left _ (List.mem_of_getLast? last))
    · rintro rfl
      exact outside (List.mem_append_right _ (List.mem_singleton_self _))
  case data =>
    intro s member _
    exact takes.rewrites.data (takes.geometry ▸ member)
  case takeable => exact takes.takeable

end Volume.Grows

end NTux.Fat32
