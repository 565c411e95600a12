import NTux.Fat32.Entries

/-! # Taking a free cluster

`stretch_chain` goes around the clusters from `last_used` on until it meets `last_used`
again, a free cluster or an entry that is none. What it meets depends on the entries alone
(`Search`), it meets something exactly when it ends (`scanFree_of_search`,
`search_of_scanFree`), and what it does with a free cluster is to write two entries
(`stretchChain_spec`).
-/

namespace NTux.Fat32

open NTux.Foundation Command

/-! ## The search -/

/-- What ends the search; an entry that is none ends it with the flags of the entry before it,
if they are known. -/
inductive Found where
  | free (c : Nat)
  | full
  | invalid (known : Bool)
  deriving DecidableEq

/-- The search behind a cluster ends with something. -/
inductive Search (v : Volume) : Nat → Bool → Found → Prop where
  | full {clust : Nat} {known : Bool} :
      nextClust v.fat.geometry.clustCnt clust = v.fat.lastUsed → Search v clust known .full
  | free {clust : Nat} {known : Bool} :
      nextClust v.fat.geometry.clustCnt clust ≠ v.fat.lastUsed →
      v.link (nextClust v.fat.geometry.clustCnt clust) = 0 →
        Search v clust known (.free (nextClust v.fat.geometry.clustCnt clust))
  | invalid {clust : Nat} {known : Bool} :
      nextClust v.fat.geometry.clustCnt clust ≠ v.fat.lastUsed →
      clustFlags v.fat.geometry.clustCnt (v.link (nextClust v.fat.geometry.clustCnt clust)) =
        none → Search v clust known (.invalid known)
  | pass {clust : Nat} {known : Bool} {flags : ClustFlags} {found : Found} :
      nextClust v.fat.geometry.clustCnt clust ≠ v.fat.lastUsed →
      clustFlags v.fat.geometry.clustCnt (v.link (nextClust v.fat.geometry.clustCnt clust)) =
        some flags → flags ≠ .free → Search v (nextClust v.fat.geometry.clustCnt clust) true found →
          Search v clust known found

variable {v w : Volume}

theorem clustFlags_free {clustCnt val : Nat} : clustFlags clustCnt val = some .free ↔ val = 0 := by
  unfold clustFlags
  constructor
  · intro flags
    split at flags
    · assumption
    · split at flags
      · cases flags
      · split at flags
        · cases flags
        · split at flags <;> cases flags
  · exact fun zero => if_pos zero

theorem clustFlags_used {clustCnt val : Nat} (used : clustFlags clustCnt val = some .used) :
    2 ≤ val ∧ val < clustCnt := by
  unfold clustFlags at used
  split at used
  · cases used
  · split at used
    · cases used
    · split at used
      · cases used
      · split at used
        · assumption
        · cases used

/-- The cluster that is looked at has an entry of the FAT. -/
theorem nextClust_lt {clustCnt : Nat} (some : 2 < clustCnt) (clust : Nat) :
    nextClust clustCnt clust < clustCnt := by
  unfold nextClust
  split
  · exact some
  · next less => exact not_le.mp less

theorem nextClust_inFat (layout : v.fat.geometry.Layout) (clust : Nat) :
    v.fat.geometry.InFat (nextClust v.fat.geometry.clustCnt clust) :=
  Nat.div_le_div_right (Nat.le_sub_one_of_lt (nextClust_lt layout.clusters.1 clust))

/-- The driver sees the same entries, and `last_used` is the same. -/
structure SameSearch (v w : Volume) : Prop where
  rewrites : Rewrites v w fun _ entry => entry
  lastUsed : w.fat.lastUsed = v.fat.lastUsed

theorem Rewrites.link (same : Rewrites v w fun _ entry => entry) {c : Nat}
    (inFat : v.fat.geometry.InFat c) : w.link c = v.link c := by
  rw [Volume.link, same.entry c inFat, Volume.link]

theorem Volume.Agrees.sameSearch (agrees : v.Agrees v.fat.geometry.area w)
    (ready : w.Ready v.fat.geometry.area) : SameSearch v w :=
  ⟨agrees.rewrites ready, Volume.lastUsed_of_unbuffered agrees.unbuffered⟩

theorem SameSearch.trans {u : Volume} (first : SameSearch v w) (second : SameSearch w u) :
    SameSearch v u :=
  ⟨first.rewrites.trans second.rewrites, second.lastUsed.trans first.lastUsed⟩

theorem Search.congr (layout : v.fat.geometry.Layout) (same : SameSearch v w) {clust : Nat}
    {known : Bool} {found : Found} (search : Search v clust known found) :
    Search w clust known found := by
  have geometry := same.rewrites.geometry
  have link := fun clust => same.rewrites.link (nextClust_inFat layout clust)
  induction search with
  | full meets =>
      exact .full (by rw [geometry, same.lastUsed, meets])
  | free differ zero =>
      rw [← geometry] at differ zero ⊢
      refine .free (by rwa [same.lastUsed]) ?_
      rw [geometry] at zero ⊢
      rw [link, zero]
  | invalid differ none =>
      refine .invalid ?_ ?_
      · rwa [geometry, same.lastUsed]
      · rw [geometry, link, none]
  | pass differ some notFree _ ih =>
      refine .pass ?_ ?_ notFree ?_
      · rwa [geometry, same.lastUsed]
      · rw [geometry, link, some]
      · rwa [geometry]

/-- The code that the search's end gives. -/
def Found.Gives (found : Found) (result : Except Stop Nat) : Prop :=
  match found with
  | free c => result = .ok c
  | full => result = .error (.code errFull)
  | invalid true => ∃ err, result = .error (.code err) ∧ err ≠ 0
  | invalid false => result = .error .undefined

/-- A turn of the search. -/
theorem scanFree_turn (layout : v.fat.geometry.Layout) (ready : v.Ready v.fat.geometry.area)
    (fuel turns clust : Nat) (flags : Option ClustFlags)
    (differ : nextClust v.fat.geometry.clustCnt clust ≠ v.fat.lastUsed) :
    ∃ w, SameSearch v w ∧ (scanFree (fuel + 1) turns clust flags).run v =
      match clustFlags v.fat.geometry.clustCnt
          (v.link (nextClust v.fat.geometry.clustCnt clust)) with
      | none => (returnFlags flags).run w
      | some .free => (.ok (nextClust v.fat.geometry.clustCnt clust), w)
      | some flags => (scanFree fuel (turns + 1)
          (nextClust v.fat.geometry.clustCnt clust) (some flags)).run w := by
  obtain ⟨w, read, ready', agrees, -⟩ := getFat_spec layout ready (nextClust_inFat layout clust)
  refine ⟨w, agrees.sameSearch ready', ?_⟩
  rw [scanFree, run_gets_bind]
  dsimp only
  rw [if_neg differ]
  have attempted := run_attempt (getFat (nextClust v.fat.geometry.clustCnt clust)) v
  rw [read] at attempted
  rw [run_bind_ok attempted]
  cases known : clustFlags v.fat.geometry.clustCnt
      (v.link (nextClust v.fat.geometry.clustCnt clust)) with
  | none => rfl
  | some flags => cases flags <;> rfl

theorem scanFree_full (fuel turns clust : Nat) (flags : Option ClustFlags)
    (meets : nextClust v.fat.geometry.clustCnt clust = v.fat.lastUsed) :
    (scanFree (fuel + 1) turns clust flags).run v = (.error (.code errFull), v.note .full) := by
  rw [scanFree, run_gets_bind]
  dsimp only
  rw [if_pos meets]
  rfl

/-- What the driver sees does not depend on what went wrong before. -/
theorem sameSearch_note (ready : v.Ready v.fat.geometry.area) (mishap : Mishap) :
    SameSearch v (v.note mishap) :=
  ⟨⟨⟨ready.sound, ready.coherent⟩, rfl, fun _ _ => rfl, fun _ _ _ => rfl, fun _ _ => rfl⟩, rfl⟩

theorem returnFlags_run (flags : Option ClustFlags) :
    (returnFlags flags : FatM Nat).run v =
      (.error (match flags with
        | some flags => .code flags.toInt
        | none => .undefined), v.note .lost) := by
  cases flags <;> rfl

/-- **The search.** If it ends, enough fuel makes it return what it ends with, and nothing that
the driver sees is changed. -/
theorem scanFree_of_search (layout : v.fat.geometry.Layout) (ready : v.Ready v.fat.geometry.area)
    {clust : Nat} {known : Bool} {found : Found} (search : Search v clust known found) :
    ∃ enough, ∀ fuel ≥ enough, ∀ turns flags, flags.isSome = known →
      ∃ result w, (scanFree fuel turns clust flags).run v = (result, w) ∧ found.Gives result ∧
        SameSearch v w := by
  suffices general : ∀ w, SameSearch v w → w.fat.geometry.Layout →
      ∃ enough, ∀ fuel ≥ enough, ∀ turns flags, flags.isSome = known →
        ∀ u, SameSearch w u → ∃ result x, (scanFree fuel turns clust flags).run u = (result, x) ∧
          found.Gives result ∧ SameSearch u x by
    have refl : SameSearch v v := Volume.Agrees.refl.sameSearch ready
    obtain ⟨enough, all⟩ := general v refl layout
    exact ⟨enough, fun fuel many turns flags isKnown => all fuel many turns flags isKnown v refl⟩
  induction search with
  | full meets =>
      intro w same _
      refine ⟨1, ?_⟩
      rintro (_ | fuel) many turns flags - u same'
      · exact absurd many (by decide)
      · have both := same.trans same'
        have ends := scanFree_full (v := u) fuel turns _ flags
          (by rw [both.rewrites.geometry, both.lastUsed]; exact meets)
        exact ⟨_, _, ends, rfl, sameSearch_note (both.rewrites.geometry ▸ both.rewrites.ready) _⟩
  | @free clust _ differ zero =>
      intro w same _
      refine ⟨1, ?_⟩
      rintro (_ | fuel) many turns flags - u same'
      · exact absurd many (by decide)
      · have both := same.trans same'
        have geometry := both.rewrites.geometry
        obtain ⟨x, same'', ends⟩ := scanFree_turn (v := u) (geometry ▸ layout) both.rewrites.ready
          fuel turns clust flags (by rw [geometry, both.lastUsed]; exact differ)
        have link := both.rewrites.link (nextClust_inFat layout clust)
        rw [geometry, link, zero, clustFlags_free.mpr rfl] at ends
        exact ⟨_, x, ends, rfl, same''⟩
  | @invalid clust known differ none =>
      intro w same _
      refine ⟨1, ?_⟩
      rintro (_ | fuel) many turns flags isKnown u same'
      · exact absurd many (by decide)
      · have both := same.trans same'
        have geometry := both.rewrites.geometry
        obtain ⟨x, same'', ends⟩ := scanFree_turn (v := u) (geometry ▸ layout) both.rewrites.ready
          fuel turns clust flags (by rw [geometry, both.lastUsed]; exact differ)
        have link := both.rewrites.link (nextClust_inFat layout clust)
        rw [geometry, link, none] at ends
        dsimp only at ends
        rw [returnFlags_run] at ends
        refine ⟨_, _, ends, ?_, same''.trans (sameSearch_note same''.rewrites.ready _)⟩
        cases flags with
        | none =>
            cases isKnown
            rfl
        | some flags =>
            cases isKnown
            exact ⟨_, rfl, flags.toInt_pos.ne'⟩
  | @pass clust known flags' found differ some notFree search ih =>
      intro w same layout'
      obtain ⟨enough, all⟩ := ih w same layout'
      refine ⟨enough + 1, ?_⟩
      rintro (_ | fuel) many turns flags isKnown u same'
      · exact absurd many (by omega)
      · have both := same.trans same'
        have geometry := both.rewrites.geometry
        obtain ⟨x, same'', ends⟩ := scanFree_turn (v := u) (geometry ▸ layout) both.rewrites.ready
          fuel turns clust flags (by rw [geometry, both.lastUsed]; exact differ)
        have link := both.rewrites.link (nextClust_inFat layout clust)
        rw [geometry, link, some] at ends
        obtain ⟨result, y, later, gives, same4⟩ := all fuel (by omega) (turns + 1) (.some flags') rfl x
          (same'.trans same'')
        refine ⟨result, y, ?_, gives, same''.trans same4⟩
        rw [ends, ← later]
        cases flags' with
        | free => exact absurd rfl notFree
        | used => rfl
        | last => rfl
        | bad => rfl

/-- What the driver sees is the same the other way round. -/
theorem SameSearch.symm (same : SameSearch v w) (ready : v.Ready v.fat.geometry.area) :
    SameSearch w v where
  rewrites := {
    ready := ready
    geometry := same.rewrites.geometry.symm
    entry := fun c inFat => (same.rewrites.entry c (same.rewrites.geometry ▸ inFat)).symm
    mirror := fun mirrored c inFat => (same.rewrites.mirror (same.rewrites.geometry ▸ mirrored) c
      (same.rewrites.geometry ▸ inFat)).symm
    data := fun _ member => (same.rewrites.data (same.rewrites.geometry ▸ member)).symm }
  lastUsed := same.lastUsed.symm

/-- The search ends if the code's loop does. -/
theorem search_of_scanFree (fuel : Nat) : ∀ {v w : Volume} {turns clust : Nat}
    {flags : Option ClustFlags} {result : Except Stop Nat}, v.fat.geometry.Layout →
    v.Ready v.fat.geometry.area → (scanFree fuel turns clust flags).run v = (result, w) →
    result ≠ .error .running → ∃ found, Search v clust flags.isSome found := by
  induction fuel with
  | zero =>
      intro v w turns clust flags result _ _ ends stopped
      rw [scanFree, run_gets_bind] at ends
      split at ends <;> exact absurd (congrArg Prod.fst ends).symm stopped
  | succ fuel ih =>
      intro v w turns clust flags result layout ready ends stopped
      by_cases meets : nextClust v.fat.geometry.clustCnt clust = v.fat.lastUsed
      · exact ⟨.full, .full meets⟩
      · obtain ⟨x, same, turn⟩ := scanFree_turn layout ready fuel turns clust flags meets
        have geometry := same.rewrites.geometry
        rw [turn] at ends
        have later : ∀ flags', clustFlags v.fat.geometry.clustCnt
              (v.link (nextClust v.fat.geometry.clustCnt clust)) = some flags' → flags' ≠ .free →
            (scanFree fuel (turns + 1) (nextClust v.fat.geometry.clustCnt clust)
              (some flags')).run x = (result, w) → ∃ found, Search v clust flags.isSome found := by
          intro flags' some notFree rest
          obtain ⟨found, search⟩ := ih (geometry ▸ layout) same.rewrites.ready rest stopped
          exact ⟨found, .pass meets some notFree
            (search.congr (geometry ▸ layout) (same.symm ready))⟩
        cases known : clustFlags v.fat.geometry.clustCnt
            (v.link (nextClust v.fat.geometry.clustCnt clust)) with
        | none => exact ⟨_, .invalid meets known⟩
        | some flags' =>
            rw [known] at ends
            cases flags' with
            | free => exact ⟨_, .free meets (clustFlags_free.mp known)⟩
            | used => exact later _ known (by decide) ends
            | last => exact later _ known (by decide) ends
            | bad => exact later _ known (by decide) ends

/-! ## The cluster that is taken -/

/-- What `stretch_chain` finds: the cluster behind the one that is stretched, or what the search
ends with. -/
inductive Picks (v : Volume) (prev : Nat) : Found → Prop where
  | create {found : Found} : prev = 0 → Search v v.fat.lastUsed false found → Picks v prev found
  | next : prev ≠ 0 → v.link (nextClust v.fat.geometry.clustCnt prev) = 0 →
      Picks v prev (.free (nextClust v.fat.geometry.clustCnt prev))
  | broken : prev ≠ 0 → clustFlags v.fat.geometry.clustCnt
      (v.link (nextClust v.fat.geometry.clustCnt prev)) = none → Picks v prev (.invalid true)
  | search {flags : ClustFlags} {found : Found} : prev ≠ 0 → clustFlags v.fat.geometry.clustCnt
      (v.link (nextClust v.fat.geometry.clustCnt prev)) = some flags → flags ≠ .free →
        Search v v.fat.lastUsed true found → Picks v prev found

theorem Picks.congr (layout : v.fat.geometry.Layout) (same : SameSearch v w) {prev : Nat}
    {found : Found} (picks : Picks v prev found) : Picks w prev found := by
  have geometry := same.rewrites.geometry
  have link := same.rewrites.link (nextClust_inFat layout prev)
  have lastUsed := same.lastUsed
  cases picks with
  | create zero search => exact .create zero (lastUsed ▸ search.congr layout same)
  | next stretching zero =>
      rw [← geometry]
      refine .next stretching ?_
      rw [geometry, link, zero]
  | broken stretching none =>
      refine .broken stretching ?_
      rw [geometry, link, none]
  | search stretching some notFree search =>
      refine .search stretching ?_ notFree (lastUsed ▸ search.congr layout same)
      rw [geometry, link, some]

/-- The cluster that is found is free and has an entry of the FAT. -/
theorem Search.free_spec (layout : v.fat.geometry.Layout) {clust c : Nat} {known : Bool}
    (search : Search v clust known (.free c)) : v.link c = 0 ∧ c < v.fat.geometry.clustCnt := by
  generalize isFree : Found.free c = found at search
  induction search with
  | full => cases isFree
  | free _ zero =>
      cases isFree
      exact ⟨zero, nextClust_lt layout.clusters.1 _⟩
  | invalid => cases isFree
  | pass _ _ _ _ ih => exact ih isFree

theorem Picks.free_spec (layout : v.fat.geometry.Layout) {prev c : Nat}
    (picks : Picks v prev (.free c)) : v.link c = 0 ∧ c < v.fat.geometry.clustCnt := by
  cases picks with
  | create _ search => exact search.free_spec layout
  | next _ zero => exact ⟨zero, nextClust_lt layout.clusters.1 _⟩
  | search _ _ _ search => exact search.free_spec layout

/-- The first look at the cluster behind the one that is stretched. -/
theorem findFree_look (layout : v.fat.geometry.Layout) (ready : v.Ready v.fat.geometry.area)
    {prev : Nat} (stretching : prev ≠ 0) :
    ∃ w, SameSearch v w ∧ ∀ fuel, (findFree fuel prev).run v =
      match clustFlags v.fat.geometry.clustCnt
          (v.link (nextClust v.fat.geometry.clustCnt prev)) with
      | none => (.error (.code errBroken), w)
      | some .free => (.ok (nextClust v.fat.geometry.clustCnt prev), w)
      | some flags => (scanFree fuel 0 v.fat.lastUsed (some flags)).run w := by
  obtain ⟨w, read, ready', agrees, -⟩ := getFat_spec layout ready (nextClust_inFat layout prev)
  refine ⟨w, agrees.sameSearch ready', fun fuel => ?_⟩
  rw [findFree, run_gets_bind]
  dsimp only
  rw [if_pos stretching, run_bind, read]
  cases known : clustFlags v.fat.geometry.clustCnt
      (v.link (nextClust v.fat.geometry.clustCnt prev)) with
  | none => rfl
  | some flags => cases flags <;> rfl

theorem findFree_create (fuel : Nat) :
    (findFree fuel 0).run v = (scanFree fuel 0 v.fat.lastUsed none).run v := rfl

/-- With enough fuel the code finds what there is to find. -/
theorem findFree_of_picks (layout : v.fat.geometry.Layout) (ready : v.Ready v.fat.geometry.area)
    {prev : Nat} {found : Found} (picks : Picks v prev found) :
    ∃ enough, ∀ fuel ≥ enough, ∃ result w, (findFree fuel prev).run v = (result, w) ∧
      found.Gives result ∧ SameSearch v w := by
  cases picks with
  | create zero search =>
      subst zero
      obtain ⟨enough, all⟩ := scanFree_of_search layout ready search
      exact ⟨enough, fun fuel many => all fuel many 0 none rfl⟩
  | next stretching zero =>
      obtain ⟨w, same, looked⟩ := findFree_look layout ready stretching
      rw [zero, clustFlags_free.mpr rfl] at looked
      exact ⟨0, fun fuel _ => ⟨_, w, looked fuel, rfl, same⟩⟩
  | broken stretching none =>
      obtain ⟨w, same, looked⟩ := findFree_look layout ready stretching
      rw [none] at looked
      exact ⟨0, fun fuel _ => ⟨_, w, looked fuel, ⟨errBroken, rfl, by decide⟩, same⟩⟩
  | @search flags _ stretching some notFree search =>
      obtain ⟨w, same, looked⟩ := findFree_look layout ready stretching
      have geometry := same.rewrites.geometry
      rw [some, ← same.lastUsed] at looked
      obtain ⟨enough, all⟩ := scanFree_of_search (geometry ▸ layout) same.rewrites.ready
        (same.lastUsed ▸ search.congr layout same)
      refine ⟨enough, fun fuel many => ?_⟩
      obtain ⟨result, x, ends, gives, same'⟩ := all fuel many 0 (.some flags) rfl
      refine ⟨result, x, ?_, gives, same.trans same'⟩
      rw [looked, ← ends]
      cases flags with
      | free => exact absurd rfl notFree
      | used => rfl
      | last => rfl
      | bad => rfl

/-- There is something to find if the code returns. -/
theorem picks_of_findFree (layout : v.fat.geometry.Layout) (ready : v.Ready v.fat.geometry.area)
    {fuel prev : Nat} {result : Except Stop Nat} (ends : (findFree fuel prev).run v = (result, w))
    (stopped : result ≠ .error .running) : ∃ found, Picks v prev found := by
  by_cases create : prev = 0
  · subst create
    rw [findFree_create] at ends
    obtain ⟨found, search⟩ := search_of_scanFree fuel layout ready ends stopped
    exact ⟨found, .create rfl search⟩
  · obtain ⟨x, same, looked⟩ := findFree_look layout ready create
    rw [looked fuel] at ends
    have later : ∀ flags, clustFlags v.fat.geometry.clustCnt
          (v.link (nextClust v.fat.geometry.clustCnt prev)) = some flags → flags ≠ .free →
        (scanFree fuel 0 v.fat.lastUsed (some flags)).run x = (result, w) →
        ∃ found, Picks v prev found := by
      intro flags some notFree rest
      obtain ⟨found, search⟩ := search_of_scanFree fuel (same.rewrites.geometry ▸ layout)
        same.rewrites.ready rest stopped
      exact ⟨found, .search create some notFree
        (search.congr (same.rewrites.geometry ▸ layout) (same.symm ready))⟩
    cases known : clustFlags v.fat.geometry.clustCnt
        (v.link (nextClust v.fat.geometry.clustCnt prev)) with
    | none => exact ⟨_, .broken create known⟩
    | some flags =>
        rw [known] at ends
        cases flags with
        | free => exact ⟨_, .next create (clustFlags_free.mp known)⟩
        | used => exact later _ known (by decide) ends
        | last => exact later _ known (by decide) ends
        | bad => exact later _ known (by decide) ends

/-! ## Taking it -/

/-- The new entries: the cluster ends its chain, and the one that is stretched leads to it. -/
def stretchedEntry (prev c d entry : Nat) : Nat :=
  if prev ≠ 0 ∧ d = prev then setLower c entry
  else if d = c then setLower 0x0FFFFFFF entry else entry

/-- The new entries if this is found. -/
def Found.newEntry (prev : Nat) : Found → Nat → Nat → Nat
  | free c => stretchedEntry prev c
  | full => fun _ entry => entry
  | invalid _ => fun _ entry => entry

theorem run_modifyFat_bind {β : Type} (f : Fat → Fat) (rest : Unit → FatM β) :
    (modifyFat f >>= rest).run v = (rest ()).run (v.withFat f) := rfl

/-- Nothing that the driver sees depends on the counters. -/
theorem rewrites_withFat (ready : v.Ready v.fat.geometry.area) {f : Fat → Fat}
    (geometry : (f v.fat).geometry = v.fat.geometry) (sect : (f v.fat).sect = v.fat.sect)
    (buf : (f v.fat).buf = v.fat.buf) (bufDirty : (f v.fat).bufDirty = v.fat.bufDirty) :
    Rewrites v (v.withFat f) fun _ entry => entry := by
  have view : (v.withFat f).view = v.view := by
    funext s
    change (if (f v.fat).sect = s then (f v.fat).buf else _) = _
    rw [sect, buf]
    rfl
  refine ⟨⟨ready.sound, ?_⟩, geometry, ?_, ?_, fun s _ => congrFun view s⟩
  · intro clean inside
    change v.disk.sectors (f v.fat).sect = (f v.fat).buf
    rw [sect, buf]
    exact ready.coherent (bufDirty ▸ clean) (sect ▸ geometry ▸ inside)
  · intro c _
    change entryAt _ (f v.fat).geometry.fatSect c = _
    rw [view, geometry]
    rfl
  · intro _ c _
    change entryAt _ (f v.fat).geometry.mirrorSect c = _
    rw [view, geometry]
    rfl

theorem linkFrom_spec (layout : v.fat.geometry.Layout) (ready : v.Ready v.fat.geometry.area)
    {prev : Nat} (inFat : v.fat.geometry.InFat prev) (c : Nat) :
    ∃ w, (linkFrom prev c).run v = (.ok (), w) ∧
      Rewrites v w fun d entry => if prev ≠ 0 ∧ d = prev then setLower c entry else entry := by
  unfold linkFrom
  by_cases stretching : prev ≠ 0
  · rw [if_pos stretching]
    obtain ⟨w, put, -, rewrites⟩ := putFat_spec layout ready inFat c
    exact ⟨w, put, rewrites.congr fun d entry => by
      simp only [ne_eq, stretching, not_false_eq_true, true_and]⟩
  · rw [if_neg stretching]
    refine ⟨v, rfl, (Volume.Agrees.refl.rewrites ready).congr fun d entry => ?_⟩
    rw [if_neg fun both => stretching both.1]

/-- **Stretching.** If there is something to find, enough fuel makes `stretch_chain` return the
cluster, after it wrote two entries, or an error, after it wrote nothing. -/
theorem stretchChain_spec (layout : v.fat.geometry.Layout) (ready : v.Ready v.fat.geometry.area)
    {prev : Nat} (inFat : v.fat.geometry.InFat prev) {found : Found} (picks : Picks v prev found)
    (differ : prev ≠ 0 → found ≠ .free prev) :
    ∃ enough, ∀ fuel ≥ enough, ∃ result w, (stretchChain fuel prev).run v = (result, w) ∧
      found.Gives result ∧ Rewrites v w (found.newEntry prev) := by
  have marked := rewrites_withFat ready (f := fun fat => { fat with infoDirty := true }) rfl rfl rfl rfl
  have same := SameSearch.mk marked rfl
  obtain ⟨enough, all⟩ := findFree_of_picks (marked.geometry.symm ▸ layout)
    same.rewrites.ready (picks.congr layout same)
  refine ⟨enough, fun fuel many => ?_⟩
  obtain ⟨result, u, found', gives, same'⟩ := all fuel many
  have geometry : u.fat.geometry = v.fat.geometry := same'.rewrites.geometry
  unfold stretchChain
  rw [run_modifyFat_bind]
  cases found with
  | full =>
      cases gives
      exact ⟨_, u, run_bind_error found', rfl, marked.trans same'.rewrites⟩
  | invalid known =>
      refine ⟨result, u, ?_, gives, marked.trans same'.rewrites⟩
      cases known with
      | false =>
          cases gives
          exact run_bind_error found'
      | true =>
          obtain ⟨err, rfl, -⟩ := gives
          exact run_bind_error found'
  | free c =>
      cases gives
      have inFat' : v.fat.geometry.InFat c :=
        Nat.div_le_div_right (Nat.le_sub_one_of_lt (picks.free_spec layout).2)
      obtain ⟨x, put, -, rewrites⟩ := putFat_spec (geometry ▸ layout) same'.rewrites.ready
        (geometry ▸ inFat') 0x0FFFFFFF
      have geometry' : x.fat.geometry = v.fat.geometry := rewrites.geometry.trans geometry
      obtain ⟨y, linked, rewrites'⟩ := linkFrom_spec (geometry' ▸ layout) rewrites.ready
        (geometry' ▸ inFat) c
      have counted := rewrites_withFat rewrites'.ready
        (f := fun fat => { fat with lastUsed := c, freeCnt := sub32 fat.freeCnt 1 }) rfl rfl rfl rfl
      obtain ⟨w, synced, -, rewrites''⟩ := syncFs_spec
        (counted.geometry ▸ rewrites'.geometry ▸ geometry' ▸ layout) counted.ready
      rw [run_bind_ok found', run_bind_ok put, run_bind_ok linked, run_modifyFat_bind]
      refine ⟨.ok c, w, run_bind_ok synced, rfl, ?_⟩
      refine (((((marked.trans same'.rewrites).trans rewrites).trans rewrites').trans
        counted).trans rewrites'').congr fun d entry => ?_
      change _ = stretchedEntry prev c d entry
      unfold stretchedEntry
      by_cases link : prev ≠ 0 ∧ d = prev
      · have other : d ≠ c := by
          rintro rfl
          exact differ link.1 (congrArg Found.free link.2)
        rw [if_pos link, if_pos link, if_neg other]
      · rw [if_neg link, if_neg link]

end NTux.Fat32
