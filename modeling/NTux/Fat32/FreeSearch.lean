import NTux.Fat32.Chains

/-! # Finding a free cluster

`stretch_chain` looks at the clusters behind `last_used` up to the count, and then from 2 on up
to `last_used`. It finds a free cluster exactly if there is one, and an end if there is none,
if the first entry on this way that is not in use is that of a free cluster, or there is none
and `last_used` is a cluster that is in use (`allocates_iff`). Nothing is asked of the sectors
but that the entries can be read.
-/

namespace NTux.Fat32

open NTux.Foundation Command

variable {v w : Volume} {area : Set Nat} {c fuel turns : Nat}

/-! ## The way around -/

/-- The clusters that the search looks at, in this order. -/
def walkOrder (clustCnt lastUsed : Nat) : List Nat :=
  List.range' (lastUsed + 1) (clustCnt - 1 - lastUsed) ++ List.range' 2 (min lastUsed clustCnt - 2)

/-- `last_used` as `fat_mount` may set it. -/
def Loaded (lastUsed : Nat) : Prop := ∃ buf, lastUsed = (mountInfo buf).1

theorem Loaded.lt {lastUsed : Nat} (loaded : Loaded lastUsed) : lastUsed < 2 ^ 32 - 1 := by
  obtain ⟨buf, rfl⟩ := loaded
  have bound := Memory.readLE_lt buf 492 4
  unfold mountInfo
  split_ifs
  · change 2 < 2 ^ 32 - 1
    decide
  · change buf.readLE 492 4 < 2 ^ 32 - 1
    omega
  · change 2 < 2 ^ 32 - 1
    decide

theorem nextClust_succ {clustCnt clust : Nat} (small : clust + 1 < clustCnt)
    (fits : clustCnt < 2 ^ 32) : nextClust clustCnt clust = clust + 1 := by
  rw [nextClust, u32_of_lt (by omega), if_neg (by omega)]

theorem nextClust_wrap {clustCnt clust : Nat} (large : clustCnt ≤ clust + 1)
    (fits : clust < 2 ^ 32 - 1) : nextClust clustCnt clust = 2 := by
  rw [nextClust, u32_of_lt (by omega), if_pos large]

/-- Each cluster of a list is the next one. -/
def Follows (clustCnt : Nat) : Nat → List Nat → Prop
  | _, [] => True
  | clust, c :: rest => nextClust clustCnt clust = c ∧ Follows clustCnt c rest

theorem follows_range {clustCnt clust : Nat} (fits : clustCnt < 2 ^ 32) (count : Nat)
    (small : clust + count < clustCnt) : Follows clustCnt clust (List.range' (clust + 1) count) := by
  induction count generalizing clust with
  | zero => trivial
  | succ count ih =>
      rw [List.range'_succ]
      exact ⟨nextClust_succ (by omega) fits, ih (by omega)⟩

theorem Follows.append {clustCnt clust : Nat} {xs ys : List Nat}
    (first : Follows clustCnt clust xs)
    (second : Follows clustCnt ((clust :: xs).getLast (List.cons_ne_nil _ _)) ys) :
    Follows clustCnt clust (xs ++ ys) := by
  induction xs generalizing clust with
  | nil => exact second
  | cons x xs ih => exact ⟨first.1, ih first.2 (by rwa [List.getLast_cons_cons] at second)⟩

/-- The cluster behind a part of a list. -/
theorem Follows.split {clustCnt clust : Nat} {xs ys : List Nat}
    (follows : Follows clustCnt clust (xs ++ c :: ys)) :
    Follows clustCnt clust xs ∧
      nextClust clustCnt ((clust :: xs).getLast (List.cons_ne_nil _ _)) = c := by
  induction xs generalizing clust with
  | nil => exact ⟨trivial, follows.1⟩
  | cons x xs ih =>
      obtain ⟨first, last⟩ := ih follows.2
      exact ⟨⟨follows.1, first⟩, by rwa [List.getLast_cons_cons]⟩

/-- The last cluster of the way. -/
theorem getLast_range' (clust count : Nat) :
    (clust :: List.range' (clust + 1) count).getLast (List.cons_ne_nil _ _) = clust + count := by
  induction count generalizing clust with
  | zero => rfl
  | succ count ih =>
      simp only [List.range'_succ, List.getLast_cons_cons, ih]
      omega

section Order

variable {clustCnt lastUsed : Nat} (some : 2 < clustCnt) (fits : clustCnt < 2 ^ 32)
  (small : lastUsed < 2 ^ 32 - 1)

include some fits small

theorem follows_walkOrder : Follows clustCnt lastUsed (walkOrder clustCnt lastUsed) := by
  by_cases inside : lastUsed < clustCnt
  · refine (follows_range fits _ (by omega)).append ?_
    rw [getLast_range']
    have last : lastUsed + (clustCnt - 1 - lastUsed) = clustCnt - 1 := by omega
    rw [last]
    cases count : min lastUsed clustCnt - 2 with
    | zero => trivial
    | succ n =>
        rw [List.range'_succ]
        exact ⟨nextClust_wrap (by omega) (by omega), follows_range fits n (by omega)⟩
  · have none : clustCnt - 1 - lastUsed = 0 := by omega
    obtain ⟨n, count⟩ : ∃ n, min lastUsed clustCnt - 2 = n + 1 := ⟨clustCnt - 3, by omega⟩
    unfold walkOrder
    rw [none, count, List.range'_zero, List.nil_append, List.range'_succ]
    exact ⟨nextClust_wrap (by omega) small, follows_range fits n (by omega)⟩

/-- Behind the way the search is at `last_used` again, or begins anew. -/
theorem nextClust_walkOrder :
    nextClust clustCnt ((lastUsed :: walkOrder clustCnt lastUsed).getLast (List.cons_ne_nil _ _)) =
      if 2 ≤ lastUsed ∧ lastUsed < clustCnt then lastUsed else 2 := by
  by_cases wraps : 2 < min lastUsed clustCnt
  · -- the way ends below `last_used`, or at the last cluster
    obtain ⟨n, count⟩ : ∃ n, min lastUsed clustCnt - 2 = n + 1 :=
      ⟨min lastUsed clustCnt - 3, by omega⟩
    have last : (lastUsed :: walkOrder clustCnt lastUsed).getLast (List.cons_ne_nil _ _) = 2 + n := by
      unfold walkOrder
      simp only [count, List.range'_concat, ← List.append_assoc, ← List.cons_append,
        List.getLast_concat]
      omega
    rw [last]
    by_cases inside : lastUsed < clustCnt
    · rw [if_pos (by omega), nextClust_succ (by omega) fits]
      omega
    · rw [if_neg (by omega), nextClust_wrap (by omega) (by omega)]
  · have none : min lastUsed clustCnt - 2 = 0 := by omega
    have last : (lastUsed :: walkOrder clustCnt lastUsed).getLast (List.cons_ne_nil _ _) =
        clustCnt - 1 := by
      unfold walkOrder
      simp only [none, List.range'_zero, List.append_nil, getLast_range']
      omega
    rw [last, nextClust_wrap (by omega) (by omega)]
    split_ifs with isClust
    · omega
    · rfl

omit some fits small in
theorem mem_walkOrder : c ∈ walkOrder clustCnt lastUsed ↔
    c < clustCnt ∧ c ≠ lastUsed ∧ (lastUsed < c ∨ 2 ≤ c) := by
  unfold walkOrder
  rw [List.mem_append, List.mem_range'_1, List.mem_range'_1]
  omega

end Order

/-! ## The search -/

/-- The entry of a cluster says that the cluster is not free. -/
def Occupied (v : Volume) (c : Nat) : Prop :=
  ∃ flags, clustFlags v.fat.geometry.clustCnt (v.seen c) = some flags ∧ flags ≠ .free

/-- The sectors have the entries of all clusters. -/
def Covers (area : Set Nat) (g : Geometry) : Prop := ∀ c < g.clustCnt, g.entrySect c ∈ area

theorem Volume.Agrees.seen (agrees : v.Agrees area w) (inside : v.fat.geometry.entrySect c ∈ area) :
    w.seen c = v.seen c :=
  Volume.seen_congr agrees.geometry (agrees.view inside)

theorem Volume.Agrees.occupied (agrees : v.Agrees area w)
    (inside : v.fat.geometry.entrySect c ∈ area) (occupied : Occupied v c) : Occupied w c := by
  obtain ⟨flags, known, notFree⟩ := occupied
  exact ⟨flags, by rw [agrees.geometry, agrees.seen inside, known], notFree⟩

theorem Volume.Agrees.lastUsed (agrees : v.Agrees area w) : w.fat.lastUsed = v.fat.lastUsed :=
  Volume.lastUsed_of_unbuffered agrees.unbuffered

/-- A turn of the search. -/
theorem scanFree_look (ready : v.Ready area) {clust : Nat} (fuel turns : Nat)
    (flags : Option ClustFlags)
    (inside : v.fat.geometry.entrySect (nextClust v.fat.geometry.clustCnt clust) ∈ area)
    (differ : nextClust v.fat.geometry.clustCnt clust ≠ v.fat.lastUsed) :
    ∃ w, w.Ready area ∧ v.Agrees area w ∧ (scanFree (fuel + 1) turns clust flags).run v =
      match clustFlags v.fat.geometry.clustCnt
          (v.seen (nextClust v.fat.geometry.clustCnt clust)) with
      | none => (returnFlags flags).run w
      | some .free => (.ok (nextClust v.fat.geometry.clustCnt clust), w)
      | some flags => (scanFree fuel (turns + 1)
          (nextClust v.fat.geometry.clustCnt clust) (some flags)).run w := by
  obtain ⟨w, read, ready', agrees, -⟩ := getFat_seen ready inside
  refine ⟨w, ready', agrees, ?_⟩
  rw [scanFree, run_gets_bind]
  dsimp only
  rw [if_neg differ]
  have attempted := run_attempt (getFat (nextClust v.fat.geometry.clustCnt clust)) v
  rw [read] at attempted
  rw [run_bind_ok attempted]
  cases known : clustFlags v.fat.geometry.clustCnt
      (v.seen (nextClust v.fat.geometry.clustCnt clust)) with
  | none => rfl
  | some flags => cases flags <;> rfl

/-- A turn at a cluster that is not free. -/
theorem scanFree_occupied (ready : v.Ready area) {clust : Nat} (fuel turns : Nat)
    (flags : Option ClustFlags)
    (inside : v.fat.geometry.entrySect (nextClust v.fat.geometry.clustCnt clust) ∈ area)
    (differ : nextClust v.fat.geometry.clustCnt clust ≠ v.fat.lastUsed)
    (occupied : Occupied v (nextClust v.fat.geometry.clustCnt clust)) :
    ∃ w flags', w.Ready area ∧ v.Agrees area w ∧ (scanFree (fuel + 1) turns clust flags).run v =
      (scanFree fuel (turns + 1) (nextClust v.fat.geometry.clustCnt clust) flags').run w := by
  obtain ⟨w, ready', agrees, turn⟩ := scanFree_look ready fuel turns flags inside differ
  obtain ⟨flags', known, notFree⟩ := occupied
  rw [known] at turn
  refine ⟨w, some flags', ready', agrees, ?_⟩
  rw [turn]
  cases flags' with
  | free => exact absurd rfl notFree
  | used => rfl
  | last => rfl
  | bad => rfl

/-- The search goes past clusters that are not free. -/
theorem scanFree_passes {xs : List Nat} (fuel : Nat) : ∀ {v : Volume} {turns clust : Nat}
    {flags : Option ClustFlags}, v.Ready area → Follows v.fat.geometry.clustCnt clust xs →
    (∀ x ∈ xs, x ≠ v.fat.lastUsed ∧ v.fat.geometry.entrySect x ∈ area ∧ Occupied v x) →
    ∃ w turns' flags', w.Ready area ∧ v.Agrees area w ∧
      (scanFree (fuel + xs.length) turns clust flags).run v =
        (scanFree fuel turns' ((clust :: xs).getLast (List.cons_ne_nil _ _)) flags').run w := by
  induction xs with
  | nil => exact fun ready _ _ => ⟨_, _, _, ready, .refl, rfl⟩
  | cons x xs ih =>
      intro v turns clust flags ready follows all
      obtain ⟨rfl, follows⟩ := follows
      obtain ⟨differ, inside, occupied⟩ := all _ List.mem_cons_self
      obtain ⟨u, flags', ready', agrees, turn⟩ :=
        scanFree_occupied ready (fuel + xs.length) turns flags inside differ occupied
      have geometry := agrees.geometry
      have later : ∀ y ∈ xs, y ≠ u.fat.lastUsed ∧ u.fat.geometry.entrySect y ∈ area ∧
          Occupied u y := by
        intro y member
        obtain ⟨differ', inside', occupied'⟩ := all y (List.mem_cons_of_mem _ member)
        exact ⟨agrees.lastUsed.symm ▸ differ', geometry.symm ▸ inside',
          agrees.occupied inside' occupied'⟩
      obtain ⟨w, turns', flags'', ready'', agrees', rest⟩ :=
        @ih u (turns + 1) (nextClust v.fat.geometry.clustCnt clust) flags' ready'
          (by rw [geometry]; exact follows) later
      refine ⟨w, turns', flags'', ready'', agrees.trans agrees', ?_⟩
      rw [List.getLast_cons_cons]
      exact turn.trans rest

/-- A search that meets neither `last_used` nor a free cluster does not end. -/
theorem scanFree_running (fuel : Nat) : ∀ {v : Volume} {turns clust : Nat}
    {flags : Option ClustFlags}, v.Ready area → 2 < v.fat.geometry.clustCnt →
    v.fat.geometry.clustCnt < 2 ^ 32 → 2 ≤ nextClust v.fat.geometry.clustCnt clust →
    (∀ c, v.fat.geometry.IsClust c →
      c ≠ v.fat.lastUsed ∧ v.fat.geometry.entrySect c ∈ area ∧ Occupied v c) →
    ((scanFree fuel turns clust flags).run v).1 = .error .running := by
  induction fuel with
  | zero =>
      intro v turns clust flags _ _ _ _ _
      rw [scanFree, run_gets_bind]
      split <;> rfl
  | succ fuel ih =>
      intro v turns clust flags ready some fits low all
      have high := nextClust_lt some clust
      obtain ⟨differ, inside, occupied⟩ := all _ ⟨low, high⟩
      obtain ⟨w, flags', ready', agrees, turn⟩ :=
        scanFree_occupied ready fuel turns flags inside differ occupied
      have geometry := agrees.geometry
      rw [turn]
      refine ih ready' (geometry.symm ▸ some) (geometry.symm ▸ fits) ?_ fun c isClust => ?_
      · rw [geometry]
        by_cases last : nextClust v.fat.geometry.clustCnt clust + 1 < v.fat.geometry.clustCnt
        · rw [nextClust_succ last fits]
          omega
        · rw [nextClust_wrap (by omega) (by omega)]
      · rw [geometry] at isClust
        obtain ⟨differ', inside', occupied'⟩ := all c isClust
        exact ⟨agrees.lastUsed.symm ▸ differ', geometry.symm ▸ inside',
          agrees.occupied inside' occupied'⟩

/-- What is asked of a volume for the search. -/
structure Searchable (area : Set Nat) (v : Volume) : Prop where
  ready : v.Ready area
  covers : Covers area v.fat.geometry
  clusters : 2 < v.fat.geometry.clustCnt
  fits : v.fat.geometry.clustCnt < 2 ^ 32
  small : v.fat.lastUsed < 2 ^ 32 - 1

/-- The way of the search. -/
def Volume.order (v : Volume) : List Nat := walkOrder v.fat.geometry.clustCnt v.fat.lastUsed

namespace Searchable

variable (searchable : Searchable area v)

include searchable

theorem follows_order : Follows v.fat.geometry.clustCnt v.fat.lastUsed v.order :=
  follows_walkOrder searchable.clusters searchable.fits searchable.small

theorem mem_order (member : c ∈ v.order) : c ≠ v.fat.lastUsed ∧ v.fat.geometry.entrySect c ∈ area := by
  obtain ⟨small, differ, -⟩ := mem_walkOrder.mp member
  exact ⟨differ, searchable.covers c small⟩

omit searchable in
/-- The clusters are on the way, but for `last_used`. -/
theorem isClust_order (isClust : v.fat.geometry.IsClust c) (differ : c ≠ v.fat.lastUsed) :
    c ∈ v.order := mem_walkOrder.mpr ⟨isClust.2, differ, .inr isClust.1⟩

/-- The search comes to the first cluster that is not occupied. -/
theorem scanFree_first {before after : List Nat} (split : v.order = before ++ c :: after)
    (occupied : ∀ x ∈ before, Occupied v x) (fuel : Nat) (flags : Option ClustFlags) :
    ∃ w flags', w.Ready area ∧ v.Agrees area w ∧
      ((clustFlags v.fat.geometry.clustCnt (v.seen c) = some .free →
          (scanFree (fuel + 1 + before.length) 0 v.fat.lastUsed flags).run v = (.ok c, w)) ∧
        (clustFlags v.fat.geometry.clustCnt (v.seen c) = none →
          (scanFree (fuel + 1 + before.length) 0 v.fat.lastUsed flags).run v =
            (returnFlags flags').run w)) := by
  have member {x : Nat} (there : x ∈ before ++ c :: after) := searchable.mem_order (split ▸ there)
  obtain ⟨follows, next⟩ := (split ▸ searchable.follows_order).split
  obtain ⟨u, turns, flags', ready, agrees, passed⟩ := @scanFree_passes area before (fuel + 1) v 0 _
    flags searchable.ready follows fun x there =>
      ⟨(member (List.mem_append_left _ there)).1, (member (List.mem_append_left _ there)).2,
        occupied x there⟩
  obtain ⟨differ, inside⟩ := member (List.mem_append_right before List.mem_cons_self)
  have geometry := agrees.geometry
  rw [← geometry] at next
  obtain ⟨w, ready', agrees', turn⟩ := scanFree_look ready fuel turns flags'
    (by rw [next, geometry]; exact inside) (by rw [next, agrees.lastUsed]; exact differ)
  rw [next, geometry, agrees.seen inside] at turn
  refine ⟨w, flags', ready', agrees.trans agrees', fun free => ?_, fun broken => ?_⟩
  · rw [passed, turn, free]
  · rw [passed, turn, broken]

/-- Where all clusters are occupied, the search ends at `last_used`, or not at all. -/
theorem scanFree_none (occupied : ∀ x ∈ v.order, Occupied v x) (flags : Option ClustFlags) :
    (v.fat.geometry.IsClust v.fat.lastUsed → ∀ fuel, ∃ w, w.Ready area ∧ v.Agrees area w ∧
      (scanFree (fuel + 1 + v.order.length) 0 v.fat.lastUsed flags).run v =
        (.error (.code errFull), w)) ∧
    (¬ v.fat.geometry.IsClust v.fat.lastUsed → ∀ fuel,
      ((scanFree (fuel + v.order.length) 0 v.fat.lastUsed flags).run v).1 = .error .running) := by
  have passes (fuel : Nat) := @scanFree_passes area v.order fuel v 0 _ flags searchable.ready
    searchable.follows_order fun x member =>
      ⟨(searchable.mem_order member).1, (searchable.mem_order member).2, occupied x member⟩
  have next := nextClust_walkOrder searchable.clusters searchable.fits searchable.small
  constructor
  · intro isClust fuel
    obtain ⟨w, turns, flags', ready, agrees, passed⟩ := passes (fuel + 1)
    refine ⟨w.note .full, ⟨ready.sound, ready.coherent⟩, ⟨agrees.view, agrees.unbuffered⟩, ?_⟩
    rw [passed]
    refine scanFree_full fuel turns _ flags' ?_
    rw [agrees.geometry, agrees.lastUsed]
    exact next.trans (if_pos isClust)
  · intro isClust fuel
    obtain ⟨w, turns, flags', ready, agrees, passed⟩ := passes fuel
    rw [passed]
    have geometry := agrees.geometry
    refine scanFree_running fuel ready (geometry.symm ▸ searchable.clusters)
      (geometry.symm ▸ searchable.fits) ?_ fun c isClust' => ?_
    · rw [geometry]
      exact (next.trans (if_neg isClust)).ge
    · rw [geometry] at isClust'
      have differ : c ≠ v.fat.lastUsed := by
        rintro rfl
        exact isClust isClust'
      have inside := searchable.covers c isClust'.2
      exact ⟨agrees.lastUsed.symm ▸ differ, geometry.symm ▸ inside,
        agrees.occupied inside (occupied c (isClust_order isClust' differ))⟩

end Searchable

/-! ## What the search finds -/

/-- All members of a list have a property, or there is a first one that does not. -/
theorem all_or_first {α : Type} (holds : α → Prop) (xs : List α) : (∀ x ∈ xs, holds x) ∨
    ∃ before x after, xs = before ++ x :: after ∧ (∀ y ∈ before, holds y) ∧ ¬ holds x := by
  induction xs with
  | nil => exact .inl fun x member => absurd member List.not_mem_nil
  | cons x xs ih =>
      by_cases first : holds x
      · rcases ih with all | ⟨before, y, after, rfl, all, fails⟩
        · exact .inl (List.forall_mem_cons.mpr ⟨first, all⟩)
        · exact .inr ⟨x :: before, y, after, rfl, List.forall_mem_cons.mpr ⟨first, all⟩, fails⟩
      · exact .inr ⟨[], x, xs, rfl, fun y member => absurd member List.not_mem_nil, first⟩

theorem first_unique {α : Type} {holds : α → Prop} {before before' after after' : List α} {x y : α}
    (same : before ++ x :: after = before' ++ y :: after') (all : ∀ z ∈ before, holds z)
    (fails : ¬ holds x) (all' : ∀ z ∈ before', holds z) (fails' : ¬ holds y) : x = y := by
  induction before generalizing before' with
  | nil =>
      cases before' with
      | nil => exact (List.cons.inj same).1
      | cons z before' =>
          obtain ⟨rfl, -⟩ := List.cons.inj same
          exact absurd (all' _ List.mem_cons_self) fails
  | cons z before ih =>
      cases before' with
      | nil =>
          obtain ⟨rfl, -⟩ := List.cons.inj same
          exact absurd (all _ List.mem_cons_self) fails'
      | cons z' before' =>
          exact ih (List.cons.inj same).2 (fun u member => all u (List.mem_cons_of_mem _ member))
            fun u member => all' u (List.mem_cons_of_mem _ member)

/-- The first entry on the way that does not say that a cluster is in use is that of a free one;
or there is none, and `last_used` is a cluster that is not free. -/
inductive FindsRoom (v : Volume) : Prop where
  | room {before after : List Nat} {c : Nat} : v.order = before ++ c :: after →
      (∀ x ∈ before, Occupied v x) → v.seen c = 0 → 2 ≤ c → FindsRoom v
  | full : (∀ x ∈ v.order, Occupied v x) → v.fat.geometry.IsClust v.fat.lastUsed →
      v.seen v.fat.lastUsed ≠ 0 → FindsRoom v

/-- It is right to return this. -/
structure Picked (v : Volume) (result : Except Stop Nat) : Prop where
  full : result = .error (.code errFull) ↔ ∀ c, v.fat.geometry.IsClust c → v.seen c ≠ 0
  taken : result ≠ .error (.code errFull) →
    ∃ c, result = .ok c ∧ v.fat.geometry.IsClust c ∧ v.seen c = 0

theorem Occupied.ne_zero (occupied : Occupied v c) : v.seen c ≠ 0 := by
  obtain ⟨flags, known, notFree⟩ := occupied
  intro zero
  rw [zero, clustFlags_free.mpr rfl] at known
  exact notFree (Option.some.inj known).symm

theorem picked_ok : Picked v (.ok c) ↔ v.fat.geometry.IsClust c ∧ v.seen c = 0 := by
  constructor
  · intro picked
    obtain ⟨d, equal, free⟩ := picked.taken nofun
    cases equal
    exact free
  · intro free
    exact ⟨⟨nofun, fun none => absurd free.2 (none c free.1)⟩, fun _ => ⟨c, rfl, free⟩⟩

theorem picked_full : Picked v (.error (.code errFull)) ↔
    ∀ c, v.fat.geometry.IsClust c → v.seen c ≠ 0 :=
  ⟨fun picked => picked.full.mp rfl, fun none => ⟨iff_of_true rfl none, fun differ => absurd rfl differ⟩⟩

theorem not_picked {stopped : Stop} (differ : stopped ≠ .code errFull) :
    ¬ Picked v (.error stopped) := by
  intro picked
  obtain ⟨c, equal, -⟩ := picked.taken fun equal => differ (Except.error.inj equal)
  cases equal

/-- An entry that is neither free nor in use is none. -/
theorem clustFlags_of_not_occupied (fails : ¬ Occupied v c) (used : v.seen c ≠ 0) :
    clustFlags v.fat.geometry.clustCnt (v.seen c) = none := by
  cases known : clustFlags v.fat.geometry.clustCnt (v.seen c) with
  | none => rfl
  | some flags =>
      refine absurd ⟨flags, known, ?_⟩ fails
      rintro rfl
      exact used (clustFlags_free.mp known)

/-- What a search leaves behind: the disk has no faults if a cluster was found, and the entries are
the same if there is none. -/
structure Searched (area : Set Nat) (v : Volume) (result : Except Stop Nat) (w : Volume) :
    Prop where
  sound : ∀ c, result = .ok c → w.disk.Sound
  agrees : result = .error (.code errFull) → Set.EqOn w.view v.view area

theorem flags_ne_full (flags : Option ClustFlags) :
    (match flags with
      | some flags => Stop.code flags.toInt
      | none => .undefined) ≠ .code errFull := by
  cases flags with
  | none => nofun
  | some flags => cases flags <;> decide

/-- **The search.** It is right to return what it ends with if it finds room. -/
theorem scanFree_ends (searchable : Searchable area v) (flags : Option ClustFlags) :
    ∃ enough, ∀ fuel ≥ enough, ∃ result w,
      (scanFree fuel 0 v.fat.lastUsed flags).run v = (result, w) ∧
        (Picked v result ↔ FindsRoom v) ∧ Searched area v result w := by
  rcases all_or_first (Occupied v) v.order with occupied | ⟨before, c, after, split, occupied, fails⟩
  · obtain ⟨ends, runs⟩ := searchable.scanFree_none occupied flags
    have noRoom {before after : List Nat} {c : Nat} (split : v.order = before ++ c :: after) :
        v.seen c ≠ 0 := (occupied c (split ▸ by simp)).ne_zero
    by_cases isClust : v.fat.geometry.IsClust v.fat.lastUsed
    · refine ⟨1 + v.order.length, fun fuel many => ?_⟩
      obtain ⟨more, rfl⟩ := Nat.exists_eq_add_of_le' many
      obtain ⟨w, ready, agrees, ended⟩ := ends isClust more
      rw [Nat.add_assoc] at ended
      refine ⟨_, w, ended, ?_, nofun, fun _ => agrees.view⟩
      rw [picked_full]
      constructor
      · exact fun none => .full occupied isClust (none _ isClust)
      · intro room c isClust'
        by_cases last : c = v.fat.lastUsed
        · cases room with
          | room split _ free => exact absurd free (noRoom split)
          | full _ _ used => exact last ▸ used
        · exact (occupied c (Searchable.isClust_order isClust' last)).ne_zero
    · refine ⟨v.order.length, fun fuel many => ?_⟩
      obtain ⟨more, rfl⟩ := Nat.exists_eq_add_of_le' many
      refine ⟨_, _, Prod.ext (runs isClust more) rfl, iff_of_false (not_picked nofun) ?_, nofun,
        nofun⟩
      intro room
      cases room with
      | room split _ free => exact noRoom split free
      | full _ isClust' => exact isClust isClust'
  · refine ⟨1 + before.length, fun fuel many => ?_⟩
    obtain ⟨more, rfl⟩ := Nat.exists_eq_add_of_le' many
    obtain ⟨w, flags', ready, agrees, found, broken⟩ :=
      searchable.scanFree_first split occupied more flags
    rw [Nat.add_assoc] at found broken
    have only : FindsRoom v ↔ v.seen c = 0 ∧ 2 ≤ c := by
      constructor
      · intro room
        cases room with
        | room split' occupied' free low =>
            obtain rfl := first_unique (split.symm.trans split') occupied fails occupied'
              fun inUse => inUse.ne_zero free
            exact ⟨free, low⟩
        | full all => exact absurd (all c (split ▸ by simp)) fails
      · exact fun both => .room split occupied both.1 both.2
    have small : c < v.fat.geometry.clustCnt := (mem_walkOrder.mp (split ▸ by simp : c ∈ v.order)).1
    by_cases free : v.seen c = 0
    · refine ⟨_, w, found (clustFlags_free.mpr free), ?_, fun _ _ => ready.sound, nofun⟩
      rw [picked_ok, only]
      exact ⟨fun both => ⟨both.2, both.1.1⟩, fun both => ⟨⟨both.2, small⟩, both.1⟩⟩
    · have ended := broken (clustFlags_of_not_occupied fails free)
      rw [returnFlags_run] at ended
      have other := flags_ne_full flags'
      exact ⟨_, _, ended, iff_of_false (not_picked other) fun room => free (only.mp room).1, nofun,
        fun equal => absurd (Except.error.inj equal) other⟩

/-! ## Allocating -/

/-- Where `stretch_chain` looks first there is a free cluster, or one in use and the search finds
room. -/
inductive Fits (v : Volume) (prev : Nat) : Prop where
  | create : prev = 0 → FindsRoom v → Fits v prev
  | next : prev ≠ 0 → v.seen (nextClust v.fat.geometry.clustCnt prev) = 0 →
      2 ≤ nextClust v.fat.geometry.clustCnt prev → Fits v prev
  | search : prev ≠ 0 → Occupied v (nextClust v.fat.geometry.clustCnt prev) → FindsRoom v →
      Fits v prev

theorem FindsRoom.congr (agrees : v.Agrees area w) (covers : Covers area v.fat.geometry) :
    FindsRoom w → FindsRoom v := by
  have geometry := agrees.geometry
  have order : w.order = v.order := by
    unfold Volume.order
    rw [geometry, agrees.lastUsed]
  have seen {x : Nat} (small : x < v.fat.geometry.clustCnt) : w.seen x = v.seen x :=
    agrees.seen (covers x small)
  have member {x : Nat} (there : x ∈ w.order) : x < v.fat.geometry.clustCnt :=
    (mem_walkOrder.mp (order ▸ there : x ∈ v.order)).1
  have occupied {x : Nat} (small : x < v.fat.geometry.clustCnt) (inUse : Occupied w x) :
      Occupied v x := by
    obtain ⟨flags, known, notFree⟩ := inUse
    exact ⟨flags, by rw [← seen small, ← geometry, known], notFree⟩
  intro room
  cases room with
  | @room before after c split all free low =>
      have inside {x : Nat} (there : x ∈ before ++ c :: after) : x < v.fat.geometry.clustCnt :=
        member (split ▸ there)
      refine .room (order ▸ split) (fun x there => ?_) ?_ low
      · exact occupied (inside (List.mem_append_left _ there)) (all x there)
      · rw [← seen (inside (by simp)), free]
  | full all isClust used =>
      rw [geometry, agrees.lastUsed] at isClust
      rw [agrees.lastUsed, seen isClust.2] at used
      exact .full (fun x there => occupied (member (order ▸ there)) (all x (order ▸ there))) isClust
        used

theorem Volume.Agrees.symm (agrees : v.Agrees area w) : w.Agrees area v :=
  ⟨agrees.view.symm, agrees.unbuffered.symm⟩

theorem findsRoom_congr (agrees : v.Agrees area w) (covers : Covers area v.fat.geometry) :
    FindsRoom w ↔ FindsRoom v :=
  ⟨.congr agrees covers, .congr agrees.symm (agrees.geometry.symm ▸ covers)⟩

theorem Picked.congr (agrees : v.Agrees area w) (covers : Covers area v.fat.geometry)
    {result : Except Stop Nat} (picked : Picked w result) : Picked v result := by
  have geometry := agrees.geometry
  have seen {x : Nat} (isClust : v.fat.geometry.IsClust x) : w.seen x = v.seen x :=
    agrees.seen (covers x isClust.2)
  obtain ⟨full, taken⟩ := picked
  rw [geometry] at full taken
  refine ⟨full.trans ?_, fun differ => ?_⟩
  · exact forall₂_congr fun x isClust => by rw [seen isClust]
  · obtain ⟨x, equal, isClust, free⟩ := taken differ
    exact ⟨x, equal, isClust, seen isClust ▸ free⟩

theorem picked_congr (agrees : v.Agrees area w) (covers : Covers area v.fat.geometry)
    {result : Except Stop Nat} : Picked w result ↔ Picked v result :=
  ⟨.congr agrees covers, .congr agrees.symm (agrees.geometry.symm ▸ covers)⟩

/-- Where a chain is stretched, the cluster behind its end is looked at first. -/
theorem findFree_first (ready : v.Ready area) {prev : Nat} (stretching : prev ≠ 0)
    (inside : v.fat.geometry.entrySect (nextClust v.fat.geometry.clustCnt prev) ∈ area) :
    ∃ w, w.Ready area ∧ v.Agrees area w ∧ ∀ fuel, (findFree fuel prev).run v =
      match clustFlags v.fat.geometry.clustCnt
          (v.seen (nextClust v.fat.geometry.clustCnt prev)) with
      | none => (.error (.code errBroken), w)
      | some .free => (.ok (nextClust v.fat.geometry.clustCnt prev), w)
      | some flags => (scanFree fuel 0 w.fat.lastUsed (some flags)).run w := by
  obtain ⟨w, read, ready', agrees, -⟩ := getFat_seen ready inside
  refine ⟨w, ready', agrees, fun fuel => ?_⟩
  rw [findFree, run_gets_bind]
  dsimp only
  rw [if_pos stretching, run_bind, read, agrees.lastUsed]
  cases clustFlags v.fat.geometry.clustCnt (v.seen (nextClust v.fat.geometry.clustCnt prev)) with
  | none => rfl
  | some flags => cases flags <;> rfl

/-- **The first look and the search.** -/
theorem findFree_ends (searchable : Searchable area v) (prev : Nat) :
    ∃ enough, ∀ fuel ≥ enough, ∃ result w, (findFree fuel prev).run v = (result, w) ∧
      (Picked v result ↔ Fits v prev) ∧ Searched area v result w := by
  by_cases create : prev = 0
  · subst create
    have only : Fits v 0 ↔ FindsRoom v := by
      refine ⟨fun fits => ?_, .create rfl⟩
      cases fits with
      | create _ room => exact room
      | next stretching => exact absurd rfl stretching
      | search stretching => exact absurd rfl stretching
    rw [only]
    exact scanFree_ends searchable none
  · have small := nextClust_lt searchable.clusters prev
    have inside := searchable.covers _ small
    obtain ⟨w, ready, agrees, looked⟩ := findFree_first searchable.ready create inside
    have geometry := agrees.geometry
    by_cases free : v.seen (nextClust v.fat.geometry.clustCnt prev) = 0
    · rw [clustFlags_free.mpr free] at looked
      refine ⟨0, fun fuel _ => ⟨_, w, looked fuel, ?_, fun _ _ => ready.sound, nofun⟩⟩
      rw [picked_ok]
      constructor
      · exact fun both => .next create free both.1.1
      · intro fits
        cases fits with
        | create zero => exact absurd zero create
        | next _ _ low => exact ⟨⟨low, small⟩, free⟩
        | search _ occupied => exact absurd free occupied.ne_zero
    · by_cases occupied : Occupied v (nextClust v.fat.geometry.clustCnt prev)
      · have later : Searchable area w :=
          ⟨ready, geometry.symm ▸ searchable.covers, geometry.symm ▸ searchable.clusters,
            geometry.symm ▸ searchable.fits, agrees.lastUsed.symm ▸ searchable.small⟩
        obtain ⟨flags, known, notFree⟩ := occupied
        rw [known] at looked
        obtain ⟨enough, all⟩ := scanFree_ends later (some flags)
        refine ⟨enough, fun fuel many => ?_⟩
        obtain ⟨result, u, ended, picked, searched⟩ := all fuel many
        have looked' : (findFree fuel prev).run v = (result, u) := by
          rw [looked, ← ended]
          cases flags with
          | free => exact absurd rfl notFree
          | used => rfl
          | last => rfl
          | bad => rfl
        have only : Fits v prev ↔ FindsRoom v := by
          refine ⟨fun fits => ?_, .search create ⟨flags, known, notFree⟩⟩
          cases fits with
          | create zero => exact absurd zero create
          | next _ free' => exact absurd free' free
          | search _ _ room => exact room
        refine ⟨result, u, looked', ?_, searched.sound, fun full => ?_⟩
        · rw [only, ← findsRoom_congr agrees searchable.covers, ← picked,
            picked_congr agrees searchable.covers]
        · exact (searched.agrees full).trans agrees.view
      · have none := clustFlags_of_not_occupied occupied free
        rw [none] at looked
        refine ⟨0, fun fuel _ => ⟨_, w, looked fuel, iff_of_false (not_picked (by decide)) ?_, nofun,
          fun equal => absurd equal (by decide)⟩⟩
        intro fits
        cases fits with
        | create zero => exact create zero
        | next _ free' => exact free free'
        | search _ inUse => exact occupied inUse

/-- A change of an entry on a disk without faults. -/
theorem putFat2_sound (sound : v.disk.Sound) (fatSect c val : Nat) :
    ∃ w, (putFat2 fatSect c val).run v = (.ok (), w) ∧ w.disk.Sound := by
  have ready : v.Ready ∅ := ⟨sound, fun _ inside => absurd inside (Set.notMem_empty _)⟩
  obtain ⟨u, moved, ready', -⟩ := updateBuf_spec ready (u32 (fatSect + c / 128))
  obtain ⟨w, edited, ready'', -⟩ := @editBuf_run ∅ u (putEntry c val)
  refine ⟨w, ?_, (ready'' ready'.sound).sound⟩
  unfold putFat2
  rw [run_bind_ok moved, edited]

theorem putFat_sound (sound : v.disk.Sound) (c val : Nat) :
    ∃ w, (putFat c val).run v = (.ok (), w) ∧ w.disk.Sound := by
  unfold putFat
  rw [run_gets_bind]
  split
  · obtain ⟨u, first, sound'⟩ := putFat2_sound sound v.fat.geometry.mirrorSect c val
    obtain ⟨w, second, sound''⟩ := putFat2_sound sound' v.fat.geometry.fatSect c val
    exact ⟨w, by rw [run_bind_ok first, second], sound''⟩
  · exact putFat2_sound sound _ c val

theorem linkFrom_sound (sound : v.disk.Sound) (prev c : Nat) :
    ∃ w, (linkFrom prev c).run v = (.ok (), w) ∧ w.disk.Sound := by
  unfold linkFrom
  split
  · exact putFat_sound sound prev c
  · exact ⟨v, rfl, sound⟩

theorem syncFs_sound (sound : v.disk.Sound) : ∃ w, syncFs.run v = (.ok (), w) := by
  have ready : v.Ready ∅ := ⟨sound, fun _ inside => absurd inside (Set.notMem_empty _)⟩
  obtain ⟨u, synced, ready', -⟩ := syncBuf_spec ready
  unfold syncFs
  rw [run_bind_ok synced, run_gets_bind]
  split
  · obtain ⟨x, moved, ready'', -⟩ := updateBuf_spec ready' u.fat.geometry.infoSect
    obtain ⟨y, edited, ready3, -⟩ := @editBuf_run ∅ x fun buf =>
      (buf.writeLE 492 4 x.fat.lastUsed).writeLE 488 4 x.fat.freeCnt
    obtain ⟨z, flushed, -⟩ := syncBuf_spec (ready3 ready''.sound)
    rw [run_bind_ok moved, run_gets_bind, run_bind_ok edited, run_bind_ok flushed]
    exact ⟨_, rfl⟩
  · exact ⟨u, rfl⟩

/-- The volume when `stretch_chain` looks for a cluster. -/
def Volume.marked (v : Volume) : Volume := v.withFat fun fat => { fat with infoDirty := true }

/-- `stretch_chain` returns what it has found. -/
theorem stretchChain_found {prev : Nat} {result : Except Stop Nat} {u : Volume}
    (found : (findFree fuel prev).run v.marked = (result, u)) (sound : ∀ c, result = .ok c →
      u.disk.Sound) :
    ∃ w, (stretchChain fuel prev).run v = (result, w) ∧ (result = .error (.code errFull) → w = u) := by
  unfold stretchChain
  rw [run_modifyFat_bind]
  cases result with
  | error stopped => exact ⟨u, run_bind_error found, fun _ => rfl⟩
  | ok c =>
      obtain ⟨x, put, sound'⟩ := putFat_sound (sound c rfl) c 0x0FFFFFFF
      obtain ⟨y, linked, sound''⟩ := linkFrom_sound sound' prev c
      obtain ⟨w, synced⟩ := @syncFs_sound
        (y.withFat fun fat => { fat with lastUsed := c, freeCnt := sub32 fat.freeCnt 1 }) sound''
      refine ⟨w, (run_bind_ok found).trans ?_, nofun⟩
      rw [run_bind_ok put, run_bind_ok linked, run_modifyFat_bind, run_bind_ok synced]
      rfl

/-- The search does not depend on the flag. -/
theorem fits_marked {prev : Nat} : Fits v.marked prev ↔ Fits v prev := by
  have room : FindsRoom v.marked ↔ FindsRoom v := by
    constructor
    · intro room
      cases room with
      | room split all free low => exact .room split all free low
      | full all isClust used => exact .full all isClust used
    · intro room
      cases room with
      | room split all free low => exact .room split all free low
      | full all isClust used => exact .full all isClust used
  constructor
  · intro fits
    cases fits with
    | create zero found => exact .create zero (room.mp found)
    | next stretching free low => exact .next stretching free low
    | search stretching occupied found => exact .search stretching occupied (room.mp found)
  · intro fits
    cases fits with
    | create zero found => exact .create zero (room.mpr found)
    | next stretching free low => exact .next stretching free low
    | search stretching occupied found => exact .search stretching occupied (room.mpr found)

/-- The sectors of both copies of the FAT, as far as there are entries of clusters. -/
def Geometry.fatSectors (g : Geometry) : Set Nat := {sect | ∃ c < g.clustCnt,
  sect = g.entrySect c ∨ g.Mirrored ∧ sect = u32 (g.mirrorSect + c / 128)}

/-- Enough fuel makes `stretch_chain` return a cluster that was free, or, exactly if there is
none, `FAT_ERR_FULL`, and the FAT is as it was then. -/
def Allocates (v : Volume) (prev : Nat) : Prop :=
  ∃ enough, ∀ fuel ≥ enough, ∃ result w, (stretchChain fuel prev).run v = (result, w) ∧
    Picked v result ∧
    (result = .error (.code errFull) → Set.EqOn w.view v.view v.fat.geometry.fatSectors)

/-- **Allocating.** A cluster is allocated if there is one, exactly if the first looks find it. -/
theorem allocates_iff (loaded : Loaded v.fat.lastUsed)
    (clusters : 2 < v.fat.geometry.clustCnt ∧ v.fat.geometry.clustCnt < 2 ^ 32)
    (ready : v.Ready v.fat.geometry.fatSectors) (prev : Nat) : Allocates v prev ↔ Fits v prev := by
  have searchable : Searchable v.fat.geometry.fatSectors v.marked :=
    ⟨⟨ready.sound, ready.coherent⟩, fun c small => ⟨c, small, .inl rfl⟩, clusters.1, clusters.2,
      loaded.lt⟩
  obtain ⟨enough, all⟩ := findFree_ends searchable prev
  have picked {result : Except Stop Nat} : Picked v.marked result ↔ Picked v result :=
    ⟨fun picked => ⟨picked.full, picked.taken⟩, fun picked => ⟨picked.full, picked.taken⟩⟩
  constructor
  · rintro ⟨enough', allocates⟩
    obtain ⟨result, u, found, right, searched⟩ := all (max enough enough') (le_max_left _ _)
    obtain ⟨w, stretched, -⟩ := stretchChain_found found searched.sound
    obtain ⟨result', w', stretched', picked', -⟩ := allocates (max enough enough') (le_max_right _ _)
    obtain ⟨rfl, -⟩ := Prod.mk.inj (stretched.symm.trans stretched')
    exact fits_marked.mp (right.mp (picked.mpr picked'))
  · intro isFit
    refine ⟨enough, fun fuel many => ?_⟩
    obtain ⟨result, u, found, right, searched⟩ := all fuel many
    obtain ⟨w, stretched, same⟩ := stretchChain_found found searched.sound
    refine ⟨result, w, stretched, picked.mp (right.mpr (fits_marked.mpr isFit)), fun full => ?_⟩
    rw [same full]
    exact searched.agrees full

theorem allocates_sample : Allocates (sampleVolume 2) 0 := by
  have order : (sampleVolume 2).order = [] ++ 3 :: List.range' 4 65521 := by
    change List.range' 3 (65521 + 1) ++ List.range' 2 0 = _
    rw [List.range'_succ, List.range'_zero, List.append_nil, List.nil_append]
  have seen : (sampleVolume 2).seen 3 = 0 := by
    have sector : (sampleVolume 2).fat.geometry.entrySect 3 = 32 := by decide
    have view : (sampleVolume 2).view 32 = Memory.writeLE (fun _ => 0) 8 4 0x0FFFFFFF := rfl
    rw [Volume.seen, sector, view, Memory.readLE_writeLE_of_apart _ _ (by decide)]
    rfl
  have loaded : Loaded (sampleVolume 2).fat.lastUsed := ⟨fun _ => 0, by decide⟩
  have ready : (sampleVolume 2).Ready (sampleVolume 2).fat.geometry.fatSectors :=
    ⟨fun _ _ => rfl, fun _ _ => rfl⟩
  have room : FindsRoom (sampleVolume 2) :=
    .room order (fun x member => absurd member List.not_mem_nil) seen (by decide)
  exact (allocates_iff loaded ⟨by decide, by decide⟩ ready 0).mpr (.create rfl room)

/-! ### A full volume -/

/-- Every entry ends a chain, and nothing was allocated last. -/
def fullVolume : Volume where
  fat := { (sampleVolume 0).fat with buf := fun _ => 0xff }
  disk := { sectors := fun _ _ => 0xff, answer := fun _ => none, count := 0 }
  mishaps := []

theorem fullVolume_seen (c : Nat) : fullVolume.seen c = 0x0FFFFFFF := by
  have view (sect : Nat) : fullVolume.view sect = fun _ => 0xff := ite_self _
  have entry (offset : Nat) : Memory.readLE (fun _ => 0xff) offset 4 = 0xFFFFFFFF := by
    simp only [Memory.readLE]
    decide
  unfold Volume.seen
  rw [view, entry]
  decide

theorem fullVolume_occupied (c : Nat) : Occupied fullVolume c :=
  ⟨.last, by rw [fullVolume_seen]; exact FatChain.clustFlags_last (by decide), by decide⟩

/-- An `FsInfo` sector without a cluster that was allocated last. -/
def emptyInfo : Sector :=
  let zero : Sector := fun _ => 0
  ((zero.writeLE 508 4 fsinfoTailSig).writeLE 0 4 fsinfoHeadSig).writeLE 484 4 fsinfoStructSig

/-- The search for a free cluster does not end. -/
theorem not_allocates_full :
    Loaded fullVolume.fat.lastUsed ∧ fullVolume.Ready fullVolume.fat.geometry.fatSectors ∧
      (∀ c, fullVolume.seen c ≠ 0) ∧ ¬ Allocates fullVolume 0 := by
  have loaded : Loaded fullVolume.fat.lastUsed := ⟨emptyInfo, by decide⟩
  have ready : fullVolume.Ready fullVolume.fat.geometry.fatSectors := ⟨fun _ _ => rfl, fun _ _ => rfl⟩
  refine ⟨loaded, ready, fun c => (fullVolume_occupied c).ne_zero, ?_⟩
  rintro ⟨enough, all⟩
  have searchable : Searchable fullVolume.fat.geometry.fatSectors fullVolume.marked :=
    ⟨⟨ready.sound, ready.coherent⟩, fun c small => ⟨c, small, .inl rfl⟩, by decide, by decide,
      loaded.lt⟩
  obtain ⟨-, runs⟩ := searchable.scanFree_none (fun x _ => fullVolume_occupied x) none
  generalize fullVolume.marked.order.length = turns at runs
  have running : ((findFree (enough + turns) 0).run fullVolume.marked).1 = .error .running := by
    rw [findFree_create]
    exact runs (fun isClust => absurd isClust.1 (by decide)) enough
  obtain ⟨w, stretched, -⟩ := stretchChain_found (Prod.ext running rfl) nofun
  obtain ⟨result, w', stretched', picked, -⟩ := all (enough + turns) (Nat.le_add_right _ _)
  obtain ⟨rfl, -⟩ := Prod.mk.inj (stretched.symm.trans stretched')
  exact not_picked (by decide) picked

end NTux.Fat32
