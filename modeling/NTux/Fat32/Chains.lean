import NTux.Fat32.Allocation
import Mathlib.Data.List.Chain

/-! # Chains of clusters

A chain is a list of clusters, each of whose entries leads to the next one and the last of
which ends it (`FatChain`). On a volume whose chains are disjoint, `create_chain`,
`stretch_chain` and `remove_chain` add a chain, lengthen one and free one, and touch no
other entry, exactly when the search for a free cluster ends well (`chains_kept_iff`).
-/

namespace NTux.Fat32

open NTux.Foundation Command

variable {v w : Volume}

/-! ## Chains -/

/-- The entries of the clusters lead from each to the next, and end behind the last. -/
structure FatChain (v : Volume) (chain : List Nat) : Prop where
  clusters : ∀ c ∈ chain, v.fat.geometry.IsClust c
  links : chain.IsChain fun c d => v.link c = d ∧ d < 0x0FFFFFF7
  ends : ∃ c ∈ chain.getLast?, 0x0FFFFFF8 ≤ v.link c

/-- Disjoint chains, none of which visits a cluster twice. -/
structure Chains (v : Volume) (chains : List (List Nat)) : Prop where
  each : ∀ chain ∈ chains, FatChain v chain
  disjoint : chains.flatten.Nodup

/-- Both copies of the FAT differ in the lower bits of these entries only. -/
structure OnlyChanges (v w : Volume) (changed : Set Nat) : Prop where
  entry : ∀ c, v.fat.geometry.InFat c → c ∉ changed → w.entry c = v.entry c
  nibble : ∀ c, v.fat.geometry.InFat c → w.entry c / 2 ^ 28 = v.entry c / 2 ^ 28
  mirror : v.fat.geometry.Mirrored → ∀ c, v.fat.geometry.InFat c → c ∉ changed →
    w.mirrorEntry c = v.mirrorEntry c
  mirrorNibble : v.fat.geometry.Mirrored → ∀ c, v.fat.geometry.InFat c →
    w.mirrorEntry c / 2 ^ 28 = v.mirrorEntry c / 2 ^ 28

theorem Rewrites.onlyChanges {new : Nat → Nat → Nat} {changed : Set Nat} (rewrites : Rewrites v w new)
    (others : ∀ c entry, c ∉ changed → new c entry = entry)
    (nibble : ∀ c entry, new c entry / 2 ^ 28 = entry / 2 ^ 28) : OnlyChanges v w changed where
  entry c inFat other := by rw [rewrites.entry c inFat, others c _ other]
  nibble c inFat := by rw [rewrites.entry c inFat, nibble]
  mirror mirrored c inFat other := by rw [rewrites.mirror mirrored c inFat, others c _ other]
  mirrorNibble mirrored c inFat := by rw [rewrites.mirror mirrored c inFat, nibble]

namespace FatChain

variable {chain rest : List Nat} {c d : Nat}

/-- A chain does not notice what happens to other entries. -/
theorem congr (isChain : FatChain v chain) (geometry : w.fat.geometry = v.fat.geometry)
    (same : ∀ c ∈ chain, w.link c = v.link c) : FatChain w chain where
  clusters c member := geometry ▸ isChain.clusters c member
  links := isChain.links.imp_of_mem_imp fun c d member _ link => by rwa [same c member]
  ends := by
    obtain ⟨c, last, ends⟩ := isChain.ends
    exact ⟨c, last, (same c (List.mem_of_getLast? last)).symm ▸ ends⟩

/-- The first cluster leads to the second. -/
theorem next (isChain : FatChain v (c :: d :: rest)) :
    v.link c = d ∧ clustFlags v.fat.geometry.clustCnt (v.link c) = some .used := by
  obtain ⟨⟨link, small⟩, -⟩ := List.isChain_cons_cons.mp isChain.links
  obtain ⟨low, high⟩ := isChain.clusters d (by simp)
  refine ⟨link, ?_⟩
  rw [link, clustFlags, if_neg (by omega), if_neg (by omega), if_neg (by omega), if_pos ⟨low, high⟩]

theorem tail (isChain : FatChain v (c :: d :: rest)) : FatChain v (d :: rest) where
  clusters c member := isChain.clusters c (List.mem_cons_of_mem _ member)
  links := (List.isChain_cons_cons.mp isChain.links).2
  ends := isChain.ends

theorem clustFlags_last {clustCnt val : Nat} (ends : 0x0FFFFFF8 ≤ val) :
    clustFlags clustCnt val = some .last := by
  rw [clustFlags, if_neg (by omega), if_neg (by omega), if_pos ends]

theorem link_last (isChain : FatChain v (rest ++ [c])) : 0x0FFFFFF8 ≤ v.link c := by
  obtain ⟨d, last, ends⟩ := isChain.ends
  have same : c = d := by simpa using last
  exact same ▸ ends

/-- No cluster of a chain is free. -/
theorem link_ne_zero (isChain : FatChain v chain) : ∀ c ∈ chain, v.link c ≠ 0 := by
  induction chain with
  | nil => exact fun _ member => absurd member List.not_mem_nil
  | cons first rest ih =>
      intro c member
      cases rest with
      | nil =>
          obtain rfl := List.mem_singleton.mp member
          have ends := @link_last _ [] _ isChain
          omega
      | cons second rest =>
          rcases List.mem_cons.mp member with rfl | later
          · have low := (isChain.clusters second (by simp)).1
            rw [isChain.next.1]
            omega
          · exact ih isChain.tail c later

/-- A free cluster behind the last one. -/
theorem append (isChain : FatChain v (rest ++ [d])) (geometry : w.fat.geometry = v.fat.geometry)
    (same : ∀ c ∈ rest, w.link c = v.link c) (isClust : v.fat.geometry.IsClust c)
    (small : c < 0x0FFFFFF7) (link : w.link d = c) (ends : 0x0FFFFFF8 ≤ w.link c) :
    FatChain w (rest ++ [d] ++ [c]) where
  clusters := by
    intro e member
    rw [geometry]
    rcases List.mem_append.mp member with inside | new
    · exact isChain.clusters e inside
    · exact List.mem_singleton.mp new ▸ isClust
  links := by
    rw [List.append_assoc, List.singleton_append, List.isChain_split]
    refine ⟨?_, List.isChain_pair.mpr ⟨link, small⟩⟩
    have old := isChain.links
    rw [List.isChain_iff_forall_rel_of_append_cons_cons] at old ⊢
    intro x y before after split
    have member : x ∈ rest := by
      have lengths := congrArg List.dropLast split
      rw [List.dropLast_concat, List.dropLast_append_cons, List.dropLast_cons_cons] at lengths
      rw [lengths]
      simp
    rw [same x member]
    exact old split
  ends := ⟨c, by simp, ends⟩

end FatChain

namespace Chains

variable {before after : List (List Nat)} {chain : List Nat}

/-- Chains do not notice what happens to other entries. -/
theorem congr {chains : List (List Nat)} (isChains : Chains v chains)
    (geometry : w.fat.geometry = v.fat.geometry)
    (same : ∀ c ∈ chains.flatten, w.link c = v.link c) : Chains w chains where
  each chain member := (isChains.each chain member).congr geometry fun c inside =>
    same c (List.mem_flatten.mpr ⟨chain, member, inside⟩)
  disjoint := isChains.disjoint

/-- The chains around one of them. -/
theorem around (isChains : Chains v (before ++ chain :: after)) : Chains v (before ++ after) where
  each other member := isChains.each other (by
    rcases List.mem_append.mp member with left | right
    · exact List.mem_append_left _ left
    · exact List.mem_append_right _ (List.mem_cons_of_mem _ right))
  disjoint := by
    have disjoint := isChains.disjoint
    simp only [List.flatten_append, List.flatten_cons, List.nodup_append, List.mem_append] at *
    grind

theorem nodup (isChains : Chains v (before ++ chain :: after)) : chain.Nodup := by
  have disjoint := isChains.disjoint
  simp only [List.flatten_append, List.flatten_cons, List.nodup_append] at disjoint
  exact disjoint.2.1.1

theorem notMem_around (isChains : Chains v (before ++ chain :: after)) {c : Nat}
    (member : c ∈ chain) : c ∉ (before ++ after).flatten := by
  have disjoint := isChains.disjoint
  simp only [List.flatten_append, List.flatten_cons, List.nodup_append, List.mem_append] at *
  grind

/-- A chain between the others. -/
theorem insert (isChains : Chains v (before ++ after)) (isChain : FatChain v chain)
    (nodup : chain.Nodup) (apart : ∀ c ∈ chain, c ∉ (before ++ after).flatten) :
    Chains v (before ++ chain :: after) where
  each other member := by
    rcases List.mem_append.mp member with left | right
    · exact isChains.each other (List.mem_append_left _ left)
    · rcases List.mem_cons.mp right with rfl | right
      · exact isChain
      · exact isChains.each other (List.mem_append_right _ right)
  disjoint := by
    have disjoint := isChains.disjoint
    simp only [List.flatten_append, List.flatten_cons, List.nodup_append, List.mem_append] at *
    grind

/-- No cluster of a chain is free. -/
theorem notMem_of_free {chains : List (List Nat)} (isChains : Chains v chains) {c : Nat}
    (free : v.link c = 0) : c ∉ chains.flatten := by
  intro member
  obtain ⟨chain, isMember, inside⟩ := List.mem_flatten.mp member
  exact (isChains.each chain isMember).link_ne_zero c inside free

end Chains

/-! ## Removing a chain -/

/-- The entries of the chain are free. -/
def freedEntry (chain : List Nat) (d entry : Nat) : Nat :=
  if d ∈ chain then setLower 0 entry else entry

theorem Rewrites.linkOf {new : Nat → Nat → Nat} (rewrites : Rewrites v w new) {c : Nat}
    (isClust : v.fat.geometry.IsClust c) : w.link c = new c (v.entry c) % 2 ^ 28 := by
  rw [Volume.link, rewrites.entry c isClust.inFat]

/-- The loop of `remove_chain` goes along the chain and frees it. -/
theorem removeLoop_spec {chain : List Nat} : ∀ {v : Volume} {head : Nat} {fuel : Nat},
    v.fat.geometry.Layout → v.Ready v.fat.geometry.area → FatChain v (head :: chain) →
    (head :: chain).Nodup → chain.length < fuel →
    ∃ w, (removeLoop fuel head).run v = (.ok (), w) ∧
      Rewrites v w (freedEntry (head :: chain)) := by
  induction chain with
  | nil =>
      rintro v head (_ | fuel) layout ready isChain - enough
      · exact absurd enough (by decide)
      · obtain ⟨u, read, ready', agrees, -⟩ :=
          getFat_spec layout ready (isChain.clusters head (by simp)).inFat
        rw [FatChain.clustFlags_last (@FatChain.link_last _ [] _ isChain)] at read
        have same := agrees.rewrites ready'
        obtain ⟨x, put, -, rewrites⟩ := putFat_spec (same.geometry ▸ layout) same.ready
          (same.geometry ▸ (isChain.clusters head (by simp)).inFat) 0
        have counted := rewrites_withFat rewrites.ready
          (f := fun fat => { fat with freeCnt := u32 (fat.freeCnt + 1) }) rfl rfl rfl rfl
        rw [removeLoop, run_bind_ok read]
        dsimp only
        rw [if_neg (by decide), run_bind_ok put, run_modifyFat_bind, if_pos rfl]
        refine ⟨_, rfl, ((same.trans rewrites).trans counted).congr fun d entry => ?_⟩
        simp only [freedEntry, List.mem_singleton]
  | cons next rest ih =>
      rintro v head (_ | fuel) layout ready isChain nodup enough
      · exact absurd enough (by omega)
      · have head_clust := isChain.clusters head (by simp)
        have notLater : head ∉ next :: rest := (List.nodup_cons.mp nodup).1
        obtain ⟨link, flags⟩ := isChain.next
        obtain ⟨u, read, ready', agrees, -⟩ := getFat_spec layout ready head_clust.inFat
        rw [flags, link] at read
        have same := agrees.rewrites ready'
        obtain ⟨x, put, -, rewrites⟩ := putFat_spec (same.geometry ▸ layout) same.ready
          (same.geometry ▸ head_clust.inFat) 0
        have counted := rewrites_withFat rewrites.ready
          (f := fun fat => { fat with freeCnt := u32 (fat.freeCnt + 1) }) rfl rfl rfl rfl
        have step : Rewrites v (x.withFat _) fun d entry =>
            if d = head then setLower 0 entry else entry :=
          ((same.trans rewrites).trans counted).congr fun _ _ => rfl
        have isRest : FatChain (x.withFat _) (next :: rest) :=
          isChain.tail.congr step.geometry fun c member => by
            have differ : c ≠ head := fun equal => notLater (equal ▸ member)
            rw [step.linkOf (isChain.clusters c (List.mem_cons_of_mem _ member)), if_neg differ,
              Volume.link]
        obtain ⟨w, later, rewrites'⟩ := ih (step.geometry ▸ layout) step.ready isRest
          (List.nodup_cons.mp nodup).2 (Nat.lt_of_succ_lt_succ enough)
        rw [removeLoop, run_bind_ok read]
        dsimp only
        rw [if_neg (by decide), run_bind_ok put, run_modifyFat_bind, if_neg (by decide)]
        refine ⟨w, later, (step.trans rewrites').congr fun d entry => ?_⟩
        unfold freedEntry
        by_cases equal : d = head
        · subst equal
          rw [if_pos rfl, if_neg notLater, if_pos List.mem_cons_self]
        · rw [if_neg equal]
          simp only [List.mem_cons, equal, false_or]

/-- **Removing.** `remove_chain` frees the entries of the chain. -/
theorem removeChain_spec (layout : v.fat.geometry.Layout) (ready : v.Ready v.fat.geometry.area)
    {head : Nat} {chain : List Nat} (isChain : FatChain v (head :: chain))
    (nodup : (head :: chain).Nodup) {fuel : Nat} (enough : chain.length < fuel) :
    ∃ w, (removeChain fuel head).run v = (.ok (), w) ∧
      Rewrites v w (freedEntry (head :: chain)) := by
  have marked := rewrites_withFat ready (f := fun fat => { fat with infoDirty := true })
    rfl rfl rfl rfl
  obtain ⟨u, removed, rewrites⟩ := removeLoop_spec (marked.geometry.symm ▸ layout) marked.ready
    (isChain.congr marked.geometry fun _ _ => rfl) nodup enough
  have both := marked.trans rewrites
  obtain ⟨w, synced, -, rewrites'⟩ := syncFs_spec (both.geometry ▸ layout) rewrites.ready
  unfold removeChain
  rw [run_modifyFat_bind, run_bind_ok removed]
  exact ⟨w, synced, (both.trans rewrites').congr fun _ _ => rfl⟩

/-! ## Calls on chains -/

/-- A call of `create_chain`, of `stretch_chain` at the end of a chain or of `remove_chain` at
the head of one, and the chains there are. -/
inductive ChainCall where
  | create (chains : List (List Nat))
  | stretch (before : List (List Nat)) (rest : List Nat) (last : Nat) (after : List (List Nat))
  | remove (before : List (List Nat)) (head : Nat) (rest : List Nat) (after : List (List Nat))

namespace ChainCall

def chains : ChainCall → List (List Nat)
  | create chains => chains
  | stretch before rest last after => before ++ (rest ++ [last]) :: after
  | remove before head rest after => before ++ (head :: rest) :: after

/-- The function that is called, and the cluster that it gives. -/
def command (fuel : Nat) : ChainCall → FatM (Option Nat)
  | create _ => do return some (← createChain fuel)
  | stretch _ _ last _ => do return some (← stretchChain fuel last)
  | remove _ head _ _ => do
    removeChain fuel head
    return none

/-- What a call does that succeeds: the new cluster was free, the chains are as before but
for one, and no other entry is changed. -/
def Done (v w : Volume) : ChainCall → Option Nat → Prop
  | create chains, some c => v.link c = 0 ∧ Chains w ([c] :: chains) ∧ OnlyChanges v w {c}
  | stretch before rest last after, some c =>
    v.link c = 0 ∧ Chains w (before ++ (rest ++ [last] ++ [c]) :: after) ∧
      OnlyChanges v w {last, c}
  | remove before head rest after, none =>
    (∀ c ∈ head :: rest, w.link c = 0) ∧ Chains w (before ++ after) ∧
      OnlyChanges v w {c | c ∈ head :: rest}
  | _, _ => False

/-- The call has an error code to return, and it changes nothing. -/
def Refused (v w : Volume) (err : Int) : ChainCall → Prop
  | remove .. => False
  | _ => err ≠ 0 ∧ OnlyChanges v w ∅

/-- The call returns, after it did what it is for or nothing. -/
def Lawful (v : Volume) (call : ChainCall) : Prop :=
  ∃ enough, ∀ fuel ≥ enough, ∃ w,
    (∃ c, (call.command fuel).run v = (.ok c, w) ∧ call.Done v w c) ∨
    ∃ err, (call.command fuel).run v = (.error (.code err), w) ∧ call.Refused v w err

/-- The search for a free cluster ends, not with an entry that is none before any flags are
known, and if it ends with a cluster, this is none of the first two, nor one whose number is
a mark in an entry that leads to it. -/
def SearchFits (v : Volume) (prev : Nat) : Prop :=
  ∃ found, Picks v prev found ∧ found ≠ .invalid false ∧
    ∀ c, found = .free c → 2 ≤ c ∧ (prev ≠ 0 → c < 0x0FFFFFF7)

/-- The volume's state in which the call keeps the chains. -/
def Fits (v : Volume) : ChainCall → Prop
  | create _ => SearchFits v 0
  | stretch _ _ last _ => SearchFits v last
  | remove .. => True

end ChainCall

theorem setLower_free (entry : Nat) : setLower 0 entry % 2 ^ 28 = 0 := setLower_mod 0 entry

theorem stretchedEntry_nibble (prev c d entry : Nat) :
    stretchedEntry prev c d entry / 2 ^ 28 = entry / 2 ^ 28 := by
  unfold stretchedEntry
  split
  · exact setLower_div _ _
  · split
    · exact setLower_div _ _
    · rfl

theorem Rewrites.unchanged (same : Rewrites v w fun _ entry => entry) : OnlyChanges v w ∅ :=
  same.onlyChanges (fun _ _ _ => rfl) fun _ _ => rfl

/-- A search that fits makes the call return, with an error or a cluster that was free. -/
theorem stretchChain_of_fits (layout : v.fat.geometry.Layout) (ready : v.Ready v.fat.geometry.area)
    {prev : Nat} (inFat : v.fat.geometry.InFat prev) (used : prev ≠ 0 → v.link prev ≠ 0)
    (fits : ChainCall.SearchFits v prev) :
    ∃ enough, ∀ fuel ≥ enough, ∃ w,
      (∃ c, (stretchChain fuel prev).run v = (.ok c, w) ∧ v.link c = 0 ∧
        v.fat.geometry.IsClust c ∧ (prev ≠ 0 → c < 0x0FFFFFF7) ∧
        Rewrites v w (stretchedEntry prev c)) ∨
      ∃ err, (stretchChain fuel prev).run v = (.error (.code err), w) ∧ err ≠ 0 ∧
        OnlyChanges v w ∅ := by
  obtain ⟨found, picks, known, small⟩ := fits
  have differ : prev ≠ 0 → found ≠ .free prev := by
    rintro stretching rfl
    exact used stretching (picks.free_spec layout).1
  obtain ⟨enough, all⟩ := stretchChain_spec layout ready inFat picks differ
  refine ⟨enough, fun fuel many => ?_⟩
  obtain ⟨result, w, ran, gives, rewrites⟩ := all fuel many
  refine ⟨w, ?_⟩
  cases found with
  | free c =>
      obtain rfl := gives
      obtain ⟨low, high⟩ := small c rfl
      obtain ⟨free, less⟩ := picks.free_spec layout
      exact .inl ⟨c, ran, free, ⟨low, less⟩, high, rewrites⟩
  | full =>
      obtain rfl := gives
      exact .inr ⟨_, ran, by decide, rewrites.unchanged⟩
  | invalid isKnown =>
      cases isKnown with
      | false => exact absurd rfl known
      | true =>
          obtain ⟨err, rfl, nonzero⟩ := gives
          exact .inr ⟨err, ran, nonzero, rewrites.unchanged⟩

/-- A call that returns has searched to an end. -/
theorem picks_of_stretchChain (layout : v.fat.geometry.Layout)
    (ready : v.Ready v.fat.geometry.area) {fuel prev : Nat} {result : Except Stop Nat}
    (ran : (stretchChain fuel prev).run v = (result, w)) (returned : result ≠ .error .running) :
    ∃ found, Picks v prev found := by
  have marked := rewrites_withFat ready (f := fun fat => { fat with infoDirty := true })
    rfl rfl rfl rfl
  have same := SameSearch.mk marked rfl
  unfold stretchChain at ran
  rw [run_modifyFat_bind] at ran
  generalize search : (findFree fuel prev).run (v.withFat _) = ended at ran
  obtain ⟨result', u⟩ := ended
  have stopped : result' ≠ .error .running := by
    rintro rfl
    rw [run_bind_error search] at ran
    exact returned (congrArg Prod.fst ran).symm
  obtain ⟨found, picks⟩ := picks_of_findFree (marked.geometry.symm ▸ layout) marked.ready search
    stopped
  exact ⟨found, picks.congr (marked.geometry.symm ▸ layout) (same.symm ready)⟩

/-- A call that does what it should has a search that fits. -/
theorem searchFits_of_lawful (layout : v.fat.geometry.Layout) (ready : v.Ready v.fat.geometry.area)
    {prev : Nat} (inFat : v.fat.geometry.InFat prev) (used : prev ≠ 0 → v.link prev ≠ 0)
    {call : ChainCall}
    (command : ∀ fuel, call.command fuel = do return some (← stretchChain fuel prev))
    (bounds : ∀ w c, call.Done v w (some c) → 2 ≤ c ∧ (prev ≠ 0 → c < 0x0FFFFFF7))
    (lawful : call.Lawful v) : ChainCall.SearchFits v prev := by
  obtain ⟨enough, all⟩ := lawful
  have returned : ∀ fuel ≥ enough, ∀ result w, (stretchChain fuel prev).run v = (result, w) →
      (∃ c, result = .ok c ∧ call.Done v w (some c)) ∨ ∃ err, result = .error (.code err) := by
    intro fuel many result w ran
    obtain ⟨u, outcome⟩ := all fuel many
    rw [command] at outcome
    rcases result with e | c
    · rw [run_bind_error ran] at outcome
      rcases outcome with ⟨_, wrong, _⟩ | ⟨err, same, _⟩
      · cases wrong
      · cases same
        exact .inr ⟨err, rfl⟩
    · rw [run_bind_ok ran] at outcome
      rcases outcome with ⟨_, same, done⟩ | ⟨_, wrong, _⟩
      · cases same
        exact .inl ⟨c, rfl, done⟩
      · cases wrong
  obtain ⟨found, picks⟩ : ∃ found, Picks v prev found := by
    generalize ran : (stretchChain enough prev).run v = ended
    obtain ⟨result, w⟩ := ended
    refine picks_of_stretchChain layout ready ran ?_
    rintro rfl
    rcases returned enough le_rfl _ w ran with ⟨_, wrong, _⟩ | ⟨_, wrong⟩ <;> cases wrong
  have differ : prev ≠ 0 → found ≠ .free prev := by
    rintro stretching rfl
    exact used stretching (picks.free_spec layout).1
  obtain ⟨enough', all'⟩ := stretchChain_spec layout ready inFat picks differ
  obtain ⟨result, w, ran, gives, -⟩ := all' (max enough enough') (le_max_right _ _)
  have outcome := returned _ (le_max_left _ _) result w ran
  refine ⟨found, picks, ?_, ?_⟩
  · rintro rfl
    obtain rfl := gives
    rcases outcome with ⟨_, wrong, _⟩ | ⟨_, wrong⟩ <;> cases wrong
  · rintro c rfl
    obtain rfl := gives
    rcases outcome with ⟨_, same, done⟩ | ⟨_, wrong⟩
    · cases same
      exact bounds w c done
    · cases wrong

section Calls

variable (layout : v.fat.geometry.Layout) (ready : v.Ready v.fat.geometry.area)

include layout ready

theorem create_lawful_iff {chains : List (List Nat)} (isChains : Chains v chains) :
    (ChainCall.create chains).Lawful v ↔ ChainCall.SearchFits v 0 := by
  have inFat : v.fat.geometry.InFat 0 := Nat.zero_le _
  constructor
  · refine searchFits_of_lawful layout ready inFat (absurd rfl) (fun _ => rfl) ?_
    rintro w c ⟨-, isChains', -⟩
    have isClust := (isChains'.each [c] List.mem_cons_self).clusters c List.mem_cons_self
    exact ⟨isClust.1, absurd rfl⟩
  · intro fits
    obtain ⟨enough, all⟩ := stretchChain_of_fits layout ready inFat (absurd rfl) fits
    refine ⟨enough, fun fuel many => ?_⟩
    obtain ⟨w, ⟨c, ran, free, isClust, -, rewrites⟩ | ⟨err, ran, nonzero, unchanged⟩⟩ :=
      all fuel many
    · refine ⟨w, .inl ⟨some c, run_bind_ok ran, free, ?_, ?_⟩⟩
      · have unused := isChains.notMem_of_free free
        have others := isChains.congr rewrites.geometry fun d member => by
          obtain ⟨chain, isMember, inside⟩ := List.mem_flatten.mp member
          have differ : d ≠ c := fun equal => unused (equal ▸ member)
          rw [rewrites.linkOf ((isChains.each chain isMember).clusters d inside), stretchedEntry,
            if_neg (fun both => both.1 rfl), if_neg differ, Volume.link]
        refine @Chains.insert _ [] _ _ others ⟨?_, List.isChain_singleton c, c, rfl, ?_⟩
          (by simp) ?_
        · intro d member
          obtain rfl := List.mem_singleton.mp member
          exact rewrites.geometry ▸ isClust
        · rw [rewrites.linkOf isClust, stretchedEntry, if_neg (fun both => both.1 rfl), if_pos rfl,
            setLower_mod]
          decide
        · intro d member
          obtain rfl := List.mem_singleton.mp member
          exact unused
      · refine rewrites.onlyChanges ?_ (stretchedEntry_nibble 0 c)
        intro d entry other
        have differ : d ≠ c := other
        rw [stretchedEntry, if_neg (fun both => both.1 rfl), if_neg differ]
    · exact ⟨w, .inr ⟨err, run_bind_error ran, nonzero, unchanged⟩⟩

theorem stretch_lawful_iff {before after : List (List Nat)} {rest : List Nat} {last : Nat}
    (isChains : Chains v (before ++ (rest ++ [last]) :: after)) :
    (ChainCall.stretch before rest last after).Lawful v ↔ ChainCall.SearchFits v last := by
  have isChain : FatChain v (rest ++ [last]) := isChains.each _ (by simp)
  have lastClust := isChain.clusters last (by simp)
  have used : last ≠ 0 → v.link last ≠ 0 := fun _ => isChain.link_ne_zero last (by simp)
  have nonzero : last ≠ 0 := by
    have low := lastClust.1
    omega
  constructor
  · refine searchFits_of_lawful layout ready lastClust.inFat used (fun _ => rfl) ?_
    rintro w c ⟨-, isChains', -⟩
    have isChain' : FatChain w (rest ++ [last] ++ [c]) := isChains'.each _ (by simp)
    have links := isChain'.links
    rw [List.append_assoc, List.singleton_append, List.isChain_split] at links
    have isClust := isChain'.clusters c (by simp)
    exact ⟨isClust.1, fun _ => (List.isChain_pair.mp links.2).2⟩
  · intro fits
    obtain ⟨enough, all⟩ := stretchChain_of_fits layout ready lastClust.inFat used fits
    refine ⟨enough, fun fuel many => ?_⟩
    obtain ⟨w, ⟨c, ran, free, isClust, small, rewrites⟩ | ⟨err, ran, isError, unchanged⟩⟩ :=
      all fuel many
    · have unused := isChains.notMem_of_free free
      have apart : c ≠ last := by
        rintro rfl
        exact unused (by simp)
      have others : ∀ d, v.fat.geometry.IsClust d → d ≠ last → d ≠ c → w.link d = v.link d := by
        intro d isClust' notLast notNew
        rw [rewrites.linkOf isClust', stretchedEntry, if_neg (fun both => notLast both.2),
          if_neg notNew, Volume.link]
      refine ⟨w, .inl ⟨some c, run_bind_ok ran, free, ?_, ?_⟩⟩
      · have nodup := isChains.nodup
        refine Chains.insert (isChains.around.congr rewrites.geometry ?_) ?_ ?_ ?_
        · intro d member
          obtain ⟨chain, isMember, inside⟩ := List.mem_flatten.mp member
          refine others d ((isChains.around.each chain isMember).clusters d inside) ?_ ?_
          · rintro rfl
            exact isChains.notMem_around (by simp) member
          · rintro rfl
            exact isChains.around.notMem_of_free free member
        · refine isChain.append rewrites.geometry ?_ isClust (small nonzero) ?_ ?_
          · intro d member
            refine others d (isChain.clusters d (by simp [member])) ?_ ?_
            · rintro rfl
              simp only [List.nodup_append, List.mem_singleton] at nodup
              exact nodup.2.2 d member d rfl rfl
            · rintro rfl
              exact unused (by simp [member])
          · rw [rewrites.linkOf lastClust, stretchedEntry, if_pos ⟨nonzero, rfl⟩, setLower_mod]
            exact Nat.mod_eq_of_lt (by have := small nonzero; omega)
          · rw [rewrites.linkOf isClust, stretchedEntry, if_neg (fun both => apart both.2),
              if_pos rfl, setLower_mod]
            decide
        · refine List.nodup_append.mpr ⟨nodup, by simp, ?_⟩
          rintro d member e new rfl
          obtain rfl := List.mem_singleton.mp new
          exact unused (List.mem_flatten.mpr ⟨_, by simp, member⟩)
        · intro d member
          rcases List.mem_append.mp member with old | new
          · exact isChains.notMem_around old
          · obtain rfl := List.mem_singleton.mp new
            exact isChains.around.notMem_of_free free
      · refine rewrites.onlyChanges ?_ (stretchedEntry_nibble last c)
        intro d entry other
        have notLast : d ≠ last := fun equal => other (.inl equal)
        have notNew : d ≠ c := fun equal => other (.inr equal)
        rw [stretchedEntry, if_neg (fun both => notLast both.2), if_neg notNew]
    · exact ⟨w, .inr ⟨err, run_bind_error ran, isError, unchanged⟩⟩

theorem remove_lawful {before after : List (List Nat)} {head : Nat} {rest : List Nat}
    (isChains : Chains v (before ++ (head :: rest) :: after)) :
    (ChainCall.remove before head rest after).Lawful v := by
  have isChain : FatChain v (head :: rest) := isChains.each _ (by simp)
  have nodup := isChains.nodup
  refine ⟨rest.length + 1, fun fuel many => ?_⟩
  obtain ⟨w, ran, rewrites⟩ := removeChain_spec layout ready isChain nodup many
  refine ⟨w, .inl ⟨none, run_bind_ok ran, ?_, ?_, ?_⟩⟩
  · intro c member
    rw [rewrites.linkOf (isChain.clusters c member), freedEntry, if_pos member, setLower_free]
  · refine isChains.around.congr rewrites.geometry fun c member => ?_
    obtain ⟨chain, isMember, inside⟩ := List.mem_flatten.mp member
    have outside : c ∉ head :: rest := fun shared => isChains.notMem_around shared member
    rw [rewrites.linkOf ((isChains.around.each chain isMember).clusters c inside), freedEntry,
      if_neg outside, Volume.link]
  · refine rewrites.onlyChanges ?_ ?_
    · intro c entry outside
      exact if_neg outside
    · intro c entry
      unfold freedEntry
      split
      · exact setLower_div _ _
      · rfl

/-- **Chains are kept.** On a volume with disjoint chains, a call does what it is for or
refuses without a change, exactly if the search for a free cluster fits; removing a chain
always does. -/
theorem chains_kept_iff (call : ChainCall) (isChains : Chains v call.chains) :
    call.Lawful v ↔ call.Fits v := by
  cases call with
  | create chains => exact create_lawful_iff layout ready isChains
  | stretch before rest last after => exact stretch_lawful_iff layout ready isChains
  | remove before head rest after =>
      exact ⟨fun _ => trivial, fun _ => remove_lawful layout ready isChains⟩

end Calls

/-! ### A volume with one chain -/

/-- Small clusters behind two copies of the FAT. -/
def sampleGeometry : Geometry where
  clustMsk := 0
  clustCnt := 65525
  infoSect := 1
  fatSect := 32
  mirrorSect := 544
  dataSect := 1056
  rootClust := 2
  clustShift := 0

/-- The first sector of the FAT, where the second cluster is a chain of its own. -/
def sampleSector : Sector := Memory.writeLE (fun _ => 0) 8 4 0x0FFFFFFF

/-- The volume, with a cluster that was allocated last. -/
def sampleVolume (lastUsed : Nat) : Volume where
  fat := { geometry := sampleGeometry, lastUsed := lastUsed, freeCnt := 65522, sect := 0,
           buf := fun _ => 0, bufDirty := false, infoDirty := false, name := [] }
  disk := { sectors := fun sect => if sect = 32 ∨ sect = 544 then sampleSector else fun _ => 0,
            answer := fun _ => none, count := 0 }
  mishaps := []

theorem sampleGeometry_layout : sampleGeometry.Layout where
  clusters := by decide
  fatFits := by decide
  mirrorFits := by decide
  infoFits := by decide
  dataFits := by decide
  mask := by decide
  copies := by
    rw [Set.disjoint_left]
    rintro sect ⟨c, inFat, rfl⟩ ⟨-, d, inFat', same⟩
    unfold Geometry.InFat sampleGeometry at *
    dsimp only at *
    omega
  info := by
    rintro (⟨c, inFat, same⟩ | ⟨-, c, inFat, same⟩) <;>
    · unfold sampleGeometry at same
      dsimp only at same
      omega
  data := by
    rw [Set.disjoint_left]
    rintro sect ⟨low, -⟩ member
    have small : sect < 1056 := by
      rcases member with (⟨c, inFat, rfl⟩ | ⟨-, c, inFat, rfl⟩) | rfl
      · unfold Geometry.InFat sampleGeometry at *
        dsimp only at *
        omega
      · unfold Geometry.InFat sampleGeometry at *
        dsimp only at *
        omega
      · decide
    exact absurd low (Nat.not_le_of_gt small)

theorem sampleVolume_ready (lastUsed : Nat) :
    (sampleVolume lastUsed).Ready (sampleVolume lastUsed).fat.geometry.area :=
  ⟨fun _ _ => rfl, fun _ _ => rfl⟩

theorem sampleVolume_chains (lastUsed : Nat) : Chains (sampleVolume lastUsed) [[2]] where
  each := by
    intro chain member
    obtain rfl := List.mem_singleton.mp member
    refine ⟨?_, List.isChain_singleton 2, 2, rfl, ?_⟩
    · intro c member
      obtain rfl := List.mem_singleton.mp member
      exact ⟨le_rfl, sampleGeometry_layout.clusters.1⟩
    · change _ ≤ (sampleSector.readLE 8 4) % 2 ^ 28
      rw [sampleSector, Memory.readLE_writeLE]
      decide
  disjoint := by decide

theorem sampleVolume_free (lastUsed : Nat) {c : Nat} (differ : c ≠ 2) (small : c < 128) :
    (sampleVolume lastUsed).link c = 0 := by
  have sector : 32 + c / 128 = 32 := by omega
  have seen : (sampleVolume lastUsed).view 32 = sampleSector := rfl
  change ((sampleVolume lastUsed).view (32 + c / 128)).readLE (4 * (c % 128)) 4 % 2 ^ 28 = 0
  rw [sector, seen, sampleSector, Memory.readLE_writeLE_of_apart _ _ (by omega)]
  have zero : Memory.readLE (fun _ => 0) (4 * (c % 128)) 4 = 0 := rfl
  rw [zero, Nat.zero_mod]

theorem chains_kept_stretch : (ChainCall.stretch [] [] 2 []).Lawful (sampleVolume 2) :=
  (chains_kept_iff sampleGeometry_layout (sampleVolume_ready 2) (.stretch [] [] 2 [])
    (sampleVolume_chains 2)).mpr
      ⟨_, .next (by decide) (sampleVolume_free 2 (by decide) (by decide)), by decide,
        fun c found => by cases found; decide⟩

/-- If no cluster was allocated last, the first new one has the number of an entry that stands
for no cluster. -/
theorem chains_broken_lastUsed : ¬ (ChainCall.create [[2]]).Lawful (sampleVolume 0) := by
  rw [create_lawful_iff sampleGeometry_layout (sampleVolume_ready 0) (sampleVolume_chains 0)]
  have free : (sampleVolume 0).link 1 = 0 := sampleVolume_free 0 (by decide) (by decide)
  rintro ⟨found, picks, -, small⟩
  cases picks with
  | next stretching => exact stretching rfl
  | broken stretching => exact stretching rfl
  | search stretching => exact stretching rfl
  | create _ search =>
      have first : nextClust (sampleVolume 0).fat.geometry.clustCnt (sampleVolume 0).fat.lastUsed = 1 :=
        rfl
      cases search with
      | full meets => exact absurd (first.symm.trans meets) (by decide)
      | free => exact absurd (small _ rfl).1 (by decide)
      | invalid _ none =>
          rw [first, free] at none
          cases none
      | pass _ some notFree =>
          rw [first, free] at some
          cases some
          exact notFree rfl

end NTux.Fat32
