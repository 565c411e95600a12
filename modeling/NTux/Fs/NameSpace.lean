import NTux.Fs.Lookup
import NTux.Fs.Naming
import NTux.Fs.RoundTrip

/-! # What a directory adds to the name space

Every node below the root is reached by one list of names (`Valid.lookup_injective`), so a
new child changes the lookup of one list (`Valid.lookup_adopt`), and the search with creation
changes the lookups of the names on its way that led nowhere before (`Search.extends`).
A path of more than 255 characters is cut before it is looked up, and may then spell one of
these although it leads somewhere else (`ramfs_mkdir_extends_iff`).
-/

namespace NTux.Fs

open NTux.Foundation

namespace Ramfs

variable {s t : Ramfs} {r p q new : Ptr} {names : List CString} {name : CString}

/-! ## One list of names -/

/-- The last step of a search leads to a child that points back. -/
theorem Valid.lookup_snoc_spec (valid : s.Valid) (found : s.lookup (names ++ [name]) r = some p) :
    ∃ q node, s.lookup names r = some q ∧ s.node p = some node ∧ node.parent = some q ∧
      node.name = name := by
  rw [lookup_snoc] at found
  obtain ⟨q, reached, last⟩ := Option.bind_eq_some_iff.mp found
  obtain ⟨dir, child, present, member, childPresent, same⟩ := childNamed_spec last
  obtain ⟨node, listed, up⟩ := valid.children q dir present p member
  obtain rfl := Option.some.inj (childPresent.symm.trans listed)
  exact ⟨q, child, reached, childPresent, up, same⟩

/-- Searches that lead to the same node have the same names. -/
theorem Valid.lookup_injective (valid : s.Valid) (root : s.root = some r)
    {first second : List CString} (found : s.lookup first r = some p)
    (again : s.lookup second r = some p) : first = second := by
  obtain ⟨top, topPresent, noParent⟩ := valid.root r root
  have notBelow : ∀ names name, s.lookup (names ++ [name]) r ≠ some r := by
    intro names name below
    obtain ⟨q, node, -, present, up, -⟩ := valid.lookup_snoc_spec below
    obtain rfl := Option.some.inj (topPresent.symm.trans present)
    cases noParent.symm.trans up
  induction first using List.reverseRecOn generalizing second p with
  | nil =>
      obtain rfl : r = p := Option.some.inj found
      rcases List.eq_nil_or_concat second with rfl | ⟨others, last, rfl⟩
      · rfl
      · rw [List.concat_eq_append] at again
        exact absurd again (notBelow others last)
  | append_singleton names name ih =>
      obtain ⟨q, node, reached, present, up, same⟩ := valid.lookup_snoc_spec found
      rcases List.eq_nil_or_concat second with rfl | ⟨others, last, rfl⟩
      · obtain rfl : r = p := Option.some.inj again
        exact absurd found (notBelow names name)
      · rw [List.concat_eq_append] at again ⊢
        obtain ⟨q', node', reached', present', up', same'⟩ := valid.lookup_snoc_spec again
        obtain rfl := Option.some.inj (present.symm.trans present')
        obtain rfl := Option.some.inj (up.symm.trans up')
        rw [ih reached reached', ← same, same']

/-- A child with a new name is reached by the names of its directory and its own, and no other
list of names leads elsewhere than before. -/
theorem Valid.lookup_adopt (valid : s.Valid) (root : s.root = some r) {way : List CString}
    {dir node : Node} (reached : s.lookup way r = some p) (present : s.node p = some dir)
    (free : s.node new = none) (leaf : node.children = [])
    (unused : s.childNamed p node.name = none) (names : List CString) :
    (s.adopt p dir new node).lookup names r =
      if names = way ++ [node.name] then some new else s.lookup names r := by
  suffices from_here : ∀ before q, s.lookup before r = some q →
      (s.adopt p dir new node).lookup names q =
        if before ++ names = way ++ [node.name] then some new else s.lookup names q from
    from_here [] r rfl
  have newPresent : (s.adopt p dir new node).node new = some node := adopt_new free present
  induction names with
  | nil =>
      intro before q here
      have apart : before ++ [] ≠ way ++ [node.name] := by
        intro same
        rw [List.append_nil] at same
        rw [same, lookup_snoc, reached, Option.bind_some, unused] at here
        cases here
      rw [if_neg apart]
      rfl
  | cons name names ih =>
      intro before q here
      obtain ⟨other, live⟩ := lookup_live ((valid.root r root).imp fun _ both => both.1) here
      have onward : ∀ c, s.childNamed q name = some c →
          (s.adopt p dir new node).lookup names c =
            if before ++ name :: names = way ++ [node.name] then some new
            else s.lookup names c := by
        intro c first
        have step : s.lookup (before ++ [name]) r = some c := by
          rw [lookup_snoc, here, Option.bind_some, first]
        have rest := ih (before ++ [name]) c step
        rwa [List.append_assoc] at rest
      rw [lookup, lookup]
      by_cases isParent : q = p
      · subst isParent
        obtain rfl := valid.lookup_injective root here reached
        rw [valid.adopt_childNamed_parent free present]
        cases first : s.childNamed q name with
        | some c => rw [Option.some_or, Option.bind_some, Option.bind_some, onward c first]
        | none =>
            rw [Option.none_or, Option.bind_none]
            by_cases same : node.name = name
            · rw [if_pos same, Option.bind_some]
              cases names with
              | nil => rw [same, if_pos rfl, lookup]
              | cons later others =>
                  rw [lookup, childNamed_leaf newPresent leaf, Option.bind_none, if_neg]
                  intro equal
                  have tails := List.append_cancel_left equal
                  cases (List.cons.inj tails).2
            · rw [if_neg same, Option.bind_none, if_neg]
              intro equal
              have tails := List.append_cancel_left equal
              exact same (List.cons.inj tails).1.symm
      · have notNew := ne_of_free free live
        rw [valid.adopt_childNamed free present isParent notNew]
        cases first : s.childNamed q name with
        | some c => rw [Option.bind_some, Option.bind_some, onward c first]
        | none =>
            rw [Option.bind_none, Option.bind_none, if_neg]
            intro equal
            -- the way to the directory would pass through a child that is not there
            have passes : ∀ others, way = before ++ name :: others → False := by
              intro others split
              rw [split, lookup_append, here, Option.bind_some, lookup, first] at reached
              cases reached
            rcases List.eq_nil_or_concat names with rfl | ⟨others, last, rfl⟩
            · obtain ⟨rfl, -⟩ := List.append_inj' equal rfl
              exact isParent (Option.some.inj (here.symm.trans reached))
            · have split : (before ++ name :: others) ++ [last] = way ++ [node.name] := by
                simpa using equal
              exact passes others (List.append_inj' split rfl).1.symm

/-! ## Creation along a path -/

/-- What a search with creation adds: the names on its way. -/
structure Extends (s t : Ramfs) (r : Ptr) (names : List CString) (n : Ptr) : Prop where
  found : t.lookup names r = some n
  kept : ∀ others p, s.lookup others r = some p → t.lookup others r = some p
  apart : ∀ others, ¬ others <+: names → t.lookup others r = s.lookup others r

theorem Search.extends {a : Allocator} {way path : List CString} {cur n : Ptr}
    {result : Option Ptr} (search : Search a s path cur result t) (root : s.root = some r)
    (short : ∀ token ∈ path, token.length ≤ maxName) (reached : s.lookup way r = some cur)
    (reaches : result = some n) : s.Extends t r (way ++ path) n := by
  induction search generalizing way with
  | done =>
      obtain rfl := Option.some.inj reaches
      exact ⟨by rw [List.append_nil, reached], fun _ _ found => found, fun _ _ => rfl⟩
  | @follow s t token rest cur child result valid found search ih =>
      have step : s.lookup (way ++ [token]) r = some child := by
        rw [lookup_snoc, reached, Option.bind_some, found]
      rw [List.append_cons]
      exact ih root (fun other member => short other (List.mem_cons_of_mem token member)) step
        reaches
  | noMemory => cases reaches
  | full => cases reaches
  | @create s t token rest cur new dir result valid present missing given room search ih =>
      have whole : (newDir token cur).name = token :=
        List.take_of_length_le (short token List.mem_cons_self)
      have added : ∀ names, (s.addDir cur dir new token).lookup names r =
          if names = way ++ [token] then some new else s.lookup names r := by
        intro names
        have adopted := valid.lookup_adopt root reached present (a.fresh given).1
          (newDir_leaf token cur) (whole.symm ▸ missing) names
        rwa [whole] at adopted
      have nowhere : s.lookup (way ++ [token]) r = none := by
        rw [lookup_snoc, reached, Option.bind_some, missing]
      have grown := ih root (fun other member => short other (List.mem_cons_of_mem token member))
        ((added _).trans (if_pos rfl)) reaches
      rw [List.append_cons]
      refine ⟨grown.found, ?_, ?_⟩
      · intro others p old
        have notNew : others ≠ way ++ [token] := by
          rintro rfl
          cases nowhere.symm.trans old
        exact grown.kept others p (by rw [added, if_neg notNew, old])
      · intro others outside
        have notNew : others ≠ way ++ [token] := by
          rintro rfl
          exact outside (List.prefix_append _ _)
        rw [grown.apart others outside, added, if_neg notNew]

/-- A path whose nodes are all there is found without creation. -/
theorem Valid.walk_true_of_lookup (valid : s.Valid) (a : Allocator) {path : List CString}
    {cur n : Ptr} (live : ∃ node, s.node cur = some node) (found : s.lookup path cur = some n) :
    walk a true path cur s = some (some n, s) := by
  induction path generalizing cur with
  | nil => exact congrArg (fun result => some (result, s)) found
  | cons token rest ih =>
      obtain ⟨dir, present⟩ := live
      obtain ⟨c, first, later⟩ := Option.bind_eq_some_iff.mp found
      obtain ⟨-, child, -, -, childPresent, -⟩ := childNamed_spec first
      rw [valid.walk_true_cons a present, first]
      exact ih ⟨child, childPresent⟩ later

/-- The search for a path is a walk over its tokens, for the root's path as well. -/
theorem findNode_eq_walk (root : s.root = some r) (a : Allocator) (createMissing : Bool)
    (path : CString) : s.findNode a createMissing path =
      walk a createMissing (tokens slash (path.take maxPath)) r s := by
  rw [findNode, root]
  dsimp only
  split
  · next isRoot => rcases isRoot with rfl | rfl <;> rfl
  · rfl

/-- `ramfs_mkdir` returns a directory that the search with creation found. -/
theorem mkdir_eq_some_iff {a : Allocator} {path : CString} {n : Ptr} :
    s.mkdir a path = some (some n, t) ↔ s.findNode a true path = some (some n, t) ∧
      ∃ node, t.node n = some node ∧ node.type = .dir := by
  constructor
  · intro made
    unfold mkdir at made
    split at made
    · cases made
    · cases made
    · next p t' searched =>
        split at made
        · cases made
        · next node present =>
            split at made
            · cases made
            · next isDir =>
                obtain ⟨⟨⟩, rfl⟩ := Prod.mk.inj (Option.some.inj made)
                exact ⟨searched, node, present, not_not.mp isDir⟩
  · rintro ⟨searched, node, present, isDir⟩
    simp only [mkdir, searched, present, isDir, ne_eq, not_true_eq_false, ↓reduceIte]

end Ramfs

/-- The path `p` leads to `n` after `ramfs_mkdir`, which a second call returns and leaves
everything as it is, every path to a directory on the way leads somewhere, and another path
`q` leads where it did. -/
structure MkdirExtends (s t : Ramfs) (p q : CString) (n : Ptr) : Prop where
  found : ∀ a, t.findNode a false p = some (some n, t)
  again : ∀ a, t.mkdir a p = some (some n, t)
  prefixes : ∀ u : CString, u.length ≤ maxPath → components u <+: components p →
    (t.find u).isSome
  others : ¬ components q <+: components p → t.find q = s.find q

/-- The path `q` is one to a directory on the way of `p`, or its first 255 characters do not
spell such a path, or they led somewhere before. -/
def NotCutShort (s : Ramfs) (p q : CString) : Prop :=
  components q <+: components p ∨ ¬ components (q.take maxPath) <+: components p ∨
    (s.find q).isSome

/-- **What `ramfs_mkdir` adds.** After a call that returns a node, the name space is extended by
the path of the call, seen from any path `q`, if and only if `q` is not cut short to a
directory that the call creates. -/
theorem ramfs_mkdir_extends_iff {first a : Allocator} {events : List RamfsEvent} {s t : Ramfs}
    {p : CString} {n : Ptr} (run : Run RamfsStep (.init first .empty) events s)
    (short : p.length ≤ maxPath) (shortNames : ∀ name ∈ components p, name.length ≤ maxName)
    (made : s.mkdir a p = some (some n, t)) (q : CString) :
    MkdirExtends s t p q n ↔ NotCutShort s p q := by
  have valid := Ramfs.valid_run run
  obtain ⟨searched, node, present, isDir⟩ := Ramfs.mkdir_eq_some_iff.mp made
  have keeps := valid.findNode_keeps searched
  obtain ⟨r, root⟩ : ∃ r, s.root = some r := by
    cases root : s.root with
    | none =>
        rw [Ramfs.findNode, root] at searched
        cases searched
    | some r => exact ⟨r, rfl⟩
  have rootAfter : t.root = some r := keeps.root.trans root
  have path : tokens slash (p.take maxPath) = components p := by
    rw [List.take_of_length_le short, components_eq_tokens]
  rw [Ramfs.findNode_eq_walk root, path] at searched
  have search := valid.search ((valid.root r root).imp fun _ both => both.1) searched
  have extended := search.extends root shortNames (rfl : s.lookup [] r = some r) rfl
  rw [List.nil_append] at extended
  have resolves : ∀ names, names <+: components p → (t.lookup names r).isSome := by
    rintro names ⟨rest, whole⟩
    have found := extended.found
    rw [← whole, Ramfs.lookup_append] at found
    obtain ⟨c, reached, -⟩ := Option.bind_eq_some_iff.mp found
    rw [reached]
    rfl
  have before := Ramfs.find_eq_lookup root
  have after := Ramfs.find_eq_lookup rootAfter
  constructor
  · intro whole
    by_contra cut
    obtain ⟨notPrefix, spelled, missing⟩ : ¬ components q <+: components p ∧
        components (q.take maxPath) <+: components p ∧ ¬ (s.find q).isSome := by
      rw [NotCutShort] at cut
      tauto
    have same := whole.others notPrefix
    have somewhere := resolves _ spelled
    rw [← after q, same] at somewhere
    exact missing somewhere
  · intro notCut
    have found : t.lookup (components p) r = some n := extended.found
    have live : ∃ node, t.node r = some node :=
      (keeps.valid.root r rootAfter).imp fun _ both => both.1
    refine ⟨fun b => ?_, fun b => ?_, fun u fits spelled => ?_, fun notPrefix => ?_⟩
    · rw [keeps.valid.findNode_false, after p, List.take_of_length_le short, found]
    · refine Ramfs.mkdir_eq_some_iff.mpr ⟨?_, node, present, isDir⟩
      rw [Ramfs.findNode_eq_walk rootAfter, path]
      exact keeps.valid.walk_true_of_lookup b live found
    · rw [after u, List.take_of_length_le fits]
      exact resolves _ spelled
    · rcases notCut with isPrefix | outside | somewhere
      · exact absurd isPrefix notPrefix
      · rw [after q, before q]
        exact extended.apart _ outside
      · obtain ⟨c, old⟩ := Option.isSome_iff_exists.mp somewhere
        rw [old, after q]
        exact extended.kept _ c ((before q).symm.trans old)

/-- `/etc`, 251 slashes and a name. -/
def paddedPath : CString := etcPath ++ List.replicate 251 slash ++ hostsName

theorem sampleMkdir_made :
    sampleRamfs.mkdir (.pool 8) etcPath = some (some 2, sampleMkdir.apply sampleRamfs) := by
  have returned : (sampleRamfs.mkdir (.pool 8) etcPath).map Prod.fst = some (some 2) := by decide
  obtain ⟨⟨result, t⟩, called, same⟩ := Option.map_eq_some_iff.mp returned
  obtain rfl : result = some 2 := same
  have after : sampleMkdir.apply sampleRamfs = t := by
    rw [RamfsEvent.apply, sampleMkdir, RamfsEvent.call, called]
    rfl
  rw [after, called]

/-- A new directory, seen from a path below it. -/
theorem ramfs_mkdir_extends_etc :
    MkdirExtends sampleRamfs (sampleMkdir.apply sampleRamfs) etcPath hostsPath 2 :=
  (ramfs_mkdir_extends_iff (.nil _) (by decide) (by decide) sampleMkdir_made hostsPath).mpr
    (.inr (.inl (by decide)))

/-- A path that is cut to that of the new directory leads to it afterwards. -/
theorem ramfs_mkdir_extends_padded :
    ¬ MkdirExtends sampleRamfs (sampleMkdir.apply sampleRamfs) etcPath paddedPath 2 := by
  intro extended
  have notPrefix : ¬ components paddedPath <+: components etcPath := by decide
  have cut : tokens slash (paddedPath.take maxPath) = [etcName] := by
    have length : (etcPath ++ List.replicate 251 slash).length = maxPath := by
      rw [List.length_append, List.length_replicate]
      rfl
    have split : etcPath ++ List.replicate 251 slash =
        slash :: (etcName ++ slash :: List.replicate 250 slash) := rfl
    rw [paddedPath, List.take_left' length, split, tokens_sep,
      tokens_append (by decide) (by decide), tokens_replicate]
  have same := extended.others notPrefix
  have root : sampleRamfs.root = some 1 := by decide
  have rootAfter : (sampleMkdir.apply sampleRamfs).root = some 1 := by decide
  rw [Ramfs.find_eq root, Ramfs.find_eq rootAfter, cut] at same
  revert same
  decide

end NTux.Fs
