import NTux.Fs.NameSpace
import NTux.Fs.Shape

/-! # What a deletion takes away

`ramfs_delete_file` frees the first file that its path leads to, by the first 255 characters of
the path and by names that may be cut to 31. It takes away exactly the path it is given when
nothing of the path is cut, no sibling has the same name and nothing was made below the file
(`ramfs_delete_exactly_iff`).
-/

namespace NTux.Fs

open NTux.Foundation

/-- The node was in use and no longer is. -/
def Freed (s t : Ramfs) (file : Ptr) : Prop := s.node file ≠ none ∧ t.node file = none

namespace Ramfs

variable {s t : Ramfs} {r p q file parent : Ptr} {names : List CString} {name : CString}
  {node dir : Node}

/-! ## The file system without a file -/

/-- The file leaves its directory and is freed, with its contents. -/
def withoutFile (s : Ramfs) (file : Ptr) (node : Node) (parent : Ptr) (dir : Node) : Ramfs :=
  ((s.setNode parent { dir with children := dir.children.erase file }).kfree node.data).kfree
    (some file)

/-- A file that is found by names, and its directory. -/
structure FileAt (s : Ramfs) (r : Ptr) (way : List CString) (name : CString) (file : Ptr)
    (node : Node) (parent : Ptr) (dir : Node) : Prop where
  root : s.root = some r
  reached : s.lookup way r = some parent
  found : s.childNamed parent name = some file
  present : s.node file = some node
  named : node.name = name
  up : node.parent = some parent
  listed : s.node parent = some dir

/-- The names that lead to a node with a parent. -/
theorem Valid.fileAt (valid : s.Valid) (root : s.root = some r)
    (found : s.lookup names r = some file) (present : s.node file = some node)
    (up : node.parent = some parent) (listed : s.node parent = some dir) :
    ∃ way name, names = way ++ [name] ∧ s.FileAt r way name file node parent dir := by
  rcases List.eq_nil_or_concat names with rfl | ⟨way, name, rfl⟩
  · obtain rfl : r = file := Option.some.inj found
    obtain ⟨top, topPresent, noParent⟩ := valid.root r root
    obtain rfl := Option.some.inj (topPresent.symm.trans present)
    cases noParent.symm.trans up
  · rw [List.concat_eq_append] at found ⊢
    obtain ⟨above, other, reached, otherPresent, back, named⟩ := valid.lookup_snoc_spec found
    obtain rfl := Option.some.inj (present.symm.trans otherPresent)
    obtain rfl := Option.some.inj (up.symm.trans back)
    rw [lookup_snoc, reached, Option.bind_some] at found
    exact ⟨way, name, rfl, root, reached, found, present, named, up, listed⟩

namespace FileAt

variable {way : List CString}

theorem lookup (here : s.FileAt r way name file node parent dir) :
    s.lookup (way ++ [name]) r = some file := by
  rw [lookup_snoc, here.reached, Option.bind_some, here.found]

theorem ne_parent (here : s.FileAt r way name file node parent dir) (valid : s.Valid) :
    parent ≠ file := by
  intro same
  have names := valid.lookup_injective here.root here.reached (same ▸ here.lookup)
  have length := congrArg List.length names
  rw [List.length_append, List.length_singleton] at length
  omega

/-- What the nodes are without the file. -/
theorem without_node (here : s.FileAt r way name file node parent dir) (valid : s.Valid)
    (q : Ptr) : (s.withoutFile file node parent dir).node q =
      if q = file then none
      else if q = parent then some { dir with children := dir.children.erase file }
      else s.node q := by
  have noNode : ∀ d, node.data = some d →
      (s.setNode parent { dir with children := dir.children.erase file }).node d = none := by
    intro d data
    have free := (valid.blocks file node d here.present data).2
    rw [setNode_of_ne _ (ne_of_free free here.listed).symm, free]
  rw [withoutFile, kfree_node noNode, setNode_node]

theorem without_root (here : s.FileAt r way name file node parent dir) :
    (s.withoutFile file node parent dir).root = some r := by
  rw [← here.root, withoutFile]
  cases node.data <;> rfl

/-- The nodes that are left have their names. -/
theorem without_named (here : s.FileAt r way name file node parent dir) (valid : s.Valid)
    (other : CString) {q : Ptr} (left : q ≠ file) :
    (s.withoutFile file node parent dir).named other q = s.named other q := by
  rw [Ramfs.named, here.without_node valid, if_neg left, Ramfs.named]
  split
  · next isParent =>
      rw [isParent, here.listed]
      rfl
  · rfl

/-- Other directories do not list the file. -/
theorem unlisted (here : s.FileAt r way name file node parent dir) (valid : s.Valid) {q : Ptr}
    {other : Node} (present : s.node q = some other) (notParent : q ≠ parent) :
    file ∉ other.children := by
  intro member
  obtain ⟨child, childPresent, back⟩ := valid.children q other present file member
  obtain rfl := Option.some.inj (here.present.symm.trans childPresent)
  exact notParent (Option.some.inj (back.symm.trans here.up))

/-- Other directories find the children that they found. -/
theorem without_childNamed (here : s.FileAt r way name file node parent dir) (valid : s.Valid)
    (other : CString) (left : q ≠ file) (notParent : q ≠ parent) :
    (s.withoutFile file node parent dir).childNamed q other = s.childNamed q other := by
  rw [childNamed, here.without_node valid, if_neg left, if_neg notParent, childNamed]
  cases listed : s.node q with
  | none => rfl
  | some above =>
      rw [Option.bind_some, Option.bind_some, ← List.head?_filter, ← List.head?_filter]
      apply congrArg List.head?
      apply List.filter_congr
      intro c member
      apply here.without_named valid
      rintro rfl
      exact here.unlisted valid listed notParent member

/-- The directory keeps its other children in order. -/
theorem erase_eq (here : s.FileAt r way name file node parent dir) (valid : s.Valid) :
    dir.children.erase file = dir.children.filter (· ≠ file) := by
  rw [(valid.distinct parent dir here.listed).erase_eq_filter]
  refine List.filter_congr fun c _ => Bool.eq_iff_iff.mpr ?_
  rw [bne_iff_ne, decide_eq_true_iff]

/-- The directory finds its children but the file. -/
theorem without_childNamed_parent (here : s.FileAt r way name file node parent dir)
    (valid : s.Valid) (other : CString) :
    (s.withoutFile file node parent dir).childNamed parent other =
      (dir.children.filter (· ≠ file)).find? (s.named other) := by
  rw [childNamed, here.without_node valid, if_neg (here.ne_parent valid), if_pos rfl,
    Option.bind_some]
  dsimp only
  rw [here.erase_eq valid, ← List.head?_filter, ← List.head?_filter]
  apply congrArg List.head?
  apply List.filter_congr
  intro c member
  exact here.without_named valid other (of_decide_eq_true (List.mem_filter.mp member).2)

/-- By another name the directory finds what it found. -/
theorem without_childNamed_other (here : s.FileAt r way name file node parent dir)
    (valid : s.Valid) {other : CString} (differ : other ≠ name) :
    (s.withoutFile file node parent dir).childNamed parent other = s.childNamed parent other := by
  have unnamed : s.named other file = false := by
    rw [Bool.eq_false_iff]
    intro called
    obtain ⟨same, present, isOther⟩ := named_iff.mp called
    obtain rfl := Option.some.inj (here.present.symm.trans present)
    exact differ (isOther.symm.trans here.named)
  rw [here.without_childNamed_parent valid, childNamed, here.listed, Option.bind_some,
    List.find?_filter]
  apply congrArg (fun test => dir.children.find? test)
  funext c
  by_cases isFile : c = file
  · simp only [isFile, unnamed, Bool.false_eq_true, and_false, decide_false]
  · simp only [isFile, ne_eq, not_false_eq_true, decide_true, true_and, Bool.decide_eq_true]

/-- Names that do not pass through the file lead where they led. -/
theorem without_lookup (here : s.FileAt r way name file node parent dir) (valid : s.Valid)
    {others : List CString} (outside : ¬ way ++ [name] <+: others) :
    (s.withoutFile file node parent dir).lookup others r = s.lookup others r := by
  suffices onward : ∀ before q, s.lookup before r = some q → q ≠ file →
      ¬ way ++ [name] <+: before ++ others →
        (s.withoutFile file node parent dir).lookup others q = s.lookup others q by
    refine onward [] r rfl ?_ outside
    rintro rfl
    have names := valid.lookup_injective here.root here.lookup (rfl : s.lookup [] r = some r)
    exact List.append_ne_nil_of_right_ne_nil way (List.cons_ne_nil name []) names
  clear outside
  induction others with
  | nil => exact fun before q _ _ _ => rfl
  | cons other rest ih =>
      intro before q reached left outside
      have next : (s.withoutFile file node parent dir).childNamed q other =
          s.childNamed q other := by
        by_cases isParent : q = parent
        · subst isParent
          obtain rfl := valid.lookup_injective here.root reached here.reached
          apply here.without_childNamed_other valid
          rintro rfl
          exact outside (List.prefix_append_right_inj before |>.mpr ⟨rest, rfl⟩)
        · exact here.without_childNamed valid other left isParent
      rw [Ramfs.lookup, Ramfs.lookup, next]
      cases first : s.childNamed q other with
      | none => rfl
      | some c =>
          rw [Option.bind_some, Option.bind_some]
          have step : s.lookup (before ++ [other]) r = some c := by
            rw [lookup_snoc, reached, Option.bind_some, first]
          have whole : before ++ other :: rest = before ++ [other] ++ rest := by simp
          refine ih (before ++ [other]) c step ?_ (whole ▸ outside)
          rintro rfl
          rw [valid.lookup_injective here.root here.lookup step, whole] at outside
          exact outside (List.prefix_append _ _)

/-- The file's own path leads to another child of its name, if there is one. -/
theorem without_lookup_self (here : s.FileAt r way name file node parent dir) (valid : s.Valid) :
    (s.withoutFile file node parent dir).lookup (way ++ [name]) r =
      (dir.children.filter (· ≠ file)).find? (s.named name) := by
  have shorter : ¬ way ++ [name] <+: way := by
    intro inside
    have length := inside.length_le
    rw [List.length_append, List.length_singleton] at length
    omega
  rw [lookup_snoc, here.without_lookup valid shorter, here.reached, Option.bind_some,
    here.without_childNamed_parent valid]

/-- The path leads nowhere afterwards if no other child of the directory has the name. -/
theorem without_gone_iff (here : s.FileAt r way name file node parent dir) (valid : s.Valid) :
    (s.withoutFile file node parent dir).lookup (way ++ [name]) r = none ↔
      ∀ twin ∈ dir.children, s.named name twin → twin = file := by
  rw [here.without_lookup_self valid, List.find?_eq_none]
  constructor
  · intro noOther twin member called
    by_contra differ
    exact noOther twin (List.mem_filter.mpr ⟨member, decide_eq_true differ⟩) called
  · intro single twin member called
    obtain ⟨listed, differ⟩ := List.mem_filter.mp member
    exact of_decide_eq_true differ (single twin listed called)

/-- The nodes that are left keep their parents and their order. -/
theorem without_children (here : s.FileAt r way name file node parent dir) (valid : s.Valid)
    {q : Ptr} {other : Node} (present : s.node q = some other) (left : q ≠ file) :
    ∃ after, (s.withoutFile file node parent dir).node q = some after ∧
      after.parent = other.parent ∧ after.children = other.children.filter (· ≠ file) := by
  rw [here.without_node valid, if_neg left]
  split
  · next isParent =>
      subst isParent
      obtain rfl := Option.some.inj (here.listed.symm.trans present)
      exact ⟨_, rfl, rfl, here.erase_eq valid⟩
  · next notParent =>
      refine ⟨other, present, rfl, (List.filter_eq_self.mpr fun c member => ?_).symm⟩
      apply decide_eq_true
      rintro rfl
      exact here.unlisted valid present notParent member

theorem freed_iff (here : s.FileAt r way name file node parent dir) (valid : s.Valid)
    (other : Ptr) : Freed s (s.withoutFile file node parent dir) other ↔ other = file := by
  rw [Freed, here.without_node valid]
  constructor
  · rintro ⟨inUse, gone⟩
    by_contra differ
    rw [if_neg differ] at gone
    split at gone
    · cases gone
    · exact inUse gone
  · rintro rfl
    exact ⟨here.present ▸ Option.some_ne_none node, if_pos rfl⟩

/-- A node that is left was in use. -/
theorem without_old (here : s.FileAt r way name file node parent dir) (valid : s.Valid) {q : Ptr}
    {after : Node} (stays : (s.withoutFile file node parent dir).node q = some after) :
    q ≠ file ∧ ∃ old, s.node q = some old ∧ after.parent = old.parent ∧
      after.children = old.children.filter (· ≠ file) := by
  have left : q ≠ file := by
    rintro rfl
    rw [here.without_node valid, if_pos rfl] at stays
    cases stays
  have before : ∃ old, s.node q = some old := by
    by_contra missing
    rw [here.without_node valid, if_neg left] at stays
    split at stays
    · next isParent => exact missing ⟨dir, isParent ▸ here.listed⟩
    · exact missing ⟨after, stays⟩
  obtain ⟨old, live⟩ := before
  obtain ⟨new, same, parents, kept⟩ := here.without_children valid live left
  obtain rfl := Option.some.inj (stays.symm.trans same)
  exact ⟨left, old, live, parents, kept⟩

/-- Directories list what is left of their children. -/
theorem without_siblings (here : s.FileAt r way name file node parent dir) (valid : s.Valid)
    {q : Ptr} {old after : Node} (live : s.node q = some old)
    (stays : (s.withoutFile file node parent dir).node q = some after) :
    after.children =
      old.children.filter fun c => ((s.withoutFile file node parent dir).node c).isSome := by
  obtain ⟨-, same, present, -, kept⟩ := here.without_old valid stays
  obtain rfl := Option.some.inj (live.symm.trans present)
  rw [kept]
  apply List.filter_congr
  intro c below
  obtain ⟨child, childLive, -⟩ := valid.children q old live c below
  have inUse : s.node c ≠ none := childLive ▸ Option.some_ne_none child
  rw [Bool.eq_iff_iff, decide_eq_true_iff, Option.isSome_iff_ne_none, ne_eq,
    ← here.freed_iff valid c, Freed, not_and]
  exact ⟨fun stays => stays inUse, fun stays _ => stays⟩

/-- Paths below a file without children lead nowhere, before and afterwards. -/
theorem without_below (here : s.FileAt r way name file node parent dir)
    (noChild : node.children = [])
    (nowhere : (s.withoutFile file node parent dir).lookup (way ++ [name]) r = none)
    (next : CString) (rest : List CString) :
    (s.withoutFile file node parent dir).lookup (way ++ [name] ++ next :: rest) r =
      s.lookup (way ++ [name] ++ next :: rest) r := by
  rw [lookup_append, nowhere, lookup_append, here.lookup, Option.bind_none, Option.bind_some,
    Ramfs.lookup, childNamed_leaf here.present noChild, Option.bind_none]

end FileAt

end Ramfs

/-- The file of the path `p` is the one node that was freed: directories list what is left of
their children in the old order, `p` leads nowhere, no node refers to the file, and another
path `q` leads where it did. -/
structure DeletesExactly (s t : Ramfs) (p q : CString) : Prop where
  spelled : ∃ r, s.root = some r ∧ ∀ file, Freed s t file ↔ s.descend (components p) r = some file
  siblings : ∀ d dir after, s.node d = some dir → t.node d = some after →
    after.children = dir.children.filter fun c => (t.node c).isSome
  gone : ∀ a, t.findNode a false p = some (none, t)
  unreferenced : ∀ file, Freed s t file → ∀ d node, t.node d = some node →
    node.parent ≠ some file ∧ file ∉ node.children
  others : ¬ components p <+: components q → t.find q = s.find q

/-- The path `p` is not cut within a name, its file has a name of its own and nothing below it,
and the first 255 characters of `q` do not spell `p` unless `q` is `p` or below it. -/
structure Deletable (s : Ramfs) (p q : CString) : Prop where
  whole : components (p.take maxPath) = components p
  single : ∀ file node parent dir, s.find p = some file → s.node file = some node →
    node.parent = some parent → s.node parent = some dir →
      ∀ twin ∈ dir.children, s.named node.name twin → twin = file
  childless : ∀ file, s.find p = some file → ∀ d node, s.node d = some node →
    node.parent ≠ some file
  uncut : components (q.take maxPath) = components p → components p <+: components q

namespace Ramfs.FileAt

variable {s : Ramfs} {r file parent : Ptr} {way : List CString} {name p q : CString}
  {node dir : Node}

/-- What an exact deletion asks of the two paths and of the file. -/
theorem deletable (here : s.FileAt r way name file node parent dir) (valid : s.Valid)
    (cut : components (p.take maxPath) = way ++ [name])
    (validAfter : (s.withoutFile file node parent dir).Valid)
    (exactly : DeletesExactly s (s.withoutFile file node parent dir) p q) : Deletable s p q := by
  have before := find_eq_lookup here.root
  have after := find_eq_lookup here.without_root
  have freed : Freed s (s.withoutFile file node parent dir) file :=
    (here.freed_iff valid file).mpr rfl
  have found : s.find p = some file := by rw [before, cut, here.lookup]
  obtain ⟨r', root', spelled⟩ := exactly.spelled
  obtain rfl := Option.some.inj (here.root.symm.trans root')
  have spelledFile := (spelled file).mp freed
  rw [← lookup_eq_descend] at spelledFile
  have whole : components (p.take maxPath) = components p :=
    cut.trans (valid.lookup_injective here.root here.lookup spelledFile)
  have gone : (s.withoutFile file node parent dir).find p = none := by
    have nowhere := exactly.gone (.pool 0)
    rw [validAfter.findNode_false] at nowhere
    exact (Prod.mk.inj (Option.some.inj nowhere)).1
  refine ⟨whole, ?_, ?_, ?_⟩
  · intro file' node' parent' dir' found' present' up' listed'
    obtain rfl := Option.some.inj (found.symm.trans found')
    obtain rfl := Option.some.inj (here.present.symm.trans present')
    obtain rfl := Option.some.inj (here.up.symm.trans up')
    obtain rfl := Option.some.inj (here.listed.symm.trans listed')
    rw [here.named]
    apply (here.without_gone_iff valid).mp
    rw [← cut, ← after, gone]
  · intro file' found' d child live back
    obtain rfl := Option.some.inj (found.symm.trans found')
    have left : d ≠ file := by
      rintro rfl
      obtain rfl := Option.some.inj (here.present.symm.trans live)
      exact here.ne_parent valid (Option.some.inj (here.up.symm.trans back))
    obtain ⟨stayed, stays, same, -⟩ := here.without_children valid live left
    exact (exactly.unreferenced file freed d stayed stays).1 (same.trans back)
  · intro same
    by_contra outside
    have kept := exactly.others outside
    rw [after q, before q, same, ← whole, ← after p, ← before p, gone, found] at kept
    cases kept

/-- A deletion with these properties is exact. -/
theorem exactly (here : s.FileAt r way name file node parent dir) (valid : s.Valid)
    (cut : components (p.take maxPath) = way ++ [name])
    (validAfter : (s.withoutFile file node parent dir).Valid) (deletable : Deletable s p q) :
    DeletesExactly s (s.withoutFile file node parent dir) p q := by
  have before := find_eq_lookup here.root
  have after := find_eq_lookup here.without_root
  have found : s.find p = some file := by rw [before, cut, here.lookup]
  have nowhere : (s.withoutFile file node parent dir).lookup (way ++ [name]) r = none :=
    (here.without_gone_iff valid).mpr fun twin member called =>
      deletable.single file node parent dir found here.present here.up here.listed twin member
        (here.named.symm ▸ called)
  have noChild : node.children = [] := by
    apply List.eq_nil_iff_forall_not_mem.mpr
    intro c below
    obtain ⟨child, live, back⟩ := valid.children file node here.present c below
    exact deletable.childless file found c child live back
  refine ⟨⟨r, here.root, fun other => ?_⟩, ?_, fun b => ?_, ?_, fun outside => ?_⟩
  · rw [here.freed_iff valid, ← lookup_eq_descend, ← deletable.whole, cut, here.lookup,
      Option.some_inj]
    exact eq_comm
  · exact fun d old new live stays => here.without_siblings valid live stays
  · rw [validAfter.findNode_false, after p, cut, nowhere]
  · intro file' gone d new stays
    obtain rfl := (here.freed_iff valid file').mp gone
    obtain ⟨-, old, live, parents, kept⟩ := here.without_old valid stays
    refine ⟨parents ▸ deletable.childless file' found d old live, ?_⟩
    rw [kept]
    exact fun below => of_decide_eq_true (List.mem_filter.mp below).2 rfl
  · rw [after q, before q]
    by_cases through : way ++ [name] <+: components (q.take maxPath)
    · obtain ⟨rest, spells⟩ := through
      cases rest with
      | nil =>
          rw [List.append_nil, ← cut, deletable.whole] at spells
          exact absurd (deletable.uncut spells.symm) outside
      | cons next rest =>
          rw [← spells]
          exact here.without_below noChild nowhere next rest
    · exact here.without_lookup valid through

end Ramfs.FileAt

/-- **What `ramfs_delete_file` takes away.** A call that returns a node deletes the file of its
path and nothing else, seen from any path `q`, if and only if neither path is cut short to
another one, the file has a name of its own and nothing was made below it. -/
theorem ramfs_delete_exactly_iff {first a : Allocator} {events : List RamfsEvent} {s t : Ramfs}
    {p : CString} {parent : Ptr} (run : Run RamfsStep (.init first .empty) events s)
    (done : s.deleteFile a p = some (some parent, t)) (q : CString) :
    DeletesExactly s t p q ↔ Deletable s p q := by
  have valid := Ramfs.valid_run run
  obtain ⟨no, -⟩ | ⟨file, parent', node, dir, isParent, found, present, up, listed, member, rfl⟩ :=
    valid.deleteFile_cases done
  · cases no
  obtain rfl := Option.some.inj isParent
  obtain ⟨r, root, -⟩ := Option.bind_eq_some_iff.mp found
  rw [Ramfs.find_eq_lookup root] at found
  obtain ⟨way, name, cut, here⟩ := valid.fileAt root found present up listed
  have validAfter : (s.withoutFile file node parent dir).Valid := valid.delete present up listed
  exact ⟨here.deletable valid cut validAfter, here.exactly valid cut validAfter⟩

/-! ## A file with a directory in it -/

def hostsDelete : RamfsEvent := .deleteFile (.pool 8) hostsPath

theorem hostsDelete_done {s : Ramfs}
    (returned : (s.deleteFile (.pool 8) hostsPath).map Prod.fst = some (some 2)) :
    s.deleteFile (.pool 8) hostsPath = some (some 2, hostsDelete.apply s) := by
  obtain ⟨⟨result, t⟩, called, same⟩ := Option.map_eq_some_iff.mp returned
  obtain rfl : result = some 2 := same
  rw [RamfsEvent.apply, hostsDelete, RamfsEvent.call, called]
  rfl

/-- The nodes of `/etc/hosts` and of the directories above it. -/
theorem shapeCreate_node (p : Ptr) : (shapeCreate.apply sampleRamfs).node p =
    if p = 2 then some ⟨etcName, .dir, some 1, [3], none, 0⟩
    else if p = 3 then some ⟨hostsName, .file, some 2, [], some 4, etcPath.length⟩
    else if p = 1 then some ⟨[], .dir, none, [2], none, 0⟩
    else none := by
  have updates : (shapeCreate.apply sampleRamfs).node =
      Function.update (Function.update (Function.update (Function.update (Function.update
        (Function.update (fun _ => none) 1 (some ⟨[], .dir, none, [], none, 0⟩))
        2 (some ⟨etcName, .dir, some 1, [], none, 0⟩))
        1 (some ⟨[], .dir, none, [2], none, 0⟩))
        3 (some ⟨hostsName, .file, some 2, [], none, etcPath.length⟩))
        3 (some ⟨hostsName, .file, some 2, [], some 4, etcPath.length⟩))
        2 (some ⟨etcName, .dir, some 1, [3], none, 0⟩) := rfl
  rw [updates, Function.update_idem]
  simp only [Function.update_apply]
  split_ifs <;> rfl

/-- A file without anything below it, seen from its directory. -/
theorem ramfs_delete_exactly_hosts :
    DeletesExactly (shapeCreate.apply sampleRamfs)
      (hostsDelete.apply (shapeCreate.apply sampleRamfs)) hostsPath etcPath := by
  have step : RamfsStep sampleRamfs shapeCreate (shapeCreate.apply sampleRamfs) :=
    ramfsStep_apply (by decide)
  have found : (shapeCreate.apply sampleRamfs).find hostsPath = some 3 := by decide
  refine (ramfs_delete_exactly_iff (.single step) (hostsDelete_done (by decide)) etcPath).mpr
    ⟨by decide, ?_, ?_, by decide⟩
  · intro file node parent dir found' present up listed twin member called
    obtain rfl := Option.some.inj (found.symm.trans found')
    obtain rfl := Option.some.inj ((shapeCreate_node 3).symm.trans present)
    obtain rfl := Option.some.inj up
    obtain rfl := Option.some.inj ((shapeCreate_node 2).symm.trans listed)
    exact List.mem_singleton.mp member
  · intro file found' d node live back
    obtain rfl := Option.some.inj (found.symm.trans found')
    rw [shapeCreate_node] at live
    split_ifs at live <;> obtain rfl := Option.some.inj live <;> cases back

/-- A directory that was made in a file keeps referring to it. -/
theorem ramfs_delete_exactly_fileDir :
    ∃ s t, Run RamfsStep sampleRamfs [shapeCreate, shapeMkdir] s ∧
      s.deleteFile (.pool 8) hostsPath = some (some 2, t) ∧
      ¬ DeletesExactly s t hostsPath etcPath := by
  refine ⟨shapeMkdir.apply (shapeCreate.apply sampleRamfs), _,
    .cons (ramfsStep_apply (by decide)) (.single (ramfsStep_apply (by decide))),
    hostsDelete_done (by decide), fun exactly => ?_⟩
  have freed : Freed (shapeMkdir.apply (shapeCreate.apply sampleRamfs))
      (hostsDelete.apply (shapeMkdir.apply (shapeCreate.apply sampleRamfs))) 3 :=
    ⟨by decide, by decide⟩
  have refers : ((hostsDelete.apply (shapeMkdir.apply (shapeCreate.apply sampleRamfs))).node
      5).map (·.parent) = some (some 3) := by decide
  obtain ⟨node, stays, up⟩ := Option.map_eq_some_iff.mp refers
  exact (exactly.unreferenced 3 freed 5 node stays).1 up

end NTux.Fs
