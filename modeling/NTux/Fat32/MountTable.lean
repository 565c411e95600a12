import NTux.Fat32.Paths
import NTux.Fat32.View
import NTux.Fat32.Geometry
import NTux.Foundation.Chain
import NTux.Foundation.Runs

/-! # The list of mounted volumes

`g_fat_list` is linked through the `Fat` structures themselves, which the callers of `fat_mount`
own. `fat_mount` fills a structure in field by field and pushes it without looking for it, and
`fat_umount` unlinks it before it writes what is left to write. The list is well formed in all
runs where no structure is mounted again and that writing succeeds (`mountTable_kept`).
-/

namespace NTux.Fat32

open NTux.Foundation Command

/-- `g_fat_list`, the structures at their addresses, and the disks behind their operations. -/
structure Mounts where
  head : Nat
  next : Nat → Nat
  fats : Nat → Fat
  ops : Nat → Nat
  disks : Nat → Disk

namespace Mounts

def setFat (p : Nat) (f : Fat → Fat) (m : Mounts) : Mounts :=
  { m with fats := Function.update m.fats p (f (m.fats p)) }

def setDisk (ops : Nat) (disk : Disk) (m : Mounts) : Mounts :=
  { m with disks := Function.update m.disks ops disk }

/-! ## Mounting -/

/-- The end of `fat_mount`: the structure has its name and operations and is pushed. -/
def push (ops p : Nat) (name : List Byte) (m : Mounts) : Mounts :=
  let m := m.setFat p fun fat => { fat with name := name, sect := 0 }
  { m with ops := Function.update m.ops p ops
           next := Function.update m.next p m.head
           head := p }

/-- `fat_mount`. -/
def fatMount (ops : Nat) (partition : Fin 4) (p : Nat) (name : List Byte) (m : Mounts) :
    Except Stop Unit × Mounts :=
  match probe (m.disks ops) partition with
  | (.error err, _, disk) => (.error (.code err), m.setDisk ops disk)
  | (.ok lba, buf, disk) =>
    let geometry := buf.bpb.geometry lba
    let m := m.setFat p fun fat => { fat with geometry := geometry }
    match disk.read geometry.infoSect with
    | (false, _, disk) => (.error (.code errIo), m.setDisk ops disk)
    | (true, buf, disk) =>
      let m := m.setFat p fun fat =>
        { fat with lastUsed := (mountInfo buf).1, freeCnt := (mountInfo buf).2 }
      let m := m.setDisk ops disk
      if 32 < name.length then (.error (.code errParam), m) else (.ok (), m.push ops p name)

/-! ## Unmounting -/

/-- `*it`: the list pointer itself, or the one in a structure. -/
def load (m : Mounts) : Option Nat → Nat
  | none => m.head
  | some p => m.next p

def store (value : Nat) (m : Mounts) : Option Nat → Mounts
  | none => { m with head := value }
  | some p => { m with next := Function.update m.next p value }

/-- The loop of `fat_umount`: the pointer to the structure, or the null pointer. -/
def findLink (m : Mounts) (fat : Nat) : Nat → Option Nat → Option (Option Nat)
  | 0, _ => none
  | fuel + 1, it =>
    if m.load it ≠ 0 ∧ m.load it ≠ fat then findLink m fat fuel (some (m.load it)) else some it

/-- `sync_fs` of a structure. -/
def syncFat (fat : Nat) (m : Mounts) : Except Stop Unit × Mounts :=
  let (result, v) := syncFs.run ⟨m.fats fat, m.disks (m.ops fat), []⟩
  (result, (m.setFat fat fun _ => v.fat).setDisk (m.ops fat) v.disk)

/-- `fat_umount`. -/
def fatUmount (fuel fat : Nat) (m : Mounts) : Except Stop Unit × Mounts :=
  match m.findLink fat fuel none with
  | none => (.error .running, m)
  | some it =>
    if m.load it = 0 then (.error (.code errParam), m)
    else (m.store (m.next fat) it).syncFat fat

/-- `find_fat_volume`, from a structure of the list on. -/
def findFatVolume (m : Mounts) (name : List Byte) : Nat → Nat → Except Stop (Option Nat)
  | 0, _ => .error .running
  | fuel + 1, it =>
    if it = 0 then .ok none
    else if name.length = (m.fats it).name.length ∧
        !memcmp (inMemory name) (inMemory (m.fats it).name) name.length then .ok (some it)
    else findFatVolume m name fuel (m.next it)

/-- Mounting gives what it gives for the structure alone. -/
theorem fatMount_alone (ops : Nat) (partition : Fin 4) (p : Nat) (name : List Byte) (m : Mounts) :
    match NTux.Fat32.fatMount (m.disks ops) partition (m.fats p) name with
    | (.ok fat, _, disk) => (m.fatMount ops partition p name).1 = .ok () ∧
        (m.fatMount ops partition p name).2.fats p = fat ∧
        (m.fatMount ops partition p name).2.disks ops = disk
    | (.error err, _, disk) => (m.fatMount ops partition p name).1 = .error (.code err) ∧
        (m.fatMount ops partition p name).2.disks ops = disk := by
  unfold NTux.Fat32.fatMount fatMount
  obtain ⟨err | lba, buf, disk⟩ := probe (m.disks ops) partition
  · exact ⟨rfl, Function.update_self _ _ _⟩
  · dsimp only
    obtain ⟨_ | _, info, disk'⟩ := disk.read (buf.bpb.geometry lba).infoSect
    · exact ⟨rfl, Function.update_self _ _ _⟩
    · dsimp only
      by_cases long : 32 < name.length
      · rw [if_pos long, if_pos long]
        exact ⟨rfl, Function.update_self _ _ _⟩
      · rw [if_neg long, if_neg long]
        refine ⟨rfl, ?_, Function.update_self _ _ _⟩
        simp only [push, setFat, setDisk, Function.update_self]

/-! ## What the functions change -/

variable {m n : Mounts} {p q fat fuel : Nat} {nodes : List Nat}

/-- The list is the same, and the structures but for one. -/
structure SameBut (p : Nat) (m n : Mounts) : Prop where
  head : n.head = m.head
  next : n.next = m.next
  others : ∀ q, q ≠ p → n.fats q = m.fats q ∧ n.ops q = m.ops q

/-- A structure was pushed. -/
structure Pushed (p : Nat) (m n : Mounts) : Prop where
  head : n.head = p
  next : n.next = Function.update m.next p m.head
  others : ∀ q, q ≠ p → n.fats q = m.fats q ∧ n.ops q = m.ops q

/-- What `fat_mount` does: its probe fails, or it fails later, or it pushes the structure. -/
theorem fatMount_cases (ops : Nat) (partition : Fin 4) (p : Nat) (name : List Byte) (m : Mounts) :
    (∃ err disk, (probe (m.disks ops) partition).1 = .error err ∧
      m.fatMount ops partition p name = (.error (.code err), m.setDisk ops disk)) ∨
    (∃ lba err n, (probe (m.disks ops) partition).1 = .ok lba ∧
      m.fatMount ops partition p name = (.error (.code err), n) ∧ SameBut p m n) ∨
    ∃ lba n, (probe (m.disks ops) partition).1 = .ok lba ∧
      m.fatMount ops partition p name = (.ok (), n) ∧ Pushed p m n := by
  unfold fatMount
  obtain ⟨err | lba, buf, disk⟩ := probe (m.disks ops) partition
  · exact .inl ⟨err, disk, rfl, rfl⟩
  · dsimp only
    obtain ⟨_ | _, info, disk'⟩ := disk.read (buf.bpb.geometry lba).infoSect
    · refine .inr (.inl ⟨lba, errIo, _, rfl, rfl, rfl, rfl, fun q differ => ⟨?_, rfl⟩⟩)
      exact Function.update_of_ne differ _ _
    · dsimp only
      split
      · refine .inr (.inl ⟨lba, errParam, _, rfl, rfl, rfl, rfl, fun q differ => ⟨?_, rfl⟩⟩)
        exact (Function.update_of_ne differ _ _).trans (Function.update_of_ne differ _ _)
      · refine .inr (.inr ⟨lba, _, rfl, rfl, rfl, rfl, fun q differ => ⟨?_, ?_⟩⟩)
        · exact (Function.update_of_ne differ _ _).trans
            ((Function.update_of_ne differ _ _).trans (Function.update_of_ne differ _ _))
        · exact Function.update_of_ne differ _ _

/-- The loop of `fat_umount` ends at the end of the list, or at the pointer to the structure. -/
theorem findLink_spec : ∀ {nodes : List Nat} {fuel : Nat} {it : Option Nat},
    Chain m.next 0 (m.load it) nodes → nodes.length < fuel →
      (fat ∉ nodes → ∃ link, m.findLink fat fuel it = some link ∧ m.load link = 0) ∧
      ∀ before after, nodes = before ++ fat :: after → fat ∉ before →
        m.findLink fat fuel it = some (before.getLast?.elim it some)
  | nodes, 0, _, _, enough => absurd enough (Nat.not_lt_zero _)
  | [], fuel + 1, it, ends, _ => by
      have stops : m.findLink fat (fuel + 1) it = some it := if_neg fun both => both.1 ends
      refine ⟨fun _ => ⟨it, stops, ends⟩, fun before after split => ?_⟩
      exact absurd split.symm (by simp)
  | node :: rest, fuel + 1, it, chain, enough => by
      obtain ⟨here, nonnull, tail⟩ := chain
      by_cases found : node = fat
      · have stops : m.findLink fat (fuel + 1) it = some it :=
          if_neg fun both => both.2 (here.trans found)
        refine ⟨fun absent => absurd (found ▸ List.mem_cons_self) absent, fun before after split other => ?_⟩
        cases before with
        | nil => exact stops
        | cons first before =>
            obtain ⟨rfl, -⟩ := List.cons.inj split
            exact absurd (found ▸ List.mem_cons_self) other
      · have goesOn : m.findLink fat (fuel + 1) it = m.findLink fat fuel (some node) := by
          rw [findLink, here, if_pos ⟨nonnull, found⟩]
        obtain ⟨absent, present⟩ := @findLink_spec rest fuel (some node) tail (by simpa using enough)
        rw [goesOn]
        refine ⟨fun other => absent fun later => other (List.mem_cons_of_mem _ later), ?_⟩
        intro before after split other
        cases before with
        | nil => exact absurd (List.cons.inj split).1 found
        | cons first before =>
            obtain ⟨rfl, split'⟩ := List.cons.inj split
            rw [present before after split' fun later => other (List.mem_cons_of_mem _ later)]
            cases before with
            | nil => rfl
            | cons second before => rw [List.getLast?_cons_cons]; rfl

/-- The list without a structure, once the pointer to it leads past it. -/
theorem unlink_chain {before after : List Nat} (chain : Chain m.next 0 m.head (before ++ fat :: after))
    (nodup : (before ++ fat :: after).Nodup) :
    Chain (m.store (m.next fat) (before.getLast?.elim none some)).next 0
      (m.store (m.next fat) (before.getLast?.elim none some)).head (before ++ after) := by
  rcases before.eq_nil_or_concat with rfl | ⟨init, prev, rfl⟩
  · exact Chain.tail (chain.1 ▸ chain)
  · rw [List.concat_eq_append] at chain nodup ⊢
    rw [List.getLast?_concat]
    change Chain (Function.update m.next prev (m.next fat)) 0 m.head _
    rw [List.append_assoc, List.singleton_append] at chain nodup ⊢
    refine chain.unlink (Function.update_self _ _ _) fun old member => Function.update_of_ne ?_ _ _
    rintro rfl
    have alone := (List.nodup_middle.mp nodup)
    have outside := (List.nodup_cons.mp alone).1
    refine outside ?_
    rcases List.mem_append.mp member with inside | inside
    · exact List.mem_append_left _ inside
    · exact List.mem_append_right _ (List.mem_cons_of_mem _ inside)

/-- The pointer to a structure of the list. -/
theorem load_link {before after : List Nat} (chain : Chain m.next 0 m.head (before ++ fat :: after)) :
    m.load (before.getLast?.elim none some) = fat := by
  rcases before.eq_nil_or_concat with rfl | ⟨init, prev, rfl⟩
  · exact chain.1
  · rw [List.concat_eq_append, List.append_assoc, List.singleton_append] at chain
    rw [List.concat_eq_append, List.getLast?_concat]
    exact chain.next_eq

/-- More turns do not matter. -/
theorem findLink_more {it link : Option Nat} (found : m.findLink fat fuel it = some link) (more : Nat) :
    m.findLink fat (fuel + more) it = some link := by
  induction fuel generalizing it with
  | zero => cases found
  | succ fuel ih =>
      rw [Nat.succ_add, Nat.succ_eq_add_one, findLink]
      rw [findLink] at found
      split_ifs at found ⊢ with goesOn
      · exact ih found
      · exact found

/-- What the loop of `fat_umount` has found when it ends. -/
theorem findLink_found {link : Option Nat} (chain : Chain m.next 0 m.head nodes)
    (found : m.findLink fat fuel none = some link) :
    (fat ∉ nodes → m.load link = 0) ∧ ∀ before after, nodes = before ++ fat :: after →
      fat ∉ before → link = before.getLast?.elim none some := by
  have later := findLink_more found (nodes.length + 1)
  obtain ⟨absent, present⟩ := @findLink_spec m fat nodes (fuel + (nodes.length + 1)) none chain
    (by omega)
  rw [later] at absent present
  refine ⟨fun other => ?_, fun before after split other => ?_⟩
  · obtain ⟨link', same, ends⟩ := absent other
    cases same
    exact ends
  · exact Option.some.inj (present before after split other)

/-- `find_fat_volume` gives what it gives for the volumes as a list. -/
theorem findFatVolume_chain (name : List Byte) : ∀ {nodes : List Nat} {fuel it : Nat},
    Chain m.next 0 it nodes → nodes.length < fuel →
      m.findFatVolume name fuel it =
        .ok ((NTux.Fat32.findFatVolume name (nodes.map m.fats)).bind (nodes[·]?))
  | nodes, 0, _, _, enough => absurd enough (Nat.not_lt_zero _)
  | [], fuel + 1, it, ends, _ => if_pos ends
  | node :: rest, fuel + 1, it, chain, enough => by
      obtain ⟨rfl, nonnull, tail⟩ := chain
      rw [findFatVolume, if_neg nonnull, List.map_cons, NTux.Fat32.findFatVolume]
      split_ifs with found
      · rfl
      · rw [findFatVolume_chain name tail (by simpa using enough)]
        cases NTux.Fat32.findFatVolume name (rest.map m.fats) <;> rfl

/-! ## Calls -/

/-- What may be called, and everything else that changes structures and disks. -/
inductive Call where
  | mount (ops : Nat) (partition : Fin 4) (fat : Nat) (name : List Byte)
  | umount (fat : Nat)
  | other (fats : Nat → Fat) (disks : Nat → Disk)

namespace Call

/-- The structure of a call is at an address. -/
def IsCall : Call → Prop
  | mount _ _ fat _ => fat ≠ 0
  | umount fat => fat ≠ 0
  | other _ _ => True

def run (fuel : Nat) (m : Mounts) : Call → Except Stop Unit × Mounts
  | mount ops partition fat name => m.fatMount ops partition fat name
  | umount fat => m.fatUmount fuel fat
  | other fats disks => (.ok (), { m with fats := fats, disks := disks })

/-- The structures that are mounted after a call that gave this. -/
def after (mounted : Set Nat) : Call → Except Stop Unit → Set Nat
  | mount _ _ fat _, .ok () => insert fat mounted
  | umount fat, .ok () => mounted \ {fat}
  | _, _ => mounted

end Call

/-- The volumes, and which structures are mounted. -/
structure Tracked where
  mounts : Mounts
  mounted : Set Nat

/-- A call that returns. -/
def Step (s : Tracked) (call : Call) (t : Tracked) : Prop :=
  call.IsCall ∧ ∃ fuel result, call.run fuel s.mounts = (result, t.mounts) ∧
    result ≠ .error .running ∧ t.mounted = call.after s.mounted result

/-- The operations on the disk that `sync_fs` has to do. -/
def syncOps (v : Volume) : Nat :=
  (if v.fat.bufDirty then 1 else 0) +
    if v.fat.infoDirty then (if v.fat.sect ≠ v.fat.geometry.infoSect then 1 else 0) + 1 else 0

/-- These operations succeed. -/
def CanSync (v : Volume) : Prop := ∀ i < syncOps v, v.disk.answer (v.disk.count + i) = none

/-- A structure that is mounted is mounted again only if the probe fails, and unmounted only if what
is left to write can be written. -/
def Allowed (s : Tracked) : Call → Prop
  | .mount ops partition fat _ => fat ∈ s.mounted →
      ∃ err, (probe (s.mounts.disks ops) partition).1 = .error err
  | .umount fat => fat ∈ s.mounted →
      CanSync ⟨s.mounts.fats fat, s.mounts.disks (s.mounts.ops fat), []⟩
  | .other _ _ => True

/-- The list has each mounted structure once. -/
def Lists (s : Tracked) : Prop := ∃ nodes, Chain s.mounts.next 0 s.mounts.head nodes ∧
  nodes.Nodup ∧ ∀ p, p ∈ nodes ↔ p ∈ s.mounted

/-- The list and the mounted structures are as before. -/
structure Untouched (s : Tracked) (n : Mounts) : Prop where
  head : n.head = s.mounts.head
  structures : ∀ p ∈ s.mounted, n.next p = s.mounts.next p ∧ n.fats p = s.mounts.fats p ∧
    n.ops p = s.mounts.ops p

/-- The list is well formed, the search for a volume ends, and every call ends and leaves
everything as it is if it fails. -/
structure WellFormed (allowed : Tracked → Call → Prop) (s : Tracked) : Prop where
  lists : Lists s
  finds : ∀ name, ∃ enough, ∀ fuel ≥ enough,
    s.mounts.findFatVolume name fuel s.mounts.head ≠ .error .running
  returns : ∀ call : Call, call.IsCall → ∃ enough, ∀ fuel ≥ enough,
    (call.run fuel s.mounts).1 ≠ .error .running
  fails : ∀ call : Call, call.IsCall → allowed s call → ∀ fuel stopped n,
    call.run fuel s.mounts = (.error stopped, n) → stopped ≠ .running → Untouched s n

/-! ## Synchronizing -/

/-- `sync_buf` where its write succeeds. -/
theorem syncBuf_answer {v : Volume}
    (succeeds : v.fat.bufDirty = true → v.disk.answer v.disk.count = none) :
    ∃ w, syncBuf.run v = (.ok (), w) ∧ w.fat = { v.fat with bufDirty := false } ∧
      w.disk.answer = v.disk.answer ∧
      w.disk.count = v.disk.count + if v.fat.bufDirty then 1 else 0 := by
  unfold syncBuf
  rw [run_gets_bind]
  by_cases dirty : v.fat.bufDirty = true
  · have written : (diskWrite v.fat.buf v.fat.sect).run v = (.ok (), { v with disk :=
        { v.disk with sectors := Function.update v.disk.sectors v.fat.sect v.fat.buf
                      count := v.disk.count + 1 } }) := by
      unfold diskWrite Command.run Disk.write
      dsimp only
      rw [succeeds dirty]
    rw [if_pos dirty, run_bind_ok written, if_pos dirty]
    exact ⟨_, rfl, rfl, rfl, rfl⟩
  · have clean : v.fat.bufDirty = false := by simpa using dirty
    rw [if_neg dirty, if_neg dirty]
    exact ⟨v, rfl, clean ▸ rfl, rfl, rfl⟩

/-- `update_buf` of a buffer that is not dirty, where its read succeeds. -/
theorem updateBuf_answer {v : Volume} (clean : v.fat.bufDirty = false) {sect : Nat}
    (succeeds : v.fat.sect ≠ sect → v.disk.answer v.disk.count = none) :
    ∃ w, (updateBuf sect).run v = (.ok (), w) ∧ w.disk.answer = v.disk.answer ∧
      w.disk.count = v.disk.count + if v.fat.sect ≠ sect then 1 else 0 := by
  by_cases moves : v.fat.sect ≠ sect
  · have synced : syncBuf.run v = (.ok (), v) := by
      unfold syncBuf
      rw [run_gets_bind, if_neg (by rw [clean]; decide)]
      rfl
    have read : (diskRead sect).run v = (.ok (true, v.disk.sectors sect),
        { v with disk := { v.disk with count := v.disk.count + 1 } }) := by
      unfold diskRead Command.run Disk.read
      dsimp only
      rw [succeeds moves]
    unfold updateBuf
    rw [run_gets_bind, if_pos moves, run_bind_ok synced, run_bind_ok read, if_pos moves]
    exact ⟨_, rfl, rfl, rfl⟩
  · rw [if_neg moves]
    exact ⟨v, updateBuf_here (not_not.mp moves), rfl, rfl⟩

/-- `sync_fs` succeeds if its operations do. -/
theorem syncFs_canSync {v : Volume} (canSync : CanSync v) : ∃ w, syncFs.run v = (.ok (), w) := by
  unfold CanSync syncOps at canSync
  obtain ⟨u, synced, fat, answer, count⟩ := @syncBuf_answer v fun dirty => by
    rw [if_pos dirty] at canSync
    exact canSync 0 (by omega)
  unfold syncFs
  rw [run_bind_ok synced, run_gets_bind]
  by_cases dirty : v.fat.infoDirty = true
  · have stays : u.fat.infoDirty = true := by rw [fat]; exact dirty
    rw [if_pos dirty] at canSync
    rw [if_pos stays]
    have read : u.fat.sect ≠ u.fat.geometry.infoSect → u.disk.answer u.disk.count = none := by
      intro moves
      rw [fat] at moves
      rw [if_pos moves] at canSync
      rw [answer, count]
      exact canSync _ (by omega)
    obtain ⟨x, moved, answer', count'⟩ := updateBuf_answer (by rw [fat]) read
    have sect : u.fat.sect = v.fat.sect := by rw [fat]
    have info : u.fat.geometry.infoSect = v.fat.geometry.infoSect := by rw [fat]
    rw [sect, info] at count'
    obtain ⟨y, flushed, -⟩ := @syncBuf_answer (x.withFat fun f => { f with
        buf := (f.buf.writeLE 492 4 x.fat.lastUsed).writeLE 488 4 x.fat.freeCnt, bufDirty := true })
      fun _ => by
        change x.disk.answer x.disk.count = none
        rw [answer', count', answer, count, Nat.add_assoc]
        exact canSync _ (by omega)
    refine ⟨y.withFat fun f => { f with infoDirty := false }, ?_⟩
    rw [run_bind_ok moved, run_gets_bind]
    exact run_bind_ok flushed
  · have stays : ¬ u.fat.infoDirty = true := by rw [fat]; exact dirty
    rw [if_neg stays]
    exact ⟨u, rfl⟩

/-- The command returns. -/
abbrev Returns {α : Type} (command : FatM α) : Prop :=
  command.Obeys (fun _ _ => True) fun _ stopped _ => stopped ≠ .running

theorem returns_composes : Composes (fun _ _ : Volume => True)
    fun _ (stopped : Stop) _ => stopped ≠ .running :=
  ⟨fun _ => trivial, fun _ _ => trivial, fun _ stopped => stopped⟩

theorem syncBuf_returns : Returns syncBuf := by
  refine returns_composes.bind (returns_composes.gets _) fun f => Obeys.ite (fun _ => ?_) fun _ =>
    returns_composes.pure _
  refine returns_composes.bind (fun v => ?_) fun _ v => trivial
  unfold wp diskWrite Command.run
  dsimp only
  cases v.disk.write f.buf f.sect with
  | mk succeeds disk => cases succeeds <;> simp

theorem updateBuf_returns (sect : Nat) : Returns (updateBuf sect) := by
  refine returns_composes.bind (returns_composes.gets _) fun f => Obeys.ite (fun _ => ?_) fun _ =>
    returns_composes.pure _
  refine returns_composes.bind syncBuf_returns fun _ => returns_composes.bind (fun v => ?_)
    fun (ok, buf) => returns_composes.bind (fun v => trivial) fun _ => Obeys.ite (fun _ v => trivial)
      fun _ v => nofun
  unfold wp diskRead Command.run
  dsimp only
  cases v.disk.read sect with
  | mk succeeds read => cases succeeds <;> trivial

/-- `sync_fs` returns. -/
theorem syncFs_returns : Returns syncFs := by
  refine returns_composes.bind syncBuf_returns fun _ => returns_composes.bind
    (returns_composes.gets _) fun f => Obeys.ite (fun _ => ?_) fun _ => returns_composes.pure _
  refine returns_composes.bind (updateBuf_returns _) fun _ => returns_composes.bind
    (returns_composes.gets _) fun f => returns_composes.bind (fun v => trivial) fun _ => ?_
  exact returns_composes.bind syncBuf_returns fun _ v => trivial

/-! ## Runs -/

section Calls

variable {s t : Tracked} {call : Call} {name : List Byte} {result : Except Stop Unit}

theorem Lists.congr (lists : Lists s) (head : t.mounts.head = s.mounts.head)
    (next : t.mounts.next = s.mounts.next) (mounted : t.mounted = s.mounted) : Lists t := by
  obtain ⟨nodes, chain, nodup, members⟩ := lists
  exact ⟨nodes, by rw [head, next]; exact chain, nodup, by rw [mounted]; exact members⟩

/-- `sync_fs` of a structure keeps the list. -/
theorem syncFat_list (fat : Nat) (m : Mounts) : (m.syncFat fat).2.head = m.head ∧
    (m.syncFat fat).2.next = m.next := ⟨rfl, rfl⟩

/-- What `fat_umount` does when it ends: the structure is not mounted and nothing happens, or it is
unlinked and written. -/
theorem fatUmount_cases (lists : Lists s) (nonnull : fat ≠ 0) {n : Mounts}
    (ran : s.mounts.fatUmount fuel fat = (result, n)) (returned : result ≠ .error .running) :
    (fat ∉ s.mounted ∧ result = .error (.code errParam) ∧ n = s.mounts) ∨
    fat ∈ s.mounted ∧ ∃ it, (s.mounts.store (s.mounts.next fat) it).syncFat fat = (result, n) ∧
      Lists ⟨s.mounts.store (s.mounts.next fat) it, s.mounted \ {fat}⟩ := by
  obtain ⟨nodes, chain, nodup, members⟩ := lists
  unfold fatUmount at ran
  cases found : s.mounts.findLink fat fuel none with
  | none =>
      rw [found] at ran
      exact absurd (congrArg Prod.fst ran).symm returned
  | some it =>
      rw [found] at ran
      dsimp only at ran
      obtain ⟨absent, present⟩ := findLink_found chain found
      by_cases mounted : fat ∈ s.mounted
      · right
        obtain ⟨before, after, rfl⟩ := List.append_of_mem ((members fat).mpr mounted)
        obtain ⟨outside, rest⟩ := List.nodup_cons.mp (List.nodup_middle.mp nodup)
        obtain rfl := present before after rfl fun inside => outside (List.mem_append_left _ inside)
        rw [load_link chain, if_neg nonnull] at ran
        refine ⟨mounted, _, ran, before ++ after, unlink_chain chain nodup, rest, fun p => ?_⟩
        · have all := members p
          rw [List.mem_append, List.mem_cons] at all
          change _ ↔ p ∈ s.mounted ∧ p ≠ fat
          rw [← all, List.mem_append]
          constructor
          · intro inside
            refine ⟨by tauto, ?_⟩
            rintro rfl
            exact outside (List.mem_append.mpr inside)
          · tauto
      · left
        rw [absent fun inside => mounted ((members fat).mp inside), if_pos rfl] at ran
        exact ⟨mounted, (congrArg Prod.fst ran).symm, (congrArg Prod.snd ran).symm⟩

/-- Writing what is left to write does not depend on the list. -/
theorem syncFat_canSync (canSync : CanSync ⟨m.fats fat, m.disks (m.ops fat), []⟩) (value : Nat)
    (it : Option Nat) : ((m.store value it).syncFat fat).1 = .ok () := by
  obtain ⟨w, ok⟩ := syncFs_canSync canSync
  cases it <;> exact congrArg Prod.fst ok

/-- A call that is allowed keeps the list well formed. -/
theorem Lists.step (lists : Lists s) (allowed : Allowed s call) (step : Step s call t) : Lists t := by
  obtain ⟨isCall, fuel, result, ran, returned, mounted⟩ := step
  cases call with
  | mount ops partition fat name =>
      rcases fatMount_cases ops partition fat name s.mounts with
        ⟨err, disk, -, ran'⟩ | ⟨lba, err, n, -, ran', same⟩ | ⟨lba, n, probed, ran', pushed⟩
      · obtain ⟨rfl, same⟩ := Prod.mk.inj (ran.symm.trans ran')
        exact lists.congr (by rw [same]; rfl) (by rw [same]; rfl) mounted
      · obtain ⟨rfl, rfl⟩ := Prod.mk.inj (ran.symm.trans ran')
        exact lists.congr same.head same.next mounted
      · obtain ⟨rfl, rfl⟩ := Prod.mk.inj (ran.symm.trans ran')
        have fresh : fat ∉ s.mounted := by
          intro inside
          obtain ⟨err, failed⟩ := allowed inside
          exact nomatch probed.symm.trans failed
        obtain ⟨nodes, chain, nodup, members⟩ := lists
        have outside : fat ∉ nodes := fun inside => fresh ((members fat).mp inside)
        refine ⟨fat :: nodes, ?_, List.nodup_cons.mpr ⟨outside, nodup⟩, fun p => ?_⟩
        · rw [pushed.head, pushed.next]
          refine chain.push isCall (Function.update_self _ _ _) fun old inside =>
            Function.update_of_ne ?_ _ _
          rintro rfl
          exact outside inside
        · rw [mounted, List.mem_cons, members]
          rfl
  | umount fat =>
      rcases fatUmount_cases lists isCall ran returned with ⟨-, rfl, same⟩ | ⟨inside, it, ran', later⟩
      · exact lists.congr (by rw [same]) (by rw [same]) mounted
      · have synced : result = .ok () :=
          (congrArg Prod.fst ran').symm.trans (syncFat_canSync (allowed inside) _ it)
        obtain ⟨head, next⟩ := syncFat_list fat (s.mounts.store (s.mounts.next fat) it)
        rw [ran'] at head next
        rw [synced] at mounted
        exact later.congr head next mounted
  | other fats disks =>
      obtain ⟨rfl, same⟩ := Prod.mk.inj ran
      exact lists.congr (by rw [← same]) (by rw [← same]) mounted

/-- `find_fat_volume` ends on a list that is well formed. -/
theorem Lists.finds (lists : Lists s) (name : List Byte) : ∃ enough, ∀ fuel ≥ enough,
    s.mounts.findFatVolume name fuel s.mounts.head ≠ .error .running := by
  obtain ⟨nodes, chain, -, -⟩ := lists
  refine ⟨nodes.length + 1, fun fuel many => ?_⟩
  rw [findFatVolume_chain name chain many]
  exact nofun

/-- Every call ends on a list that is well formed. -/
theorem Lists.returns (lists : Lists s) (call : Call) : ∃ enough, ∀ fuel ≥ enough,
    (call.run fuel s.mounts).1 ≠ .error .running := by
  cases call with
  | mount ops partition fat name =>
      refine ⟨0, fun fuel _ => ?_⟩
      change (s.mounts.fatMount ops partition fat name).1 ≠ _
      rcases fatMount_cases ops partition fat name s.mounts with
        ⟨err, disk, -, ran⟩ | ⟨lba, err, n, -, ran, -⟩ | ⟨lba, n, -, ran, -⟩
      · rw [ran]
        exact nofun
      · rw [ran]
        exact nofun
      · rw [ran]
        exact nofun
  | umount fat =>
      obtain ⟨nodes, chain, -, -⟩ := lists
      refine ⟨nodes.length + 1, fun fuel many => ?_⟩
      obtain ⟨absent, present⟩ := @findLink_spec s.mounts fat nodes fuel none chain many
      have found : ∃ link, s.mounts.findLink fat fuel none = some link := by
        by_cases inside : fat ∈ nodes
        · obtain ⟨before, after, split, other⟩ := List.eq_append_cons_of_mem inside
          exact ⟨_, present before after split other⟩
        · obtain ⟨link, same, -⟩ := absent inside
          exact ⟨link, same⟩
      obtain ⟨link, found⟩ := found
      change (s.mounts.fatUmount fuel fat).1 ≠ _
      unfold fatUmount
      rw [found]
      dsimp only
      split
      · exact nofun
      · intro running
        exact (syncFs_returns _).of_error (Prod.ext running rfl) rfl
  | other fats disks => exact ⟨0, fun fuel _ => nofun⟩

/-- A call that is allowed and fails leaves everything as it is. -/
theorem Lists.fails (lists : Lists s) (isCall : call.IsCall) (allowed : Allowed s call) {n : Mounts}
    {stopped : Stop} (ran : call.run fuel s.mounts = (.error stopped, n))
    (returned : stopped ≠ .running) : Untouched s n := by
  cases call with
  | mount ops partition fat name =>
      rcases fatMount_cases ops partition fat name s.mounts with
        ⟨err, disk, -, ran'⟩ | ⟨lba, err, n', probed, ran', same⟩ | ⟨lba, n', -, ran', -⟩
      · obtain ⟨-, rfl⟩ := Prod.mk.inj (ran.symm.trans ran')
        exact ⟨rfl, fun p _ => ⟨rfl, rfl, rfl⟩⟩
      · obtain ⟨-, rfl⟩ := Prod.mk.inj (ran.symm.trans ran')
        refine ⟨same.head, fun p mounted => ?_⟩
        -- the structure that is filled in is not mounted
        have other : p ≠ fat := by
          rintro rfl
          obtain ⟨err, failed⟩ := allowed mounted
          exact nomatch probed.symm.trans failed
        exact ⟨congrFun same.next p, (same.others p other).1, (same.others p other).2⟩
      · exact nomatch ran.symm.trans ran'
  | umount fat =>
      have stopped' : (Except.error stopped : Except Stop Unit) ≠ .error .running := fun equal =>
        returned (Except.error.inj equal)
      rcases fatUmount_cases lists isCall ran stopped' with ⟨-, -, rfl⟩ | ⟨inside, it, ran', -⟩
      · exact ⟨rfl, fun p _ => ⟨rfl, rfl, rfl⟩⟩
      · have synced := syncFat_canSync (allowed inside) (s.mounts.next fat) it
        rw [ran'] at synced
        cases synced
  | other fats disks => cases ran

/-- **The list of volumes.** From the empty list on, the list stays well formed in every run of
calls that are allowed. -/
theorem mountTable_kept {start : Tracked} {calls : List Call} (empty : start.mounts.head = 0)
    (none : start.mounted = ∅) (run : Run (Guarded Allowed Step) start calls s) :
    WellFormed Allowed s := by
  have lists : Lists s := by
    refine run.invariant (fun s call t lists taken => lists.step taken.1 taken.2) ?_
    exact ⟨[], empty, List.nodup_nil, fun p => by simp [none]⟩
  exact ⟨lists, lists.finds, fun call _ => lists.returns call, fun call isCall allowed fuel stopped n
    ran returned => lists.fails isCall allowed ran returned⟩

end Calls

/-! ### Mounting a volume again -/

/-- No volume is mounted, and there is one on each disk. -/
def unmounted : Tracked where
  mounts := {
    head := 0
    next := fun _ => 0
    fats := fun _ => ⟨⟨0, 0, 0, 0, 0, 0, 0, 0⟩, 0, 0, 0, fun _ => 0, false, false, []⟩
    ops := fun _ => 0
    disks := fun _ => bootDisk (sampleBoot 1) }
  mounted := ∅

/-- The volume of such a disk is mounted. -/
theorem fatMount_boot (first : (m.disks 0).sectors 0 = sampleBoot 1) (sound : (m.disks 0).Sound)
    (p : Nat) : ∃ n, m.fatMount 0 0 p [0x61] = (.ok (), n) ∧ (n.disks 0).sectors 0 = sampleBoot 1 ∧
      (n.disks 0).Sound ∧ n.head = p ∧ n.next p = m.head := by
  have accepted : checkFat (sampleBoot 1) = true := by decide
  have probed : probe (m.disks 0) 0 = (.ok 0, sampleBoot 1,
      { m.disks 0 with count := (m.disks 0).count + 1 }) := by
    unfold probe
    rw [sound.read, first]
    simp only [accepted, if_true]
  have sound' : ({ m.disks 0 with count := (m.disks 0).count + 1 } : Disk).Sound := fun n later =>
    sound n ((Nat.le_succ _).trans later)
  unfold fatMount
  rw [probed]
  dsimp only
  rw [sound'.read]
  dsimp only
  rw [if_neg (by decide)]
  refine ⟨_, rfl, ?_, ?_, rfl, Function.update_self _ _ _⟩
  · simp only [push, setFat, setDisk, Function.update_self, first]
  · simp only [push, setFat, setDisk, Function.update_self]
    exact fun n later => sound' n ((Nat.le_succ _).trans later)

theorem firstPart_lt : 0 < 4 := by decide

/-- The volume of the first disk is mounted with the structure at an address. -/
def mountFirst (p : Nat) : Call := .mount 0 ⟨0, firstPart_lt⟩ p [0x61]

theorem mountTable_kept_one : ∃ s, Run (Guarded Allowed Step) unmounted [mountFirst 1] s ∧
    WellFormed Allowed s := by
  obtain ⟨n, ran, -⟩ := @fatMount_boot unmounted.mounts rfl (fun _ _ => rfl) 1
  have step : Step unmounted (mountFirst 1) ⟨n, insert 1 ∅⟩ :=
    ⟨Nat.one_ne_zero, 0, .ok (), ran, nofun, rfl⟩
  have run : Run (Guarded Allowed Step) unmounted [mountFirst 1] ⟨n, insert 1 ∅⟩ :=
    .single ⟨fun mounted => absurd mounted (Set.notMem_empty _), step⟩
  exact ⟨_, run, mountTable_kept rfl rfl run⟩

/-- A structure that is its own successor is in no list. -/
theorem not_chain_self {next : Nat → Nat} (nonnull : p ≠ 0) (self : next p = p) (nodes : List Nat) :
    ¬ Chain next 0 p nodes := by
  induction nodes with
  | nil => exact nonnull
  | cons node nodes ih =>
      intro chain
      obtain ⟨rfl, -, tail⟩ := chain
      rw [self] at tail
      exact ih tail

/-- A volume that is mounted twice is its own successor. -/
theorem mountTable_remount : ¬ ∀ start calls s, start.mounts.head = 0 → start.mounted = ∅ →
    Run Step start calls s → WellFormed (fun _ _ => True) s := by
  intro claim
  obtain ⟨m, ran, first, sound, head, -⟩ := @fatMount_boot unmounted.mounts rfl (fun _ _ => rfl) 1
  obtain ⟨n, ran', -, -, head', next⟩ := fatMount_boot first sound 1
  have step : Step unmounted (mountFirst 1) ⟨m, insert 1 ∅⟩ :=
    ⟨Nat.one_ne_zero, 0, .ok (), ran, nofun, rfl⟩
  have step' : Step ⟨m, insert 1 ∅⟩ (mountFirst 1) ⟨n, insert 1 (insert 1 ∅)⟩ :=
    ⟨Nat.one_ne_zero, 0, .ok (), ran', nofun, rfl⟩
  have wellFormed := claim unmounted _ _ rfl rfl (.cons step (.single step'))
  obtain ⟨nodes, chain, -⟩ := wellFormed.lists
  rw [head'] at chain
  exact not_chain_self (by decide) (next.trans head) nodes chain

end Mounts

end NTux.Fat32
