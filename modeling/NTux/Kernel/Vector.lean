import NTux.Foundation.Copy

/-! # Vectors

The macros of `kernel_lib/vector.h` and the `memcpy` and `memset` of `libc/string.c`. Whatever
the units that `memcpy` moves by, it is a forward move (`memcpy_moves`). A vector
that outgrows its capacity gets a new block, into which the elements of the old one are not
moved. So it is a list for as long as it stays in its first block only
(`implementsList_iff`), which is four elements of any but huge size (`hasRoom_iff`).
-/

namespace NTux.Kernel

open NTux.Foundation

/-! ## Data blocks -/

/-- The bytes of an element. -/
abbrev Elem (size : Nat) := Fin size → Byte

/-- What `kmalloc` gives, which is taken not to fail: so many bytes, numbered from the start of
the block. -/
structure DataBlock where
  bytes : Nat
  memory : Memory

namespace DataBlock

variable {size : Nat} (block : DataBlock)

/-- An access stays within the block. No byte is accessed where there is nothing to move. -/
def Holds (offset count : Nat) : Prop := count = 0 ∨ offset + count ≤ block.bytes

instance (offset count : Nat) : Decidable (block.Holds offset count) :=
  inferInstanceAs (Decidable (_ ∨ _))

/-- An access to some byte stays within the block where it ends within the block. -/
theorem holds_iff {offset count : Nat} (positive : 0 < count) :
    block.Holds offset count ↔ offset + count ≤ block.bytes :=
  or_iff_right (Nat.ne_of_gt positive)

def read (index : Nat) : Elem size := fun offset => block.memory (index * size + offset)

/-- The bytes that are stored for an element. -/
def stored (elem : Elem size) (offset : Nat) : Byte :=
  if inside : offset < size then elem ⟨offset, inside⟩ else 0

def write (index : Nat) (elem : Elem size) : DataBlock :=
  { block with memory := block.memory.store (index * size) size (stored elem) }

@[simp] theorem write_bytes (index : Nat) (elem : Elem size) :
    (block.write index elem).bytes = block.bytes := rfl

theorem read_write (index : Nat) (elem : Elem size) : (block.write index elem).read index = elem := by
  funext offset
  have written : (block.write index elem).memory (index * size + offset) = stored elem offset :=
    block.memory.store_at _ offset.isLt
  exact written.trans (dif_pos offset.isLt)

/-- Elements do not overlap. -/
theorem index_disjoint {index other : Nat} (size : Nat) (differ : index ≠ other) :
    Disjoint (Memory.block (index * size) size) (Memory.block (other * size) size) := by
  apply Memory.block_disjoint
  rcases Nat.lt_or_gt_of_ne differ with before | behind
  · left
    calc index * size + size = (index + 1) * size := (Nat.succ_mul index size).symm
      _ ≤ other * size := Nat.mul_le_mul_right size before
  · right
    calc other * size + size = (other + 1) * size := (Nat.succ_mul other size).symm
      _ ≤ index * size := Nat.mul_le_mul_right size behind

theorem read_write_of_ne {index other : Nat} (elem : Elem size) (differ : index ≠ other) :
    (block.write other elem).read index = (block.read index : Elem size) := by
  funext offset
  have kept := block.memory.store_eqOn (stored elem) (index_disjoint size differ)
  exact kept ⟨Nat.le_add_right _ _, Nat.add_lt_add_left offset.isLt _⟩

end DataBlock

/-- `memcpy`, by the widest units of which the length is a multiple. -/
def memcpy (memory : Memory) (dest src len : Nat) : Memory :=
  if len % 8 = 0 then memory.copyUp 8 (len / 8) dest src
  else if len % 4 = 0 then memory.copyUp 4 (len / 4) dest src
  else if len % 2 = 0 then memory.copyUp 2 (len / 2) dest src
  else memory.copyUp 1 len dest src

/-- All units move the block alike. -/
theorem memcpy_eq_store (memory : Memory) {dest src : Nat} (len : Nat)
    (clear : dest ≤ src ∨ src + len ≤ dest) :
    memcpy memory dest src len =
      memory.store dest len fun offset => memory (src + offset) := by
  have units : ∀ width count, width * count = len → memory.copyUp width count dest src =
      memory.store dest len fun offset => memory (src + offset) := by
    rintro width count rfl
    exact Memory.copyUp_eq_store width count memory clear
  unfold memcpy
  split_ifs with eight four two
  · exact units 8 _ (Nat.mul_div_cancel' (Nat.dvd_of_mod_eq_zero eight))
  · exact units 4 _ (Nat.mul_div_cancel' (Nat.dvd_of_mod_eq_zero four))
  · exact units 2 _ (Nat.mul_div_cancel' (Nat.dvd_of_mod_eq_zero two))
  · exact units 1 _ (Nat.one_mul len)

/-- **`memcpy`** puts the bytes that the source had before to the target and changes no other
byte, where the target begins below the source or is apart from it, and units of any width that
make up the length would do the same. In `vec_erase` the target begins one element below. -/
theorem memcpy_moves (memory : Memory) {dest src : Nat} (len : Nat)
    (clear : dest ≤ src ∨ Disjoint (Memory.block dest len) (Memory.block src len)) :
    (∀ offset < len, memcpy memory dest src len (dest + offset) = memory (src + offset)) ∧
      Set.EqOn (memcpy memory dest src len) memory (Memory.block dest len)ᶜ ∧
        ∀ width count, width * count = len →
          memory.copyUp width count dest src = memcpy memory dest src len := by
  have clear : dest ≤ src ∨ src + len ≤ dest := by
    by_contra inside
    have apart := clear.resolve_left fun below => inside (.inl below)
    have first : dest ∉ Memory.block src len := Set.disjoint_left.mp apart ⟨le_rfl, by omega⟩
    exact first ⟨by omega, by omega⟩
  have moved := memcpy_eq_store memory len clear
  refine ⟨fun offset inside => ?_, fun address outside => ?_, ?_⟩
  · rw [moved, memory.store_at _ inside]
  · rw [moved, memory.store_of_notMem _ outside]
  · rintro width count rfl
    rw [moved, Memory.copyUp_eq_store width count memory clear]

/-- Nine elements of one byte: the eight behind an erased one move by one unit, which is wider than
their distance. -/
theorem memcpy_moves_tail :
    (∀ offset < 8, memcpy (BitVec.ofNat 8) 0 1 8 (0 + offset) = BitVec.ofNat 8 (1 + offset)) ∧
      Set.EqOn (memcpy (BitVec.ofNat 8) 0 1 8) (BitVec.ofNat 8) (Memory.block 0 8)ᶜ ∧
        ∀ width count, width * count = 8 →
          Memory.copyUp width count 0 1 (BitVec.ofNat 8) = memcpy (BitVec.ofNat 8) 0 1 8 :=
  memcpy_moves (BitVec.ofNat 8) 8 (.inl (by decide))

/-! ## The macros -/

/-- `vec_struct`; the data are `none` where the pointer is null. -/
structure Vec where
  len : Nat
  capacity : Nat
  data : Option DataBlock

/-- `vec_new` -/
def Vec.new : Vec := { len := 0, capacity := 0, data := none }

namespace Vec

variable {size : Nat} (vec : Vec)

/-- The numbers of `uint64_t`. -/
def wrap (n : Nat) : Nat := n % 0x10000000000000000

/-- The difference of two `uint64_t`. -/
def minus (m n : Nat) : Nat := wrap (m + (0x10000000000000000 - wrap n))

theorem wrap_of_lt {n : Nat} (small : n < 0x10000000000000000) : wrap n = n := Nat.mod_eq_of_lt small

theorem minus_of_le {m n : Nat} (le : n ≤ m) (small : m < 0x10000000000000000) :
    minus m n = m - n := by
  unfold minus wrap
  omega

/-- `vec_at`, for an access that stays within the block. -/
def at? (index : Nat) : Option (Elem size) :=
  vec.data.bind fun block =>
    if block.Holds (index * size) size then some (block.read index) else none

/-- The growth of `vec_push_back`, with what is in memory at the block that `kmalloc` gives. -/
def grow (size : Nat) (fresh : Memory) : Vec :=
  let len := wrap (vec.len + 1)
  if vec.capacity < wrap (len * size) then
    let capacity := wrap (wrap (len * size) * 4)
    { len, capacity, data := some { bytes := wrap (capacity * size), memory := fresh } }
  else { vec with len }

/-- The store of `vec_push_back`. -/
def storeLast (elem : Elem size) : Option Vec :=
  let last := minus vec.len 1
  vec.data.bind fun block =>
    if block.Holds (last * size) size then some { vec with data := some (block.write last elem) }
    else none

/-- `vec_push_back` -/
def pushBack (elem : Elem size) (fresh : Memory) : Option Vec :=
  (vec.grow size fresh).storeLast elem

/-- `vec_erase`; the block is released with the last element. -/
def erase (size index : Nat) : Option Vec :=
  let last := minus vec.len 1
  let moved := wrap (size * minus (minus vec.len index) 1)
  vec.data.bind fun block =>
    if block.Holds (index * size) moved ∧ block.Holds ((index + 1) * size) moved ∧
        block.Holds (last * size) size then
      let block := { block with
        memory := memcpy block.memory (index * size) ((index + 1) * size) moved }
      let block := block.write last (fun _ => 0 : Elem size)
      some (if last = 0 then { len := last, capacity := 0, data := none }
        else { vec with len := last, data := some block })
    else none

end Vec

/-! ## Lists -/

/-- One use of a vector. -/
inductive Use (size : Nat) where
  | pushBack (elem : Elem size)
  | erase (index : Nat)

namespace Use

variable {size : Nat}

def run (use : Use size) (fresh : Memory) (vec : Vec) : Option Vec :=
  match use with
  | pushBack elem => vec.pushBack elem fresh
  | erase index => vec.erase size index

/-- What the use is to do to a list. -/
def apply : Use size → List (Elem size) → List (Elem size)
  | pushBack elem, list => list ++ [elem]
  | erase index, list => list.eraseIdx index

/-- An element is erased only where there is one. -/
def Allowed : Use size → List (Elem size) → Prop
  | pushBack _, _ => True
  | erase index, list => index < list.length

/-- Every use is allowed in the list that the ones before it make. -/
def AllAllowed (list : List (Elem size)) : List (Use size) → Prop
  | [] => True
  | use :: uses => use.Allowed list ∧ AllAllowed (use.apply list) uses

/-- The lists after each of the uses. -/
def lists (list : List (Elem size)) : List (Use size) → List (List (Elem size))
  | [] => []
  | use :: uses => use.apply list :: lists (use.apply list) uses

end Use

/-- A vector has the elements of a list, all of which are within its block. -/
structure Represents {size : Nat} (vec : Vec) (list : List (Elem size)) : Prop where
  length : vec.len = list.length
  elements : ∀ index (inside : index < list.length), vec.at? index = some list[index]

/-- Uses with what is in memory at the block that `kmalloc` gives in each. All accesses stay
within the data block, and after every use the vector has the elements of the list. -/
def Implements {size : Nat} (vec : Vec) (list : List (Elem size)) : List (Use size × Memory) → Prop
  | [] => True
  | (use, fresh) :: rest =>
      ∃ next, use.run fresh vec = some next ∧ Represents next (use.apply list) ∧
        Implements next (use.apply list) rest

/-- A new vector is a list in these uses, whatever there is in memory. -/
def ImplementsList {size : Nat} (uses : List (Use size)) : Prop :=
  ∀ run : List (Use size × Memory), run.map Prod.fst = uses → Implements Vec.new [] run

/-! ## The first block -/

open Vec

section

/-- The capacity that the first element gives a vector. -/
def capacityOf (size : Nat) : Nat := wrap (size * 4)

/-- The bytes of the block that the first element gets. -/
def bytesOf (size : Nat) : Nat := wrap (capacityOf size * size)

/-- So many elements are within the first block and, where there are more than one, within the
first capacity. -/
def HasRoom (size n : Nat) : Prop :=
  n * size ≤ bytesOf size ∧ (2 ≤ n → n * size ≤ capacityOf size)

/-- A vector that is new or in its first block. -/
inductive FirstBlock {size : Nat} : Vec → List (Elem size) → Prop where
  | new : FirstBlock Vec.new []
  | filled {memory : Memory} {list : List (Elem size)} (filled : list ≠ [])
      (room : HasRoom size list.length) (elements : ∀ index (inside : index < list.length),
        DataBlock.read ⟨bytesOf size, memory⟩ index = list[index]) :
      FirstBlock ⟨list.length, capacityOf size, some ⟨bytesOf size, memory⟩⟩ list

variable {size : Nat} {vec : Vec} {list : List (Elem size)} {n : Nat}

theorem bytesOf_lt (size : Nat) : bytesOf size < 0x10000000000000000 := Nat.mod_lt _ (by decide)

theorem end_le {index : Nat} (inside : index < n) : index * size + size ≤ n * size := by
  rw [← Nat.succ_mul]
  exact Nat.mul_le_mul_right size inside

theorem HasRoom.mono {m : Nat} (room : HasRoom size n) (le : m ≤ n) : HasRoom size m := by
  have less : m * size ≤ n * size := Nat.mul_le_mul_right size le
  exact ⟨less.trans room.1, fun two => less.trans (room.2 (two.trans le))⟩

theorem FirstBlock.represents (first : FirstBlock vec list) : Represents vec list := by
  cases first with
  | new => exact ⟨rfl, fun index inside => absurd inside (Nat.not_lt_zero index)⟩
  | @filled memory _ _ room elements =>
      refine ⟨rfl, fun index inside => ?_⟩
      have held : (⟨bytesOf size, memory⟩ : DataBlock).Holds (index * size) size :=
        Or.inr ((end_le inside).trans room.1)
      rw [← elements index inside]
      exact if_pos held

/-- The length of a vector in its first block does not wrap. -/
theorem length_small (positive : 0 < size) (fits : n * size ≤ bytesOf size) :
    n + 1 < 0x10000000000000000 := by
  have bound := bytesOf_lt size
  rcases Nat.eq_or_lt_of_le positive with one | more
  · obtain rfl : size = 1 := one.symm
    have four : bytesOf 1 = 4 := by decide
    omega
  · have twice : n * 2 ≤ n * size := Nat.mul_le_mul_left n more
    omega

/-- The store of an element behind `n` others. -/
theorem storeLast_eq {block : DataBlock} (elem : Elem size) (data : vec.data = some block)
    (len : vec.len = n + 1) (small : n + 1 < 0x10000000000000000) :
    vec.storeLast elem =
      if block.Holds (n * size) size then some { vec with data := some (block.write n elem) }
      else none := by
  have last : minus vec.len 1 = n := by
    rw [len, minus_of_le (Nat.le_add_left 1 n) small, Nat.add_sub_cancel]
  rw [storeLast, last, data]
  rfl

/-- An element written behind those of a list. -/
theorem read_write_last {block : DataBlock} (elem : Elem size)
    (elements : ∀ index (inside : index < list.length), block.read index = list[index])
    (index : Nat) (inside : index < (list ++ [elem]).length) :
    (block.write list.length elem).read index = (list ++ [elem])[index] := by
  by_cases old : index < list.length
  · rw [block.read_write_of_ne elem (Nat.ne_of_lt old), elements index old,
      List.getElem_append_left old]
  · obtain rfl : index = list.length := by
      rw [List.length_append, List.length_singleton] at inside
      omega
    rw [block.read_write, List.getElem_concat_length rfl]

theorem grow_new (size : Nat) (small : size < 0x10000000000000000) (positive : 0 < size)
    (fresh : Memory) :
    Vec.new.grow size fresh = ⟨1, capacityOf size, some ⟨bytesOf size, fresh⟩⟩ := by
  have one : wrap (wrap (0 + 1) * size) = size := by
    rw [wrap_of_lt (show 0 + 1 < 0x10000000000000000 by decide), Nat.zero_add, Nat.one_mul,
      wrap_of_lt small]
  simp only [grow, Vec.new, one, if_pos positive]
  rfl

/-- An element is put behind others for which there is room. -/
theorem pushBack_firstBlock (positive : 0 < size) (sized : size < 0x10000000000000000)
    (first : FirstBlock vec list) (room : HasRoom size (list.length + 1)) (elem : Elem size)
    (fresh : Memory) :
    ∃ next, vec.pushBack elem fresh = some next ∧ FirstBlock next (list ++ [elem]) := by
  have some : list ++ [elem] ≠ [] := List.append_ne_nil_of_right_ne_nil _ (List.cons_ne_nil _ _)
  have fits : HasRoom size (list ++ [elem]).length := by
    rw [List.length_append, List.length_singleton]
    exact room
  have held : ∀ memory, (⟨bytesOf size, memory⟩ : DataBlock).Holds (list.length * size) size :=
    fun _ => Or.inr (by rw [← Nat.succ_mul]; exact room.1)
  cases first with
  | new =>
      have start : (⟨bytesOf size, fresh⟩ : DataBlock).Holds (0 * size) size := held fresh
      rw [pushBack, grow_new size sized positive, storeLast_eq elem rfl rfl (by decide),
        if_pos start]
      exact ⟨_, rfl, FirstBlock.filled some fits
        (read_write_last elem fun index inside => absurd inside (Nat.not_lt_zero index))⟩
  | @filled memory _ filled older elements =>
      have small := length_small positive older.1
      have pos := List.length_pos_iff.mpr filled
      have bound := bytesOf_lt size
      have stays : ¬ capacityOf size < wrap (wrap (list.length + 1) * size) := by
        rw [wrap_of_lt small, wrap_of_lt (room.1.trans_lt bound)]
        exact Nat.not_lt.mpr (room.2 (by omega))
      have grown : (⟨list.length, capacityOf size, Option.some ⟨bytesOf size, memory⟩⟩ : Vec).grow
          size fresh = ⟨list.length + 1, capacityOf size, Option.some ⟨bytesOf size, memory⟩⟩ := by
        simp only [grow, if_neg stays]
        rw [wrap_of_lt small]
      rw [pushBack, grown, storeLast_eq elem rfl rfl small, if_pos (held memory)]
      have result := FirstBlock.filled some fits (read_write_last elem elements)
      rw [List.length_append, List.length_singleton] at result
      exact ⟨_, rfl, result⟩

/-- The elements after those behind `erased` have moved down by one. -/
theorem read_memcpy (block : DataBlock) {erased index : Nat} (inside : erased < n)
    (kept : index + 1 < n) :
    (DataBlock.read ⟨block.bytes, memcpy block.memory (erased * size) ((erased + 1) * size)
        (size * (n - erased - 1))⟩ index : Elem size) =
      block.read (if index < erased then index else index + 1) := by
  have next : (erased + 1) * size = erased * size + size := Nat.succ_mul erased size
  have copied := memcpy_eq_store block.memory (size * (n - erased - 1))
    (.inl (Nat.mul_le_mul_right size (Nat.le_succ erased)))
  have whole : erased * size + size * (n - erased - 1) = (n - 1) * size := by
    have parts : erased + (n - erased - 1) = n - 1 := by omega
    rw [Nat.mul_comm size, ← Nat.add_mul, parts]
  funext offset
  refine (congrFun copied _).trans ?_
  have small := offset.isLt
  by_cases before : index < erased
  · have below := @end_le size _ _ before
    rw [if_pos before]
    apply Memory.store_of_notMem
    rintro ⟨low, high⟩
    omega
  · have least : erased * size ≤ index * size := Nat.mul_le_mul_right size (Nat.not_lt.mp before)
    have most : index * size + size ≤ (n - 1) * size := end_le (by omega)
    have place : (erased + 1) * size + (index * size + offset - erased * size) =
        (index + 1) * size + offset := by
      rw [next, Nat.succ_mul]
      omega
    rw [if_neg before, Memory.store_of_mem _ _ ⟨by omega, by omega⟩, Nat.succ_eq_add_one, place]
    rfl

/-- An element is erased. -/
theorem erase_firstBlock (positive : 0 < size) (first : FirstBlock vec list) {erased : Nat}
    (inside : erased < list.length) :
    ∃ next, vec.erase size erased = some next ∧ FirstBlock next (list.eraseIdx erased) := by
  cases first with
  | new => exact absurd inside (Nat.not_lt_zero erased)
  | @filled memory _ filled room elements =>
      have fits := room.1
      have small := length_small positive fits
      have bound := bytesOf_lt size
      have shorter : (list.eraseIdx erased).length = list.length - 1 :=
        List.length_eraseIdx_of_lt inside
      have last : minus list.length 1 = list.length - 1 :=
        minus_of_le (by omega) (by omega)
      have whole : erased * size + size + size * (list.length - erased - 1) =
          list.length * size := by
        have parts : erased.succ + (list.length - erased - 1) = list.length := by omega
        rw [Nat.mul_comm size, ← Nat.succ_mul, ← Nat.add_mul, parts]
      have moved : wrap (size * minus (minus list.length erased) 1) =
          size * (list.length - erased - 1) := by
        have least : 1 ≤ list.length - erased := Nat.sub_pos_of_lt inside
        have most : list.length - erased < 0x10000000000000000 := by omega
        have fitting : size * (list.length - erased - 1) < 0x10000000000000000 := by omega
        rw [minus_of_le (Nat.le_of_lt inside) (by omega), minus_of_le least most,
          wrap_of_lt fitting]
      have end_last : (list.length - 1) * size + size ≤ list.length * size := end_le (by omega)
      have held : ∀ memory, (⟨bytesOf size, memory⟩ : DataBlock).Holds (erased * size)
            (size * (list.length - erased - 1)) ∧
          (⟨bytesOf size, memory⟩ : DataBlock).Holds ((erased + 1) * size)
            (size * (list.length - erased - 1)) ∧
          (⟨bytesOf size, memory⟩ : DataBlock).Holds ((list.length - 1) * size) size := by
        refine fun _ => ⟨Or.inr ?_, Or.inr ?_, Or.inr (end_last.trans fits)⟩
        · change _ ≤ bytesOf size
          omega
        · rw [Nat.succ_mul]
          change _ ≤ bytesOf size
          omega
      simp only [erase, last, moved, Option.bind_some, if_pos (held memory)]
      by_cases only : list.length - 1 = 0
      · have gone : list.eraseIdx erased = [] := List.length_eq_zero_iff.mp (shorter.trans only)
        rw [if_pos only, gone, only]
        exact ⟨_, rfl, FirstBlock.new⟩
      · rw [if_neg only]
        refine ⟨_, rfl, ?_⟩
        rw [← shorter]
        apply FirstBlock.filled
        · intro gone
          exact only (shorter.symm.trans (List.length_eq_zero_iff.mpr gone))
        · rw [shorter]
          exact room.mono (Nat.sub_le _ _)
        · intro index kept
          have differ : index ≠ (list.eraseIdx erased).length := Nat.ne_of_lt kept
          rw [shorter] at kept
          have moved := @read_memcpy size _ ⟨bytesOf size, memory⟩ _ index inside
            (show index + 1 < list.length by omega)
          refine (DataBlock.read_write_of_ne _ _ differ).trans (moved.trans ?_)
          rw [List.getElem_eraseIdx]
          split_ifs with before
          · exact elements index _
          · exact elements (index + 1) _

theorem read_of_at? {block : DataBlock} {index : Nat} {elem : Elem size}
    (data : vec.data = some block) (read : vec.at? index = some elem) : block.read index = elem := by
  rw [at?, data, Option.bind_some] at read
  split_ifs at read
  exact Option.some.inj read

/-- Without room for one more element it is out of the block, or those before it are lost. -/
theorem pushBack_lost (positive : 0 < size) (sized : size < 0x10000000000000000)
    (first : FirstBlock vec list) (room : ¬ HasRoom size (list.length + 1)) (elem : Elem size) :
    ∃ fresh, ∀ next, vec.pushBack elem fresh = some next → ¬ Represents next (list ++ [elem]) := by
  have bound := bytesOf_lt size
  cases first with
  | new =>
      refine ⟨fun _ => 0, fun next pushed => ?_⟩
      rw [pushBack, grow_new size sized positive, storeLast_eq elem rfl rfl (by decide)] at pushed
      split_ifs at pushed with held
      have inside : 0 * size + size ≤ bytesOf size := (DataBlock.holds_iff _ positive).mp held
      refine absurd ⟨?_, fun two => absurd two (Nat.not_succ_le_self 1)⟩ room
      rw [List.length_nil, Nat.succ_mul]
      exact inside
  | @filled memory _ filled older elements =>
      have small := length_small positive older.1
      have pos := List.length_pos_iff.mpr filled
      refine ⟨fun _ => list[0] ⟨0, positive⟩ + 1, fun next pushed represents => ?_⟩
      by_cases grows : capacityOf size < wrap (wrap (list.length + 1) * size)
      · -- the new block does not have the first element
        rw [pushBack, grow, if_pos grows,
          storeLast_eq elem rfl (wrap_of_lt small) small] at pushed
        split_ifs at pushed
        obtain rfl := Option.some.inj pushed
        have inside : 0 < (list ++ [elem]).length := by
          rw [List.length_append]
          omega
        have same := read_of_at? rfl (represents.elements 0 inside)
        rw [List.getElem_append_left pos,
          DataBlock.read_write_of_ne _ _ (Nat.ne_of_lt pos)] at same
        have byte : list[0] ⟨0, positive⟩ + 1 = list[0] ⟨0, positive⟩ :=
          congrFun same ⟨0, positive⟩
        exact absurd byte (by generalize list[0] ⟨0, positive⟩ = b; revert b; decide)
      · -- the old block ends before the new element
        rw [pushBack, grow, if_neg grows,
          storeLast_eq elem rfl (wrap_of_lt small) small] at pushed
        split_ifs at pushed with held
        have inside : list.length * size + size ≤ bytesOf size :=
          (DataBlock.holds_iff _ positive).mp held
        rw [← Nat.succ_mul] at inside
        rw [wrap_of_lt small, wrap_of_lt (inside.trans_lt bound)] at grows
        exact room ⟨inside, fun _ => Nat.not_lt.mp grows⟩

/-! ## Runs -/

/-- One use of a vector in its first block, with room for the list that it makes. -/
theorem run_firstBlock (positive : 0 < size) (sized : size < 0x10000000000000000)
    (first : FirstBlock vec list) {use : Use size} (allowed : use.Allowed list)
    (room : HasRoom size (use.apply list).length) (fresh : Memory) :
    ∃ next, use.run fresh vec = some next ∧ FirstBlock next (use.apply list) := by
  cases use with
  | pushBack elem =>
      rw [Use.apply, List.length_append] at room
      exact pushBack_firstBlock positive sized first room elem fresh
  | erase index => exact erase_firstBlock positive first allowed

theorem FirstBlock.hasRoom (first : FirstBlock vec list) : HasRoom size list.length := by
  cases first with
  | new => exact ⟨by simp, fun two => absurd two (Nat.not_succ_le_zero 1)⟩
  | filled _ room _ => exact room

/-- While there is room, a vector is a list. -/
theorem implements_of_hasRoom (positive : 0 < size) (sized : size < 0x10000000000000000)
    (first : FirstBlock vec list) {run : List (Use size × Memory)}
    (allowed : Use.AllAllowed list (run.map Prod.fst))
    (room : ∀ later ∈ Use.lists list (run.map Prod.fst), HasRoom size later.length) :
    Implements vec list run := by
  induction run generalizing vec list with
  | nil => trivial
  | cons head rest ih =>
      obtain ⟨use, fresh⟩ := head
      obtain ⟨next, ran, kept⟩ := run_firstBlock positive sized first allowed.1
        (room _ List.mem_cons_self) fresh
      exact ⟨next, ran, kept.represents,
        ih kept allowed.2 fun later member => room later (List.mem_cons_of_mem _ member)⟩

/-- A vector that is a list has room for it, whatever there is in memory. -/
theorem hasRoom_of_implements (positive : 0 < size) (sized : size < 0x10000000000000000)
    (first : FirstBlock vec list) {uses : List (Use size)} (allowed : Use.AllAllowed list uses)
    (implements : ∀ run : List (Use size × Memory), run.map Prod.fst = uses →
      Implements vec list run) :
    ∀ later ∈ Use.lists list uses, HasRoom size later.length := by
  induction uses generalizing vec list with
  | nil => exact fun _ member => absurd member List.not_mem_nil
  | cons use uses ih =>
      have ends (fresh : Memory) :
          ((use, fresh) :: uses.map fun later => (later, fresh)).map Prod.fst = use :: uses := by
        rw [List.map_cons, List.map_map]
        exact congrArg (use :: ·) (List.map_id uses)
      have room : HasRoom size (use.apply list).length := by
        cases use with
        | pushBack elem =>
            rw [Use.apply, List.length_append]
            by_contra full
            obtain ⟨fresh, lost⟩ := pushBack_lost positive sized first full elem
            obtain ⟨next, ran, represents, _⟩ := implements _ (ends fresh)
            exact lost next ran represents
        | erase index =>
            exact first.hasRoom.mono (List.length_eraseIdx_le list index)
      obtain ⟨next, ran, kept⟩ := run_firstBlock positive sized first allowed.1 room fun _ => 0
      intro later member
      rcases List.mem_cons.mp member with rfl | member
      · exact room
      · apply ih kept allowed.2 _ later member
        intro rest split
        obtain ⟨other, same, _, implemented⟩ :=
          implements ((use, fun _ => 0) :: rest) (by rw [List.map_cons, split])
        obtain rfl := Option.some.inj (ran.symm.trans same)
        exact implemented

/-- The first block of elements below two gigabytes has room for four. -/
theorem hasRoom_iff (positive : 0 < size) (small : size < 0x80000000) :
    HasRoom size n ↔ n ≤ 4 := by
  have capacity : capacityOf size = size * 4 := wrap_of_lt (by omega)
  have square : size * 4 * size ≤ 0x1FFFFFFFC * 0x7FFFFFFF := Nat.mul_le_mul (by omega) (by omega)
  have bytes : bytesOf size = size * 4 * size := by
    rw [bytesOf, capacity]
    exact wrap_of_lt (square.trans_lt (by decide))
  rw [HasRoom, capacity, bytes]
  constructor
  · rintro ⟨_, later⟩
    by_contra more
    have fit := later (by omega)
    rw [Nat.mul_comm] at fit
    exact more (Nat.le_of_mul_le_mul_left fit positive)
  · intro four
    have most : n * size ≤ size * 4 := by
      rw [Nat.mul_comm size]
      exact Nat.mul_le_mul_right size four
    exact ⟨most.trans (Nat.le_mul_of_pos_right _ positive), fun _ => most⟩

end

end NTux.Kernel
