import NTux.Mem.HeapLayout
import NTux.Mem.KernelHeap

/-! # The user heap against the kernel heap

`mem/umalloc.c` repeats `mem/kmalloc.c` for another range of addresses, with a slip in
`align8`: it masks with `-7` instead of `~7`, which keeps the lowest bit, so that a request
of an even size is rounded up to one more than a multiple of eight (`align8_userHeap`). The
two heaps hand out the same offsets for all sequences of requests that have no even size,
and for no larger set of sizes (`umalloc_alike`).
-/

namespace NTux.Mem

open NTux.Foundation Memory HeapState

/-- The values of `umalloc.c`. -/
def userHeap : HeapConfig where
  heapStart := 0x00400000
  initialSize := 0x1000000
  alignMask := 2 ^ 64 - 7
  mapFlags := 0x7

def umallocInit (s : HeapState) : HeapState := heapInit userHeap s

def umalloc (s : HeapState) (size : Nat) : Option (Nat × HeapState) := heapAlloc userHeap s size

def ufree (s : HeapState) (ptr : Nat) : HeapState := heapFree s ptr

/-! ## Rounding -/

/-- The mask of `umalloc.c` clears two bits and keeps the lowest. -/
theorem align8_userHeap_eq (size : Nat) :
    userHeap.align8 size = (size + 7) % 2 ^ 64 / 8 * 8 + (size + 7) % 2 := by
  have split : ∀ x < 2 ^ 64, x &&& (2 ^ 64 - 7) = x / 8 * 8 + x % 2 := by
    intro x small
    have mask : (2 ^ 64 - 7 : Nat) = (2 ^ 64 - 2 ^ 3) ||| 1 := by decide
    have low : x % 2 < 2 ^ 3 := by omega
    rw [mask, Nat.and_or_distrib_left, land_highMask small (by decide), Nat.and_one_is_mod,
      lor_low low]
    rfl
  have small : (size + 7) % 2 ^ 64 < 2 ^ 64 := Nat.mod_lt _ (by decide)
  have parity : (size + 7) % 2 ^ 64 % 2 = (size + 7) % 2 := by omega
  rw [← parity]
  exact split _ small

/-- Against `kmalloc.c` a request of an even size gets one byte more. -/
theorem align8_userHeap (size : Nat) :
    userHeap.align8 size = kernelHeap.align8 size + (size + 7) % 2 := by
  rw [align8_userHeap_eq, align8_kernelHeap_eq]

theorem align8_kernelHeap_dvd (size : Nat) : kernelHeap.align8 size % 8 = 0 := by
  rw [align8_kernelHeap_eq]
  exact Nat.mul_mod_left _ _

theorem userHeap_regular : userHeap.Regular := ⟨by decide, by decide⟩

theorem kernelHeap_regular : kernelHeap.Regular := ⟨by decide, by decide⟩

/-! ## Clients -/

/-- A call of a heap: an allocation, or the release of the pointer with a number, in the
order in which they were returned. -/
inductive HeapCall where
  | alloc (size : Nat)
  | free (index : Nat)
  deriving DecidableEq, Repr

/-- A heap, the pointers it has returned, and the numbers of those not released. -/
structure HeapClient where
  state : HeapState
  pointers : List Nat
  held : List Nat

/-- One call within the initial heap. Only what is held is released. -/
inductive CallStep (config : HeapConfig) : HeapClient → HeapCall → HeapClient → Prop where
  | alloc {r : HeapClient} {size ptr : Nat} {state : HeapState}
      (within : Within config r.state size)
      (result : heapAlloc config r.state size = some (ptr, state)) :
      CallStep config r (.alloc size) ⟨state, r.pointers ++ [ptr],
        if size = 0 then r.held else r.pointers.length :: r.held⟩
  | free {r : HeapClient} {index ptr : Nat} (held : index ∈ r.held)
      (given : r.pointers[index]? = some ptr) :
      CallStep config r (.free index) ⟨heapFree r.state ptr, r.pointers, r.held.erase index⟩

/-- A layout, the blocks it has given out, and the numbers of those not released. -/
structure LayoutClient where
  layout : Layout
  blocks : List (Option Block)
  held : List Nat

/-- What a call does to the layout. -/
def LayoutClient.perform (round : Nat → Nat) (a : LayoutClient) : HeapCall → LayoutClient
  | .alloc size =>
      if size = 0 then { a with blocks := a.blocks ++ [none] }
      else ⟨(a.layout.alloc (round size)).2, a.blocks ++ [some (a.layout.alloc (round size)).1],
        a.blocks.length :: a.held⟩
  | .free index =>
      match a.blocks[index]?.join with
      | some block => ⟨a.layout.release block, a.blocks, a.held.erase index⟩
      | none => a

/-- The pointer to a block, or the null pointer. -/
def HeapConfig.pointer (config : HeapConfig) : Option Block → Nat
  | some block => config.address block + headerSize
  | none => 0

/-- The heap in memory has the layout, its pointers lead to the blocks given out, and those
held are live, each by one number. -/
structure LayoutClient.Of (config : HeapConfig) (r : HeapClient) (a : LayoutClient) : Prop where
  layout : a.layout.Of config r.state
  pointers : r.pointers = a.blocks.map config.pointer
  held : r.held = a.held
  live : ∀ index ∈ a.held, ∃ block ∈ a.layout.live, a.blocks[index]? = some (some block)
  distinct : a.held.Nodup
  single : ∀ first ∈ a.held, ∀ second ∈ a.held, a.blocks[first]? = a.blocks[second]? → first = second

theorem Block.not_apart_self (block : Block) : ¬ block.Apart block := by
  simp only [Block.Apart, Block.finish, headerSize]
  omega

/-- An allocation adds its block to those that are live. -/
theorem Layout.alloc_live (a : Layout) (size : Nat) :
    (a.alloc size).2.live = (a.alloc size).1 :: a.live := by
  rw [Layout.alloc]
  split <;> rfl

namespace LayoutClient.Of

variable {config : HeapConfig} {r next : HeapClient} {a : LayoutClient} {size index : Nat}

theorem init (config : HeapConfig) (s : HeapState) :
    LayoutClient.Of config ⟨heapInit config s, [], []⟩ ⟨.empty, [], []⟩ :=
  ⟨.init config s, rfl, rfl, fun _ member => absurd member List.not_mem_nil, List.nodup_nil,
    fun _ member => absurd member List.not_mem_nil⟩

/-- Numbers held are numbers of pointers returned. -/
theorem lt_length (client : a.Of config r) (held : index ∈ a.held) : index < a.blocks.length := by
  obtain ⟨block, -, given⟩ := client.live index held
  exact (List.getElem?_eq_some_iff.mp given).1

/-- The step lemma of allocation. -/
theorem alloc (client : a.Of config r) (regular : config.Regular)
    (within : Within config r.state size) {ptr : Nat} {state : HeapState}
    (result : heapAlloc config r.state size = some (ptr, state)) :
    (a.perform config.align8 (.alloc size)).Of config ⟨state, r.pointers ++ [ptr],
      if size = 0 then r.held else r.pointers.length :: r.held⟩ := by
  have keeps : ∀ (added : Option Block) index, index ∈ a.held →
      (a.blocks ++ [added])[index]? = a.blocks[index]? :=
    fun _ _ held => List.getElem?_append_left (client.lt_length held)
  rw [LayoutClient.perform]
  by_cases zero : size = 0
  · rw [if_pos zero, if_pos zero]
    rw [zero, heapAlloc, if_pos rfl] at result
    cases result
    refine ⟨client.layout, ?_, client.held, ?_, client.distinct, ?_⟩
    · rw [List.map_append, ← client.pointers]
      rfl
    · intro index held
      obtain ⟨block, live, given⟩ := client.live index held
      exact ⟨block, live, (keeps none index held).trans given⟩
    · intro first held second held' same
      rw [keeps none first held, keeps none second held'] at same
      exact client.single first held second held' same
  · obtain ⟨t, known, layout⟩ := client.layout.alloc regular zero within
    rw [if_neg zero, if_neg zero]
    cases known.symm.trans result
    have live := a.layout.alloc_live (config.align8 size)
    generalize a.layout.alloc (config.align8 size) = given at layout live
    obtain ⟨block, after⟩ := given
    dsimp only at layout live ⊢
    have fresh : block ∉ a.layout.live := by
      intro member
      have apart := layout.sound.apart
      rw [live, List.cons_append, List.pairwise_cons] at apart
      exact block.not_apart_self (apart.1 block (List.mem_append_left _ member))
    have last : (a.blocks ++ [some block])[a.blocks.length]? = some (some block) :=
      List.getElem?_concat_length
    have newest : a.blocks.length ∉ a.held := fun held => (client.lt_length held).false
    have other : ∀ index ∈ a.held, (a.blocks ++ [some block])[index]? ≠ some (some block) := by
      intro index held same
      obtain ⟨old, oldLive, given⟩ := client.live index held
      rw [keeps _ index held, given] at same
      cases same
      exact fresh oldLive
    have count : r.pointers.length = a.blocks.length := by
      rw [client.pointers, List.length_map]
    refine ⟨layout, ?_, ?_, ?_, List.nodup_cons.mpr ⟨newest, client.distinct⟩, ?_⟩
    · rw [List.map_append, ← client.pointers]
      rfl
    · rw [count, client.held]
    · intro index member
      rcases List.mem_cons.mp member with rfl | held
      · exact ⟨block, by rw [live]; exact List.mem_cons_self, last⟩
      · obtain ⟨old, oldLive, given⟩ := client.live index held
        exact ⟨old, by rw [live]; exact List.mem_cons_of_mem _ oldLive,
          (keeps _ index held).trans given⟩
    · intro first member second member' same
      rcases List.mem_cons.mp member with rfl | held
      · rcases List.mem_cons.mp member' with rfl | held'
        · rfl
        · exact absurd (same.symm.trans last) (other second held')
      · rcases List.mem_cons.mp member' with rfl | held'
        · exact absurd (same.trans last) (other first held)
        · rw [keeps _ first held, keeps _ second held'] at same
          exact client.single first held second held' same

/-- The step lemma of release. -/
theorem free (client : a.Of config r) (regular : config.Regular) (held : index ∈ r.held) {ptr : Nat}
    (given : r.pointers[index]? = some ptr) :
    (a.perform config.align8 (.free index)).Of config
      ⟨heapFree r.state ptr, r.pointers, r.held.erase index⟩ := by
  rw [client.held] at held
  obtain ⟨block, live, known⟩ := client.live index held
  rw [client.pointers, List.getElem?_map, known] at given
  cases given
  have joined : a.blocks[index]?.join = some block := by rw [known, Option.join_some]
  simp only [LayoutClient.perform, joined]
  refine ⟨client.layout.release regular live, client.pointers, by rw [client.held], ?_,
    client.distinct.erase index, ?_⟩
  · intro other member
    obtain ⟨different, held'⟩ := (client.distinct.mem_erase_iff).mp member
    obtain ⟨old, oldLive, known'⟩ := client.live other held'
    have unequal : old ≠ block := by
      rintro rfl
      exact different (client.single other held' index held (known'.trans known.symm))
    exact ⟨old, (List.mem_erase_of_ne unequal).mpr oldLive, known'⟩
  · intro first member second member' same
    exact client.single first (List.mem_of_mem_erase member) second
      (List.mem_of_mem_erase member') same

/-- **Every run of a heap is a run of its layout.** -/
theorem run {calls : List HeapCall} (client : a.Of config r) (regular : config.Regular)
    (run : Run (CallStep config) r calls next) :
    (calls.foldl (LayoutClient.perform config.align8) a).Of config next := by
  induction run generalizing a with
  | nil => exact client
  | cons taken _ ih =>
      apply ih
      cases taken with
      | alloc within result => exact client.alloc regular within result
      | free held given => exact client.free regular held given

end LayoutClient.Of

/-! ## Alignment -/

/-- The end of the heap and all blocks have offsets that are multiples of eight. -/
structure LayoutClient.Aligned (a : LayoutClient) : Prop where
  top : a.layout.top % 8 = 0
  free : ∀ block ∈ a.layout.free, block.offset % 8 = 0
  blocks : ∀ block, some block ∈ a.blocks → block.offset % 8 = 0

theorem takeFit_subset {size : Nat} {block : Block} {blocks rest : List Block}
    (taken : takeFit size blocks = some (block, rest)) : block ∈ blocks ∧ rest ⊆ blocks := by
  induction blocks generalizing rest with
  | nil => cases taken
  | cons head tail ih =>
      rw [takeFit] at taken
      split at taken
      · cases taken
        exact ⟨List.mem_cons_self, List.subset_cons_self _ _⟩
      · obtain ⟨⟨found, others⟩, earlier, same⟩ := Option.map_eq_some_iff.mp taken
        cases same
        obtain ⟨member, sub⟩ := ih earlier
        exact ⟨List.mem_cons_of_mem _ member, List.cons_subset_cons _ sub⟩

/-- Rounding to multiples of eight keeps everything aligned. -/
theorem LayoutClient.Aligned.perform {round : Nat → Nat} (rounds : ∀ size, round size % 8 = 0)
    {a : LayoutClient} (aligned : a.Aligned) (call : HeapCall) : (a.perform round call).Aligned := by
  cases call with
  | alloc size =>
      rw [LayoutClient.perform]
      split
      · refine ⟨aligned.top, aligned.free, fun block member => ?_⟩
        simp only [List.mem_append, List.mem_singleton, reduceCtorEq, or_false] at member
        exact aligned.blocks block member
      · cases taken : takeFit (round size) a.layout.free with
        | none =>
            simp only [Layout.alloc, taken]
            refine ⟨?_, aligned.free, fun block member => ?_⟩
            · have top := aligned.top
              have rounded := rounds size
              simp only [headerSize]
              omega
            · rcases List.mem_append.mp member with old | new
              · exact aligned.blocks block old
              · cases List.mem_singleton.mp new
                exact aligned.top
        | some found =>
            obtain ⟨block, rest⟩ := found
            simp only [Layout.alloc, taken]
            obtain ⟨listed, sub⟩ := takeFit_subset taken
            refine ⟨aligned.top, fun other member => aligned.free other (sub member),
              fun other member => ?_⟩
            rcases List.mem_append.mp member with old | new
            · exact aligned.blocks other old
            · cases List.mem_singleton.mp new
              exact aligned.free block listed
  | free index =>
      rw [LayoutClient.perform]
      split
      · rename_i block given
        have listed : some block ∈ a.blocks := List.mem_of_getElem? (Option.join_eq_some_iff.mp given)
        refine ⟨aligned.top, fun other member => ?_, aligned.blocks⟩
        rcases List.mem_cons.mp member with rfl | old
        · exact aligned.blocks other listed
        · exact aligned.free other old
      · exact aligned

theorem LayoutClient.Aligned.run {round : Nat → Nat} (rounds : ∀ size, round size % 8 = 0)
    (calls : List HeapCall) {a : LayoutClient} (aligned : a.Aligned) :
    (calls.foldl (LayoutClient.perform round) a).Aligned := by
  induction calls generalizing a with
  | nil => exact aligned
  | cons call rest ih => exact ih (aligned.perform rounds call)

/-! ## The two heaps -/

/-- The offset of a pointer from the start of a heap; none for the null pointer. -/
def HeapConfig.offset (config : HeapConfig) (ptr : Nat) : Option Nat :=
  if ptr = 0 then none else some (ptr - config.heapStart)

theorem offset_pointer (config : HeapConfig) (block : Option Block) :
    config.offset (config.pointer block) = block.map fun block => block.offset + headerSize := by
  cases block with
  | none => rfl
  | some block =>
      have nonnull : config.heapStart + block.offset + headerSize ≠ 0 := Nat.succ_ne_zero _
      have distance : config.heapStart + block.offset + headerSize - config.heapStart =
          block.offset + headerSize := by
        rw [Nat.add_assoc, Nat.add_sub_cancel_left]
      rw [HeapConfig.pointer, HeapConfig.address, HeapConfig.offset, if_neg nonnull, distance]
      rfl

/-- The heaps have returned pointers at the same offsets, and those of the user heap are
multiples of eight. -/
structure Alike (user kernel : HeapClient) : Prop where
  offsets : user.pointers.map userHeap.offset = kernel.pointers.map kernelHeap.offset
  aligned : ∀ ptr ∈ user.pointers, ptr % 8 = 0

/-- For every sequence of allocations of these sizes, and of releases, the two heaps are alike. -/
def AlikeFor (sizes : Set Nat) : Prop :=
  ∀ (s s' : HeapState) (calls : List HeapCall) (user kernel : HeapClient),
    (∀ size, .alloc size ∈ calls → size ∈ sizes) →
    Run (CallStep userHeap) ⟨umallocInit s, [], []⟩ calls user →
    Run (CallStep kernelHeap) ⟨kmallocInit s', [], []⟩ calls kernel → Alike user kernel

/-- The offsets of a heap's pointers are those of its layout. -/
theorem LayoutClient.Of.offsets {config : HeapConfig} {r : HeapClient} {a : LayoutClient}
    (client : a.Of config r) : r.pointers.map config.offset =
      a.blocks.map (Option.map fun block => block.offset + headerSize) := by
  rw [client.pointers, List.map_map]
  exact List.map_congr_left fun block _ => offset_pointer config block

/-- Requests of odd sizes are rounded alike. -/
theorem align8_odd {size : Nat} (odd : size % 2 = 1) :
    userHeap.align8 size = kernelHeap.align8 size := by
  rw [align8_userHeap]
  omega

theorem perform_congr {round other : Nat → Nat} {calls : List HeapCall}
    (same : ∀ size, .alloc size ∈ calls → size = 0 ∨ round size = other size) (a : LayoutClient) :
    calls.foldl (LayoutClient.perform round) a = calls.foldl (LayoutClient.perform other) a := by
  induction calls generalizing a with
  | nil => rfl
  | cons call rest ih =>
      have first : a.perform round call = a.perform other call := by
        cases call with
        | alloc size =>
            rw [LayoutClient.perform, LayoutClient.perform]
            rcases same size List.mem_cons_self with zero | equal
            · rw [if_pos zero, if_pos zero]
            · rw [equal]
        | free index => rfl
      rw [List.foldl_cons, List.foldl_cons, first]
      exact ih (fun size member => same size (List.mem_cons_of_mem _ member)) _

theorem alike_of_odd {sizes : Set Nat} (odd : ∀ size ∈ sizes, size = 0 ∨ size % 2 = 1) :
    AlikeFor sizes := by
  intro s s' calls user kernel requested userRun kernelRun
  have userLayout := (LayoutClient.Of.init userHeap s).run userHeap_regular userRun
  have kernelLayout := (LayoutClient.Of.init kernelHeap s').run kernelHeap_regular kernelRun
  have rounding : ∀ size, .alloc size ∈ calls →
      size = 0 ∨ userHeap.align8 size = kernelHeap.align8 size :=
    fun size member => (odd size (requested size member)).imp_right align8_odd
  rw [perform_congr rounding] at userLayout
  constructor
  · rw [userLayout.offsets, kernelLayout.offsets]
  · intro ptr member
    have aligned : LayoutClient.Aligned ⟨.empty, [], []⟩ :=
      ⟨rfl, fun _ member => absurd member List.not_mem_nil,
        fun _ member => absurd member List.not_mem_nil⟩
    rw [userLayout.pointers] at member
    obtain ⟨block, listed, rfl⟩ := List.mem_map.mp member
    cases block with
    | none => rfl
    | some block =>
        have multiple := (aligned.run align8_kernelHeap_dvd calls).blocks block listed
        have start : userHeap.heapStart % 8 = 0 := by decide
        simp only [HeapConfig.pointer, HeapConfig.address, headerSize]
        omega

/-- Two allocations of one size that both fit. -/
theorem two_allocations {config : HeapConfig} (regular : config.Regular) (s : HeapState)
    {size : Nat} (nonzero : size ≠ 0)
    (room : 2 * (config.align8 size + headerSize) ≤ config.initialSize) :
    ∃ r, Run (CallStep config) ⟨heapInit config s, [], []⟩ [.alloc size, .alloc size] r ∧
      r.pointers.map config.offset =
        [some headerSize, some (config.align8 size + headerSize + headerSize)] := by
  have first := Layout.Of.init config s
  have roomFirst : Layout.empty.Room config.initialSize (config.align8 size) := by
    intro _
    change 0 + (config.align8 size + headerSize) ≤ _
    omega
  have within := first.within roomFirst
  obtain ⟨t, result, second⟩ := first.alloc regular nonzero within
  have roomSecond : (Layout.empty.alloc (config.align8 size)).2.Room config.initialSize
      (config.align8 size) := by
    intro _
    change 0 + (config.align8 size + headerSize) + (config.align8 size + headerSize) ≤ _
    omega
  have within' := second.within roomSecond
  obtain ⟨u, result', -⟩ := second.alloc regular nonzero within'
  have run := Run.cons (CallStep.alloc (r := ⟨heapInit config s, [], []⟩) within result)
    (.single (.alloc within' result'))
  have client := (LayoutClient.Of.init config s).run regular run
  refine ⟨_, run, ?_⟩
  rw [client.offsets]
  simp only [List.foldl_cons, List.foldl_nil, LayoutClient.perform, if_neg nonzero]
  change [some (0 + headerSize), some (0 + (config.align8 size + headerSize) + headerSize)] = _
  rw [Nat.zero_add, Nat.zero_add]

/-- **Where the user heap agrees with the kernel heap.** The heaps are alike for all
sequences of requests of odd sizes, or zero. For no set of sizes that has an even one, of
which two fit, are they alike. -/
theorem umalloc_alike (sizes : Set Nat) :
    ((∀ size ∈ sizes, size = 0 ∨ size % 2 = 1) → AlikeFor sizes) ∧
      (AlikeFor sizes → ∀ size ∈ sizes, 2 * (size + 24) ≤ kernelHeap.initialSize →
        size = 0 ∨ size % 2 = 1) := by
  refine ⟨alike_of_odd, fun alike size member small => ?_⟩
  by_contra even
  rw [not_or] at even
  obtain ⟨nonzero, even⟩ := even
  have limit : kernelHeap.initialSize = 0x100000 := rfl
  have rounded := align8_kernelHeap (by omega : size + 7 < 2 ^ 64)
  have longer := align8_userHeap size
  obtain ⟨user, userRun, userOffsets⟩ := two_allocations userHeap_regular bootHeap nonzero
    (by rw [longer, rounded]; simp only [userHeap, headerSize]; omega)
  obtain ⟨kernel, kernelRun, kernelOffsets⟩ := two_allocations kernelHeap_regular bootHeap nonzero
    (by rw [rounded, limit]; simp only [headerSize]; omega)
  have same := (alike bootHeap bootHeap _ user kernel ?_ userRun kernelRun).offsets
  · rw [userOffsets, kernelOffsets, longer] at same
    simp only [List.cons.injEq, Option.some.injEq, true_and, and_true] at same
    omega
  · intro requested listed
    simp only [List.mem_cons, HeapCall.alloc.injEq, List.not_mem_nil, or_false, or_self] at listed
    rwa [listed]

/-- After two requests of two bytes the second pointer of the user heap is one byte behind
the kernel heap's. -/
theorem umalloc_drifts_two :
    ¬ ∀ (s s' : HeapState) (calls : List HeapCall) (user kernel : HeapClient),
      Run (CallStep userHeap) ⟨umallocInit s, [], []⟩ calls user →
      Run (CallStep kernelHeap) ⟨kmallocInit s', [], []⟩ calls kernel → Alike user kernel := by
  intro claim
  obtain ⟨user, userRun, userOffsets⟩ := two_allocations userHeap_regular bootHeap
    (by decide : 2 ≠ 0) (by decide +kernel)
  obtain ⟨kernel, kernelRun, kernelOffsets⟩ := two_allocations kernelHeap_regular bootHeap
    (by decide : 2 ≠ 0) (by decide +kernel)
  have same := (claim bootHeap bootHeap _ user kernel userRun kernelRun).offsets
  rw [userOffsets, kernelOffsets, align8_userHeap] at same
  simp only [List.cons.injEq, Option.some.injEq, true_and, and_true] at same
  omega

end NTux.Mem
