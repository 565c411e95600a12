import NTux.Fat32.Contents
import NTux.Foundation.Serving

/-! # An open file is a file of bytes

As long as there are clusters for it, those of the file and free ones, an open file behaves as a
file of cells whatever is read, written and sought (`each_shows`): what is read is what was
written last, or what was there before. Nothing is done to the chains and the bytes of other files
(`Volume.Grows.others`).
-/

namespace NTux.Fat32

open NTux.Foundation Command

variable {g : Geometry} {v w : Volume} {chain more : List Nat} {c d fuel cap : Nat}
  {s t u : OpenFile} {f : CellFile Byte}

theorem div_lt_of_lt_mul {i n m : Nat} (less : i < n * m) : i / m < n :=
  Nat.div_lt_of_lt_mul (Nat.mul_comm n m ▸ less)

/-! ## What an open file shows -/

/-- What of a file stays, whatever is done to its bytes. -/
def File.identity (file : File) : Option Nat × Nat × Nat × Nat × Nat × Bool × Bool :=
  (file.fat, file.dirSect, file.sclust, file.dirIdx, file.attr, file.flags.write, file.flags.read)

/-- Where a file is, and its buffer. -/
def File.situation (file : File) : Option Nat × Nat × Nat × Nat × Nat × Sector × Bool :=
  (file.fat, file.sclust, file.clust, file.sect, file.offset, file.buf, file.flags.fileDirty)

/-- The file has the size and the place of a file of cells, and its bytes are those cells that are
known. -/
structure OpenFile.Shows (g : Geometry) (chain : List Nat) (f : CellFile Byte) (s : OpenFile) :
    Prop where
  stands : s.Stands g chain
  place : f.place = s.file.offset
  size : f.size = s.file.size
  cells : ∀ i, ∀ b ∈ f.cells i, i < chain.length * g.clustSize ∧ s.byteAt g chain i = b

/-- A file in the same situation on the same volume. -/
theorem OpenFile.Stands.congr (stands : s.Stands g chain) (volume : t.volume = s.volume)
    (same : t.file.situation = s.file.situation) : t.Stands g chain ∧ t.seen = s.seen := by
  simp only [File.situation, Prod.mk.injEq] at same
  obtain ⟨fat, sclust, clust, sect, offset, buf, dirty⟩ := same
  constructor
  · constructor
    case toAlong =>
      rw [offset]
      exact ⟨volume ▸ stands.healthy, volume ▸ stands.isChain, stands.nodup,
        volume ▸ stands.apart, clust ▸ stands.clust⟩
    case mounted => exact fat ▸ stands.mounted
    case first => exact sclust ▸ stands.first
    case sect =>
      rw [sect, clust, offset]
      exact stands.sect
    case clean =>
      rw [dirty, buf, volume, sect]
      exact stands.clean
  · unfold OpenFile.seen OpenFile.seenAt
    rw [volume, sect, buf]

/-- A file of another size. -/
theorem OpenFile.Shows.resized (shown : s.Shows g chain f) (volume : t.volume = s.volume)
    (same : t.file.situation = s.file.situation) :
    t.Shows g chain { f with size := t.file.size } := by
  obtain ⟨stands, seen⟩ := shown.stands.congr volume same
  refine ⟨stands, ?_, rfl, fun i b known => ?_⟩
  · simp only [File.situation, Prod.mk.injEq] at same
    rw [same.2.2.2.2.1]
    exact shown.place
  · unfold OpenFile.byteAt
    rw [seen]
    exact shown.cells i b known

theorem OpenFile.Shows.congr (shown : s.Shows g chain f) (volume : t.volume = s.volume)
    (same : t.file.situation = s.file.situation) (size : t.file.size = s.file.size) :
    t.Shows g chain f := by
  have resized := shown.resized volume same
  rw [size, ← shown.size] at resized
  exact resized

/-- The volume goes on, and the sectors of the file are seen as before. -/
theorem OpenFile.Shows.withVolume (shown : s.Shows g chain f) (healthy : w.Healthy g)
    (entry : ∀ c, g.InFat c → w.entry c = s.volume.entry c)
    (apart : ∀ c ∈ chain, w.fat.sect ∉ g.clustArea c)
    (view : ∀ c ∈ chain, Set.EqOn w.view s.volume.view (g.clustArea c)) :
    (s.withVolume w).Shows g chain f := by
  have stands := shown.stands
  have geometry := stands.healthy.fit.geometry
  have member := List.mem_of_getElem? stands.clust
  have link : ∀ c ∈ chain, w.link c = s.volume.link c := fun c inChain => by
    rw [Volume.link, entry c (stands.isClust inChain).inFat, Volume.link]
  refine ⟨⟨⟨healthy, ?_, stands.nodup, apart, stands.clust⟩, stands.mounted, stands.first,
    stands.sect, fun clean => ?_⟩, shown.place, shown.size, fun i b known => ?_⟩
  · exact stands.isChain.congr (healthy.fit.geometry.trans geometry.symm) link
  · exact (stands.clean clean).trans (view _ member stands.sect_mem).symm
  · obtain ⟨less, byte⟩ := shown.cells i b known
    have inside := div_lt_of_lt_mul less
    have inChain := List.getElem_mem inside
    have inArea : g.place chain i ∈ g.clustArea chain[i / g.clustSize] := by
      unfold Geometry.place
      rw [List.getD_eq_getElem _ _ inside]
      exact healthy.fit.layout.sectorOf_mem (stands.isClust inChain) i
    refine ⟨less, ?_⟩
    rw [← byte]
    change Function.update w.view s.file.sect s.file.buf (g.place chain i) _ =
      Function.update s.volume.view s.file.sect s.file.buf (g.place chain i) _
    rw [Function.update_apply, Function.update_apply, view _ inChain inArea]

theorem Geometry.place_append {i : Nat} (inside : i / g.clustSize < chain.length) (more : List Nat) :
    g.place (chain ++ more) i = g.place chain i := by
  unfold Geometry.place
  rw [List.getD_append _ _ _ _ inside]

/-- The sector of an offset of a chain. -/
theorem OpenFile.Along.place_mem {k i : Nat} (along : s.Along g chain k)
    (inside : i / g.clustSize < chain.length) : g.place chain i ∈ g.dataArea := by
  unfold Geometry.place
  rw [List.getD_eq_getElem _ _ inside]
  have layout := along.healthy.fit.layout
  have isClust := along.isClust (List.getElem_mem inside)
  exact layout.clustArea_subset isClust (layout.sectorOf_mem isClust i)

/-- The offsets within the sector of a file. -/
theorem OpenFile.Stands.place_eq (stands : s.Stands g chain) {i : Nat}
    (same : i / 512 = s.file.offset / 512) :
    i / g.clustSize < chain.length ∧ g.place chain i = s.file.sect := by
  have shift := stands.healthy.fit.shift
  have index : i / g.clustSize = s.file.offset / g.clustSize := by
    rw [Geometry.div_clustSize shift, same, ← Geometry.div_clustSize shift]
  obtain ⟨inside, here⟩ := List.getElem?_eq_some_iff.mp stands.clust
  refine ⟨index ▸ inside, ?_⟩
  unfold Geometry.place Geometry.sectorOf
  rw [index, List.getD_eq_getElem _ _ inside, here, same, stands.sect]
  rfl

/-- Only the offsets within the sector of a file are in its buffer. -/
theorem OpenFile.Stands.place_inj (stands : s.Stands g chain) {i : Nat}
    (inside : i / g.clustSize < chain.length) (same : g.place chain i = s.file.sect) :
    i / 512 = s.file.offset / 512 := by
  obtain ⟨inside', here⟩ := stands.place_eq (i := s.file.offset) rfl
  exact Geometry.place_inj stands.healthy.fit.layout stands.healthy.fit.shift
    (fun c member => stands.isClust member) stands.nodup inside inside' (same.trans here.symm)

/-- The bytes of the file's sector are those of its buffer. -/
theorem OpenFile.Stands.byteAt_eq (stands : s.Stands g chain) {i : Nat}
    (same : i / 512 = s.file.offset / 512) : s.byteAt g chain i = s.file.buf (i % 512) := by
  unfold OpenFile.byteAt OpenFile.seen OpenFile.seenAt
  rw [(stands.place_eq same).2, Function.update_self]

theorem OpenFile.Stands.lt_mul (stands : s.Stands g chain) {i : Nat}
    (inside : i / g.clustSize < chain.length) : i < chain.length * g.clustSize :=
  (Nat.div_lt_iff_lt_mul stands.healthy.clustSize_pos).mp inside

/-- A seek moves the file of cells. -/
theorem OpenFile.Seeks.shows {off : Nat} (seeks : s.Seeks g chain more off t)
    (shown : s.Shows g chain f) : t.Shows g (chain ++ more) (f.moved off) := by
  refine ⟨seeks.stands, ?_, ?_, fun i b known => ?_⟩
  · rw [seeks.file]
    rfl
  · rw [seeks.file]
    exact shown.size
  · obtain ⟨less, byte⟩ := shown.cells i b known
    have inside := div_lt_of_lt_mul less
    refine ⟨less.trans_le (Nat.mul_le_mul_right _ (by simp)), ?_⟩
    rw [← byte]
    unfold OpenFile.byteAt
    rw [Geometry.place_append inside, seeks.seen (shown.stands.place_mem inside)]

theorem OpenFile.Seeks.identity {off : Nat} (seeks : s.Seeks g chain more off t) :
    t.file.identity = s.file.identity := by
  rw [seeks.file]
  rfl

/-! ## The bytes of a turn -/

/-- The caller gets what the file of cells gives. -/
theorem OpenFile.Shows.tells (shown : s.Shows g chain f) {cnt : Nat}
    (short : s.file.offset % 512 + cnt ≤ 512) :
    CellFile.Tells (f.row f.place cnt) (s.file.bytesAt cnt) := by
  unfold CellFile.Tells CellFile.row File.bytesAt
  rw [List.forall₂_map_left_iff, List.forall₂_map_right_iff, List.forall₂_same]
  intro i member b known
  have less := List.mem_range.mp member
  have byte := (shown.cells _ b known).2
  rw [shown.place, shown.stands.byteAt_eq (by omega)] at byte
  rw [← byte]
  exact congrArg s.file.buf (by omega)

theorem OpenFile.Along.accept {k : Nat} (along : s.Along g chain k) {src : List Byte} {cnt : Nat} :
    (s.accept src cnt).Along g chain k :=
  ⟨along.healthy, along.isChain, along.nodup, along.apart, along.clust⟩

/-- Bytes that go to the buffer are laid into the file of cells. -/
theorem OpenFile.Shows.accept (shown : s.Shows g chain f) {src : List Byte} {cnt : Nat}
    (short : s.file.offset % 512 + cnt ≤ 512) (enough : cnt ≤ src.length) :
    (s.accept src cnt).Shows g chain ((f.lay (src.take cnt)).moved f.place) := by
  have stands := shown.stands
  have length : (src.take cnt).length = cnt := List.length_take_of_le enough
  refine ⟨⟨stands.toAlong.accept, stands.mounted, stands.first, stands.sect, nofun⟩, shown.place,
    shown.size, fun i b known => ?_⟩
  have place := shown.place
  have put : (s.accept src cnt).file.buf = s.file.buf.store (s.file.offset % 512) cnt fun i =>
      (src.take cnt).getD i 0 := by
    change Memory.store s.file.buf (s.file.offset % 512) (src.take cnt).length
      (fun i => (src.take cnt).getD i 0) = _
    rw [length]
  by_cases new : f.place ≤ i ∧ i < f.place + (src.take cnt).length
  · rw [length, place] at new
    have same : i / 512 = s.file.offset / 512 := by omega
    obtain ⟨inside, here⟩ := stands.place_eq same
    refine ⟨stands.lt_mul inside, ?_⟩
    change (f.lay (src.take cnt)).cells i = some b at known
    rw [CellFile.cells_lay_of_mem (by omega) (by omega)] at known
    unfold OpenFile.byteAt OpenFile.seen OpenFile.seenAt
    change Function.update s.volume.view s.file.sect (s.accept src cnt).file.buf _ _ = b
    have index : i % 512 = s.file.offset % 512 + (i - f.place) := by omega
    rw [here, Function.update_self, put, index, Memory.store_at _ _ (by omega),
      List.getD_eq_getElem?_getD, known]
    rfl
  · change (f.lay (src.take cnt)).cells i = some b at known
    rw [CellFile.cells_lay_of_notMem (by omega)] at known
    obtain ⟨less, byte⟩ := shown.cells i b known
    refine ⟨less, ?_⟩
    have inside := div_lt_of_lt_mul less
    rw [← byte]
    unfold OpenFile.byteAt OpenFile.seen OpenFile.seenAt
    change Function.update s.volume.view s.file.sect (s.accept src cnt).file.buf _ _ = _
    by_cases here : g.place chain i = s.file.sect
    · have same := stands.place_inj inside here
      rw [here, Function.update_self, Function.update_self, put, Memory.store_of_notMem]
      rintro ⟨low, high⟩
      rw [length, place] at new
      omega
    · rw [Function.update_of_ne here, Function.update_of_ne here]

/-! ## Reading and writing -/

/-- A file after some calls: its chain may have grown, it shows another file of cells, and it is
the same file, of the same size if it was not modified. -/
structure OpenFile.Becomes (g : Geometry) (chain more : List Nat) (f : CellFile Byte)
    (s t : OpenFile) : Prop where
  shows : t.Shows g (chain ++ more) f
  grows : s.volume.Grows g chain more t.volume
  identity : t.file.identity = s.file.identity
  unmodified : t.file.flags.modified = false →
    s.file.flags.modified = false ∧ t.file.size = s.file.size

namespace OpenFile.Becomes

theorem refl (shown : s.Shows g chain f) : s.Becomes g chain [] f s := by
  have all : chain ++ [] = chain := List.append_nil chain
  have along := shown.stands.toAlong
  exact ⟨all.symm ▸ shown, .refl along.healthy along.isChain along.nodup, rfl,
    fun unmodified => ⟨unmodified, rfl⟩⟩

theorem trans {later : List Nat} {f' : CellFile Byte} (first : s.Becomes g chain more f t)
    (second : t.Becomes g (chain ++ more) later f' u) :
    s.Becomes g chain (more ++ later) f' u where
  shows := List.append_assoc chain more later ▸ second.shows
  grows := first.grows.trans second.grows
  identity := second.identity.trans first.identity
  unmodified unmodified := by
    obtain ⟨between, size⟩ := second.unmodified unmodified
    obtain ⟨before, size'⟩ := first.unmodified between
    exact ⟨before, size.trans size'⟩

theorem of_seeks {off : Nat} {f' : CellFile Byte} (seeks : s.Seeks g chain more off t)
    (shows : t.Shows g (chain ++ more) f') : s.Becomes g chain more f' t :=
  ⟨shows, seeks.grows, seeks.identity, fun unmodified => by
    rw [seeks.file] at unmodified ⊢
    exact ⟨unmodified, rfl⟩⟩

end OpenFile.Becomes

/-- There are clusters for so many. -/
def OpenFile.Room (chain : List Nat) (cap : Nat) (s : OpenFile) : Prop :=
  cap ≤ chain.length + s.volume.takeable.card

theorem OpenFile.Room.grows (room : s.Room chain cap)
    (grows : s.volume.Grows g chain more t.volume) : t.Room (chain ++ more) cap := by
  have takeable := grows.takeable
  unfold Room at room ⊢
  rw [List.length_append]
  omega

/-- A turn's seek. -/
theorem seekOn_shows (shown : s.Shows g chain f) (enough : g.clustCnt ≤ fuel)
    (room : s.Room chain cap) (cnt : Nat) (small : f.place + cnt < 2 ^ 32)
    (inside : (f.place + cnt) / g.clustSize < cap) :
    ∃ t more, (fatFileSeek fuel cnt .curr).run s = (.ok (), t) ∧
      s.Seeks g chain more (f.place + cnt) t := by
  refine fatFileSeek_stands shown.stands enough ?_ small (inside.trans_le room)
  unfold OpenFile.target
  change (s.file.offset : Int) + cnt = ((f.place + cnt : Nat) : Int)
  rw [shown.place, Int.natCast_add]

/-- **The loop of `fat_file_read`.** -/
theorem readLoop_shows (enough : g.clustCnt ≤ fuel) : ∀ {turns : Nat} {len : Int} {s : OpenFile}
    {chain : List Nat} {f : CellFile Byte}, s.Shows g chain f → s.Room chain cap → 0 ≤ len →
    len < 2 ^ 31 → f.size < 2 ^ 32 → f.place + f.readable len.toNat < 2 ^ 32 →
    (f.place + f.readable len.toNat) / g.clustSize < cap → f.readable len.toNat < turns →
      ∃ t more got, (readLoop fuel turns len).run s = (.ok (), t) ∧
        s.Becomes g chain more (f.moved (f.place + f.readable len.toNat)) t ∧
        t.bytes = s.bytes + f.readable len.toNat ∧ t.out = s.out ++ got ∧
        CellFile.Tells (f.row f.place (f.readable len.toNat)) got := by
  intro turns
  induction turns with
  | zero => exact fun _ _ _ _ _ _ _ many => absurd many (Nat.not_lt_zero _)
  | succ turns ih =>
      intro len s chain f shown room nonneg fits small high inside many
      rw [readLoop, run_gets_bind]
      have place := shown.place
      have size := shown.size
      by_cases ends : len = 0 ∨ s.file.size ≤ s.file.offset
      · have none : f.readable len.toNat = 0 := by
          unfold CellFile.readable
          omega
        rw [if_pos ends, none]
        exact ⟨s, [], [], rfl, .refl shown, rfl, (List.append_nil _).symm, .nil⟩
      · rw [if_neg ends]
        dsimp only
        rw [run_modify_bind]
        have count := readCount_eq nonneg fits (size ▸ small) (by omega)
        generalize readCount len s.file = cnt at count ⊢
        obtain ⟨all, split⟩ : ∃ left, f.readable len.toNat = cnt + left := by
          refine ⟨f.readable len.toNat - cnt, ?_⟩
          unfold CellFile.readable
          omega
        rw [split] at high inside many ⊢
        have shown' : (s.deliver cnt).Shows g chain f := shown.congr rfl rfl rfl
        obtain ⟨t, more, sought, seeks⟩ := seekOn_shows shown' enough room cnt (by omega)
          ((Nat.div_le_div_right (by omega)).trans_lt inside)
        have left : (f.moved (f.place + cnt)).readable (len - cnt).toNat = all := by
          unfold CellFile.readable at split ⊢
          change min (len - cnt).toNat (f.size - (f.place + cnt)) = all
          omega
        obtain ⟨u, later, got, rest, becomes, bytes, out, tells⟩ := @ih (len - cnt) t (chain ++ more)
          (f.moved (f.place + cnt)) (seeks.shows shown') (OpenFile.Room.grows room seeks.grows)
          (by omega) (by omega) small (by
            rw [left]
            change f.place + cnt + all < 2 ^ 32
            omega) (by
            rw [left]
            change (f.place + cnt + all) / g.clustSize < cap
            rwa [Nat.add_assoc]) (by omega)
        rw [left] at becomes bytes tells
        refine ⟨u, more ++ later, s.file.bytesAt cnt ++ got, (run_bind_ok sought).trans rest, ?_, ?_,
          ?_, ?_⟩
        · have first : (s.deliver cnt).Becomes g chain more (f.moved (f.place + cnt)) t :=
            .of_seeks seeks (seeks.shows shown')
          have both := first.trans becomes
          rw [← Nat.add_assoc]
          exact ⟨both.shows, both.grows, both.identity, both.unmodified⟩
        · rw [bytes, seeks.caller.1]
          exact Nat.add_assoc _ _ _
        · rw [out, seeks.caller.2, ← List.append_assoc]
          rfl
        · rw [CellFile.row_add]
          exact List.rel_append (shown.tells (by omega)) tells

/-- **The loop of `fat_file_write`.** -/
theorem writeLoop_shows (enough : g.clustCnt ≤ fuel) : ∀ {turns : Nat} {src : List Byte} {len : Nat}
    {s : OpenFile} {chain : List Nat} {f : CellFile Byte}, s.Shows g chain f → s.Room chain cap →
    len ≤ src.length → f.place + len < 2 ^ 32 → (f.place + len) / g.clustSize < cap → len < turns →
      ∃ t more, (writeLoop fuel turns src len).run s = (.ok (), t) ∧
        s.Becomes g chain more (f.lay (src.take len)) t ∧ t.bytes = s.bytes + len ∧
        t.out = s.out := by
  intro turns
  induction turns with
  | zero => exact fun _ _ _ _ _ many => absurd many (Nat.not_lt_zero _)
  | succ turns ih =>
      intro src len s chain f shown room given high inside many
      by_cases done : len = 0
      · subst done
        refine ⟨s, [], writeLoop_done fuel turns src s, ?_, rfl, rfl⟩
        rw [List.take_zero, CellFile.lay_nil]
        exact .refl shown
      · rw [writeLoop_turn fuel turns src s (by omega), Int.toNat_natCast]
        dsimp only
        obtain ⟨cnt, count⟩ : ∃ cnt, min len (512 - s.file.offset % 512) = cnt := ⟨_, rfl⟩
        obtain ⟨left, split⟩ : ∃ left, len = cnt + left := ⟨len - cnt, by omega⟩
        rw [count]
        have length : (src.take cnt).length = cnt := List.length_take_of_le (by omega)
        have shown' := @OpenFile.Shows.accept g chain s f shown src cnt (by omega) (by omega)
        obtain ⟨t, more, sought, seeks⟩ := seekOn_shows shown' enough room cnt
          (by
            change f.place + cnt < 2 ^ 32
            omega)
          ((Nat.div_le_div_right (by
            change f.place + cnt ≤ f.place + len
            omega)).trans_lt inside)
        have laid : ((f.lay (src.take cnt)).moved f.place).moved (f.place + cnt) =
            f.lay (src.take cnt) := by
          refine CellFile.ext rfl rfl ?_
          change f.place + cnt = f.place + (src.take cnt).length
          rw [length]
        have first : (s.accept src cnt).Becomes g chain more (f.lay (src.take cnt)) t := by
          have shows := seeks.shows shown'
          change t.Shows g (chain ++ more) (((f.lay (src.take cnt)).moved f.place).moved
            (f.place + cnt)) at shows
          rw [laid] at shows
          exact .of_seeks seeks shows
        have place : (f.lay (src.take cnt)).place = f.place + cnt := by
          change f.place + (src.take cnt).length = _
          rw [length]
        obtain ⟨u, later, rest, becomes, bytes, out⟩ := @ih (src.drop cnt) left t (chain ++ more) _
          first.shows (OpenFile.Room.grows room seeks.grows) (by
            rw [List.length_drop]
            omega) (by omega) (by
            rw [place, Nat.add_assoc, ← split]
            exact inside) (by omega)
        have parts : src.take len = src.take cnt ++ (src.drop cnt).take left := by
          rw [split, List.take_add]
        refine ⟨u, more ++ later, ?_, ?_, ?_, ?_⟩
        · rw [sought]
          dsimp only
          have less : ((len : Nat) : Int) - cnt = left := by omega
          rw [less]
          exact rest
        · have both := first.trans becomes
          rw [parts, CellFile.lay_append]
          exact ⟨both.shows, both.grows, both.identity, both.unmodified⟩
        · rw [bytes, seeks.caller.1]
          change s.bytes + cnt + left = _
          omega
        · exact out.trans seeks.caller.2

/-! ## Calls -/

/-- The origin of an offset in a file of cells. -/
def Seek.origin (f : CellFile Byte) : Seek → Nat
  | start => 0
  | curr => f.place
  | fromEnd => f.size

namespace FileCall

/-- What a call asks of a file of cells. -/
def request (f : CellFile Byte) : FileCall → FileRequest Byte
  | seek offset origin => .seek (origin.origin f + offset).toNat
  | read len => .read len.toNat
  | write src len => .write (src.take len.toNat)

def perform (f : CellFile Byte) (call : FileCall) : (Nat × List (Option Byte)) × CellFile Byte :=
  f.serve (call.request f)

/-- The function is called, and the caller looks at `bytes` and at what was read. -/
def serve (fuel : Nat) : FileCall → FileM (Nat × List Byte)
  | seek offset origin => do
    fatFileSeek fuel offset origin
    pure (0, [])
  | read len => do
    fatFileRead fuel len
    gets fun s => (s.bytes, s.out)
  | write src len => do
    fatFileWrite fuel src len
    gets fun s => (s.bytes, [])

/-- The arguments of a call are in range. -/
def InRange (f : CellFile Byte) : FileCall → Prop
  | seek offset origin => 0 ≤ origin.origin f + offset
  | read len => 0 ≤ len ∧ len < 2 ^ 31
  | write src len => 0 ≤ len ∧ len.toNat ≤ src.length

instance (f : CellFile Byte) (call : FileCall) : Decidable (call.InRange f) :=
  match call with
  | seek offset origin => inferInstanceAs (Decidable (0 ≤ (origin.origin f : Int) + offset))
  | read len => inferInstanceAs (Decidable (0 ≤ len ∧ len < 2 ^ 31))
  | write src len => inferInstanceAs (Decidable (0 ≤ len ∧ len.toNat ≤ src.length))

/-- The arguments of a call are in range, and the file is at an offset of 32 bits behind it, for
which there are clusters. -/
structure Within (g : Geometry) (cap fuel : Nat) (f : CellFile Byte) (call : FileCall) : Prop where
  inRange : call.InRange f
  small : (call.perform f).2.place < 2 ^ 32
  inside : (call.perform f).2.place / g.clustSize < cap
  turns : (call.perform f).1.1 < fuel

instance (f : CellFile Byte) (call : FileCall) : Decidable (call.Within g cap fuel f) :=
  decidable_of_iff (call.InRange f ∧ (call.perform f).2.place < 2 ^ 32 ∧
      (call.perform f).2.place / g.clustSize < cap ∧ (call.perform f).1.1 < fuel)
    ⟨fun ⟨inRange, small, inside, turns⟩ => ⟨inRange, small, inside, turns⟩,
      fun ⟨inRange, small, inside, turns⟩ => ⟨inRange, small, inside, turns⟩⟩

/-- The size stays a number of 32 bits. -/
theorem size_lt {calls : List FileCall} (small : f.size < 2 ^ 32)
    (fits : FitsAll perform (Within g cap fuel) f calls) :
    (serveAll perform f calls).2.size < 2 ^ 32 := by
  induction calls generalizing f with
  | nil => exact small
  | cons call calls ih =>
      refine ih ?_ fits.2
      cases call with
      | seek offset origin => exact small
      | read len => exact small
      | write src len => exact max_lt small fits.1.small

/-- The number of bytes is that of the cells, and the bytes are those that are known. -/
def Tells (reply : Nat × List (Option Byte)) (answer : Nat × List Byte) : Prop :=
  answer.1 = reply.1 ∧ CellFile.Tells reply.2 answer.2

end FileCall

/-- A file that was opened for reading and writing, and that shows a file of cells. -/
structure OpenFile.Serves (g : Geometry) (chain : List Nat) (cap : Nat) (f : CellFile Byte)
    (s : OpenFile) : Prop extends s.Shows g chain f where
  small : f.size < 2 ^ 32
  allowed : s.file.flags.read = true ∧ s.file.flags.write = true
  room : s.Room chain cap

theorem OpenFile.Becomes.serves {f' : CellFile Byte} (becomes : s.Becomes g chain more f' t)
    (serves : s.Serves g chain cap f) (small : f'.size < 2 ^ 32) :
    t.Serves g (chain ++ more) cap f' := by
  have identity := becomes.identity
  simp only [File.identity, Prod.mk.injEq] at identity
  obtain ⟨-, -, -, -, -, write, read⟩ := identity
  exact ⟨becomes.shows, small, ⟨read.trans serves.allowed.1, write.trans serves.allowed.2⟩,
    serves.room.grows becomes.grows⟩

/-- **A call** does what it asks of the file of cells. -/
theorem call_becomes (serves : s.Serves g chain cap f) (enough : g.clustCnt ≤ fuel)
    {call : FileCall} (within : call.Within g cap fuel f) :
    ∃ answer t more, (call.serve fuel).run s = (.ok answer, t) ∧
      FileCall.Tells (call.perform f).1 answer ∧ s.Becomes g chain more (call.perform f).2 t := by
  have shown := serves.toShows
  obtain ⟨inRange, small, inside, turns⟩ := within
  cases call with
  | seek offset origin =>
      have base : origin.base s.file = origin.origin f := by
        cases origin with
        | start => rfl
        | curr => exact shown.place.symm
        | fromEnd => exact shown.size.symm
      have target : s.target offset origin = ((origin.origin f + offset).toNat : Nat) := by
        unfold OpenFile.target
        rw [base]
        exact (Int.toNat_of_nonneg inRange).symm
      obtain ⟨t, more, ran, seeks⟩ := fatFileSeek_stands shown.stands enough target small
        (inside.trans_le serves.room)
      exact ⟨(0, []), t, more, run_bind_ok ran, ⟨rfl, .nil⟩, .of_seeks seeks (seeks.shows shown)⟩
  | read len =>
      have shown' : s.startRead.Shows g chain f := shown.congr rfl rfl rfl
      obtain ⟨t, more, got, ran, becomes, bytes, out, tells⟩ := readLoop_shows enough shown'
        serves.room inRange.1 inRange.2 serves.small small inside turns
      have began := @fatFileRead_run s fuel len shown.stands.mounted serves.allowed.1
      refine ⟨(t.bytes, t.out), t, more, run_bind_ok (began.trans ran), ⟨?_, ?_⟩,
        ⟨becomes.shows, becomes.grows, becomes.identity, becomes.unmodified⟩⟩
      · exact bytes.trans (Nat.zero_add _)
      · rw [out]
        exact tells
  | write src len =>
      obtain ⟨nonneg, given⟩ := inRange
      obtain ⟨count, rfl⟩ := Int.eq_ofNat_of_zero_le nonneg
      rw [Int.toNat_natCast] at given
      have length : (src.take count).length = count := List.length_take_of_le given
      have place : (f.lay (src.take count)).place = f.place + count := by
        change f.place + (src.take count).length = _
        rw [length]
      change (f.lay (src.take count)).place < 2 ^ 32 at small
      change (f.lay (src.take count)).place / g.clustSize < cap at inside
      change (src.take count).length < fuel at turns
      rw [place] at small inside
      rw [length] at turns
      have shown' : s.startWrite.Shows g chain f := shown.congr rfl rfl rfl
      obtain ⟨t, more, ran, becomes, bytes, out⟩ :=
        writeLoop_shows enough shown' serves.room given small inside turns
      have began : (fatFileWrite fuel src count).run s =
          (writeLoop fuel fuel src count >>= fun _ => modifyFile fun file =>
            { file with size := max file.size file.offset }).run s.startWrite := by
        unfold fatFileWrite
        rw [run_modify_bind, run_gets_bind]
        dsimp only
        rw [if_neg shown.stands.mounted, if_neg (by rw [serves.allowed.2]; decide)]
        rfl
      rw [run_bind_ok ran] at began
      refine ⟨(t.bytes, []), t.withFile fun file => { file with size := max file.size file.offset },
        more, run_bind_ok began, ⟨?_, .nil⟩, ⟨?_, becomes.grows, becomes.identity,
          fun unmodified => nomatch (becomes.unmodified unmodified).1⟩⟩
      · change t.bytes = (src.take count).length
        rw [bytes, length]
        exact Nat.zero_add _
      · have laid := becomes.shows
        have resized := @OpenFile.Shows.resized g (chain ++ more) t
          (t.withFile fun file => { file with size := max file.size file.offset }) _ laid rfl rfl
        change OpenFile.Shows g _ { f.lay (src.take count) with
          size := max t.file.size t.file.offset } _ at resized
        rw [← laid.size, ← laid.place] at resized
        exact resized

/-- **An open file is a file of bytes.** Calls for which there are clusters are answered as a file
of cells answers them, and the file goes on as it. -/
theorem each_becomes (serves : s.Serves g chain cap f) (enough : g.clustCnt ≤ fuel)
    {calls : List FileCall} (fits : FitsAll FileCall.perform (FileCall.Within g cap fuel) f calls) :
    ∃ answers t more, (each (FileCall.serve fuel) calls).run s = (.ok answers, t) ∧
      List.Forall₂ FileCall.Tells (serveAll FileCall.perform f calls).1 answers ∧
      s.Becomes g chain more (serveAll FileCall.perform f calls).2 t := by
  have step : ∀ t f' call, (∃ more, s.Becomes g chain more f' t ∧ f'.size < 2 ^ 32) →
      FileCall.Within g cap fuel f' call → ∃ answer u, (call.serve fuel).run t = (.ok answer, u) ∧
        FileCall.Tells (call.perform f').1 answer ∧
        ∃ more, s.Becomes g chain more (call.perform f').2 u ∧ (call.perform f').2.size < 2 ^ 32 := by
    rintro t f' call ⟨more, becomes, small⟩ within
    obtain ⟨answer, u, later, ran, told, becomes'⟩ :=
      call_becomes (becomes.serves serves small) enough within
    refine ⟨answer, u, ran, told, more ++ later, becomes.trans becomes', ?_⟩
    cases call with
    | seek offset origin => exact small
    | read len => exact small
    | write src len => exact max_lt small within.small
  obtain ⟨answers, t, ran, tells, more, becomes, -⟩ :=
    each_simulates step ⟨[], .refl serves.toShows, serves.small⟩ fits
  exact ⟨answers, t, more, ran, tells, becomes⟩

/-! ### A file and its directory -/

/-- The first sector of the FAT, where the second and the third cluster are chains of their own. -/
def filedSector : Sector := sampleSector.writeLE 12 4 0x0FFFFFFF

/-- The entry of the second cluster is in the third. -/
def filedVolume : Volume :=
  { sampleVolume 2 with
    disk := { (sampleVolume 2).disk with
      sectors := fun sect =>
        if sect = 32 ∨ sect = 544 then filedSector
        else if sect = 1057 then sampleEntry else fun _ => 0 } }

/-- The file of the entry, without a byte. -/
def filed : OpenFile :=
  (opened filedVolume).withFile fun file => { file with dirSect := 1057 }

theorem filedVolume_link (isClust : sampleGeometry.IsClust c) :
    filedVolume.link c = if c = 2 ∨ c = 3 then 0x0FFFFFFF else 0 := by
  have high : c < 65525 := isClust.2
  have zero (offset : Nat) : Memory.readLE (fun _ => 0) offset 4 = 0 := rfl
  change Memory.readLE (if 0 = 32 + c / 128 then fun _ => 0
    else if 32 + c / 128 = 32 ∨ 32 + c / 128 = 544 then filedSector
    else if 32 + c / 128 = 1057 then sampleEntry else fun _ => 0) (4 * (c % 128)) 4 % 2 ^ 28 = _
  rw [if_neg (by omega)]
  by_cases first : 32 + c / 128 = 32
  · have small : c % 128 = c := by omega
    rw [if_pos (.inl first), small, filedSector, sampleSector]
    by_cases third : c = 3
    · rw [if_pos (.inr third), third, Memory.readLE_writeLE]
      rfl
    · rw [Memory.readLE_writeLE_of_apart _ _ (by omega)]
      by_cases second : c = 2
      · rw [if_pos (.inl second), second, Memory.readLE_writeLE]
        rfl
      · rw [if_neg (by omega), Memory.readLE_writeLE_of_apart _ _ (by omega), zero, Nat.zero_mod]
  · rw [if_neg (by omega), if_neg (by omega), if_neg (by omega), zero, Nat.zero_mod]

theorem filedVolume_healthy : filedVolume.Healthy sampleGeometry where
  fit := ⟨rfl, sampleGeometry_layout, by decide, by decide, by decide, fun _ _ => rfl⟩
  sound := fun _ _ => rfl
  small := by decide
  valid := by
    intro c isClust
    rw [filedVolume_link isClust]
    split
    · decide
    · decide

theorem filedVolume_chain {c : Nat} (used : c = 2 ∨ c = 3) : FatChain filedVolume [c] where
  clusters := by
    intro d member
    obtain rfl := List.mem_singleton.mp member
    rcases used with rfl | rfl
    · exact ⟨by decide, by decide⟩
    · exact ⟨by decide, by decide⟩
  links := List.isChain_singleton c
  ends := by
    have isClust : sampleGeometry.IsClust c := by
      rcases used with rfl | rfl
      · exact ⟨by decide, by decide⟩
      · exact ⟨by decide, by decide⟩
    refine ⟨c, rfl, ?_⟩
    rw [filedVolume_link isClust, if_pos used]
    decide

/-- There are two more clusters. -/
theorem filedVolume_room : 3 ≤ [2].length + filedVolume.takeable.card := by
  have free : ({4, 5} : Finset Nat) ⊆ filedVolume.takeable := by
    intro c member
    have four : sampleGeometry.IsClust 4 := ⟨by decide, by decide⟩
    have five : sampleGeometry.IsClust 5 := ⟨by decide, by decide⟩
    rw [filedVolume_healthy.mem_takeable]
    rcases Finset.mem_insert.mp member with rfl | last
    · exact ⟨by decide, four, filedVolume_link four⟩
    · obtain rfl := Finset.mem_singleton.mp last
      exact ⟨by decide, five, filedVolume_link five⟩
  have two : 2 ≤ filedVolume.takeable.card := Finset.card_le_card free
  rw [List.length_singleton]
  generalize filedVolume.takeable.card = spare at two ⊢
  omega

/-- The empty file. -/
def noCells : CellFile Byte := ⟨fun _ => none, 0, 0⟩

theorem filed_healthy : filed.volume.Healthy sampleGeometry ∧
    filed.volume.takeable = filedVolume.takeable := by
  obtain ⟨healthy, takeable, -⟩ :=
    @Volume.Healthy.write sampleGeometry filedVolume filed.volume filedVolume_healthy rfl
      (fun _ _ => rfl) rfl fun _ _ => rfl
  exact ⟨healthy, takeable⟩

theorem filed_stands : filed.Stands sampleGeometry [2] where
  healthy := filed_healthy.1
  isChain := (filedVolume_chain (.inl rfl)).congr rfl fun _ _ => rfl
  nodup := List.nodup_singleton 2
  apart := by
    intro c member inside
    obtain rfl := List.mem_singleton.mp member
    exact absurd inside.1 (by decide)
  clust := by
    change [2][0 / sampleGeometry.clustSize]? = some 2
    rw [Nat.zero_div]
    rfl
  mounted := nofun
  first := rfl
  sect := rfl
  clean := fun _ => rfl

theorem filed_serves : filed.Serves sampleGeometry [2] 3 noCells where
  stands := filed_stands
  place := rfl
  size := rfl
  cells := nofun
  small := by decide
  allowed := ⟨rfl, rfl⟩
  room := by
    unfold OpenFile.Room
    have enough := filedVolume_room
    rw [← filed_healthy.2] at enough
    exact enough

/-! ## Other files -/

/-- **Isolation.** The chains that are apart from one that grows keep their links and their
bytes. -/
theorem Volume.Grows.others (grows : v.Grows g chain more w) (geometry : v.fat.geometry = g)
    {other : List Nat} (isChain : FatChain v other) (apart : other.Disjoint chain) :
    FatChain w other ∧
      ∀ off, off / g.clustSize < other.length → fileByte w other off = fileByte v other off := by
  have geometry' := grows.healthy.fit.geometry
  have layout := grows.healthy.fit.layout
  have outside : ∀ c ∈ other, c ∉ chain ++ more := by
    intro c member inside
    rcases List.mem_append.mp inside with old | new
    · exact apart member old
    · exact isChain.link_ne_zero c member (grows.fresh c new)
  have isClust : ∀ c ∈ other, g.IsClust c := fun c member => geometry ▸ isChain.clusters c member
  refine ⟨isChain.congr (geometry'.trans geometry.symm) fun c member =>
    grows.link (isClust c member).inFat (outside c member), fun off inside => ?_⟩
  have member := List.getElem_mem inside
  have sector := layout.sectorOf_mem (isClust _ member) off
  unfold fileByte
  rw [geometry', geometry, List.getD_eq_getElem _ _ inside]
  refine congrArg (fun buf : Sector => buf (off % 512))
    (grows.data _ (layout.clustArea_subset (isClust _ member) sector) fun c inChain inArea => ?_)
  have differ : other[off / g.clustSize] ≠ c := fun equal => outside _ member (equal ▸ inChain)
  exact Set.disjoint_left.mp (layout.clustArea_disjoint (isClust _ member) (grows.isClust inChain)
    differ) sector inArea

/-- Whatever is done to an open file, other files are as they were. -/
theorem each_spares (serves : s.Serves g chain cap f) (enough : g.clustCnt ≤ fuel)
    {calls : List FileCall} (fits : FitsAll FileCall.perform (FileCall.Within g cap fuel) f calls)
    {other : List Nat} (isChain : FatChain s.volume other) (apart : other.Disjoint chain) :
    ∃ answers t, (each (FileCall.serve fuel) calls).run s = (.ok answers, t) ∧
      FatChain t.volume other ∧ ∀ off, off / g.clustSize < other.length →
        fileByte t.volume other off = fileByte s.volume other off := by
  obtain ⟨answers, t, more, ran, -, becomes⟩ := each_becomes serves enough fits
  exact ⟨answers, t, ran,
    becomes.grows.others serves.stands.healthy.fit.geometry isChain apart⟩

/-- A byte behind the next cluster is written, and the directory is spared. -/
theorem each_spares_filed : ∃ answers t, (each (FileCall.serve 65525)
      [.seek 1000 .start, .write [7] 1]).run filed = (.ok answers, t) ∧ FatChain t.volume [3] ∧
    ∀ off, off / sampleGeometry.clustSize < 1 →
      fileByte t.volume [3] off = fileByte filed.volume [3] off :=
  @each_spares sampleGeometry [2] 65525 3 filed noCells filed_serves le_rfl
    [.seek 1000 .start, .write [7] 1] (by decide) [3]
    ((filedVolume_chain (.inr rfl)).congr rfl fun _ _ => rfl) (by simp)

/-! ## Reading back -/

namespace FileCall

/-- What calls ask of a file of cells, one after the other. -/
def requests : CellFile Byte → List FileCall → List (FileRequest Byte)
  | _, [] => []
  | f, call :: calls => call.request f :: requests (call.perform f).2 calls

theorem serveAll_requests (f : CellFile Byte) (calls : List FileCall) :
    serveAll CellFile.serve f (requests f calls) = serveAll perform f calls := by
  induction calls generalizing f with
  | nil => rfl
  | cons call calls ih =>
      have rest := ih (call.perform f).2
      exact congrArg (fun later => ((call.perform f).1 :: later.1, later.2)) rest

theorem perform_seek_start (f : CellFile Byte) (place : Nat) :
    perform f (.seek place .start) = f.serve (.seek place) := by
  have target : ((Seek.origin f .start : Nat) + (place : Int)).toNat = place := by
    change (((0 : Nat) : Int) + (place : Int)).toNat = place
    omega
  exact congrArg (fun place => f.serve (.seek place)) target

theorem serveAll_concat (f : CellFile Byte) (calls : List FileCall) (call : FileCall) :
    serveAll perform f (calls ++ [call]) =
      ((serveAll perform f calls).1 ++ [(call.perform (serveAll perform f calls).2).1],
        (call.perform (serveAll perform f calls).2).2) := by
  induction calls generalizing f with
  | nil => rfl
  | cons first calls ih =>
      have rest := ih (first.perform f).2
      exact congrArg (fun later => ((first.perform f).1 :: later.1, later.2)) rest

/-- Calls that write to none of the bytes from `low` up to `high`. -/
def SpareAll (low high : Nat) (f : CellFile Byte) (calls : List FileCall) : Prop :=
  CellFile.SparesAll low high f (requests f calls)

instance (low high : Nat) (f : CellFile Byte) (calls : List FileCall) :
    Decidable (SpareAll low high f calls) :=
  inferInstanceAs (Decidable (CellFile.SparesAll low high f (requests f calls)))

end FileCall

end NTux.Fat32
