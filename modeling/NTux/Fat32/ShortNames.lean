import NTux.Fat32.Lookup

/-! # Short names

`parse_sfn_name` gives a short name with a dot in front of its extension, and `put_sfn_name`
takes such a name apart again. It knows no digits, so the bytes of a name come back exactly if
there is none in it; and `dir_search` accepts at a short entry what differs from it
(`opens_iff`).
-/

namespace NTux.Fat32

open NTux.Foundation Command

/-! ## Legal names -/

/-- `0` to `9`. -/
def IsDigit (c : Byte) : Prop := 0x30 ≤ c ∧ c ≤ 0x39

instance (c : Byte) : Decidable (IsDigit c) := inferInstanceAs (Decidable (_ ∧ _))

/-- The characters of a short name: upper-case letters, digits, and the special characters but
for the space. -/
def IsShortChar (c : Byte) : Prop :=
  (0x41 ≤ c ∧ c ≤ 0x5a) ∨ IsDigit c ∨ c ∈ sfnSpecial ∧ c ≠ sfnPad

instance (c : Byte) : Decidable (IsShortChar c) := inferInstanceAs (Decidable (_ ∨ _))

/-- A legal short name: up to eight characters, and up to three of an extension. -/
structure ShortName where
  base : List Byte
  ext : List Byte
  baseLength : 0 < base.length ∧ base.length ≤ 8
  extLength : ext.length ≤ 3
  legal : ∀ c ∈ base ++ ext, IsShortChar c

namespace ShortName

/-- The eleven bytes of a short name. -/
def bytes (name : ShortName) : List Byte := padTo 8 name.base ++ padTo 3 name.ext

def NoDigits (name : ShortName) : Prop := ∀ c ∈ name.base ++ name.ext, ¬ IsDigit c

variable (name : ShortName)

theorem base_legal : ∀ c ∈ name.base, IsShortChar c := fun c member =>
  name.legal c (List.mem_append_left _ member)

theorem ext_legal : ∀ c ∈ name.ext, IsShortChar c := fun c member =>
  name.legal c (List.mem_append_right _ member)

end ShortName

/-! ## Characters -/

theorem IsShortChar.ne_pad {c : Byte} (legal : IsShortChar c) : c ≠ sfnPad := by
  revert c
  decide

theorem IsShortChar.ne_dot {c : Byte} (legal : IsShortChar c) : c ≠ dot := by
  revert c
  decide

/-- A legal character is put as it is, but for a digit. -/
theorem sfnChar_eq_self_iff {c : Byte} (legal : IsShortChar c) : sfnChar c = c ↔ ¬ IsDigit c := by
  revert c
  decide

/-- The characters of a legal part of a name. -/
theorem map_sfnChar_iff {chars : List Byte} (legal : ∀ c ∈ chars, IsShortChar c) :
    chars.map sfnChar = chars ↔ ∀ c ∈ chars, ¬ IsDigit c := by
  induction chars with
  | nil => simp
  | cons c rest ih =>
      have first := sfnChar_eq_self_iff (legal c List.mem_cons_self)
      have others := ih fun c member => legal c (List.mem_cons_of_mem _ member)
      rw [List.map_cons, List.cons_eq_cons, first, others, List.forall_mem_cons]

theorem padTo_inj {length : Nat} {first second : List Byte} (same : first.length = second.length) :
    padTo length first = padTo length second ↔ first = second := by
  constructor
  · intro equal
    exact (List.append_inj equal same).1
  · exact congrArg _

/-! ## Round trips -/

/-- The characters in front of the padding. -/
theorem takeWhile_padTo {length : Nat} {chars : List Byte} (legal : ∀ c ∈ chars, IsShortChar c) :
    (padTo length chars).takeWhile (· ≠ sfnPad) = chars := by
  have all : ∀ c ∈ chars, decide (c ≠ sfnPad) = true := fun c member =>
    decide_eq_true (legal c member).ne_pad
  rw [padTo, List.takeWhile_append_of_pos all, List.takeWhile_replicate]
  simp

/-- The name that `parse_sfn_name` gives. -/
theorem parseSfnName_bytes (name : ShortName) :
    parseSfnName name.bytes = name.base ++ (if name.ext = [] then [] else dot :: name.ext) := by
  have whole : (padTo 8 name.base).length = 8 := padTo_length name.baseLength.2
  have front : name.bytes.take 8 = padTo 8 name.base := by
    rw [ShortName.bytes, List.take_left' whole]
  have back : name.bytes.drop 8 = padTo 3 name.ext := by
    rw [ShortName.bytes, List.drop_left' whole]
  unfold parseSfnName
  dsimp only
  rw [front, back, takeWhile_padTo name.base_legal, takeWhile_padTo name.ext_legal]
  cases known : name.ext with
  | nil => simp [padTo]
  | cons c rest =>
      have legal := name.ext_legal c (by rw [known]; exact List.mem_cons_self)
      simp [padTo, legal.ne_pad]

/-- What `put_sfn_name` makes of that name. -/
theorem putSfnName_parseSfnName (name : ShortName) :
    putSfnName (parseSfnName name.bytes) =
      padTo 8 (name.base.map sfnChar) ++ padTo 3 (name.ext.map sfnChar) := by
  have noDot : ∀ c ∈ name.base, decide (c ≠ dot) = true := fun c member =>
    decide_eq_true (name.base_legal c member).ne_dot
  have base : ((parseSfnName name.bytes).take 8).takeWhile (· ≠ dot) = name.base := by
    rw [parseSfnName_bytes, List.take_append, List.take_of_length_le name.baseLength.2,
      List.takeWhile_append_of_pos noDot]
    split_ifs
    · simp
    · cases 8 - name.base.length <;> simp
  have ext : (((parseSfnName name.bytes).drop name.base.length).dropWhile (· ≠ dot)).drop 1 =
      name.ext := by
    rw [parseSfnName_bytes, List.drop_left]
    split_ifs with none
    · rw [none]
      rfl
    · simp
  unfold putSfnName
  dsimp only
  rw [base, ext, List.take_of_length_le name.extLength]

/-- The bytes of a name come back exactly if it has no digit. -/
theorem putSfnName_bytes_iff (name : ShortName) :
    putSfnName (parseSfnName name.bytes) = name.bytes ↔ name.NoDigits := by
  have whole : (padTo 8 (name.base.map sfnChar)).length = (padTo 8 name.base).length := by
    rw [padTo_length (by rw [List.length_map]; exact name.baseLength.2),
      padTo_length name.baseLength.2]
  have parts : putSfnName (parseSfnName name.bytes) = name.bytes ↔
      padTo 8 (name.base.map sfnChar) = padTo 8 name.base ∧
        padTo 3 (name.ext.map sfnChar) = padTo 3 name.ext := by
    rw [putSfnName_parseSfnName, ShortName.bytes]
    exact ⟨fun equal => List.append_inj equal whole, fun both => congrArg₂ _ both.1 both.2⟩
  rw [parts, padTo_inj (List.length_map _), padTo_inj (List.length_map _),
    map_sfnChar_iff name.base_legal, map_sfnChar_iff name.ext_legal, ShortName.NoDigits,
    List.forall_mem_append]

/-! ## Listed names -/

/-- The name that `fat_dir_read` reports for the entry at the directory's place. -/
def listedName (s : OpenDir) : List Byte := (readName.run s).2.info.name

/-- An entry without a long name is reported under the name that `parse_sfn_name` gives. -/
theorem listedName_short {s : OpenDir} (short : s.slot.isLfn = false) :
    listedName s = parseSfnName s.slot.name := by
  have read : readName.run s = (.ok (), { s with
      gBuf := s.gBuf.store 0 (parseSfnName s.slot.name).length (inMemory (parseSfnName s.slot.name))
      gLen := (parseSfnName s.slot.name).length }) := by
    rw [readName, run_gets_bind, if_neg (by rw [short]; decide)]
    rfl
  rw [listedName, read]
  dsimp only [OpenDir.info]
  refine List.ext_getElem (by simp) fun i _ less => ?_
  rw [List.getElem_map, List.getElem_range, Memory.store, if_pos ⟨Nat.zero_le i, by omega⟩,
    Nat.sub_zero, inMemory, List.getD_eq_getElem _ _ less]

/-- What `dir_search` does at an entry without a long name. -/
theorem matchEntry_short {s : OpenDir} (short : s.slot.isLfn = false) (name : List Byte) :
    (matchEntry name).run s = (.ok (EntryName.taken name (.short s.slot.name)), s) := by
  rw [matchEntry, run_gets_bind, if_neg (by rw [short]; decide), run_pure, taken_short]

/-- The name that is reported for an entry is put back as the entry's own bytes, and is
accepted at the entries of these bytes. -/
structure Opens (s : OpenDir) : Prop where
  roundTrip : putSfnName (listedName s) = s.slot.name
  accepted : ∀ t : OpenDir, t.slot.isLfn = false →
    (((matchEntry (listedName s)).run t).1 = .ok true ↔ t.slot.name = s.slot.name)

/-- The entry is accepted exactly if it is not the one that is looked for. -/
theorem accepted_iff {t : OpenDir} (short : t.slot.isLfn = false) (name : List Byte) :
    ((matchEntry name).run t).1 = .ok true ↔ t.slot.name ≠ putSfnName name := by
  rw [matchEntry_short short]
  simp [EntryName.taken]

/-- **When listed names can be opened.** The bytes of a legal name come back exactly if there is
no digit in it, and then the entry itself is the one that `dir_search` does not accept. -/
theorem opens_iff (name : ShortName) (s : OpenDir) (short : s.slot.isLfn = false)
    (named : s.slot.name = name.bytes) :
    (putSfnName (listedName s) = s.slot.name ↔ name.NoDigits) ∧ ¬ Opens s := by
  refine ⟨?_, fun opens => ?_⟩
  · rw [listedName_short short, named]
    exact putSfnName_bytes_iff name
  · have here := (opens.accepted s short).mpr rfl
    exact (accepted_iff short _).mp here opens.roundTrip.symm

/-- The name `A1`. -/
def numberedName : ShortName where
  base := [0x41, 0x31]
  ext := []
  baseLength := by decide
  extLength := by decide
  legal := by decide

/-- A directory with a file of that name in its first slot, which is in the buffer. -/
def numberedDir : OpenDir where
  volume := { sampleVolume 2 with
    fat := { (sampleVolume 2).fat with
      sect := 1056
      buf := Memory.store (fun _ => 0) 0 12 (inMemory (numberedName.bytes ++ [0x20])) } }
  dir := ⟨2, 2, 1056, 0⟩
  loc := none
  path := []
  gBuf := fun _ => 0
  gLen := 0
  gCrc := 0

theorem opens_numbered :
    (putSfnName (listedName numberedDir) = numberedDir.slot.name ↔ numberedName.NoDigits) ∧
      ¬ Opens numberedDir :=
  opens_iff numberedName numberedDir (by decide) (by decide)

/-- The name `A1` comes back as `A_`. -/
theorem opens_not_always :
    ¬ ∀ (name : ShortName) (s : OpenDir), s.slot.isLfn = false → s.slot.name = name.bytes →
      Opens s := by
  intro claim
  have opens := claim numberedName numberedDir (by decide) (by decide)
  have reported := opens.roundTrip
  rw [listedName_short (by decide)] at reported
  exact absurd reported (by decide)

end NTux.Fat32
