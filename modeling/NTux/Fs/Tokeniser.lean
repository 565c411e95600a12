import NTux.Fs.Ramfs

/-! # The tokeniser of the path functions

`next_token` works in place: it moves a cursor through a copy of the path and ends each
token with a `NUL`. The tokens that `ramfs_find_node` gets from it in this way are those of
the text that the copy holds (`tokensInPlace_copyPath`), so the search in place is the
search over the tokens (`findNodeInPlace_eq`).
-/

namespace NTux.Fs

open NTux.Foundation

/-! ## The functions -/

/-- `sizeof(temp)`. -/
abbrev bufferSize : Nat := 256

/-- The characters of `temp`. -/
abbrev Buffer : Type := Nat → BitVec 8

/-- `strncpy` of the path into `temp`, and the `NUL` at its end. -/
def copyPath (path : CString) : Buffer := fun i =>
  if i < maxPath then (path[i]?).elim 0 Subtype.val else 0

/-- Where a loop stops that moves a pointer on while it points to certain characters. -/
def skipWhile (skips : BitVec 8 → Bool) (buffer : Buffer) : Nat → Nat → Nat
  | 0, pos => pos
  | left + 1, pos => if skips (buffer pos) then skipWhile skips buffer left (pos + 1) else pos

/-- `next_token`: the token, the buffer and the cursor behind it. -/
def nextTokenInPlace (buffer : Buffer) (cursor : Nat) : Option Nat × Buffer × Nat :=
  if buffer cursor = 0 then (none, buffer, cursor)
  else
    let start := skipWhile (· = slash.val) buffer bufferSize cursor
    if buffer start = 0 then (none, buffer, start)
    else
      let stop := skipWhile (fun c => c ≠ 0 && c ≠ slash.val) buffer bufferSize start
      if buffer stop = slash.val then (some start, Function.update buffer stop 0, stop + 1)
      else (some start, buffer, stop)

/-- The string at a position of the buffer. -/
def cStringAt (buffer : Buffer) : Nat → Nat → CString
  | 0, _ => []
  | left + 1, pos =>
      if real : buffer pos ≠ 0 then ⟨buffer pos, real⟩ :: cStringAt buffer left (pos + 1) else []

/-- The tokens that the loop of `ramfs_find_node` sees, in so many turns; it passes over an
empty one. -/
def tokensInPlace : Nat → Buffer → Nat → List CString
  | 0, _, _ => []
  | turns + 1, buffer, cursor =>
      match nextTokenInPlace buffer cursor with
      | (none, _, _) => []
      | (some start, buffer, cursor) =>
          if buffer start = 0 then tokensInPlace turns buffer cursor
          else cStringAt buffer bufferSize start :: tokensInPlace turns buffer cursor

/-- `ramfs_find_node`, on a copy of the path. -/
def Ramfs.findNodeInPlace (a : Allocator) (createMissing : Bool) (path : CString) (s : Ramfs) :
    Option (Option Ptr × Ramfs) :=
  match s.root with
  | none => some (none, s)
  | some root =>
      if path = [] ∨ path = [slash] then some (some root, s)
      else walk a createMissing (tokensInPlace bufferSize (copyPath path) 0) root s

/-! ## The text in the buffer -/

/-- The buffer holds the text at a position, and a `NUL` behind it. -/
def Holds (buffer : Buffer) : Nat → CString → Prop
  | pos, [] => buffer pos = 0
  | pos, c :: text => buffer pos = c.val ∧ Holds buffer (pos + 1) text

variable {buffer : Buffer} {pos left : Nat} {text token rest : CString}

/-- Only the text and the `NUL` behind it matter. -/
theorem Holds.congr {other : Buffer} (held : Holds buffer pos text)
    (same : ∀ i, pos ≤ i → other i = buffer i) : Holds other pos text := by
  induction text generalizing pos with
  | nil => exact (same pos le_rfl).trans held
  | cons c text ih =>
      exact ⟨(same pos le_rfl).trans held.1, ih held.2 fun i above => same i (by omega)⟩

/-- A `NUL` behind the first part of a text ends it there. -/
theorem Holds.cut (held : Holds buffer pos (token ++ rest)) :
    Holds (Function.update buffer (pos + token.length) 0) pos token := by
  induction token generalizing pos with
  | nil => exact Function.update_self ..
  | cons c token ih =>
      have place : pos + (c :: token).length = pos + 1 + token.length := by
        rw [List.length_cons]
        omega
      rw [place]
      refine ⟨?_, ih held.2⟩
      rw [Function.update_of_ne (by omega)]
      exact held.1

theorem Holds.drop (held : Holds buffer pos (token ++ rest)) :
    Holds buffer (pos + token.length) rest := by
  induction token generalizing pos with
  | nil => exact held
  | cons c token ih =>
      have later := ih held.2
      rw [List.length_cons]
      rwa [Nat.add_assoc, Nat.add_comm 1] at later

theorem Holds.zero_iff (held : Holds buffer pos text) : buffer pos = 0 ↔ text = [] := by
  cases text with
  | nil => exact ⟨fun _ => rfl, fun _ => held⟩
  | cons c text => exact ⟨fun zero => absurd (held.1.symm.trans zero) c.2, fun none => by cases none⟩

theorem cStringAt_of_holds (held : Holds buffer pos text) (room : text.length < left) :
    cStringAt buffer left pos = text := by
  induction text generalizing pos left with
  | nil =>
      cases left with
      | zero => exact absurd room (Nat.not_lt_zero _)
      | succ left => exact dif_neg (not_not.mpr held)
  | cons c text ih =>
      cases left with
      | zero => exact absurd room (Nat.not_lt_zero _)
      | succ left =>
          have real : buffer pos ≠ 0 := held.1 ▸ c.2
          rw [cStringAt, dif_pos real, ih held.2 (by simpa using room)]
          exact congrArg (· :: text) (Subtype.ext held.1)

/-- A skipping loop stops behind the characters that it passes over. -/
theorem skipWhile_of_holds (skips : BitVec 8 → Bool) (stops : skips 0 = false)
    (held : Holds buffer pos text) (room : text.length < left) :
    skipWhile skips buffer left pos = pos + (text.takeWhile fun c => skips c.val).length := by
  induction text generalizing pos left with
  | nil =>
      cases left with
      | zero => exact absurd room (Nat.not_lt_zero _)
      | succ left =>
          have zero : buffer pos = 0 := held
          rw [skipWhile, zero, stops]
          rfl
  | cons c text ih =>
      cases left with
      | zero => exact absurd room (Nat.not_lt_zero _)
      | succ left =>
          rw [skipWhile, held.1, List.takeWhile_cons]
          cases passes : skips c.val
          · rfl
          · simp only [↓reduceIte, List.length_cons]
            rw [ih held.2 (by simpa using room)]
            omega

/-! ## The tokens -/

theorem skip_slashes (held : Holds buffer pos text) (room : text.length < bufferSize) :
    ∃ start, skipWhile (· = slash.val) buffer bufferSize pos = start ∧
      Holds buffer start (text.dropWhile (· = slash)) := by
  have stop := skipWhile_of_holds (fun c => decide (c = slash.val)) (by decide) held room
  have same : (fun c : CChar => decide (c.val = slash.val)) = fun c => decide (c = slash) :=
    funext fun c => decide_eq_decide.mpr Subtype.ext_iff.symm
  rw [same] at stop
  refine ⟨_, stop, Holds.drop ?_⟩
  rwa [List.takeWhile_append_dropWhile]

theorem skip_token (held : Holds buffer pos text) (room : text.length < bufferSize) :
    skipWhile (fun c => c ≠ 0 && c ≠ slash.val) buffer bufferSize pos =
      pos + (text.takeWhile (· ≠ slash)).length := by
  have stop := skipWhile_of_holds (fun c => decide (c ≠ 0) && decide (c ≠ slash.val))
    (by decide) held room
  have same : (fun c : CChar => decide (c.val ≠ 0) && decide (c.val ≠ slash.val)) =
      fun c => decide (c ≠ slash) := by
    funext c
    rw [decide_eq_true c.2, Bool.true_and]
    exact decide_eq_decide.mpr (not_congr Subtype.ext_iff.symm)
  rw [stop, same]

/-- **One token in place.** Nothing is left, or the token stands in the buffer, and the rest of
the text stands at the cursor. -/
theorem nextTokenInPlace_spec (held : Holds buffer pos text) (room : text.length < bufferSize) :
    (nextToken slash text = none ∧ (nextTokenInPlace buffer pos).1 = none) ∨
      ∃ token rest start other cursor, nextToken slash text = some (token, rest) ∧
        nextTokenInPlace buffer pos = (some start, other, cursor) ∧
        Holds other start token ∧ Holds other cursor rest := by
  obtain ⟨start, skipped, behind⟩ := skip_slashes held room
  have shorter : (text.dropWhile (· = slash)).length ≤ text.length :=
    (List.dropWhile_sublist _).length_le
  have emptyText : text = [] → text.dropWhile (· = slash) = [] := by
    rintro rfl
    rfl
  rw [nextToken, nextTokenInPlace, skipped]
  generalize text.dropWhile (· = slash) = tail at behind shorter emptyText
  cases tail with
  | nil =>
      left
      refine ⟨rfl, ?_⟩
      have zero : buffer start = 0 := behind
      simp only [zero, ↓reduceIte]
      split <;> rfl
  | cons head tail =>
      right
      have more : text ≠ [] := fun empty => by cases emptyText empty
      have nonzero : buffer pos ≠ 0 := fun zero => more (held.zero_iff.mp zero)
      have real : buffer start ≠ 0 := fun zero => by cases behind.zero_iff.mp zero
      have stop := skip_token behind (by omega)
      simp only [nonzero, real, stop, ↓reduceIte]
      have whole : Holds buffer start (((head :: tail).takeWhile (· ≠ slash)) ++
          (head :: tail).dropWhile (· ≠ slash)) := by
        rwa [List.takeWhile_append_dropWhile]
      have rest := whole.drop
      have cut := whole.cut
      cases remains : (head :: tail).dropWhile (· ≠ slash) with
      | nil =>
          rw [remains] at rest whole
          have zero : buffer (start + ((head :: tail).takeWhile (· ≠ slash)).length) = 0 := rest
          have noSlash : (0 : BitVec 8) ≠ slash.val := by decide
          refine ⟨_, _, start, buffer, _, rfl, ?_, ?_, rest⟩
          · rw [zero, if_neg noSlash]
          · rwa [List.append_nil] at whole
      | cons c rest' =>
          rw [remains] at rest
          have first : c = slash := by
            have stopped := List.head?_dropWhile_not (fun c => decide (c ≠ slash)) (head :: tail)
            rw [remains] at stopped
            exact not_not.mp (of_decide_eq_false stopped)
          have isSlash : buffer (start + ((head :: tail).takeWhile (· ≠ slash)).length) =
              slash.val := rest.1.trans (congrArg Subtype.val first)
          rw [if_pos isSlash]
          refine ⟨_, _, _, _, _, rfl, rfl, cut, rest.2.congr ?_⟩
          intro i above
          exact Function.update_of_ne (by omega) _ _

/-- **All tokens in place** are the tokens of the text. -/
theorem tokensInPlace_of_holds {turns : Nat} (held : Holds buffer pos text)
    (room : text.length < bufferSize) (enough : text.length < turns) :
    tokensInPlace turns buffer pos = tokens slash text := by
  induction turns generalizing buffer pos text with
  | zero => exact absurd enough (Nat.not_lt_zero _)
  | succ turns ih =>
      rw [tokens_eq, tokensInPlace]
      rcases nextTokenInPlace_spec held room with
        ⟨none, nothing⟩ | ⟨token, rest, start, other, cursor, next, taken, standing, behind⟩
      · rw [none]
        generalize nextTokenInPlace buffer pos = result at nothing
        obtain ⟨found, other, cursor⟩ := result
        obtain rfl : found = Option.none := nothing
        rfl
      · obtain ⟨nonempty, -, shorter⟩ := nextToken_spec next
        have positive := List.length_pos_iff.mpr nonempty
        have real : other start ≠ 0 := fun zero => nonempty (standing.zero_iff.mp zero)
        simp only [next, taken, real, ↓reduceIte]
        rw [cStringAt_of_holds standing (by omega), ih behind (by omega) (by omega)]

theorem holds_copyPath (path : CString) : Holds (copyPath path) 0 (path.take maxPath) := by
  suffices later : ∀ front rest, path.take maxPath = front ++ rest →
      Holds (copyPath path) front.length rest from later [] _ rfl
  intro front rest whole
  induction rest generalizing front with
  | nil =>
      rw [List.append_nil] at whole
      change copyPath path front.length = 0
      rw [copyPath]
      split
      · next inside =>
          have short : path.length ≤ front.length := by
            rw [← whole, List.length_take] at inside ⊢
            omega
          rw [List.getElem?_eq_none short]
          rfl
      · rfl
  | cons c rest ih =>
      have inside : front.length < maxPath := by
        have length := congrArg List.length whole
        rw [List.length_take, List.length_append, List.length_cons] at length
        omega
      have here : path[front.length]? = some c := by
        rw [← List.getElem?_take_of_lt inside, whole, List.getElem?_append_right le_rfl,
          Nat.sub_self]
        rfl
      refine ⟨?_, ?_⟩
      · rw [copyPath, if_pos inside, here]
        rfl
      · have next := ih (front ++ [c]) (by rw [whole, List.append_assoc]; rfl)
        rwa [List.length_append] at next

/-- The tokens of the copy of a path. -/
theorem tokensInPlace_copyPath (path : CString) :
    tokensInPlace bufferSize (copyPath path) 0 = tokens slash (path.take maxPath) := by
  have room : (path.take maxPath).length < bufferSize :=
    Nat.lt_succ_of_le (List.length_take_le maxPath path)
  exact tokensInPlace_of_holds (holds_copyPath path) room room

/-- **The search in place** is the search over the tokens. -/
theorem Ramfs.findNodeInPlace_eq (a : Allocator) (createMissing : Bool) (path : CString)
    (s : Ramfs) : s.findNodeInPlace a createMissing path = s.findNode a createMissing path := by
  rewrite [findNodeInPlace, findNode, tokensInPlace_copyPath]
  rfl

end NTux.Fs
