import Mathlib.Data.List.TakeWhile

/-! # The tokens of a separated text

A scanner skips separators, takes the characters up to the next separator and goes on
behind it. The tokens are what it returns until nothing is left but separators
(`tokens`). Joining parts that are not empty and contain no separator and scanning the
result gives the parts back (`tokens_join`).
-/

namespace NTux.Foundation

universe u

variable {α : Type u} [DecidableEq α]

/-- The next token and the text behind it, if there is more than separators. -/
def nextToken (sep : α) (text : List α) : Option (List α × List α) :=
  match text.dropWhile (· = sep) with
  | [] => none
  | head :: tail =>
      some ((head :: tail).takeWhile (· ≠ sep), ((head :: tail).dropWhile (· ≠ sep)).drop 1)

/-- At most `count` tokens. -/
def tokensWithin (sep : α) : Nat → List α → List (List α)
  | 0, _ => []
  | count + 1, text =>
      match nextToken sep text with
      | none => []
      | some (token, rest) => token :: tokensWithin sep count rest

/-- The tokens of a text, which are no more than its characters. -/
def tokens (sep : α) (text : List α) : List (List α) :=
  tokensWithin sep text.length text

variable {sep : α} {text token rest : List α}

/-- Separators in front of a text do not matter. -/
@[simp] theorem nextToken_sep : nextToken sep (sep :: text) = nextToken sep text := by
  simp [nextToken]

/-- Characters that are not the separator belong to the token. -/
theorem nextToken_clean (nonempty : token ≠ []) (clean : sep ∉ token) :
    nextToken sep (token ++ rest) =
      some (token ++ rest.takeWhile (· ≠ sep), (rest.dropWhile (· ≠ sep)).drop 1) := by
  have keep : ∀ c ∈ token, decide (c ≠ sep) = true := fun c member =>
    decide_eq_true fun equal => clean (equal ▸ member)
  have skip : (token ++ rest).dropWhile (· = sep) = token ++ rest := by
    cases token with
    | nil => exact absurd rfl nonempty
    | cons head tail =>
        have first : head ≠ sep := of_decide_eq_true (keep head List.mem_cons_self)
        exact List.dropWhile_cons_of_neg (by simpa using first)
  rw [← List.takeWhile_append_of_pos keep, ← @List.dropWhile_append_of_pos _ _ _ rest keep,
    nextToken, skip]
  cases token with
  | nil => exact absurd rfl nonempty
  | cons head tail => rfl

/-- A token in front of a separator. -/
theorem nextToken_append (nonempty : token ≠ []) (clean : sep ∉ token) :
    nextToken sep (token ++ sep :: rest) = some (token, rest) := by
  simp [nextToken_clean nonempty clean]

/-- A token at the end of a text. -/
theorem nextToken_self (nonempty : token ≠ []) (clean : sep ∉ token) :
    nextToken sep token = some (token, []) := by
  have last := @nextToken_clean _ _ _ _ [] nonempty clean
  simpa using last

/-- A token is not empty and contains no separator, and the rest of the text is shorter. -/
theorem nextToken_spec (next : nextToken sep text = some (token, rest)) :
    token ≠ [] ∧ sep ∉ token ∧ token.length + rest.length ≤ text.length := by
  unfold nextToken at next
  split at next
  · cases next
  · next head tail start =>
      obtain ⟨rfl, rfl⟩ := Prod.mk.inj (Option.some.inj next)
      have stopped := List.head?_dropWhile_not (fun c => decide (c = sep)) text
      rw [start] at stopped
      have first : head ≠ sep := of_decide_eq_false stopped
      refine ⟨?_, ?_, ?_⟩
      · simp [first]
      · intro member
        have passed := List.mem_takeWhile_imp member
        simp at passed
      · have parts : ((head :: tail).takeWhile (· ≠ sep)).length +
            ((head :: tail).dropWhile (· ≠ sep)).length = (head :: tail).length := by
          rw [← List.length_append, List.takeWhile_append_dropWhile]
        have shorter := List.length_dropWhile_le (fun c => decide (c = sep)) text
        rw [start] at shorter
        rw [List.length_drop]
        omega

/-- As many tokens as there are characters are all of them. -/
theorem tokensWithin_eq {count : Nat} (enough : text.length ≤ count) :
    tokensWithin sep count text = tokens sep text := by
  unfold tokens
  generalize length : text.length = many at enough
  have all : text.length ≤ many := length.le
  clear length
  induction many generalizing count text with
  | zero =>
      obtain rfl := List.eq_nil_of_length_eq_zero (Nat.le_zero.mp all)
      cases count <;> rfl
  | succ many ih =>
      cases count with
      | zero => exact absurd enough (Nat.not_succ_le_zero _)
      | succ count =>
          rw [tokensWithin, tokensWithin]
          cases next : nextToken sep text with
          | none => rfl
          | some found =>
              obtain ⟨token, rest⟩ := found
              obtain ⟨nonempty, -, shorter⟩ := nextToken_spec next
              have positive := List.length_pos_iff.mpr nonempty
              exact congrArg (token :: ·) (ih (by omega) (by omega))

/-- The tokens of a text are the first one and those of the rest. -/
theorem tokens_eq (sep : α) (text : List α) :
    tokens sep text = match nextToken sep text with
      | none => []
      | some (token, rest) => token :: tokens sep rest := by
  cases next : nextToken sep text with
  | none =>
      cases text with
      | nil => rfl
      | cons head tail =>
          rw [tokens, List.length_cons, tokensWithin, next]
  | some found =>
      obtain ⟨token, rest⟩ := found
      obtain ⟨nonempty, -, shorter⟩ := nextToken_spec next
      have positive := List.length_pos_iff.mpr nonempty
      rw [← tokensWithin_eq (Nat.le_succ text.length), tokensWithin, next]
      exact congrArg (token :: ·) (tokensWithin_eq (by omega))

@[simp] theorem tokens_sep : tokens sep (sep :: text) = tokens sep text := by
  rw [tokens_eq, nextToken_sep, ← tokens_eq]

theorem tokens_replicate (sep : α) (count : Nat) : tokens sep (List.replicate count sep) = [] := by
  induction count with
  | zero => rfl
  | succ count ih => rw [List.replicate_succ, tokens_sep, ih]

theorem tokens_append (nonempty : token ≠ []) (clean : sep ∉ token) :
    tokens sep (token ++ sep :: rest) = token :: tokens sep rest := by
  rw [tokens_eq, nextToken_append nonempty clean]

theorem tokens_self (nonempty : token ≠ []) (clean : sep ∉ token) :
    tokens sep token = [token] := by
  rw [tokens_eq, nextToken_self nonempty clean]
  rfl

/-- The tokens are the parts between separators that are not empty. -/
theorem tokens_eq_splitOn (sep : α) (text : List α) :
    tokens sep text = (text.splitOn sep).filter (· ≠ []) := by
  generalize length : text.length = many
  induction many using Nat.strong_induction_on generalizing text with
  | _ many ih =>
      by_cases inside : sep ∈ text
      · obtain ⟨first, rest, rfl, clean⟩ := List.eq_append_cons_of_mem inside
        have shorter : rest.length < many := by
          rw [← length, List.length_append, List.length_cons]
          omega
        rw [List.splitOn_append_cons_self_of_not_mem clean, List.filter_cons,
          ← ih rest.length shorter rest rfl]
        by_cases empty : first = []
        · rw [empty, List.nil_append, tokens_sep]
          rfl
        · rw [tokens_append empty clean, if_pos (decide_eq_true empty)]
      · rw [List.splitOn_eq_singleton inside]
        by_cases empty : text = []
        · rw [empty]
          rfl
        · rw [tokens_self empty inside, List.filter_cons, if_pos (decide_eq_true empty),
            List.filter_nil]

theorem mem_tokens (member : token ∈ tokens sep text) : token ≠ [] ∧ sep ∉ token := by
  generalize length : text.length = many
  induction many using Nat.strong_induction_on generalizing text with
  | _ many ih =>
      rw [tokens_eq] at member
      cases next : nextToken sep text with
      | none => exact absurd (next ▸ member) List.not_mem_nil
      | some found =>
          obtain ⟨first, rest⟩ := found
          obtain ⟨nonempty, clean, shorter⟩ := nextToken_spec next
          have positive := List.length_pos_iff.mpr nonempty
          rw [next] at member
          rcases List.mem_cons.mp member with rfl | later
          · exact ⟨nonempty, clean⟩
          · exact ih rest.length (by omega) later rfl

/-- Parts that are not empty and contain no separator are the tokens of the text in which a
separator stands in front of each. -/
theorem tokens_join {parts : List (List α)} (nonempty : ∀ part ∈ parts, part ≠ [])
    (clean : ∀ part ∈ parts, sep ∉ part) :
    tokens sep (parts.flatMap (sep :: ·)) = parts := by
  induction parts with
  | nil => rfl
  | cons part rest ih =>
      have tail := ih (fun other member => nonempty other (List.mem_cons_of_mem _ member))
        fun other member => clean other (List.mem_cons_of_mem _ member)
      have partNonempty := nonempty part List.mem_cons_self
      have partClean := clean part List.mem_cons_self
      rw [List.flatMap_cons, List.cons_append, tokens_sep]
      cases rest with
      | nil =>
          rw [List.flatMap_nil, List.append_nil]
          exact tokens_self partNonempty partClean
      | cons next others =>
          rw [List.flatMap_cons, List.cons_append, tokens_sep] at tail
          rw [List.flatMap_cons, List.cons_append, tokens_append partNonempty partClean, tail]

end NTux.Foundation
