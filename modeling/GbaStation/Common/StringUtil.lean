import Mathlib.Data.List.Basic

/-!
# Splitting and replacing (`common/string_util.cpp`)
-/

namespace GbaStation.StringUtil

variable {α : Type} [DecidableEq α]

/-- `SplitString`: what `getline` reads until it fails. -/
def splitString (s : List α) (delim : α) : List (List α) :=
  let pieces := s.splitOn delim
  if pieces.getLast? = some [] then pieces.dropLast else pieces

/-- The loop of `ReplaceAll` at a position, behind so many characters that are skipped. -/
def replaceFrom (src dest : List α) : Nat → List α → List α
  | _, [] => []
  | skip + 1, _ :: s => replaceFrom src dest skip s
  | 0, c :: s =>
    if src.isPrefixOf (c :: s) then dest ++ replaceFrom src dest (src.length - 1) s
    else c :: replaceFrom src dest 0 s

/-- `ReplaceAll`, of a text that is not empty. -/
def replaceAll (s src dest : List α) : List α :=
  if src = dest then s else replaceFrom src dest 0 s

/-! ## Pieces -/

/-- Pieces without the separator come back, up to an empty one at the end. -/
theorem splitString_intercalate (delim : α) {pieces : List (List α)}
    (hpieces : ∀ piece ∈ pieces, delim ∉ piece) (hne : pieces ≠ []) :
    splitString ([delim].intercalate pieces) delim =
      if pieces.getLast? = some [] then pieces.dropLast else pieces := by
  rw [splitString, List.splitOn_intercalate delim hpieces hne]

/-! ## Codes -/

/-- A character is replaced by its code. -/
theorem replaceAll_single (s dest : List α) (c : α) (hne : [c] ≠ dest) :
    replaceAll s [c] dest = s.flatMap fun x => if x = c then dest else [x] := by
  rw [replaceAll, if_neg hne]
  induction s with
  | nil => rfl
  | cons x s ih =>
    rw [replaceFrom, List.flatMap_cons]
    by_cases hx : x = c
    · rw [if_pos (by simp [hx]), if_pos hx, ← ih]
      rfl
    · rw [if_neg (by simp [Ne.symm hx]), if_neg hx, ← ih]
      rfl

/-- Where a text is made of codes of two characters, of which the first is nowhere else, one of the
codes is replaced wherever it is. -/
theorem replaceAll_codes {β : Type} (s : List β) (code : β → List α) (escape letter : α)
    (dest : List α) (hne : [escape, letter] ≠ dest)
    (hcode : ∀ x ∈ s, (∃ y, code x = [y] ∧ y ≠ escape) ∨ ∃ y, code x = [escape, y] ∧ y ≠ escape) :
    replaceAll (s.flatMap code) [escape, letter] dest =
      s.flatMap fun x => if code x = [escape, letter] then dest else code x := by
  rw [replaceAll, if_neg hne]
  induction s with
  | nil => rfl
  | cons x s ih =>
    obtain ⟨hx, hs⟩ := List.forall_mem_cons.mp hcode
    rw [List.flatMap_cons, List.flatMap_cons, ← ih hs]
    rcases hx with ⟨y, hy, hescape⟩ | ⟨y, hy, hescape⟩
    · rw [hy, if_neg (by simp), List.singleton_append, replaceFrom,
        if_neg (by simp [Ne.symm hescape]), List.singleton_append]
    · rw [hy]
      by_cases hletter : y = letter
      · rw [if_pos (by rw [hletter])]
        show replaceFrom _ _ 0 (escape :: y :: s.flatMap code) = _
        rw [replaceFrom, if_pos (by simp [hletter])]
        rfl
      · rw [if_neg (by simp [hletter])]
        show replaceFrom _ _ 0 (escape :: y :: s.flatMap code) = escape :: y :: _
        rw [replaceFrom, if_neg (by simp [Ne.symm hletter]), replaceFrom,
          if_neg (by simp [Ne.symm hescape])]
        rfl

end GbaStation.StringUtil
