import Mathlib.Data.List.Basic

/-!
# Paths, resolved lexically

The components of a string between separators, and where they lead from a root when nothing but
their names is looked at.
-/

namespace GbaStation.LexicalPath

section Names

variable {α : Type} [DecidableEq α] (sep : α)

/-- The components of a path that are not empty. -/
def names (path : List α) : List (List α) := (path.splitOn sep).filter (· ≠ [])

@[simp] theorem names_nil : names sep ([] : List α) = [] := rfl

theorem names_append (xs ys : List α) :
    names sep (xs ++ sep :: ys) = names sep xs ++ names sep ys := by
  have hsplit : (xs ++ sep :: ys).splitOnP (· == sep) =
      xs.splitOnP (· == sep) ++ ys.splitOnP (· == sep) :=
    List.splitOnP_append_cons xs ys (beq_self_eq_true sep)
  rw [names, List.splitOn_eq_splitOnP, hsplit, List.filter_append]
  rfl

variable {sep}

/-- A component by itself. -/
theorem names_of_notMem {xs : List α} (h : sep ∉ xs) (hne : xs ≠ []) : names sep xs = [xs] := by
  have hnot : ∀ x ∈ xs, (x == sep) = false := fun x hx =>
    beq_eq_false_iff_ne.mpr fun heq => h (heq ▸ hx)
  rw [names, List.splitOn_eq_splitOnP, List.splitOnP_eq_singleton hnot]
  exact List.filter_cons_of_pos (decide_eq_true hne)

end Names

section Follow

variable {β : Type} [DecidableEq β] (parent : β) (skip : β → Bool)

/-- One component from a directory, whose names are there innermost first. -/
def enter (stack : List β) (c : β) : Option (List β) :=
  if skip c then some stack
  else if c = parent then
    match stack with
    | [] => none
    | _ :: stack => some stack
  else some (c :: stack)

/-- Follow components from a directory. -/
def follow (stack cs : List β) : Option (List β) := cs.foldlM (enter parent skip) stack

variable {parent skip}

theorem enter_skip {c : β} {stack : List β} (h : skip c = true) :
    enter parent skip stack c = some stack := if_pos h

theorem enter_name {c : β} {stack : List β} (h : skip c = false) (hc : c ≠ parent) :
    enter parent skip stack c = some (c :: stack) := by
  simp [enter, h, hc]

theorem enter_parent_root (h : skip parent = false) : enter parent skip [] parent = none := by
  simp [enter, h]

theorem enter_parent {name : β} {stack : List β} (h : skip parent = false) :
    enter parent skip (name :: stack) parent = some stack := by
  simp [enter, h]

theorem follow_append (stack xs ys : List β) : follow parent skip stack (xs ++ ys) =
    (follow parent skip stack xs).bind fun stack => follow parent skip stack ys :=
  List.foldlM_append

/-- Components that are skipped make no difference. -/
theorem follow_filter (cs : List β) :
    ∀ {stack : List β}, follow parent skip stack (cs.filter fun c => !skip c) =
      follow parent skip stack cs := by
  induction cs with
  | nil => exact fun {_} => rfl
  | cons c cs ih =>
    intro stack
    simp only [follow] at ih ⊢
    by_cases hskip : skip c = true
    · rw [List.filter_cons_of_neg (by simp [hskip]), List.foldlM_cons, enter_skip hskip, ih]
      rfl
    · rw [List.filter_cons_of_pos (by simp [hskip]), List.foldlM_cons, List.foldlM_cons]
      exact bind_congr fun stack => ih

/-- What comes before stays inside as well. -/
theorem follow_isSome_of_prefix {pre cs stack : List β} (h : pre <+: cs)
    (hs : (follow parent skip stack cs).isSome) : (follow parent skip stack pre).isSome := by
  obtain ⟨post, rfl⟩ := h
  rw [follow_append] at hs
  cases hpre : follow parent skip stack pre with
  | none =>
    rw [hpre] at hs
    exact absurd hs (by simp)
  | some _ => rfl

/-- A path leads above the root when one of its beginnings does. -/
theorem follow_eq_none_iff {cs stack : List β} :
    follow parent skip stack cs = none ↔
      ∃ pre, pre <+: cs ∧ follow parent skip stack pre = none := by
  constructor
  · exact fun h => ⟨cs, List.prefix_refl cs, h⟩
  · rintro ⟨pre, hpre, hnone⟩
    by_contra h
    have hs := follow_isSome_of_prefix hpre (Option.isSome_iff_ne_none.mpr h)
    rw [hnone] at hs
    exact absurd hs (by simp)

end Follow

end GbaStation.LexicalPath
