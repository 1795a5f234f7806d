import Mathlib.Logic.Basic

/-!
# Loops that advance by a stride

`for (i = start; i < stop; i += step)` with a body that may fail.
-/

namespace GbaStation

universe u v

variable {σ : Type u} {ε : Type v} {stop step start : Nat} {body : Nat → σ → Except ε σ}
  {I : Nat → σ → Prop} {s s' : σ}

/-- The rest of a computation, behind a step that succeeded. -/
theorem ok_bind {α β : Type u} {a : α} {f : α → Except ε β} : (Except.ok a >>= f) = f a := rfl

/-- The loop from a value of its counter on. -/
def strideLoop (stop step : Nat) (body : Nat → σ → Except ε σ) (i : Nat) (s : σ) : Except ε σ :=
  if i < stop ∧ 0 < step then
    match body i s with
    | .ok s => strideLoop stop step body (i + step) s
    | .error e => .error e
  else .ok s
termination_by stop - i

theorem strideLoop_of_le (h : stop ≤ start) : strideLoop stop step body start s = .ok s := by
  rw [strideLoop, if_neg fun hlt => absurd hlt.1 (Nat.not_lt.mpr h)]

theorem strideLoop_of_lt (hstep : 0 < step) (h : start < stop) (hbody : body start s = .ok s') :
    strideLoop stop step body start s = strideLoop stop step body (start + step) s' := by
  rw [strideLoop, if_pos ⟨h, hstep⟩, hbody]

theorem strideLoop_of_error {e : ε} (hstep : 0 < step) (h : start < stop)
    (hbody : body start s = .error e) : strideLoop stop step body start s = .error e := by
  rw [strideLoop, if_pos ⟨h, hstep⟩, hbody]

/-- The rule for total correctness. -/
theorem strideLoop_ok (hstep : 0 < step)
    (hbody : ∀ i s, i < stop → I i s → ∃ s', body i s = .ok s' ∧ I (i + step) s')
    (hle : start < stop + step) (hstart : I start s) :
    ∃ i s', strideLoop stop step body start s = .ok s' ∧ I i s' ∧ stop ≤ i ∧ i < stop + step := by
  induction hn : stop - start using Nat.strongRecOn generalizing start s with
  | _ n ih =>
    rcases Nat.lt_or_ge start stop with hlt | hge
    · obtain ⟨s', hs', hnext⟩ := hbody start s hlt hstart
      obtain ⟨i, s'', hloop, hend⟩ := ih (stop - (start + step)) (by omega) (by omega) hnext rfl
      exact ⟨i, s'', by rw [strideLoop_of_lt hstep hlt hs', hloop], hend⟩
    · exact ⟨start, s, strideLoop_of_le hge, hstart, hge, hle⟩

/-- The rule for a loop in a loop, both of which count: the invariant is indexed by both counters. -/
theorem strideLoop_nested_ok {rows columns : Nat} {body : Nat → Nat → σ → Except ε σ}
    {I : Nat → Nat → σ → Prop}
    (hbody : ∀ y x s, y < rows → x < columns → I y x s →
      ∃ s', body y x s = .ok s' ∧ I y (x + 1) s')
    (hrow : ∀ y s, y < rows → I y columns s → I (y + 1) 0 s) (hstart : I 0 0 s) :
    ∃ s', strideLoop rows 1 (fun y => strideLoop columns 1 (body y) 0) 0 s = .ok s' ∧
      I rows 0 s' := by
  have hline (y : Nat) (s : σ) (hy : y < rows) (hinv : I y 0 s) :
      ∃ s', strideLoop columns 1 (body y) 0 s = .ok s' ∧ I (y + 1) 0 s' := by
    obtain ⟨x, s', hloop, hend, hge, hlt⟩ := strideLoop_ok (I := I y) Nat.one_pos
      (fun x s hx hinv => hbody y x s hy hx hinv) (Nat.succ_pos columns) hinv
    have hx : x = columns := by omega
    exact ⟨s', hloop, hrow y s' hy (hx ▸ hend)⟩
  obtain ⟨y, s', hloop, hend, hge, hlt⟩ := strideLoop_ok (I := fun y s => I y 0 s) Nat.one_pos
    hline (Nat.succ_pos rows) hstart
  have hy : y = rows := by omega
  exact ⟨s', hloop, hy ▸ hend⟩

/-- The rule for partial correctness. -/
theorem of_strideLoop (hstep : 0 < step)
    (hbody : ∀ i s s', i < stop → I i s → body i s = .ok s' → I (i + step) s')
    (hle : start < stop + step) (hstart : I start s)
    (hloop : strideLoop stop step body start s = .ok s') :
    ∃ i, I i s' ∧ stop ≤ i ∧ i < stop + step := by
  induction hn : stop - start using Nat.strongRecOn generalizing start s with
  | _ n ih =>
    rcases Nat.lt_or_ge start stop with hlt | hge
    · cases hs : body start s with
      | error e =>
        rw [strideLoop_of_error hstep hlt hs] at hloop
        cases hloop
      | ok s₁ =>
        rw [strideLoop_of_lt hstep hlt hs] at hloop
        exact ih (stop - (start + step)) (by omega) (by omega)
          (hbody start s s₁ hlt hstart hs) hloop rfl
    · rw [strideLoop_of_le hge] at hloop
      cases hloop
      exact ⟨start, hstart, hge, hle⟩

end GbaStation
