import GbaStation.Kernel.Scheduler

/-!
# Semaphore counts

`Release` adds its argument to the count as the guest gave it: the bound check neither looks at the
sign nor at the range of the sum, so a negative argument takes the count below zero, and a sum over
the greatest `s32` passes as a negative number. Everything else that happens to a semaphore is an
acquisition, and an acquisition stops at zero.

- `semaphore_bounded`: the counts in every run in which the sums of the releases are in range.
-/

namespace GbaStation.Kernel.ThreadSystem

variable {k k' : ThreadSystem}

/-- The count of a semaphore is between zero and its maximum. -/
def CountBounded (k : ThreadSystem) (s : SemaphoreId) : Prop :=
  0 ≤ k.semaphore.availableCount s ∧ k.semaphore.availableCount s ≤ k.semaphore.maxCount s

/-- The sum that `Release` compares with the maximum is an `s32`. -/
def SumFits (k : ThreadSystem) (s : SemaphoreId) (releaseCount : Int) : Prop :=
  -2 ^ 31 ≤ releaseCount + k.semaphore.availableCount s ∧
    releaseCount + k.semaphore.availableCount s < 2 ^ 31

theorem wrap32_of_fits {i : Int} (h : -2 ^ 31 ≤ i ∧ i < 2 ^ 31) : wrap32 i = i := by
  exact Int.bmod_eq_of_le (by omega) (by omega)

/-- A release of another semaphore, or one that leaves the sum between zero and the greatest
`s32`. -/
def ReleaseInRange (s : SemaphoreId) (k : ThreadSystem) (call : Call) : Prop :=
  ∀ releaseCount, call = .releaseSemaphore s releaseCount →
    0 ≤ releaseCount + k.semaphore.availableCount s ∧
      releaseCount + k.semaphore.availableCount s < 2 ^ 31

variable {s : SemaphoreId}

/-- An acquisition takes one, and nothing from zero on. -/
def counted (s : SemaphoreId) : CountInvariant where
  Holds sem := 0 ≤ sem.availableCount s ∧ sem.availableCount s ≤ sem.maxCount s
  acquired := by
    intro k s' ⟨hlow, hhigh⟩
    unfold semaphoreAcquire
    split_ifs with hs
    · exact ⟨hlow, hhigh⟩
    · by_cases heq : s = s'
      · subst heq
        simp only [Function.update_self]
        omega
      · simp only [Function.update_of_ne heq]
        exact ⟨hlow, hhigh⟩

/-- A release that returns an error leaves the state as it was. -/
theorem semaphoreRelease_failed {releaseCount : Int} {r : Result × ThreadSystem}
    (h : k.semaphoreRelease s releaseCount = some r) (hr : r.1 ≠ Result.success) : r.2 = k := by
  unfold semaphoreRelease at h
  dsimp only at h
  split at h
  · obtain ⟨k₁, -, h⟩ := Option.bind_eq_some_iff.mp h
    obtain rfl := Option.some.inj h
    exact absurd rfl hr
  · obtain rfl := Option.some.inj h
    rfl

/-- One step: the count stays in its bounds. -/
theorem CountBounded.step {s : SemaphoreId} (hk : k.Scheduled) (hcount : k.CountBounded s)
    {call : Call} (hrange : ReleaseInRange s k call) (h : k.step call = some k') :
    k'.CountBounded s := by
  refine (Kept.step (I := counted s) ⟨hk, hcount⟩
    (fun s' releaseCount hcall count hcount' hle => ?_) h).counts
  show 0 ≤ (k.released s' count).availableCount s ∧
    (k.released s' count).availableCount s ≤ k.semaphore.maxCount s
  by_cases heq : s = s'
  · subst heq
    obtain ⟨hlow, hhigh⟩ := hrange releaseCount hcall
    rw [hcount', wrap32_of_fits ⟨by omega, hhigh⟩] at hle ⊢
    simpa [released] using ⟨hlow, hle⟩
  · simpa [released, heq, CountBounded] using hcount

/-- The states that a run reaches from one in which nothing has happened, when every release of the
semaphore leaves the sum between zero and the greatest `s32`. -/
def ReleasedInRange (s : SemaphoreId) : ThreadSystem → ThreadSystem → Prop :=
  Relation.ReflTransGen fun k k' => ∃ call, ReleaseInRange s k call ∧ k.step call = some k'

/-- In every run from a count between zero and the maximum, with releases in range, the count stays
there, no release that is in range overflows, and one that returns an error changes nothing. -/
theorem semaphore_bounded {k₀ k : ThreadSystem} {s : SemaphoreId} (h₀ : k₀.Initial)
    (hinitial : 0 ≤ k₀.semaphore.availableCount s) (hrun : ReleasedInRange s k₀ k) :
    k.CountBounded s ∧ ∀ releaseCount,
      ReleaseInRange s k (.releaseSemaphore s releaseCount) →
        k.SumFits s releaseCount ∧ ∀ r, k.semaphoreRelease s releaseCount = some r →
          r.2.CountBounded s ∧ (r.1 ≠ Result.success → r.2 = k) := by
  have hk : k.Scheduled ∧ k.CountBounded s := by
    induction hrun with
    | refl => exact ⟨h₀.scheduled, hinitial, h₀.availableCount s⟩
    | tail _ hstep ih =>
      obtain ⟨call, hrange, hstep⟩ := hstep
      exact ⟨ih.1.step hstep, ih.2.step ih.1 hrange hstep⟩
  refine ⟨hk.2, fun releaseCount hrange => ⟨?_, fun r hr => ⟨?_, semaphoreRelease_failed hr⟩⟩⟩
  · obtain ⟨hlow, hhigh⟩ := hrange releaseCount rfl
    exact ⟨by omega, hhigh⟩
  · have hstep : k.step (.releaseSemaphore s releaseCount) = some r.2 := by
      simp [ThreadSystem.step, hr]
    exact hk.2.step hk.1 hrange hstep

/-- A semaphore of at most one, created with zero and released once. -/
theorem semaphore_bounded_once :
    ∃ k, start.step (.releaseSemaphore 0 1) = some k ∧ k.semaphore.availableCount 0 = 1 ∧
      k.CountBounded 0 := by
  have hrange : ReleaseInRange 0 start (.releaseSemaphore 0 1) := by
    intro releaseCount h
    cases h
    exact ⟨by decide, by decide⟩
  obtain ⟨k, hk, hcount⟩ : ∃ k, start.step (.releaseSemaphore 0 1) = some k ∧
      k.semaphore.availableCount 0 = 1 := ⟨_, rfl, by decide⟩
  exact ⟨k, hk, hcount, (semaphore_bounded initial_start (by decide) (.single ⟨_, hrange, hk⟩)).1⟩

/-- The same semaphore, released with a negative count. -/
theorem negative_release :
    start.Initial ∧ 0 ≤ start.semaphore.availableCount 0 ∧
      ∃ k, start.step (.releaseSemaphore 0 (-1)) = some k ∧
        k.semaphore.availableCount 0 = -1 ∧ ¬k.CountBounded 0 := by
  obtain ⟨k, hk, hcount⟩ : ∃ k, start.step (.releaseSemaphore 0 (-1)) = some k ∧
      k.semaphore.availableCount 0 = -1 := ⟨_, rfl, by decide⟩
  refine ⟨initial_start, by decide, k, hk, hcount, fun hbounded => ?_⟩
  have hnonneg := hbounded.1
  rw [hcount] at hnonneg
  exact absurd hnonneg (by decide)

end GbaStation.Kernel.ThreadSystem
