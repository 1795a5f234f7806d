import GbaStation.Common.IntervalMerge
import GbaStation.Common.FlatMemory

/-!
# Invalidation of the instruction caches (`core/core.cpp`)

What has been written to code is invalidated in the caches of all cores. Between
`BeginCacheInvalidationBatch` and `EndCacheInvalidationBatch` the ranges are collected, and merged
at the end of the outermost batch.

- `Call`, `run`: calls one after the other; `none` is the assertion of `EndCacheInvalidationBatch`.
-/

namespace GbaStation.Core.Invalidation

open GbaStation.Interval

/-- What the cores have been told, as addresses and lengths, and the batch. -/
structure CacheSystem (Cpu : Type) where
  /-- A `u32` in the source. That it wraps around after `2 ^ 32` batches inside of each other is not
  modelled. -/
  batchDepth : Nat
  pending : List Interval
  invalidated : Cpu → List (Nat × Nat)

variable {Cpu : Type}

namespace CacheSystem

/-- `InvalidateCacheRange` of every core. -/
def tellCores (s : CacheSystem Cpu) (address length : Nat) : CacheSystem Cpu :=
  { s with invalidated := fun cpu => s.invalidated cpu ++ [(address, length)] }

/-- The end of a range, clipped. The sum is in `u64`. -/
def rangeEnd (startAddress : Word) (length : BitVec 64) : Nat :=
  min ((startAddress.toNat + length.toNat) % 2 ^ 64) (2 ^ 32)

/-- `InvalidateCacheRange`. -/
def invalidateCacheRange (s : CacheSystem Cpu) (startAddress : Word) (length : BitVec 64) :
    CacheSystem Cpu :=
  if length = 0 then s
  else if s.batchDepth ≠ 0 then
    { s with pending := s.pending ++ [⟨startAddress.toNat, rangeEnd startAddress length⟩] }
  else
    s.tellCores startAddress.toNat
      ((rangeEnd startAddress length + 2 ^ 64 - startAddress.toNat) % 2 ^ 64)

def beginCacheInvalidationBatch (s : CacheSystem Cpu) : CacheSystem Cpu :=
  { s with batchDepth := s.batchDepth + 1 }

/-- The merged ranges are told to the cores. -/
def deliver (s : CacheSystem Cpu) (ranges : List Interval) : CacheSystem Cpu :=
  ranges.foldl
    (fun s r => s.tellCores (r.lower % 2 ^ 32) ((r.upper + 2 ^ 64 - r.lower) % 2 ^ 64)) s

def endCacheInvalidationBatch (s : CacheSystem Cpu) : Option (CacheSystem Cpu) :=
  if s.batchDepth = 0 then none
  else
    let s := { s with batchDepth := s.batchDepth - 1 }
    if s.batchDepth ≠ 0 then some s
    else
      match s.pending.mergeSort le with
      | [] => some s
      | first :: ranges => some { s.deliver (merge first ranges) with pending := [] }

end CacheSystem

/-! ## Sequences of calls -/

inductive Call where
  | beginBatch
  | invalidate (startAddress : Word) (length : BitVec 64)
  | endBatch

def Call.step (s : CacheSystem Cpu) : Call → Option (CacheSystem Cpu)
  | .beginBatch => some s.beginCacheInvalidationBatch
  | .invalidate startAddress length => some (s.invalidateCacheRange startAddress length)
  | .endBatch => s.endCacheInvalidationBatch

def run (s : CacheSystem Cpu) (calls : List Call) : Option (CacheSystem Cpu) :=
  calls.foldlM Call.step s

/-- Every batch that is begun is ended. -/
inductive Nested : List Call → Prop where
  | nil : Nested []
  | invalidate {calls : List Call} (startAddress : Word) (length : BitVec 64)
      (h : Nested calls) : Nested (.invalidate startAddress length :: calls)
  | batch {inner calls : List Call} (hinner : Nested inner) (h : Nested calls) :
      Nested (.beginBatch :: inner ++ .endBatch :: calls)

/-- A call requests a byte of the address space. -/
def Call.Requests (call : Call) (b : Nat) : Prop :=
  ∃ startAddress length, call = .invalidate startAddress length ∧
    startAddress.toNat ≤ b ∧ b < startAddress.toNat + length.toNat ∧ b < 2 ^ 32

/-- The length of a request does not go beyond 64 bits. -/
def Call.Fits (call : Call) : Prop :=
  ∀ startAddress length, call = .invalidate startAddress length →
    startAddress.toNat + length.toNat < 2 ^ 64

/-- Ranges as they are told to the cores, as blocks. -/
def toInterval (r : Nat × Nat) : Interval := ⟨r.1, r.1 + r.2⟩

/-- What a batch collects of a call. -/
def Call.range : Call → List Interval
  | .invalidate startAddress length =>
    if length = 0 then []
    else [⟨startAddress.toNat, CacheSystem.rangeEnd startAddress length⟩]
  | _ => []

open Call (range step)

variable {s s' : CacheSystem Cpu} {calls inner : List Call} {call : Call}

theorem run_append (s : CacheSystem Cpu) (calls calls' : List Call) :
    run s (calls ++ calls') = (run s calls).bind fun s => run s calls' :=
  List.foldlM_append

theorem run_cons (s : CacheSystem Cpu) (call : Call) (calls : List Call) :
    run s (call :: calls) = (call.step s).bind fun s => run s calls :=
  List.foldlM_cons

/-- Inside of a batch, requests are collected only. -/
theorem Nested.run_inside (h : Nested calls) (hdepth : s.batchDepth ≠ 0) :
    run s calls = some { s with pending := s.pending ++ calls.flatMap range } := by
  induction h generalizing s with
  | nil => simp [run]
  | invalidate startAddress length _ ih =>
    rw [run_cons, step, Option.bind_some, CacheSystem.invalidateCacheRange]
    split_ifs with hlength
    · rw [ih hdepth]
      simp [range, hlength]
    · refine (ih (s := { s with pending := s.pending ++
        [⟨startAddress.toNat, CacheSystem.rangeEnd startAddress length⟩] }) hdepth).trans ?_
      rw [List.flatMap_cons, range, if_neg hlength, List.append_assoc]
  | @batch inner calls _ _ ihinner ih =>
    rw [List.cons_append, run_cons, step, Option.bind_some, run_append,
      ihinner (s := s.beginCacheInvalidationBatch) (Nat.succ_ne_zero _), Option.bind_some, run_cons]
    -- the end of an inner batch only counts
    have hend : Call.endBatch.step { s.beginCacheInvalidationBatch with
        pending := s.beginCacheInvalidationBatch.pending ++ inner.flatMap range } =
          some { s with pending := s.pending ++ inner.flatMap range } := by
      simp [step, CacheSystem.endCacheInvalidationBatch,
        CacheSystem.beginCacheInvalidationBatch, hdepth]
    rw [hend, Option.bind_some]
    refine (ih (s := { s with pending := s.pending ++ inner.flatMap range }) hdepth).trans ?_
    simp [range]

/-- The ranges that are collected of requests that fit are not empty. -/
theorem range_nonempty (hfits : call.Fits) :
    ∀ i ∈ call.range, i.lower < i.upper ∧ i.upper ≤ 2 ^ 32 := by
  intro i hi
  cases call with
  | beginBatch => simp [range] at hi
  | endBatch => simp [range] at hi
  | invalidate startAddress length =>
    have hsum := hfits startAddress length rfl
    rw [range] at hi
    split_ifs at hi with hlength
    · simp at hi
    · obtain rfl := List.mem_singleton.mp hi
      have hpos : length.toNat ≠ 0 := fun h => hlength (BitVec.eq_of_toNat_eq h)
      simp only [CacheSystem.rangeEnd, Nat.mod_eq_of_lt hsum]
      omega

/-- They are what is requested. -/
theorem mem_cover_range (hfits : call.Fits) {b : Nat} : b ∈ cover call.range ↔ call.Requests b := by
  cases call with
  | beginBatch => simp [range, Call.Requests]
  | endBatch => simp [range, Call.Requests]
  | invalidate startAddress length =>
    have hsum := hfits startAddress length rfl
    have hrequests : (Call.invalidate startAddress length).Requests b ↔
        startAddress.toNat ≤ b ∧ b < startAddress.toNat + length.toNat ∧ b < 2 ^ 32 := by
      constructor
      · rintro ⟨_, _, h, hb⟩
        cases h
        exact hb
      · exact fun hb => ⟨_, _, rfl, hb⟩
    rw [hrequests, range]
    split_ifs with hlength
    · have hzero : length.toNat = 0 := by rw [hlength]; rfl
      simp only [cover_nil, Finset.notMem_empty, false_iff]
      omega
    · simp only [cover_cons, cover_nil, Finset.union_empty, mem_toFinset, CacheSystem.rangeEnd,
        Nat.mod_eq_of_lt hsum]
      omega

theorem deliver_frame (s : CacheSystem Cpu) (ranges : List Interval) :
    (s.deliver ranges).batchDepth = s.batchDepth ∧ ∀ cpu,
      (s.deliver ranges).invalidated cpu = s.invalidated cpu ++
        ranges.map fun r => (r.lower % 2 ^ 32, (r.upper + 2 ^ 64 - r.lower) % 2 ^ 64) := by
  induction ranges generalizing s with
  | nil => simp [CacheSystem.deliver]
  | cons r ranges ih =>
    obtain ⟨hdepth, hcores⟩ :=
      ih (s.tellCores (r.lower % 2 ^ 32) ((r.upper + 2 ^ 64 - r.lower) % 2 ^ 64))
    refine ⟨hdepth, fun cpu => (hcores cpu).trans ?_⟩
    simp [CacheSystem.tellCores]

/-- Blocks of the address space are told to the cores as they are. -/
theorem map_toInterval_deliver {ranges : List Interval}
    (h : ∀ r ∈ ranges, r.lower < r.upper ∧ r.upper ≤ 2 ^ 32) :
    (ranges.map fun r => (r.lower % 2 ^ 32, (r.upper + 2 ^ 64 - r.lower) % 2 ^ 64)).map toInterval =
      ranges := by
  rw [List.map_map]
  refine (List.map_congr_left fun r hr => ?_).trans (List.map_id ranges)
  obtain ⟨hne, hle⟩ := h r hr
  have hlower : r.lower % 2 ^ 32 = r.lower := Nat.mod_eq_of_lt (by omega)
  have hlength : r.lower + (r.upper + 2 ^ 64 - r.lower) % 2 ^ 64 = r.upper := by omega
  simp only [Function.comp, toInterval, hlower, hlength, id]

/-- An outermost batch: nothing is left, and the cores are told what was requested in it. -/
theorem run_batch (s : CacheSystem Cpu) {calls : List Call} (hdepth : s.batchDepth = 0)
    (hpending : s.pending = []) (hnested : Nested calls) (hfits : ∀ call ∈ calls, call.Fits) :
    ∃ s', run s (.beginBatch :: calls ++ [.endBatch]) = some s' ∧ s'.batchDepth = 0 ∧
      s'.pending = [] ∧ ∃ told, (∀ cpu, s'.invalidated cpu = s.invalidated cpu ++ told) ∧
        Normal (told.map toInterval) ∧
        ∀ b, b ∈ cover (told.map toInterval) ↔ ∃ call ∈ calls, call.Requests b := by
  have hranges : ∀ i ∈ calls.flatMap range, i.lower < i.upper ∧ i.upper ≤ 2 ^ 32 := by
    intro i hi
    obtain ⟨call, hcall, hi⟩ := List.mem_flatMap.mp hi
    exact range_nonempty (hfits call hcall) i hi
  have hrequests : ∀ b, b ∈ cover (calls.flatMap range) ↔ ∃ call ∈ calls, call.Requests b := by
    intro b
    rw [mem_cover]
    constructor
    · rintro ⟨i, hi, hb⟩
      obtain ⟨call, hcall, hi⟩ := List.mem_flatMap.mp hi
      exact ⟨call, hcall, (mem_cover_range (hfits call hcall)).mp (mem_cover.mpr ⟨i, hi, hb⟩)⟩
    · rintro ⟨call, hcall, hb⟩
      obtain ⟨i, hi, hb⟩ := mem_cover.mp ((mem_cover_range (hfits call hcall)).mpr hb)
      exact ⟨i, List.mem_flatMap.mpr ⟨call, hcall, hi⟩, hb⟩
  have hinside := hnested.run_inside (s := s.beginCacheInvalidationBatch) (Nat.succ_ne_zero _)
  rw [List.cons_append, run_cons, step, Option.bind_some, run_append, hinside,
    Option.bind_some, run_cons]
  simp only [step, CacheSystem.endCacheInvalidationBatch,
    CacheSystem.beginCacheInvalidationBatch, hdepth, hpending, List.nil_append]
  cases hsort : (calls.flatMap range).mergeSort le with
  | nil =>
    have hperm := List.mergeSort_perm (calls.flatMap range) le
    rw [hsort] at hperm
    have hnone : calls.flatMap range = [] := List.nil_perm.mp hperm
    refine ⟨_, rfl, rfl, hnone, [], fun cpu => (List.append_nil _).symm, Normal.nil, fun b => ?_⟩
    rw [← hrequests, hnone]
    rfl
  | cons first ranges =>
    have hascending := ascending_mergeSort fun i hi => (hranges i hi).1
    have hcover := cover_mergeSort (calls.flatMap range)
    rw [hsort] at hascending hcover
    rw [← cover_merge hascending] at hcover
    have hnormal := normal_merge hascending
    -- a block ends in the address space as its last byte was requested
    have hblocks : ∀ r ∈ merge first ranges, r.lower < r.upper ∧ r.upper ≤ 2 ^ 32 := by
      intro r hr
      have hne := hnormal.nonempty r hr
      have hlast : r.upper - 1 ∈ cover (merge first ranges) := mem_cover.mpr ⟨r, hr, by omega⟩
      rw [hcover, hrequests] at hlast
      obtain ⟨_, _, _, _, _, _, _, hlt⟩ := hlast
      exact ⟨hne, by omega⟩
    refine ⟨_, rfl, ?_, rfl, _, fun cpu => (deliver_frame _ _).2 cpu, ?_, fun b => ?_⟩
    · exact (deliver_frame _ _).1
    · rw [map_toInterval_deliver hblocks]
      exact hnormal
    · rw [map_toInterval_deliver hblocks, hcover, hrequests]

end GbaStation.Core.Invalidation
