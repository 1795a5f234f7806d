import Mathlib.Data.List.Basic
import Mathlib.Data.List.FinRange
import Mathlib.Data.List.GetD

/-!
# Assembly of primitives (`video_core/pica/primitive_assembly.cpp`)

`PrimitiveAssembler` makes triangles of a stream of vertices, with a buffer for two of them and three
flags.

- `assembles`: the triangles that are handed out are those of the segments, and the assembler is
  empty when no vertex of its segment is a corner of a triangle to come.
-/

namespace GbaStation.Pica

/-- `PipelineRegs::TriangleTopology`. -/
inductive TriangleTopology where
  | list | strip | fan | shader
deriving DecidableEq, Repr

variable {V : Type*}

structure PrimitiveAssembler (V : Type*) where
  topology : TriangleTopology
  bufferIndex : Nat := 0
  buffer : Nat → V
  stripReady : Bool := false
  winding : Bool := false

/-- The arguments of a `TriangleHandler`. -/
structure Triangle (V : Type*) where
  v0 : V
  v1 : V
  v2 : V
deriving DecidableEq, Repr

namespace PrimitiveAssembler

variable (s : PrimitiveAssembler V)

/-- A vertex is put into the buffer. -/
def store (index : Nat) (vtx : V) : Nat → V := fun i => if i = index then vtx else s.buffer i

/-- `SubmitVertex`: the assembler, and the triangles that are handed out. -/
def submitVertex (vtx : V) : PrimitiveAssembler V × List (Triangle V) :=
  match s.topology with
  | .list | .shader =>
    if s.bufferIndex < 2 then
      ({ s with buffer := s.store s.bufferIndex vtx, bufferIndex := s.bufferIndex + 1 }, [])
    else if s.topology = .shader ∧ s.winding = true then
      ({ s with bufferIndex := 0, winding := false }, [⟨s.buffer 1, s.buffer 0, vtx⟩])
    else ({ s with bufferIndex := 0 }, [⟨s.buffer 0, s.buffer 1, vtx⟩])
  | .strip =>
    ({ s with
        buffer := s.store s.bufferIndex vtx
        stripReady := s.stripReady || s.bufferIndex == 1
        bufferIndex := if s.bufferIndex = 0 then 1 else 0 },
      if s.stripReady then [⟨s.buffer 0, s.buffer 1, vtx⟩] else [])
  | .fan =>
    ({ s with
        buffer := s.store s.bufferIndex vtx
        stripReady := s.stripReady || s.bufferIndex == 1
        bufferIndex := 1 },
      if s.stripReady then [⟨s.buffer 0, s.buffer 1, vtx⟩] else [])

def setWinding : PrimitiveAssembler V := { s with winding := true }

def reset : PrimitiveAssembler V := { s with bufferIndex := 0, stripReady := false, winding := false }

def reconfigure (topology : TriangleTopology) : PrimitiveAssembler V := { s.reset with topology }

def isEmpty : Bool := s.bufferIndex == 0 && !s.stripReady

/-- A call of a method. -/
inductive Call (V : Type*) where
  | submitVertex (vtx : V)
  | setWinding
  | reset
  | reconfigure (topology : TriangleTopology)
deriving DecidableEq, Repr

def call : Call V → PrimitiveAssembler V × List (Triangle V)
  | .submitVertex vtx => s.submitVertex vtx
  | .setWinding => (s.setWinding, [])
  | .reset => (s.reset, [])
  | .reconfigure topology => (s.reconfigure topology, [])

/-- Calls one after the other, and all triangles that are handed out. -/
def run (s : PrimitiveAssembler V) : List (Call V) → PrimitiveAssembler V × List (Triangle V)
  | [] => (s, [])
  | c :: calls =>
    let (s', triangles) := s.call c
    let (s'', triangles') := run s' calls
    (s'', triangles ++ triangles')

end PrimitiveAssembler

open PrimitiveAssembler (submitVertex store isEmpty run)

/-! ## Segments -/

/-- What was submitted since a reset: the vertices, and for each winding that was set the number of
vertices before it. -/
structure Segment (V : Type*) where
  topology : TriangleTopology
  vertices : List V := []
  windings : List Nat := []

/-- A triple of the topology `Shader` is swapped if a winding was set before its last vertex, and
since the triple that was swapped before. -/
def swapped (windings : List Nat) (k : Nat) : Bool :=
  windings.any fun place => decide (place ≤ 3 * k + 2) &&
    (List.finRange k).all fun j => !swapped windings j || decide (3 * j.val + 3 ≤ place)
termination_by k
decreasing_by exact j.isLt

/-- The vertices of the triangle with a number. -/
def corners (topology : TriangleTopology) (windings : List Nat) (k : Nat) : Triangle Nat :=
  match topology with
  | .list => ⟨3 * k, 3 * k + 1, 3 * k + 2⟩
  | .shader =>
    if swapped windings k then ⟨3 * k + 1, 3 * k, 3 * k + 2⟩ else ⟨3 * k, 3 * k + 1, 3 * k + 2⟩
  | .strip => if k % 2 = 0 then ⟨k, k + 1, k + 2⟩ else ⟨k + 1, k, k + 2⟩
  | .fan => ⟨0, k + 1, k + 2⟩

/-- How many triangles so many vertices have. -/
def triangleCount (topology : TriangleTopology) (vertices : Nat) : Nat :=
  match topology with
  | .list | .shader => vertices / 3
  | .strip | .fan => vertices - 2

theorem swapped_iff {windings : List Nat} {k : Nat} : swapped windings k = true ↔
    ∃ place ∈ windings, place ≤ 3 * k + 2 ∧
      ∀ j < k, swapped windings j = true → 3 * j + 3 ≤ place := by
  rw [swapped, List.any_eq_true]
  constructor
  · rintro ⟨place, hmem, hplace⟩
    rw [Bool.and_eq_true, List.all_eq_true, decide_eq_true_eq] at hplace
    refine ⟨place, hmem, hplace.1, fun j hj hswapped => ?_⟩
    have hlast := hplace.2 ⟨j, hj⟩ (List.mem_finRange _)
    simpa [hswapped] using hlast
  · rintro ⟨place, hmem, hle, hlast⟩
    refine ⟨place, hmem, ?_⟩
    rw [Bool.and_eq_true, List.all_eq_true, decide_eq_true_eq]
    refine ⟨hle, fun j _ => ?_⟩
    cases hswapped : swapped windings j with
    | false => rfl
    | true => simpa using hlast j j.isLt hswapped

/-- A winding that is set behind a triple does not change it. -/
theorem swapped_append {windings : List Nat} {place k : Nat} (h : 3 * k + 3 ≤ place) :
    swapped (windings ++ [place]) k = swapped windings k := by
  induction k using Nat.strongRecOn with
  | _ k ih =>
    rw [Bool.eq_iff_iff, swapped_iff, swapped_iff]
    constructor
    · rintro ⟨other, hmem, hle, hlast⟩
      rcases List.mem_append.mp hmem with hmem | hmem
      · exact ⟨other, hmem, hle, fun j hj hswapped => hlast j hj (by rwa [ih j hj (by omega)])⟩
      · rw [List.mem_singleton.mp hmem] at hle
        omega
    · rintro ⟨other, hmem, hle, hlast⟩
      exact ⟨other, List.mem_append_left _ hmem, hle, fun j hj hswapped =>
        hlast j hj (by rwa [ih j hj (by omega)] at hswapped)⟩

namespace Segment

variable [Inhabited V] (segment : Segment V)

def vertex (i : Nat) : V := segment.vertices.getD i default

/-- A vertex is submitted. -/
def submit (vtx : V) : Segment V := { segment with vertices := segment.vertices ++ [vtx] }

/-- A winding is set. -/
def wind : Segment V := { segment with windings := segment.windings ++ [segment.vertices.length] }

/-- The triangle with a number. -/
def triangle (k : Nat) : Triangle V :=
  let corner := corners segment.topology segment.windings k
  ⟨segment.vertex corner.v0, segment.vertex corner.v1, segment.vertex corner.v2⟩

/-- The triangles of the segment. -/
def triangles : List (Triangle V) :=
  (List.range (triangleCount segment.topology segment.vertices.length)).map segment.triangle

/-- A vertex that was submitted is a corner of a triangle that is yet to come, for some vertices and
windings that are yet to come. -/
def Contributes : Prop := ∃ (later : Nat) (windings : List Nat) (k : Nat),
  triangleCount segment.topology segment.vertices.length ≤ k ∧
    k < triangleCount segment.topology (segment.vertices.length + later) ∧
    let corner := corners segment.topology (segment.windings ++ windings) k
    min corner.v0 (min corner.v1 corner.v2) < segment.vertices.length

variable {segment} {vtx : V} {i k : Nat}

theorem vertex_submit_of_lt (h : i < segment.vertices.length) :
    (segment.submit vtx).vertex i = segment.vertex i := by
  rw [vertex, vertex, submit, List.getD_append _ _ _ _ h]

@[simp] theorem vertex_submit_length : (segment.submit vtx).vertex segment.vertices.length = vtx := by
  rw [vertex, submit, List.getD_append_right _ _ _ _ (Nat.le_refl _), Nat.sub_self]
  rfl

omit [Inhabited V] in
@[simp] theorem length_submit :
    (segment.submit vtx).vertices.length = segment.vertices.length + 1 := List.length_append

/-- The corners of a triangle have been submitted. -/
theorem corners_lt {topology : TriangleTopology} {windings : List Nat} {vertices : Nat}
    (hk : k < triangleCount topology vertices) :
    (corners topology windings k).v0 < vertices ∧ (corners topology windings k).v1 < vertices ∧
      (corners topology windings k).v2 < vertices := by
  cases topology with
  | list =>
    have hlt : k < vertices / 3 := hk
    refine ⟨?_, ?_, ?_⟩ <;> dsimp only [corners] <;> omega
  | shader =>
    have hlt : k < vertices / 3 := hk
    unfold corners
    dsimp only
    split <;> refine ⟨?_, ?_, ?_⟩ <;> dsimp only <;> omega
  | strip =>
    have hlt : k < vertices - 2 := hk
    unfold corners
    dsimp only
    split <;> refine ⟨?_, ?_, ?_⟩ <;> dsimp only <;> omega
  | fan =>
    have hlt : k < vertices - 2 := hk
    refine ⟨?_, ?_, ?_⟩ <;> dsimp only [corners] <;> omega

theorem triangle_submit (hk : k < triangleCount segment.topology segment.vertices.length) :
    (segment.submit vtx).triangle k = segment.triangle k := by
  obtain ⟨h0, h1, h2⟩ := (@corners_lt _ _ segment.windings) hk
  unfold triangle
  exact congr (congr (congrArg Triangle.mk (vertex_submit_of_lt h0)) (vertex_submit_of_lt h1))
    (vertex_submit_of_lt h2)

theorem triangles_submit_of_eq
    (hcount : triangleCount segment.topology (segment.vertices.length + 1) =
      triangleCount segment.topology segment.vertices.length) :
    (segment.submit vtx).triangles = segment.triangles := by
  rw [triangles, triangles, length_submit]
  show (List.range (triangleCount segment.topology _)).map _ = _
  rw [hcount]
  exact List.map_congr_left fun k hk => triangle_submit (List.mem_range.mp hk)

theorem triangles_submit_of_succ
    (hcount : triangleCount segment.topology (segment.vertices.length + 1) =
      triangleCount segment.topology segment.vertices.length + 1) :
    (segment.submit vtx).triangles = segment.triangles ++
      [(segment.submit vtx).triangle (triangleCount segment.topology segment.vertices.length)] := by
  rw [triangles, triangles, length_submit]
  show (List.range (triangleCount segment.topology _)).map _ = _
  rw [hcount, List.range_succ, List.map_append]
  congr 1
  exact List.map_congr_left fun k hk => triangle_submit (List.mem_range.mp hk)

/-- A winding changes no triangle that has been handed out. -/
theorem triangles_wind : segment.wind.triangles = segment.triangles := by
  refine List.map_congr_left fun k hk => ?_
  have hlt := List.mem_range.mp hk
  have hcorners : corners segment.topology (segment.windings ++ [segment.vertices.length]) k =
      corners segment.topology segment.windings k := by
    unfold corners
    cases htopology : segment.topology with
    | shader =>
      have hcount : k < segment.vertices.length / 3 := by
        rw [wind, htopology] at hlt
        exact hlt
      rw [swapped_append (by omega)]
    | _ => rfl
  unfold triangle
  rw [wind, hcorners]
  rfl

end Segment

/-! ## The buffer and the flags -/

/-- What an assembler is after the calls of a segment. -/
structure Holds [Inhabited V] (s : PrimitiveAssembler V) (segment : Segment V) : Prop where
  topology : s.topology = segment.topology
  places : ∀ place ∈ segment.windings, place ≤ segment.vertices.length
  triples : segment.topology = .list ∨ segment.topology = .shader →
    s.bufferIndex = segment.vertices.length % 3 ∧ s.stripReady = false ∧
      ∀ i < segment.vertices.length % 3,
        s.buffer i = segment.vertex (3 * (segment.vertices.length / 3) + i)
  winding : segment.topology = .shader → (s.winding = true ↔ ∃ place ∈ segment.windings,
    ∀ j < segment.vertices.length / 3, swapped segment.windings j = true → 3 * j + 3 ≤ place)
  strip : segment.topology = .strip → s.bufferIndex = segment.vertices.length % 2 ∧
    s.stripReady = decide (2 ≤ segment.vertices.length) ∧
    ∀ i < segment.vertices.length, segment.vertices.length ≤ i + 2 →
      s.buffer (i % 2) = segment.vertex i
  fan : segment.topology = .fan → s.bufferIndex = min segment.vertices.length 1 ∧
    s.stripReady = decide (2 ≤ segment.vertices.length) ∧
    ∀ i < segment.vertices.length, i = 0 ∨ i + 1 = segment.vertices.length →
      s.buffer (min i 1) = segment.vertex i

namespace Holds

open Pica.Segment (length_submit vertex_submit_of_lt vertex_submit_length)

variable [Inhabited V] {s : PrimitiveAssembler V} {segment : Segment V} {vtx : V}

/-- A segment that begins. -/
theorem begin {topology : TriangleTopology} (htopology : s.topology = topology)
    (hindex : s.bufferIndex = 0) (hready : s.stripReady = false) (hwinding : s.winding = false) :
    Holds s ⟨topology, [], []⟩ where
  topology := htopology
  places := fun place hplace => absurd hplace List.not_mem_nil
  triples := fun _ => ⟨hindex, hready, fun i hi => absurd hi (Nat.not_lt_zero i)⟩
  winding := fun _ => by simp [hwinding]
  strip := fun _ => ⟨hindex, hready, fun i hi => absurd hi (Nat.not_lt_zero i)⟩
  fan := fun _ => ⟨hindex, hready, fun i hi => absurd hi (Nat.not_lt_zero i)⟩

theorem setWinding (h : Holds s segment) : Holds s.setWinding segment.wind where
  topology := h.topology
  places := fun place hplace => by
    rcases List.mem_append.mp hplace with hmem | hmem
    · exact h.places place hmem
    · exact Nat.le_of_eq (List.mem_singleton.mp hmem)
  triples := h.triples
  winding := fun _ => by
    refine ⟨fun _ => ⟨segment.vertices.length, List.mem_append_right _ List.mem_cons_self, ?_⟩,
      fun _ => rfl⟩
    intro j hj _
    have hlast : j < segment.vertices.length / 3 := hj
    omega
  strip := h.strip
  fan := h.fan

theorem places_submit (h : Holds s segment) :
    ∀ place ∈ (segment.submit vtx).windings, place ≤ (segment.submit vtx).vertices.length := by
  rw [length_submit]
  exact fun place hplace => Nat.le_succ_of_le (h.places place hplace)

/-- Three vertices that follow each other. -/
theorem submitVertex_triples (h : Holds s segment)
    (htopology : segment.topology = .list ∨ segment.topology = .shader) :
    Holds (s.submitVertex vtx).1 (segment.submit vtx) ∧
      (segment.submit vtx).triangles = segment.triangles ++ (s.submitVertex vtx).2 := by
  obtain ⟨hindex, hready, hbuffer⟩ := h.triples htopology
  have hstep : s.submitVertex vtx = if s.bufferIndex < 2 then
      ({ s with buffer := s.store s.bufferIndex vtx, bufferIndex := s.bufferIndex + 1 }, [])
    else if s.topology = .shader ∧ s.winding = true then
      ({ s with bufferIndex := 0, winding := false }, [⟨s.buffer 1, s.buffer 0, vtx⟩])
    else ({ s with bufferIndex := 0 }, [⟨s.buffer 0, s.buffer 1, vtx⟩]) := by
    unfold submitVertex
    rcases htopology with heq | heq <;> rw [h.topology, heq]
  have hne : segment.topology ≠ .strip ∧ segment.topology ≠ .fan := by
    rcases htopology with heq | heq <;> rw [heq] <;> exact ⟨by decide, by decide⟩
  have hcount (n : Nat) : triangleCount segment.topology n = n / 3 := by
    rcases htopology with heq | heq <;> rw [heq] <;> rfl
  rw [hstep]
  rcases Nat.lt_or_ge s.bufferIndex 2 with hlt | hge
  · -- the vertex goes to the buffer
    have hmod : (segment.vertices.length + 1) % 3 = segment.vertices.length % 3 + 1 := by omega
    have hdiv : (segment.vertices.length + 1) / 3 = segment.vertices.length / 3 := by omega
    rw [if_pos hlt]
    refine ⟨⟨h.topology, h.places_submit, fun _ => ⟨?_, hready, fun i hi => ?_⟩, fun heq => ?_,
      fun heq => absurd heq hne.1, fun heq => absurd heq hne.2⟩, ?_⟩
    · rw [length_submit, hmod, ← hindex]
    · rw [length_submit] at hi ⊢
      rw [hdiv]
      rw [hmod] at hi
      dsimp only [store]
      rcases Nat.lt_or_eq_of_le (Nat.le_of_lt_succ hi) with hbefore | hlast
      · rw [if_neg (by omega), hbuffer i hbefore, vertex_submit_of_lt (by omega)]
      · have hplace : 3 * (segment.vertices.length / 3) + i = segment.vertices.length := by omega
        rw [if_pos (by omega), hplace, vertex_submit_length]
    · rw [length_submit, hdiv]
      exact h.winding heq
    · rw [List.append_nil]
      exact Segment.triangles_submit_of_eq (by rw [hcount, hcount, hdiv])
  · -- the vertex is the last one of a triangle
    have hmod : (segment.vertices.length + 1) % 3 = 0 := by omega
    have hdiv : (segment.vertices.length + 1) / 3 = segment.vertices.length / 3 + 1 := by omega
    have hn : segment.vertices.length = 3 * (segment.vertices.length / 3) + 2 := by omega
    have hfirst := hbuffer 0 (by omega)
    have hsecond := hbuffer 1 (by omega)
    have hvertices (i : Nat) (hi : i < 2) :
        (segment.submit vtx).vertex (3 * (segment.vertices.length / 3) + i) =
          segment.vertex (3 * (segment.vertices.length / 3) + i) :=
      vertex_submit_of_lt (by omega)
    have hthird : (segment.submit vtx).vertex (3 * (segment.vertices.length / 3) + 2) = vtx := by
      rw [← hn, vertex_submit_length]
    have hmore := (@Segment.triangles_submit_of_succ _ _ segment vtx) (by rw [hcount, hcount, hdiv])
    have hswapped (heq : segment.topology = .shader) :
        swapped segment.windings (segment.vertices.length / 3) = s.winding := by
      rw [Bool.eq_iff_iff, swapped_iff, h.winding heq]
      constructor
      · rintro ⟨place, hmem, -, hlast⟩
        exact ⟨place, hmem, hlast⟩
      · rintro ⟨place, hmem, hlast⟩
        exact ⟨place, hmem, Nat.le_trans (h.places place hmem) (Nat.le_of_eq hn), hlast⟩
    -- whether it was swapped or not, no winding is left for the next triple
    have hnone (heq : segment.topology = .shader) : ¬∃ place ∈ segment.windings,
        ∀ j < segment.vertices.length / 3 + 1, swapped segment.windings j = true →
          3 * j + 3 ≤ place := by
      rintro ⟨place, hmem, hlast⟩
      have hset := (h.winding heq).mpr ⟨place, hmem, fun j hj => hlast j (Nat.lt_succ_of_lt hj)⟩
      have hle := hlast _ (Nat.lt_succ_self _) (by rw [hswapped heq, hset])
      have hplace := h.places place hmem
      omega
    have hholds (s' : PrimitiveAssembler V) (htopology' : s'.topology = segment.topology)
        (hindex' : s'.bufferIndex = 0) (hready' : s'.stripReady = false)
        (hwinding' : segment.topology = .shader → s'.winding = false) :
        Holds s' (segment.submit vtx) := by
      refine ⟨htopology', h.places_submit, fun _ => ⟨?_, hready', fun i hi => ?_⟩, fun heq => ?_,
        fun heq => absurd heq hne.1, fun heq => absurd heq hne.2⟩
      · rw [length_submit, hmod, hindex']
      · rw [length_submit, hmod] at hi
        exact absurd hi (Nat.not_lt_zero i)
      · rw [length_submit, hdiv, hwinding' heq]
        exact ⟨fun hfalse => Bool.noConfusion hfalse, fun hsome => absurd hsome (hnone heq)⟩
    rw [if_neg (Nat.not_lt.mpr hge), hmore, hcount]
    have htriangle : (segment.submit vtx).triangle (segment.vertices.length / 3) =
        if segment.topology = .shader ∧ s.winding = true then ⟨s.buffer 1, s.buffer 0, vtx⟩
        else ⟨s.buffer 0, s.buffer 1, vtx⟩ := by
      rw [hfirst, hsecond, ← hvertices 0 (by decide), ← hvertices 1 (by decide)]
      show (let corner := corners segment.topology segment.windings (segment.vertices.length / 3)
        (⟨(segment.submit vtx).vertex corner.v0, (segment.submit vtx).vertex corner.v1,
          (segment.submit vtx).vertex corner.v2⟩ : Triangle V)) = _
      rcases htopology with heq | heq
      · rw [heq, if_neg fun hcond => by cases hcond.1]
        simp only [corners, hthird, Nat.add_zero]
      · rw [heq]
        unfold corners
        simp only [hswapped heq, true_and]
        cases s.winding with
        | true => simp only [if_true, hthird, Nat.add_zero]
        | false => simp only [Bool.false_eq_true, if_false, hthird, Nat.add_zero]
    rw [htriangle, h.topology]
    split
    · exact ⟨hholds _ rfl rfl hready fun _ => rfl, rfl⟩
    · next hcond =>
      refine ⟨hholds _ rfl rfl hready fun hshader => ?_, rfl⟩
      exact Bool.eq_false_iff.mpr fun hset => hcond ⟨hshader, hset⟩

/-- A strip and a fan give a triangle for each vertex behind the second, of it and the two kept. -/
theorem triangles_overlapping (hcount : ∀ n, triangleCount segment.topology n = n - 2)
    (hready : s.stripReady = decide (2 ≤ segment.vertices.length))
    (htriangle : ∀ k, segment.vertices.length = 2 + k → (segment.submit vtx).vertex (k + 2) = vtx →
      (segment.submit vtx).triangle k = ⟨s.buffer 0, s.buffer 1, vtx⟩) :
    (segment.submit vtx).triangles =
      segment.triangles ++ if s.stripReady then [⟨s.buffer 0, s.buffer 1, vtx⟩] else [] := by
  rw [hready]
  rcases Nat.lt_or_ge segment.vertices.length 2 with hlt | hge
  · rw [decide_eq_false (Nat.not_le.mpr hlt), if_neg Bool.false_ne_true, List.append_nil]
    exact Segment.triangles_submit_of_eq (by rw [hcount, hcount]; omega)
  · obtain ⟨k, hk⟩ := Nat.exists_eq_add_of_le hge
    have hlast : (segment.submit vtx).vertex (k + 2) = vtx := by
      rw [Nat.add_comm, ← hk, vertex_submit_length]
    rw [decide_eq_true hge, if_pos rfl,
      Segment.triangles_submit_of_succ (by rw [hcount, hcount]; omega), hcount,
      show segment.vertices.length - 2 = k by omega, htriangle k hk hlast]

/-- A strip: each vertex takes the place of the oldest one. -/
theorem submitVertex_strip (h : Holds s segment) (htopology : segment.topology = .strip) :
    Holds (s.submitVertex vtx).1 (segment.submit vtx) ∧
      (segment.submit vtx).triangles = segment.triangles ++ (s.submitVertex vtx).2 := by
  obtain ⟨hindex, hready, hbuffer⟩ := h.strip htopology
  have hstep : s.submitVertex vtx = ({ s with
        buffer := s.store s.bufferIndex vtx
        stripReady := s.stripReady || s.bufferIndex == 1
        bufferIndex := if s.bufferIndex = 0 then 1 else 0 },
      if s.stripReady then [⟨s.buffer 0, s.buffer 1, vtx⟩] else []) := by
    unfold submitVertex
    rw [h.topology, htopology]
  rw [hstep]
  refine ⟨⟨h.topology, h.places_submit, fun hother => ?_, fun heq => ?_,
    fun _ => ⟨?_, ?_, fun i hi hi' => ?_⟩, fun heq => ?_⟩, ?_⟩
  · exact absurd (htopology ▸ hother : TriangleTopology.strip = .list ∨ _) (by decide)
  · exact absurd (htopology.symm.trans heq) (by decide)
  · rw [length_submit, hindex]
    dsimp only
    split <;> omega
  · rw [length_submit, hindex, hready]
    rw [Bool.eq_iff_iff]
    simp only [Bool.or_eq_true, decide_eq_true_eq, beq_iff_eq]
    omega
  · rw [length_submit] at hi hi'
    dsimp only [store]
    rw [hindex]
    rcases Nat.lt_or_eq_of_le (Nat.le_of_lt_succ hi) with hbefore | hlast
    · rw [if_neg (by omega), hbuffer i hbefore (by omega), vertex_submit_of_lt hbefore]
    · rw [if_pos (by rw [hlast]), hlast, vertex_submit_length]
  · exact absurd (htopology.symm.trans heq) (by decide)
  · refine triangles_overlapping (fun n => by rw [htopology]; rfl) hready fun k hk hlast => ?_
    have hfirst := hbuffer k (by omega) (by omega)
    have hsecond := hbuffer (k + 1) (by omega) (by omega)
    have hcorner (i : Nat) (hi : i < segment.vertices.length) :
        (segment.submit vtx).vertex i = segment.vertex i := vertex_submit_of_lt hi
    unfold Segment.triangle
    rw [show (segment.submit vtx).topology = .strip from htopology]
    unfold corners
    dsimp only
    -- which of the two vertices is at an even place
    rcases Nat.mod_two_eq_zero_or_one k with heven | hodd
    · have hnext : (k + 1) % 2 = 1 := by omega
      rw [heven] at hfirst
      rw [hnext] at hsecond
      rw [if_pos heven, hfirst, hsecond, hlast, hcorner k (by omega), hcorner (k + 1) (by omega)]
    · have hnext : (k + 1) % 2 = 0 := by omega
      rw [hodd] at hfirst
      rw [hnext] at hsecond
      rw [if_neg (by omega), hfirst, hsecond, hlast, hcorner k (by omega),
        hcorner (k + 1) (by omega)]

/-- A fan: the first vertex stays, and each vertex takes the place of the one before it. -/
theorem submitVertex_fan (h : Holds s segment) (htopology : segment.topology = .fan) :
    Holds (s.submitVertex vtx).1 (segment.submit vtx) ∧
      (segment.submit vtx).triangles = segment.triangles ++ (s.submitVertex vtx).2 := by
  obtain ⟨hindex, hready, hbuffer⟩ := h.fan htopology
  have hstep : s.submitVertex vtx = ({ s with
        buffer := s.store s.bufferIndex vtx
        stripReady := s.stripReady || s.bufferIndex == 1
        bufferIndex := 1 },
      if s.stripReady then [⟨s.buffer 0, s.buffer 1, vtx⟩] else []) := by
    unfold submitVertex
    rw [h.topology, htopology]
  rw [hstep]
  refine ⟨⟨h.topology, h.places_submit, fun hother => ?_, fun heq => ?_, fun heq => ?_,
    fun _ => ⟨?_, ?_, fun i hi hi' => ?_⟩⟩, ?_⟩
  · exact absurd (htopology ▸ hother : TriangleTopology.fan = .list ∨ _) (by decide)
  · exact absurd (htopology.symm.trans heq) (by decide)
  · exact absurd (htopology.symm.trans heq) (by decide)
  · rw [length_submit]
    dsimp only
    omega
  · rw [length_submit, hindex, hready]
    rw [Bool.eq_iff_iff]
    simp only [Bool.or_eq_true, decide_eq_true_eq, beq_iff_eq]
    omega
  · rw [length_submit] at hi hi'
    dsimp only [store]
    rw [hindex]
    rcases Nat.lt_or_eq_of_le (Nat.le_of_lt_succ hi) with hbefore | hlast
    · have hzero : i = 0 := by omega
      rw [if_neg (by omega), hbuffer i hbefore (.inl hzero), vertex_submit_of_lt hbefore]
    · rw [if_pos (by rw [hlast]), hlast, vertex_submit_length]
  · refine triangles_overlapping (fun n => by rw [htopology]; rfl) hready fun k hk hlast => ?_
    have hfirst : s.buffer 0 = segment.vertex 0 := hbuffer 0 (by omega) (.inl rfl)
    have hsecond : s.buffer 1 = segment.vertex (k + 1) := by
      have hkept := hbuffer (k + 1) (by omega) (.inr (by omega))
      rwa [Nat.min_eq_right (Nat.le_add_left 1 k)] at hkept
    unfold Segment.triangle
    rw [show (segment.submit vtx).topology = .fan from htopology]
    unfold corners
    dsimp only
    rw [hfirst, hsecond, hlast, vertex_submit_of_lt (by omega), vertex_submit_of_lt (by omega)]

theorem submitVertex (h : Holds s segment) : Holds (s.submitVertex vtx).1 (segment.submit vtx) ∧
    (segment.submit vtx).triangles = segment.triangles ++ (s.submitVertex vtx).2 := by
  cases htopology : segment.topology with
  | list => exact h.submitVertex_triples (.inl htopology)
  | shader => exact h.submitVertex_triples (.inr htopology)
  | strip => exact h.submitVertex_strip htopology
  | fan => exact h.submitVertex_fan htopology

theorem isEmpty_of_triples (h : Holds s segment)
    (htopology : segment.topology = .list ∨ segment.topology = .shader) :
    s.isEmpty = true ↔ ¬segment.Contributes := by
  obtain ⟨hindex, hready, -⟩ := h.triples htopology
  have hcount (n : Nat) : triangleCount segment.topology n = n / 3 := by
    rcases htopology with heq | heq <;> rw [heq] <;> rfl
  have hlowest (windings : List Nat) (k : Nat) :
      min (corners segment.topology windings k).v0 (min (corners segment.topology windings k).v1
        (corners segment.topology windings k).v2) = 3 * k := by
    rcases htopology with heq | heq <;> rw [heq] <;> unfold corners <;> dsimp only
    · omega
    · split <;> dsimp only <;> omega
  rw [isEmpty, hindex, hready, Bool.not_false, Bool.and_true, beq_iff_eq]
  unfold Segment.Contributes
  simp only [hcount, hlowest]
  constructor
  · rintro hzero ⟨later, windings, k, hle, hlt, hcorner⟩
    omega
  · intro hnone
    by_contra hrest
    exact hnone ⟨3, [], segment.vertices.length / 3, Nat.le_refl _, by omega, by omega⟩

theorem isEmpty_of_overlapping (h : Holds s segment)
    (htopology : segment.topology = .strip ∨ segment.topology = .fan) :
    s.isEmpty = true ↔ ¬segment.Contributes := by
  have hcount (n : Nat) : triangleCount segment.topology n = n - 2 := by
    rcases htopology with heq | heq <;> rw [heq] <;> rfl
  have hlowest (windings : List Nat) (k : Nat) :
      min (corners segment.topology windings k).v0 (min (corners segment.topology windings k).v1
        (corners segment.topology windings k).v2) ≤ k := by
    rcases htopology with heq | heq <;> rw [heq] <;> unfold corners <;> dsimp only
    · split <;> dsimp only <;> omega
    · omega
  have hempty : s.isEmpty = true ↔ segment.vertices.length = 0 := by
    rcases htopology with heq | heq
    · obtain ⟨hindex, hready, -⟩ := h.strip heq
      rw [isEmpty, hindex, hready]
      simp only [Bool.and_eq_true, beq_iff_eq, Bool.not_eq_true', decide_eq_false_iff_not]
      omega
    · obtain ⟨hindex, hready, -⟩ := h.fan heq
      rw [isEmpty, hindex, hready]
      simp only [Bool.and_eq_true, beq_iff_eq, Bool.not_eq_true', decide_eq_false_iff_not]
      omega
  rw [hempty]
  unfold Segment.Contributes
  simp only [hcount]
  constructor
  · rintro hzero ⟨later, windings, k, hle, hlt, hcorner⟩
    omega
  · intro hnone
    by_contra hrest
    -- the next triangle has a corner among the last two vertices, or is the fan's of the first one
    have hcorner := hlowest (segment.windings ++ []) (segment.vertices.length - 2)
    exact hnone ⟨2, [], segment.vertices.length - 2, Nat.le_refl _, by omega, by omega⟩

/-- The assembler is empty if no vertex of the segment is a corner of a triangle to come. -/
theorem isEmpty_iff (h : Holds s segment) : s.isEmpty = true ↔ ¬segment.Contributes := by
  cases htopology : segment.topology with
  | list => exact h.isEmpty_of_triples (.inl htopology)
  | shader => exact h.isEmpty_of_triples (.inr htopology)
  | strip => exact h.isEmpty_of_overlapping (.inl htopology)
  | fan => exact h.isEmpty_of_overlapping (.inr htopology)

end Holds

/-! ## Runs -/

namespace Segment

variable [Inhabited V]

theorem triangles_begin (topology : TriangleTopology) :
    (⟨topology, [], []⟩ : Segment V).triangles = [] := by
  have hcount : triangleCount topology 0 = 0 := by cases topology <;> decide
  show (List.range (triangleCount topology 0)).map _ = []
  rw [hcount]
  rfl

/-- The triangles of a segment that goes on with calls, and of those behind it. -/
def expected (segment : Segment V) : List (PrimitiveAssembler.Call V) → List (Triangle V)
  | [] => segment.triangles
  | .submitVertex vtx :: calls => (segment.submit vtx).expected calls
  | .setWinding :: calls => segment.wind.expected calls
  | .reset :: calls => segment.triangles ++ expected ⟨segment.topology, [], []⟩ calls
  | .reconfigure topology :: calls => segment.triangles ++ expected ⟨topology, [], []⟩ calls

omit [Inhabited V] in
/-- The segment that calls leave. -/
def after (segment : Segment V) : List (PrimitiveAssembler.Call V) → Segment V
  | [] => segment
  | .submitVertex vtx :: calls => (segment.submit vtx).after calls
  | .setWinding :: calls => segment.wind.after calls
  | .reset :: calls => after ⟨segment.topology, [], []⟩ calls
  | .reconfigure topology :: calls => after ⟨topology, [], []⟩ calls

end Segment

/-- A run keeps the assembler and its segment together, and hands out what is missing. -/
theorem Holds.run [Inhabited V] {s : PrimitiveAssembler V} {segment : Segment V}
    (h : Holds s segment) (calls : List (PrimitiveAssembler.Call V)) :
    Holds (s.run calls).1 (segment.after calls) ∧
      segment.triangles ++ (s.run calls).2 = segment.expected calls := by
  induction calls generalizing s segment with
  | nil => exact ⟨h, List.append_nil _⟩
  | cons c calls ih =>
    cases c with
    | submitVertex vtx =>
      obtain ⟨hnext, htriangles⟩ := (@Holds.submitVertex _ _ _ _ vtx) h
      obtain ⟨hafter, hmore⟩ := ih hnext
      refine ⟨hafter, ?_⟩
      rw [Segment.expected, ← hmore, htriangles, List.append_assoc]
      rfl
    | setWinding =>
      obtain ⟨hafter, hmore⟩ := ih h.setWinding
      refine ⟨hafter, ?_⟩
      rw [Segment.expected, ← hmore, Segment.triangles_wind]
      rfl
    | reset =>
      obtain ⟨hafter, hmore⟩ := ih (Holds.begin (s := s.reset) h.topology rfl rfl rfl)
      rw [Segment.triangles_begin, List.nil_append] at hmore
      refine ⟨hafter, ?_⟩
      rw [Segment.expected, ← hmore]
      rfl
    | reconfigure topology =>
      obtain ⟨hafter, hmore⟩ :=
        ih ((@Holds.begin _ _ (s.reconfigure topology) topology) rfl rfl rfl rfl)
      rw [Segment.triangles_begin, List.nil_append] at hmore
      refine ⟨hafter, ?_⟩
      rw [Segment.expected, ← hmore]
      rfl

/-- The triangles of every run are those of its segments, and the assembler is empty when nothing of
the last segment is needed any more. -/
theorem assembles [Inhabited V] (topology : TriangleTopology) (buffer : Nat → V)
    (calls : List (PrimitiveAssembler.Call V)) :
    (run { topology, buffer } calls).2 =
        Segment.expected ⟨topology, [], []⟩ calls ∧
      ((run { topology, buffer } calls).1.isEmpty = true ↔
        ¬(Segment.after ⟨topology, [], []⟩ calls).Contributes) := by
  have hbegin : Holds (⟨topology, 0, buffer, false, false⟩ : PrimitiveAssembler V)
      ⟨topology, [], []⟩ := Holds.begin rfl rfl rfl rfl
  obtain ⟨hholds, htriangles⟩ := hbegin.run calls
  rw [Segment.triangles_begin, List.nil_append] at htriangles
  exact ⟨htriangles, hholds.isEmpty_iff⟩

example : (run ⟨.strip, 0, fun _ => 0, false, false⟩
    [.submitVertex 10, .submitVertex 11, .submitVertex 12, .submitVertex 13]).2 =
      [⟨10, 11, 12⟩, ⟨12, 11, 13⟩] := rfl

end GbaStation.Pica
