import Mathlib.Algebra.GroupWithZero.Nat
import Mathlib.Data.List.Basic
import Mathlib.Data.List.Induction

/-!
# Input of the geometry shader (`video_core/pica/geometry_pipeline.cpp`)

The attributes of vertices are gathered until there are enough of them for the geometry shader: in an
attribute buffer (`Point`), or in the float uniforms (`VariablePrimitive`, `FixedPrimitive`), where an
index says first how many vertices follow, or the number is fixed.

- `gathers_iff`: the pipeline does what is expected if and only if everything fits into the uniforms,
  and no primitive without vertices is announced.
-/

namespace GbaStation.Pica

open List (length_append length_singleton length_nil)

variable {A : Type*}

/-- Why the pipeline stops: a write outside of an array. -/
inductive PipelineFault where
  | outside
deriving DecidableEq, Repr

/-- The registers that configure the geometry pipeline. -/
structure GeometryRegs where
  useGs : Fin 4
  variablePrimitive : Fin 2
  vsOutmapTotalMinus1A : Fin 16
  vsOutmapTotalMinus1B : Fin 16
  mode : Fin 256
  fixedVertexNumMinus1 : Fin 16
  strideMinus1 : Fin 16
  startIndex : Fin 256
  variableVertexMainNumMinus1 : UInt32
  maxInputAttributeIndex : Fin 16
  inputToUniform : Fin 256
  shaderMode : Fin 256
  inputAttributeToRegisterMapLow : UInt32
  inputAttributeToRegisterMapHigh : UInt32
deriving DecidableEq, Repr

/-! Numerals of the fields. -/

local instance neZero2 : NeZero 2 := ⟨by decide⟩

local instance neZero4 : NeZero 4 := ⟨by decide⟩

local instance neZero16 : NeZero 16 := ⟨by decide⟩

local instance neZero256 : NeZero 256 := ⟨by decide⟩

namespace GeometryRegs

variable (regs : GeometryRegs)

/-- The attributes of a vertex shader output. -/
def vsOutputNum : Nat := regs.vsOutmapTotalMinus1A + 1

/-- The attributes of a geometry shader input. -/
def gsInputNum : Nat := regs.maxInputAttributeIndex + 1

def vertexNum : Nat := regs.fixedVertexNumMinus1 + 1

/-- `main_vertex_num`, as a value of `u32`. -/
def mainVertexNum : Nat := (regs.variableVertexMainNumMinus1 + 1).toNat

/-- `GetRegisterForAttribute`. -/
def getRegisterForAttribute (attr : Nat) : Nat :=
  (regs.inputAttributeToRegisterMapHigh.toNat * 2 ^ 32 +
    regs.inputAttributeToRegisterMapLow.toNat) / 2 ^ (4 * attr) % 16

end GeometryRegs

/-! ## Backends -/

/-- Values over those of an array, from an index on. -/
def overwrite (array : Nat → A) (start : Nat) (values : List A) : Nat → A := fun i =>
  if start ≤ i then values[i - start]?.getD (array i) else array i

/-- `std::copy` into an array. -/
def copyInto (size : Nat) (array : Nat → A) (start : Nat) (values : List A) :
    Except PipelineFault (Nat → A) :=
  if start + values.length ≤ size then .ok (overwrite array start values) else .error .outside

/-- The first attributes of a vertex. -/
def firstAttributes (count : Nat) (vtx : Nat → A) : List A := (List.range count).map vtx

/-- The float uniforms of the geometry shader, and the input registers of its unit. -/
structure GeometryUnit (A : Type*) where
  uniforms : Nat → A
  input : Nat → A

/-- `LoadInput`. -/
def loadInput (regs : GeometryRegs) (input buffer : Nat → A) : Nat → A :=
  (List.range regs.gsInputNum).foldl
    (fun input attr i => if i = regs.getRegisterForAttribute attr then buffer attr else input i) input

inductive Backend (A : Type*) where
  | point (vsOutputNum : Nat) (attributeBuffer : Nat → A) (bufferCur bufferEnd : Nat)
  | variablePrimitive (vsOutputNum : Nat) (needIndex : Bool)
    (mainVertexNum totalVertexNum bufferCur : Nat)
  | fixedPrimitive (vsOutputNum bufferBegin bufferCur bufferEnd : Nat)

/-- A vertex that `LoadVertices` comes to: its index, and the output of the vertex shader for it. -/
structure Item (A : Type*) where
  index : UInt32
  vertex : Nat → A

namespace Backend

/-- The constructors, behind the checks of `Reconfigure`, with what the attribute buffer of a new
backend holds. -/
def reconfigure (regs : GeometryRegs) (attributeBuffer : Nat → A) : Option (Backend A) :=
  if regs.useGs = 2 ∧ regs.shaderMode = 8 ∧
      regs.vsOutmapTotalMinus1A = regs.vsOutmapTotalMinus1B then
    if regs.mode = 0 then
      if regs.variablePrimitive = 0 ∧ regs.inputToUniform = 0 ∧
          regs.gsInputNum % regs.vsOutputNum = 0 then
        some (.point regs.vsOutputNum attributeBuffer 0 regs.gsInputNum)
      else none
    else if regs.mode = 1 then
      if regs.variablePrimitive = 1 ∧ regs.inputToUniform = 1 then
        some (.variablePrimitive regs.vsOutputNum true 0 0 0)
      else none
    else if regs.mode = 2 then
      if regs.variablePrimitive = 0 ∧ regs.inputToUniform = 1 ∧
          regs.vsOutputNum = regs.strideMinus1 + 1 then
        some (.fixedPrimitive regs.vsOutputNum regs.startIndex regs.startIndex
          (regs.startIndex + regs.vsOutputNum * regs.vertexNum))
      else none
    else none
  else none

def isEmpty : Backend A → Bool
  | .point _ _ bufferCur _ => bufferCur == 0
  | .variablePrimitive _ needIndex _ _ _ => needIndex
  | .fixedPrimitive _ bufferBegin bufferCur _ => bufferCur == bufferBegin

def needIndexInput : Backend A → Bool
  | .variablePrimitive _ needIndex _ _ _ => needIndex
  | _ => false

/-- `SubmitIndex`, which is unreachable in the other modes. The index goes to a uniform as a vector of
floats. -/
def submitIndex (regs : GeometryRegs) (ofIndex : UInt32 → A) (val : UInt32) (unit : GeometryUnit A) :
    Backend A → Backend A × GeometryUnit A
  | .variablePrimitive vsOutputNum _ _ _ _ =>
    (.variablePrimitive vsOutputNum false regs.mainVertexNum val.toNat 1,
      { unit with uniforms := overwrite unit.uniforms 0 [ofIndex val] })
  | backend => (backend, unit)

/-- `SubmitVertex`: whether the geometry shader is to be invoked. -/
def submitVertex (regs : GeometryRegs) (vtx : Nat → A) (unit : GeometryUnit A) :
    Backend A → Except PipelineFault (Bool × Backend A × GeometryUnit A)
  | .point vsOutputNum attributeBuffer bufferCur bufferEnd => do
    let attributeBuffer ← copyInto 16 attributeBuffer bufferCur (firstAttributes vsOutputNum vtx)
    if bufferCur + vsOutputNum = bufferEnd then
      return (true, .point vsOutputNum attributeBuffer 0 bufferEnd,
        { unit with input := loadInput regs unit.input attributeBuffer })
    else return (false, .point vsOutputNum attributeBuffer (bufferCur + vsOutputNum) bufferEnd, unit)
  | .variablePrimitive vsOutputNum needIndex mainVertexNum totalVertexNum bufferCur => do
    -- only the first attribute of a vertex that is not a main vertex
    let attributes := if mainVertexNum ≠ 0 then firstAttributes vsOutputNum vtx else [vtx 0]
    let uniforms ← copyInto 96 unit.uniforms bufferCur attributes
    let mainVertexNum := mainVertexNum - 1
    let totalVertexNum := (totalVertexNum + (2 ^ 32 - 1)) % 2 ^ 32
    let bufferCur := bufferCur + attributes.length
    if totalVertexNum = 0 then
      return (true, .variablePrimitive vsOutputNum true mainVertexNum totalVertexNum bufferCur,
        { unit with uniforms })
    else return (false, .variablePrimitive vsOutputNum needIndex mainVertexNum totalVertexNum
        bufferCur, { unit with uniforms })
  | .fixedPrimitive vsOutputNum bufferBegin bufferCur bufferEnd => do
    let uniforms ← copyInto 96 unit.uniforms bufferCur (firstAttributes vsOutputNum vtx)
    if bufferCur + vsOutputNum = bufferEnd then
      return (true, .fixedPrimitive vsOutputNum bufferBegin bufferBegin bufferEnd,
        { unit with uniforms })
    else return (false, .fixedPrimitive vsOutputNum bufferBegin (bufferCur + vsOutputNum) bufferEnd,
        { unit with uniforms })

/-- What `LoadVertices` does with an item, and what the geometry shader sees if it is invoked. -/
def submitItem (regs : GeometryRegs) (ofIndex : UInt32 → A) (item : Item A)
    (state : Backend A × GeometryUnit A) :
    Except PipelineFault ((Backend A × GeometryUnit A) × List (GeometryUnit A)) := do
  if state.1.needIndexInput then
    return (submitIndex regs ofIndex item.index state.2 state.1, [])
  else
    let (invoked, backend, unit) ← submitVertex regs item.vertex state.2 state.1
    return ((backend, unit), if invoked then [unit] else [])

/-- All invocations for a stream of items. -/
def run (regs : GeometryRegs) (ofIndex : UInt32 → A) (state : Backend A × GeometryUnit A) :
    List (Item A) → Except PipelineFault ((Backend A × GeometryUnit A) × List (GeometryUnit A))
  | [] => .ok (state, [])
  | item :: items => do
    let (state, invocations) ← submitItem regs ofIndex item state
    let (state, invocations') ← run regs ofIndex state items
    return (state, invocations ++ invocations')

end Backend

/-! ## Arrays -/

section Arrays

variable {array buffer : Nat → A} {start size i : Nat} {values more : List A}

@[simp] theorem overwrite_nil : overwrite array start [] = array := by
  funext i
  unfold overwrite
  split <;> rfl

/-- Values behind others. -/
theorem overwrite_append : overwrite (overwrite array start values) (start + values.length) more =
    overwrite array start (values ++ more) := by
  funext i
  unfold overwrite
  rcases Nat.lt_or_ge i start with hlt | hge
  · rw [if_neg (by omega), if_neg (by omega), if_neg (by omega)]
  · obtain ⟨j, rfl⟩ := Nat.exists_eq_add_of_le hge
    rw [if_pos (Nat.le_add_right ..), if_pos (Nat.le_add_right ..), Nat.add_sub_cancel_left]
    rcases Nat.lt_or_ge j values.length with hin | hout
    · rw [if_neg (by omega), List.getElem?_append_left hin]
    · rw [if_pos (by omega), List.getElem?_append_right hout, List.getElem?_eq_none hout,
        Option.getD_none, Nat.add_sub_add_left]

theorem overwrite_of_lt (h : i < values.length) :
    overwrite array 0 values i = overwrite buffer 0 values i := by
  simp only [overwrite, Nat.zero_le, if_true, Nat.sub_zero, List.getElem?_eq_getElem h,
    Option.getD_some]

theorem copyInto_of_le (h : start + values.length ≤ size) :
    copyInto size array start values = .ok (overwrite array start values) := if_pos h

theorem copyInto_of_lt (h : size < start + values.length) :
    copyInto size array start values = .error .outside := if_neg (Nat.not_le.mpr h)

@[simp] theorem length_firstAttributes (count : Nat) (vtx : Nat → A) :
    (firstAttributes count vtx).length = count := by
  rw [firstAttributes, List.length_map, List.length_range]

/-- Only the attributes of the input are read. -/
theorem loadInput_congr {regs : GeometryRegs} {input : Nat → A}
    (h : ∀ attr < regs.gsInputNum, array attr = buffer attr) :
    loadInput regs input array = loadInput regs input buffer := by
  refine List.foldl_ext _ _ _ fun input attr hattr => ?_
  funext i
  rw [h attr (List.mem_range.mp hattr)]

end Arrays

/-! ## Vertices that are gathered -/

/-- The vertices since the last invocation, the index that announced them, and the unit as it was
then. -/
structure Gathered (A : Type*) where
  unit : GeometryUnit A
  announced : Option UInt32 := none
  vertices : List (Nat → A) := []

/-- What a vertex contributes to the input: all of its attributes, or the first one only. -/
def contribution (regs : GeometryRegs) (place : Nat) (vtx : Nat → A) : List A :=
  if regs.mode = 1 ∧ regs.mainVertexNum ≤ place then [vtx 0]
  else firstAttributes regs.vsOutputNum vtx

def attributes (regs : GeometryRegs) (vertices : List (Nat → A)) : List A :=
  vertices.zipIdx.flatMap fun vtx => contribution regs vtx.2 vtx.1

/-- How many attributes so many vertices have. -/
def attributeCount (regs : GeometryRegs) (vertices : Nat) : Nat :=
  if regs.mode = 1 then
    regs.vsOutputNum * min vertices regs.mainVertexNum + (vertices - regs.mainVertexNum)
  else regs.vsOutputNum * vertices

namespace Gathered

variable (regs : GeometryRegs) (ofIndex : UInt32 → A) (gathered : Gathered A)

/-- One more vertex. -/
abbrev push (vtx : Nat → A) : Gathered A :=
  { gathered with vertices := gathered.vertices ++ [vtx] }

/-- The vertices of a primitive have arrived. -/
def complete : Bool :=
  match gathered.announced with
  | some n => decide (gathered.vertices.length = n.toNat)
  | none => decide (regs.mode = 0 ∧ gathered.vertices.length = regs.gsInputNum / regs.vsOutputNum) ||
      decide (regs.mode = 2 ∧ gathered.vertices.length = regs.vertexNum)

/-- The unit as the geometry shader sees it: with the attributes of the vertices in their order. -/
def invocation : GeometryUnit A :=
  match gathered.announced with
  | some n =>
    { gathered.unit with
      uniforms := overwrite (overwrite gathered.unit.uniforms 0 [ofIndex n]) 1
        (attributes regs gathered.vertices) }
  | none =>
    if regs.mode = 0 then
      { gathered.unit with
        input := loadInput regs gathered.unit.input
          (overwrite gathered.unit.input 0 (attributes regs gathered.vertices)) }
    else
      { gathered.unit with
        uniforms := overwrite gathered.unit.uniforms regs.startIndex
          (attributes regs gathered.vertices) }

/-- The geometry shader is invoked if the primitive is complete. -/
def settle : Gathered A × List (GeometryUnit A) :=
  if gathered.complete regs then
    ({ unit := gathered.invocation regs ofIndex }, [gathered.invocation regs ofIndex])
  else (gathered, [])

/-- An item arrives. -/
def arrive (item : Item A) : Gathered A × List (GeometryUnit A) :=
  if regs.mode = 1 ∧ gathered.announced = none then
    settle regs ofIndex { gathered with announced := some item.index }
  else settle regs ofIndex { gathered with vertices := gathered.vertices ++ [item.vertex] }

/-- The invocations for a stream, and what is left. -/
def expected (gathered : Gathered A) : List (Item A) → Gathered A × List (GeometryUnit A)
  | [] => (gathered, [])
  | item :: items =>
    let (gathered, invocations) := gathered.arrive regs ofIndex item
    let (gathered, invocations') := expected gathered items
    (gathered, invocations ++ invocations')

end Gathered

open Gathered (settle complete invocation)

/-- Where the attributes of vertices begin in the uniforms. -/
def firstUniform (regs : GeometryRegs) : Nat := if regs.mode = 1 then 1 else regs.startIndex

/-- How many vertices a primitive in the uniforms has. -/
def primitiveSize (regs : GeometryRegs) (announced : Option UInt32) : Nat :=
  (announced.map UInt32.toNat).getD regs.vertexNum

/-- No primitive without vertices is announced, and the attributes of the vertices that arrive have
room in the uniforms. -/
def HasRoom (regs : GeometryRegs) : Option UInt32 → Nat → List (Item A) → Prop
  | _, _, [] => True
  | announced, arrived, item :: items =>
    if regs.mode = 1 ∧ announced = none then
      item.index ≠ 0 ∧ HasRoom regs (some item.index) 0 items
    else firstUniform regs + attributeCount regs (arrived + 1) ≤ 96 ∧
      if arrived + 1 = primitiveSize regs announced then HasRoom regs none 0 items
      else HasRoom regs announced (arrived + 1) items

section Attributes

variable {regs : GeometryRegs} {vertices : List (Nat → A)} {vtx : Nat → A}

theorem attributes_append : attributes regs (vertices ++ [vtx]) =
    attributes regs vertices ++ contribution regs vertices.length vtx := by
  rw [attributes, List.zipIdx_append, List.flatMap_append, Nat.zero_add]
  exact congrArg (attributes regs vertices ++ ·) (List.append_nil _)

theorem length_contribution (place : Nat) : (contribution regs place vtx).length =
    if regs.mode = 1 ∧ regs.mainVertexNum ≤ place then 1 else regs.vsOutputNum := by
  unfold contribution
  split
  · rfl
  · exact length_firstAttributes _ _

theorem attributeCount_succ (place : Nat) : attributeCount regs (place + 1) =
    attributeCount regs place + (contribution regs place vtx).length := by
  rw [length_contribution]
  unfold attributeCount
  by_cases hmode : regs.mode = 1
  · simp only [hmode, if_true, true_and]
    rcases Nat.lt_or_ge place regs.mainVertexNum with hlt | hge
    · rw [if_neg (Nat.not_le.mpr hlt), Nat.min_eq_left (Nat.le_of_lt hlt), Nat.min_eq_left hlt,
        Nat.mul_succ]
      omega
    · rw [if_pos hge, Nat.min_eq_right hge, Nat.min_eq_right (Nat.le_succ_of_le hge)]
      omega
  · simp only [hmode, if_false, false_and]
    rw [Nat.mul_succ]

theorem contribution_of_ne (hmode : regs.mode ≠ 1) (place : Nat) (vtx : Nat → A) :
    contribution regs place vtx = firstAttributes regs.vsOutputNum vtx :=
  if_neg fun hcond => hmode hcond.1

/-- What the backend takes of a vertex of a variable primitive. -/
theorem contribution_of_eq (hmode : regs.mode = 1) (place : Nat) (vtx : Nat → A) :
    (if regs.mainVertexNum - place ≠ 0 then firstAttributes regs.vsOutputNum vtx else [vtx 0]) =
      contribution regs place vtx := by
  unfold contribution
  by_cases hmain : regs.mainVertexNum ≤ place
  · rw [if_neg (by omega), if_pos ⟨hmode, hmain⟩]
  · rw [if_pos (by omega), if_neg fun hcond => hmain hcond.2]

theorem attributeCount_append : attributeCount regs (vertices ++ [vtx]).length =
    attributeCount regs vertices.length + (contribution regs vertices.length vtx).length := by
  rw [length_append, length_singleton, attributeCount_succ]

theorem length_attributes : (attributes regs vertices).length =
    attributeCount regs vertices.length := by
  induction vertices using List.reverseRecOn with
  | nil =>
    unfold attributeCount
    split <;> simp [attributes]
  | append_singleton vertices vtx ih =>
    rw [attributes_append, length_append, ih, attributeCount_append]

end Attributes

/-! ## The buffers of the backends -/

/-- What a backend holds of the vertices that were gathered. -/
inductive Holding (regs : GeometryRegs) (ofIndex : UInt32 → A) (gathered : Gathered A) :
    Backend A × GeometryUnit A → Prop where
  | point (buffer : Nat → A) (hmode : regs.mode = 0) (hnone : gathered.announced = none)
    (hsize : regs.gsInputNum % regs.vsOutputNum = 0)
    (hmissing : gathered.vertices.length < regs.gsInputNum / regs.vsOutputNum) :
    Holding regs ofIndex gathered
      (.point regs.vsOutputNum (overwrite buffer 0 (attributes regs gathered.vertices))
        (attributeCount regs gathered.vertices.length) regs.gsInputNum, gathered.unit)
  | ready (main total cur : Nat) (hmode : regs.mode = 1) (hnone : gathered.announced = none)
    (hvertices : gathered.vertices = []) :
    Holding regs ofIndex gathered
      (.variablePrimitive regs.vsOutputNum true main total cur, gathered.unit)
  | gathering (n : UInt32) (hmode : regs.mode = 1) (hsome : gathered.announced = some n)
    (hmissing : gathered.vertices.length < n.toNat) :
    Holding regs ofIndex gathered
      (.variablePrimitive regs.vsOutputNum false (regs.mainVertexNum - gathered.vertices.length)
        (n.toNat - gathered.vertices.length) (1 + attributeCount regs gathered.vertices.length),
        { gathered.unit with
          uniforms := overwrite (overwrite gathered.unit.uniforms 0 [ofIndex n]) 1
            (attributes regs gathered.vertices) })
  | fixed (hmode : regs.mode = 2) (hnone : gathered.announced = none)
    (hmissing : gathered.vertices.length < regs.vertexNum) :
    Holding regs ofIndex gathered
      (.fixedPrimitive regs.vsOutputNum regs.startIndex
        (regs.startIndex + attributeCount regs gathered.vertices.length)
        (regs.startIndex + regs.vsOutputNum * regs.vertexNum),
        { gathered.unit with
          uniforms := overwrite gathered.unit.uniforms regs.startIndex
            (attributes regs gathered.vertices) })

theorem hasRoom_announce {regs : GeometryRegs} {arrived : Nat} {item : Item A} {items : List (Item A)}
    (hmode : regs.mode = 1) : HasRoom regs none arrived (item :: items) ↔
      item.index ≠ 0 ∧ HasRoom regs (some item.index) 0 items := by
  rw [HasRoom, if_pos ⟨hmode, rfl⟩]

theorem hasRoom_vertex {regs : GeometryRegs} {announced : Option UInt32} {arrived : Nat}
    {item : Item A} {items : List (Item A)} (h : ¬(regs.mode = 1 ∧ announced = none)) :
    HasRoom regs announced arrived (item :: items) ↔
      firstUniform regs + attributeCount regs (arrived + 1) ≤ 96 ∧
        if arrived + 1 = primitiveSize regs announced then HasRoom regs none 0 items
        else HasRoom regs announced (arrived + 1) items := by
  rw [HasRoom, if_neg h]

theorem vsOutputNum_pos (regs : GeometryRegs) : 0 < regs.vsOutputNum := Nat.succ_pos _

theorem gsInputNum_le (regs : GeometryRegs) : regs.gsInputNum ≤ 16 := regs.maxInputAttributeIndex.isLt

theorem attributeCount_of_ne {regs : GeometryRegs} (hmode : regs.mode ≠ 1) (vertices : Nat) :
    attributeCount regs vertices = regs.vsOutputNum * vertices := if_neg hmode

variable {regs : GeometryRegs} {ofIndex : UInt32 → A} {gathered : Gathered A}
  {backend : Backend A} {unit : GeometryUnit A} {item : Item A} {items : List (Item A)}

/-- A vertex of a primitive that is not complete with it. -/
theorem submitItem_short {main total cur total' : Nat} {attributes : List A}
    (hattributes : (if main ≠ 0 then firstAttributes regs.vsOutputNum item.vertex
      else [item.vertex 0]) = attributes) (hfits : cur + attributes.length ≤ 96)
    (htotal : (total + (2 ^ 32 - 1)) % 2 ^ 32 = total') (hmore : total' ≠ 0) :
    Backend.submitItem regs ofIndex item
        (.variablePrimitive regs.vsOutputNum false main total cur, unit) =
      .ok ((.variablePrimitive regs.vsOutputNum false (main - 1) total' (cur + attributes.length),
        { unit with uniforms := overwrite unit.uniforms cur attributes }), []) := by
  simp only [Backend.submitItem, Backend.needIndexInput, Bool.false_eq_true, if_false,
    Backend.submitVertex, hattributes, copyInto_of_le hfits, bind, Except.bind, pure, Except.pure,
    htotal, if_neg hmore]

theorem submitItem_short_of_lt {main total cur : Nat} {attributes : List A}
    (hattributes : (if main ≠ 0 then firstAttributes regs.vsOutputNum item.vertex
      else [item.vertex 0]) = attributes) (hout : 96 < cur + attributes.length) :
    Backend.submitItem regs ofIndex item
      (.variablePrimitive regs.vsOutputNum false main total cur, unit) = .error .outside := by
  simp only [Backend.submitItem, Backend.needIndexInput, Bool.false_eq_true, if_false,
    Backend.submitVertex, hattributes, copyInto_of_lt hout, bind, Except.bind]

theorem arrive_vertex (h : ¬(regs.mode = 1 ∧ gathered.announced = none)) :
    gathered.arrive regs ofIndex item = settle regs ofIndex (gathered.push item.vertex) := if_neg h

namespace Holding

/-- An empty attribute buffer. -/
theorem begin_point (buffer : Nat → A) (hmode : regs.mode = 0)
    (hsize : regs.gsInputNum % regs.vsOutputNum = 0) :
    Holding regs ofIndex { unit } (.point regs.vsOutputNum buffer 0 regs.gsInputNum, unit) := by
  have hcount : attributeCount regs 0 = 0 := attributeCount_of_ne (by rw [hmode]; decide) 0
  have hempty : attributes regs ([] : List (Nat → A)) = [] := rfl
  have hmissing : 0 < regs.gsInputNum / regs.vsOutputNum :=
    Nat.div_pos (Nat.le_of_dvd (Nat.succ_pos _) (Nat.dvd_of_mod_eq_zero hsize))
      (vsOutputNum_pos regs)
  have hholds := (@Holding.point _ _ ofIndex { unit }) buffer hmode rfl hsize hmissing
  rwa [hempty, overwrite_nil, length_nil, hcount] at hholds

/-- No vertices in the uniforms. -/
theorem begin_fixed (hmode : regs.mode = 2) : Holding regs ofIndex { unit }
    (.fixedPrimitive regs.vsOutputNum regs.startIndex regs.startIndex
      (regs.startIndex + regs.vsOutputNum * regs.vertexNum), unit) := by
  have hcount : attributeCount regs 0 = 0 := attributeCount_of_ne (by rw [hmode]; decide) 0
  have hempty : attributes regs ([] : List (Nat → A)) = [] := rfl
  have hholds := (@Holding.fixed _ _ ofIndex { unit }) hmode rfl (Nat.succ_pos _)
  rwa [hempty, overwrite_nil, length_nil, hcount, Nat.add_zero] at hholds

/-- A new backend holds nothing. -/
theorem reconfigure {buffer : Nat → A} (h : Backend.reconfigure regs buffer = some backend) :
    Holding regs ofIndex { unit } (backend, unit) := by
  unfold Backend.reconfigure at h
  split at h
  · split at h
    · next hmode =>
      split at h
      · next hchecks =>
        cases h
        exact begin_point buffer hmode hchecks.2.2
      · cases h
    · split at h
      · next hmode =>
        split at h
        · cases h
          exact Holding.ready 0 0 0 hmode rfl rfl
        · cases h
      · split at h
        · next hmode =>
          split at h
          · cases h
            exact begin_fixed hmode
          · cases h
        · cases h
  · cases h

/-- The backend is empty if no vertices are waiting. -/
theorem isEmpty_iff (h : Holding regs ofIndex gathered (backend, unit)) :
    backend.isEmpty = true ↔ gathered.announced = none ∧ gathered.vertices = [] := by
  have hpos := vsOutputNum_pos regs
  cases h with
  | point buffer hmode hnone hsize hmissing =>
    rw [Backend.isEmpty, beq_iff_eq, attributeCount_of_ne (by rw [hmode]; decide), hnone,
      ← List.length_eq_zero_iff, Nat.mul_eq_zero]
    simp only [Nat.ne_of_gt hpos, false_or, true_and]
  | ready main total cur hmode hnone hvertices =>
    simp only [Backend.isEmpty, hnone, hvertices, and_self]
  | gathering n hmode hsome hmissing => simp [Backend.isEmpty, hsome]
  | fixed hmode hnone hmissing =>
    rw [Backend.isEmpty, beq_iff_eq, attributeCount_of_ne (by rw [hmode]; decide), hnone,
      ← List.length_eq_zero_iff, Nat.add_eq_left, Nat.mul_eq_zero]
    simp only [Nat.ne_of_gt hpos, false_or, true_and]

/-- Whether a vertex completes a primitive in the uniforms. -/
theorem complete_vertex (h : Holding regs ofIndex gathered (backend, unit)) (hne0 : regs.mode ≠ 0)
    (hvertex : ¬(regs.mode = 1 ∧ gathered.announced = none)) :
    complete regs (gathered.push item.vertex) =
      decide (gathered.vertices.length + 1 = primitiveSize regs gathered.announced) := by
  cases h with
  | point buffer hmode => exact absurd hmode hne0
  | ready main total cur hmode hnone => exact absurd ⟨hmode, hnone⟩ hvertex
  | gathering n hmode hsome =>
    simp only [complete, primitiveSize, hsome, length_append, length_singleton]
    rfl
  | fixed hmode hnone =>
    simp only [complete, primitiveSize, hnone, hmode, length_append, length_singleton]
    simp

/-- An item that has room: the backend goes on with what is expected. -/
theorem submitItem (h : Holding regs ofIndex gathered (backend, unit))
    (hroom : regs.mode = 0 ∨ HasRoom regs gathered.announced gathered.vertices.length [item]) :
    ∃ state', Backend.submitItem regs ofIndex item (backend, unit) =
        .ok (state', (gathered.arrive regs ofIndex item).2) ∧
      Holding regs ofIndex (gathered.arrive regs ofIndex item).1 state' := by
  have hpos := vsOutputNum_pos regs
  have hcomplete := @h.complete_vertex _ _ _ _ _ _ item
  cases h with
  | point buffer hmode hnone hsize hmissing =>
    have hne : regs.mode ≠ 1 := by rw [hmode]; decide
    have hcontribution := contribution_of_ne hne gathered.vertices.length item.vertex
    have hcount := attributeCount_of_ne hne (gathered.vertices.length + 1)
    have hcount' := attributeCount_of_ne hne gathered.vertices.length
    have hinput : regs.vsOutputNum * (regs.gsInputNum / regs.vsOutputNum) = regs.gsInputNum :=
      Nat.mul_div_cancel' (Nat.dvd_of_mod_eq_zero hsize)
    -- the vertices of an invocation fill the input of the geometry shader
    have hfits : regs.vsOutputNum * (gathered.vertices.length + 1) ≤ regs.gsInputNum := by
      rw [← hinput]
      exact Nat.mul_le_mul_left _ hmissing
    have hcomplete : complete regs (gathered.push item.vertex) =
        decide (gathered.vertices.length + 1 = regs.gsInputNum / regs.vsOutputNum) := by
      simp only [complete, hnone, hmode, length_append, length_singleton]
      simp
    have hwrite : copyInto 16 (overwrite buffer 0 (attributes regs gathered.vertices))
        (attributeCount regs gathered.vertices.length)
        (firstAttributes regs.vsOutputNum item.vertex) =
          .ok (overwrite buffer 0 (attributes regs (gathered.vertices ++ [item.vertex]))) := by
      have hbound := gsInputNum_le regs
      rw [Nat.mul_succ] at hfits
      rw [copyInto_of_le (by rw [length_firstAttributes, hcount']; omega),
        attributes_append, hcontribution, ← overwrite_append, length_attributes, Nat.zero_add]
    have hend : attributeCount regs gathered.vertices.length + regs.vsOutputNum =
        regs.gsInputNum ↔ gathered.vertices.length + 1 = regs.gsInputNum / regs.vsOutputNum := by
      rw [hcount', ← Nat.mul_succ]
      constructor
      · intro heq
        exact Nat.eq_of_mul_eq_mul_left hpos (heq.trans hinput.symm)
      · intro heq
        rw [← hinput, ← heq]
    rw [arrive_vertex fun hcond => hne hcond.1, settle, hcomplete]
    by_cases hlast : gathered.vertices.length + 1 = regs.gsInputNum / regs.vsOutputNum
    · have hload : loadInput regs gathered.unit.input
          (overwrite buffer 0 (attributes regs (gathered.vertices ++ [item.vertex]))) =
          loadInput regs gathered.unit.input
            (overwrite gathered.unit.input 0 (attributes regs (gathered.vertices ++ [item.vertex]))) := by
        refine loadInput_congr fun attr hattr => overwrite_of_lt ?_
        rw [length_attributes, length_append, length_singleton, hcount, hlast, hinput]
        exact hattr
      have hinvocation : invocation regs ofIndex (gathered.push item.vertex) =
            { gathered.unit with
              input := loadInput regs gathered.unit.input
                (overwrite buffer 0 (attributes regs (gathered.vertices ++ [item.vertex]))) } := by
        simp only [invocation, hnone, if_pos hmode, hload]
      rw [decide_eq_true hlast, if_pos rfl, hinvocation]
      refine ⟨_, ?_, begin_point (overwrite buffer 0
        (attributes regs (gathered.vertices ++ [item.vertex]))) hmode hsize⟩
      simp only [Backend.submitItem, Backend.needIndexInput, Bool.false_eq_true, if_false,
        Backend.submitVertex, hwrite, bind, Except.bind, pure, Except.pure, if_pos (hend.mpr hlast),
        if_true]
    · rw [decide_eq_false hlast, if_neg Bool.false_ne_true]
      have hmore := (@Holding.point _ _ ofIndex (gathered.push item.vertex)) buffer hmode
        hnone hsize (by rw [length_append, length_singleton]; omega)
      refine ⟨_, ?_, hmore⟩
      simp only [Backend.submitItem, Backend.needIndexInput, Bool.false_eq_true, if_false,
        Backend.submitVertex, hwrite, bind, Except.bind, pure, Except.pure,
        if_neg fun heq => hlast (hend.mp heq)]
      rw [attributeCount_append, hcontribution, length_firstAttributes]
  | ready main total cur hmode hnone hvertices =>
    have hne0 : regs.mode ≠ 0 := by rw [hmode]; decide
    rw [hnone] at hroom
    obtain ⟨hindex, -⟩ := (hasRoom_announce hmode).mp (hroom.resolve_left hne0)
    have hsome : 0 < item.index.toNat := Nat.pos_of_ne_zero fun hzero =>
      hindex (UInt32.toNat_inj.mp hzero)
    have harrive : gathered.arrive regs ofIndex item = settle regs ofIndex
        { gathered with announced := some item.index } := if_pos ⟨hmode, hnone⟩
    have hcomplete : complete regs { gathered with announced := some item.index } = false := by
      simp only [complete, hvertices, length_nil]
      exact decide_eq_false (Nat.ne_of_lt hsome)
    rw [harrive, settle, hcomplete, if_neg Bool.false_ne_true]
    have hmore := (@Holding.gathering _ _ ofIndex
        { gathered with announced := some item.index }) item.index hmode rfl
      (by rw [hvertices]; exact hsome)
    refine ⟨_, ?_, hmore⟩
    have hcount : attributeCount regs 0 = 0 := by
      unfold attributeCount
      rw [if_pos hmode, Nat.zero_min, Nat.mul_zero, Nat.zero_sub]
    have hempty : attributes regs ([] : List (Nat → A)) = [] := rfl
    simp only [Backend.submitItem, Backend.needIndexInput, if_true, Backend.submitIndex, hvertices,
      length_nil, Nat.sub_zero, hcount, hempty, overwrite_nil]
    rfl
  | gathering n hmode hsome hmissing =>
    have hne0 : regs.mode ≠ 0 := by rw [hmode]; decide
    have hnone : ¬(regs.mode = 1 ∧ gathered.announced = none) := by simp [hsome]
    obtain ⟨hfits, -⟩ := (hasRoom_vertex hnone).mp (hroom.resolve_left hne0)
    have hn := n.toNat_lt
    rw [firstUniform, if_pos hmode, (@attributeCount_succ _ _ item.vertex),
      ← Nat.add_assoc] at hfits
    have hattributes := contribution_of_eq hmode gathered.vertices.length item.vertex
    have hsize : primitiveSize regs gathered.announced = n.toNat := by
      rw [hsome]
      rfl
    have htotal : (n.toNat - gathered.vertices.length + (2 ^ 32 - 1)) % 2 ^ 32 =
        n.toNat - (gathered.vertices.length + 1) := by omega
    have hwrite : overwrite (overwrite (overwrite gathered.unit.uniforms 0 [ofIndex n]) 1
        (attributes regs gathered.vertices)) (1 + attributeCount regs gathered.vertices.length)
        (contribution regs gathered.vertices.length item.vertex) =
          overwrite (overwrite gathered.unit.uniforms 0 [ofIndex n]) 1
            (attributes regs (gathered.vertices ++ [item.vertex])) := by
      rw [attributes_append, ← overwrite_append, length_attributes]
    rw [arrive_vertex hnone, settle, hcomplete hne0 hnone, hsize]
    by_cases hlast : gathered.vertices.length + 1 = n.toNat
    · have hzero : n.toNat - (gathered.vertices.length + 1) = 0 := by omega
      have hinvocation : invocation regs ofIndex (gathered.push item.vertex) =
            { gathered.unit with
              uniforms := overwrite (overwrite gathered.unit.uniforms 0 [ofIndex n]) 1
                (attributes regs (gathered.vertices ++ [item.vertex])) } := by
        simp only [invocation, hsome]
      rw [decide_eq_true hlast, if_pos rfl, hinvocation]
      refine ⟨_, ?_, Holding.ready (regs.mainVertexNum - gathered.vertices.length - 1) 0
        (1 + attributeCount regs gathered.vertices.length +
          (contribution regs gathered.vertices.length item.vertex).length) hmode rfl rfl⟩
      simp only [Backend.submitItem, Backend.needIndexInput, Bool.false_eq_true, if_false,
        Backend.submitVertex, hattributes, copyInto_of_le hfits, hwrite, bind, Except.bind, pure,
        Except.pure, htotal, hzero, if_true]
    · rw [decide_eq_false hlast, if_neg Bool.false_ne_true]
      have hmore := (@Holding.gathering _ _ ofIndex (gathered.push item.vertex)) n hmode hsome
        (by rw [length_append, length_singleton]; omega)
      rw [attributeCount_append, ← Nat.add_assoc, length_append, length_singleton,
        ← Nat.sub_sub regs.mainVertexNum, ← hwrite] at hmore
      exact ⟨_, submitItem_short hattributes hfits htotal (by omega), hmore⟩
  | fixed hmode hnone hmissing =>
    have hne : regs.mode ≠ 1 := by rw [hmode]; decide
    have hne0 : regs.mode ≠ 0 := by rw [hmode]; decide
    have hvertex : ¬(regs.mode = 1 ∧ gathered.announced = none) := fun hcond => hne hcond.1
    have hcontribution := contribution_of_ne hne gathered.vertices.length item.vertex
    have hcount := attributeCount_of_ne hne (gathered.vertices.length + 1)
    have hcount' := attributeCount_of_ne hne gathered.vertices.length
    obtain ⟨hfits, -⟩ := (hasRoom_vertex hvertex).mp (hroom.resolve_left hne0)
    rw [firstUniform, if_neg hne, hcount, Nat.mul_succ] at hfits
    have hsize : primitiveSize regs gathered.announced = regs.vertexNum := by
      rw [hnone]
      rfl
    have hwrite : copyInto 96 (overwrite gathered.unit.uniforms regs.startIndex
        (attributes regs gathered.vertices)) (regs.startIndex + attributeCount regs
          gathered.vertices.length) (firstAttributes regs.vsOutputNum item.vertex) =
        .ok (overwrite gathered.unit.uniforms regs.startIndex
          (attributes regs (gathered.vertices ++ [item.vertex]))) := by
      rw [copyInto_of_le (by rw [length_firstAttributes, hcount']; omega),
        attributes_append, hcontribution, ← overwrite_append, length_attributes]
    have hend : regs.startIndex + attributeCount regs gathered.vertices.length + regs.vsOutputNum =
        regs.startIndex + regs.vsOutputNum * regs.vertexNum ↔
          gathered.vertices.length + 1 = regs.vertexNum := by
      rw [hcount', Nat.add_assoc, ← Nat.mul_succ, Nat.add_left_cancel_iff,
        Nat.mul_right_inj (Nat.ne_of_gt hpos)]
    rw [arrive_vertex hvertex, settle, hcomplete hne0 hvertex, hsize]
    by_cases hlast : gathered.vertices.length + 1 = regs.vertexNum
    · have hinvocation : invocation regs ofIndex
          (gathered.push item.vertex) =
            { gathered.unit with
              uniforms := overwrite gathered.unit.uniforms regs.startIndex
                (attributes regs (gathered.vertices ++ [item.vertex])) } := by
        simp only [invocation, hnone, if_neg hne0]
      rw [decide_eq_true hlast, if_pos rfl, hinvocation]
      refine ⟨_, ?_, begin_fixed hmode⟩
      simp only [Backend.submitItem, Backend.needIndexInput, Bool.false_eq_true, if_false,
        Backend.submitVertex, hwrite, bind, Except.bind, pure, Except.pure, if_pos (hend.mpr hlast),
        if_true]
    · rw [decide_eq_false hlast, if_neg Bool.false_ne_true]
      have hmore := (@Holding.fixed _ _ ofIndex (gathered.push item.vertex)) hmode hnone
        (by rw [length_append, length_singleton]; omega)
      refine ⟨_, ?_, hmore⟩
      simp only [Backend.submitItem, Backend.needIndexInput, Bool.false_eq_true, if_false,
        Backend.submitVertex, hwrite, bind, Except.bind, pure, Except.pure,
        if_neg fun heq => hlast (hend.mp heq)]
      rw [attributeCount_append, hcontribution, length_firstAttributes, Nat.add_assoc]

/-- Room for an item and for those behind it. -/
theorem hasRoom_cons (h : Holding regs ofIndex gathered (backend, unit)) (hne0 : regs.mode ≠ 0) :
    HasRoom regs gathered.announced gathered.vertices.length (item :: items) ↔
      HasRoom regs gathered.announced gathered.vertices.length [item] ∧
        HasRoom regs (gathered.arrive regs ofIndex item).1.announced
          (gathered.arrive regs ofIndex item).1.vertices.length items := by
  by_cases hannounce : regs.mode = 1 ∧ gathered.announced = none
  · obtain ⟨hmode, hnone⟩ := hannounce
    have hvertices : gathered.vertices = [] := by
      cases h with
      | point buffer hmode' => exact absurd hmode' hne0
      | ready main total cur hmode hnone hvertices => exact hvertices
      | gathering n hmode hsome => rw [hsome] at hnone; cases hnone
      | fixed hmode' => rw [hmode] at hmode'; exact absurd hmode' (by decide)
    rw [Gathered.arrive, if_pos ⟨hmode, hnone⟩, settle, hnone, hasRoom_announce hmode,
      hasRoom_announce hmode]
    simp only [HasRoom, and_true, and_congr_right_iff]
    intro hindex
    have hcomplete : complete regs { gathered with announced := some item.index } = false := by
      simp only [complete, hvertices, length_nil]
      exact decide_eq_false fun heq => hindex (UInt32.toNat_inj.mp heq.symm)
    rw [hcomplete, if_neg Bool.false_ne_true, hvertices]
    rfl
  · rw [hasRoom_vertex hannounce, hasRoom_vertex hannounce, arrive_vertex hannounce, settle,
      h.complete_vertex hne0 hannounce]
    simp only [HasRoom, ite_self, and_true, and_congr_right_iff]
    intro _
    by_cases hlast : gathered.vertices.length + 1 = primitiveSize regs gathered.announced
    · rw [if_pos hlast, decide_eq_true hlast, if_pos rfl]
      rfl
    · rw [if_neg hlast, decide_eq_false hlast, if_neg Bool.false_ne_true, length_append,
        length_singleton]

/-- A vertex that has no room is written out of the uniforms. -/
theorem submitItem_of_lt (h : Holding regs ofIndex gathered (backend, unit)) (hne0 : regs.mode ≠ 0)
    (hvertex : ¬(regs.mode = 1 ∧ gathered.announced = none))
    (hout : 96 < firstUniform regs + attributeCount regs (gathered.vertices.length + 1)) :
    Backend.submitItem regs ofIndex item (backend, unit) = .error .outside := by
  rw [(@attributeCount_succ _ _ item.vertex), ← Nat.add_assoc] at hout
  cases h with
  | point buffer hmode hnone hsize hmissing => exact absurd hmode hne0
  | ready main total cur hmode hnone hvertices => exact absurd ⟨hmode, hnone⟩ hvertex
  | gathering n hmode hsome hmissing =>
    rw [firstUniform, if_pos hmode] at hout
    exact submitItem_short_of_lt (contribution_of_eq hmode _ _) hout
  | fixed hmode hnone hmissing =>
    have hne : regs.mode ≠ 1 := by rw [hmode]; decide
    rw [firstUniform, if_neg hne, contribution_of_ne hne] at hout
    simp only [Backend.submitItem, Backend.needIndexInput, Bool.false_eq_true, if_false,
      Backend.submitVertex]
    rw [copyInto_of_lt hout]
    rfl

end Holding

/-! ## Streams -/

theorem Backend.run_cons (state : Backend A × GeometryUnit A) (item : Item A) (items : List (Item A)) :
    Backend.run regs ofIndex state (item :: items) =
      (Backend.submitItem regs ofIndex item state).bind fun first =>
        (Backend.run regs ofIndex first.1 items).bind fun rest =>
          .ok (rest.1, first.2 ++ rest.2) := rfl

/-- A primitive without vertices is never complete: the count of the vertices goes below zero, and the
vertices leave the uniforms before it comes round. -/
theorem run_without_vertices {main total cur vertices : Nat} (items : List (Item A))
    (htotal : total = (2 ^ 32 - vertices) % 2 ^ 32) (hcur : vertices < cur) (hin : cur ≤ 96)
    {final : Backend A × GeometryUnit A} {invocations : List (GeometryUnit A)}
    (h : Backend.run regs ofIndex (.variablePrimitive regs.vsOutputNum false main total cur, unit)
      items = .ok (final, invocations)) : invocations = [] := by
  induction items generalizing main total cur vertices unit final invocations with
  | nil =>
    cases h
    rfl
  | cons item items ih =>
    generalize hattributes : (if main ≠ 0 then firstAttributes regs.vsOutputNum item.vertex
      else [item.vertex 0]) = attributes
    have hsome : 0 < attributes.length := by
      rw [← hattributes]
      split
      · rw [length_firstAttributes]
        exact vsOutputNum_pos regs
      · exact Nat.one_pos
    rw [Backend.run_cons] at h
    rcases Nat.lt_or_ge 96 (cur + attributes.length) with hout | hfits
    · rw [submitItem_short_of_lt hattributes hout] at h
      cases h
    · obtain ⟨total', htotal'⟩ : ∃ total', total' = (2 ^ 32 - (vertices + 1)) % 2 ^ 32 := ⟨_, rfl⟩
      rw [(@submitItem_short _ _ _ _ _ _ _ _ total') hattributes hfits (by omega) (by omega)] at h
      simp only [Except.bind] at h
      split at h
      · cases h
      · next rest hrest =>
        cases h
        exact ih htotal' (by omega) hfits hrest

/-- Everything that fits goes as expected. -/
theorem Holding.run {gathered : Gathered A} (items : List (Item A))
    (h : Holding regs ofIndex gathered (backend, unit))
    (hroom : regs.mode = 0 ∨ HasRoom regs gathered.announced gathered.vertices.length items) :
    ∃ final, Backend.run regs ofIndex (backend, unit) items =
        .ok (final, (gathered.expected regs ofIndex items).2) ∧
      Holding regs ofIndex (gathered.expected regs ofIndex items).1 final := by
  induction items generalizing gathered backend unit with
  | nil => exact ⟨_, rfl, h⟩
  | cons item items ih =>
    have hfirst : regs.mode = 0 ∨
        HasRoom regs gathered.announced gathered.vertices.length [item] ∧
          HasRoom regs (gathered.arrive regs ofIndex item).1.announced
            (gathered.arrive regs ofIndex item).1.vertices.length items := by
      by_cases hmode : regs.mode = 0
      · exact .inl hmode
      · exact .inr ((h.hasRoom_cons hmode).mp (hroom.resolve_left hmode))
    obtain ⟨⟨backend', unit'⟩, hsubmit, hholds⟩ := h.submitItem (hfirst.imp_right And.left)
    obtain ⟨final, hrun, hfinal⟩ := ih hholds (hfirst.imp_right And.right)
    refine ⟨final, ?_, hfinal⟩
    rw [Backend.run_cons, hsubmit, Except.bind, hrun]
    rfl

/-- An item that does not fit does not go as expected. -/
theorem Holding.hasRoom_singleton {gathered : Gathered A} {item : Item A} {items : List (Item A)}
    (h : Holding regs ofIndex gathered (backend, unit)) {final : Backend A × GeometryUnit A}
    (hne0 : regs.mode ≠ 0) (hrun : Backend.run regs ofIndex (backend, unit) (item :: items) =
      .ok (final, (gathered.expected regs ofIndex (item :: items)).2)) :
    HasRoom regs gathered.announced gathered.vertices.length [item] := by
  rw [Backend.run_cons] at hrun
  by_cases hannounce : regs.mode = 1 ∧ gathered.announced = none
  · rw [hannounce.2, hasRoom_announce hannounce.1]
    refine ⟨fun hzero => ?_, trivial⟩
    -- the invocation that is expected at once never comes
    cases h with
    | point buffer hmode => exact hne0 hmode
    | gathering n hmode hsome =>
      rw [hsome] at hannounce
      cases hannounce.2
    | fixed hmode =>
      rw [hmode] at hannounce
      exact absurd hannounce.1 (by decide)
    | ready main total cur hmode hnone hvertices =>
      have hexpected : ∃ invocation invocations,
          (gathered.expected regs ofIndex (item :: items)).2 = invocation :: invocations := by
        have hcomplete :
            complete regs { gathered with announced := some item.index } = true := by
          simp only [complete, hvertices, hzero, length_nil]
          rfl
        simp only [Gathered.expected, Gathered.arrive, if_pos hannounce, settle, hcomplete, if_true]
        exact ⟨_, _, rfl⟩
      obtain ⟨invocation, invocations, hexpected⟩ := hexpected
      rw [hexpected] at hrun
      simp only [Backend.submitItem, Backend.needIndexInput, if_true, Backend.submitIndex, hzero,
        pure, Except.pure, Except.bind] at hrun
      split at hrun
      · cases hrun
      · next rest hrest =>
        have hnothing := (@run_without_vertices _ _ _ _ _ _ _ 0) items (by rfl) Nat.zero_lt_one
          (by decide) hrest
        rw [hnothing] at hrun
        cases hrun
  · rw [hasRoom_vertex hannounce]
    refine ⟨Nat.le_of_not_lt fun hout => ?_, by split <;> exact trivial⟩
    rw [h.submitItem_of_lt hne0 hannounce hout] at hrun
    cases hrun

/-- What goes as expected fits. -/
theorem Holding.hasRoom_of_run {gathered : Gathered A} (items : List (Item A))
    (h : Holding regs ofIndex gathered (backend, unit)) {final : Backend A × GeometryUnit A}
    (hrun : Backend.run regs ofIndex (backend, unit) items =
      .ok (final, (gathered.expected regs ofIndex items).2)) :
    regs.mode = 0 ∨ HasRoom regs gathered.announced gathered.vertices.length items := by
  induction items generalizing gathered backend unit with
  | nil => exact .inr trivial
  | cons item items ih =>
    by_cases hmode : regs.mode = 0
    · exact .inl hmode
    have hfirst := h.hasRoom_singleton hmode hrun
    obtain ⟨⟨backend', unit'⟩, hsubmit, hholds⟩ := h.submitItem (.inr hfirst)
    rw [Backend.run_cons, hsubmit, Except.bind] at hrun
    refine .inr ((h.hasRoom_cons hmode).mpr ⟨hfirst, (ih hholds ?_).resolve_left hmode⟩)
    simp only [Except.bind] at hrun
    split at hrun
    · cases hrun
    · next rest hrest =>
      obtain ⟨hfinal, hinvocations⟩ := Prod.mk.inj (Except.ok.inj hrun)
      have htail : rest.2 =
          ((gathered.arrive regs ofIndex item).1.expected regs ofIndex items).2 :=
        List.append_cancel_left hinvocations
      rw [hrest, ← hfinal, ← htail]

/-- The pipeline does not write outside, and invokes the geometry shader as expected. It is empty in the
end if no vertices are left. -/
def Gathers (regs : GeometryRegs) (ofIndex : UInt32 → A) (backend : Backend A)
    (unit : GeometryUnit A) (items : List (Item A)) : Prop :=
  ∃ final, Backend.run regs ofIndex (backend, unit) items =
      .ok (final, (Gathered.expected regs ofIndex { unit } items).2) ∧
    (final.1.isEmpty = true ↔
      (Gathered.expected regs ofIndex { unit } items).1.announced = none ∧
        (Gathered.expected regs ofIndex { unit } items).1.vertices = [])

theorem gathers_iff {buffer : Nat → A} (h : Backend.reconfigure regs buffer = some backend)
    (items : List (Item A)) :
    Gathers regs ofIndex backend unit items ↔ regs.mode = 0 ∨ HasRoom regs none 0 items := by
  have hholds : Holding regs ofIndex { unit } (backend, unit) := Holding.reconfigure h
  constructor
  · rintro ⟨final, hrun, -⟩
    exact hholds.hasRoom_of_run items hrun
  · intro hroom
    obtain ⟨final, hrun, hfinal⟩ := hholds.run items hroom
    exact ⟨final, hrun, hfinal.isEmpty_iff⟩

/-- Vertices of one attribute, in primitives of two vertices: from a uniform on, or after an index. -/
def twoVertexRegs (mode : Fin 256) (startIndex : Fin 256) : GeometryRegs where
  useGs := 2
  variablePrimitive := if mode = 1 then 1 else 0
  vsOutmapTotalMinus1A := 0
  vsOutmapTotalMinus1B := 0
  mode := mode
  fixedVertexNumMinus1 := 1
  strideMinus1 := 0
  startIndex := startIndex
  variableVertexMainNumMinus1 := 0
  maxInputAttributeIndex := 1
  inputToUniform := 1
  shaderMode := 8
  inputAttributeToRegisterMapLow := 0x76543210
  inputAttributeToRegisterMapHigh := 0xFEDCBA98

/-- The last two uniforms have room for the vertices of a primitive. -/
theorem gathers_iff_two_vertices :
    Gathers (twoVertexRegs 2 94) UInt32.toNat (.fixedPrimitive 1 94 94 96)
      { uniforms := fun _ => 0, input := fun _ => 0 } [⟨0, fun _ => 7⟩, ⟨1, fun _ => 8⟩] := by
  refine ((@gathers_iff _ _ _ _ _ (fun _ => 0)) rfl _).mpr (.inr ?_)
  simp only [HasRoom]
  decide

/-- A primitive that begins at the last uniform, and one that is announced with no vertices. -/
theorem not_gathers :
    Backend.reconfigure (twoVertexRegs 2 95) (fun _ => 0) = some (.fixedPrimitive 1 95 95 97) ∧
      ¬Gathers (twoVertexRegs 2 95) UInt32.toNat (.fixedPrimitive 1 95 95 97)
        { uniforms := fun _ => 0, input := fun _ => 0 } [⟨0, fun _ => 7⟩, ⟨1, fun _ => 8⟩] ∧
      Backend.reconfigure (twoVertexRegs 1 0) (fun _ => 0) = some (.variablePrimitive 1 true 0 0 0) ∧
      ¬Gathers (twoVertexRegs 1 0) UInt32.toNat (.variablePrimitive 1 true 0 0 0)
        { uniforms := fun _ => 0, input := fun _ => 0 } [⟨0, fun _ => 7⟩, ⟨1, fun _ => 8⟩] := by
  refine ⟨rfl, ?_, rfl, ?_⟩
  · rintro ⟨final, hrun, -⟩
    cases hrun
  · rintro ⟨final, hrun, -⟩
    cases hrun

end GbaStation.Pica
