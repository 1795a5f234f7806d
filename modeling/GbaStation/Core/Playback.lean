import GbaStation.Common.FlatMemory
import GbaStation.Core.Movie

/-!
# Recording and playing movies (`core/movie.cpp`)

The inputs that `Handle*` records, with the bytes of their entries, and the file between a recording
and its playback.

- `roundTrips_iff_calls`: a recording comes back from its file if there is a call in it. The file of
  an empty recording is refused.
- `playsSafely_iff`: an accepted file is played to its end, unless it has less than one entry: then
  the first call is stopped by its assertion.
-/

namespace GbaStation.Core

/-- What a call of `Handle*` has. The fields of a `TouchDataEntry` and an `ExtraHIDResponse` that no
entry stores are left out, but for the low byte of `c_stick`. -/
inductive Input where
  | padAndCircle (padState : BitVec 32) (circlePadX circlePadY : BitVec 16)
  | touch (x y : BitVec 16) (valid : BitVec 7)
  | accelerometer (x y z : BitVec 16)
  | gyroscope (x y z : BitVec 16)
  | irRst (padState : BitVec 32) (cStickX cStickY : BitVec 16)
  | extraHidResponse (cStick : BitVec 32) (buttons : Byte)

namespace Input

def type : Input → ControllerStateType
  | padAndCircle .. => .padAndCircle
  | touch .. => .touch
  | accelerometer .. => .accelerometer
  | gyroscope .. => .gyroscope
  | irRst .. => .irRst
  | extraHidResponse .. => .extraHidResponse

/-- A value of 16 bits in an entry. -/
def half (v : BitVec 16) : List Byte := [v.extractLsb' 0 8, v.extractLsb' 8 8]

def halfAt (s : List Byte) (i : Nat) : BitVec 16 := s.getD (i + 1) 0 ++ s.getD i 0

/-- The byte of `ControllerStateType`. -/
def typeByte : ControllerStateType → Byte
  | .padAndCircle => 0
  | .touch => 1
  | .accelerometer => 2
  | .gyroscope => 3
  | .irRst => 4
  | .extraHidResponse => 5

/-- The overloads of `Record`: the entry. Of a `PadState` it has buttons only: the first fourteen,
and `zl` and `zr`. -/
def record (input : Input) : ControllerState :=
  ⟨typeByte input.type :: match input with
    | padAndCircle padState x y =>
      half ((padState.extractLsb' 0 14).setWidth 16) ++ half x ++ half y
    | touch x y valid => half x ++ half y ++ [valid.setWidth 8, 0]
    | accelerometer x y z => half x ++ half y ++ half z
    | gyroscope x y z => half x ++ half y ++ half z
    | irRst padState x y => half x ++ half y ++
      [(padState.extractLsb' 14 1).setWidth 8, (padState.extractLsb' 15 1).setWidth 8]
    | extraHidResponse cStick buttons =>
      [buttons, cStick.extractLsb' 8 8, cStick.extractLsb' 16 8, cStick.extractLsb' 24 8, 0, 0],
    by cases input <;> rfl⟩

/-- The overloads of `Play`: the values of the caller, behind an entry. -/
def play (input : Input) (s : List Byte) : Input :=
  if s.getD 0 0 ≠ typeByte input.type then input
  else match input with
    | padAndCircle padState _ _ =>
      padAndCircle (padState.extractLsb' 14 18 ++ (halfAt s 1).extractLsb' 0 14) (halfAt s 3)
        (halfAt s 5)
    | touch _ _ _ => touch (halfAt s 1) (halfAt s 3) ((s.getD 5 0).extractLsb' 0 7)
    | accelerometer _ _ _ => accelerometer (halfAt s 1) (halfAt s 3) (halfAt s 5)
    | gyroscope _ _ _ => gyroscope (halfAt s 1) (halfAt s 3) (halfAt s 5)
    | irRst padState _ _ =>
      irRst (padState.extractLsb' 16 16 ++ ((s.getD 6 0).extractLsb' 0 1 ++
        ((s.getD 5 0).extractLsb' 0 1 ++ padState.extractLsb' 0 14))) (halfAt s 1) (halfAt s 3)
    | extraHidResponse cStick _ =>
      extraHidResponse (s.getD 4 0 ++ (s.getD 3 0 ++ (s.getD 2 0 ++ cStick.extractLsb' 0 8)))
        (s.getD 1 0)

/-- The fields that an entry stores as they were recorded, and the others as the caller has them. -/
def merge : Input → Input → Input
  | padAndCircle padState x y, padAndCircle padState' _ _ =>
    padAndCircle (padState'.extractLsb' 14 18 ++ padState.extractLsb' 0 14) x y
  | irRst padState x y, irRst padState' _ _ =>
    irRst (padState'.extractLsb' 16 16 ++ (padState.extractLsb' 15 1 ++
      (padState.extractLsb' 14 1 ++ padState'.extractLsb' 0 14))) x y
  | extraHidResponse cStick buttons, extraHidResponse cStick' _ =>
    extraHidResponse (cStick.extractLsb' 24 8 ++ (cStick.extractLsb' 16 8 ++
      (cStick.extractLsb' 8 8 ++ cStick'.extractLsb' 0 8))) buttons
  | recorded, _ => recorded

variable {recorded call : Input}

@[simp] theorem half_join (v : BitVec 16) : v.extractLsb' 8 8 ++ v.extractLsb' 0 8 = v :=
  FlatMemory.append_extractLsb' 8 v

@[simp] theorem low_setWidth {m n : Nat} (v : BitVec n) (h : n ≤ m) :
    (v.setWidth m).extractLsb' 0 n = v := by
  ext i hi
  simp [show i < m by omega, BitVec.getLsbD_eq_getElem hi]

/-- An entry gives back what it stores. -/
theorem play_record (h : call.type = recorded.type) :
    call.play recorded.record.1 = recorded.merge call := by
  have htype : recorded.record.1.getD 0 0 = typeByte call.type := by
    rw [h]
    rfl
  unfold play
  rw [if_neg (not_not.mpr htype)]
  cases recorded <;> cases call <;> try cases h
  all_goals simp [record, merge, halfAt, half]

end Input

/-! ## Files -/

/-- `sizeof(CTMHeader)`. -/
def headerSize : Nat := 256

def headerMagicBytes : List Byte := [0x43, 0x54, 0x4D, 0x1B]

/-- The fields of the header that are not of the movie. -/
structure HeaderInfo where
  programId : BitVec 64
  revision : Vector Byte 20
  author : Vector Byte 32

/-- The fields of the header. -/
def MovieFile.fields (file : MovieFile) (info : HeaderInfo) : List (List Byte) :=
  let value (size v : Nat) : List Byte := (List.range size).map (bytesOf v)
  [headerMagicBytes, value 8 info.programId.toNat, info.revision.toList,
    value 8 file.initTime.toNat, value 8 file.id.toNat, info.author.toList,
    value 4 file.rerecordCount.toNat, value 8 file.inputCount, value 8 file.baseTicks.toNat,
    List.replicate 156 0]

def MovieFile.bytes (file : MovieFile) (info : HeaderInfo) : List Byte :=
  (file.fields info).flatten ++ file.input

/-- A value of the header. -/
def headerValue (bytes : List Byte) (offset size : Nat) : Nat :=
  littleEndian (bytesAt bytes offset size)

/-- `StartPlayback` accepts the file. -/
abbrev IsMovie (bytes : List Byte) : Prop :=
  headerSize < bytes.length ∧ bytes.take 4 = headerMagicBytes

namespace Movie

/-- `StartPlayback`. The vector is resized, which throws from `maxSize` on. -/
def startPlayback (m : Movie) (bytes : List Byte) : Except Fault Movie :=
  if IsMovie bytes then
    if h : (bytes.drop headerSize).length < maxSize then
      .ok { m with
        playMode := .playing
        rerecordCount := .ofNat 32 (headerValue bytes 80 4)
        totalInput := headerValue bytes 84 8
        recordedInput := bytes.drop headerSize
        currentByte := 0
        currentInput := 0
        id := .ofNat 64 (headerValue bytes 40 8)
        held := h }
    else .error .write
  else .ok m

/-- `Handle*`: the values that the caller has then, and the movie. -/
def handleInput (m : Movie) (input : Input) : Except Fault (Input × Movie) := do
  let (s, m') ← m.handle input.type input.record
  return (if m.playMode = .playing then input.play s else input, m')

def handleInputs (m : Movie) : List Input → Except Fault (List Input × Movie)
  | [] => .ok ([], m)
  | input :: inputs => do
    let (played, m) ← m.handleInput input
    let (rest, m) ← m.handleInputs inputs
    return (played :: rest, m)

/-- A recording into an empty movie comes back from its file, call by call. -/
def RoundTrips (inputs : List Input) : Prop :=
  ∀ (m : Movie) (info : HeaderInfo), m.playMode = .recording → m.recordedInput = [] →
    m.currentByte = 0 → controllerStateSize * inputs.length < maxSize →
    ∃ m' file, m.handleInputs inputs = .ok (inputs, m') ∧ m'.saveMovie.file = some file ∧
      (file.bytes info).length = headerSize + controllerStateSize * inputs.length ∧
      getInputCount ((file.bytes info).drop headerSize) = headerValue (file.bytes info) 84 8 ∧
      ∀ (p : Movie) (calls : List Input), calls.map Input.type = inputs.map Input.type →
        ∃ p₀ p', p.startPlayback (file.bytes info) = .ok p₀ ∧ p₀.playMode = .playing ∧
          p₀.handleInputs calls = .ok (List.zipWith Input.merge inputs calls, p')

/-- A file that is accepted is played without a fault, for as many calls as it has entries. -/
def PlaysSafely (bytes : List Byte) : Prop :=
  IsMovie bytes → ∀ (m m' : Movie) (calls : List Input), m.startPlayback bytes = .ok m' →
    ∃ played m'', m'.handleInputs calls = .ok (played, m'') ∧ m''.playMode =
      if (bytes.length - headerSize) / controllerStateSize ≤ calls.length
        then .movieFinished else .playing

variable {m p : Movie} {input : Input} {inputs calls front : List Input} {bytes pre back : List Byte}
  {info : HeaderInfo} {file : MovieFile}

/-! ## Recording -/

/-- An entry is added to the end of the input. -/
theorem handleInput_recording (hmode : m.playMode = .recording)
    (hend : m.currentByte = m.recordedInput.length)
    (hroom : m.recordedInput.length + controllerStateSize < maxSize) :
    ∃ m', m.handleInput input = .ok (input, m') ∧ m'.playMode = .recording ∧
      m'.recordedInput = m.recordedInput ++ input.record.1 ∧
      m'.currentByte = m'.recordedInput.length := by
  have hsize := entryEnd_mod hend.le
  have hfits : (m.currentByte + controllerStateSize) % 2 ^ 64 < maxSize ∧
      m.currentByte + controllerStateSize ≤ (m.currentByte + controllerStateSize) % 2 ^ 64 := by
    rw [hsize, hend]
    exact ⟨hroom, Nat.le_refl _⟩
  obtain ⟨m', hm'⟩ : ∃ m', m.record input.type input.record = .ok m' := ⟨_, dif_pos hfits⟩
  obtain ⟨hplay, hbyte, hinput⟩ := of_record hm'
  rw [hend, List.take_length, Nat.sub_self, List.replicate_zero, List.append_nil] at hinput
  refine ⟨m', ?_, hplay.trans hmode, hinput, ?_⟩
  · simp only [handleInput, handle, hmode, hm']
    rfl
  · rw [hbyte, hsize, hinput, List.length_append, input.record.2, hend]

theorem handleInputs_cons {played : Input} {rest : List Input} {m₁ m₂ : Movie}
    (h : m.handleInput input = .ok (played, m₁)) (hrest : m₁.handleInputs inputs = .ok (rest, m₂)) :
    m.handleInputs (input :: inputs) = .ok (played :: rest, m₂) := by
  rw [handleInputs, h]
  show (m₁.handleInputs inputs >>= _) = _
  rw [hrest]
  rfl

/-- The entries of the inputs, one after the other. -/
def entries (inputs : List Input) : List Byte := inputs.flatMap fun input => input.record.1

@[simp] theorem length_entries (inputs : List Input) :
    (entries inputs).length = controllerStateSize * inputs.length := by
  induction inputs with
  | nil => rfl
  | cons input inputs ih =>
    rw [entries, List.flatMap_cons, List.length_append, input.record.2, ← entries, ih,
      List.length_cons, Nat.mul_succ, Nat.add_comm]

theorem handleInputs_recording (hmode : m.playMode = .recording)
    (hend : m.currentByte = m.recordedInput.length)
    (hroom : m.recordedInput.length + controllerStateSize * inputs.length < maxSize) :
    ∃ m', m.handleInputs inputs = .ok (inputs, m') ∧
      m'.recordedInput = m.recordedInput ++ entries inputs := by
  induction inputs generalizing m with
  | nil => exact ⟨m, rfl, (List.append_nil _).symm⟩
  | cons input inputs ih =>
    rw [List.length_cons, Nat.mul_succ] at hroom
    obtain ⟨m₁, hfirst, hmode₁, hinput₁, hend₁⟩ := handleInput_recording hmode hend (by omega)
    obtain ⟨m₂, hrest, hinput₂⟩ := ih hmode₁ hend₁ (by
      rw [hinput₁, List.length_append, input.record.2]
      omega)
    refine ⟨m₂, handleInputs_cons hfirst hrest, ?_⟩
    rw [hinput₂, hinput₁, List.append_assoc]
    rfl

/-! ## Playing -/

theorem handleInput_playing (hmode : m.playMode = .playing)
    (hentry : m.currentByte + controllerStateSize ≤ m.recordedInput.length) :
    ∃ m', m.handleInput input =
        .ok (input.play (bytesAt m.recordedInput m.currentByte controllerStateSize), m') ∧
      m'.currentByte = m.currentByte + controllerStateSize ∧ m'.recordedInput = m.recordedInput ∧
      m'.playMode = if m.currentByte + 2 * controllerStateSize ≤ m.recordedInput.length then .playing
        else .movieFinished := by
  obtain ⟨m', hm', hrest⟩ := @handle_playing _ input.type input.record hmode hentry
  refine ⟨m', ?_, hrest⟩
  simp only [handleInput, hm', hmode]
  rfl

/-- Inputs in front of others come back. -/
theorem handleInputs_played (hmode : p.playMode = .playing)
    (hinput : p.recordedInput = pre ++ (entries front ++ back))
    (hbyte : p.currentByte = pre.length) (hcalls : calls.map Input.type = front.map Input.type) :
    ∃ p', p.handleInputs calls = .ok (List.zipWith Input.merge front calls, p') := by
  induction front generalizing pre p calls with
  | nil =>
    obtain rfl := List.map_eq_nil_iff.mp hcalls
    exact ⟨p, rfl⟩
  | cons input front ih =>
    obtain ⟨call, calls, rfl, htype, hcalls⟩ := List.map_eq_cons_iff.mp hcalls
    have hparts : p.recordedInput = pre ++ (input.record.1 ++ (entries front ++ back)) := by
      rw [hinput, entries, List.flatMap_cons, List.append_assoc]
      rfl
    have hlength : p.recordedInput.length = p.currentByte + (controllerStateSize +
        (controllerStateSize * front.length + back.length)) := by
      rw [hparts, List.length_append, List.length_append, List.length_append, input.record.2,
        length_entries, hbyte]
    obtain ⟨p₁, hfirst, hbyte₁, hinput₁, hmode₁⟩ :=
      @handleInput_playing _ call hmode (by omega)
    rw [hparts, hbyte, bytesAt_prefix rfl input.record.2, Input.play_record htype] at hfirst
    -- `CheckInputEnd` looks for the entry of the next call
    cases front with
    | nil =>
      obtain rfl := List.map_eq_nil_iff.mp hcalls
      exact ⟨p₁, handleInputs_cons hfirst rfl⟩
    | cons next front =>
      rw [if_pos (by rw [hlength, List.length_cons, controllerStateSize]; omega)] at hmode₁
      have hparts₁ : p₁.recordedInput =
          (pre ++ input.record.1) ++ (entries (next :: front) ++ back) := by
        rw [hinput₁, hparts, List.append_assoc]
      obtain ⟨p₂, hrest⟩ := ih hmode₁ hparts₁
        (by rw [hbyte₁, hbyte, List.length_append, input.record.2]) hcalls
      exact ⟨p₂, handleInputs_cons hfirst hrest⟩

theorem handleInputs_finished (h : p.playMode = .movieFinished) :
    p.handleInputs calls = .ok (calls, p) := by
  induction calls with
  | nil => rfl
  | cons call calls ih =>
    have hfirst : p.handleInput call = .ok (call, p) := by
      simp only [handleInput, handle, h]
      rfl
    exact handleInputs_cons hfirst ih

/-- Playback goes on for as many calls as there are entries. -/
theorem handleInputs_playing (hmode : p.playMode = .playing)
    (hentry : p.currentByte + controllerStateSize ≤ p.recordedInput.length) :
    ∃ played p', p.handleInputs calls = .ok (played, p') ∧ p'.playMode =
      if (p.recordedInput.length - p.currentByte) / controllerStateSize ≤ calls.length
        then .movieFinished else .playing := by
  unfold controllerStateSize at hentry ⊢
  induction calls generalizing p with
  | nil => exact ⟨[], p, rfl, by rw [hmode, if_neg (by rw [List.length_nil]; omega)]⟩
  | cons call calls ih =>
    obtain ⟨p₁, hfirst, hbyte₁, hinput₁, hmode₁⟩ := @handleInput_playing _ call hmode hentry
    unfold controllerStateSize at hbyte₁ hmode₁
    -- is there another whole entry behind this one?
    by_cases hmore : p.currentByte + 2 * 7 ≤ p.recordedInput.length
    · obtain ⟨played, p', hrest, hmode'⟩ :=
        ih (hmode₁.trans (if_pos hmore)) (by rw [hinput₁]; omega)
      refine ⟨_, p', handleInputs_cons hfirst hrest, hmode'.trans ?_⟩
      rw [hinput₁, hbyte₁, List.length_cons]
      congr 1
      exact propext (by omega)
    · rw [if_neg hmore] at hmode₁
      refine ⟨_, p₁, handleInputs_cons hfirst (handleInputs_finished hmode₁), hmode₁.trans ?_⟩
      rw [if_pos (by rw [List.length_cons]; omega)]

/-! ## Files -/

theorem length_fields (file : MovieFile) (info : HeaderInfo) :
    (file.fields info).flatten.length = headerSize := by
  simp [MovieFile.fields, headerMagicBytes, headerSize, -List.reduceReplicate]

theorem drop_bytes (file : MovieFile) (info : HeaderInfo) :
    (file.bytes info).drop headerSize = file.input := by
  rw [MovieFile.bytes, ← length_fields file info, List.drop_left]

/-- The count of the header. -/
theorem headerValue_bytes (file : MovieFile) (info : HeaderInfo) :
    headerValue (file.bytes info) 84 8 = file.inputCount % 2 ^ 64 := by
  have hfront : ((file.fields info).take 7).flatten.length = 84 := by
    simp [MovieFile.fields, headerMagicBytes]
  have heq : file.bytes info = ((file.fields info).take 7).flatten ++
      ((List.range 8).map (bytesOf file.inputCount) ++
        (((file.fields info).drop 8).flatten ++ file.input)) := by
    simp [MovieFile.bytes, MovieFile.fields, -List.reduceReplicate]
  exact (congrArg littleEndian (heq ▸ bytesAt_prefix hfront (by simp))).trans
    (littleEndian_map_bytesOf 8 _)

theorem startPlayback_isMovie (h : IsMovie bytes)
    (hheld : (bytes.drop headerSize).length < maxSize) :
    ∃ m', m.startPlayback bytes = .ok m' ∧ m'.playMode = .playing ∧
      m'.recordedInput = bytes.drop headerSize ∧ m'.currentByte = 0 := by
  rw [startPlayback, if_pos h, dif_pos hheld]
  exact ⟨_, rfl, rfl, rfl, rfl⟩

/-- A movie with input is accepted. -/
theorem isMovie_bytes (info : HeaderInfo) (hinput : file.input ≠ []) :
    IsMovie (file.bytes info) := by
  refine ⟨?_, rfl⟩
  rw [MovieFile.bytes, List.length_append, length_fields]
  exact Nat.lt_add_of_pos_right (List.length_pos_iff.mpr hinput)

theorem getInputCount_le (input : List Byte) : getInputCount input ≤ input.length := by
  refine List.countP_le_length.trans ?_
  rw [List.length_range]
  exact Nat.div_le_self _ _

/-! ## The round trip -/

/-- A recording comes back if there is a call in it. -/
theorem roundTrips_iff_calls : RoundTrips inputs ↔ inputs ≠ [] := by
  constructor
  · rintro h rfl
    let m : Movie := ⟨.recording, 0, 0, [], 0, 0, 0, 0, 0, true, none, by decide⟩
    obtain ⟨m', file, -, -, hlength, -, hplay⟩ :=
      h m ⟨0, .replicate _ 0, .replicate _ 0⟩ rfl rfl rfl (by decide)
    obtain ⟨p₀, p', hstart, hplaying, -⟩ := hplay m [] rfl
    -- the file ends with the header, and is refused
    rw [startPlayback, if_neg fun haccepted => haccepted.1.ne' hlength] at hstart
    cases hstart
    cases hplaying
  · intro hne m info hmode hempty hbyte hroom
    obtain ⟨m', hrecorded, hinput⟩ := handleInputs_recording hmode (by rw [hempty, hbyte]; rfl)
      (by rwa [hempty, List.length_nil, Nat.zero_add])
    rw [hempty, List.nil_append] at hinput
    obtain ⟨file, hfile, hcount, hfileInput⟩ : ∃ file, m'.saveMovie.file = some file ∧
        file.inputCount = getInputCount m'.recordedInput ∧ file.input = m'.recordedInput :=
      ⟨_, rfl, rfl, rfl⟩
    have hheld := m'.held
    have hdrop := (drop_bytes file info).trans hfileInput
    refine ⟨m', file, hrecorded, hfile, ?_, ?_, fun p calls hcalls => ?_⟩
    · rw [MovieFile.bytes, List.length_append, length_fields, hfileInput, hinput, length_entries]
    · rw [hdrop, headerValue_bytes, hcount]
      have := getInputCount_le m'.recordedInput
      unfold maxSize at hheld
      exact (Nat.mod_eq_of_lt (by omega)).symm
    · have hsome : file.input ≠ [] := by
        rw [hfileInput, hinput, ← List.length_pos_iff_ne_nil, length_entries]
        exact Nat.mul_pos (by decide) (List.length_pos_iff_ne_nil.mpr hne)
      obtain ⟨p₀, hstart, hplaying, hinput₀, hbyte₀⟩ :=
        @startPlayback_isMovie p _ (isMovie_bytes info hsome) (hdrop ▸ hheld)
      have hparts : p₀.recordedInput = [] ++ (entries inputs ++ []) := by
        rw [hinput₀, hdrop, hinput, List.append_nil, List.nil_append]
      obtain ⟨p', hplayed⟩ := handleInputs_played hplaying hparts hbyte₀ hcalls
      exact ⟨p₀, p', hstart, hplaying, hplayed⟩

/-- An accepted file is played safely if it has an entry. -/
theorem playsSafely_iff : PlaysSafely bytes ↔
    (IsMovie bytes → headerSize + controllerStateSize ≤ bytes.length) := by
  refine forall_congr' fun hmovie => ⟨fun h => ?_, fun hentry m m' calls hm' => ?_⟩
  · by_contra hout
    have hheld : (bytes.drop headerSize).length < controllerStateSize := by
      rw [List.length_drop]
      omega
    obtain ⟨m', hm', hplaying, hinput, hbyte⟩ :=
      @startPlayback_isMovie oneEntry _ hmovie (hheld.trans (by decide))
    obtain ⟨played, m'', hplayed, -⟩ := h oneEntry m' [.touch 0 0 0] hm'
    -- the assertion of `Handle`
    have hfirst : m'.handleInput (.touch 0 0 0) = .error .assertion := by
      unfold handleInput handle
      rw [hplaying]
      have hshort : ¬controllerStateSize % 2 ^ 64 ≤ (bytes.drop headerSize).length :=
        Nat.not_le.mpr hheld
      simp only [ensure, hbyte, hinput, Nat.zero_add, if_neg hshort]
      rfl
    rw [handleInputs, hfirst] at hplayed
    cases hplayed
  · have hheld : (bytes.drop headerSize).length < maxSize := by
      by_contra hthrows
      rw [startPlayback, if_pos hmovie, dif_neg hthrows] at hm'
      cases hm'
    obtain ⟨m₁, hm₁, hplaying, hinput, hbyte⟩ := @startPlayback_isMovie m _ hmovie hheld
    obtain rfl := Except.ok.inj (hm₁.symm.trans hm')
    have hlength : m₁.recordedInput.length = bytes.length - headerSize := by
      rw [hinput, List.length_drop]
    rw [← hlength, ← Nat.sub_zero m₁.recordedInput.length, ← hbyte]
    exact handleInputs_playing hplaying (by rw [hlength, hbyte]; omega)

end Movie

end GbaStation.Core
