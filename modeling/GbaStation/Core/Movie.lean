import GbaStation.Common.Checked

/-!
# Movies and savestates (`core/movie.cpp`)

A movie is a row of entries of seven bytes. `Handle` plays or records the entry at `current_byte`,
and `serialize` takes position, input and mode from a savestate.

- `Movie.Consistent` is what is expected of loading: where it throws, the movie is as it was; where
  it succeeds, the position fits the input, and a run of `Handle` reads nothing outside it.
- The position and the clock are overwritten before the checks that throw, and no check looks at the
  position. `consistent_iff` says for which savestates that does no harm.
-/

namespace GbaStation.Core

inductive PlayMode where
  | none
  | recording
  | playing
  | movieFinished
  deriving DecidableEq, Repr

inductive ControllerStateType where
  | padAndCircle
  | touch
  | accelerometer
  | gyroscope
  | irRst
  | extraHidResponse
  deriving DecidableEq, Repr

/-- `sizeof(ControllerState)`. -/
def controllerStateSize : Nat := 7

/-- `ControllerState`: the byte of the type, and the union. -/
abbrev ControllerState := { bytes : List Byte // bytes.length = controllerStateSize }

/-- `std::vector::max_size`. -/
def maxSize : Nat := 2 ^ 63

/-- What `SaveMovie` writes of the movie. -/
structure MovieFile where
  initTime : BitVec 64
  baseTicks : BitVec 64
  id : BitVec 64
  rerecordCount : BitVec 32
  inputCount : Nat
  input : List Byte
  deriving DecidableEq, Repr

structure Movie where
  playMode : PlayMode
  initTime : BitVec 64
  baseTicks : BitVec 64
  recordedInput : List Byte
  currentByte : Nat
  currentInput : Nat
  totalInput : Nat
  id : BitVec 64
  rerecordCount : BitVec 32
  readOnly : Bool
  /-- The file of the movie, as it was last written. -/
  file : Option MovieFile
  held : recordedInput.length < maxSize

/-- What a savestate holds of a movie. -/
structure Savestate where
  currentByte : Nat
  currentInput : Nat
  recordedInput : List Byte
  initTime : BitVec 64
  baseTicks : BitVec 64
  id : BitVec 64
  postMovie : Bool
  held : recordedInput.length < maxSize

/-- What `serialize` throws. -/
inductive LoadError where
  | closeMovie
  | otherMovie
  | futureEvent
  | timelineMismatch
  deriving DecidableEq, Repr

/-- The number of whole entries of the type `PadAndCircle`. -/
def getInputCount (input : List Byte) : Nat :=
  (List.range (input.length / controllerStateSize)).countP fun i =>
    input[controllerStateSize * i]? = some 0

namespace Movie

def saveMovie (m : Movie) : Movie :=
  { m with file := some ⟨m.initTime, m.baseTicks, m.id, m.rerecordCount,
      getInputCount m.recordedInput, m.recordedInput⟩ }

/-- `SaveMovie` of a movie that is recorded. -/
def saveRecording (m : Movie) : Movie := if m.playMode = .recording then m.saveMovie else m

/-- The fields that `serialize` loads at once. -/
def loadPosition (m : Movie) (saved : Savestate) : Movie :=
  { m with
    currentByte := saved.currentByte
    currentInput := saved.currentInput
    initTime := saved.initTime
    baseTicks := saved.baseTicks }

/-- `serialize` of an archive that is loaded: what it throws, and the movie behind it. -/
def serialize (m : Movie) (saved : Savestate) : Option LoadError × Movie :=
  let loaded := m.loadPosition saved
  if m.id ≠ saved.id then
    (some (if saved.id = 0 then .closeMovie else .otherMovie), loaded)
  else if m.id = 0 then (none, loaded)
  else
    let loaded := if m.readOnly then loaded
      else { loaded with recordedInput := saved.recordedInput, held := saved.held }
    if saved.postMovie then (none, { loaded with playMode := .movieFinished })
    else if m.readOnly then
      let loaded := loaded.saveRecording
      if m.recordedInput.length ≤ saved.recordedInput.length then (some .futureEvent, loaded)
      else if saved.recordedInput.isPrefixOf m.recordedInput then
        (none, { loaded with
          playMode := .playing
          totalInput := getInputCount m.recordedInput })
      else (some .timelineMismatch, loaded)
    else (none, { loaded with playMode := .recording, rerecordCount := m.rerecordCount + 1 })

def checkInputEnd (m : Movie) : Movie :=
  if m.recordedInput.length < (m.currentByte + controllerStateSize) % 2 ^ 64 then
    { m with playMode := .movieFinished }
  else m

/-- Only entries of the type `PadAndCircle` count as inputs. -/
def countInput (type : ControllerStateType) (m : Movie) : Movie :=
  if type = .padAndCircle then { m with currentInput := (m.currentInput + 1) % 2 ^ 64 } else m

/-- The overloads of `Play`: the entry that is read. -/
def play (m : Movie) (type : ControllerStateType) : Except Fault (List Byte × Movie) := do
  let s ← readAt m.recordedInput m.currentByte controllerStateSize
  return (s, countInput type
    { m with currentByte := (m.currentByte + controllerStateSize) % 2 ^ 64 })

/-- The overloads of `Record`. The vector is resized, which throws from `maxSize` on and fills up
with zeros, and the entry is copied to its end. -/
def record (m : Movie) (type : ControllerStateType) (s : ControllerState) : Except Fault Movie :=
  let size := (m.currentByte + controllerStateSize) % 2 ^ 64
  if h : size < maxSize ∧ m.currentByte + controllerStateSize ≤ size then
    .ok (countInput type { m with
      recordedInput := m.recordedInput.take m.currentByte ++
        List.replicate (m.currentByte - m.recordedInput.length) 0 ++ s.1
      currentByte := size
      held := by
        have hs := s.2
        simp only [List.length_append, List.length_take, List.length_replicate, hs]
        omega })
  else .error .write

/-- `Handle`: the entry that the caller has then, and the movie. -/
def handle (m : Movie) (type : ControllerStateType) (s : ControllerState) :
    Except Fault (List Byte × Movie) :=
  match m.playMode with
  | .playing => do
    ensure ((m.currentByte + controllerStateSize) % 2 ^ 64 ≤ m.recordedInput.length) .assertion
    let (s, m) ← m.play type
    return (s, m.checkInputEnd)
  | .recording => do return (s.1, ← m.record type s)
  | _ => .ok (s.1, m)

/-- Calls of `Handle`, one after the other. -/
def handleAll (m : Movie) (calls : List (ControllerStateType × ControllerState)) :
    Except Fault Movie :=
  calls.foldlM (fun m call => (m.handle call.1 call.2).map Prod.snd) m

/-! ## What is expected of loading -/

variable {m m' : Movie} {saved : Savestate} {type : ControllerStateType} {s : ControllerState}
  {calls : List (ControllerStateType × ControllerState)}

/-- The fields that a failed load has to leave. -/
structure Same (m' m : Movie) : Prop where
  currentByte : m'.currentByte = m.currentByte
  currentInput : m'.currentInput = m.currentInput
  recordedInput : m'.recordedInput = m.recordedInput
  initTime : m'.initTime = m.initTime
  baseTicks : m'.baseTicks = m.baseTicks
  playMode : m'.playMode = m.playMode
  rerecordCount : m'.rerecordCount = m.rerecordCount

/-- What a movie loaded from a savestate has to meet. -/
structure Continues (m : Movie) (saved : Savestate) (m' : Movie) : Prop where
  inside : m'.currentByte ≤ m'.recordedInput.length
  kept : m.readOnly = true → m'.recordedInput = m.recordedInput ∧
    m'.recordedInput.take m'.currentByte = saved.recordedInput.take m'.currentByte
  reads : ∀ calls, m'.handleAll calls ≠ .error .assertion ∧ m'.handleAll calls ≠ .error .read
  records : m.readOnly = false → ∀ type s m'', m'.record type s = .ok m'' →
    m''.recordedInput = m'.recordedInput.take m'.currentByte ++ s.1

structure Consistent (m : Movie) (saved : Savestate) : Prop where
  throws : (m.serialize saved).1 ≠ none → Same (m.serialize saved).2 m
  succeeds : (m.serialize saved).1 = none → m.id ≠ 0 → Continues m saved (m.serialize saved).2

/-- The savestate is of the movie, and of the same timeline where the movie may not be changed. -/
def Accepts (m : Movie) (saved : Savestate) : Prop :=
  m.id = saved.id ∧ (m.id = 0 ∨ saved.postMovie = true ∨ m.readOnly = false ∨
    saved.recordedInput.length < m.recordedInput.length ∧
      saved.recordedInput.isPrefixOf m.recordedInput = true)

instance (m : Movie) (saved : Savestate) : Decidable (m.Accepts saved) :=
  inferInstanceAs (Decidable (_ ∧ _))

/-- The position lies in the input that is kept, with an entry behind it where it is played. -/
def Placed (m : Movie) (saved : Savestate) : Prop :=
  if m.readOnly then
    saved.currentByte ≤ m.recordedInput.length ∧
      m.recordedInput.take saved.currentByte = saved.recordedInput.take saved.currentByte ∧
      (saved.postMovie = false →
        saved.currentByte + controllerStateSize ≤ m.recordedInput.length)
  else saved.currentByte ≤ saved.recordedInput.length

/-- The savestate has the position and the clock of the movie. -/
def Agrees (m : Movie) (saved : Savestate) : Prop :=
  saved.currentByte = m.currentByte ∧ saved.currentInput = m.currentInput ∧
    saved.initTime = m.initTime ∧ saved.baseTicks = m.baseTicks

/-! ## Runs of `Handle` -/

/-- While a movie is played there is an entry to play. -/
def Ready (m : Movie) : Prop :=
  m.playMode = .playing → m.currentByte + controllerStateSize ≤ m.recordedInput.length

theorem countInput_eq (type : ControllerStateType) (m : Movie) :
    (countInput type m).playMode = m.playMode ∧
      (countInput type m).currentByte = m.currentByte ∧
      (countInput type m).recordedInput = m.recordedInput := by
  unfold countInput
  split_ifs <;> exact ⟨rfl, rfl, rfl⟩

/-- The end of an entry behind a position in the vector does not wrap around. -/
theorem entryEnd_mod (h : m.currentByte ≤ m.recordedInput.length) :
    (m.currentByte + controllerStateSize) % 2 ^ 64 = m.currentByte + controllerStateSize := by
  have hheld := m.held
  unfold maxSize at hheld
  unfold controllerStateSize
  omega

/-- An entry is played. -/
theorem handle_playing (hmode : m.playMode = .playing)
    (hentry : m.currentByte + controllerStateSize ≤ m.recordedInput.length) :
    ∃ m', m.handle type s = .ok (bytesAt m.recordedInput m.currentByte controllerStateSize, m') ∧
      m'.currentByte = m.currentByte + controllerStateSize ∧ m'.recordedInput = m.recordedInput ∧
      m'.playMode = if m.currentByte + 2 * controllerStateSize ≤ m.recordedInput.length then .playing
        else .movieFinished := by
  let played := countInput type { m with currentByte := m.currentByte + controllerStateSize }
  obtain ⟨hplay, hcurrent, hinput⟩ : played.playMode = m.playMode ∧
      played.currentByte = m.currentByte + controllerStateSize ∧
      played.recordedInput = m.recordedInput := countInput_eq type _
  refine ⟨played.checkInputEnd, ?_, ?_⟩
  · have hbyte := entryEnd_mod (Nat.le_of_add_right_le hentry)
    unfold handle
    rw [hmode]
    simp only [play, readAt_inside hentry, hbyte, ensure, if_pos hentry]
    rfl
  · have hend : played.currentByte ≤ played.recordedInput.length := by
      rw [hcurrent, hinput]
      exact hentry
    unfold checkInputEnd
    rw [entryEnd_mod hend]
    split_ifs with hout hin hin <;> rw [hcurrent, hinput] at hout
    · omega
    · exact ⟨hcurrent, hinput, rfl⟩
    · exact ⟨hcurrent, hinput, hplay.trans hmode⟩
    · omega

/-- An entry is recorded at the position. -/
theorem of_record (h : m.record type s = .ok m') : m'.playMode = m.playMode ∧
    m'.currentByte = (m.currentByte + controllerStateSize) % 2 ^ 64 ∧
    m'.recordedInput = m.recordedInput.take m.currentByte ++
      List.replicate (m.currentByte - m.recordedInput.length) 0 ++ s.1 := by
  unfold record at h
  dsimp only at h
  split_ifs at h
  cases h
  exact countInput_eq type _

theorem ready_handle (h : m.Ready) :
    (∀ e, m.handle type s = .error e → e = .write) ∧
      ∀ out m', m.handle type s = .ok (out, m') → m'.Ready := by
  cases hmode : m.playMode with
  | playing =>
    obtain ⟨m', hm', hcurrent, hinput, hmode'⟩ := @handle_playing _ type s hmode (h hmode)
    rw [hm']
    refine ⟨fun e he => ?_, fun out m'' hm'' hplaying => ?_⟩
    · cases he
    · cases hm''
      rw [hmode'] at hplaying
      split_ifs at hplaying with hnext
      rw [hcurrent, hinput]
      omega
  | recording =>
    simp only [handle, hmode, record]
    split_ifs with hfits
    · refine ⟨fun e he => ?_, fun out m' hm' hplaying => ?_⟩
      · cases he
      · cases hm'
        rw [(countInput_eq type _).1] at hplaying
        cases hplaying
    · refine ⟨fun e he => ?_, fun out m' hm' => ?_⟩
      · cases he
        rfl
      · cases hm'
  | none =>
    simp only [handle, hmode]
    refine ⟨fun e he => ?_, fun out m' hm' => ?_⟩
    · cases he
    · cases hm'
      exact h
  | movieFinished =>
    simp only [handle, hmode]
    refine ⟨fun e he => ?_, fun out m' hm' => ?_⟩
    · cases he
    · cases hm'
      exact h

theorem ready_handleAll (h : m.Ready) {e : Fault} (he : m.handleAll calls = .error e) :
    e = .write := by
  induction calls generalizing m with
  | nil => cases he
  | cons call calls ih =>
    obtain ⟨herror, hok⟩ := @ready_handle _ call.1 call.2 h
    rw [handleAll, List.foldlM_cons] at he
    cases hcall : m.handle call.1 call.2 with
    | error e' =>
      rw [hcall] at he
      cases he
      exact herror _ hcall
    | ok out =>
      rw [hcall] at he
      exact ih (hok out.1 out.2 hcall) he

/-- Without an entry to play the first call stops, at the assertion or behind it. -/
theorem ready_of_handle (h : ∀ calls, m.handleAll calls ≠ .error .assertion ∧
    m.handleAll calls ≠ .error .read) : m.Ready := by
  intro hmode
  by_contra hout
  have hcall := h [(.touch, ⟨List.replicate controllerStateSize 0, rfl⟩)]
  simp only [handleAll, List.foldlM_cons, List.foldlM_nil, handle, hmode, ensure, play,
    readAt_outside (Nat.not_le.mp hout)] at hcall
  split_ifs at hcall
  · exact hcall.2 rfl
  · exact hcall.1 rfl

/-! ## Loading -/

theorem saveRecording_eq (m : Movie) : ∃ file, m.saveRecording = { m with file := file } := by
  unfold saveRecording
  split_ifs
  · exact ⟨_, rfl⟩
  · exact ⟨m.file, rfl⟩

theorem serialize_of_not_accepts (h : ¬m.Accepts saved) :
    (m.serialize saved).1 ≠ none ∧ (Same (m.serialize saved).2 m ↔ m.Agrees saved) := by
  have hsame : ∀ file, Same { m.loadPosition saved with file := file } m ↔ m.Agrees saved :=
    fun file => ⟨fun hs => ⟨hs.1, hs.2, hs.4, hs.5⟩,
      fun ⟨h1, h2, h3, h4⟩ => ⟨h1, h2, rfl, h3, h4, rfl, rfl⟩⟩
  unfold serialize
  dsimp only
  by_cases hid : m.id = saved.id
  · obtain ⟨hzero, hpost, hreadOnly, htimeline⟩ := not_or.mp (not_and.mp h hid) |>.imp_right
      fun hrest => (not_or.mp hrest).imp_right not_or.mp
    rw [Bool.not_eq_false] at hreadOnly
    obtain ⟨file, hfile⟩ := saveRecording_eq (m.loadPosition saved)
    simp only [if_neg (not_not.mpr hid), if_neg hzero, if_neg hpost, if_pos hreadOnly, hfile]
    split_ifs with hlen hprefix
    · exact ⟨by simp, hsame file⟩
    · exact absurd ⟨Nat.not_le.mp hlen, hprefix⟩ htimeline
    · exact ⟨by simp, hsame file⟩
  · rw [if_pos hid]
    exact ⟨by simp, hsame m.file⟩

/-- A movie that is loaded continues rightly when its position is right. -/
theorem continues_iff (hinput : m.readOnly = true → m'.recordedInput = m.recordedInput) :
    Continues m saved m' ↔ m'.currentByte ≤ m'.recordedInput.length ∧ (m.readOnly = true →
      m'.recordedInput.take m'.currentByte = saved.recordedInput.take m'.currentByte) ∧ m'.Ready := by
  constructor
  · exact fun h => ⟨h.inside, fun hreadOnly => (h.kept hreadOnly).2, ready_of_handle h.reads⟩
  · rintro ⟨hinside, hkept, hready⟩
    refine ⟨hinside, fun hreadOnly => ⟨hinput hreadOnly, hkept hreadOnly⟩, fun calls => ⟨?_, ?_⟩, ?_⟩
    · exact fun he => absurd (ready_handleAll hready he) (by decide)
    · exact fun he => absurd (ready_handleAll hready he) (by decide)
    · intro _ type s m'' hrecord
      rw [(of_record hrecord).2.2, Nat.sub_eq_zero_of_le hinside, List.replicate_zero,
        List.append_nil]

/-- What `serialize` succeeds with, where a movie is loaded. -/
theorem serialize_of_accepts (h : m.Accepts saved) (hmovie : m.id ≠ 0) :
    (m.serialize saved).1 = none ∧ (Continues m saved (m.serialize saved).2 ↔ m.Placed saved) := by
  obtain ⟨hid, h⟩ := h
  have h := h.resolve_left hmovie
  unfold serialize
  dsimp only
  simp only [if_neg (not_not.mpr hid), if_neg hmovie]
  by_cases hreadOnly : m.readOnly = true
  · obtain ⟨file, hfile⟩ := saveRecording_eq (m.loadPosition saved)
    simp only [if_pos hreadOnly, hfile, Placed]
    by_cases hpost : saved.postMovie = true
    · simp only [if_pos hpost]
      refine ⟨trivial, (continues_iff fun _ => by rfl).trans ?_⟩
      simp [Ready, loadPosition, hpost, hreadOnly]
    · obtain ⟨hlen, hprefix⟩ := (h.resolve_left hpost).resolve_left (by simp [hreadOnly])
      simp only [if_neg hpost, if_neg (Nat.not_le.mpr hlen), if_pos hprefix]
      refine ⟨trivial, (continues_iff fun _ => by rfl).trans ?_⟩
      simp [Ready, loadPosition, hpost, hreadOnly]
  · simp only [if_neg hreadOnly, Placed]
    by_cases hpost : saved.postMovie = true
    · simp only [if_pos hpost]
      refine ⟨trivial, (continues_iff fun h => absurd h hreadOnly).trans ?_⟩
      simp [Ready, loadPosition, hreadOnly]
    · simp only [if_neg hpost]
      refine ⟨trivial, (continues_iff fun h => absurd h hreadOnly).trans ?_⟩
      simp [Ready, loadPosition, hreadOnly]

/-- Loading is consistent exactly when an accepted savestate has a right position, and any other has
the position and the clock of the movie. -/
theorem consistent_iff (m : Movie) (saved : Savestate) :
    m.Consistent saved ↔
      if m.Accepts saved then m.id ≠ 0 → m.Placed saved else m.Agrees saved := by
  split_ifs with h
  · constructor
    · intro hcons hmovie
      obtain ⟨hnone, hplaced⟩ := serialize_of_accepts h hmovie
      exact hplaced.mp (hcons.succeeds hnone hmovie)
    · intro hplaced
      refine ⟨fun hthrows => ?_, fun _ hmovie => ?_⟩
      · by_cases hmovie : m.id = 0
        · refine absurd ?_ hthrows
          unfold serialize
          simp only [if_neg (not_not.mpr h.1), if_pos hmovie]
        · exact absurd (serialize_of_accepts h hmovie).1 hthrows
      · exact (serialize_of_accepts h hmovie).2.mpr (hplaced hmovie)
  · obtain ⟨hthrows, hsame⟩ := serialize_of_not_accepts h
    exact ⟨fun hcons => hsame.mp (hcons.throws hthrows),
      fun hagrees => ⟨fun _ => hsame.mpr hagrees, fun hnone _ => absurd hnone hthrows⟩⟩

/-- A movie of one entry, at its beginning. -/
def oneEntry : Movie :=
  ⟨.playing, 0, 0, [0, 0, 0, 0, 0, 0, 0], 0, 0, 1, 1, 1, true, none, by decide⟩

/-- A savestate that was made without a movie: loading it is refused, and has moved the position. -/
theorem oneEntry_not_consistent :
    ¬oneEntry.Consistent ⟨70, 10, [], 0, 0, 0, false, by decide⟩ := by
  intro h
  exact absurd (h.throws (by decide)).currentByte (by decide)

end Movie

end GbaStation.Core
