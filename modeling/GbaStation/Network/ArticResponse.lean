import GbaStation.Common.Checked
import GbaStation.Network.ArticClient

/-!
# The buffers of a response (`Client::Response::GetResponseBuffer`)

The body of a successful response is a sequence of records, each a header with an id and a size, and
then as many bytes. A pointer into the body is its distance from the start: 64-bit addresses do not
wrap around on sums of 32-bit sizes.
-/

namespace GbaStation.Network

open List (length_append append_assoc flatMap_cons)

namespace Artic

/-! ## The search -/

/-- `sizeof(ArticBaseCommon::Buffer)`. -/
def headerSize : Nat := 8

/-- A `u32` in the body. -/
def readU32 (body : List Byte) (offset : Nat) : Except Fault (BitVec 32) := do
  let bytes ← readAt body offset 4
  return .ofNat 32 (littleEndian bytes)

/-- The loop of `GetResponseBuffer`. Each turn is past a header. -/
def findBuffer (body : List Byte) (bufferId : BitVec 32) (start stop : Nat) :
    Except Fault (Option (Nat × Nat)) :=
  if start + headerSize < stop then do
    let currId ← readU32 body start
    let currSize ← readU32 body (start + 4)
    let data := start + headerSize
    if currId = bufferId then
      if data + currSize.toNat ≤ stop then return some (data, currSize.toNat) else return none
    else findBuffer body bufferId (data + currSize.toNat) stop
  else return none
termination_by stop - start
decreasing_by
  rename_i hlt
  unfold headerSize at hlt ⊢
  omega

/-- `Client::Response::GetResponseBuffer`: where the data of the buffer is, and its size. -/
def Response.getResponseBuffer (r : Response) (bufferId : BitVec 32) :
    Except Fault (Option (Nat × Nat)) :=
  match r.respDataBuffer with
  | none => return none
  | some body => findBuffer body bufferId 0 r.respDataSize

/-- What a caller then reads. -/
def Response.bufferBytes (r : Response) (bufferId : BitVec 32) :
    Except Fault (Option (List Byte)) := do
  match ← r.getResponseBuffer bufferId with
  | none => return none
  | some (data, size) => return some (← readAt (r.respDataBuffer.getD []) data size)

/-- A successful response with this body, as the handler fills it in. -/
def Response.received (packet : DataPacket) (body : List Byte) : Response :=
  Response.fill {} { packet with articResult := success, bufferSize := body.length } body

variable {body pre post : List Byte} {bufferId : BitVec 32} {start stop : Nat}

theorem readU32_inside {offset : Nat} (h : offset + 4 ≤ body.length) :
    readU32 body offset = .ok (.ofNat 32 (littleEndian (bytesAt body offset 4))) := by
  rw [readU32, readAt_inside h]
  rfl

/-- What a turn does, with the header that it sees. -/
theorem findBuffer_turn {id size : BitVec 32} (hlt : start + headerSize < stop)
    (hid : readU32 body start = .ok id) (hsize : readU32 body (start + 4) = .ok size) :
    findBuffer body bufferId start stop =
      if id = bufferId then
        if start + headerSize + size.toNat ≤ stop then
          .ok (some (start + headerSize, size.toNat))
        else .ok none
      else findBuffer body bufferId (start + headerSize + size.toNat) stop := by
  rw [findBuffer, if_pos hlt, hid]
  show (readU32 body (start + 4) >>= _) = _
  rw [hsize]
  rfl

theorem findBuffer_stop (hle : stop ≤ start + headerSize) :
    findBuffer body bufferId start stop = .ok none := by
  rw [findBuffer, if_neg (Nat.not_lt.mpr hle)]
  rfl

/-- Each turn leaves less of the body, so the induction is on what is left. -/
theorem findBuffer_inside (bufferId : BitVec 32) (start : Nat) (hstop : stop ≤ body.length) :
    ∃ result, findBuffer body bufferId start stop = .ok result ∧
      ∀ range ∈ result, range.1 + range.2 ≤ stop := by
  induction hleft : stop - start using Nat.strong_induction_on generalizing start with
  | h left ih =>
    by_cases hlt : start + headerSize < stop
    · have hheader : start + 4 + 4 ≤ body.length := Nat.le_of_lt (hlt.trans_le hstop)
      rw [findBuffer_turn hlt (readU32_inside (by omega)) (readU32_inside hheader)]
      split_ifs with hid hfits
      · refine ⟨_, rfl, ?_⟩
        rintro _ ⟨⟩
        exact hfits
      · exact ⟨none, rfl, nofun⟩
      · refine ih _ ?_ _ rfl
        unfold headerSize at hlt ⊢
        omega
    · exact ⟨none, findBuffer_stop (Nat.not_lt.mp hlt), nofun⟩

/-! ## Records -/

/-- A buffer of a response. -/
structure Record where
  bufferId : BitVec 32
  bufferSize : BitVec 32
  data : List Byte
  sized : data.length = bufferSize.toNat

/-- A `u32` as it is sent. -/
def u32Bytes (value : BitVec 32) : List Byte := (List.range 4).map (bytesOf value.toNat)

def Record.encode (r : Record) : List Byte := u32Bytes r.bufferId ++ u32Bytes r.bufferSize ++ r.data

/-- The body that consists of these records. -/
def encode (records : List Record) : List Byte := records.flatMap Record.encode

theorem length_u32Bytes (value : BitVec 32) : (u32Bytes value).length = 4 := by
  rw [u32Bytes, List.length_map, List.length_range]

theorem length_encode (r : Record) : r.encode.length = headerSize + r.bufferSize.toNat := by
  rw [Record.encode, length_append, length_append, length_u32Bytes, length_u32Bytes,
    r.sized]
  rfl

theorem littleEndian_u32Bytes (value : BitVec 32) :
    littleEndian (u32Bytes value) = value.toNat :=
  (littleEndian_map_bytesOf 4 _).trans (Nat.mod_eq_of_lt value.isLt)

/-- A `u32` is read as it was sent. -/
theorem readU32_u32Bytes {offset : Nat} {value : BitVec 32}
    (hbody : body = pre ++ (u32Bytes value ++ post)) (hpre : pre.length = offset) :
    readU32 body offset = .ok value := by
  have hinside : offset + 4 ≤ body.length := by
    rw [hbody, length_append, length_append, length_u32Bytes, hpre]
    omega
  rw [readU32_inside hinside, hbody, bytesAt_prefix hpre (length_u32Bytes value),
    littleEndian_u32Bytes, BitVec.ofNat_toNat, BitVec.setWidth_eq]

/-- A turn at a record that is not an empty one at the end. -/
theorem findBuffer_record {r : Record} (hbody : body = pre ++ (r.encode ++ post))
    (hpre : pre.length = start) (hdata : r.data ≠ [] ∨ post ≠ []) :
    findBuffer body bufferId start body.length =
      if r.bufferId = bufferId then .ok (some (start + headerSize, r.bufferSize.toNat))
      else findBuffer body bufferId (start + headerSize + r.bufferSize.toNat) body.length := by
  have hlength : body.length = start + (headerSize + r.bufferSize.toNat) + post.length := by
    rw [hbody, length_append, length_append, length_encode, hpre, ← Nat.add_assoc]
  have hlt : start + headerSize < body.length := by
    have hmore : 0 < r.bufferSize.toNat + post.length := by
      rw [← r.sized]
      rcases hdata with hdata | hpost
      · exact Nat.add_pos_left (List.length_pos_iff.mpr hdata) _
      · exact Nat.add_pos_right _ (List.length_pos_iff.mpr hpost)
    omega
  have hid : readU32 body start = .ok r.bufferId := by
    have hsplit : body = pre ++ (u32Bytes r.bufferId ++ (u32Bytes r.bufferSize ++ r.data ++ post)) := by
      rw [hbody, Record.encode]
      simp only [append_assoc]
    exact readU32_u32Bytes hsplit hpre
  have hsize : readU32 body (start + 4) = .ok r.bufferSize := by
    have hsplit : body = (pre ++ u32Bytes r.bufferId) ++ (u32Bytes r.bufferSize ++ (r.data ++ post)) := by
      rw [hbody, Record.encode]
      simp only [append_assoc]
    refine readU32_u32Bytes hsplit ?_
    rw [length_append, length_u32Bytes, hpre]
  rw [findBuffer_turn hlt hid hsize]
  split_ifs with heq hfits
  · rfl
  · omega
  · rfl

/-- Records with other ids are passed over. -/
theorem findBuffer_others {front : List Record} (hbody : body = pre ++ (encode front ++ post))
    (hpre : pre.length = start) (hpost : post ≠ [])
    (hother : ∀ r ∈ front, r.bufferId ≠ bufferId) :
    findBuffer body bufferId start body.length =
      findBuffer body bufferId (start + (encode front).length) body.length := by
  induction front generalizing pre start with
  | nil => rfl
  | cons r front ih =>
    have hsplit : body = pre ++ (r.encode ++ (encode front ++ post)) := by
      rw [hbody, encode, flatMap_cons, append_assoc]
      rfl
    have hmore : encode front ++ post ≠ [] := fun hnil => hpost (List.append_eq_nil_iff.mp hnil).2
    rw [findBuffer_record hsplit hpre (.inr hmore), if_neg (hother r List.mem_cons_self)]
    have hnext : (pre ++ r.encode).length = start + headerSize + r.bufferSize.toNat := by
      rw [length_append, length_encode, hpre, Nat.add_assoc]
    rw [ih (hsplit.trans (append_assoc ..).symm) hnext
      fun q hq => hother q (List.mem_cons_of_mem r hq)]
    have hsum : (encode (r :: front)).length =
        headerSize + r.bufferSize.toNat + (encode front).length := by
      rw [encode, flatMap_cons, length_append, length_encode]
      rfl
    rw [hsum, Nat.add_assoc, Nat.add_assoc, Nat.add_assoc]

/-! ## What a response answers -/

variable {packet : DataPacket} {records front rest : List Record} {r : Record}

/-- The search stays inside the body, and so does what it finds. -/
def StaysInside (packet : DataPacket) (body : List Byte) (bufferId : BitVec 32) : Prop :=
  ∃ result, (Response.received packet body).getResponseBuffer bufferId = .ok result ∧
    ∀ range ∈ result, range.1 + range.2 ≤ body.length

/-- A buffer of the response holds the bytes of the first record with its id. -/
def AnswersFirst (packet : DataPacket) (records : List Record) (bufferId : BitVec 32) : Prop :=
  (Response.received packet (encode records)).bufferBytes bufferId =
    .ok ((records.find? fun r => r.bufferId = bufferId).map Record.data)

/-- The first record with the id is an empty one at the end. -/
def EmptyAtEnd (records : List Record) (bufferId : BitVec 32) : Prop :=
  ∃ front r, records = front ++ [r] ∧ r.data = [] ∧ r.bufferId = bufferId ∧
    ∀ q ∈ front, q.bufferId ≠ bufferId

/-- An empty body has no buffer, and is searched all the same. -/
theorem getResponseBuffer_received (packet : DataPacket) (body : List Byte)
    (bufferId : BitVec 32) :
    (Response.received packet body).getResponseBuffer bufferId =
      findBuffer body bufferId 0 body.length := by
  rw [Response.received, Response.fill, if_pos rfl]
  by_cases hnil : body = []
  · subst hnil
    exact (findBuffer_stop (Nat.zero_le _)).symm
  · have hsize : (body.length : Int) ≠ 0 := by
      rw [Ne, Int.natCast_eq_zero, List.length_eq_zero_iff]
      exact hnil
    simp only [ne_eq, hsize, not_false_eq_true, if_true]
    rfl

theorem getD_respDataBuffer_received (packet : DataPacket) (body : List Byte) :
    (Response.received packet body).respDataBuffer.getD [] = body := by
  rw [Response.received, Response.fill, if_pos rfl]
  cases body with
  | nil => rfl
  | cons b body => rfl

theorem bufferBytes_received :
    (Response.received packet body).bufferBytes bufferId = (do
      match ← findBuffer body bufferId 0 body.length with
      | none => return none
      | some (data, size) => return some (← readAt body data size)) := by
  rw [Response.bufferBytes, getResponseBuffer_received, getD_respDataBuffer_received]

/-- Nothing is found where no record has the id. -/
theorem findBuffer_absent (hbody : body = pre ++ encode records) (hpre : pre.length = start)
    (hother : ∀ r ∈ records, r.bufferId ≠ bufferId) :
    findBuffer body bufferId start body.length = .ok none := by
  induction records generalizing pre start with
  | nil =>
    rw [encode, List.flatMap_nil, List.append_nil] at hbody
    subst hbody hpre
    exact findBuffer_stop (Nat.le_add_right ..)
  | cons r records ih =>
    have hsplit : body = pre ++ (r.encode ++ encode records) := by
      rw [hbody, encode, flatMap_cons]
      rfl
    have hnext : (pre ++ r.encode).length = start + headerSize + r.bufferSize.toNat := by
      rw [length_append, length_encode, hpre, Nat.add_assoc]
    by_cases hdata : r.data ≠ [] ∨ encode records ≠ []
    · rw [findBuffer_record hsplit hpre hdata, if_neg (hother r List.mem_cons_self)]
      exact ih (hsplit.trans (append_assoc ..).symm) hnext
        fun q hq => hother q (List.mem_cons_of_mem r hq)
    · rw [not_or, not_not, not_not] at hdata
      refine findBuffer_stop (Nat.le_of_eq ?_)
      rw [hsplit, hdata.2, List.append_nil, length_append, length_encode, ← r.sized, hdata.1,
        hpre]
      rfl

/-- The first record with the id is found, unless it is an empty one at the end. -/
theorem findBuffer_first (hrecords : records = front ++ r :: rest) (hid : r.bufferId = bufferId)
    (hother : ∀ q ∈ front, q.bufferId ≠ bufferId) :
    findBuffer (encode records) bufferId 0 (encode records).length =
      if r.data = [] ∧ rest = [] then .ok none
      else .ok (some ((encode front).length + headerSize, r.bufferSize.toNat)) := by
  have hbody : encode records = encode front ++ (r.encode ++ encode rest) := by
    rw [hrecords, encode, List.flatMap_append, flatMap_cons]
    rfl
  have hheader : r.encode ++ encode rest ≠ [] := by
    refine fun hnil => absurd (congrArg List.length (List.append_eq_nil_iff.mp hnil).1) ?_
    rw [length_encode]
    exact Nat.ne_of_gt (Nat.add_pos_left (by decide) _)
  have hskip : findBuffer (encode records) bufferId 0 (encode records).length =
      findBuffer (encode records) bufferId (0 + (encode front).length) (encode records).length :=
    findBuffer_others (hbody.trans (List.nil_append _).symm) rfl hheader hother
  rw [hskip, Nat.zero_add]
  split_ifs with hempty
  · -- The header ends where the body does, and the loop asks for more.
    obtain ⟨hdata, rfl⟩ := hempty
    refine findBuffer_stop (Nat.le_of_eq ?_)
    rw [hbody, length_append, length_append, length_encode, ← r.sized, hdata]
    rfl
  · rw [findBuffer_record hbody rfl ?_, if_pos hid]
    rcases not_and_or.mp hempty with hdata | hrest
    · exact .inl hdata
    · obtain ⟨q, rest, rfl⟩ := List.exists_cons_of_ne_nil hrest
      refine .inr fun hnil => absurd (congrArg List.length hnil) ?_
      rw [encode, flatMap_cons, length_append, length_encode]
      exact Nat.ne_of_gt (Nat.add_pos_left (Nat.add_pos_left (by decide) _) _)

theorem readAt_data (hrecords : records = front ++ r :: rest) :
    readAt (encode records) ((encode front).length + headerSize) r.bufferSize.toNat =
      .ok r.data := by
  have hbody : encode records =
      (encode front ++ (u32Bytes r.bufferId ++ u32Bytes r.bufferSize)) ++
        (r.data ++ encode rest) := by
    rw [hrecords, encode, List.flatMap_append, flatMap_cons, Record.encode]
    simp only [append_assoc]
    rfl
  have hpre : (encode front ++ (u32Bytes r.bufferId ++ u32Bytes r.bufferSize)).length =
      (encode front).length + headerSize := by
    rw [length_append, length_append, length_u32Bytes, length_u32Bytes]
    rfl
  rw [readAt_inside, hbody, bytesAt_prefix hpre r.sized]
  rw [hbody, length_append, hpre, length_append, r.sized, ← Nat.add_assoc]
  exact Nat.le_add_right ..

/-- Where the first record with an id is. -/
theorem emptyAtEnd_iff (hrecords : records = front ++ r :: rest) (hid : r.bufferId = bufferId)
    (hother : ∀ q ∈ front, q.bufferId ≠ bufferId) :
    EmptyAtEnd records bufferId ↔ r.data = [] ∧ rest = [] := by
  constructor
  · rintro ⟨front', r', hrecords', hdata, hid', hother'⟩
    rcases List.append_eq_append_iff.mp (hrecords.symm.trans hrecords') with
      ⟨between, rfl, hrest⟩ | ⟨between, rfl, hrest⟩
    · cases between with
      | nil =>
        cases hrest
        exact ⟨hdata, rfl⟩
      | cons q between =>
        cases hrest
        exact absurd hid (hother' r (List.mem_append_right _ List.mem_cons_self))
    · cases between with
      | nil =>
        cases hrest
        exact ⟨hdata, rfl⟩
      | cons q between =>
        obtain ⟨rfl, hnil⟩ := List.cons_eq_cons.mp hrest
        cases between <;> cases hnil
  · rintro ⟨hdata, rfl⟩
    exact ⟨front, r, hrecords, hdata, hid, hother⟩

theorem answersFirst_iff (packet : DataPacket) (records : List Record) (bufferId : BitVec 32) :
    AnswersFirst packet records bufferId ↔ ¬ EmptyAtEnd records bufferId := by
  rw [AnswersFirst, bufferBytes_received]
  cases hfind : records.find? fun r => r.bufferId = bufferId with
  | none =>
    have hother : ∀ r ∈ records, r.bufferId ≠ bufferId := by
      simpa using List.find?_eq_none.mp hfind
    have hnone : findBuffer (encode records) bufferId 0 (encode records).length = .ok none :=
      findBuffer_absent (List.nil_append _).symm rfl hother
    rw [hnone]
    refine iff_of_true rfl ?_
    rintro ⟨front, r, rfl, -, hid, -⟩
    exact hother r (List.mem_append_right _ List.mem_cons_self) hid
  | some r =>
    obtain ⟨hid, front, rest, hrecords, hother⟩ := List.find?_eq_some_iff_append.mp hfind
    have hid : r.bufferId = bufferId := of_decide_eq_true hid
    have hother : ∀ q ∈ front, q.bufferId ≠ bufferId := by simpa using hother
    rw [emptyAtEnd_iff hrecords hid hother, findBuffer_first hrecords hid hother]
    split_ifs with hempty
    · exact iff_of_false nofun (not_not.mpr hempty)
    · refine iff_of_true ?_ hempty
      show (readAt _ _ _ >>= _) = _
      rw [readAt_data hrecords]
      rfl

/-- Whatever a server sends, the search stays inside it. A body of records gives the bytes of the
first record with an id, or none, exactly if that record is not an empty one at the end. -/
theorem response_decodes (packet : DataPacket) :
    (∀ body bufferId, StaysInside packet body bufferId) ∧
      ∀ records bufferId, AnswersFirst packet records bufferId ↔ ¬ EmptyAtEnd records bufferId := by
  constructor
  · intro body bufferId
    rw [StaysInside, getResponseBuffer_received]
    exact findBuffer_inside bufferId 0 le_rfl
  · exact answersFirst_iff packet

/-- The answer to a read of no bytes. -/
theorem not_answersFirst_empty :
    ¬ AnswersFirst ⟨1, success, 0, 8⟩ [⟨0, 0, [], rfl⟩] 0 := by
  intro h
  rw [AnswersFirst, bufferBytes_received, findBuffer_stop (by decide)] at h
  cases h

end Artic

end GbaStation.Network
