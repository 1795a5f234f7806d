import GbaStation.Cheats.Gateway

/-!
# Patches

A patch copies bytes out of the lines behind it, eight from each, whole words at first and then the
bytes that are left.
-/

namespace GbaStation.Cheats

variable {M : Type} {mem : CheatMemory M} {lines pre data post : List CheatLine}
  {line : CheatLine} {m : M} {addr : Word} {n : Nat}

/-! ## Bytes -/

/-- The bytes of a word, the lowest first. -/
def wordBytes (w : Word) : List (BitVec 8) :=
  [w.extractLsb' 0 8, w.extractLsb' 8 8, w.extractLsb' 16 8, w.extractLsb' 24 8]

/-- The words that a line holds for a patch. -/
def dataWords (line : CheatLine) : List Word := [line.first, line.value]

/-- The bytes that a line holds for a patch. -/
def dataBytes (line : CheatLine) : List (BitVec 8) := wordBytes line.first ++ wordBytes line.value

/-- Bytes that are written one after the other. -/
def writeBytes (mem : CheatMemory M) (m : M) (addr : Word) : List (BitVec 8) → M
  | [] => m
  | b :: bs => writeBytes mem (mem.write8 m addr b) (addr + 1) bs

theorem writeBytes_append (bs cs : List (BitVec 8)) :
    writeBytes mem m addr (bs ++ cs) =
      writeBytes mem (writeBytes mem m addr bs) (addr + .ofNat 32 bs.length) cs := by
  induction bs generalizing m addr with
  | nil =>
    have hzero : addr + BitVec.ofNat 32 0 = addr := BitVec.add_zero addr
    rw [List.nil_append, List.length_nil, hzero]
    rfl
  | cons b bs ih =>
    show writeBytes mem (mem.write8 m addr b) (addr + 1) (bs ++ cs) = _
    rw [ih]
    congr 1
    rw [BitVec.add_assoc]
    refine congrArg (addr + ·) ?_
    apply BitVec.eq_of_toNat_eq
    simp [Nat.add_comm]

/-- A patch of `n` bytes: words, and the first bytes of the last one. -/
def writeData (mem : CheatMemory M) (m : M) (addr : Word) : Nat → List Word → M
  | _, [] => m
  | n, w :: ws =>
    if 4 ≤ n then writeData mem (mem.write32 m addr w) (addr + 4) (n - 4) ws
    else writeBytes mem m addr ((wordBytes w).take n)

theorem writeData_zero (ws : List Word) : writeData mem m addr 0 ws = m := by
  cases ws <;> rfl

theorem length_dataBytes (line : CheatLine) : (dataBytes line).length = 8 := rfl

/-- A memory in which a value that is there may be written again, and a word is written as its bytes,
the lowest first. The memory of a process is like that for a word in one page; one that goes on into
the next page is written behind the page, so that this is true only if the next page is there. -/
structure BytewiseMemory (M : Type) extends CheatMemory M where
  write8_read8 : ∀ m a, write8 m a (read8 m a) = m
  write16_read16 : ∀ m a, write16 m a (read16 m a) = m
  write32_read32 : ∀ m a, write32 m a (read32 m a) = m
  write32_bytes : ∀ m a v, write32 m a v =
    write8 (write8 (write8 (write8 m a (v.extractLsb' 0 8)) (a + 1) (v.extractLsb' 8 8))
      (a + 2) (v.extractLsb' 16 8)) (a + 3) (v.extractLsb' 24 8)

instance : CoeOut (BytewiseMemory M) (CheatMemory M) := ⟨BytewiseMemory.toCheatMemory⟩

/-- The bytes of a patch are those of its words. -/
theorem writeData_eq (mem : BytewiseMemory M) (ws : List Word) :
    writeData mem m addr n ws = writeBytes mem m addr ((ws.flatMap wordBytes).take n) := by
  induction ws generalizing m addr n with
  | nil => rw [List.flatMap_nil, List.take_nil, writeData, writeBytes]
  | cons w ws ih =>
    rw [writeData, List.flatMap_cons, List.take_append]
    split_ifs with hn
    · have h2 : addr + 1 + 1 = addr + 2 := by bv_omega
      have h3 : addr + 2 + 1 = addr + 3 := by bv_omega
      have hword : (wordBytes w).take n = wordBytes w := List.take_of_length_le hn
      rw [ih, mem.write32_bytes, hword, writeBytes_append]
      simp only [wordBytes, writeBytes, h2, h3]
      rfl
    · have hnone : n - (wordBytes w).length = 0 := Nat.sub_eq_zero_of_le (Nat.le_of_not_le hn)
      rw [hnone, List.take_zero, List.append_nil]

/-! ## Lines -/

theorem lineAt_append (hlines : lines = pre ++ line :: post) :
    lineAt lines pre.length = .ok line := by
  show (lines[pre.length]?).elim _ _ = _
  rw [hlines, List.getElem?_append_right le_rfl, Nat.sub_self]
  rfl

theorem lineAt_end : lineAt lines lines.length = .error .read := by
  show (lines[lines.length]?).elim _ _ = _
  rw [List.getElem?_eq_none le_rfl]
  rfl

/-- A line is read exactly if there is one with that number. -/
theorem lineAt_ok_iff {i : Int} :
    lineAt lines i = .ok line ↔ ∃ pre post, lines = pre ++ line :: post ∧ i = pre.length := by
  constructor
  · intro h
    cases i with
    | negSucc i => cases h
    | ofNat i =>
      cases hi : lines[i]? with
      | none =>
        simp only [lineAt, hi] at h
        cases h
      | some line' =>
        simp only [lineAt, hi] at h
        obtain rfl := Except.ok.inj h
        obtain ⟨hlt, rfl⟩ := List.getElem?_eq_some_iff.mp hi
        refine ⟨lines.take i, lines.drop (i + 1), ?_, ?_⟩
        · rw [List.getElem_cons_drop, List.take_append_drop]
        · rw [List.length_take, Nat.min_eq_left (Nat.le_of_lt hlt)]
          rfl
  · rintro ⟨pre, post, hlines, rfl⟩
    exact lineAt_append hlines

/-! ## The two loops -/

variable {lineNr : Int} {first : Bool}

theorem patchWords_first (hn : 4 ≤ n) (hline : lineAt lines lineNr = .ok line) :
    patchWords mem lines true lineNr addr n m =
      patchWords mem lines false lineNr (addr + 4) (n - 4) (mem.write32 m addr line.first) := by
  rw [patchWords, if_pos hn, hline]
  rfl

theorem patchWords_second (hn : 4 ≤ n) (hline : lineAt lines lineNr = .ok line) :
    patchWords mem lines false lineNr addr n m =
      patchWords mem lines true (if 4 < n then lineNr + 1 else lineNr) (addr + 4) (n - 4)
        (mem.write32 m addr line.value) := by
  rw [patchWords, if_pos hn, hline]
  simp only [Bool.not_false, Bool.true_and, decide_eq_true_eq]
  rfl

theorem patchWords_rest (hn : n < 4) :
    patchWords mem lines first lineNr addr n m = .ok (first, lineNr, addr, m) := by
  rw [patchWords, if_neg (Nat.not_le.mpr hn)]
  rfl

theorem patchBytes_succ {bitOffset : Nat} (hline : lineAt lines lineNr = .ok line) :
    patchBytes mem lines first lineNr addr bitOffset (n + 1) m =
      patchBytes mem lines first lineNr (addr + 1) (bitOffset + 8) n
        (mem.write8 m addr ((if first then line.first else line.value).extractLsb' bitOffset 8)) := by
  have hbyte : ∀ w : Word, (w >>> bitOffset).setWidth 8 = w.extractLsb' bitOffset 8 := fun w => by
    ext i hi
    simp
  rw [patchBytes, hline, ← hbyte]
  rfl

/-- Less than a word is left of the first or the second word of a line. -/
theorem patchBytes_word (hn : n < 4) (hline : lineAt lines lineNr = .ok line) :
    patchBytes mem lines first lineNr addr 0 n m =
      .ok (writeBytes mem m addr
        ((wordBytes (if first then line.first else line.value)).take n)) := by
  obtain rfl | rfl | rfl | rfl : n = 0 ∨ n = 1 ∨ n = 2 ∨ n = 3 := by omega
  · rfl
  · rw [patchBytes_succ hline]
    rfl
  · rw [patchBytes_succ hline, patchBytes_succ hline]
    rfl
  · rw [patchBytes_succ hline, patchBytes_succ hline, patchBytes_succ hline]
    rfl

/-- `PatchOp` from the first of the lines behind it on. -/
def patchData (mem : CheatMemory M) (lines : List CheatLine) (lineNr : Int) (addr : Word) (n : Nat)
    (m : M) : Except Fault (Int × M) := do
  let (first, lineNr, addr, m) ← patchWords mem lines true lineNr addr n m
  let m ← patchBytes mem lines first lineNr addr 0 (n % 4) m
  return (lineNr, m)

/-- The induction is on the lines that are left. As long as there are more than eight bytes, a line
gives both of its words; the last line gives what is left. -/
theorem patchData_eq (hlines : lines = pre ++ data) (hn : 0 < n) :
    patchData mem lines pre.length addr n m =
      if patchLines n ≤ data.length then
        .ok ((pre.length : Int) + patchLines n - 1,
          writeData mem m addr n (data.flatMap dataWords))
      else .error .read := by
  induction data generalizing pre addr n m with
  | nil =>
    rw [List.append_nil] at hlines
    subst hlines
    have hpos : ¬ patchLines n ≤ ([] : List CheatLine).length := by
      show ¬ (n + 7) / 8 ≤ 0
      omega
    rw [if_neg hpos, patchData]
    by_cases hword : 4 ≤ n
    · rw [patchWords, if_pos hword, lineAt_end]
      rfl
    · obtain ⟨k, rfl⟩ := Nat.exists_eq_add_one_of_ne_zero (Nat.ne_of_gt hn)
      rw [patchWords_rest (Nat.lt_of_not_le hword), Nat.mod_eq_of_lt (Nat.lt_of_not_le hword)]
      show (patchBytes _ _ _ _ _ _ _ _ >>= _) = _
      rw [patchBytes, lineAt_end]
      rfl
  | cons line data ih =>
    have hline : lineAt lines pre.length = .ok line := lineAt_append hlines
    have hwords : (line :: data).flatMap dataWords =
        line.first :: line.value :: data.flatMap dataWords := rfl
    rw [hwords, writeData]
    by_cases hmore : 8 < n
    · have hnext : lines = (pre ++ [line]) ++ data := by
        rw [hlines, List.append_assoc]
        rfl
      have hlast : 4 < n - 4 := by omega
      have hstep : patchData mem lines pre.length addr n m =
          patchData mem lines (pre ++ [line]).length (addr + 4 + 4) (n - 4 - 4)
            (mem.write32 (mem.write32 m addr line.first) (addr + 4) line.value) := by
        have hrest : (n - 4 - 4) % 4 = n % 4 := by omega
        rw [patchData, patchData, patchWords_first (by omega) hline,
          patchWords_second (Nat.le_of_lt hlast) hline, if_pos hlast, hrest, List.length_append,
          List.length_singleton, Nat.cast_add, Nat.cast_one]
      have hlines' : patchLines n = patchLines (n - 4 - 4) + 1 := by
        unfold patchLines
        omega
      rw [hstep, ih hnext (by omega), if_pos (show 4 ≤ n by omega), writeData,
        if_pos (Nat.le_of_lt hlast), hlines', List.length_cons, List.length_append,
        List.length_singleton]
      split_ifs with hle hle' hle'
      · congr 2
        omega
      · omega
      · omega
      · rfl
    · have hone : patchLines n = 1 := by
        unfold patchLines
        omega
      have henough : patchLines n ≤ (line :: data).length := by
        rw [hone]
        exact Nat.succ_pos _
      have hlineNr : (pre.length : Int) + (1 : Nat) - 1 = pre.length := by omega
      rw [if_pos henough, hone, patchData, hlineNr]
      by_cases hword : 4 ≤ n
      · rw [if_pos hword, writeData, patchWords_first hword hline]
        by_cases hboth : n = 8
        · -- both words, and nothing is left
          subst hboth
          rw [patchWords_second (by decide) hline, if_neg (by decide), patchWords_rest (by decide),
            if_pos (by decide), writeData_zero]
          rfl
        · have hrest : n % 4 = n - 4 := by omega
          rw [patchWords_rest (by omega), if_neg (show ¬ 4 ≤ n - 4 by omega)]
          show (patchBytes _ _ _ _ _ _ _ _ >>= _) = _
          rw [hrest, patchBytes_word (by omega) hline]
          rfl
      · rw [if_neg hword, patchWords_rest (Nat.lt_of_not_le hword)]
        show (patchBytes _ _ _ _ _ _ _ _ >>= _) = _
        rw [Nat.mod_eq_of_lt (Nat.lt_of_not_le hword),
          patchBytes_word (Nat.lt_of_not_le hword) hline]
        rfl

/-! ## The opcode -/

variable {r : Machine M}

/-- A patch that is executed: all of its lines are there, or it reads outside. -/
theorem patchOp_executed (hflag : r.state.ifFlag = 0) (hlines : lines = pre ++ line :: data)
    (hline : r.state.currentLineNr = pre.length) :
    patchOp mem lines line r =
      if patchLines line.value.toNat ≤ data.length then
        .ok { state := { r.state with
                currentLineNr := (pre.length : Int) + patchLines line.value.toNat }
              memory := writeData mem r.memory (line.address + r.state.offset) line.value.toNat
                (data.flatMap dataWords) }
      else .error .read := by
  rw [patchOp, if_neg fun hpos => word_pos.mp hpos hflag]
  by_cases hn : 0 < line.value.toNat
  · have hnext : lines = (pre ++ [line]) ++ data := by
      rw [hlines, List.append_assoc]
      rfl
    have hlast : (pre.length : Int) + 1 + patchLines line.value.toNat - 1 =
        pre.length + patchLines line.value.toNat := by omega
    have hdata : patchData mem lines (pre.length + 1) (line.address + r.state.offset)
        line.value.toNat r.memory =
        if patchLines line.value.toNat ≤ data.length then
          .ok ((pre.length : Int) + patchLines line.value.toNat,
            writeData mem r.memory (line.address + r.state.offset) line.value.toNat
              (data.flatMap dataWords))
        else .error .read := by
      rw [← hlast]
      simpa using patchData_eq hnext hn
    have hshape : (do
        let (first, lineNr, addr, m) ← patchWords mem lines true (pre.length + 1)
          (line.address + r.state.offset) line.value.toNat r.memory
        let m ← patchBytes mem lines first lineNr addr 0 (line.value.toNat % 4) m
        return ({ state := { r.state with currentLineNr := lineNr }, memory := m } : Machine M)) =
        (patchData mem lines (pre.length + 1) (line.address + r.state.offset) line.value.toNat
          r.memory >>= fun (lineNr, m) =>
            .ok { state := { r.state with currentLineNr := lineNr }, memory := m }) := by
      rw [patchData, bind_assoc]
      cases patchWords mem lines true (pre.length + 1) (line.address + r.state.offset)
        line.value.toNat r.memory with
      | error e => rfl
      | ok words =>
        obtain ⟨first, lineNr, addr, m⟩ := words
        show (patchBytes _ _ _ _ _ _ _ _ >>= _) = ((patchBytes _ _ _ _ _ _ _ _ >>= _) >>= _)
        rw [bind_assoc]
        rfl
    simp only [if_pos hn, hline]
    rw [hshape, hdata]
    split_ifs <;> rfl
  · have hzero : line.value.toNat = 0 := Nat.eq_zero_of_not_pos hn
    have hnone : patchLines 0 ≤ data.length := Nat.zero_le _
    rw [hzero, if_pos hnone, writeData_zero]
    simp only [Nat.lt_irrefl, if_false]
    rw [patchWords_rest (by decide)]
    obtain ⟨s, m⟩ := r
    obtain ⟨reg, offset, flag, count, back, current, loopFlag⟩ := s
    have hline : current = pre.length := hline
    subst hline
    rfl

/-- A patch that is skipped. -/
theorem patchOp_skipped (hflag : r.state.ifFlag ≠ 0) :
    patchOp mem lines line r = .ok { r with state := { r.state with
      currentLineNr := r.state.currentLineNr + patchLines line.value.toNat } } := by
  rw [patchOp, if_pos (word_pos.mpr hflag)]
  rfl

end GbaStation.Cheats
