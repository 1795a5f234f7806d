import GbaStation.Kernel.Ipc

/-!
# Translation and the end of the command

The loops over the translate parameters compare their index with the size of the command once for
every descriptor, and the case for handles compares once more. The process id, a static buffer and
a mapped buffer have a word of their own, which is accessed without a comparison: behind a
descriptor in the last word of the command there is none.

- `translation_in_bounds_iff`: the translate parameters of which every descriptor has its words.
-/

namespace GbaStation.Kernel.Ipc

variable {α β σ : Type}

/-- A failed `ASSERT` is all that a computation stops at: it ends, and accesses nothing outside. -/
def StaysInside (x : Except Fault α) : Prop := ∀ e, x = .error e → e = .assertion

theorem staysInside_ok (a : α) : StaysInside (.ok a : Except Fault α) := nofun

theorem staysInside_assertion : StaysInside (.error .assertion : Except Fault α) := by
  intro e he
  cases he
  rfl

/-! ## The words behind a descriptor -/

def carriesHandles (descriptor : CommandWord) : Bool :=
  match getDescriptorType descriptor with
  | .copyHandle | .moveHandle => true
  | _ => false

/-- The words that `TranslateCommandBuffer` and `PopulateFromIncomingCommandBuffer` take behind a
descriptor that is not one of handles. -/
def incomingWords : DescriptorType → Nat
  | .callingPid | .staticBuffer | .mappedBuffer => 1
  | _ => 0

/-- The words that `WriteToOutgoingCommandBuffer` takes behind such a descriptor. -/
def outgoingWords : DescriptorType → Nat
  | .staticBuffer | .mappedBuffer => 1
  | _ => 0

variable {takes : DescriptorType → Nat}

/-- The words that belong to a descriptor. -/
def width (takes : DescriptorType → Nat) (descriptor : CommandWord) : Nat :=
  if carriesHandles descriptor then handleNumberFromDesc descriptor
  else takes (getDescriptorType descriptor)

/-- Behind the first words, which are skipped, every descriptor has the words that belong to it, up
to one of more handles than there are words left: the functions stop there. -/
def parametersFit (takes : DescriptorType → Nat) : Nat → List CommandWord → Bool
  | _, [] => true
  | skip + 1, _ :: words => parametersFit takes skip words
  | 0, descriptor :: words =>
    if width takes descriptor ≤ words.length then parametersFit takes (width takes descriptor) words
    else carriesHandles descriptor

theorem parametersFit_skip (words : List CommandWord) (skip : Nat) :
    parametersFit takes skip words = parametersFit takes 0 (words.drop skip) := by
  induction words generalizing skip with
  | nil => simp [parametersFit]
  | cons word words ih =>
    cases skip with
    | zero => rfl
    | succ skip => simpa [parametersFit] using ih skip

variable {i : Nat} {b : β} {word : CommandWord}

/-- The walk, as the loops do it: by an index into the words of the command. -/
theorem parametersFit_drop {words : List CommandWord} (hi : i < words.length) :
    parametersFit takes 0 (words.drop i) =
      if i + 1 + width takes words[i] ≤ words.length then
        parametersFit takes 0 (words.drop (i + 1 + width takes words[i]))
      else carriesHandles words[i] := by
  rw [List.drop_eq_getElem_cons hi, parametersFit, parametersFit_skip, List.drop_drop,
    List.length_drop]
  congr 1
  exact propext (by omega)

/-! ## A loop -/

/-- What the turns of a loop do over the words of a command. `inv` is what the loop keeps of its
buffers at an index, and `answers` says that no `ASSERT` of the services fails. -/
structure Walks (words : List CommandWord) (takes : DescriptorType → Nat) (answers : Prop)
    (inv : Nat → β → Prop) (descriptor : Nat → β → Except Fault (CommandWord × β))
    (translate : CommandWord → Nat → β → σ → Except Fault (Step β σ)) : Prop where
  reads {i : Nat} {b : β} (hinv : inv i b) (hi : i < words.length) :
    ∃ b', descriptor i b = .ok (words[i], b') ∧ inv (i + 1) b'
  fits {word : CommandWord} {i : Nat} {b : β} (s : σ) (hinv : inv i b)
    (hi : i + width takes word ≤ words.length) :
    (translate word i b s = .error .assertion ∧ ¬answers) ∨
      ∃ b' s', translate word i b s = .ok (.next (i + width takes word) b' s') ∧
        inv (i + width takes word) b'
  /-- There are fewer words left than handles. -/
  tooLarge {word : CommandWord} {i : Nat} {b : β} (s : σ) (hinv : inv i b)
    (hi : words.length < i + width takes word) (hword : carriesHandles word = true) :
    StaysInside (translate word i b s) ∧
      ∀ i' b' s', translate word i b s ≠ .ok (.next i' b' s')
  /-- There is no word left for the parameter. -/
  overruns {word : CommandWord} {i : Nat} {b : β} (s : σ) (hinv : inv i b)
    (hle : i ≤ words.length) (hi : words.length < i + width takes word)
    (hword : carriesHandles word = false) :
    answers → ¬StaysInside (translate word i b s)

namespace Walks

variable {words : List CommandWord} {answers : Prop} {inv : Nat → β → Prop}
  {descriptor : Nat → β → Except Fault (CommandWord × β)}
  {translate : CommandWord → Nat → β → σ → Except Fault (Step β σ)}

/-- A turn of the loop at a descriptor that has its words. -/
theorem turn (h : Walks words takes answers inv descriptor translate) (fuel : Nat) (s : σ)
    (hinv : inv i b) (hi : i < words.length) (hfits : i + 1 + width takes words[i] ≤ words.length) :
    (translateWords words.length descriptor translate (fuel + 1) i b s = .error .assertion ∧
        ¬answers) ∨
      ∃ b' s', inv (i + 1 + width takes words[i]) b' ∧
        translateWords words.length descriptor translate (fuel + 1) i b s =
          translateWords words.length descriptor translate fuel
            (i + 1 + width takes words[i]) b' s' := by
  obtain ⟨b₁, hread, hinv₁⟩ := h.reads hinv hi
  rw [translateWords, if_neg (by omega), hread]
  rcases h.fits s hinv₁ hfits with ⟨hassert, hno⟩ | ⟨b₂, s₂, hnext, hinv₂⟩
  · left
    exact ⟨by simp only [bind, Except.bind, hassert], hno⟩
  · right
    exact ⟨b₂, s₂, hinv₂, by simp only [bind, Except.bind, hnext]⟩

/-- The loop ends inside the command where every descriptor has its words. Where one lacks a word, it
leaves the command, unless it stops at an `ASSERT` before it is there. The induction is on the fuel,
of which every turn takes one unit and at least one word. -/
theorem bounds (h : Walks words takes answers inv descriptor translate) (fuel : Nat) :
    ∀ {i : Nat} {b : β} (s : σ), inv i b → i ≤ words.length → words.length < i + fuel →
      (parametersFit takes 0 (words.drop i) = true →
        StaysInside (translateWords words.length descriptor translate fuel i b s)) ∧
      (answers → StaysInside (translateWords words.length descriptor translate fuel i b s) →
        parametersFit takes 0 (words.drop i) = true) := by
  induction fuel with
  | zero =>
    intro i b s _ hi hfuel
    omega
  | succ fuel ih =>
    intro i b s hinv hi hfuel
    by_cases hend : words.length ≤ i
    · rw [translateWords, if_pos hend, List.drop_eq_nil_of_le hend]
      exact ⟨fun _ => staysInside_ok _, fun _ _ => rfl⟩
    push Not at hend
    rw [parametersFit_drop hend]
    by_cases hroom : i + 1 + width takes words[i] ≤ words.length
    · rw [if_pos hroom]
      rcases h.turn fuel s hinv hend hroom with ⟨hassert, hno⟩ | ⟨b', s', hinv', hturn⟩
      · rw [hassert]
        exact ⟨fun _ => staysInside_assertion, fun hanswers => absurd hanswers hno⟩
      · rw [hturn]
        exact ih s' hinv' hroom (by omega)
    · rw [if_neg hroom]
      push Not at hroom
      obtain ⟨b', hread, hinv'⟩ := h.reads hinv hend
      rw [translateWords, if_neg (by omega), hread]
      refine ⟨fun hfit => ?_, fun hanswers hinside => ?_⟩
      · obtain ⟨hinside, hnext⟩ := h.tooLarge s hinv' hroom hfit
        -- A case that does not go on is the result of the loop.
        cases hstep : translate words[i] (i + 1) b' s with
        | error e =>
          have he : e = .assertion := hinside e hstep
          simpa only [bind, Except.bind, hstep, he] using staysInside_assertion
        | ok step =>
          cases step with
          | returned result b'' s'' =>
            simpa only [bind, Except.bind, hstep] using staysInside_ok _
          | next i' b'' s'' => exact absurd hstep (hnext i' b'' s'')
      · by_contra hfit
        refine h.overruns s hinv' hend hroom (Bool.eq_false_iff.mpr hfit) hanswers fun e he => ?_
        exact hinside e (by simp only [bind, Except.bind, he])

end Walks

/-! ## The cases -/

/-- What reading and writing a word of a command of the given size does. -/
structure Accesses (size : Nat) (inv : Nat → β → Prop) (read : Nat → β → Except Fault CommandWord)
    (write : Nat → CommandWord → β → Except Fault β) : Prop where
  skip {i : Nat} {b : β} (hinv : inv i b) : inv (i + 1) b
  read_inside {i : Nat} {b : β} (hinv : inv i b) (hi : i < size) : ∃ word, read i b = .ok word
  write_inside {i : Nat} {b : β} (word : CommandWord) (hinv : inv i b) (hi : i < size) :
    ∃ b', write i word b = .ok b' ∧ inv (i + 1) b'
  read_outside {i : Nat} {b : β} (hinv : inv i b) (hi : size ≤ i) : read i b = .error .read
  write_outside {i : Nat} {b : β} (word : CommandWord) (hinv : inv i b) (hi : size ≤ i) :
    write i word b = .error .write

variable {size : Nat} {inv : Nat → β → Prop} {read : Nat → β → Except Fault CommandWord}
  {write : Nat → CommandWord → β → Except Fault β}

/-- Handles that are inside the command are replaced there. -/
theorem Accesses.translateHandles (h : Accesses size inv read write)
    (handle : CommandWord → σ → Option (CommandWord × σ)) (n : Nat) :
    ∀ {i : Nat} {b : β} (s : σ), inv i b → i + n ≤ size →
      (translateHandles read write handle n i b s = .error .assertion ∧
          ∃ word s', handle word s' = none) ∨
        ∃ b' s', translateHandles read write handle n i b s = .ok (b', s') ∧ inv (i + n) b' := by
  induction n with
  | zero =>
    intro i b s hinv _
    exact .inr ⟨b, s, rfl, hinv⟩
  | succ n ih =>
    intro i b s hinv hi
    obtain ⟨word, hword⟩ := h.read_inside hinv (by omega)
    cases hhandle : handle word s with
    | none =>
      left
      refine ⟨?_, word, s, hhandle⟩
      simp only [Ipc.translateHandles, bind, Except.bind, hword, hhandle]
    | some r =>
      obtain ⟨b', hb', hinv'⟩ := h.write_inside r.1 hinv (by omega)
      rw [show i + (n + 1) = i + 1 + n by omega] at hi ⊢
      have hloop : Ipc.translateHandles read write handle (n + 1) i b s =
          Ipc.translateHandles read write handle n (i + 1) b' r.2 := by
        simp only [Ipc.translateHandles, bind, Except.bind, hword, hhandle, hb']
      rw [hloop]
      exact ih r.2 hinv' hi

/-- No `ASSERT` of the services fails. -/
structure Services.Answers (k : Services σ) : Prop where
  handle (descriptor handle : CommandWord) (s : σ) : k.handle descriptor handle s ≠ none
  staticBuffer (descriptor address : CommandWord) (s : σ) :
    k.staticBuffer descriptor address s ≠ none
  mappedBuffer (descriptor address : CommandWord) (s : σ) :
    k.mappedBuffer descriptor address s ≠ none

/-- The case for a descriptor that has its words. -/
theorem Accesses.incomingDescriptor_fits (h : Accesses size inv read write)
    (tooLarge : β → σ → Except Fault (Step β σ)) (k : Services σ) (s : σ) (hinv : inv i b)
    (hi : i + width incomingWords word ≤ size) :
    (incomingDescriptor read write tooLarge k size word i b s = .error .assertion ∧ ¬k.Answers) ∨
      ∃ b' s', incomingDescriptor read write tooLarge k size word i b s =
          .ok (.next (i + width incomingWords word) b' s') ∧
        inv (i + width incomingWords word) b' := by
  unfold incomingDescriptor
  cases ht : getDescriptorType word with
  | copyHandle | moveHandle =>
    have hw : width incomingWords word = handleNumberFromDesc word := by
      simp [width, carriesHandles, ht]
    rw [hw] at hi ⊢
    rw [if_neg (by omega)]
    rcases h.translateHandles (k.handle word) _ s hinv hi with
      ⟨hassert, handle, s', hnone⟩ | ⟨b', s', hloop, hinv'⟩
    · left
      exact ⟨by simp only [bind, Except.bind, hassert], fun ha => ha.handle _ _ _ hnone⟩
    · right
      exact ⟨b', s', by simp only [bind, Except.bind, hloop], hinv'⟩
  | callingPid =>
    have hw : width incomingWords word = 1 := by
      simp [width, carriesHandles, ht, incomingWords]
    rw [hw] at hi ⊢
    obtain ⟨b', hwrite, hinv'⟩ := h.write_inside (k.callingPid s) hinv hi
    right
    exact ⟨b', s, by simp only [bind, Except.bind, hwrite], hinv'⟩
  | staticBuffer =>
    have hw : width incomingWords word = 1 := by
      simp [width, carriesHandles, ht, incomingWords]
    rw [hw] at hi ⊢
    obtain ⟨address, hread⟩ := h.read_inside hinv hi
    cases hk : k.staticBuffer word address s with
    | none =>
      left
      exact ⟨by simp only [bind, Except.bind, hread, hk], fun ha => ha.staticBuffer _ _ _ hk⟩
    | some r =>
      obtain ⟨b', hwrite, hinv'⟩ := h.write_inside r.1 hinv hi
      right
      exact ⟨b', r.2, by simp only [bind, Except.bind, hread, hk, hwrite], hinv'⟩
  | mappedBuffer =>
    have hw : width incomingWords word = 1 := by
      simp [width, carriesHandles, ht, incomingWords]
    rw [hw] at hi ⊢
    obtain ⟨address, hread⟩ := h.read_inside hinv hi
    cases hk : k.mappedBuffer word address s with
    | none =>
      left
      exact ⟨by simp only [bind, Except.bind, hread, hk], fun ha => ha.mappedBuffer _ _ _ hk⟩
    | some r =>
      obtain ⟨replacement, s'⟩ := r
      right
      cases replacement with
      | none => exact ⟨b, s', by simp only [bind, Except.bind, hread, hk], h.skip hinv⟩
      | some replacement =>
        obtain ⟨b', hwrite, hinv'⟩ := h.write_inside replacement hinv hi
        exact ⟨b', s', by simp only [bind, Except.bind, hread, hk, hwrite], hinv'⟩
  | pxiBuffer | unnamed =>
    have hw : width incomingWords word = 0 := by
      simp [width, carriesHandles, ht, incomingWords]
    right
    exact ⟨b, s, by rw [hw]; rfl, by rwa [hw]⟩

theorem carriesHandles_iff :
    carriesHandles word = true ↔
      getDescriptorType word = .copyHandle ∨ getDescriptorType word = .moveHandle := by
  unfold carriesHandles
  cases getDescriptorType word <;> simp

/-- The case for more handles than there are words left. -/
theorem incomingDescriptor_tooLarge (read : Nat → β → Except Fault CommandWord)
    (write : Nat → CommandWord → β → Except Fault β) (tooLarge : β → σ → Except Fault (Step β σ))
    (k : Services σ) (b : β) (s : σ) (hi : size < i + width incomingWords word)
    (hword : carriesHandles word = true) :
    incomingDescriptor read write tooLarge k size word i b s = tooLarge b s := by
  rw [width, if_pos hword] at hi
  unfold incomingDescriptor
  rcases carriesHandles_iff.mp hword with ht | ht
  · rw [ht]
    exact if_pos hi
  · rw [ht]
    exact if_pos hi

/-- The cases that reach for a word where there is none. -/
theorem Accesses.incomingDescriptor_overruns (h : Accesses size inv read write)
    (tooLarge : β → σ → Except Fault (Step β σ)) (k : Services σ) (s : σ) (hinv : inv i b)
    (hle : i ≤ size) (hi : size < i + width incomingWords word)
    (hword : carriesHandles word = false) :
    ¬StaysInside (incomingDescriptor read write tooLarge k size word i b s) := by
  rw [width, hword, if_neg Bool.false_ne_true] at hi
  unfold incomingDescriptor
  cases ht : getDescriptorType word with
  | copyHandle | moveHandle =>
    have hhandle : carriesHandles word = true := carriesHandles_iff.mpr (by simp [ht])
    rw [hword] at hhandle
    cases hhandle
  | callingPid =>
    have hout : size ≤ i := by simp only [ht, incomingWords] at hi; omega
    simp only [bind, Except.bind, h.write_outside (k.callingPid s) hinv hout]
    exact fun hinside => nomatch hinside _ rfl
  | staticBuffer | mappedBuffer =>
    have hout : size ≤ i := by simp only [ht, incomingWords] at hi; omega
    simp only [bind, Except.bind, h.read_outside hinv hout]
    exact fun hinside => nomatch hinside _ rfl
  | pxiBuffer | unnamed =>
    simp only [ht, incomingWords] at hi
    omega

/-- A loop over the words that a process sends. -/
theorem Accesses.incoming_walks {words : List CommandWord}
    (h : Accesses words.length inv read write) {k : Services σ}
    {tooLarge : β → σ → Except Fault (Step β σ)}
    {descriptor : Nat → β → Except Fault (CommandWord × β)}
    (hreads : ∀ {i b}, inv i b → ∀ hi : i < words.length,
      ∃ b', descriptor i b = .ok (words[i], b') ∧ inv (i + 1) b')
    (htooLarge : ∀ b s, StaysInside (tooLarge b s) ∧
      ∀ i' b' s', tooLarge b s ≠ .ok (.next i' b' s')) :
    Walks words incomingWords k.Answers inv descriptor
      (incomingDescriptor read write tooLarge k words.length) where
  reads := hreads
  fits s hinv hi := h.incomingDescriptor_fits tooLarge k s hinv hi
  tooLarge s _ hi hword := by
    rw [incomingDescriptor_tooLarge read write tooLarge k _ s hi hword]
    exact htooLarge _ s
  overruns s hinv hle hi hword _ := h.incomingDescriptor_overruns tooLarge k s hinv hle hi hword

/-! ## Reading and writing the words -/

/-- The words of `TranslateCommandBuffer`, which are replaced where the loop has been. -/
def Ahead (words : List CommandWord) (i : Nat) (cmdBuf : List CommandWord) : Prop :=
  cmdBuf.length = words.length ∧ cmdBuf.drop i = words.drop i

theorem Ahead.skip {words cmdBuf : List CommandWord} (h : Ahead words i cmdBuf) :
    Ahead words (i + 1) cmdBuf := by
  refine ⟨h.1, ?_⟩
  rw [← List.drop_drop, h.2, List.drop_drop]

theorem readWord_outside {words : List CommandWord} (hi : words.length ≤ i) :
    readWord i words = .error .read := by
  rw [readWord, List.getElem?_eq_none hi]

theorem readWord_inside {words : List CommandWord} (hi : i < words.length) :
    readWord i words = .ok words[i] := by
  rw [readWord, List.getElem?_eq_getElem hi]

/-- The loop of `TranslateCommandBuffer` works in place. -/
theorem accesses_inPlace (words : List CommandWord) :
    Accesses words.length (Ahead words) readWord writeWord where
  skip hinv := hinv.skip
  read_inside hinv hi := ⟨_, readWord_inside (hinv.1 ▸ hi)⟩
  write_inside {i cmdBuf} word hinv hi := by
    refine ⟨cmdBuf.set i word, if_pos (hinv.1 ▸ hi), ?_, ?_⟩
    · rw [List.length_set, hinv.1]
    · rw [List.drop_set_of_lt (Nat.lt_succ_self i)]
      exact hinv.skip.2
  read_outside hinv hi := readWord_outside (hinv.1 ▸ hi)
  write_outside word hinv hi := if_neg (by rw [hinv.1]; omega)

/-- The words that are read, and as many words to write. -/
def Beside (words : List CommandWord) (_ : Nat) (b : Buffers) : Prop :=
  b.src = words ∧ b.dst.length = words.length

/-- The loops of the other two functions read one command and write another. -/
theorem accesses_beside (words : List CommandWord) :
    Accesses words.length (Beside words) Buffers.read Buffers.write where
  skip hinv := hinv
  read_inside {i b} hinv hi := ⟨words[i], by rw [Buffers.read, hinv.1, readWord_inside hi]⟩
  write_inside {i b} word hinv hi := by
    refine ⟨{ b with dst := b.dst.set i word }, ?_, hinv.1, ?_⟩
    · rw [Buffers.write, writeWord, if_pos (hinv.2 ▸ hi)]
      rfl
    · rw [List.length_set, hinv.2]
  read_outside hinv hi := by rw [Buffers.read, hinv.1, readWord_outside hi]
  write_outside word hinv hi := by
    rw [Buffers.write, writeWord, if_neg (by rw [hinv.2]; omega)]
    rfl

theorem copy_reads {words : List CommandWord} {b : Buffers} (hinv : Beside words i b)
    (hi : i < words.length) :
    ∃ b', Buffers.copy i b = .ok (words[i], b') ∧ Beside words (i + 1) b' := by
  obtain ⟨b', hwrite, hinv'⟩ := (accesses_beside words).write_inside words[i] hinv hi
  have hread : b.read i = .ok words[i] := by rw [Buffers.read, hinv.1, readWord_inside hi]
  exact ⟨b', by simp only [Buffers.copy, bind, Except.bind, hread, hwrite], hinv'⟩

/-! ## The words a service sends -/

/-- No `ASSERT` of the services fails. -/
structure OutgoingServices.Answers (k : OutgoingServices σ) : Prop where
  handle (handle : CommandWord) (s : σ) : k.handle handle s ≠ none
  staticBuffer (descriptor : CommandWord) (s : σ) : k.staticBuffer descriptor s ≠ none
  mappedBuffer (id : CommandWord) (s : σ) : k.mappedBuffer id s ≠ none

/-- The loop of `WriteToOutgoingCommandBuffer`. -/
theorem outgoing_walks (words : List CommandWord) (k : OutgoingServices σ) :
    Walks words outgoingWords k.Answers (Beside words) Buffers.copy
      (writeDescriptor k words.length) where
  reads hinv hi := copy_reads hinv hi
  fits {word i b} s hinv hi := by
    have h := accesses_beside words
    unfold writeDescriptor
    cases ht : getDescriptorType word with
    | copyHandle | moveHandle =>
      have hw : width outgoingWords word = handleNumberFromDesc word := by
        simp [width, carriesHandles, ht]
      rw [hw] at hi ⊢
      rw [if_neg (by omega)]
      rcases h.translateHandles k.handle _ s hinv hi with
        ⟨hassert, handle, s', hnone⟩ | ⟨b', s', hloop, hinv'⟩
      · left
        exact ⟨by simp only [bind, Except.bind, hassert], fun ha => ha.handle _ _ hnone⟩
      · right
        exact ⟨b', s', by simp only [bind, Except.bind, hloop], hinv'⟩
    | staticBuffer =>
      have hw : width outgoingWords word = 1 := by
        simp [width, carriesHandles, ht, outgoingWords]
      rw [hw] at hi ⊢
      cases hk : k.staticBuffer word s with
      | none =>
        left
        exact ⟨by simp only, fun ha => ha.staticBuffer _ _ hk⟩
      | some r =>
        obtain ⟨b', hwrite, hinv'⟩ := h.write_inside r.1 hinv hi
        right
        exact ⟨b', r.2, by simp only [bind, Except.bind, hwrite], hinv'⟩
    | mappedBuffer =>
      have hw : width outgoingWords word = 1 := by
        simp [width, carriesHandles, ht, outgoingWords]
      rw [hw] at hi ⊢
      obtain ⟨id, hread⟩ := h.read_inside hinv hi
      cases hk : k.mappedBuffer id s with
      | none =>
        left
        exact ⟨by simp only [bind, Except.bind, hread, hk], fun ha => ha.mappedBuffer _ _ hk⟩
      | some address =>
        obtain ⟨b', hwrite, hinv'⟩ := h.write_inside address hinv hi
        right
        exact ⟨b', s, by simp only [bind, Except.bind, hread, hk, hwrite], hinv'⟩
    | callingPid | pxiBuffer | unnamed =>
      have hw : width outgoingWords word = 0 := by
        simp [width, carriesHandles, ht, outgoingWords]
      right
      exact ⟨b, s, by rw [hw]; rfl, by rwa [hw]⟩
  tooLarge {word i b} s _ hi hword := by
    have hassert : writeDescriptor k words.length word i b s = .error .assertion := by
      rw [width, if_pos hword] at hi
      unfold writeDescriptor
      rcases carriesHandles_iff.mp hword with ht | ht
      · rw [ht]
        exact if_pos hi
      · rw [ht]
        exact if_pos hi
    rw [hassert]
    exact ⟨staysInside_assertion, fun _ _ _ => nofun⟩
  overruns {word i b} s hinv hle hi hword := by
    intro hanswers
    rw [width, hword, if_neg Bool.false_ne_true] at hi
    have h := accesses_beside words
    unfold writeDescriptor
    cases ht : getDescriptorType word with
    | copyHandle | moveHandle =>
      have hhandle : carriesHandles word = true := carriesHandles_iff.mpr (by simp [ht])
      rw [hword] at hhandle
      cases hhandle
    | staticBuffer =>
      have hout : words.length ≤ i := by simp only [ht, outgoingWords] at hi; omega
      -- The `ASSERT` on the size of the buffer stands before the word is written.
      cases hk : k.staticBuffer word s with
      | none => exact absurd hk (hanswers.staticBuffer _ _)
      | some r =>
        simp only [bind, Except.bind, h.write_outside r.1 hinv hout]
        exact fun hinside => nomatch hinside _ rfl
    | mappedBuffer =>
      have hout : words.length ≤ i := by simp only [ht, outgoingWords] at hi; omega
      simp only [bind, Except.bind, h.read_outside hinv hout]
      exact fun hinside => nomatch hinside _ rfl
    | callingPid | pxiBuffer | unnamed =>
      simp only [ht, outgoingWords] at hi
      omega

/-! ## The three functions -/

variable {buffer : CommandBuffer}

/-- The translate parameters of a command. -/
def translateParams (buffer : CommandBuffer) : List CommandWord :=
  let header := getElem buffer 0 commandBufferLength_pos
  (buffer.toList.take (commandSize header)).drop (untranslatedSize header)

/-- Every descriptor of a command that is translated has its words. -/
def IncomingFits (buffer : CommandBuffer) : Prop :=
  parametersFit incomingWords 0 (translateParams buffer) = true

/-- Every descriptor of a command that a service writes has its words. -/
def OutgoingFits (buffer : CommandBuffer) : Prop :=
  parametersFit outgoingWords 0 (translateParams buffer) = true

instance : Decidable (IncomingFits buffer) := inferInstanceAs (Decidable (_ = _))

instance : Decidable (OutgoingFits buffer) := inferInstanceAs (Decidable (_ = _))

theorem length_words (hsize : commandSize buffer[0] ≤ commandBufferLength) :
    (buffer.toList.take (commandSize buffer[0])).length = commandSize buffer[0] := by
  rw [List.length_take, Vector.length_toList]
  exact Nat.min_eq_left hsize

theorem untranslatedSize_le (header : CommandWord) : untranslatedSize header ≤ commandSize header :=
  Nat.le_add_right _ _

/-- A loop over the words of a command, from the translate parameters on. -/
theorem Walks.staysInside_iff {takes : DescriptorType → Nat} {answers : Prop}
    {descriptor : Nat → β → Except Fault (CommandWord × β)}
    {translate : CommandWord → Nat → β → σ → Except Fault (Step β σ)}
    (hsize : commandSize buffer[0] ≤ commandBufferLength)
    (h : Walks (buffer.toList.take (commandSize buffer[0])) takes answers inv descriptor translate)
    (s : σ) (hinv : inv (untranslatedSize buffer[0]) b) :
    (parametersFit takes 0 (translateParams buffer) = true →
      StaysInside (translateWords (commandSize buffer[0]) descriptor translate
        (commandSize buffer[0] + 1) (untranslatedSize buffer[0]) b s)) ∧
    (answers → StaysInside (translateWords (commandSize buffer[0]) descriptor translate
        (commandSize buffer[0] + 1) (untranslatedSize buffer[0]) b s) →
      parametersFit takes 0 (translateParams buffer) = true) := by
  have hlen := length_words hsize
  have hstart := untranslatedSize_le buffer[0]
  have hbounds := h.bounds (commandSize buffer[0] + 1) s hinv (by omega) (by omega)
  rwa [hlen] at hbounds

theorem beside_start (src dst : CommandBuffer) {size : Nat} (hsize : size ≤ commandBufferLength)
    {untranslated : Nat} (huntranslated : untranslated ≤ size) (i : Nat) :
    Beside (src.toList.take size) i (.start src dst untranslated size) := by
  refine ⟨rfl, ?_⟩
  simp only [Buffers.start, List.length_take, List.length_append, List.length_drop,
    Vector.length_toList]
  omega

/-- The loop of `TranslateCommandBuffer`. -/
theorem translate_walks (words : List CommandWord) (k : Services σ) :
    Walks words incomingWords k.Answers (Ahead words)
      (fun i cmdBuf => do .ok (← readWord i cmdBuf, cmdBuf))
      (translateDescriptor k words.length) := by
  refine (accesses_inPlace words).incoming_walks (fun {i cmdBuf} hinv hi => ?_) fun b s => ?_
  · have hi' : i < cmdBuf.length := by rw [hinv.1]; exact hi
    have hword : cmdBuf[i] = words[i] := by
      have hdrop := congrArg (fun l => l[0]?) hinv.2
      simpa [hi', hi] using hdrop
    exact ⟨cmdBuf, by simp only [bind, Except.bind, readWord_inside hi', hword], hinv.skip⟩
  · exact ⟨staysInside_ok _, fun _ _ _ => nofun⟩

/-- The loop of `PopulateFromIncomingCommandBuffer`. -/
theorem populate_walks (words : List CommandWord) (k : Services σ) :
    Walks words incomingWords k.Answers (Beside words) Buffers.copy
      (populateDescriptor k words.length) := by
  refine (accesses_beside words).incoming_walks copy_reads fun b s => ?_
  exact ⟨staysInside_assertion, fun _ _ _ => nofun⟩

theorem translateCommandBuffer_staysInside (hsize : commandSize buffer[0] ≤ commandBufferLength)
    (k : Services σ) (s : σ) :
    (IncomingFits buffer → StaysInside (translateCommandBuffer k buffer s)) ∧
      (k.Answers → StaysInside (translateCommandBuffer k buffer s) → IncomingFits buffer) := by
  have hwalks := translate_walks (buffer.toList.take (commandSize buffer[0])) k
  rw [length_words hsize] at hwalks
  rw [translateCommandBuffer, if_neg (by omega)]
  exact hwalks.staysInside_iff hsize s ⟨rfl, rfl⟩

theorem populateFromIncomingCommandBuffer_staysInside
    (hsize : commandSize buffer[0] ≤ commandBufferLength) (cmdBuf : CommandBuffer)
    (k : Services σ) (s : σ) :
    (IncomingFits buffer → StaysInside (populateFromIncomingCommandBuffer k buffer cmdBuf s)) ∧
      (k.Answers → StaysInside (populateFromIncomingCommandBuffer k buffer cmdBuf s) →
        IncomingFits buffer) := by
  have hwalks := populate_walks (buffer.toList.take (commandSize buffer[0])) k
  rw [length_words hsize] at hwalks
  rw [populateFromIncomingCommandBuffer, if_neg (by omega)]
  exact hwalks.staysInside_iff hsize s (beside_start _ _ hsize (untranslatedSize_le _) _)

theorem writeToOutgoingCommandBuffer_staysInside
    (hsize : commandSize buffer[0] ≤ commandBufferLength) (dst : CommandBuffer)
    (k : OutgoingServices σ) (s : σ) :
    (OutgoingFits buffer → StaysInside (writeToOutgoingCommandBuffer k buffer dst s)) ∧
      (k.Answers → StaysInside (writeToOutgoingCommandBuffer k buffer dst s) →
        OutgoingFits buffer) := by
  have hwalks := outgoing_walks (buffer.toList.take (commandSize buffer[0])) k
  rw [length_words hsize] at hwalks
  rw [writeToOutgoingCommandBuffer, if_neg (by omega)]
  exact hwalks.staysInside_iff hsize s (beside_start _ _ hsize (untranslatedSize_le _) _)

/-- A kernel in which every `ASSERT` holds. -/
def answering : Services Unit where
  handle _ handle s := some (handle, s)
  callingPid _ := 0
  staticBuffer _ address s := some (address, s)
  mappedBuffer _ address s := some (some address, s)

theorem answering_answers : answering.Answers := ⟨fun _ _ _ => nofun, fun _ _ _ => nofun,
  fun _ _ _ => nofun⟩

/-- A context in which every `ASSERT` holds. -/
def answeringOutgoing : OutgoingServices Unit where
  handle handle s := some (handle, s)
  staticBuffer _ s := some (0, s)
  mappedBuffer id _ := some id

theorem answeringOutgoing_answers : answeringOutgoing.Answers := ⟨fun _ _ => nofun,
  fun _ _ => nofun, fun _ _ => nofun⟩

/-- The three loops end, and access the command inside its size, whatever the rest of the kernel
answers, exactly for the commands of which every descriptor has its words. -/
theorem translation_in_bounds_iff (buffer other : CommandBuffer)
    (hsize : commandSize buffer[0] ≤ commandBufferLength) :
    ((∀ (σ : Type) (k : Services σ) (s : σ), StaysInside (translateCommandBuffer k buffer s)) ↔
        IncomingFits buffer) ∧
      ((∀ (σ : Type) (k : Services σ) (s : σ),
          StaysInside (populateFromIncomingCommandBuffer k buffer other s)) ↔
        IncomingFits buffer) ∧
      ((∀ (σ : Type) (k : OutgoingServices σ) (s : σ),
          StaysInside (writeToOutgoingCommandBuffer k buffer other s)) ↔
        OutgoingFits buffer) := by
  refine ⟨⟨fun h => ?_, fun h σ k s => ?_⟩, ⟨fun h => ?_, fun h σ k s => ?_⟩,
    fun h => ?_, fun h σ k s => ?_⟩
  · exact (translateCommandBuffer_staysInside hsize answering ()).2 answering_answers (h _ _ _)
  · exact (translateCommandBuffer_staysInside hsize k s).1 h
  · exact (populateFromIncomingCommandBuffer_staysInside hsize other answering ()).2
      answering_answers (h _ _ _)
  · exact (populateFromIncomingCommandBuffer_staysInside hsize other k s).1 h
  · exact (writeToOutgoingCommandBuffer_staysInside hsize other answeringOutgoing ()).2
      answeringOutgoing_answers (h _ _ _)
  · exact (writeToOutgoingCommandBuffer_staysInside hsize other k s).1 h

/-- A command of the full size: 62 normal parameters and one word to translate. -/
def lastWord (descriptor : CommandWord) : CommandBuffer :=
  ((Vector.replicate commandBufferLength 0).set 0 0xF81 commandBufferLength_pos).set 63 descriptor
    (by decide)

/-- A command that ends with a PXI buffer, which takes no word behind its descriptor. -/
theorem translation_in_bounds_lastPxi :
    commandSize (lastWord 0x4)[0] ≤ commandBufferLength ∧
      (∀ (σ : Type) (k : Services σ) (s : σ),
        StaysInside (translateCommandBuffer k (lastWord 0x4) s)) := by
  have hsize : commandSize (lastWord 0x4)[0] ≤ commandBufferLength := by decide +kernel
  exact ⟨hsize, (translation_in_bounds_iff (lastWord 0x4) (lastWord 0x4) hsize).1.mpr
    (by decide +kernel)⟩

/-- A static buffer in the last word of a command: its parameter is the word behind the buffer. -/
theorem lastStaticBuffer_leaves :
    commandSize (lastWord 0x2)[0] ≤ commandBufferLength ∧
      translateCommandBuffer answering (lastWord 0x2) () = .error .read ∧
      populateFromIncomingCommandBuffer answering (lastWord 0x2) (lastWord 0x2) () =
        .error .read ∧
      writeToOutgoingCommandBuffer answeringOutgoing (lastWord 0x2) (lastWord 0x2) () =
        .error .write :=
  ⟨by decide +kernel, rfl, rfl, rfl⟩

end GbaStation.Kernel.Ipc
