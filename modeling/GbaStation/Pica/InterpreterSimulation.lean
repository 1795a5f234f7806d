import GbaStation.Pica.StructuredShader

/-!
# The interpreter runs structured programs

A simulation of the big-step semantics by the iterations of the interpreter.

- The interpreter differs from the semantics in three places, which `Block.Regular` leaves out:
  `aL` behind a nested `LOOP`, an `IF` scope that a `BREAK` leaves open, and an `END` that ends a
  `LOOP`. `slips` has runs that differ.
-/

namespace GbaStation.Pica

open Instruction Machine Block

variable {σ : Type*} {setup : ShaderSetup} {uniforms : Uniforms} {operate : Operate σ}

/-! ## Addresses -/

theorem add32_succ {a : Nat} (h : a < maxProgramCodeLength - 1) : add32 a 1 = a + 1 :=
  add32_eq (by unfold maxProgramCodeLength at h; omega)

theorem add32_jump (instr : BitVec 32) :
    add32 (sub32 (destOffset instr) 1) 1 = destOffset instr := by
  have := destOffset_lt instr
  unfold add32 sub32
  omega

theorem pushBack_eq {α : Type*} {capacity : Nat} (x : α) {stack : List α}
    (h : stack.length < capacity) : pushBack capacity x stack = x :: stack :=
  List.take_of_length_le h

/-- A block ends behind its start, unless it is empty. -/
theorem Block.Laid.lt_or_eq {s : Block} {ends : List Nat} {a b : Nat} (h : s.Laid setup ends a b) :
    a < b ∨ (s = done ∧ a = b) := by
  induction s generalizing ends a b with
  | done => exact .inr ⟨rfl, h⟩
  | op instr rest ih => have := ih h.2.2.2; omega
  | ifElse guard thenPart elsePart rest iht ihe ihr =>
    obtain ⟨-, -, ht, he, hr⟩ := h
    have := iht ht
    have := ihr hr
    omega
  | call guard body rest _ ihr => have := ihr h.2.2.2.2; omega
  | loop id body rest ihb ihr =>
    have := ihb h.2.2.2.1
    have := ihr h.2.2.2.2
    omega
  | brk guard rest ih => have := ih h.2.2; omega
  | stop rest ih => have := ih h.2.2; omega

theorem Block.Laid.le {s : Block} {ends : List Nat} {a b : Nat} (h : s.Laid setup ends a b) :
    a ≤ b := by
  have := h.lt_or_eq
  omega

theorem Block.Laid.lt {s : Block} {ends : List Nat} {a b : Nat} (h : s.Laid setup ends a b)
    (hs : s ≠ done) : a < b :=
  h.lt_or_eq.resolve_right fun hd => hs hd.1

/-! ## Open scopes -/

/-- Every open scope ends where `p` holds. -/
structure Machine.Open (p : Nat → Prop) (m : Machine σ) : Prop where
  ifs : ∀ e ∈ m.ifStack, p e.elseAddress
  calls : ∀ c ∈ m.callStack, p c.endAddress
  loops : ∀ l ∈ m.loopStack, p l.endAddress

variable {p : Nat → Prop}

theorem Machine.Open.mono {q : Nat → Prop} {m : Machine σ} (h : m.Open p) (hpq : ∀ x, p x → q x) :
    m.Open q where
  ifs e he := hpq _ (h.ifs e he)
  calls c hc := hpq _ (h.calls c hc)
  loops l hl := hpq _ (h.loops l hl)

/-- The number of `CALL` scopes that end together at an address. -/
def chain : Nat → List CallStackElement → Nat
  | next, top :: stack => if top.endAddress = next then chain top.returnAddress stack + 1 else 0
  | _, [] => 0

/-- The scopes other than the one that ends with the block. -/
def Away (ends : List Nat) (a b x : Nat) : Prop := x ∈ ends ∧ Clear a b x

theorem Away.ne {ends : List Nat} {a b x next : Nat} (h : Away ends a b x) (ha : a < next)
    (hb : next ≤ b) : x ≠ next := by
  have := h.2
  unfold Clear at this
  omega

theorem Away.cons {ends : List Nat} {a b x : Nat} (h : Away ends a b x) (y : Nat) :
    Away (y :: ends) a b x :=
  ⟨List.mem_cons_of_mem y h.1, h.2⟩

/-- The stacks of the machine when a block at `[a, b)` is run. -/
def Fits (place : Place) (tail : Nat) (ends : List Nat) (a b : Nat) (m : Machine σ) : Prop :=
  match place with
  | .plain => m.Open (Away ends a b)
  | .thenPart =>
    ∃ top stack, m.ifStack = top :: stack ∧ top.elseAddress = b ∧ b ∈ ends ∧
      Open (Away ends a b) { m with ifStack := stack }
  | .loopBody =>
    ∃ top stack, m.loopStack = top :: stack ∧ top.endAddress = b ∧ b ∈ ends ∧
      Open (Away ends a b) { m with loopStack := stack }
  | .subroutine =>
    ∃ top stack, m.callStack = top :: stack ∧ top.endAddress = b ∧ b ∈ ends ∧
      chain top.returnAddress stack = tail ∧ Open (Away ends a b) { m with callStack := stack }

section

variable {place own : Place} {tail next x d : Nat} {ends : List Nat} {a b c : Nat} {m m' : Machine σ}

/-- A scope ends away from the block, or where the block does if that is what the scope opened. -/
def EndsAt (ends : List Nat) (a b : Nat) (place own : Place) (x : Nat) : Prop :=
  x ∈ ends ∧ (Clear a b x ∨ x = b ∧ place = own)

theorem EndsAt.ne (h : EndsAt ends a b place own x) (ha : a < next) (hb : next ≤ b)
    (hplace : place ≠ own) : x ≠ next := by
  rcases h.2 with hclear | ⟨-, heq⟩
  · exact Away.ne ⟨h.1, hclear⟩ ha hb
  · exact absurd heq hplace

/-- Only the scope on top of its stack may end with the block. -/
theorem Fits.scopes (h : Fits place tail ends a b m) :
    (∀ e ∈ m.ifStack, EndsAt ends a b place .thenPart e.elseAddress) ∧
      (∀ c ∈ m.callStack, EndsAt ends a b place .subroutine c.endAddress) ∧
      ∀ l ∈ m.loopStack, EndsAt ends a b place .loopBody l.endAddress := by
  have haway {place own : Place} {x : Nat} (hx : Away ends a b x) : EndsAt ends a b place own x :=
    ⟨hx.1, .inl hx.2⟩
  cases place with
  | plain =>
    exact ⟨fun e he => haway (h.ifs e he), fun c hc => haway (h.calls c hc),
      fun l hl => haway (h.loops l hl)⟩
  | thenPart =>
    obtain ⟨top, stack, hs, rfl, hb, ho⟩ := h
    refine ⟨?_, fun c hc => haway (ho.calls c hc), fun l hl => haway (ho.loops l hl)⟩
    rw [hs]
    exact List.forall_mem_cons.mpr ⟨⟨hb, .inr ⟨rfl, rfl⟩⟩, fun e he => haway (ho.ifs e he)⟩
  | loopBody =>
    obtain ⟨top, stack, hs, rfl, hb, ho⟩ := h
    refine ⟨fun e he => haway (ho.ifs e he), fun c hc => haway (ho.calls c hc), ?_⟩
    rw [hs]
    exact List.forall_mem_cons.mpr ⟨⟨hb, .inr ⟨rfl, rfl⟩⟩, fun l hl => haway (ho.loops l hl)⟩
  | subroutine =>
    obtain ⟨top, stack, hs, rfl, hb, -, ho⟩ := h
    refine ⟨fun e he => haway (ho.ifs e he), ?_, fun l hl => haway (ho.loops l hl)⟩
    rw [hs]
    exact List.forall_mem_cons.mpr ⟨⟨hb, .inr ⟨rfl, rfl⟩⟩, fun c hc => haway (ho.calls c hc)⟩

/-- What all the scopes satisfy, the one that ends with the block included. -/
theorem Fits.open (h : Fits place tail ends a b m) :
    m.Open fun x => x ∈ ends ∧ (Clear a b x ∨ (x = b ∧ place ≠ .plain)) := by
  have hany {own : Place} {x : Nat} (hx : EndsAt ends a b place own x) (hne : own ≠ .plain) :
      x ∈ ends ∧ (Clear a b x ∨ (x = b ∧ place ≠ .plain)) :=
    hx.imp_right (Or.imp_right (And.imp_right fun heq : place = own => heq ▸ hne))
  exact ⟨fun e he => hany (h.scopes.1 e he) (by simp), fun c hc => hany (h.scopes.2.1 c hc) (by simp),
    fun l hl => hany (h.scopes.2.2 l hl) (by simp)⟩

/-- Every open scope ends away from a block within, which does not end where the one around does. -/
theorem Fits.within (h : Fits place tail ends a b m) (hc : a ≤ c) (hd : d ≤ b)
    (hend : d = b → place = .plain) : m.Open (Away ends c d) := by
  refine h.open.mono fun x ⟨hx, hclear⟩ => ⟨hx, ?_⟩
  unfold Clear at *
  rcases hclear with hclear | ⟨rfl, hplace⟩
  · omega
  · have : d ≠ x := fun heq => hplace (hend heq)
    omega

/-- The same block from a later address on. -/
theorem Fits.later (h : Fits place tail ends a b m) (hc : a ≤ c) (hifs : m'.ifStack = m.ifStack)
    (hcalls : m'.callStack = m.callStack) (hloops : m'.loopStack = m.loopStack) :
    Fits place tail ends c b m' := by
  have hmono : ∀ x, Away ends a b x → Away ends c b x := fun x hx =>
    ⟨hx.1, by have := hx.2; unfold Clear at *; omega⟩
  obtain ⟨pc', state', ifs', calls', loops'⟩ := m'
  obtain rfl : ifs' = m.ifStack := hifs
  obtain rfl : calls' = m.callStack := hcalls
  obtain rfl : loops' = m.loopStack := hloops
  have hopen : ∀ {m₁ m₂ : Machine σ}, m₁.Open (Away ends a b) → m₂.ifStack = m₁.ifStack →
      m₂.callStack = m₁.callStack → m₂.loopStack = m₁.loopStack → m₂.Open (Away ends c b) := by
    intro m₁ m₂ h₁ hi hc hl
    refine ⟨fun e he => hmono _ (h₁.ifs e (hi ▸ he)), fun c hc' => hmono _ (h₁.calls c (hc ▸ hc')),
      fun l hl' => hmono _ (h₁.loops l (hl ▸ hl'))⟩
  cases place with
  | plain => exact hopen h rfl rfl rfl
  | thenPart =>
    obtain ⟨top, stack, hs, htop, hb, ho⟩ := h
    exact ⟨top, stack, hs, htop, hb, hopen ho rfl rfl rfl⟩
  | loopBody =>
    obtain ⟨top, stack, hs, htop, hb, ho⟩ := h
    exact ⟨top, stack, hs, htop, hb, hopen ho rfl rfl rfl⟩
  | subroutine =>
    obtain ⟨top, stack, hs, htop, hb, ht, ho⟩ := h
    exact ⟨top, stack, hs, htop, hb, ht, hopen ho rfl rfl rfl⟩

theorem Fits.quiet (h : Fits place tail ends a b m) (ha : a < next) (hb : next ≤ b)
    (hend : next = b → place = .plain) : m.Open (· ≠ next) :=
  (h.within (Nat.le_refl a) hb hend).mono fun _ hx => hx.ne ha (Nat.le_refl next)

/-- Where a block that is no then-part ends, no `IF` scope does. -/
theorem Fits.ifs_ne (h : Fits place tail ends a b m) (ha : a < next) (hb : next ≤ b)
    (hplace : place ≠ .thenPart) : ∀ e ∈ m.ifStack, e.elseAddress ≠ next :=
  fun e he => (h.scopes.1 e he).ne ha hb hplace

/-- Where a block that is no loop body ends, no `LOOP` scope does. -/
theorem Fits.loops_ne (h : Fits place tail ends a b m) (ha : a < next) (hb : next ≤ b)
    (hplace : place ≠ .loopBody) : ∀ l ∈ m.loopStack, l.endAddress ≠ next :=
  fun l hl => (h.scopes.2.2 l hl).ne ha hb hplace

/-- Where a block that is no subroutine ends, no `CALL` scope does. -/
theorem Fits.calls_ne (h : Fits place tail ends a b m) (ha : a < next) (hb : next ≤ b)
    (hplace : place ≠ .subroutine) : ∀ c ∈ m.callStack, c.endAddress ≠ next :=
  fun c hc => (h.scopes.2.1 c hc).ne ha hb hplace

end

/-! ## Closing scopes -/

variable {stack : List CallStackElement}

theorem closeCalls_cons {next : Nat} {m : Machine σ} {top : CallStackElement}
    (hstack : m.callStack = top :: stack) (htop : top.endAddress ≠ next) :
    closeCalls next m = m := by
  obtain ⟨pc, state, ifs, calls, loops⟩ := m
  obtain rfl : calls = top :: stack := hstack
  simp [closeCalls, popCalls, htop]

theorem closeCalls_of_open {next : Nat} {m : Machine σ}
    (h : ∀ c ∈ m.callStack, c.endAddress ≠ next) : closeCalls next m = m := by
  obtain ⟨pc, state, ifs, calls, loops⟩ := m
  cases calls with
  | nil => rfl
  | cons top stack => exact closeCalls_cons rfl (h top (List.mem_cons_self ..))

theorem closeIf_of_open {next : Nat} {m : Machine σ}
    (h : ∀ e ∈ m.ifStack, e.elseAddress ≠ next) : closeIf next m = m := by
  obtain ⟨pc, state, ifs, calls, loops⟩ := m
  cases ifs with
  | nil => rfl
  | cons top stack => exact if_neg (h top (List.mem_cons_self ..))

theorem closeLoop_of_open {next : Nat} {m : Machine σ}
    (h : ∀ l ∈ m.loopStack, l.endAddress ≠ next) : closeLoop next false m = m := by
  obtain ⟨pc, state, ifs, calls, loops⟩ := m
  cases loops with
  | nil => rfl
  | cons top stack => exact if_neg (by simpa using h top (List.mem_cons_self ..))

/-- Between the statements of a block no scope ends. -/
theorem closeScopes_of_open {next : Nat} {m : Machine σ} (h : m.Open (· ≠ next)) :
    closeScopes next false m = m := by
  rw [closeScopes, closeCalls_of_open h.calls, closeIf_of_open h.ifs, closeLoop_of_open h.loops]

theorem closeIf_loopStack (next : Nat) (m : Machine σ) :
    (closeIf next m).loopStack = m.loopStack := by
  unfold closeIf
  split
  · split <;> rfl
  · rfl

theorem closeIf_state (next : Nat) (m : Machine σ) : (closeIf next m).state = m.state := by
  unfold closeIf
  split
  · split <;> rfl
  · rfl

/-- The end of `IF` and `CALL` scopes leaves the registers alone. -/
theorem closeScopes_state {next : Nat} {m : Machine σ}
    (h : ∀ l ∈ m.loopStack, l.endAddress ≠ next) :
    (closeScopes next false m).state = m.state := by
  have hstack : (closeIf next (closeCalls next m)).loopStack = m.loopStack :=
    closeIf_loopStack next (closeCalls next m)
  rw [closeScopes, closeLoop_of_open (hstack ▸ h), closeIf_state]
  rfl

/-- The end of a then-part. -/
theorem closeScopes_thenPart {next : Nat} {m : Machine σ} {top : IfStackElement}
    {stack : List IfStackElement} (hstack : m.ifStack = top :: stack)
    (htop : top.elseAddress = next) (h : Open (· ≠ next) { m with ifStack := stack }) :
    closeScopes next false m =
      { m with programCounter := top.endAddress, ifStack := stack } := by
  have hif : closeIf next m = { m with programCounter := top.endAddress, ifStack := stack } := by
    simp [closeIf, hstack, htop]
  rw [closeScopes, closeCalls_of_open (m := m) h.calls, hif]
  exact closeLoop_of_open (by exact h.loops)

/-- The machine behind a loop. -/
def leave (m : Machine σ) (loop : LoopStackElement) (stack : List LoopStackElement)
    (state : Registers σ) : Machine σ :=
  { m with
    programCounter := loop.endAddress
    state := (state.advance loop.addressIncrement).leaveLoop (!stack.isEmpty) loop.previousAL
    loopStack := stack }

theorem leaveLoop_eq (state : Registers σ) (loop : LoopStackElement)
    (stack : List LoopStackElement) :
    { state with
      aL :=
        if stack.isEmpty then state.aL + loop.addressIncrement else (loop.previousAL : Int) } =
      (state.advance loop.addressIncrement).leaveLoop (!stack.isEmpty) loop.previousAL := by
  cases stack <;> rfl

/-- The end of the last round of a loop. -/
theorem closeScopes_lastRound {next : Nat} {m : Machine σ} {loop : LoopStackElement}
    {stack : List LoopStackElement} (hstack : m.loopStack = loop :: stack)
    (hend : loop.endAddress = next) (hcount : loop.loopDowncounter = 0)
    (h : Open (· ≠ next) { m with loopStack := stack }) :
    closeScopes next false m = leave m loop stack m.state := by
  rw [closeScopes, closeCalls_of_open (m := m) h.calls, closeIf_of_open (m := m) h.ifs]
  simp only [closeLoop, hstack, hend, true_or, if_true, hcount, ne_eq, not_true_eq_false,
    and_false, if_false, leave]
  rw [leaveLoop_eq]

/-- The end of another round. -/
theorem closeScopes_round {next n : Nat} {m : Machine σ} {loop : LoopStackElement}
    {stack : List LoopStackElement} (hstack : m.loopStack = loop :: stack)
    (hend : loop.endAddress = next) (hcount : loop.loopDowncounter = n + 1)
    (h : Open (· ≠ next) { m with loopStack := stack }) :
    closeScopes next false m =
      { m with
        programCounter := loop.entryAddress
        state := m.state.advance loop.addressIncrement
        loopStack := { loop with loopDowncounter := n } :: stack } := by
  rw [closeScopes, closeCalls_of_open (m := m) h.calls, closeIf_of_open (m := m) h.ifs]
  simp [closeLoop, hstack, hend, hcount, Registers.advance]

/-- A break with no open `IF` scope in its loop. -/
theorem closeLoop_break {next : Nat} {m : Machine σ} {loop : LoopStackElement}
    {stack : List LoopStackElement} (hstack : m.loopStack = loop :: stack) :
    closeLoop next true m = leave m loop stack m.state := by
  simp only [closeLoop, hstack, or_true, if_true, Bool.not_true, Bool.false_eq_true, false_and,
    if_false, leave]
  rw [leaveLoop_eq]

/-- Another round that is left makes no difference unless the scopes to close use them all up. -/
theorem popCalls_round {round next programCounter : Nat} (h : chain next stack < round) :
    popCalls (round + 1) next programCounter stack = popCalls round next programCounter stack := by
  induction stack generalizing round next programCounter with
  | nil => cases round <;> rfl
  | cons top stack ih =>
    obtain ⟨round, rfl⟩ := Nat.exists_eq_add_one_of_ne_zero (Nat.ne_zero_of_lt h)
    rw [popCalls, popCalls]
    by_cases htop : top.endAddress = next
    · have hchain : chain top.returnAddress stack < round := by
        rw [chain, if_pos htop] at h
        omega
      rw [if_neg (not_not.mpr htop), if_neg (not_not.mpr htop), if_neg (Nat.succ_ne_zero round),
        if_neg (Nat.ne_zero_of_lt hchain)]
      exact ih hchain
    · rw [if_pos htop, if_pos htop]

/-- The end of a subroutine counts as the end of the `CALL`. -/
theorem closeScopes_subroutine {next returnAddress : Nat} {m : Machine σ}
    (hstack : m.callStack = ⟨next, returnAddress⟩ :: stack) (hchain : chain returnAddress stack < 3)
    (h : Open (· ≠ next) { m with callStack := stack })
    (hifs : ∀ e ∈ m.ifStack, e.elseAddress ≠ returnAddress)
    (hloops : ∀ l ∈ m.loopStack, l.endAddress ≠ returnAddress) :
    closeScopes next false m =
      closeScopes returnAddress false
        { m with programCounter := returnAddress, callStack := stack } := by
  have hcalls : closeCalls next m =
      closeCalls returnAddress
        { m with programCounter := returnAddress, callStack := stack } := by
    simp only [closeCalls, hstack]
    rw [popCalls, if_neg (not_not.mpr rfl), if_neg (by decide), popCalls_round hchain]
  have hframe : ∀ m : Machine σ, (closeCalls next m).ifStack = m.ifStack ∧
      (closeCalls next m).loopStack = m.loopStack := fun m => ⟨rfl, rfl⟩
  rw [closeScopes, closeScopes, closeIf_of_open ((hframe m).1 ▸ h.ifs),
    closeLoop_of_open ((hframe m).2 ▸ h.loops), hcalls]
  rw [closeIf_of_open (by exact hifs), closeLoop_of_open (by exact hloops)]

/-! ## Single iterations -/

variable {e : Nat}

namespace Machine

def goto (m : Machine σ) (programCounter : Nat) (state : Registers σ) : Machine σ :=
  { m with programCounter, state }

/-- The machine in the then-part of an `IF`. -/
def enterIf (m : Machine σ) (elseAddress endAddress : Nat) : Machine σ :=
  { m with
    programCounter := m.programCounter + 1
    ifStack := ⟨elseAddress, endAddress⟩ :: m.ifStack }

/-- The machine in the subroutine of a `CALL`. -/
def enterCall (m : Machine σ) (entryAddress endAddress : Nat) : Machine σ :=
  { m with
    programCounter := entryAddress
    callStack := ⟨endAddress, m.programCounter + 1⟩ :: m.callStack }

/-- The machine at the start of a round of a `LOOP`, with `n` more to come. The counter to restore
is the one that the `LOOP` sets. -/
def atRound (m : Machine σ) (endAddress : Nat) (param : LoopParam) (n : Nat)
    (state : Registers σ) : Machine σ :=
  { m with
    programCounter := m.programCounter + 1
    state
    loopStack :=
      { entryAddress := m.programCounter + 1
        endAddress := endAddress
        loopDowncounter := n
        addressIncrement := param.z.toNat
        previousAL := param.y.toNat } :: m.loopStack }

def enterLoop (m : Machine σ) (endAddress : Nat) (param : LoopParam) : Machine σ :=
  m.atRound endAddress param param.x.toNat { m.state with aL := param.y.toNat }

theorem Open.goto {m : Machine σ} (h : m.Open p) {programCounter : Nat} {state : Registers σ} :
    (m.goto programCounter state).Open p :=
  ⟨h.ifs, h.calls, h.loops⟩

theorem Open.enterIf {m : Machine σ} (h : m.Open p) (hd : p d) :
    (m.enterIf d e).Open p where
  ifs x hx := (List.mem_cons.mp hx).elim (fun heq => heq ▸ hd) (h.ifs x)
  calls := h.calls
  loops := h.loops

theorem Open.enterLoop {m : Machine σ} {param : LoopParam} (h : m.Open p) (he : p e) :
    (m.enterLoop e param).Open p where
  ifs := h.ifs
  calls := h.calls
  loops x hx := (List.mem_cons.mp hx).elim (fun heq => heq ▸ he) (h.loops x)

end Machine

variable {guard : Guard}

section
variable {m : Machine σ} (hpc : m.programCounter < maxProgramCodeLength - 1)
include hpc

theorem iteration_op (hop : opcode (fetch setup m.programCounter) = .other) :
    iteration setup uniforms operate m =
      (closeScopes (m.programCounter + 1) false
        (m.goto (m.programCounter + 1)
          (operate.apply (fetch setup m.programCounter) m.state)), false) := by
  simp [iteration, execute, hop, add32_succ hpc, goto]

theorem iteration_stop (hop : opcode (fetch setup m.programCounter) = .END) :
    iteration setup uniforms operate m =
      (closeScopes (m.programCounter + 1) false (m.goto (m.programCounter + 1) m.state), true) := by
  simp [iteration, execute, hop, add32_succ hpc, goto]

theorem iteration_if (hg : ifGuard (fetch setup m.programCounter) = some guard)
    (hroom : m.ifStack.length < 8) :
    iteration setup uniforms operate m =
      (closeScopes (m.programCounter + 1) false
        (if guard.holds uniforms m.state then
          m.enterIf (destOffset (fetch setup m.programCounter))
            (destOffset (fetch setup m.programCounter) +
              numInstructions (fetch setup m.programCounter))
        else m.goto (destOffset (fetch setup m.programCounter)) m.state), false) := by
  have hif : execute uniforms operate (fetch setup m.programCounter) m =
      (m.doIf (fetch setup m.programCounter) (guard.holds uniforms m.state), .proceed) := by
    unfold ifGuard at hg
    split at hg
    · rename_i hop
      obtain rfl := Option.some.inj hg
      simp [execute, hop, Guard.holds]
    · rename_i hop
      obtain rfl := Option.some.inj hg
      simp [execute, hop, Guard.holds]
    · exact absurd hg (by simp)
  cases hh : guard.holds uniforms m.state <;>
    simp [iteration, hif, hh, doIf, pushBack_eq _ hroom, add32_succ hpc, add32_jump, goto, enterIf]

theorem iteration_call (hg : callGuard (fetch setup m.programCounter) = some guard)
    (hroom : m.callStack.length < 4) :
    iteration setup uniforms operate m =
      (closeScopes (m.programCounter + 1) false
        (if guard.holds uniforms m.state then
          m.enterCall (destOffset (fetch setup m.programCounter))
            (destOffset (fetch setup m.programCounter) +
              numInstructions (fetch setup m.programCounter))
        else m.goto (m.programCounter + 1) m.state), false) := by
  have hcall : execute uniforms operate (fetch setup m.programCounter) m =
      (if guard.holds uniforms m.state then m.doCall (fetch setup m.programCounter) else m,
        .proceed) := by
    unfold callGuard at hg
    split at hg
    · rename_i hop
      obtain rfl := Option.some.inj hg
      rw [execute, hop]
      rfl
    · rename_i hop
      obtain rfl := Option.some.inj hg
      rw [execute, hop]
      rfl
    · rename_i hop
      obtain rfl := Option.some.inj hg
      rw [execute, hop]
      rfl
    · exact absurd hg (by simp)
  cases hh : guard.holds uniforms m.state <;>
    simp [iteration, hcall, hh, doCall, pushBack_eq _ hroom, add32_succ hpc, add32_jump, goto,
      enterCall]

theorem iteration_loop (hop : opcode (fetch setup m.programCounter) = .LOOP)
    (hroom : m.loopStack.length < 4) :
    iteration setup uniforms operate m =
      (closeScopes (m.programCounter + 1) false
        (m.enterLoop (destOffset (fetch setup m.programCounter) + 1)
          (uniforms.i (intUniformId (fetch setup m.programCounter)))), false) := by
  have hbyte : ∀ y : BitVec 8, ((y.toNat : Int) % 256).toNat = y.toNat := fun y => by
    omega
  simp [iteration, execute, hop, doLoop, pushBack_eq _ hroom, add32_succ hpc, hbyte, enterLoop,
    atRound]

theorem iteration_break (hg : breakGuard (fetch setup m.programCounter) = some guard) :
    iteration setup uniforms operate m =
      (closeScopes (m.programCounter + 1) (guard.holds uniforms m.state)
        (m.goto (m.programCounter + 1) m.state), false) := by
  unfold breakGuard at hg
  split at hg
  · rename_i hop
    obtain rfl := Option.some.inj hg
    simp [iteration, execute, hop, Guard.holds, add32_succ hpc, goto]
  · rename_i hop
    obtain rfl := Option.some.inj hg
    cases hh : evaluateCondition m.state (flowControl (fetch setup m.programCounter)) <;>
      simp [iteration, execute, hop, Guard.holds, add32_succ hpc, hh, goto]
  · exact absurd hg (by simp)

end

/-! ## What the machine does for an outcome -/

/-- The machine behind the last instruction of a block. -/
def atEnd (m : Machine σ) (b : Nat) (state : Registers σ) : Machine σ :=
  closeScopes b false (m.goto b state)

theorem atEnd_enterIf {m : Machine σ} (h : m.Open (· ≠ d)) : atEnd (m.enterIf d e) d = m.goto e :=
  funext fun state =>
    closeScopes_thenPart (m := (m.enterIf d e).goto d state) rfl rfl ⟨h.ifs, h.calls, h.loops⟩

theorem atEnd_goto {m : Machine σ} {c : Nat} {state : Registers σ} (h : m.Open (· ≠ e)) :
    atEnd (m.goto c state) e = m.goto e :=
  funext fun _ => closeScopes_of_open h.goto

/-- From `m` the machine does what the outcome says: it reaches its target, leaves the innermost
loop with the `opened` scopes in it, or stops. -/
def Lands (setup : ShaderSetup) (uniforms : Uniforms) (operate : Operate σ) (m : Machine σ)
    (opened : Nat) (target : Registers σ → Machine σ) : Outcome × Registers σ → Prop
  | (.completed, state) => Steps (iteration setup uniforms operate) m (target state)
  | (.broken, state) =>
    ∀ loop stack, m.loopStack = loop :: stack →
      Steps (iteration setup uniforms operate) m
        (leave { m with ifStack := m.ifStack.drop opened } loop stack state)
  | (.ended, state) => ∃ m', Halts (iteration setup uniforms operate) m m' ∧ m'.state = state

variable {r : Outcome × Registers σ}

theorem Lands.of_steps {m m' : Machine σ} {opened opened' : Nat} {target : Registers σ → Machine σ}
    (h : Steps (iteration setup uniforms operate) m m')
    (hstacks : r.1 = .broken → m'.ifStack.drop opened' = m.ifStack.drop opened ∧
      m'.callStack = m.callStack ∧ m'.loopStack = m.loopStack)
    (hl : Lands setup uniforms operate m' opened' target r) :
    Lands setup uniforms operate m opened target r := by
  obtain ⟨outcome, state⟩ := r
  cases outcome with
  | completed => exact h.trans hl
  | broken =>
    obtain ⟨hifs, hcalls, hloops⟩ := hstacks rfl
    intro loop stack hstack
    have hgo := h.trans (hl loop stack (hloops ▸ hstack))
    rw [leave, hifs] at hgo
    simpa only [leave, hcalls] using hgo
  | ended =>
    obtain ⟨m'', hhalt, hstate⟩ := hl
    exact ⟨m'', hhalt.of_steps h, hstate⟩

theorem whenCompleted.at {p : Registers σ → Prop} {state : Registers σ} (h : whenCompleted r p)
    (hr : r = (.completed, state)) : p state := by
  subst hr
  exact h

/-- A block and then what follows it. -/
theorem Lands.andThen {m : Machine σ} {opened : Nat} {mid target : Registers σ → Machine σ}
    {next : Registers σ → Outcome × Registers σ} (hr : Lands setup uniforms operate m opened mid r)
    (hmid : ∀ state, (mid state).ifStack = m.ifStack ∧ (mid state).callStack = m.callStack ∧
      (mid state).loopStack = m.loopStack) (hnext : ∀ state, r = (.completed, state) →
      Lands setup uniforms operate (mid state) opened target (next state)) :
    Lands setup uniforms operate m opened target (Pica.andThen r next) := by
  obtain ⟨outcome, state⟩ := r
  cases outcome with
  | completed =>
    obtain ⟨hifs, hcalls, hloops⟩ := hmid state
    exact .of_steps hr (fun _ => ⟨by rw [hifs], hcalls, hloops⟩) (hnext state rfl)
  | broken => exact hr
  | ended => exact hr

theorem rounds_ne_broken (body : Registers σ → Outcome × Registers σ) (z n : Nat)
    (state : Registers σ) : (rounds body z n state).1 ≠ .broken := by
  induction n generalizing state with
  | zero =>
    rw [rounds]
    split <;> exact nofun
  | succ n ih =>
    rw [rounds]
    split
    · exact nofun
    · exact nofun
    · exact ih _

/-- A subroutine does not break out of the loop it is called in. -/
theorem Block.eval_ne_broken {s : Block} {place : Place} {tail : Nat}
    (h : s.WellFormed place tail false) (nested : Bool) (state : Registers σ) :
    (s.eval uniforms operate nested state).1 ≠ .broken := by
  have hthen : ∀ (r : Outcome × Registers σ) (next : Registers σ → Outcome × Registers σ),
      r.1 ≠ .broken → (∀ state, (next state).1 ≠ .broken) → (Pica.andThen r next).1 ≠ .broken := by
    intro ⟨outcome, state⟩ next hr hnext
    cases outcome with
    | completed => exact hnext state
    | broken => exact absurd rfl hr
    | ended => exact hr
  induction s generalizing place tail nested state with
  | done => exact nofun
  | op instr rest ih => exact ih h _ _
  | ifElse guard thenPart elsePart rest iht ihe ihr =>
    refine hthen _ _ ?_ fun state => ihr h.2.2.2 _ _
    split
    · exact iht h.2.1 _ _
    · exact ihe h.2.2.1 _ _
  | call guard body rest ihb ihr =>
    refine hthen _ _ ?_ fun state => ihr h.2.1 _ _
    split
    · obtain ⟨-, -, h⟩ := h
      split at h
      · exact ihb h.2 _ _
      · exact ihb h.2 _ _
    · exact nofun
  | loop id body rest _ ihr =>
    refine hthen _ _ ?_ fun state => ihr h.2.2.2 _ _
    exact rounds_ne_broken _ _ _ _
  | brk guard rest ih => exact absurd h.1 (by simp)
  | stop rest ih => exact nofun

/-! ## The simulation -/

/-- The machine is about to run a block that it can run right. -/
structure Ready (setup : ShaderSetup) (uniforms : Uniforms) (operate : Operate σ) (s : Block)
    (place : Place) (tail : Nat) (inLoop : Bool) (ends : List Nat) (a b opened : Nat)
    (m : Machine σ) : Prop where
  programCounter : m.programCounter = a
  laid : s.Laid setup ends a b
  wellFormed : s.WellFormed place tail inLoop
  fits : Fits place tail ends a b m
  ifs : m.ifStack.length + s.ifDepth ≤ 8
  calls : m.callStack.length + s.callDepth ≤ 4
  loops : m.loopStack.length + s.loopDepth ≤ 4
  plain : place = .plain → m.Open (· ≠ b)
  nonempty : s = done → place = .plain
  thenOpened : place = .thenPart → opened ≠ 0
  outOfLoop : place = .subroutine → inLoop = false
  regular : s.Regular uniforms operate place opened (!m.loopStack.isEmpty) m.state

/-- What is proved of every block. -/
def Simulates (setup : ShaderSetup) (uniforms : Uniforms) (operate : Operate σ) (s : Block) :
    Prop :=
  ∀ ⦃place : Place⦄ ⦃tail : Nat⦄ ⦃inLoop : Bool⦄ ⦃ends : List Nat⦄ ⦃a b opened : Nat⦄
    ⦃m : Machine σ⦄, Ready setup uniforms operate s place tail inLoop ends a b opened m →
      Lands setup uniforms operate m opened (atEnd m b)
        (s.eval uniforms operate (!m.loopStack.isEmpty) m.state)

section
variable {s rest : Block} {place : Place} {tail : Nat} {inLoop : Bool} {ends : List Nat}
  {a b c opened : Nat} {m : Machine σ} {state : Registers σ}

/-- The machine is ready for the rest of a block that it was ready for. -/
theorem Ready.next (h : Ready setup uniforms operate s place tail inLoop ends a b opened m)
    (hc : a ≤ c) (hlaid : rest.Laid setup ends c b) (hwf : rest.WellFormed place tail inLoop)
    (hifs : rest.ifDepth ≤ s.ifDepth) (hcalls : rest.callDepth ≤ s.callDepth)
    (hloops : rest.loopDepth ≤ s.loopDepth) (hempty : rest = done → place = .plain)
    (hreg : rest.Regular uniforms operate place opened (!m.loopStack.isEmpty) state) :
    Ready setup uniforms operate rest place tail inLoop ends c b opened (m.goto c state) where
  programCounter := rfl
  laid := hlaid
  wellFormed := hwf
  fits := h.fits.later hc rfl rfl rfl
  ifs := Nat.le_trans (Nat.add_le_add_left hifs _) h.ifs
  calls := Nat.le_trans (Nat.add_le_add_left hcalls _) h.calls
  loops := Nat.le_trans (Nat.add_le_add_left hloops _) h.loops
  plain hp := (h.plain hp).goto
  nonempty := hempty
  thenOpened := h.thenOpened
  outOfLoop := h.outOfLoop
  regular := hreg

/-- An instruction behind which the machine goes on with the rest of the block. -/
theorem Ready.fall (h : Ready setup uniforms operate s place tail inLoop ends a b opened m)
    (hstep : Steps (iteration setup uniforms operate) m
      (closeScopes (a + 1) false (m.goto (a + 1) state)))
    (hrest : Simulates setup uniforms operate rest) (hlaid : rest.Laid setup ends (a + 1) b)
    (hwf : rest.WellFormed place tail inLoop) (hifs : rest.ifDepth ≤ s.ifDepth)
    (hcalls : rest.callDepth ≤ s.callDepth) (hloops : rest.loopDepth ≤ s.loopDepth)
    (hreg : rest.Regular uniforms operate place opened (!m.loopStack.isEmpty) state) :
    Lands setup uniforms operate m opened (atEnd m b)
      (rest.eval uniforms operate (!m.loopStack.isEmpty) state) := by
  by_cases hd : rest = done
  · subst hd
    obtain rfl : a + 1 = b := hlaid
    exact hstep
  · -- No scope ends before the block does.
    have hquiet := h.fits.quiet (Nat.lt_succ_self a) hlaid.le fun hb =>
      absurd hb (Nat.ne_of_lt (hlaid.lt hd))
    rw [closeScopes_of_open hquiet.goto] at hstep
    exact .of_steps hstep (fun _ => ⟨rfl, rfl, rfl⟩)
      (hrest (h.next (Nat.le_succ a) hlaid hwf hifs hcalls hloops (fun hd' => absurd hd' hd) hreg))

end

theorem simulates_op {instr : BitVec 32} {rest : Block}
    (ih : Simulates setup uniforms operate rest) :
    Simulates setup uniforms operate (op instr rest) := by
  intro place tail inLoop ends a b opened m h
  obtain ⟨ha, hfetch, hop, hlaid⟩ := h.laid
  obtain rfl := h.programCounter
  subst hfetch
  show Lands setup uniforms operate m opened (atEnd m b)
    (rest.eval uniforms operate (!m.loopStack.isEmpty)
      (operate.apply (fetch setup m.programCounter) m.state))
  exact h.fall (.single (iteration_op ha hop)) ih hlaid h.wellFormed (Nat.le_refl _)
    (Nat.le_refl _) (Nat.le_refl _) h.regular

theorem simulates_stop {rest : Block} : Simulates setup uniforms operate (stop rest) := by
  intro place tail inLoop ends a b opened m h
  obtain ⟨ha, hop, hlaid⟩ := h.laid
  obtain rfl := h.programCounter
  refine ⟨_, .of_step (iteration_stop ha hop), ?_⟩
  -- The scopes that may end here are `IF` and `CALL` scopes.
  have hloops : ∀ l ∈ m.loopStack, l.endAddress ≠ m.programCounter + 1 := by
    intro l hl
    rcases Nat.lt_or_eq_of_le hlaid.le with hlt | heq
    · have hquiet := h.fits.quiet (Nat.lt_succ_self _) hlaid.le fun hb =>
        absurd hb (Nat.ne_of_lt hlt)
      exact hquiet.loops l hl
    · have hdone : rest = done := by
        by_contra hd
        exact absurd (hlaid.lt hd) (by omega)
      exact h.fits.loops_ne (Nat.lt_succ_self _) hlaid.le (fun hp => h.regular hp hdone) l hl
  exact closeScopes_state hloops

theorem simulates_brk {rest : Block} (ih : Simulates setup uniforms operate rest) :
    Simulates setup uniforms operate (brk guard rest) := by
  intro place tail inLoop ends a b opened m h
  obtain ⟨ha, hg, hlaid⟩ := h.laid
  obtain rfl := h.programCounter
  have hiter : iteration setup uniforms operate m = _ := iteration_break ha hg
  have hreg := h.regular
  rw [Regular] at hreg
  rw [eval]
  cases hh : guard.holds uniforms m.state with
  | false =>
    rw [hh] at hiter hreg
    exact h.fall (.single hiter) ih hlaid h.wellFormed.2 (Nat.le_refl _) (Nat.le_refl _)
      (Nat.le_refl _) hreg
  | true =>
    rw [hh] at hiter hreg
    intro loop stack hstack
    refine .single (hiter.trans (congrArg (·, false) ?_))
    have hcalls := h.fits.calls_ne (Nat.lt_succ_self _) hlaid.le fun hp => by
      simpa [h.outOfLoop hp] using h.wellFormed.1
    rw [closeScopes, closeCalls_of_open (by exact hcalls)]
    rcases hreg with rfl | ⟨rfl, rfl, rfl⟩
    · have hifs := h.fits.ifs_ne (Nat.lt_succ_self _) hlaid.le fun hp => h.thenOpened hp rfl
      rw [closeIf_of_open (by exact hifs), closeLoop_break (by exact hstack)]
      rfl
    · -- The `BREAK` ends the `IF` scope that it stands in.
      obtain rfl : m.programCounter + 1 = b := hlaid
      obtain ⟨top, stack', hifs, htop, -, -⟩ := h.fits
      rw [closeLoop_break (by rw [closeIf_loopStack]; exact hstack)]
      simp [closeIf, goto, hifs, htop, leave]

theorem simulates_ifElse {thenPart elsePart rest : Block}
    (iht : Simulates setup uniforms operate thenPart)
    (ihe : Simulates setup uniforms operate elsePart) (ihr : Simulates setup uniforms operate rest)
    : Simulates setup uniforms operate (ifElse guard thenPart elsePart rest) := by
  intro place tail inLoop ends a b opened m h
  obtain ⟨ha, hg, ht, he, hr⟩ := h.laid
  obtain ⟨hplain, hwt, hwe, hwr⟩ := h.wellFormed
  obtain rfl := h.programCounter
  have hifs := h.ifs
  have hcalls := h.calls
  have hloops := h.loops
  simp only [ifDepth, callDepth, loopDepth] at hifs hcalls hloops
  have hiter : iteration setup uniforms operate m = _ := iteration_if ha hg (by omega)
  have hreg := h.regular
  rw [Regular] at hreg
  rw [eval]
  generalize destOffset (fetch setup m.programCounter) = d at *
  generalize d + numInstructions (fetch setup m.programCounter) = e at *
  have hpd := ht.le
  have hde := he.le
  have heb := hr.le
  have hend : e = b → place = .plain := fun heq => hplain (by
    by_contra hd
    exact absurd (hr.lt hd) (by omega))
  have hwithin := h.fits.within (Nat.le_refl _) heb hend
  have hquiet : ∀ {next}, m.programCounter < next → next ≤ e → m.Open (· ≠ next) :=
    fun hlt hle => hwithin.mono fun _ hx => hx.ne hlt hle
  -- Both parts lead to the address behind the `IF`.
  have hbranch : Lands setup uniforms operate m opened (m.goto e)
      (if guard.holds uniforms m.state then
        thenPart.eval uniforms operate (!m.loopStack.isEmpty) m.state
      else elsePart.eval uniforms operate (!m.loopStack.isEmpty) m.state) := by
    split
    · rename_i hh
      rw [if_pos hh] at hreg hiter
      by_cases hd : thenPart = done
      · -- The scope of an empty then-part ends with the `IF` instruction.
        subst hd
        obtain rfl : m.programCounter + 1 = d := ht
        have hend : atEnd (m.enterIf (m.programCounter + 1) e) (m.programCounter + 1) m.state =
            m.goto e m.state :=
          congrFun (atEnd_enterIf (hquiet (Nat.lt_succ_self _) hde)) m.state
        exact .single (hiter.trans (congrArg (·, false) hend))
      · have hlt := ht.lt hd
        have hopen := hquiet (Nat.lt_succ_self _) (by omega)
        rw [closeScopes_of_open (hopen.enterIf (Nat.ne_of_gt hlt))] at hiter
        have hwithin : m.Open (Away ends (m.programCounter + 1) d) :=
          h.fits.within (Nat.le_succ _) (by omega) fun heq => hend (by omega)
        have hin := hwithin.mono fun _ hx => hx.cons d
        have hready : Ready setup uniforms operate thenPart .thenPart 0 inLoop (d :: ends)
            (m.programCounter + 1) d (opened + 1) (m.enterIf d e) :=
          { programCounter := rfl
            laid := ht
            wellFormed := hwt
            fits := ⟨_, _, rfl, rfl, List.mem_cons_self .., hin.ifs, hin.calls, hin.loops⟩
            ifs := by simp only [enterIf, List.length_cons]; omega
            calls := by simp only [enterIf]; omega
            loops := by simp only [enterIf]; omega
            plain := nofun
            nonempty := fun hd' => absurd hd' hd
            thenOpened := fun _ => Nat.succ_ne_zero opened
            outOfLoop := nofun
            regular := hreg.1 }
        have hl := iht hready
        rw [atEnd_enterIf (hquiet (by omega) hde)] at hl
        exact .of_steps (.single hiter) (fun _ => ⟨rfl, rfl, rfl⟩) hl
    · rename_i hh
      rw [if_neg hh] at hreg hiter
      rw [closeScopes_of_open (hquiet (Nat.lt_succ_self _) (by omega)).goto] at hiter
      have hready : Ready setup uniforms operate elsePart .plain 0 inLoop ends d e opened
          (m.goto d m.state) :=
        { programCounter := rfl
          laid := he
          wellFormed := hwe
          fits := (h.fits.within (by omega) heb hend).goto
          ifs := by simp only [goto]; omega
          calls := by simp only [goto]; omega
          loops := by simp only [goto]; omega
          plain := fun _ => (hquiet (by omega) (Nat.le_refl e)).goto
          nonempty := fun _ => rfl
          thenOpened := nofun
          outOfLoop := nofun
          regular := hreg.1 }
      have hl := ihe hready
      rw [atEnd_goto (hquiet (by omega) (Nat.le_refl e))] at hl
      exact .of_steps (.single hiter) (fun _ => ⟨rfl, rfl, rfl⟩) hl
  refine hbranch.andThen (fun _ => ⟨rfl, rfl, rfl⟩) fun state hstate => ?_
  refine ihr (h.next (by omega) hr hwr ?_ ?_ ?_ hplain ?_)
  · simp only [ifDepth]; omega
  · simp only [callDepth]; omega
  · simp only [loopDepth]; omega
  · split at hreg
    · rename_i hh
      rw [if_pos hh] at hstate
      exact hreg.2.at hstate
    · rename_i hh
      rw [if_neg hh] at hstate
      exact hreg.2.at hstate

/-- The scopes that a subroutine ends together with the one of its `CALL`. -/
theorem chain_returnAddress {rest : Block} {place : Place} {tail : Nat} {ends : List Nat}
    {a b : Nat} {m : Machine σ} (hfits : Fits place tail ends a b m)
    (hlaid : rest.Laid setup ends (a + 1) b) :
    chain (a + 1) m.callStack =
      if rest = done ∧ place = .subroutine then tail + 1 else 0 := by
  split
  · rename_i h
    obtain ⟨rfl, rfl⟩ := h
    obtain rfl : a + 1 = b := hlaid
    obtain ⟨top, stack, hstack, htop, -, htail, -⟩ := hfits
    rw [hstack, chain, if_pos htop, htail]
  · rename_i h
    have hcalls : ∀ c ∈ m.callStack, c.endAddress ≠ a + 1 := by
      by_cases hplace : place = .subroutine
      · have hlt := hlaid.lt fun hd => h ⟨hd, hplace⟩
        exact (hfits.quiet (Nat.lt_succ_self a) hlaid.le fun hb => by omega).calls
      · exact hfits.calls_ne (Nat.lt_succ_self a) hlaid.le hplace
    cases hstack : m.callStack with
    | nil => rfl
    | cons top stack =>
      rw [hstack] at hcalls
      exact if_neg (hcalls top (List.mem_cons_self ..))

variable {body : Block}

theorem simulates_call {rest : Block} (ihb : Simulates setup uniforms operate body)
    (ihr : Simulates setup uniforms operate rest) :
    Simulates setup uniforms operate (call guard body rest) := by
  intro place tail inLoop ends a b opened m h
  obtain ⟨ha, hg, hclear, hb, hr⟩ := h.laid
  obtain ⟨hne, hwr, hplace⟩ := h.wellFormed
  obtain rfl := h.programCounter
  have hifs := h.ifs
  have hcalls := h.calls
  have hloops := h.loops
  simp only [ifDepth, callDepth, loopDepth] at hifs hcalls hloops
  have hchain := chain_returnAddress h.fits hr
  have hiter : iteration setup uniforms operate m = _ := iteration_call ha hg (by omega)
  have hreg := h.regular
  rw [Regular] at hreg
  rw [eval]
  generalize destOffset (fetch setup m.programCounter) = d at *
  generalize d + numInstructions (fetch setup m.programCounter) = e at *
  have hde := hb.lt hne
  -- A `CALL` ends no `IF` and no `LOOP` scope, and its own scope ends elsewhere.
  have hnotLast : place ≠ .plain → place ≠ .subroutine → rest ≠ done := by
    intro hp hs hd
    rw [if_neg fun hboth => hs hboth.2] at hplace
    exact hp (hplace.1 hd)
  have hopenIfs : ∀ e ∈ m.ifStack, e.elseAddress ≠ m.programCounter + 1 := by
    by_cases hp : place = .thenPart
    · have hlt := hr.lt (hnotLast (by simp [hp]) (by simp [hp]))
      exact (h.fits.quiet (Nat.lt_succ_self _) hr.le fun heq => by omega).ifs
    · exact h.fits.ifs_ne (Nat.lt_succ_self _) hr.le hp
  have hopenLoops : ∀ l ∈ m.loopStack, l.endAddress ≠ m.programCounter + 1 := by
    by_cases hp : place = .loopBody
    · have hlt := hr.lt (hnotLast (by simp [hp]) (by simp [hp]))
      exact (h.fits.quiet (Nat.lt_succ_self _) hr.le fun heq => by omega).loops
    · exact h.fits.loops_ne (Nat.lt_succ_self _) hr.le hp
  have hreturn : e ≠ m.programCounter + 1 := by
    have := hclear _ (List.mem_cons_self ..)
    unfold Clear at this
    omega
  have hfall : ∀ state, rest.Regular uniforms operate place opened (!m.loopStack.isEmpty) state →
      Steps (iteration setup uniforms operate) m
        (closeScopes (m.programCounter + 1) false (m.goto (m.programCounter + 1) state)) →
      Lands setup uniforms operate m opened (atEnd m b)
        (rest.eval uniforms operate (!m.loopStack.isEmpty) state) := fun state hrr hstep =>
    h.fall hstep ihr hr hwr (Nat.le_max_right ..) (Nat.le_max_right ..) (Nat.le_max_right ..) hrr
  split at hreg
  · rename_i hh
    rw [if_pos hh] at hiter ⊢
    rw [closeScopes, closeCalls_cons rfl hreturn, closeIf_of_open (by exact hopenIfs),
      closeLoop_of_open (by exact hopenLoops)] at hiter
    have hopen : m.Open (Away (e :: ends) d e) :=
      h.fits.open.mono fun x hx =>
        ⟨List.mem_cons_of_mem e hx.1, hclear x (List.mem_cons_of_mem _ hx.1)⟩
    obtain ⟨tail', htail', hwb, hlt3⟩ : ∃ tail', chain (m.programCounter + 1) m.callStack = tail' ∧
        body.WellFormed .subroutine tail' false ∧ tail' < 3 := by
      refine ⟨_, hchain, ?_⟩
      split at hplace
      · rename_i hboth
        rw [if_pos hboth]
        exact ⟨hplace.2, by omega⟩
      · rename_i hboth
        rw [if_neg hboth]
        exact ⟨hplace.2, by omega⟩
    have hready : Ready setup uniforms operate body .subroutine tail' false (e :: ends) d e 0
        (m.enterCall d e) :=
      { programCounter := rfl
        laid := hb
        wellFormed := hwb
        fits := ⟨_, _, rfl, rfl, List.mem_cons_self .., htail', hopen.ifs, hopen.calls, hopen.loops⟩
        ifs := by simp only [enterCall]; omega
        calls := by simp only [enterCall, List.length_cons]; omega
        loops := by simp only [enterCall]; omega
        plain := nofun
        nonempty := fun hd => absurd hd hne
        thenOpened := nofun
        outOfLoop := fun _ => rfl
        regular := hreg.1 }
    have hl := ihb hready
    have htarget : ∀ state, atEnd (m.enterCall d e) e state =
        closeScopes (m.programCounter + 1) false (m.goto (m.programCounter + 1) state) :=
      fun state =>
        closeScopes_subroutine (m := (m.enterCall d e).goto e state) rfl (htail' ▸ hlt3)
          ⟨fun x hx => (hopen.ifs x hx).ne hde (Nat.le_refl e),
            fun x hx => (hopen.calls x hx).ne hde (Nat.le_refl e),
            fun x hx => (hopen.loops x hx).ne hde (Nat.le_refl e)⟩ hopenIfs hopenLoops
    rw [funext htarget] at hl
    have hnb : (body.eval uniforms operate (!m.loopStack.isEmpty) m.state).1 ≠ .broken :=
      Block.eval_ne_broken hwb _ _
    have hwhen := hreg.2
    have hl' : Lands setup uniforms operate (m.enterCall d e) 0 _
      (body.eval uniforms operate (!m.loopStack.isEmpty) m.state) := hl
    generalize body.eval uniforms operate (!m.loopStack.isEmpty) m.state = r at hnb hwhen hl'
    obtain ⟨outcome, state⟩ := r
    cases outcome with
    | completed => exact hfall state hwhen ((Steps.single hiter).trans hl')
    | broken => exact absurd rfl hnb
    | ended =>
      obtain ⟨m', hhalt, hstate⟩ := hl'
      exact ⟨m', hhalt.of_steps (.single hiter), hstate⟩
  · rename_i hh
    rw [if_neg hh] at hiter ⊢
    exact hfall m.state hreg (.single hiter)

/-- The rounds of a loop, from the start of one of them with `n` more to come. -/
theorem lands_rounds (ih : Simulates setup uniforms operate body) {ends : List Nat} {opened : Nat}
    {m : Machine σ} {param : LoopParam}
    (hlaid : body.Laid setup (e :: ends) (m.programCounter + 1) e) (hne : body ≠ done)
    (hwf : body.WellFormed .loopBody 0 true) (hifs : m.ifStack.length + body.ifDepth ≤ 8)
    (hcalls : m.callStack.length + body.callDepth ≤ 4)
    (hloops : m.loopStack.length + 1 + body.loopDepth ≤ 4)
    (hopen : m.Open (Away (e :: ends) (m.programCounter + 1) e)) (n : Nat) (state : Registers σ)
    (hreg : eachRound (body.eval uniforms operate true) param.z.toNat
      (body.Regular uniforms operate .loopBody 0 true) n state) :
    Lands setup uniforms operate (m.atRound e param n state) opened
      (fun state => m.goto e (state.leaveLoop (!m.loopStack.isEmpty) param.y.toNat))
      (rounds (body.eval uniforms operate true) param.z.toNat n state) := by
  have hclose : m.Open (· ≠ e) := hopen.mono fun _ hx => hx.ne (hlaid.lt hne) (Nat.le_refl e)
  have hready : ∀ n state, body.Regular uniforms operate .loopBody 0 true state →
      Ready setup uniforms operate body .loopBody 0 true (e :: ends) (m.programCounter + 1) e 0
        (m.atRound e param n state) := fun n state hreg =>
    { programCounter := rfl
      laid := hlaid
      wellFormed := hwf
      fits := ⟨_, _, rfl, rfl, List.mem_cons_self .., hopen.ifs, hopen.calls, hopen.loops⟩
      ifs := hifs
      calls := hcalls
      loops := hloops
      plain := nofun
      nonempty := fun hd => absurd hd hne
      thenOpened := nofun
      outOfLoop := nofun
      regular := hreg }
  induction n generalizing state with
  | zero =>
    have hl : Lands setup uniforms operate _ _ _ (body.eval uniforms operate true state) :=
      ih (hready 0 state hreg.1)
    have htarget : ∀ state', atEnd (m.atRound e param 0 state) e state' =
        m.goto e ((state'.advance param.z.toNat).leaveLoop (!m.loopStack.isEmpty)
          param.y.toNat) := fun state' =>
      closeScopes_lastRound (m := (m.atRound e param 0 state).goto e state') rfl rfl rfl
        ⟨hclose.ifs, hclose.calls, hclose.loops⟩
    rw [funext htarget] at hl
    rw [rounds]
    generalize body.eval uniforms operate true state = r at hl
    obtain ⟨outcome, state'⟩ := r
    cases outcome with
    | completed => exact hl
    | broken => exact hl _ _ rfl
    | ended => exact hl
  | succ n ihn =>
    have hl : Lands setup uniforms operate _ _ _ (body.eval uniforms operate true state) :=
      ih (hready (n + 1) state hreg.1)
    have htarget : ∀ state', atEnd (m.atRound e param (n + 1) state) e state' =
        m.atRound e param n (state'.advance param.z.toNat) := fun state' =>
      closeScopes_round (m := (m.atRound e param (n + 1) state).goto e state') rfl rfl rfl
        ⟨hclose.ifs, hclose.calls, hclose.loops⟩
    rw [funext htarget] at hl
    have hrest := hreg.2
    rw [rounds]
    generalize body.eval uniforms operate true state = r at hl hrest
    obtain ⟨outcome, state'⟩ := r
    cases outcome with
    | completed => exact .of_steps hl (fun hb => absurd hb (rounds_ne_broken _ _ _ _)) (ihn _ hrest)
    | broken => exact hl _ _ rfl
    | ended => exact hl

theorem simulates_loop {id : BitVec 2} {rest : Block} (ihb : Simulates setup uniforms operate body)
    (ihr : Simulates setup uniforms operate rest) :
    Simulates setup uniforms operate (loop id body rest) := by
  intro place tail inLoop ends a b opened m h
  obtain ⟨ha, hop, hid, hb, hr⟩ := h.laid
  obtain ⟨hplain, hne, hwb, hwr⟩ := h.wellFormed
  obtain rfl := h.programCounter
  subst hid
  have hifs := h.ifs
  have hcalls := h.calls
  have hloops := h.loops
  simp only [ifDepth, callDepth, loopDepth] at hifs hcalls hloops
  have hiter : iteration setup uniforms operate m = _ := iteration_loop ha hop (by omega)
  obtain ⟨hentry, hrounds, hrest⟩ := h.regular
  rw [eval]
  generalize destOffset (fetch setup m.programCounter) + 1 = e at *
  generalize uniforms.i (intUniformId (fetch setup m.programCounter)) = param at *
  have hlt := hb.lt hne
  have heb := hr.le
  have hend : e = b → place = .plain := fun heq => hplain (by
    by_contra hd
    exact absurd (hr.lt hd) (by omega))
  have hquiet := (h.fits.within (Nat.le_refl _) heb hend).mono fun _ hx =>
    hx.ne (Nat.lt_succ_self m.programCounter) (by omega)
  rw [closeScopes_of_open (hquiet.enterLoop (Nat.ne_of_gt hlt))] at hiter
  have hopen := (h.fits.within (Nat.le_succ _) heb hend).mono fun _ hx => hx.cons e
  have hl : Lands setup uniforms operate (m.enterLoop e param) opened _ _ :=
    lands_rounds ihb hb hne hwb (by omega) (by omega) (by omega) hopen param.x.toNat _ hrounds
  -- A nested loop restores the counter that it was entered with.
  have hrestore : ∀ state : Registers σ,
      state.leaveLoop (!m.loopStack.isEmpty) param.y.toNat =
        state.leaveLoop (!m.loopStack.isEmpty) m.state.aL := by
    intro state
    cases hn : !m.loopStack.isEmpty with
    | false => rfl
    | true => rw [hentry hn]
  simp only [hrestore] at hl
  refine (hl.of_steps (.single hiter) fun hbroken => ?_).andThen (fun _ => ⟨rfl, rfl, rfl⟩)
    fun state hstate => ?_
  · exact absurd hbroken (rounds_ne_broken _ _ _ _)
  · exact ihr (h.next (by omega) hr hwr (Nat.le_max_right ..) (Nat.le_max_right ..)
      (Nat.le_max_right ..) hplain (hrest.at hstate))

/-- The machine does what every block means. -/
theorem simulates (s : Block) : Simulates setup uniforms operate s := by
  induction s with
  | done =>
    intro place tail inLoop ends a b opened m h
    obtain rfl : a = b := h.laid
    obtain rfl := h.programCounter
    have hend : atEnd m m.programCounter m.state = m :=
      closeScopes_of_open (h.plain (h.nonempty rfl))
    show Steps _ m (atEnd m m.programCounter m.state)
    rw [hend]
    exact .refl m
  | op instr rest ih => exact simulates_op ih
  | ifElse guard thenPart elsePart rest iht ihe ihr => exact simulates_ifElse iht ihe ihr
  | call guard body rest ihb ihr => exact simulates_call ihb ihr
  | loop id body rest ihb ihr => exact simulates_loop ihb ihr
  | brk guard rest ih => exact simulates_brk ih
  | stop rest ih => exact simulates_stop

/-! ## Whole programs -/

/-- A well-formed program at an entry point, with its nesting within the stacks and an `END` behind
it. -/
structure Loaded (setup : ShaderSetup) (program : Block) (entryPoint endAddress : Nat) : Prop where
  laid : program.Laid setup [] entryPoint endAddress
  ended : opcode (fetch setup endAddress) = .END
  wellFormed : program.WellFormed .plain 0 false
  ifs : program.ifDepth ≤ 8
  calls : program.callDepth ≤ 4
  loops : program.loopDepth ≤ 4

theorem runInterpreter_unique {fuel fuel' : Nat} {state r r' : Registers σ} {entryPoint : Nat}
    (h : runInterpreter setup uniforms operate fuel state entryPoint = some r)
    (h' : runInterpreter setup uniforms operate fuel' state entryPoint = some r') : r = r' := by
  obtain ⟨m, hm, rfl⟩ := Option.map_eq_some_iff.mp h
  obtain ⟨m', hm', rfl⟩ := Option.map_eq_some_iff.mp h'
  rw [runMachine_unique hm hm']

/-- **The interpreter runs structured programs.** From every state of the registers whose run is
regular, `RunInterpreter` terminates in the state that the program means. -/
theorem runInterpreter_eval (setup : ShaderSetup) (uniforms : Uniforms) (operate : Operate σ)
    (program : Block) (entryPoint endAddress : Nat) (state : Registers σ)
    (hloaded : Loaded setup program entryPoint endAddress)
    (hreg : program.Regular uniforms operate .plain 0 false state) :
    ∃ fuel, runInterpreter setup uniforms operate fuel state entryPoint =
      some (program.eval uniforms operate false state).2 := by
  have hopen : ∀ p, Open p (⟨entryPoint, state, [], [], []⟩ : Machine σ) := fun p =>
    ⟨nofun, nofun, nofun⟩
  have hready : Ready setup uniforms operate program .plain 0 false [] entryPoint endAddress 0
      ⟨entryPoint, state, [], [], []⟩ :=
    { programCounter := rfl
      laid := hloaded.laid
      wellFormed := hloaded.wellFormed
      fits := hopen _
      ifs := by simpa using hloaded.ifs
      calls := by simpa using hloaded.calls
      loops := by simpa using hloaded.loops
      plain := fun _ => hopen _
      nonempty := fun _ => rfl
      thenOpened := nofun
      outOfLoop := nofun
      regular := hreg }
  have hhalts : ∃ m', Halts (iteration setup uniforms operate) ⟨entryPoint, state, [], [], []⟩ m' ∧
      m'.state = (program.eval uniforms operate false state).2 := by
    have hl : Lands setup uniforms operate _ _ _ (program.eval uniforms operate false state) :=
      simulates program hready
    have hnb : (program.eval uniforms operate false state).1 ≠ .broken :=
      Block.eval_ne_broken hloaded.wellFormed _ _
    generalize program.eval uniforms operate false state = r at hl hnb
    obtain ⟨outcome, state'⟩ := r
    cases outcome with
    | completed =>
      have hend : atEnd ⟨entryPoint, state, [], [], []⟩ endAddress state' = _ :=
        closeScopes_of_open (hopen _).goto
      have hl : Steps _ _ (atEnd _ endAddress state') := hl
      rw [hend] at hl
      -- What follows is the `END` behind the program.
      exact ⟨⟨add32 endAddress 1, state', [], [], []⟩, .of_steps hl (.of_step (by
        simp [iteration, execute, hloaded.ended, goto, closeScopes, closeCalls, popCalls, closeIf,
          closeLoop])), rfl⟩
    | broken => exact absurd rfl hnb
    | ended => exact hl
  obtain ⟨m', ⟨fuel, hfuel⟩, hstate⟩ := hhalts
  exact ⟨fuel, by rw [runInterpreter, hfuel, Option.map_some, hstate]⟩

/-! ## Programs on which the interpreter slips -/

/-- A program in the first words of a setup, with `END`s behind it. -/
def setupOf (code : List (BitVec 32)) : ShaderSetup where
  programCode i := code.getD i.val 0x88000000

/-- `LOOP i0; LOOP i1; NOP; ENDLOOP; NOP; ENDLOOP`. -/
def nestedLoop : Block :=
  .loop 0 (.loop 1 (.op 0x84000000 .done) (.op 0x84000000 .done)) .done

def nestedLoopCode : List (BitVec 32) := [0xa4000c00, 0xa4400800, 0x84000000, 0x84000000]

/-- `IFU b0; LOOP i0; IFU b0; BREAK; NOP; ENDIF; NOP; ENDLOOP; NOP; ELSE; MOV; ENDIF`. -/
def breakInIf : Block :=
  .ifElse (.uniform 0)
    (.loop 0
      (.ifElse (.uniform 0) (.brk .always (.op 0x84000000 .done)) .done (.op 0x84000000 .done))
      (.op 0x84000000 .done))
    (.op 0x4c000000 .done) .done

def breakInIfCode : List (BitVec 32) :=
  [0x9c001c01, 0xa4001400, 0x9c001400, 0x80000000, 0x84000000, 0x84000000, 0x84000000, 0x4c000000]

/-- Two loops that run once, with counters that start at 5 and at 7, and a flag that is set. -/
def sampleUniforms : Uniforms where
  b _ := true
  i id := if id = 0 then ⟨0, 5, 1⟩ else ⟨0, 7, 1⟩

/-- The number of `MOV`s. -/
def countMoves : Operate Nat := fun instr _ (codes, count) =>
  (codes, if instr = 0x4c000000 then count + 1 else count)

def sampleState : Registers Nat := ⟨(false, false), 0, 0⟩

theorem nestedLoop_loaded : Loaded (setupOf nestedLoopCode) nestedLoop 0 4 where
  laid := by
    simp only [nestedLoop, Laid]
    decide +kernel
  ended := by decide +kernel
  wellFormed := by
    simp only [nestedLoop, WellFormed]
    decide +kernel
  ifs := by decide +kernel
  calls := by decide +kernel
  loops := by decide +kernel

theorem breakInIf_loaded : Loaded (setupOf breakInIfCode) breakInIf 0 8 where
  laid := by
    simp only [breakInIf, Laid]
    decide +kernel
  ended := by decide +kernel
  wellFormed := by
    simp only [breakInIf, WellFormed]
    decide +kernel
  ifs := by decide +kernel
  calls := by decide +kernel
  loops := by decide +kernel

/-- An inner loop of three rounds that starts where the outer one does. -/
def equalUniforms : Uniforms where
  b _ := true
  i id := if id = 0 then ⟨0, 5, 1⟩ else ⟨2, 5, 1⟩

theorem nestedLoop_regular :
    nestedLoop.Regular equalUniforms countMoves .plain 0 false sampleState :=
  ⟨fun h => absurd h Bool.false_ne_true,
    ⟨⟨fun _ => rfl, ⟨trivial, trivial, trivial, trivial⟩, trivial⟩, trivial⟩, trivial⟩

theorem runInterpreter_eval_nestedLoop :
    ∃ fuel, runInterpreter (setupOf nestedLoopCode) equalUniforms countMoves fuel sampleState 0 =
      some (nestedLoop.eval equalUniforms countMoves false sampleState).2 :=
  runInterpreter_eval _ _ _ nestedLoop 0 4 _ nestedLoop_loaded nestedLoop_regular

/-- Both programs end, in another state than the one they mean: behind the inner loop `aL` is 7 and
not 5, and behind the `BREAK` the else-part is run too. -/
theorem slips :
    (Loaded (setupOf nestedLoopCode) nestedLoop 0 4 ∧
      ¬∃ fuel,
        runInterpreter (setupOf nestedLoopCode) sampleUniforms countMoves fuel sampleState 0 =
          some (nestedLoop.eval sampleUniforms countMoves false sampleState).2) ∧
    Loaded (setupOf breakInIfCode) breakInIf 0 8 ∧
      ¬∃ fuel,
        runInterpreter (setupOf breakInIfCode) sampleUniforms countMoves fuel sampleState 0 =
          some (breakInIf.eval sampleUniforms countMoves false sampleState).2 := by
  refine ⟨⟨nestedLoop_loaded, ?_⟩, breakInIf_loaded, ?_⟩
  · rintro ⟨fuel, hrun⟩
    have hend : runInterpreter (setupOf nestedLoopCode) sampleUniforms countMoves 20 sampleState 0 =
        some ⟨(false, false), 8, 0⟩ := by decide +kernel
    have heval : (nestedLoop.eval sampleUniforms countMoves false sampleState).2 =
        ⟨(false, false), 6, 0⟩ := by decide +kernel
    exact absurd (runInterpreter_unique hend hrun) (by rw [heval]; decide)
  · rintro ⟨fuel, hrun⟩
    have hend : runInterpreter (setupOf breakInIfCode) sampleUniforms countMoves 20 sampleState 0 =
        some ⟨(false, false), 6, 1⟩ := by decide +kernel
    have heval : (breakInIf.eval sampleUniforms countMoves false sampleState).2 =
        ⟨(false, false), 6, 0⟩ := by decide +kernel
    exact absurd (runInterpreter_unique hend hrun) (by rw [heval]; decide)

end GbaStation.Pica
