import GbaStation.Kernel.ThreadSlots

/-!
# Who owns a slot (`core/hle/kernel/thread.cpp`, `process.cpp`)

Runs of processes that create threads, and of threads that exit, with the other calls in between.

- `thread_creation`: a creation that fails changes nothing exactly if it is refused at once, and the
  slots are those of the threads that are alive along a run.
-/

namespace GbaStation.Kernel

namespace ThreadCreation

open Memory (VMManager MemoryRef BackingMem)
open Memory.VMManager (WellFormed pointerAt)
open ResourceLimits.KernelSystem (tlsAreaVAddr citraPageSize tlsEntrySize tlsAddress)

namespace KernelSystem

variable {P : Type} {mems : BackingMem → Prop} {k k' : KernelSystem P} {p : P}

/-- The thread is alive, of the process, and its storage is at the address. -/
def Live (k : KernelSystem P) (t : ThreadId) (p : P) (address : Nat) : Prop :=
  ∃ thread, k.threads[t]? = some thread ∧ thread.status ≠ .dead ∧ thread.ownerProcess = p ∧
    thread.tlsAddress = address

/-- The slots are those of the threads that are alive, one each, in pages that are mapped. -/
structure Exclusive (k : KernelSystem P) : Prop where
  distinct : ∀ t u p address, k.Live t p address → k.Live u p address → t = u
  owned : ∀ p i b, b < 8 → (SlotPages.isSet (k.process p).tlsSlots i b = true ↔
    ∃ t, k.Live t p (tlsAddress i b))
  located : ∀ t p address, k.Live t p address →
    ∃ i b, i < (k.process p).tlsSlots.length ∧ b < 8 ∧ address = tlsAddress i b
  mapped : ∀ p, ∀ i < (k.process p).tlsSlots.length, PageMapped (k.process p).vmManager i

/-- The memory is the same. -/
structure SameMemory (k k' : KernelSystem P) : Prop where
  baseRegion : k'.baseRegion = k.baseRegion
  fcram : k'.fcram = k.fcram
  vmManager : ∀ q, (k'.process q).vmManager = (k.process q).vmManager
  tlsSlots : ∀ q, (k'.process q).tlsSlots = (k.process q).tlsSlots

theorem Sound.of_same (h : Sound mems k) (hsame : SameMemory k k') : Sound mems k' where
  region := hsame.baseRegion ▸ h.region
  fcram := hsame.fcram ▸ h.fcram
  fcramMem := by
    rw [KernelSystem.fcramMem, hsame.fcram]
    exact h.fcramMem
  spaces q := hsame.vmManager q ▸ h.spaces q
  pages q := by
    rw [hsame.tlsSlots, hsame.baseRegion]
    exact h.pages q

theorem sameMemory_finishThread (k : KernelSystem P) (t : ThreadId) (thread : Thread P)
    (address : Nat) (makeReady : Bool) :
    SameMemory k (k.finishThread t thread address makeReady) := by
  cases makeReady with
  | false => exact ⟨rfl, rfl, fun _ => rfl, fun _ => rfl⟩
  | true => exact ⟨rfl, rfl, fun _ => rfl, fun _ => rfl⟩

/-! ## A thread comes -/

section Add

variable {i b : Nat} {thread : Thread P}

/-- `k'` is `k` with a thread that has a slot of its process which was not used. -/
structure Adds (mems : BackingMem → Prop) (thread : Thread P) (i b : Nat)
    (k k' : KernelSystem P) : Prop where
  sound : Sound mems k'
  threads : k'.threads = k.threads ++ [thread]
  live : thread.status ≠ .dead
  address : thread.tlsAddress = tlsAddress i b
  others : ∀ q, q ≠ thread.ownerProcess → (k'.process q).tlsSlots = (k.process q).tlsSlots ∧
    (k'.process q).vmManager = (k.process q).vmManager
  slot_lt : b < 8
  fresh : SlotPages.isSet (k.process thread.ownerProcess).tlsSlots i b = false
  slots : ∀ j c, SlotPages.isSet (k'.process thread.ownerProcess).tlsSlots j c = true ↔
    SlotPages.isSet (k.process thread.ownerProcess).tlsSlots j c = true ∨ j = i ∧ c = b
  mapped : ∀ a, (pointerAt (k.process thread.ownerProcess).vmManager a).isSome = true →
    (pointerAt (k'.process thread.ownerProcess).vmManager a).isSome = true
  pages : ∀ j < (k'.process thread.ownerProcess).tlsSlots.length,
    j < (k.process thread.ownerProcess).tlsSlots.length ∨
      PageMapped (k'.process thread.ownerProcess).vmManager j

/-- A slot is allocated for the thread behind the ones that there are. -/
theorem Adds.of_allocates {k₀ k₁ : KernelSystem P}
    (h : Allocates mems thread.ownerProcess i b k₀ k₁) (hbefore : k₀.process = k.process)
    (hsame : SameMemory k₁ k') (hthreads : k'.threads = k.threads ++ [thread])
    (hlive : thread.status ≠ .dead) (haddress : thread.tlsAddress = tlsAddress i b) :
    Adds mems thread i b k k' where
  sound := h.sound.of_same hsame
  threads := hthreads
  live := hlive
  address := haddress
  others q hq := by
    rw [hsame.tlsSlots, hsame.vmManager, h.others q hq, hbefore]
    exact ⟨rfl, rfl⟩
  slot_lt := h.slot_lt
  fresh := hbefore ▸ h.fresh
  slots j c := by
    rw [hsame.tlsSlots, h.slots, hbefore]
  mapped a ha := by
    rw [hsame.vmManager]
    exact h.mapped a (hbefore ▸ ha)
  pages j hj := by
    rw [hsame.tlsSlots] at hj
    rw [hsame.vmManager, ← hbefore]
    exact h.pages j hj

theorem Adds.of_same {k'' : KernelSystem P} {thread' : Thread P} (h : Adds mems thread i b k k')
    (hsame : SameMemory k' k'') (hthreads : k''.threads = k.threads ++ [thread'])
    (howner : thread'.ownerProcess = thread.ownerProcess) (hlive : thread'.status ≠ .dead)
    (haddress : thread'.tlsAddress = thread.tlsAddress) : Adds mems thread' i b k k'' where
  sound := h.sound.of_same hsame
  threads := hthreads
  live := hlive
  address := haddress.trans h.address
  others q hq := by
    rw [hsame.tlsSlots, hsame.vmManager]
    exact h.others q (howner ▸ hq)
  slot_lt := h.slot_lt
  fresh := howner ▸ h.fresh
  slots j c := by
    rw [hsame.tlsSlots, howner]
    exact h.slots j c
  mapped a ha := by
    rw [hsame.vmManager, howner]
    exact h.mapped a (howner ▸ ha)
  pages j hj := by
    rw [hsame.tlsSlots, howner] at hj
    rw [hsame.vmManager, howner]
    exact h.pages j hj

theorem live_add (hthreads : k'.threads = k.threads ++ [thread]) (hlive : thread.status ≠ .dead)
    (t : ThreadId) (q : P) (address : Nat) :
    k'.Live t q address ↔ k.Live t q address ∨
      t = k.threads.length ∧ q = thread.ownerProcess ∧ address = thread.tlsAddress := by
  rw [Live, Live, hthreads]
  by_cases ht : t < k.threads.length
  · rw [List.getElem?_append_left ht, or_iff_left fun h => Nat.lt_irrefl _ (h.1 ▸ ht)]
  · rw [List.getElem?_eq_none (Nat.le_of_not_lt ht),
      List.getElem?_append_right (Nat.le_of_not_lt ht)]
    by_cases heq : t = k.threads.length
    · rw [heq, Nat.sub_self, List.getElem?_cons_zero]
      constructor
      · rintro ⟨_, h, -, rfl, rfl⟩
        cases h
        exact .inr ⟨rfl, rfl, rfl⟩
      · rintro (⟨_, h, -⟩ | ⟨-, rfl, rfl⟩)
        · cases h
        · exact ⟨thread, rfl, hlive, rfl, rfl⟩
    · have hbehind : [thread].length ≤ t - k.threads.length :=
        Nat.sub_pos_of_lt (Nat.lt_of_le_of_ne (Nat.le_of_not_lt ht) (Ne.symm heq))
      rw [List.getElem?_eq_none hbehind]
      refine iff_of_false ?_ ?_
      · rintro ⟨_, h, -⟩
        cases h
      · rintro (⟨_, h, -⟩ | ⟨h, -⟩)
        · cases h
        · exact heq h

/-- A thread that comes has a slot for itself. -/
theorem Exclusive.add (h : k.Exclusive) (hadds : Adds mems thread i b k k') : k'.Exclusive := by
  have hnew : ∀ t q address, k'.Live t q address ↔ k.Live t q address ∨
      t = k.threads.length ∧ q = thread.ownerProcess ∧ address = tlsAddress i b := by
    intro t q address
    rw [live_add hadds.threads hadds.live, hadds.address]
  -- the slot was not used, so no thread had it
  have hfree : ∀ t, ¬k.Live t thread.ownerProcess (tlsAddress i b) := by
    intro t ht
    have hset := (h.owned _ i b hadds.slot_lt).mpr ⟨t, ht⟩
    rw [hadds.fresh] at hset
    cases hset
  have howned : ∀ q j c, c < 8 → (SlotPages.isSet (k'.process q).tlsSlots j c = true ↔
      ∃ t, k'.Live t q (tlsAddress j c)) := by
    intro q j c hc
    simp only [hnew, exists_or]
    by_cases hq : q = thread.ownerProcess
    · rw [hq, hadds.slots, h.owned _ j c hc]
      refine or_congr_right ⟨?_, ?_⟩
      · rintro ⟨rfl, rfl⟩
        exact ⟨_, rfl, rfl, rfl⟩
      · rintro ⟨_, -, -, heq⟩
        exact tlsAddress_inj hc hadds.slot_lt heq
    · rw [(hadds.others q hq).1, h.owned q j c hc]
      exact (or_iff_left fun ⟨_, _, hqp, _⟩ => hq hqp).symm
  refine ⟨?_, howned, ?_, ?_⟩
  · intro t u q address ht hu
    rcases (hnew _ _ _).mp ht with ht | ⟨rfl, rfl, rfl⟩
    · rcases (hnew _ _ _).mp hu with hu | ⟨rfl, rfl, rfl⟩
      · exact h.distinct t u q address ht hu
      · exact absurd ht (hfree t)
    · rcases (hnew _ _ _).mp hu with hu | ⟨rfl, -, -⟩
      · exact absurd hu (hfree u)
      · rfl
  · intro t q address ht
    obtain ⟨j, c, hc, rfl⟩ : ∃ j c, c < 8 ∧ address = tlsAddress j c := by
      rcases (hnew _ _ _).mp ht with ht | ⟨-, -, rfl⟩
      · obtain ⟨j, c, -, hc, heq⟩ := h.located t q address ht
        exact ⟨j, c, hc, heq⟩
      · exact ⟨i, b, hadds.slot_lt, rfl⟩
    exact ⟨j, c, (SlotPages.inside_of_isSet ((howned q j c hc).mpr ⟨t, ht⟩)).1, hc, rfl⟩
  · intro q j hj
    by_cases hq : q = thread.ownerProcess
    · rw [hq] at hj ⊢
      rcases hadds.pages j hj with hold | hpage
      · exact fun a h₁ h₂ => hadds.mapped a (h.mapped _ j hold a h₁ h₂)
      · exact hpage
    · rw [(hadds.others q hq).1] at hj
      rw [(hadds.others q hq).2]
      exact h.mapped q j hj

end Add

theorem modify_length_append {α : Type} (l : List α) (x : α) (f : α → α) :
    (l ++ [x]).modify l.length f = l ++ [f x] := by
  induction l with
  | nil => rfl
  | cons y l ih => exact congrArg (y :: ·) ih

theorem threads_finishThread {l : List (Thread P)} {thread : Thread P}
    (h : k.threads = l ++ [thread]) (address : Nat) (makeReady : Bool) :
    (k.finishThread l.length thread address makeReady).threads = l ++ [{ thread with
      tlsAddress := address, status := if makeReady then .ready else thread.status }] := by
  cases makeReady with
  | false =>
    show k.threads.modify _ _ = _
    rw [h, modify_length_append]
    rfl
  | true =>
    show (k.threads.modify _ _).modify _ _ = _
    rw [h, modify_length_append, modify_length_append]
    rfl

/-- The thread that is registered gets the slot. -/
theorem Adds.finishThread (thread : Thread P) {k₀ k₁ : KernelSystem P} {i b : Nat}
    (h : Allocates mems thread.ownerProcess i b (k₀.register thread) k₁)
    (hprocess : k₀.process = k.process) (hthreads : k₀.threads = k.threads)
    (hlive : thread.status ≠ .dead) (makeReady : Bool) :
    Adds mems { thread with
      tlsAddress := tlsAddress i b, status := if makeReady then .ready else thread.status } i b k
      (k₁.finishThread k.threads.length thread (tlsAddress i b) makeReady) := by
  have hregistered : k₁.threads = k.threads ++ [thread] := by
    rw [h.threads, ← hthreads]
    rfl
  refine .of_allocates h hprocess (sameMemory_finishThread _ _ _ _ _)
    (threads_finishThread hregistered _ _) ?_ rfl
  cases makeReady with
  | false => exact hlive
  | true => exact ThreadStatus.noConfusion

/-! ## A thread goes -/

/-- `k'` is `k` with a thread that is dead now, and the slot of its address free. -/
structure Exits (t : ThreadId) (thread : Thread P) (k k' : KernelSystem P) : Prop where
  found : k.threads[t]? = some thread
  live : thread.status ≠ .dead
  threads : k'.threads = k.threads.modify t fun thread => { thread with status := .dead }
  baseRegion : k'.baseRegion = k.baseRegion
  fcram : k'.fcram = k.fcram
  vmManager : ∀ q, (k'.process q).vmManager = (k.process q).vmManager
  others : ∀ q, q ≠ thread.ownerProcess → (k'.process q).tlsSlots = (k.process q).tlsSlots
  page_lt : sub32 thread.tlsAddress tlsAreaVAddr / citraPageSize <
    (k.process thread.ownerProcess).tlsSlots.length
  slots : (k'.process thread.ownerProcess).tlsSlots =
    SlotPages.free (k.process thread.ownerProcess).tlsSlots
      (sub32 thread.tlsAddress tlsAreaVAddr / citraPageSize)
      (sub32 thread.tlsAddress tlsAreaVAddr % citraPageSize / tlsEntrySize)

section Exit

variable {t : ThreadId} {thread : Thread P}

theorem Exits.length_tlsSlots (h : Exits t thread k k') (q : P) :
    (k'.process q).tlsSlots.length = (k.process q).tlsSlots.length := by
  by_cases hq : q = thread.ownerProcess
  · rw [hq, h.slots, SlotPages.length_free]
  · rw [h.others q hq]

theorem Sound.exit (hs : Sound mems k) (h : Exits t thread k k') : Sound mems k' where
  region := h.baseRegion ▸ hs.region
  fcram := h.fcram ▸ hs.fcram
  fcramMem := by
    rw [KernelSystem.fcramMem, h.fcram]
    exact hs.fcramMem
  spaces q := h.vmManager q ▸ hs.spaces q
  pages q := by
    rw [h.length_tlsSlots, h.baseRegion]
    exact hs.pages q

theorem live_exit (h : Exits t thread k k') (u : ThreadId) (q : P) (address : Nat) :
    k'.Live u q address ↔ k.Live u q address ∧ u ≠ t := by
  rw [Live, Live, h.threads, List.getElem?_modify]
  by_cases hu : t = u
  · subst hu
    refine iff_of_false ?_ fun hne => hne.2 rfl
    rintro ⟨thread', hthread', hlive, -⟩
    simp only [h.found, if_true] at hthread'
    cases hthread'
    exact hlive rfl
  · simp only [if_neg hu, id_map']
    exact (and_iff_left (Ne.symm hu)).symm

/-- A thread that goes gives its slot back, and no other. -/
theorem Exclusive.exit (hk : k.Exclusive) (hs : Sound mems k) (h : Exits t thread k k') :
    k'.Exclusive := by
  have hold : k.Live t thread.ownerProcess thread.tlsAddress := ⟨thread, h.found, h.live, rfl, rfl⟩
  -- the slot of the address is the one that the thread has
  obtain ⟨i, b, hi, hb, haddress⟩ := hk.located _ _ _ hold
  obtain ⟨hpage, hslot⟩ := slot_of_tlsAddress (hi.trans_le (hs.pages_le _)) hb
  have hslots := h.slots
  rw [haddress, hpage, hslot] at hslots
  rw [haddress] at hold
  refine ⟨fun u v q address hu hv => ?_, fun q j c hc => ?_, fun u q address hu => ?_,
    fun q j hj => ?_⟩
  · exact hk.distinct u v q address ((live_exit h _ _ _).mp hu).1 ((live_exit h _ _ _).mp hv).1
  · simp only [live_exit h]
    by_cases hq : q = thread.ownerProcess
    · rw [hq, hslots, SlotPages.isSet_free hi, hk.owned _ j c hc]
      constructor
      · rintro ⟨⟨u, hu⟩, hne⟩
        refine ⟨u, hu, ?_⟩
        rintro rfl
        obtain ⟨thread', hthread', -, -, haddress'⟩ := hu
        rw [h.found] at hthread'
        cases hthread'
        exact hne (tlsAddress_inj hc hb (haddress'.symm.trans haddress))
      · rintro ⟨u, hu, hne⟩
        refine ⟨⟨u, hu⟩, ?_⟩
        rintro ⟨rfl, rfl⟩
        exact hne (hk.distinct u t _ _ hu hold)
    · rw [h.others q hq, hk.owned q j c hc]
      constructor
      · rintro ⟨u, hu⟩
        refine ⟨u, hu, ?_⟩
        rintro rfl
        obtain ⟨thread', hthread', -, howner, -⟩ := hu
        rw [h.found] at hthread'
        cases hthread'
        exact hq howner.symm
      · rintro ⟨u, hu, -⟩
        exact ⟨u, hu⟩
  · obtain ⟨j, c, hj, hc, heq⟩ := hk.located u q address ((live_exit h _ _ _).mp hu).1
    exact ⟨j, c, (h.length_tlsSlots q).symm ▸ hj, hc, heq⟩
  · rw [h.length_tlsSlots] at hj
    rw [h.vmManager]
    exact hk.mapped q j hj

end Exit

/-- Any other call: the threads that are alive, the slots and their pages stay. -/
structure OtherCall (mems : BackingMem → Prop) (k k' : KernelSystem P) : Prop where
  sound : Sound mems k'
  live : ∀ t p address, k'.Live t p address ↔ k.Live t p address
  tlsSlots : ∀ p, (k'.process p).tlsSlots = (k.process p).tlsSlots
  mapped : ∀ p, ∀ i < (k.process p).tlsSlots.length, PageMapped (k.process p).vmManager i →
    PageMapped (k'.process p).vmManager i

/-- No process has a thread yet. -/
structure Initial (mems : BackingMem → Prop) (k : KernelSystem P) : Prop where
  sound : Sound mems k
  threads : k.threads = []
  tlsSlots : ∀ p, (k.process p).tlsSlots = []

theorem Initial.exclusive (h : Initial mems k) : k.Exclusive := by
  have hnone : ∀ t p address, ¬k.Live t p address := by
    rintro t p address ⟨_, hthread, -⟩
    rw [h.threads] at hthread
    cases hthread
  refine ⟨fun t _ p address ht _ => absurd ht (hnone t p address), fun p i b _ => ?_,
    fun t p address ht => absurd ht (hnone t p address), fun p i hi => ?_⟩
  · refine iff_of_false (fun hset => ?_) fun ⟨t, ht⟩ => hnone t p _ ht
    have hinside := (SlotPages.inside_of_isSet hset).1
    rw [h.tlsSlots] at hinside
    cases hinside
  · rw [h.tlsSlots] at hi
    cases hi

theorem Exclusive.other (hk : k.Exclusive) (h : OtherCall mems k k') : k'.Exclusive := by
  refine ⟨fun t u p address ht hu => ?_, fun p i b hb => ?_, fun t p address ht => ?_,
    fun p i hi => ?_⟩
  · exact hk.distinct t u p address ((h.live _ _ _).mp ht) ((h.live _ _ _).mp hu)
  · simp only [h.tlsSlots, h.live]
    exact hk.owned p i b hb
  · rw [h.tlsSlots]
    exact hk.located t p address ((h.live _ _ _).mp ht)
  · rw [h.tlsSlots] at hi
    exact h.mapped p i hi (hk.mapped p i hi)

/-! ## Creation -/

variable [DecidableEq P]

theorem createHandle_snd (k : KernelSystem P) (p : P) (t : ThreadId) :
    (k.createHandle p t).2 = k.modifyProcess p fun process =>
      { process with handleTable := ((k.process p).handleTable.create (.thread t)).2 } :=
  rfl

theorem sameMemory_createHandle (k : KernelSystem P) (p : P) (t : ThreadId) :
    SameMemory k (k.createHandle p t).2 where
  baseRegion := rfl
  fcram := rfl
  vmManager q := by
    rw [createHandle_snd, process_modifyProcess]
    split_ifs with hq
    · rw [hq]
    · rfl
  tlsSlots q := by
    rw [createHandle_snd, process_modifyProcess]
    split_ifs with hq
    · rw [hq]
    · rfl

/-- A call leaves the kernel sound; if it is one that changes nothing when it fails, nothing is
changed or a thread is added. -/
theorem createThread_spec (hs : Sound mems k) {a : NewThread} {result : Except Result Handle}
    (h : k.createThread p a = some (result, k')) :
    Sound mems k' ∧ (k.Clean p a → k' = k ∨ ∃ thread i b, Adds mems thread i b k k') := by
  by_cases hrefused : k.Refused p a
  · obtain ⟨_, hcall⟩ := createThread_refused hrefused
    rw [hcall] at h
    cases h
    exact ⟨hs, fun _ => .inl rfl⟩
  · obtain ⟨c, hc, hcases⟩ := createThread_cases hs hrefused
    have hreserved : Sound mems (k.reserved p) := hs.reserve _
    rcases hcases with ⟨hentry, hcall⟩ | ⟨-, -, hcall⟩ | ⟨-, hmanager, hstorage, hcall⟩ |
      ⟨-, -, -, i, b, k₁, hallocates, hcall⟩
    · rw [hcall] at h
      cases h
      refine ⟨hreserved, fun hclean => ?_⟩
      rcases hclean with hclean | ⟨hclean, -⟩
      · exact absurd hclean hrefused
      · rw [hentry] at hclean
        cases hclean
    · rw [hcall] at h
      cases h
    · rw [hcall] at h
      cases h
      refine ⟨hreserved.register _, fun hclean => ?_⟩
      rcases hclean with hclean | ⟨-, hclean | ⟨hclean, -⟩⟩
      · exact absurd hclean hrefused
      · exact absurd hmanager (hclean c hc)
      · exact absurd hclean hstorage
    · rw [hcall, Option.some.injEq] at h
      obtain rfl : _ = k' := congrArg Prod.snd h
      have hadds := Adds.finishThread (k := k) (newThread p { a with processorId := c }) hallocates
        rfl rfl ThreadStatus.noConfusion true
      have hadds' := hadds.of_same (sameMemory_createHandle _ p k.threads.length) hadds.threads rfl
        hadds.live rfl
      exact ⟨hadds'.sound, fun _ => .inr ⟨_, i, b, hadds'⟩⟩

theorem createKernelThread_ok {k₀ : KernelSystem P} (hs : Sound mems k)
    (hprocess : k.process = k₀.process) (hthreads : k.threads = k₀.threads) {a : NewThread}
    {makeReady : Bool} {t : ThreadId}
    (h : k.createKernelThread p a makeReady = some (.ok t, k')) :
    t = k₀.threads.length ∧ ∃ thread i b, Adds mems thread i b k₀ k' := by
  by_cases hpriority : a.priority ≤ threadPrioLowest
  · by_cases hprocessor : a.processorId ≤ 4
    · rcases createKernelThread_cases hs p makeReady hpriority hprocessor with
        ⟨-, hcall⟩ | ⟨-, -, hcall⟩ | ⟨-, -, -, hcall⟩ | ⟨-, -, -, i, b, k₁, hallocates, hcall⟩
      · rw [hcall] at h
        cases h
      · rw [hcall] at h
        cases h
      · rw [hcall] at h
        cases h
      · rw [hcall] at h
        cases h
        rw [hthreads]
        exact ⟨rfl, _, i, b, Adds.finishThread (newThread p a) hallocates hprocess hthreads
          ThreadStatus.noConfusion makeReady⟩
    · rw [createKernelThread, if_neg (Nat.not_lt.mpr hpriority),
        if_pos (Int.not_le.mp hprocessor)] at h
      cases h
  · rw [createKernelThread, if_pos (Nat.not_le.mp hpriority)] at h
    cases h

/-- A process that runs has a main thread. -/
theorem run_spec (hs : Sound mems k) {entryPoint priority : Nat} {delayed : Bool}
    (h : k.run p entryPoint priority delayed = some k') :
    ∃ thread i b, Adds mems thread i b k k' := by
  have hreserved : Sound mems (k.reserved p) := hs.reserve _
  rw [run] at h
  dsimp only at h
  rw [if_neg (show ¬(k.reserve (k.process p).resourceLimit).1 = false from Bool.noConfusion)] at h
  split at h
  · cases h
  · cases h
  · rename_i t k₁ hcall
    have hprocess : (k.reserved p).process = k.process := rfl
    obtain ⟨rfl, thread, i, b, hadds⟩ := createKernelThread_ok hreserved hprocess rfl hcall
    obtain rfl := Option.some.inj h
    cases delayed with
    | false => exact ⟨thread, i, b, hadds⟩
    | true =>
      have hthreads : k₁.threads.modify k.threads.length
          (fun thread => { thread with status := .waitSleep }) =
            k.threads ++ [{ thread with status := .waitSleep }] := by
        rw [hadds.threads, modify_length_append]
      refine ⟨{ thread with status := .waitSleep }, i, b, hadds.of_same ?_ hthreads rfl
        ThreadStatus.noConfusion rfl⟩
      exact ⟨rfl, rfl, fun _ => rfl, fun _ => rfl⟩

theorem exitThread_spec {t : ThreadId} (h : k.exitThread t = some k') :
    ∃ thread, Exits t thread k k' := by
  rw [exitThread] at h
  cases hthread : k.threads[t]? with
  | none =>
    rw [hthread] at h
    cases h
  | some thread =>
    rw [hthread] at h
    dsimp only at h
    by_cases hdead : thread.status = .dead
    · rw [if_pos hdead] at h
      cases h
    rw [if_neg hdead] at h
    obtain ⟨k₁, hstop, rfl⟩ := Option.map_eq_some_iff.mp h
    rw [stop, hthread] at hstop
    dsimp only at hstop
    by_cases hpage : sub32 thread.tlsAddress tlsAreaVAddr / citraPageSize <
        (k.process thread.ownerProcess).tlsSlots.length
    · rw [if_pos hpage] at hstop
      obtain rfl := Option.some.inj hstop
      refine ⟨thread, hthread, hdead, rfl, rfl, rfl, fun q => ?_, fun q hq => ?_, hpage, ?_⟩
      · show (Function.update k.process _ _ q).vmManager = _
        rw [Function.update_apply]
        by_cases hq : q = thread.ownerProcess
        · rw [if_pos hq, hq]
          rfl
        · rw [if_neg hq]
      · show (Function.update k.process _ _ q).tlsSlots = _
        rw [Function.update_of_ne hq]
      · show (Function.update k.process _ _ _).tlsSlots = _
        rw [Function.update_self]
        rfl
    · rw [if_neg hpage] at hstop
      cases hstop

/-! ## Runs -/

/-- The states of runs whose events are admitted. -/
inductive Reached (mems : BackingMem → Prop) (admits : KernelSystem P → Event P → Prop) :
    KernelSystem P → Prop
  | start {k : KernelSystem P} : Initial mems k → Reached mems admits k
  | step {k k' : KernelSystem P} {e : Event P} : Reached mems admits k → admits k e →
      k.step e = some k' → Reached mems admits k'
  | other {k k' : KernelSystem P} : Reached mems admits k → OtherCall mems k k' →
      Reached mems admits k'

/-- No creation is one that fails and leaves something. -/
def Event.Clean (k : KernelSystem P) : Event P → Prop
  | .createThread p a => k.Clean p a
  | _ => True

theorem Reached.sound {admits : KernelSystem P → Event P → Prop} (h : Reached mems admits k) :
    Sound mems k := by
  induction h with
  | start h => exact h.sound
  | @step k k' e _ _ hstep ih =>
    cases e with
    | run p entryPoint priority delayed =>
      obtain ⟨_, _, _, hadds⟩ := run_spec ih hstep
      exact hadds.sound
    | createThread p a =>
      obtain ⟨⟨result, k₁⟩, hcall, rfl⟩ := Option.map_eq_some_iff.mp hstep
      exact (createThread_spec ih hcall).1
    | exitThread t =>
      obtain ⟨_, hexits⟩ := exitThread_spec hstep
      exact ih.exit hexits
  | other _ hother _ => exact hother.sound

theorem Exclusive.step (hs : Sound mems k) (hk : k.Exclusive) {e : Event P} (hclean : e.Clean k)
    (h : k.step e = some k') : k'.Exclusive := by
  cases e with
  | run p entryPoint priority delayed =>
    obtain ⟨_, _, _, hadds⟩ := run_spec hs h
    exact hk.add hadds
  | createThread p a =>
    obtain ⟨⟨result, k₁⟩, hcall, rfl⟩ := Option.map_eq_some_iff.mp h
    rcases (createThread_spec hs hcall).2 hclean with rfl | ⟨_, _, _, hadds⟩
    · exact hk
    · exact hk.add hadds
  | exitThread t =>
    obtain ⟨_, hexits⟩ := exitThread_spec h
    exact hk.exit hs hexits

/-- In whatever state, a creation that fails leaves the kernel as it was exactly if it is refused
at once or no later step fails; and in runs of such creations the slots are those of the threads
that are alive. -/
theorem thread_creation (mems : BackingMem → Prop) :
    (∀ k : KernelSystem P, Reached mems (fun _ _ => True) k →
      ∀ p a, k.Atomic p a ↔ k.Clean p a) ∧
    ∀ k : KernelSystem P, Reached mems (fun k e => e.Clean k) k → k.Exclusive := by
  refine ⟨fun k h p a => createThread_atomic_iff h.sound p a, fun k h => ?_⟩
  induction h with
  | start h => exact h.exclusive
  | step hreached hclean hstep ih => exact ih.step hreached.sound hclean hstep
  | other _ hother ih => exact ih.other hother

section Example

/-- FCRAM, with nothing of the `BASE` region in use. -/
def codePageFcram : BackingMem := ⟨0x100000, fcramN3DSSize⟩

/-- A page of code. -/
def codePage : List Memory.VirtualMemoryArea :=
  [{ size := 0x00100000 },
   { base := 0x00100000, size := 0x1000, type := .backingMemory,
     permissions := Memory.VMAPermission.readWrite, meminfoState := .code,
     backingMemory := ⟨some codePageFcram, 0⟩ },
   { base := 0x00101000, size := Memory.maxAddress - 0x00101000 }]

/-- A process with a page of code and no thread. -/
def codePageKernel : KernelSystem Unit where
  limits _ := { limitValues := fun _ => 32 }
  process _ :=
    { resourceLimit := .application, noThreadRestrictions := true, idealProcessor := 0
      handleTable := HandleTable.init, vmManager := { vmaMap := VMManager.keyed codePage } }
  manager :=
    { currentThread := fun _ => none, readyQueue := fun _ => Common.ThreadQueueList.empty
      wakeupCallbackTable := fun _ => [], threadList := fun _ => [] }
  numCores := 4
  baseRegion :=
    { base := 0x08000000, size := 0x01000000
      freeBlocks := IntervalSet.empty.add ⟨0x08000000, 0x09000000⟩ }
  fcram := 0x100000

theorem codePage_wellFormed :
    WellFormed (· = codePageFcram) (codePageKernel.process ()).vmManager := by
  refine VMManager.wellFormed_of_areas rfl rfl ?_ ?_ (fun v hv => ?_) (by decide)
  · exact ⟨rfl, by decide, rfl, by decide, rfl, by decide, rfl⟩
  · rintro _ _ rfl rfl h
    exact absurd rfl h
  · simp only [codePage, List.mem_cons, List.not_mem_nil, or_false] at hv
    rcases hv with rfl | rfl | rfl
    · exact ⟨rfl, rfl, nofun⟩
    · exact ⟨rfl, rfl, fun _ => ⟨_, rfl, rfl, by decide⟩⟩
    · exact ⟨rfl, rfl, nofun⟩

theorem codePage_initial : Initial (· = codePageFcram) codePageKernel where
  sound := by
    have hregion : MemoryRegionInfo.reset 0x08000000 0x01000000 {} =
        some codePageKernel.baseRegion := by
      decide
    exact ⟨(MemoryRegionInfo.reset_spec (by decide) hregion).1, by decide, rfl,
      fun _ => codePage_wellFormed, fun p => by cases p; decide⟩
  threads := rfl
  tlsSlots _ := rfl

/-- The arguments of a creation, for an entry point. -/
def codePageThread (entryPoint : Nat) : NewThread where
  entryPoint
  arg := 0
  stackTop := 0x10000000
  priority := 48
  processorId := 0

theorem codePage_not_refused (entryPoint : Nat) :
    ¬codePageKernel.Refused () (codePageThread entryPoint) := by
  rintro (hpriority | ⟨-, hrestricted⟩ | hprocessor)
  · exact absurd hpriority (by decide : ¬63 < 48)
  · exact Bool.noConfusion hrestricted
  · exact hprocessor 0 rfl

/-- A creation in the page of code leaves a thread that owns its slot. -/
theorem codePage_exclusive :
    ∃ k, codePageKernel.step (.createThread () (codePageThread 0x00100000)) = some k ∧
      k.Exclusive := by
  have hentry : (codePageKernel.process ()).isValidVirtualAddress 0x00100000 = true := by
    decide +kernel
  have hclean : codePageKernel.Clean () (codePageThread 0x00100000) :=
    .inr ⟨hentry, .inr ⟨.inr ⟨⟨0x08000000, 0x09000000⟩, by decide, by decide⟩, by decide⟩⟩
  have hreturns : codePageKernel.createThread () (codePageThread 0x00100000) ≠ none := by
    obtain ⟨c, hc, hcases⟩ :=
      createThread_cases codePage_initial.sound (codePage_not_refused 0x00100000)
    rcases hcases with ⟨-, hcall⟩ | ⟨-, hmanager, -⟩ | ⟨-, -, -, hcall⟩ |
      ⟨-, -, -, _, _, _, -, hcall⟩
    · rw [hcall]
      exact Option.some_ne_none _
    · cases hc
      exact absurd ⟨by decide, by decide⟩ hmanager
    · rw [hcall]
      exact Option.some_ne_none _
    · rw [hcall]
      exact Option.some_ne_none _
  obtain ⟨r, hcall⟩ := Option.ne_none_iff_exists'.mp hreturns
  have hstep : codePageKernel.step (.createThread () (codePageThread 0x00100000)) = some r.2 :=
    congrArg (Option.map Prod.snd) hcall
  have hreached : Reached (· = codePageFcram) (fun k e => e.Clean k) r.2 :=
    .step (e := .createThread () (codePageThread 0x00100000)) (.start codePage_initial) hclean hstep
  exact ⟨r.2, hstep, (thread_creation _).2 r.2 hreached⟩

/-- A creation behind the page of code fails, and the thread stays reserved. -/
theorem codePage_not_atomic :
    Reached (· = codePageFcram) (fun _ _ => True) codePageKernel ∧
      ¬codePageKernel.Atomic () (codePageThread 0x00101000) := by
  refine ⟨.start codePage_initial, ?_⟩
  rw [createThread_atomic_iff codePage_initial.sound]
  rintro (hrefused | ⟨hentry, -⟩)
  · exact codePage_not_refused _ hrefused
  · exact absurd hentry (by decide +kernel)

end Example

end KernelSystem

end ThreadCreation

end GbaStation.Kernel
