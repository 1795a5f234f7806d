import GbaStation.Gsp.InterruptDelivery

/-!
# The GPU right

A session of the GSP service asks for the right to use the GPU on behalf of a process. On the way,
`AcquireGpuRight` sets what goes by the program of the process: the hacks of the service, the PICA
and the rasterizer, and the shaders on the disk.

An assertion that fails ends the program: there is no step for it. A driver cache that cannot be
created is not modelled.
-/

namespace GbaStation.Gsp

open Option (map_eq_some_iff)

/-! ## Settings of a program -/

inductive HackType where
  | rightEyeDisable | accurateMultiplication | decryptionAuthorized | onlineLleRequired
  | regionFromSecure | requiresShaderFixup | spoofFriendCodeSeed | delayTextureCopyCompletion
  deriving DecidableEq

inductive HackAllowMode where
  | allow | disallow | force
  deriving DecidableEq

structure HackEntry where
  mode : HackAllowMode
  affectedTitleIds : List Nat

/-- `HackManager`: the entries of a type are in the order of the list. -/
structure HackManager where
  entries : List (HackType × HackEntry)

namespace HackManager

def getHack (m : HackManager) (type : HackType) (titleId : Nat) : Option HackEntry :=
  (m.entries.find? fun e => e.1 = type ∧ titleId ∈ e.2.affectedTitleIds).map Prod.snd

def getHackAllowMode (m : HackManager) (type : HackType) (titleId : Nat)
    (defaultMode : HackAllowMode) : HackAllowMode :=
  match m.getHack type titleId with
  | some hack => hack.mode
  | none => defaultMode

/-- The tests of `AcquireGpuRight`. -/
def rightEyeDisableAllow (m : HackManager) (programId : Nat) : Bool :=
  m.getHackAllowMode .rightEyeDisable programId .allow ≠ .disallow

def requiresShaderFixup (m : HackManager) (programId : Nat) : Bool :=
  m.getHackAllowMode .requiresShaderFixup programId .disallow ≠ .disallow

def delayTextureCopyCompletion (m : HackManager) (programId : Nat) : Bool :=
  m.getHackAllowMode .delayTextureCopyCompletion programId .disallow ≠ .disallow

/-- `use_accurate_mul` of `ApplyPerProgramSettings`. -/
def useAccurateMul (m : HackManager) (shadersAccurateMul : Bool) (programId : Nat) : Bool :=
  match m.getHack .accurateMultiplication programId with
  | none => shadersAccurateMul
  | some hack =>
    match hack.mode with
    | .disallow => false
    | .force => true
    | .allow => shadersAccurateMul

end HackManager

/-- Which rasterizer there is. -/
inductive Renderer where
  | software | openGl | vulkan
  deriving DecidableEq

/-- What the GPU and its rasterizer hold that goes by a program. -/
structure Gpu where
  renderer : Renderer
  accurateMul : Bool
  rightEyeDisablerEnabled : Bool
  vsRequiresFixup : Bool
  gsRequiresFixup : Bool
  /-- The program of the shader manager of OpenGL, or of the pipeline cache of Vulkan. -/
  diskProgramId : Option Nat
  /-- The setting of the pipeline cache of Vulkan. -/
  pipelineAccurateMul : Bool
  deriving DecidableEq

/-- `SwitchDiskResources` of the rasterizer. -/
def Gpu.switchDiskResources (gpu : Gpu) (titleId : Nat) : Gpu :=
  match gpu.renderer with
  | .software => gpu
  | .openGl => { gpu with diskProgramId := some titleId }
  | .vulkan => { gpu with
      pipelineAccurateMul := gpu.accurateMul
      diskProgramId := some titleId }

/-- What a request for the right comes with: the process, the thread, and the setting of the user
at that time. -/
structure AcquireRequest where
  programId : Nat
  clientThreadId : Nat
  shadersAccurateMul : Bool

/-- `ApplyPerProgramSettings`, and the settings after it. -/
def Gpu.applySettings (gpu : Gpu) (hacks : HackManager) (request : AcquireRequest) : Gpu :=
  { gpu with
    accurateMul := hacks.useAccurateMul request.shadersAccurateMul request.programId
    rightEyeDisablerEnabled := hacks.rightEyeDisableAllow request.programId
    vsRequiresFixup := hacks.requiresShaderFixup request.programId
    gsRequiresFixup := hacks.requiresShaderFixup request.programId }

/-! ## Requests -/

theorem GspGpu.connectedSessions_releaseRight (g : GspGpu) (data : SessionData) :
    (g.releaseRight data).connectedSessions = g.connectedSessions := by
  unfold releaseRight
  split_ifs <;> rfl

/-- Only the right of the own session is released. -/
theorem GspGpu.threadIdWithRights_releaseRight {g : GspGpu} {data : SessionData} {t : Nat} :
    (g.releaseRight data).threadIdWithRights = some t ↔
      g.threadIdWithRights = some t ∧ t ≠ data.threadId := by
  unfold releaseRight
  split_ifs with hown
  · refine iff_of_false nofun ?_
    rintro ⟨ht, hne⟩
    exact hne (Option.some.inj (ht.symm.trans hown))
  · exact ⟨fun ht => ⟨ht, fun heq => hown (ht.trans (congrArg some heq))⟩, And.left⟩

structure GpuRight where
  gsp : GspGpu
  activeClientThreadId : Option Nat
  gpu : Gpu

namespace GpuRight

/-- `AcquireGpuRight`: the service is `GspGpu.acquireGpuRight`. -/
def acquireGpuRight (s : GpuRight) (hacks : HackManager) (data : SessionData)
    (request : AcquireRequest) (blocking : Bool) : Option (AcquireResult × GpuRight) :=
  let gpu := s.gpu.applySettings hacks request
  match s.gsp.acquireGpuRight data (hacks.delayTextureCopyCompletion request.programId)
      blocking with
  | none => none
  | some (.alreadyDone, gsp) => some (.alreadyDone, { s with gsp := gsp, gpu := gpu })
  | some (.busy, gsp) =>
    some (.busy, { s with gsp := gsp, gpu := gpu.switchDiskResources request.programId })
  | some (.success, gsp) =>
    some (.success, { gsp := gsp, gpu := gpu.switchDiskResources request.programId,
                      activeClientThreadId := some request.clientThreadId })

/-- `ReleaseRight`. -/
def releaseRight (s : GpuRight) (data : SessionData) : GpuRight :=
  { s with
    gsp := s.gsp.releaseRight data
    activeClientThreadId :=
      if s.gsp.threadIdWithRights = some data.threadId then none else s.activeClientThreadId }

/-- `ClientDisconnected`. -/
def clientDisconnected (s : GpuRight) (data : SessionData) : GpuRight :=
  { s.releaseRight data with gsp := s.gsp.clientDisconnected data }

/-- The settings of a program are in force. -/
def RunsWith (s : GpuRight) (hacks : HackManager) (request : AcquireRequest) : Prop :=
  s.gsp.delayTextureCopyCompletion = hacks.delayTextureCopyCompletion request.programId ∧
    s.gpu.accurateMul = hacks.useAccurateMul request.shadersAccurateMul request.programId ∧
    s.gpu.rightEyeDisablerEnabled = hacks.rightEyeDisableAllow request.programId ∧
    s.gpu.vsRequiresFixup = hacks.requiresShaderFixup request.programId ∧
    s.gpu.gsRequiresFixup = hacks.requiresShaderFixup request.programId ∧
    (s.gpu.renderer ≠ .software → s.gpu.diskProgramId = some request.programId) ∧
    (s.gpu.renderer = .vulkan → s.gpu.pipelineAccurateMul = s.gpu.accurateMul)

variable {s s' : GpuRight} {hacks : HackManager} {data : SessionData} {request : AcquireRequest}
  {blocking : Bool}

/-- What a request does, with the holder that it finds. -/
inductive Acquires (s : GpuRight) (hacks : HackManager) (data : SessionData)
    (request : AcquireRequest) : Bool → AcquireResult → GpuRight → Prop where
  | alreadyDone {s' : GpuRight} (blocking : Bool)
      (hown : s.gsp.threadIdWithRights = some data.threadId)
      (hrights : s'.gsp.threadIdWithRights = some data.threadId) :
      Acquires s hacks data request blocking .alreadyDone s'
  | success {s' : GpuRight} (blocking : Bool) (hnone : s.gsp.threadIdWithRights = none)
      (hrights : s'.gsp.threadIdWithRights = some data.threadId) :
      Acquires s hacks data request blocking .success s'
  | busy (holder : Nat) (hheld : s.gsp.threadIdWithRights = some holder)
      (hother : holder ≠ data.threadId) :
      Acquires s hacks data request false .busy
        { s with
          gsp := { s.gsp with
            delayTextureCopyCompletion := hacks.delayTextureCopyCompletion request.programId }
          gpu := (s.gpu.applySettings hacks request).switchDiskResources request.programId }

theorem acquires_of_acquireGpuRight {result : AcquireResult}
    (h : s.acquireGpuRight hacks data request blocking = some (result, s')) :
    s.Acquires hacks data request blocking result s' ∧ s.gsp.Administers s'.gsp ∧
      s'.gsp.connectedSessions = s.gsp.connectedSessions := by
  unfold acquireGpuRight at h
  cases hgsp : s.gsp.acquireGpuRight data (hacks.delayTextureCopyCompletion request.programId)
      blocking with
  | none =>
    rw [hgsp] at h
    cases h
  | some answer =>
    obtain ⟨result', gsp⟩ := answer
    have hadmin := GspGpu.administers_acquireGpuRight hgsp
    simp only [hgsp] at h
    unfold GspGpu.acquireGpuRight at hgsp
    split_ifs at hgsp with hown hnone hblocking
    · cases hgsp
      cases h
      exact ⟨.alreadyDone blocking hown hown, hadmin, rfl⟩
    · cases hgsp
      cases h
      exact ⟨.success blocking hnone rfl, hadmin, rfl⟩
    · cases hgsp
      cases h
      obtain ⟨holder, hheld⟩ := Option.ne_none_iff_exists'.mp hnone
      rw [Bool.not_eq_true] at hblocking
      subst hblocking
      exact ⟨.busy holder hheld fun heq => hown (hheld.trans (congrArg some heq)), hadmin, rfl⟩

/-- What a refused request sets is what is already there. -/
theorem refused_eq_iff :
    ({ s with
        gsp := { s.gsp with
          delayTextureCopyCompletion := hacks.delayTextureCopyCompletion request.programId }
        gpu := (s.gpu.applySettings hacks request).switchDiskResources request.programId } :
      GpuRight) = s ↔ s.RunsWith hacks request := by
  obtain ⟨gsp, active, gpu⟩ := s
  obtain ⟨connected, used, rights, first, delay, pending, queues⟩ := gsp
  obtain ⟨renderer, accurate, rightEye, vs, gs, disk, pipeline⟩ := gpu
  cases renderer <;>
    simp [RunsWith, Gpu.applySettings, Gpu.switchDiskResources] <;>
    grind

end GpuRight

/-! ## Runs -/

inductive RightEvent where
  | connect
  | disconnect (session : Nat)
  | acquireRight (session : Nat) (request : AcquireRequest)
  | tryAcquireRight (session : Nat) (request : AcquireRequest)
  | releaseRight (session : Nat)

structure RightRun where
  state : GpuRight
  /-- How many sessions there have been. -/
  sessions : Nat
  /-- What was there before and after each refused request. -/
  refused : List (GpuRight × GpuRight)

namespace RightRun

/-- The service after its constructor, with what the GPU holds then. -/
def init (gpu : Gpu) : RightRun :=
  { state := { gsp := .created, activeClientThreadId := none, gpu := gpu }
    sessions := 0
    refused := [] }

def withState (r : RightRun) (s : GpuRight) : RightRun := { r with state := s }

/-- The answer to a request is recorded. -/
def answer (r : RightRun) (result : AcquireResult) (s : GpuRight) : RightRun :=
  { r with
    state := s
    refused := if result = .busy then r.refused ++ [(r.state, s)] else r.refused }

def step (hacks : HackManager) (r : RightRun) : RightEvent → Option RightRun
  | .connect =>
    (r.state.gsp.clientConnected r.sessions).map fun gsp =>
      { r with state := { r.state with gsp := gsp }, sessions := r.sessions + 1 }
  | .disconnect session =>
    (r.state.gsp.getSessionData session).map fun data =>
      r.withState (r.state.clientDisconnected data)
  | .acquireRight session request =>
    (r.state.gsp.getSessionData session).bind fun data =>
      (r.state.acquireGpuRight hacks data request true).map fun (result, s) => r.answer result s
  | .tryAcquireRight session request =>
    (r.state.gsp.getSessionData session).bind fun data =>
      (r.state.acquireGpuRight hacks data request false).map fun (result, s) => r.answer result s
  | .releaseRight session =>
    (r.state.gsp.getSessionData session).map fun data => r.withState (r.state.releaseRight data)

/-- At most one session has the right, the holder is connected, and thread ids are distinct. -/
structure RightHeld (r : RightRun) : Prop where
  distinct : (r.state.gsp.connectedSessions.map (·.threadId)).Nodup
  connected : ∀ t, r.state.gsp.threadIdWithRights = some t →
    ∃ d ∈ r.state.gsp.connectedSessions, d.threadId = t
  atMostOne : ∀ d ∈ r.state.gsp.connectedSessions, ∀ d' ∈ r.state.gsp.connectedSessions,
    r.state.gsp.threadIdWithRights = some d.threadId →
    r.state.gsp.threadIdWithRights = some d'.threadId → d = d'

/-- No refused request has changed anything. -/
def Undisturbed (r : RightRun) : Prop := ∀ p ∈ r.refused, p.2 = p.1

/-- Where another session has the right, the settings of the program that asks are in force. -/
def Agrees (hacks : HackManager) (r : RightRun) : RightEvent → Prop
  | .tryAcquireRight session request =>
    ∀ data holder, r.state.gsp.getSessionData session = some data →
      r.state.gsp.threadIdWithRights = some holder → holder ≠ data.threadId →
        r.state.RunsWith hacks request
  | _ => True

/-- The invariant of the right: the sessions, by number and thread id, and the holder among them. -/
structure Exclusive (r : RightRun) : Prop where
  sessions : r.state.gsp.Sessions
  numbered : ∀ d ∈ r.state.gsp.connectedSessions, d.session < r.sessions
  unique : ∀ d ∈ r.state.gsp.connectedSessions, ∀ d' ∈ r.state.gsp.connectedSessions,
    d.session = d'.session → d = d'
  holder : ∀ t, r.state.gsp.threadIdWithRights = some t →
    ∃ d ∈ r.state.gsp.connectedSessions, d.threadId = t

variable {hacks : HackManager} {r r' : RightRun} {gpu : Gpu}

theorem exclusive_init (gpu : Gpu) : (init gpu).Exclusive where
  sessions := ⟨List.nodup_nil, nofun, nofun⟩
  numbered := nofun
  unique := nofun
  holder := nofun

theorem Exclusive.rightHeld (h : r.Exclusive) : r.RightHeld where
  distinct := h.sessions.distinct
  connected := h.holder
  atMostOne _ hd _ hd' hrights hrights' :=
    h.sessions.unique hd hd' (Option.some.inj (hrights.symm.trans hrights'))

theorem Exclusive.connect {gsp : GspGpu} (h : r.Exclusive)
    (hconnected : r.state.gsp.clientConnected r.sessions = some gsp) :
    Exclusive { r with state := { r.state with gsp := gsp }, sessions := r.sessions + 1 } := by
  obtain ⟨threadId, hunused, -⟩ := map_eq_some_iff.mp hconnected
  have hsessions := Run.sessions_clientConnected h.sessions hunused hconnected
  obtain ⟨-, rfl⟩ := Run.clientConnected_spec hunused hconnected
  have hnew : ∀ d ∈ r.state.gsp.connectedSessions, d.session ≠ r.sessions := fun d hd =>
    Nat.ne_of_lt (h.numbered d hd)
  refine ⟨hsessions, ?_, ?_, ?_⟩
  · refine List.forall_mem_append.mpr ⟨fun d hd => Nat.lt_succ_of_lt (h.numbered d hd), ?_⟩
    exact List.forall_mem_singleton.mpr (Nat.lt_succ_self _)
  · intro d hd d' hd' heq
    rcases List.mem_append.mp hd with hd | hd <;> rcases List.mem_append.mp hd' with hd' | hd'
    · exact h.unique d hd d' hd' heq
    · obtain rfl := List.mem_singleton.mp hd'
      exact absurd heq (hnew d hd)
    · obtain rfl := List.mem_singleton.mp hd
      exact absurd heq.symm (hnew d' hd')
    · rw [List.mem_singleton.mp hd, List.mem_singleton.mp hd']
  · intro t ht
    obtain ⟨d, hd, hthread⟩ := h.holder t ht
    exact ⟨d, List.mem_append_left _ hd, hthread⟩

/-- A change of the right alone, to a connected session or to none. -/
theorem Exclusive.right {s : GpuRight} (h : r.Exclusive) (hadmin : r.state.gsp.Administers s.gsp)
    (hsame : s.gsp.connectedSessions = r.state.gsp.connectedSessions)
    (hholder : ∀ t, s.gsp.threadIdWithRights = some t →
      ∃ d ∈ r.state.gsp.connectedSessions, d.threadId = t) (refused) :
    Exclusive { r with state := s, refused := refused } where
  sessions := hadmin.sessions h.sessions
  numbered := hsame ▸ h.numbered
  unique := hsame ▸ h.unique
  holder := hsame ▸ hholder

theorem Exclusive.disconnect {data : SessionData} (h : r.Exclusive)
    (hdata : data ∈ r.state.gsp.connectedSessions) :
    (r.withState (r.state.clientDisconnected data)).Exclusive := by
  have hmem : ∀ d ∈ (r.state.gsp.clientDisconnected data).connectedSessions,
      d ∈ r.state.gsp.connectedSessions := by
    intro d hd
    have hd : d ∈ (r.state.gsp.releaseRight data).connectedSessions := List.mem_of_mem_filter hd
    rwa [GspGpu.connectedSessions_releaseRight] at hd
  refine ⟨(GspGpu.administers_clientDisconnected hdata).sessions h.sessions,
    fun d hd => h.numbered d (hmem d hd),
    fun d hd d' hd' => h.unique d (hmem d hd) d' (hmem d' hd'), ?_⟩
  intro t ht
  obtain ⟨ht, hne⟩ := GspGpu.threadIdWithRights_releaseRight.mp ht
  obtain ⟨d, hd, hthread⟩ := h.holder t ht
  refine ⟨d, List.mem_filter.mpr ⟨?_, ?_⟩, hthread⟩
  · rw [GspGpu.connectedSessions_releaseRight]
    exact hd
  · refine decide_eq_true fun hsession => hne ?_
    rw [← hthread, h.unique d hd data hdata hsession]

theorem Exclusive.acquire {s : GpuRight} {data : SessionData} {request : AcquireRequest}
    {blocking : Bool} {result : AcquireResult} (h : r.Exclusive)
    (hdata : data ∈ r.state.gsp.connectedSessions)
    (hs : r.state.acquireGpuRight hacks data request blocking = some (result, s)) :
    (r.answer result s).Exclusive := by
  obtain ⟨hacquires, hadmin, hsame⟩ := GpuRight.acquires_of_acquireGpuRight hs
  refine h.right hadmin hsame ?_ _
  cases hacquires with
  | alreadyDone _ _ hrights | success _ _ hrights =>
    intro t ht
    exact ⟨data, hdata, Option.some.inj (hrights.symm.trans ht)⟩
  | busy => exact h.holder

theorem Exclusive.step {e : RightEvent} (h : r.Exclusive) (hstep : r.step hacks e = some r') :
    r'.Exclusive := by
  cases e with
  | connect =>
    obtain ⟨gsp, hgsp, rfl⟩ := map_eq_some_iff.mp hstep
    exact h.connect hgsp
  | disconnect session =>
    obtain ⟨data, hdata, rfl⟩ := map_eq_some_iff.mp hstep
    exact h.disconnect (GspGpu.getSessionData_mem hdata).1
  | acquireRight session request =>
    obtain ⟨data, hdata, hstep⟩ := Option.bind_eq_some_iff.mp hstep
    obtain ⟨⟨result, s⟩, hs, rfl⟩ := map_eq_some_iff.mp hstep
    exact h.acquire (GspGpu.getSessionData_mem hdata).1 hs
  | tryAcquireRight session request =>
    obtain ⟨data, hdata, hstep⟩ := Option.bind_eq_some_iff.mp hstep
    obtain ⟨⟨result, s⟩, hs, rfl⟩ := map_eq_some_iff.mp hstep
    exact h.acquire (GspGpu.getSessionData_mem hdata).1 hs
  | releaseRight session =>
    obtain ⟨data, hdata, rfl⟩ := map_eq_some_iff.mp hstep
    refine h.right (GspGpu.administers_releaseRight _ data)
      (GspGpu.connectedSessions_releaseRight _ data) (fun t ht => ?_) _
    exact h.holder t (GspGpu.threadIdWithRights_releaseRight.mp ht).1

/-- The right has one holder at most, whatever the order of the requests. -/
theorem rightHeld_of_reaches (h : Reaches (step hacks) (init gpu) r) : r.RightHeld :=
  (h.invariant (exclusive_init gpu) Exclusive.step).rightHeld

/-! ## Refused requests -/

/-- A request is refused only if it does not block and another session has the right. -/
theorem undisturbed_answer {s : GpuRight} {data : SessionData} {request : AcquireRequest}
    {blocking : Bool} {result : AcquireResult} (h : r.Undisturbed)
    (hs : r.state.acquireGpuRight hacks data request blocking = some (result, s)) :
    (r.answer result s).Undisturbed ↔
      (blocking = false → ∀ holder, r.state.gsp.threadIdWithRights = some holder →
        holder ≠ data.threadId → r.state.RunsWith hacks request) := by
  cases (GpuRight.acquires_of_acquireGpuRight hs).1 with
  | alreadyDone _ hown =>
    refine iff_of_true h fun _ holder hholder hother => ?_
    exact absurd (Option.some.inj (hholder.symm.trans hown)) hother
  | success _ hnone =>
    refine iff_of_true h fun _ holder hholder => ?_
    rw [hnone] at hholder
    cases hholder
  | busy holder hheld hother =>
    constructor
    · intro hanswer _ _ _ _
      exact GpuRight.refused_eq_iff.mp
        (hanswer _ (List.mem_append_right _ (List.mem_singleton.mpr rfl)))
    · intro hsettings
      exact List.forall_mem_append.mpr ⟨h, List.forall_mem_singleton.mpr
        (GpuRight.refused_eq_iff.mpr (hsettings rfl holder hheld hother))⟩

theorem undisturbed_init (gpu : Gpu) : (init gpu).Undisturbed :=
  fun _ h => absurd h List.not_mem_nil

/-- After a step nothing has been changed by a refused request, exactly if the settings of the
program that asked agree with those in force. -/
theorem undisturbed_step {e : RightEvent} (h : r.Undisturbed) (hstep : r.step hacks e = some r') :
    r'.Undisturbed ↔ r.Agrees hacks e := by
  cases e with
  | connect =>
    obtain ⟨gsp, -, rfl⟩ := map_eq_some_iff.mp hstep
    exact iff_of_true h trivial
  | disconnect session =>
    obtain ⟨data, -, rfl⟩ := map_eq_some_iff.mp hstep
    exact iff_of_true h trivial
  | acquireRight session request =>
    obtain ⟨data, -, hstep⟩ := Option.bind_eq_some_iff.mp hstep
    obtain ⟨⟨result, s⟩, hs, rfl⟩ := map_eq_some_iff.mp hstep
    exact iff_of_true ((undisturbed_answer h hs).mpr nofun) trivial
  | tryAcquireRight session request =>
    obtain ⟨data, hdata, hstep⟩ := Option.bind_eq_some_iff.mp hstep
    obtain ⟨⟨result, s⟩, hs, rfl⟩ := map_eq_some_iff.mp hstep
    rw [undisturbed_answer h hs]
    constructor
    · intro hsettings data' holder hdata'
      obtain rfl := Option.some.inj (hdata.symm.trans hdata')
      exact hsettings rfl holder
    · intro hagrees _ holder
      exact hagrees data holder hdata
  | releaseRight session =>
    obtain ⟨data, -, rfl⟩ := map_eq_some_iff.mp hstep
    exact iff_of_true h trivial

/-- In every run the right has one holder at most, who is connected. Its settings are not touched
by refused requests in a run where each of these asks for settings that are in force, and a step
where one does not is the end of that. -/
theorem gpuRight_runs (hacks : HackManager) (gpu : Gpu) :
    (∀ r, Reaches (step hacks) (init gpu) r → r.RightHeld) ∧
      (∀ r, ReachesIf (step hacks) (Agrees hacks) (init gpu) r → r.Undisturbed) ∧
      ∀ r r' e, ReachesIf (step hacks) (Agrees hacks) (init gpu) r → r.step hacks e = some r' →
        (r'.Undisturbed ↔ r.Agrees hacks e) := by
  have hundisturbed : ∀ r, ReachesIf (step hacks) (Agrees hacks) (init gpu) r → r.Undisturbed :=
    fun r hr => hr.invariant (undisturbed_init gpu)
      fun h hok hstep => (undisturbed_step h hstep).mpr hok
  refine ⟨fun r => rightHeld_of_reaches, hundisturbed, fun r r' e hr hstep => ?_⟩
  exact undisturbed_step (hundisturbed r hr) hstep

/-- A game that needs longer texture copies asks while another one has the right. -/
def longerCopiesAsked : List RightEvent :=
  [.connect, .connect, .tryAcquireRight 0 ⟨0x0004000000033500, 1, false⟩,
    .tryAcquireRight 1 ⟨0x0004000000054000, 2, false⟩]

/-- The entry of the table for these games. -/
def longerCopies : HackManager where
  entries := [(.delayTextureCopyCompletion,
    { mode := .force
      affectedTitleIds := [0x0004000000054100, 0x0004000000054000, 0x0004000000053F00,
        0x0004000000089E00, 0x0004000000089D00] })]

instance (s : GpuRight) (hacks : HackManager) (request : AcquireRequest) :
    Decidable (s.RunsWith hacks request) := by
  unfold GpuRight.RunsWith
  infer_instance

instance (hacks : HackManager) (r : RightRun) : (e : RightEvent) → Decidable (r.Agrees hacks e)
  | .tryAcquireRight session request => decidable_of_iff
      (∀ data ∈ r.state.gsp.getSessionData session, ∀ holder ∈ r.state.gsp.threadIdWithRights,
        holder ≠ data.threadId → r.state.RunsWith hacks request)
      ⟨fun h data holder hdata hholder => h data hdata holder hholder,
        fun h data hdata holder hholder => h data holder hdata hholder⟩
  | .connect | .disconnect _ | .acquireRight _ _ | .releaseRight _ => isTrue trivial

/-- The same game asks a second time, and another one when the right is free again. -/
def sameGameAsked : List RightEvent :=
  [.connect, .connect, .tryAcquireRight 0 ⟨0x0004000000033500, 1, false⟩,
    .tryAcquireRight 1 ⟨0x0004000000033500, 1, false⟩, .releaseRight 0,
    .tryAcquireRight 1 ⟨0x0004000000054000, 2, false⟩]

theorem gpuRight_runs_agreed :
    ∃ r, sameGameAsked.foldlM (stepIf (step longerCopies) (Agrees longerCopies))
        (init ⟨.software, false, true, false, false, none, false⟩) = some r ∧
      r.refused.length = 1 ∧ r.RightHeld ∧ r.Undisturbed := by
  obtain ⟨r, hr, hrefused⟩ : ∃ r,
      sameGameAsked.foldlM (stepIf (step longerCopies) (Agrees longerCopies))
        (init ⟨.software, false, true, false, false, none, false⟩) = some r ∧
      r.refused.length = 1 := by decide +kernel
  obtain ⟨hheld, hundisturbed, -⟩ := gpuRight_runs longerCopies
    ⟨.software, false, true, false, false, none, false⟩
  have hagreed := ReachesIf.of_stepIf hr
  exact ⟨r, hr, hrefused, hheld r hagreed.reaches, hundisturbed r hagreed⟩

/-- The holder then runs with longer texture copies. -/
theorem refused_changes_settings :
    ¬ ∀ r, Reaches (step longerCopies) (init ⟨.software, false, true, false, false, none, false⟩) r →
      r.RightHeld ∧ r.Undisturbed := by
  intro h
  obtain ⟨r, hr, before, after, hmem, hbefore, hafter⟩ :
      ∃ r, longerCopiesAsked.foldlM (step longerCopies)
          (init ⟨.software, false, true, false, false, none, false⟩) = some r ∧
        ∃ before after, (before, after) ∈ r.refused ∧
          before.gsp.delayTextureCopyCompletion = false ∧
          after.gsp.delayTextureCopyCompletion = true :=
    ⟨_, rfl, _, _, List.mem_singleton.mpr rfl, rfl, rfl⟩
  have heq := (h r (Reaches.of_foldlM hr)).2 _ hmem
  rw [show after = before from heq, hbefore] at hafter
  cases hafter

end RightRun

end GbaStation.Gsp
