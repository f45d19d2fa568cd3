import Softmodem.Call.DataMode

namespace Softmodem.Call

open AudioSocket Serial V22bis

def V8Report.isResult (r : V8Report) : Prop := r.status = 2 ∨ r.status = 3 ∨ r.status = 4

instance (r : V8Report) : Decidable r.isResult := inferInstanceAs (Decidable (_ ∨ _ ∨ _))

def lastResult : List V8Report → Option V8Report
  | [] => none
  | r :: reports =>
      match lastResult reports with
      | some result => some result
      | none => if r.isResult then some r else none

def hasV34 (r : V8Report) : Prop := r.modulations.testBit 11 = true

def hasV22 (r : V8Report) : Prop := r.modulations.testBit 2 = true

instance (r : V8Report) : Decidable (hasV34 r) := inferInstanceAs (Decidable (_ = _))

instance (r : V8Report) : Decidable (hasV22 r) := inferInstanceAs (Decidable (_ = _))

def V34Allowed (cfg : SmCallConfig) (r : V8Report) : Prop :=
  r.status = 2 ∧ hasV34 r ∨ (r.status = 3 ∨ r.status = 4) ∧ cfg.useV34 = true

def StartedV34 (c : SmCall) : Prop := c.mode = .v34 ∧ c.v34 = true

def StartedV22 (before c : SmCall) : Prop :=
  c.mode = .v22 ∧ c.v34 = false ∧ c.modem = v22bisRxRestart before.modem ∧ c.rxGuard = 4000

def EngineChosen (cfg : SmCallConfig) (r : V8Report) (v34Created : Bool) (before c : SmCall) :
    Prop :=
  c.phase = .handshake ∧
    (StartedV34 c ∧ V34Allowed cfg r ∧ v34Created = true ∨ StartedV22 before c)

def FallsBack (cfg : SmCallConfig) (r : V8Report) (v34Created : Bool) : Prop :=
  cfg.useV34 = true →
    r.status = 2 ∧ (hasV34 r ∨ hasV22 r) ∨
      (r.status = 3 ∨ r.status = 4) ∧ v34Created = true

def resultCode (cfg : SmCallConfig) (r : V8Report) : Nat :=
  if r.status = 2 then
    if cfg.useV34 = true ∧ hasV34 r then 2 else (r.modulations.testBit 2).toNat
  else 0

def takeResult (c : SmCall) (r : V8Report) : SmCall :=
  { c with v8Done := true, v8Ok := resultCode c.cfg r }

theorem callV8Result_result (c : SmCall) {r : V8Report} (h : r.isResult) :
    callV8Result c r.status r.modulations = takeResult c r := by
  unfold takeResult resultCode
  rcases h with h | h | h
  · rw [if_pos h]
    simp only [callV8Result, h]
    rfl
  · simp [callV8Result, h]
  · simp [callV8Result, h]

theorem callV8Result_other (c : SmCall) {r : V8Report} (h : ¬ r.isResult) :
    callV8Result c r.status r.modulations = c := by
  unfold callV8Result
  split
  · exact absurd (.inl ‹_›) h
  · exact absurd (.inr (.inl ‹_›)) h
  · exact absurd (.inr (.inr ‹_›)) h
  · rfl

theorem v8Reports_none {reports : List V8Report} (c : SmCall) (h : lastResult reports = none) :
    v8Reports c reports = c := by
  induction reports with
  | nil => rfl
  | cons r reports ih =>
      simp only [lastResult] at h
      cases hlast : lastResult reports with
      | some result => simp [hlast] at h
      | none =>
          have hr : ¬ r.isResult := by simpa [hlast] using h
          have hstep : v8Reports c (r :: reports) =
              v8Reports (callV8Result c r.status r.modulations) reports := rfl
          rw [hstep, callV8Result_other c hr]
          exact ih hlast

theorem v8Reports_some {reports : List V8Report} {result : V8Report} (c : SmCall)
    (h : lastResult reports = some result) :
    v8Reports c reports = takeResult c result ∧ result.isResult := by
  induction reports generalizing c with
  | nil => cases h
  | cons r reports ih =>
      have hstep : v8Reports c (r :: reports) =
          v8Reports (callV8Result c r.status r.modulations) reports := rfl
      simp only [lastResult] at h
      rw [hstep]
      cases hlast : lastResult reports with
      | some last =>
          rw [hlast] at h
          obtain ⟨hrest, hresult⟩ := ih (callV8Result c r.status r.modulations) (hlast.trans h)
          refine ⟨?_, hresult⟩
          rw [hrest]
          obtain ⟨done, ok, hcall⟩ := callV8Result_eq c r.status r.modulations
          rw [hcall]
          rfl
      | none =>
          rw [v8Reports_none _ hlast]
          have hr : r.isResult := by
            by_contra hr
            simp [hlast, hr] at h
          have heq : r = result := by simpa [hlast, hr] using h
          rw [← heq]
          exact ⟨callV8Result_result c hr, hr⟩

structure InV8 (cfg : SmCallConfig) (c : SmCall) : Prop where
  cfg : c.cfg = cfg
  phase : c.phase = .v8
  mode : c.mode = .v22
  v34 : c.v34 = false
  bm : c.bm = false
  v8 : c.v8 = true
  pppFd : c.pppFd = false

def NoResultYet (cfg : SmCallConfig) (c : SmCall) : Prop :=
  c.v8Done = false ∧ (c.v8 = false ∨ InV8 cfg c)

structure V8Frame (c c' : SmCall) : Prop where
  cfg : c'.cfg = c.cfg
  phase : c'.phase = c.phase
  mode : c'.mode = c.mode
  v34 : c'.v34 = c.v34
  bm : c'.bm = c.bm
  v8 : c'.v8 = c.v8
  pppFd : c'.pppFd = c.pppFd
  modem : c'.modem = c.modem
  v8Done : c'.v8Done = c.v8Done

theorem V8Frame.trans {a b c : SmCall} (h : V8Frame a b) (h' : V8Frame b c) : V8Frame a c :=
  ⟨h'.cfg.trans h.cfg, h'.phase.trans h.phase, h'.mode.trans h.mode, h'.v34.trans h.v34,
    h'.bm.trans h.bm, h'.v8.trans h.v8, h'.pppFd.trans h.pppFd, h'.modem.trans h.modem,
    h'.v8Done.trans h.v8Done⟩

theorem touch_v8Frame (c : SmCall) (buffer : AudioBuffer) (start length : Nat) :
    V8Frame c (touch c buffer start length) :=
  ⟨rfl, rfl, rfl, rfl, rfl, rfl, rfl, rfl, rfl⟩

theorem sound_v8Frame (c : SmCall) (start length : Nat) (sample : Nat → Pcm) :
    V8Frame c (sound c start length sample) :=
  ⟨rfl, rfl, rfl, rfl, rfl, rfl, rfl, rfl, rfl⟩

theorem soundFrom_v8Frame (c : SmCall) (start length : Nat) (sample : Nat → Pcm) :
    V8Frame c (soundFrom c start length sample) :=
  ⟨rfl, rfl, rfl, rfl, rfl, rfl, rfl, rfl, rfl⟩

theorem InV8.frame {cfg : SmCallConfig} {c c' : SmCall} (h : InV8 cfg c) (hf : V8Frame c c') :
    InV8 cfg c' :=
  ⟨hf.cfg.trans h.cfg, hf.phase.trans h.phase, hf.mode.trans h.mode, hf.v34.trans h.v34,
    hf.bm.trans h.bm, hf.v8.trans h.v8, hf.pppFd.trans h.pppFd⟩

theorem captureChunk_v8Frame (c : SmCall) (payload : List UInt8) (n : Nat) :
    V8Frame c (captureChunk (audioStart c) payload n) := by
  unfold captureChunk
  dsimp only
  split_ifs <;> exact ⟨rfl, rfl, rfl, rfl, rfl, rfl, rfl, rfl, rfl⟩

def v8Heard (n : Nat) (e : AudioEnv) : Option V8Report :=
  if n = 0 then none else lastResult e.v8Reports

def v8Sounded (c : SmCall) (i m : Nat) (e : AudioEnv) : SmCall :=
  sound (soundFrom c i (min e.v8Sent m) .v8) (i + min e.v8Sent m) (m - min e.v8Sent m)
    fun _ => .silence

theorem v8Sounded_frame (c : SmCall) (i m : Nat) (e : AudioEnv) : V8Frame c (v8Sounded c i m e) := by
  have hfrom := soundFrom_v8Frame c i (min e.v8Sent m) .v8
  exact hfrom.trans (sound_v8Frame _ _ _ _)

theorem v8Chunk_none {c : SmCall} (hv8 : c.v8 = true) (i m : Nat) {e : AudioEnv}
    (h : lastResult e.v8Reports = none) : V8Frame c (v8Chunk c i m e) := by
  have hchunk : v8Chunk c i m e = touch (v8Reports (v8Sounded c i m e) e.v8Reports) .input i m := by
    unfold v8Chunk
    rw [if_pos hv8]
    rfl
  rw [hchunk, v8Reports_none _ h]
  exact (v8Sounded_frame c i m e).trans (touch_v8Frame _ _ _ _)

theorem v8Chunk_some {c : SmCall} (hv8 : c.v8 = true) (i m : Nat) {e : AudioEnv} {r : V8Report}
    (h : lastResult e.v8Reports = some r) :
    r.isResult ∧ ∃ d, V8Frame c d ∧ v8Chunk c i m e = takeResult d r := by
  obtain ⟨hreports, hresult⟩ := v8Reports_some (v8Sounded c i m e) h
  refine ⟨hresult, touch (v8Sounded c i m e) .input i m, ?_, ?_⟩
  · exact (v8Sounded_frame c i m e).trans (touch_v8Frame _ _ _ _)
  · unfold v8Chunk
    rw [if_pos hv8]
    change touch (v8Reports (v8Sounded c i m e) e.v8Reports) .input i m = _
    rw [hreports]
    rfl

theorem runEngine_waiting {cfg : SmCallConfig} {c : SmCall} (h : InV8 cfg c) (k : Nat)
    (e : AudioEnv) : runEngine c (k + 1) e = v8Chunk c 0 (k + 1) e := by
  have hbm : ¬ c.bm = true := by simp [h.bm]
  simp only [runEngine, if_neg hbm, audioLoop, h.phase, Nat.sub_self]

theorem runEngine_empty {cfg : SmCallConfig} {c : SmCall} (h : InV8 cfg c) (e : AudioEnv) :
    runEngine c 0 e = c := by
  have hbm : ¬ c.bm = true := by simp [h.bm]
  simp only [runEngine, if_neg hbm, audioLoop]

theorem runEngine_none {cfg : SmCallConfig} {c : SmCall} (h : InV8 cfg c) {n : Nat} {e : AudioEnv}
    (hheard : v8Heard n e = none) : V8Frame c (runEngine c n e) := by
  cases n with
  | zero =>
      rw [runEngine_empty h]
      exact ⟨rfl, rfl, rfl, rfl, rfl, rfl, rfl, rfl, rfl⟩
  | succ k =>
      rw [runEngine_waiting h]
      exact v8Chunk_none h.v8 0 (k + 1) (by simpa [v8Heard] using hheard)

theorem runEngine_some {cfg : SmCallConfig} {c : SmCall} (h : InV8 cfg c) {n : Nat} {e : AudioEnv}
    {r : V8Report} (hheard : v8Heard n e = some r) :
    r.isResult ∧ ∃ d, V8Frame c d ∧ runEngine c n e = takeResult d r := by
  cases n with
  | zero => simp [v8Heard] at hheard
  | succ k =>
      rw [runEngine_waiting h]
      exact v8Chunk_some h.v8 0 (k + 1) (by simpa [v8Heard] using hheard)

theorem restarted_stays {c : SmCall} (h : c.modem.rx.training = .symbolAcquisition) :
    dataModeDetection c = c := by
  unfold dataModeDetection
  rw [if_neg]
  rintro ⟨-, -, -, -, hrx⟩
  rw [h] at hrx
  cases hrx

theorem v34_stays {c : SmCall} (h : c.mode = .v34) : dataModeDetection c = c := by
  unfold dataModeDetection
  rw [if_neg]
  rintro ⟨hmode, -⟩
  rw [h] at hmode
  cases hmode

theorem waiting_stays {c : SmCall} (h : c.phase = .v8) : dataModeDetection c = c := by
  unfold dataModeDetection
  rw [if_neg]
  rintro ⟨-, hphase, -⟩
  rw [h] at hphase
  cases hphase

theorem startV22_chosen {cfg : SmCallConfig} {before d : SmCall} (h : InV8 cfg d)
    (hmodem : d.modem = before.modem) (r : V8Report) (v34Created : Bool) (ok : Nat) :
    EngineChosen cfg r v34Created before
      (dataModeDetection (startV22 { d with v8Done := true, v8Ok := ok })) := by
  rw [restarted_stays (c := startV22 _) rfl]
  refine ⟨rfl, .inr ⟨rfl, h.v34, ?_, rfl⟩⟩
  rw [← hmodem]
  rfl

theorem startV34_chosen_iff {cfg : SmCallConfig} {before d : SmCall} (r : V8Report)
    (v34Created : Bool) :
    EngineChosen cfg r v34Created before (dataModeDetection (startV34 d)) ↔
      V34Allowed cfg r ∧ v34Created = true := by
  rw [v34_stays (c := startV34 d) rfl]
  constructor
  · rintro ⟨-, ⟨-, hallowed⟩ | hv22⟩
    · exact hallowed
    · cases hv22.1
  · intro hallowed
    exact ⟨rfl, .inl ⟨⟨rfl, rfl⟩, hallowed⟩⟩

theorem v8Transition_result {cfg : SmCallConfig} {d : SmCall} (h : InV8 cfg d) (r : V8Report)
    (e : AudioEnv) :
    v8Transition (takeResult d r) e =
      if resultCode cfg r = 2 then
        if e.v34Created then startV34 (takeResult d r)
        else startV22 { d with v8Done := true, v8Ok := 1 }
      else if cfg.useV34 ∧ resultCode cfg r = 0 then
        if e.v34Created then startV34 (takeResult d r) else takeResult d r
      else startV22 (takeResult d r) := by
  have hphase : (takeResult d r).phase = .v8 := h.phase
  obtain rfl := h.cfg
  unfold v8Transition
  rw [if_pos ⟨hphase, rfl⟩]
  rfl

theorem not_chosen_in_v8 {cfg : SmCallConfig} {before c : SmCall} (h : c.phase = .v8)
    (r : V8Report) (v34Created : Bool) : ¬ EngineChosen cfg r v34Created before c := by
  rintro ⟨hphase, -⟩
  rw [h] at hphase
  cases hphase

theorem resultCode_other {cfg : SmCallConfig} {r : V8Report} (h : r.status = 3 ∨ r.status = 4) :
    resultCode cfg r = 0 := by
  unfold resultCode
  rw [if_neg (by omega)]

theorem resultCode_call {cfg : SmCallConfig} {r : V8Report} (h : r.status = 2)
    (hmask : ¬ (cfg.useV34 = true ∧ hasV34 r)) :
    resultCode cfg r = (r.modulations.testBit 2).toNat := by
  unfold resultCode
  rw [if_pos h, if_neg hmask]

theorem resultCode_v34 {cfg : SmCallConfig} {r : V8Report} (h : r.status = 2)
    (hmask : cfg.useV34 = true ∧ hasV34 r) : resultCode cfg r = 2 := by
  unfold resultCode
  rw [if_pos h, if_pos hmask]

section Result

variable {cfg : SmCallConfig} {before d : SmCall} {r : V8Report}

theorem chosen_without_modulation (h : InV8 cfg d) (hmodem : d.modem = before.modem)
    (hcode : resultCode cfg r = 0)
    (hnone : cfg.useV34 = true → ¬ (r.status = 2 ∧ (hasV34 r ∨ hasV22 r))) (e : AudioEnv) :
    EngineChosen cfg r e.v34Created before (dataModeDetection (v8Transition (takeResult d r) e)) ↔
      FallsBack cfg r e.v34Created := by
  rw [v8Transition_result h, hcode, if_neg (by decide)]
  by_cases huse : cfg.useV34 = true
  · rw [if_pos ⟨huse, rfl⟩]
    have hfalls : FallsBack cfg r e.v34Created ↔
        (r.status = 3 ∨ r.status = 4) ∧ e.v34Created = true := by
      simp [FallsBack, huse, hnone huse]
    rw [hfalls]
    split
    next hcreated =>
      have hmask : ¬ (r.status = 2 ∧ hasV34 r) := fun hm => hnone huse ⟨hm.1, .inl hm.2⟩
      rw [startV34_chosen_iff]
      simp [V34Allowed, huse, hmask]
    next hcreated =>
      rw [waiting_stays (c := takeResult d r) h.phase]
      have hwait : ¬ EngineChosen cfg r e.v34Created before (takeResult d r) :=
        not_chosen_in_v8 (c := takeResult d r) h.phase r e.v34Created
      exact iff_of_false hwait fun hc => hcreated hc.2
  · rw [if_neg fun hc => huse hc.1]
    exact iff_of_true (startV22_chosen h hmodem r e.v34Created _) fun hc => absurd hc huse

theorem result_chosen_iff (h : InV8 cfg d) (hmodem : d.modem = before.modem) (hr : r.isResult)
    (e : AudioEnv) :
    EngineChosen cfg r e.v34Created before (dataModeDetection (v8Transition (takeResult d r) e)) ↔
      FallsBack cfg r e.v34Created := by
  rcases hr with hcall | hother
  · by_cases hmask : cfg.useV34 = true ∧ hasV34 r
    · have hfalls : FallsBack cfg r e.v34Created := fun _ => .inl ⟨hcall, .inl hmask.2⟩
      rw [v8Transition_result h, resultCode_v34 hcall hmask, if_pos rfl]
      split
      next hcreated =>
        exact iff_of_true ((startV34_chosen_iff r _).mpr ⟨.inl ⟨hcall, hmask.2⟩, hcreated⟩) hfalls
      next => exact iff_of_true (startV22_chosen h hmodem r e.v34Created 1) hfalls
    · have hcode := resultCode_call hcall hmask
      rcases hmod : r.modulations.testBit 2 with _ | _
      · rw [hmod] at hcode
        apply chosen_without_modulation h hmodem hcode
        rintro huse ⟨-, hv34 | hv22⟩
        · exact hmask ⟨huse, hv34⟩
        · exact Bool.false_ne_true (hmod.symm.trans hv22)
      · rw [hmod] at hcode
        have hone : resultCode cfg r = 1 := hcode
        rw [v8Transition_result h, hone, if_neg (by decide), if_neg (by simp)]
        exact iff_of_true (startV22_chosen h hmodem r e.v34Created _)
          fun _ => .inl ⟨hcall, .inr hmod⟩
  · apply chosen_without_modulation h hmodem (resultCode_other hother)
    rintro - ⟨hcall, -⟩
    omega

end Result

theorem processAudio_none {cfg : SmCallConfig} {c : SmCall} (h : InV8 cfg c)
    (hdone : c.v8Done = false) (payload : List UInt8) {n : Nat} {e : AudioEnv}
    (hheard : v8Heard n e = none) : V8Frame c (processAudio c payload n e) := by
  have hcapture := captureChunk_v8Frame c payload n
  have hbm : ¬ (captureChunk (audioStart c) payload n).bm = true := by simp [hcapture.bm, h.bm]
  have hran := hcapture.trans (runEngine_none (h.frame hcapture) hheard)
  unfold processAudio pollEngine
  dsimp only
  rw [if_neg hbm]
  generalize runEngine (captureChunk (audioStart c) payload n) n e = d at hran
  have hwait : v8Transition d e = d := by
    unfold v8Transition
    rw [if_neg]
    rintro ⟨-, hd⟩
    simp [hran.v8Done, hdone] at hd
  rw [hwait, waiting_stays (hran.phase.trans h.phase)]
  exact hran.trans ⟨rfl, rfl, rfl, rfl, rfl, rfl, rfl, rfl, rfl⟩

theorem v8Transition_v8Done (c : SmCall) (e : AudioEnv) :
    (v8Transition c e).v8Done = c.v8Done := by
  unfold v8Transition
  split_ifs <;> rfl

theorem dataModeDetection_v8Done (c : SmCall) : (dataModeDetection c).v8Done = c.v8Done := by
  unfold dataModeDetection
  split <;> rfl

theorem processAudio_some {cfg : SmCallConfig} {before c : SmCall} (h : InV8 cfg c)
    (hmodem : c.modem = before.modem) (payload : List UInt8) {n : Nat} {e : AudioEnv} {r : V8Report}
    (hheard : v8Heard n e = some r) :
    (processAudio c payload n e).v8Done = true ∧
      (EngineChosen cfg r e.v34Created before (processAudio c payload n e) ↔
        FallsBack cfg r e.v34Created) := by
  have hcapture := captureChunk_v8Frame c payload n
  have hbm : ¬ (captureChunk (audioStart c) payload n).bm = true := by simp [hcapture.bm, h.bm]
  obtain ⟨hr, d, hframe, hran⟩ := runEngine_some (h.frame hcapture) hheard
  have hd := hcapture.trans hframe
  unfold processAudio pollEngine
  dsimp only
  rw [if_neg hbm, hran]
  constructor
  · exact (dataModeDetection_v8Done _).trans (v8Transition_v8Done _ e)
  · have hchosen := result_chosen_iff (h.frame hd) (hd.modem.trans hmodem) hr e
    exact hchosen

def WithoutV8 (c : SmCall) : Prop := c.v8 = false ∧ c.v8Done = false

theorem rxOut_withoutV8 {c : SmCall} (h : WithoutV8 c) (out : RxOut) : WithoutV8 (rxOut c out) := by
  cases out with
  | status st =>
      simp only [rxOut, callStatus]
      split <;> exact h
  | bit b =>
      simp only [rxOut, callPutBit]
      split_ifs <;> exact h

theorem rxOuts_withoutV8 (outs : List RxOut) {c : SmCall} (h : WithoutV8 c) :
    WithoutV8 (outs.foldl rxOut c) := by
  induction outs generalizing c with
  | nil => exact h
  | cons out outs ih => exact ih (rxOut_withoutV8 h out)

theorem engineStep_withoutV8 {n : Nat} {c c' : SmCall} (hstep : EngineStep n c c')
    (h : WithoutV8 c) : WithoutV8 c' := by
  cases hstep with
  | bookkeeping hcore =>
      exact ⟨(congrArg SmCall.v8 hcore).trans h.1, (congrArg SmCall.v8Done hcore).trans h.2⟩
  | putBit bit v34Rate _ =>
      cases bit with
      | none => exact h
      | some b =>
          simp only [callPutBit]
          split_ifs <;> exact h
  | status st => exact rxOut_withoutV8 h (.status st)
  | modemRx o => exact rxOuts_withoutV8 _ (c := receiveSample c o) h
  | v8Result done ok hv8 =>
      rw [h.1] at hv8
      cases hv8
  | _ => exact h

theorem audioStep_withoutV8 {n : Nat} {c c' : SmCall} (hstep : AudioStep n c c')
    (h : WithoutV8 c) : WithoutV8 c' := by
  cases hstep with
  | engine hstep => exact engineStep_withoutV8 hstep h
  | _ => exact h

theorem processAudio_withoutV8 {c : SmCall} (h : WithoutV8 c) (payload : List UInt8) (n : Nat)
    (e : AudioEnv) : WithoutV8 (processAudio c payload n e) := by
  obtain ⟨c', hsteps, heq⟩ := processAudio_steps c payload n e
  have hkept : WithoutV8 c' :=
    hsteps.invariant (fun _ _ hstep => audioStep_withoutV8 hstep) (h : WithoutV8 (audioStart c))
  rw [heq]
  exact hkept

theorem processAudio_noResult {cfg : SmCallConfig} {c : SmCall} (h : NoResultYet cfg c)
    (payload : List UInt8) (n : Nat) (e : AudioEnv)
    (hdone : (processAudio c payload n e).v8Done = false) :
    NoResultYet cfg (processAudio c payload n e) := by
  refine ⟨hdone, ?_⟩
  obtain ⟨hbefore, hv8 | hin⟩ := h
  · exact .inl (processAudio_withoutV8 ⟨hv8, hbefore⟩ payload n e).1
  · rcases hheard : v8Heard n e with _ | r
    · exact .inr (hin.frame (processAudio_none hin hbefore payload hheard))
    · have htrue := (processAudio_some hin rfl payload hheard).1
      rw [hdone] at htrue
      cases htrue

theorem processAudio_chosen {cfg : SmCallConfig} {before c : SmCall} (h : NoResultYet cfg c)
    (hmodem : c.modem = before.modem) (payload : List UInt8) (n : Nat) (e : AudioEnv)
    (hseen : (processAudio c payload n e).v8Done = true) :
    ∃ result, lastResult e.v8Reports = some result ∧
      (EngineChosen cfg result e.v34Created before (processAudio c payload n e) ↔
        FallsBack cfg result e.v34Created) := by
  obtain ⟨hbefore, hv8 | hin⟩ := h
  · rw [(processAudio_withoutV8 ⟨hv8, hbefore⟩ payload n e).2] at hseen
    cases hseen
  · rcases hheard : v8Heard n e with _ | result
    · rw [(processAudio_none hin hbefore payload hheard).v8Done, hbefore] at hseen
      cases hseen
    · refine ⟨result, ?_, (processAudio_some hin hmodem payload hheard).2⟩
      unfold v8Heard at hheard
      split at hheard
      · cases hheard
      · exact hheard

theorem pumpPpp_noResult {cfg : SmCallConfig} {c : SmCall} (h : NoResultYet cfg c) (e : PumpEnv) :
    NoResultYet cfg (pumpPpp c e) := by
  obtain ⟨hdone, hv8 | hin⟩ := h
  · rcases pumpPpp_cases c e with hframe | hfailed
    · exact ⟨hframe.v8Done.trans hdone, .inl (hframe.v8.trans hv8)⟩
    · rw [hfailed]
      exact ⟨hdone, .inl hv8⟩
  · have hneeds : ¬ needsPppd c := by simp [needsPppd, hin.phase]
    have htransmit : pumpTransmit c e = c := by simp [pumpTransmit, hin.pppFd]
    have hsame : pumpPpp c e = c := by
      simp [pumpPpp, ensurePppd, pumpBytes, hneeds, hin.phase, htransmit]
    rw [hsame]
    exact ⟨hdone, .inr hin⟩

theorem init_noResult (cfg : SmCallConfig) (r : InitResults) : NoResultYet cfg (smCallInit cfg r) := by
  simp only [smCallInit, startAnswer]
  split
  · exact ⟨rfl, .inl rfl⟩
  · split
    · exact ⟨rfl, .inr ⟨rfl, rfl, rfl, rfl, rfl, rfl, rfl⟩⟩
    · split <;> exact ⟨rfl, .inl rfl⟩

theorem NoResultYet.withSocket {cfg : SmCallConfig} {c : SmCall} (h : NoResultYet cfg c)
    (as : SmAstSocket) : NoResultYet cfg { c with as := as } := by
  obtain ⟨hdone, hv8 | hin⟩ := h
  · exact ⟨hdone, .inl hv8⟩
  · exact ⟨hdone, .inr (hin.frame ⟨rfl, rfl, rfl, rfl, rfl, rfl, rfl, rfl, rfl⟩)⟩

theorem turn_noResult {cfg : SmCallConfig} {s : CallRun} (t : Turn)
    (h : Running s → NoResultYet cfg s.call) (hdone : (smCallTurn s t).call.v8Done = false) :
    Running (smCallTurn s t) → NoResultYet cfg (smCallTurn s t).call := by
  intro hrunning
  have hs := h hrunning.before
  obtain ⟨stages, c, heffect, ⟨hcall, -⟩ | ⟨-, hfinished⟩⟩ := smCallTurn_turned s t
  · rw [hcall] at hdone ⊢
    cases heffect with
    | read as _ => exact hs.withSocket as
    | firstAudio as _ _ => exact processAudio_noResult (hs.withSocket as) _ _ t.audio hdone
    | audio as _ _ _ => exact processAudio_noResult (hs.withSocket as) _ _ t.audio hdone
    | pumped _ => exact pumpPpp_noResult hs t.pump
  · exact absurd hfinished (hrunning 0)

theorem run_noResult (cfg : SmCallConfig) (r : InitResults) (peer : Peer) (turns : List Turn)
    (hfirst : ∀ earlier, earlier <+: turns → (smCallRun cfg r peer earlier).call.v8Done = false)
    (hrunning : Running (smCallRun cfg r peer turns)) :
    NoResultYet cfg (smCallRun cfg r peer turns).call := by
  induction turns using List.reverseRecOn with
  | nil => exact (init_noResult cfg r).withSocket smAstInit
  | append_singleton turns t ih =>
      have hrun : smCallRun cfg r peer (turns ++ [t]) =
          smCallTurn (smCallRun cfg r peer turns) t := Transition.run_append _ _ _ _
      have hdone := hfirst _ (List.prefix_refl _)
      rw [hrun] at hdone hrunning ⊢
      apply turn_noResult t ?_ hdone hrunning
      exact ih fun earlier he => hfirst earlier (he.trans (List.prefix_append _ _))

theorem v8_ends_with_one_engine_iff (cfg : SmCallConfig) (r : InitResults) (peer : Peer)
    (turns : List Turn) (t : Turn) (c : SmCall)
    (hended : EndOfAudio (smCallRun cfg r peer turns) t c)
    (hfirst : ∀ earlier, earlier <+: turns → (smCallRun cfg r peer earlier).call.v8Done = false)
    (hseen : c.v8Done = true) :
    ∃ result, lastResult t.audio.v8Reports = some result ∧
      (EngineChosen cfg result t.audio.v34Created (smCallRun cfg r peer turns).call c ↔
        FallsBack cfg result t.audio.v34Created) := by
  obtain ⟨as, hcall, -⟩ := readMessage_call (smCallRun cfg r peer turns)
  have hmodem : { (smCallRun cfg r peer turns).call with as := as }.modem =
      (smCallRun cfg r peer turns).call.modem := rfl
  cases hended with
  | firstMessage hstage hread =>
      have hno := run_noResult cfg r peer turns hfirst (by simp [Running, hstage])
      rw [hcall] at hseen ⊢
      exact processAudio_chosen (hno.withSocket as) hmodem _ _ t.audio hseen
  | message hstage hup hread =>
      have hno := run_noResult cfg r peer turns hfirst (by simp [Running, hstage])
      rw [hcall] at hseen ⊢
      exact processAudio_chosen (hno.withSocket as) hmodem _ _ t.audio hseen

def v34Config : SmCallConfig := { v22Config with useV8 := true, useV34 := true }

def v8Turn (status modulations : Nat) (v34Created : Bool) : Turn :=
  { idleTurn fun _ => ⟨.belowOff, false, 1⟩ with
    audio :=
      { (idleTurn fun _ => ⟨.belowOff, false, 1⟩).audio with
        v8Reports := [⟨status, modulations⟩], v34Created := v34Created } }

theorem firstAudio_read (cfg : SmCallConfig) :
    (readMessage (smCallRun cfg plainInit (promptPeer [oneSample]) [])).1 =
        .message smAsKindAudio [0, 0] 2 ∧
      ∃ as, (readMessage (smCallRun cfg plainInit (promptPeer [oneSample]) [])).2.call =
        { smCallInit cfg plainInit with as := as } := by
  obtain ⟨as, hread, -⟩ := @readMessage_prompt
    (smCallRun cfg plainInit (promptPeer [oneSample]) []) oneSample []
    fresh_init rfl (by simp [oneSample]) (by simp [oneSample, smAsMaxPayload])
  rw [hread]
  exact ⟨rfl, as, rfl⟩

theorem firstAudio_ended (cfg : SmCallConfig) (t : Turn) :
    ∃ as, EndOfAudio (smCallRun cfg plainInit (promptPeer [oneSample]) []) t
      (processAudio { smCallInit cfg plainInit with as := as } [0, 0] 1 t.audio) := by
  obtain ⟨hread, as, hcall⟩ := firstAudio_read cfg
  have hended := EndOfAudio.firstMessage (t := t) rfl hread
  rw [hcall] at hended
  exact ⟨as, hended⟩

theorem first_seen_at_once (cfg : SmCallConfig) (peer : Peer) :
    ∀ earlier, earlier <+: [] →
      (smCallRun cfg plainInit peer earlier).call.v8Done = false := by
  intro earlier he
  rw [List.prefix_nil.mp he]
  exact (init_noResult cfg plainInit).1

theorem v34_chosen_after_v8_failed :
    ∃ c, EndOfAudio (smCallRun v34Config plainInit (promptPeer [oneSample]) []) (v8Turn 4 0 true) c ∧
      ∃ result, lastResult (v8Turn 4 0 true).audio.v8Reports = some result ∧
        EngineChosen v34Config result true
          (smCallRun v34Config plainInit (promptPeer [oneSample]) []).call c := by
  obtain ⟨as, hended⟩ := firstAudio_ended v34Config (v8Turn 4 0 true)
  refine ⟨_, hended, ?_⟩
  obtain ⟨result, hlast, hiff⟩ := v8_ends_with_one_engine_iff v34Config plainInit _ [] _ _ hended
    (first_seen_at_once v34Config _) rfl
  refine ⟨result, hlast, hiff.mpr ?_⟩
  obtain rfl : ⟨4, 0⟩ = result := Option.some.inj hlast
  exact fun _ => .inr ⟨.inr rfl, rfl⟩

theorem v34_init_failure_leaves_v8 :
    ∃ c, EndOfAudio (smCallRun v34Config plainInit (promptPeer [oneSample]) [])
        (v8Turn 4 0 false) c ∧
      (smCallRun v34Config plainInit (promptPeer [oneSample]) []).call.v8Done = false ∧
      c.v8Done = true ∧ ¬ EngineChosen v34Config ⟨4, 0⟩ false
        (smCallRun v34Config plainInit (promptPeer [oneSample]) []).call c := by
  obtain ⟨as, hended⟩ := firstAudio_ended v34Config (v8Turn 4 0 false)
  refine ⟨_, hended, rfl, rfl, ?_⟩
  rintro ⟨hphase, -⟩
  cases hphase

end Softmodem.Call
