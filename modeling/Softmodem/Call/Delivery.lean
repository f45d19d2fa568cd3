import Softmodem.Call.FromLine

namespace Softmodem.Call

open AudioSocket Serial V22bis

def InOrder (c : SmCall) : Prop :=
  c.history.stagingFull = false → c.history.written ++ c.ppyOut = c.history.taken

theorem InOrder.of_audio {c c' : SmCall} (h : InOrder c) (hframe : AudioFrame c c') :
    InOrder c' := by
  rw [InOrder, hframe.stagingFull, hframe.written, hframe.ppyOut, hframe.taken]
  exact h

theorem pumpPpp_inv {c : SmCall} (e : PumpEnv) (hecho : c.cfg.echoData = false)
    (h : DeframerInv c) : DeframerInv (pumpPpp c e) ∨ (pumpPpp c e).phase = .hangup := by
  rcases pumpPpp_cases c e with hframe | hfailed
  · refine .inl ?_
    have hbm : (pumpPpp c e).bm = true → (pumpPpp c e).mode = .v22 ∧ (pumpPpp c e).v8 = false ∧
        (pumpPpp c e).v8Done = false := by
      rw [hframe.bm, hframe.mode, hframe.v8, hframe.v8Done]
      exact h.bm
    by_cases hphase : c.phase = .data
    · have hdata : (pumpPpp c e).phase = .data := hframe.phase.trans hphase
      by_cases hspawned : needsPppd c → e.spawned = true
      · have hrelayed := pumpPpp_relayed hecho hphase hspawned
        refine ⟨hbm, ?_, ?_, ?_⟩
        · intro hv8
          exact absurd (hdata.symm.trans hv8) (by decide)
        · intro _ hne
          exact absurd hdata hne
        · intro _ hfull
          rw [hframe.deframerFull] at hfull
          rw [hrelayed.periodTaken, hrelayed.out, hframe.periodCompleted, List.append_assoc,
            List.take_append_drop]
          exact h.period hphase hfull
      · obtain ⟨hneeds, hnot⟩ := Classical.not_imp.mp hspawned
        have hfailed := pumpPpp_unspawned hneeds (Bool.eq_false_of_not_eq_true hnot)
        rw [hfailed] at hdata
        cases hdata
    · have hsame := pumpPpp_quiet e hphase
      refine ⟨hbm, ?_, ?_, ?_⟩
      · rw [hframe.phase, hframe.mode, hsame.deframer]
        exact h.v8
      · rw [hframe.phase, hframe.mode, hsame.deframer]
        exact h.v34
      · intro hdata
        exact absurd (hframe.phase.symm.trans hdata) hphase
  · exact .inr (by rw [hfailed])

theorem pumpPpp_inOrder {c : SmCall} (e : PumpEnv) (hecho : c.cfg.echoData = false)
    (h : InOrder c) : InOrder (pumpPpp c e) := by
  intro hroom
  by_cases hphase : c.phase = .data
  · by_cases hspawned : needsPppd c → e.spawned = true
    · have hrelayed := pumpPpp_relayed hecho hphase hspawned
      rw [hrelayed.stagingFull, Bool.or_eq_false_iff, decide_eq_false_iff_not, not_lt] at hroom
      rw [hrelayed.staged, hrelayed.taken, h hroom.1, List.take_of_length_le hroom.2]
    · obtain ⟨hneeds, hnot⟩ := Classical.not_imp.mp hspawned
      rw [pumpPpp_unspawned hneeds (Bool.eq_false_of_not_eq_true hnot)] at hroom ⊢
      exact h hroom
  · have hsame := pumpPpp_quiet e hphase
    rw [hsame.stagingFull] at hroom
    rw [hsame.written, hsame.ppyOut, hsame.taken]
    exact h hroom

structure LineInv (c : SmCall) (stage : Stage) : Prop where
  echo : c.cfg.echoData = false
  deframer : DeframerInv c ∨ c.phase = .hangup ∧ stage ≠ .firstMessage
  inOrder : InOrder c

theorem processAudio_line {c : SmCall} {stage : Stage} (payload : List UInt8) (n : Nat)
    (e : AudioEnv) (hinv : DeframerInv c) (h : LineInv c stage) :
    LineInv (processAudio c payload n e) stage := by
  have hframe := processAudio_frame c payload n e
  refine ⟨?_, .inl (processAudio_inv payload n e hinv), h.inOrder.of_audio hframe⟩
  rw [hframe.cfg]
  exact h.echo

theorem pumpPpp_line {c : SmCall} {stage : Stage} (e : PumpEnv) (hstage : stage ≠ .firstMessage)
    (h : LineInv c stage) : LineInv (pumpPpp c e) stage := by
  refine ⟨?_, ?_, pumpPpp_inOrder e h.echo h.inOrder⟩
  · rcases pumpPpp_cases c e with hframe | hfailed
    · rw [hframe.cfg]
      exact h.echo
    · rw [hfailed]
      exact h.echo
  · rcases h.deframer with hinv | hdone
    · exact (pumpPpp_inv e h.echo hinv).imp_right fun hphase => ⟨hphase, hstage⟩
    · rcases pumpPpp_cases c e with hframe | hfailed
      · exact .inr ⟨hframe.phase.trans hdone.1, hstage⟩
      · exact .inr ⟨by rw [hfailed], hstage⟩

theorem LineInv.withSocket {c : SmCall} {stage : Stage} (h : LineInv c stage) (as : SmAstSocket) :
    LineInv { c with as := as } stage := by
  refine ⟨h.echo, ?_, h.inOrder⟩
  exact h.deframer.imp_left fun hinv => ⟨hinv.bm, hinv.v8, hinv.v34, hinv.period⟩

theorem turnEffect_line {s : CallRun} {t : Turn} {c : SmCall} (h : TurnEffect s t c)
    (hs : LineInv s.call s.stage) : LineInv c s.stage := by
  cases h with
  | read as _ => exact hs.withSocket as
  | firstAudio as hstage _ =>
      have hsocket := hs.withSocket as
      exact processAudio_line _ _ t.audio
        (hsocket.deframer.resolve_right fun hdone => hdone.2 hstage) hsocket
  | audio as _ hup _ =>
      have hsocket := hs.withSocket as
      exact processAudio_line _ _ t.audio
        (hsocket.deframer.resolve_right fun hdone => hup hdone.1) hsocket
  | pumped hstage => exact pumpPpp_line t.pump (by simp [hstage]) hs

theorem closeCall_line {c : SmCall} {stage : Stage} (h : LineInv c stage) :
    LineInv (closeCall c) stage := by
  refine ⟨h.echo, ?_, h.inOrder⟩
  exact h.deframer.imp_left fun hinv => ⟨by rintro ⟨⟩, hinv.v8, hinv.v34, hinv.period⟩

theorem LineInv.move {c : SmCall} {stage stage' : Stage} (h : LineInv c stage)
    (hmove : stage' = .firstMessage → stage = .firstMessage) : LineInv c stage' :=
  ⟨h.echo, h.deframer.imp_right fun hdone => ⟨hdone.1, fun hfirst => hdone.2 (hmove hfirst)⟩,
    h.inOrder⟩

theorem turn_line {s : CallRun} (t : Turn) (hs : LineInv s.call s.stage) :
    LineInv (smCallTurn s t).call (smCallTurn s t).stage := by
  have hmove : (smCallTurn s t).stage = .firstMessage → s.stage = .firstMessage :=
    fun hfirst => (turn_waiting hfirst).1
  obtain ⟨stages, c, heffect, ⟨hcall, -⟩ | ⟨hcall, -⟩⟩ := smCallTurn_turned s t
  · rw [hcall]
    exact (turnEffect_line heffect hs).move hmove
  · rw [hcall]
    exact (closeCall_line (turnEffect_line heffect hs)).move hmove

theorem start_silent (cfg : SmCallConfig) (r : InitResults) (peer : Peer) :
    Silent (smCallStart (smCallInit cfg r) peer).call := by
  simp only [smCallStart, smCallInit, startAnswer]
  split_ifs <;> exact ⟨rfl, by simp, rfl⟩

theorem start_line {cfg : SmCallConfig} (hecho : cfg.echoData = false) (r : InitResults)
    (peer : Peer) :
    LineInv (smCallStart (smCallInit cfg r) peer).call .firstMessage := by
  have hsilent := start_silent cfg r peer
  have hdeframer : DeframerInv (smCallStart (smCallInit cfg r) peer).call := by
    refine ⟨?_, fun _ => ⟨hsilent.mode, hsilent.out⟩, fun _ _ => hsilent.out,
      fun hdata => absurd hdata hsilent.phase⟩
    simp only [smCallStart, smCallInit, startAnswer]
    split_ifs <;> simp [smCallZero]
  have hstart : (smCallStart (smCallInit cfg r) peer).call.cfg = cfg ∧
      InOrder (smCallStart (smCallInit cfg r) peer).call := by
    simp only [smCallStart, smCallInit, startAnswer]
    split_ifs <;> exact ⟨rfl, fun _ => rfl⟩
  exact ⟨by rw [hstart.1]; exact hecho, .inl hdeframer, hstart.2⟩

def AcceptsAll : List WriteResult → Prop
  | .took k :: _ => ppyOutSize ≤ k
  | _ => False

instance : DecidablePred AcceptsAll
  | [] => isFalse id
  | .took k :: _ => inferInstanceAs (Decidable (ppyOutSize ≤ k))
  | .eintr :: _ => isFalse id
  | .eagain :: _ => isFalse id
  | .error :: _ => isFalse id

theorem AcceptsAll.took {writes : List WriteResult} (h : AcceptsAll writes) :
    ∃ k rest, writes = .took k :: rest ∧ ppyOutSize ≤ k := by
  rcases writes with _ | ⟨⟨k⟩ | _ | _ | _, rest⟩
  · exact h.elim
  · exact ⟨k, rest, rfl, h⟩
  · exact h.elim
  · exact h.elim
  · exact h.elim

structure Unobstructed (s : CallRun) (t : Turn) : Prop where
  fdOpen : ∀ checkPppd, s.stage = .pump checkPppd → s.call.phase = .data →
    PppFdOpen s.call t.pump
  accepted : ∀ checkPppd, s.stage = .pump checkPppd → AcceptsAll t.pump.writes
  completed : (smCallTurn s t).call.history.completed.length ≤
    s.call.history.completed.length + 256
  -- The engine is created with BM_RUNNING, and bm_poll comes before its first sample.
  startUp : s.stage = .firstMessage → t.audio.bm.status ≠ .connected

instance (s : CallRun) (t : Turn) : Decidable (Unobstructed s t) :=
  decidable_of_iff
    ((∀ checkPppd : Bool, s.stage = .pump checkPppd → s.call.phase = .data →
        PppFdOpen s.call t.pump) ∧
      (∀ checkPppd : Bool, s.stage = .pump checkPppd → AcceptsAll t.pump.writes) ∧
      (smCallTurn s t).call.history.completed.length ≤ s.call.history.completed.length + 256 ∧
      (s.stage = .firstMessage → t.audio.bm.status ≠ .connected))
    ⟨fun ⟨hopen, haccepted, hcompleted, hstart⟩ => ⟨hopen, haccepted, hcompleted, hstart⟩,
      fun h => ⟨h.fdOpen, h.accepted, h.completed, h.startUp⟩⟩

structure Clear (c : SmCall) : Prop where
  overflowed : c.history.deframerOverflowed = false
  stagingFull : c.history.stagingFull = false
  ppyOut : c.ppyOut = []
  out : c.deframer.out.length ≤ 256

theorem processAudio_clear {c : SmCall} {payload : List UInt8} {n : Nat} {e : AudioEnv}
    (h : Clear c) (hinv : DeframerInv c) (hdata : c.phase = .data → c.deframer.out = [])
    (hle : (processAudio c payload n e).history.completed.length ≤
      c.history.completed.length + 256) : Clear (processAudio c payload n e) := by
  have hframe := processAudio_frame c payload n e
  obtain ⟨hflag, hout⟩ := processAudio_bounded payload n e hinv h.overflowed h.out hdata hle
  exact ⟨hflag, hframe.stagingFull.trans h.stagingFull, hframe.ppyOut.trans h.ppyOut, hout⟩

theorem PppFdOpen.spawned {c : SmCall} {e : PumpEnv} (h : PppFdOpen c e) :
    needsPppd c → e.spawned = true := by
  intro hneeds
  simpa [PppFdOpen, hneeds] using h

theorem pumpPpp_clear {c : SmCall} {e : PumpEnv} (hecho : c.cfg.echoData = false)
    (hopen : c.phase = .data → PppFdOpen c e) (haccepted : AcceptsAll e.writes) (h : Clear c) :
    Clear (pumpPpp c e) ∧ (c.phase = .data → (pumpPpp c e).deframer.out = []) := by
  by_cases hphase : c.phase = .data
  · have hspawned := (hopen hphase).spawned
    have hframe := pumpPpp_frame (e := e) hspawned
    have hrelayed := pumpPpp_relayed hecho hphase hspawned
    have hout : (pumpPpp c e).deframer.out = [] := by
      rw [hrelayed.out, List.drop_eq_nil_iff]
      exact h.out
    obtain ⟨k, rest, hwrites, hk⟩ := haccepted.took
    obtain ⟨d, hsame, hfd, heq⟩ := pumpPpp_data hecho hphase hspawned
    have hempty : (relay d e.writes).ppyOut = [] := by
      rw [hwrites]
      exact relay_ppyOut rest (hfd (hopen hphase)) hk (hsame.ppyOut.trans h.ppyOut)
    refine ⟨⟨hframe.deframerOverflowed.trans h.overflowed, ?_, ?_, by simp [hout]⟩, fun _ => hout⟩
    · rw [hrelayed.stagingFull, h.stagingFull, h.ppyOut]
      simp only [Bool.false_or, decide_eq_false_iff_not, not_lt, List.length_take, List.length_nil]
      have hsize : ppyOutSize = 4096 := rfl
      omega
    · rw [heq, (pumpTransmit_staging _ e).ppyOut, hempty]
  · have hsame := pumpPpp_quiet e hphase
    have hframe := pumpPpp_frame (c := c) (e := e) fun hneeds => absurd hneeds.1 hphase
    refine ⟨⟨hframe.deframerOverflowed.trans h.overflowed, hsame.stagingFull.trans h.stagingFull,
      hsame.ppyOut.trans h.ppyOut, ?_⟩, fun hdata => absurd hdata hphase⟩
    rw [hsame.deframer]
    exact h.out

structure Flowing (s : CallRun) : Prop where
  line : LineInv s.call s.stage
  clear : Clear s.call
  first : s.stage = .firstMessage → Silent s.call
  message : s.stage = .message → s.call.phase = .data → s.call.deframer.out = []

theorem turnEffect_flowing {s : CallRun} {t : Turn} {c : SmCall} (h : TurnEffect s t c)
    (hs : Flowing s) (hopen : ∀ checkPppd, s.stage = .pump checkPppd → s.call.phase = .data →
      PppFdOpen s.call t.pump)
    (haccepted : ∀ checkPppd, s.stage = .pump checkPppd → AcceptsAll t.pump.writes)
    (hcompleted : c.history.completed.length ≤ s.call.history.completed.length + 256)
    (hstart : s.stage = .firstMessage → t.audio.bm.status ≠ .connected) :
    Clear c ∧ ((s.stage = .firstMessage ∨ ∃ checkPppd, s.stage = .pump checkPppd) →
      c.phase = .data → c.deframer.out = []) := by
  have hclear := hs.clear
  cases h with
  | read as hpump =>
      refine ⟨⟨hclear.overflowed, hclear.stagingFull, hclear.ppyOut, hclear.out⟩, ?_⟩
      rintro (hfirst | ⟨checkPppd, hstage⟩) hdata
      · exact absurd hdata (hs.first hfirst).phase
      · exact absurd hstage (hpump checkPppd)
  | firstAudio as hstage _ =>
      have hsilent := hs.first hstage
      have hline := hs.line.withSocket as
      have hinv := hline.deframer.resolve_right fun hdone => hdone.2 hstage
      have hsocket : Clear { s.call with as := as } :=
        ⟨hclear.overflowed, hclear.stagingFull, hclear.ppyOut, hclear.out⟩
      have hquiet : Silent { s.call with as := as } := ⟨hsilent.mode, hsilent.phase, hsilent.out⟩
      refine ⟨processAudio_clear hsocket hinv (fun _ => hsilent.out) hcompleted, ?_⟩
      intro _ _
      exact processAudio_silent _ _ hquiet (hstart hstage)
  | audio as hstage hup _ =>
      have hline := hs.line.withSocket as
      have hinv := hline.deframer.resolve_right fun hdone => hup hdone.1
      have hsocket : Clear { s.call with as := as } :=
        ⟨hclear.overflowed, hclear.stagingFull, hclear.ppyOut, hclear.out⟩
      refine ⟨processAudio_clear hsocket hinv (hs.message hstage) hcompleted, ?_⟩
      rintro (hfirst | ⟨checkPppd, hpump⟩)
      · simp [hstage] at hfirst
      · simp [hstage] at hpump
  | pumped hstage =>
      obtain ⟨hpumped, hout⟩ := pumpPpp_clear hs.line.echo (hopen _ hstage) (haccepted _ hstage)
        hclear
      refine ⟨hpumped, ?_⟩
      intro _ hdata
      rcases pumpPpp_cases s.call t.pump with hframe | hfailed
      · exact hout (hframe.phase.symm.trans hdata)
      · rw [hfailed] at hdata
        cases hdata

theorem turn_flowing {s : CallRun} {t : Turn} (hs : Flowing s) (h : Unobstructed s t) :
    Flowing (smCallTurn s t) := by
  have hline := turn_line t hs.line
  have hfirst : (smCallTurn s t).stage = .firstMessage → Silent (smCallTurn s t).call := by
    intro hwaiting
    obtain ⟨hstage, as, hcall⟩ := turn_waiting hwaiting
    have hsilent := hs.first hstage
    rw [hcall]
    exact ⟨hsilent.mode, hsilent.phase, hsilent.out⟩
  have hcompleted := h.completed
  obtain ⟨stages, c, heffect, ⟨hcall, -⟩ | ⟨hcall, hfinished⟩⟩ := smCallTurn_turned s t
  · rw [hcall] at hcompleted
    obtain ⟨hclear, hout⟩ := turnEffect_flowing heffect hs h.fdOpen h.accepted hcompleted h.startUp
    refine ⟨hline, by rwa [hcall], hfirst, ?_⟩
    intro hstage
    rw [hcall]
    exact hout (turn_to_message hstage)
  · rw [hcall] at hcompleted
    obtain ⟨hclear, -⟩ := turnEffect_flowing heffect hs h.fdOpen h.accepted hcompleted h.startUp
    refine ⟨hline, ?_, hfirst, ?_⟩
    · rw [hcall]
      exact ⟨hclear.overflowed, hclear.stagingFull, hclear.ppyOut, hclear.out⟩
    · intro hstage
      rw [hfinished] at hstage
      cases hstage

theorem start_flowing {cfg : SmCallConfig} (hecho : cfg.echoData = false) (r : InitResults)
    (peer : Peer) : Flowing (smCallStart (smCallInit cfg r) peer) := by
  have hsilent := start_silent cfg r peer
  refine ⟨start_line hecho r peer, ?_, fun _ => hsilent, ?_⟩
  · simp only [smCallStart, smCallInit, startAnswer]
    split_ifs <;> exact ⟨rfl, rfl, rfl, Nat.zero_le _⟩
  · rintro ⟨⟩

theorem line_to_pppd_in_order (cfg : SmCallConfig) (r : InitResults) (peer : Peer)
    (turns : List Turn) (hecho : cfg.echoData = false) :
    let s := smCallRun cfg r peer turns
    (s.call.history.stagingFull = false →
        s.call.history.written ++ s.call.ppyOut = s.call.history.taken) ∧
      (s.call.phase = .data → s.call.history.deframerFull = false →
        s.call.history.periodTaken ++ s.call.deframer.out = s.call.history.periodCompleted) ∧
      (Transition.Along smCallTurn Unobstructed (smCallStart (smCallInit cfg r) peer) turns →
        s.call.history.stagingFull = false ∧ s.call.history.deframerOverflowed = false ∧
        ∀ t checkPppd, s.stage = .pump checkPppd → s.call.phase = .data → Unobstructed s t →
          (pumpPpp s.call t.pump).deframer.out = []) := by
  intro s
  have hline : LineInv s.call s.stage :=
    Transition.run_invariant (P := fun (s : CallRun) => LineInv s.call s.stage)
      (fun _ t => turn_line t) turns (start_line hecho r peer)
  refine ⟨hline.inOrder, ?_, ?_⟩
  · intro hdata
    have hinv := hline.deframer.resolve_right fun hdone =>
      absurd (hdata.symm.trans hdone.1) (by decide)
    exact hinv.period hdata
  · intro halong
    have hflowing : Flowing s :=
      Transition.along_invariant (fun _ _ hs h => turn_flowing hs h) turns
        (start_flowing hecho r peer) halong
    refine ⟨hflowing.clear.stagingFull, hflowing.clear.overflowed, ?_⟩
    intro t checkPppd hstage hdata hunobstructed
    exact (pumpPpp_clear hline.echo (hunobstructed.fdOpen checkPppd hstage)
      (hunobstructed.accepted checkPppd hstage) hflowing.clear).2 hdata

def letterTurn (status : BmStatus) (letters : List UInt8) : Turn :=
  { audio :=
      { bm := ⟨status, 2400, true⟩
        engine := (true :: letters.flatMap frame).map fun bit => .putBit (some bit) 0
        v8Sent := 0, v8Reports := [], v34Created := false, rx := fun _ => ⟨.between, true, 0⟩ }
    value := fun _ => (0, 0)
    sent := [.sent 3, .sent 4096]
    pump := { spawned := true, writes := [.took ppyOutSize], read := none }
    pppdExited := false }

def letterTurns : List Turn :=
  [letterTurn .running [], letterTurn .connected [0x41, 0x54], letterTurn .connected []]

theorem line_to_pppd_in_order_two_letters :
    ∃ s, s = smCallRun bmConfig plainInit (promptPeer [oneSample, oneSample]) letterTurns ∧
      s.call.phase = .data ∧ s.call.history.written ++ s.call.ppyOut = [0x41, 0x54] ∧
      s.call.history.stagingFull = false ∧ s.call.history.deframerOverflowed = false := by
  have hdata : (smCallRun bmConfig plainInit (promptPeer [oneSample, oneSample])
        letterTurns).call.phase = .data ∧
      (smCallRun bmConfig plainInit (promptPeer [oneSample, oneSample])
        letterTurns).call.history.taken = [0x41, 0x54] := by
    decide +kernel
  have halong : Transition.Along smCallTurn Unobstructed
      (smCallStart (smCallInit bmConfig plainInit) (promptPeer [oneSample, oneSample]))
      letterTurns := by
    decide
  have hline := line_to_pppd_in_order bmConfig plainInit (promptPeer [oneSample, oneSample])
    letterTurns rfl
  generalize smCallRun bmConfig plainInit (promptPeer [oneSample, oneSample]) letterTurns = s
    at hdata hline
  obtain ⟨hinOrder, -, hclear⟩ := hline
  obtain ⟨hstaging, hoverflowed, -⟩ := hclear halong
  exact ⟨s, rfl, hdata.1, (hinOrder hstaging).trans hdata.2, hstaging, hoverflowed⟩

end Softmodem.Call
