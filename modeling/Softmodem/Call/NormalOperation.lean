import Softmodem.Call.PlainCall

namespace Softmodem.Call

open AudioSocket Serial V22bis

theorem data_mode_means_normal_operation (cfg : SmCallConfig) (r : InitResults) (peer : Peer)
    (turns : List Turn) (t : Turn) (c : SmCall)
    (hended : EndOfAudio (smCallRun cfg r peer turns) t c)
    (hcarrier : c.history.carrierLostInData = false) : DataMeansNormal c :=
  endOfAudio_kept hended (run_kept cfg r peer turns) hcarrier

def trainingLine (k : Nat) : RxObservation :=
  let j := k * 3 / 40
  { level := .aboveOn
    early := j % 2 = 0
    decision :=
      if j < 70 then if j % 2 = 0 then 1 else 5
      else constellationIndex (Fin.ofNat 4 (4 - j % 4)) 3 }

def trainingChunk (start samples : Nat) : Chunk := ⟨samples, fun k => trainingLine (start + k)⟩

def trainingChunks : List Chunk :=
  [trainingChunk 900 1620, trainingChunk 2520 1620, trainingChunk 4140 1620]

def lastTraining : Chunk := trainingChunk 5760 1620

def quietChunk : Chunk := ⟨800, fun _ => { level := .belowOff, early := false, decision := 1 }⟩

def trainingPeer : Peer :=
  promptPeer
    ((trainingChunk 0 900 :: (trainingChunks ++ [lastTraining, quietChunk])).map Chunk.message)

def trainingTurns : List Turn :=
  idleTurn (trainingChunk 0 900).rx :: trainingChunks.flatMap Chunk.turns

def answerer : ModemRun := ⟨v22bisInit false 2400, false⟩

def trainingModem : ModemRun :=
  Transition.run modemOp answerer ((trainingChunk 0 900).ops ++ trainingChunks.flatMap Chunk.ops)

def trainedModem : ModemRun := Transition.run modemOp trainingModem lastTraining.ops

instance (s : V22bisState) : Decidable (ModemNormal s) := inferInstanceAs (Decidable (_ ∧ _))

theorem trained_then_quiet :
    ModemNormal trainedModem.modem ∧
      (Transition.run modemOp trainedModem quietChunk.ops).retrained = false ∧
      ¬ ModemNormal (Transition.run modemOp trainedModem quietChunk.ops).modem := by
  have hrun : Transition.runStrict 50 modemOp
      (fun m => Transition.runStrict 50 modemOp
        (fun m => decide (ModemNormal m.modem) &&
          Transition.runStrict 50 modemOp
            (fun q => !q.retrained && !decide (ModemNormal q.modem)) 0 m quietChunk.ops)
        0 m lastTraining.ops)
      0 answerer ((trainingChunk 0 900).ops ++ trainingChunks.flatMap Chunk.ops) = true := by
    decide +kernel
  simpa only [trainedModem, trainingModem, Transition.runStrict_eq, Bool.and_eq_true,
    Bool.not_eq_true', decide_eq_true_eq, decide_eq_false_iff_not] using hrun

theorem trainingLine_heard (start samples : Nat) : Heard (trainingChunk start samples).rx := by
  intro k
  simp [trainingChunk, trainingLine]

theorem trainingRun :
    PlainRun (smCallRun v22Config plainInit trainingPeer trainingTurns) [lastTraining, quietChunk]
        trainingModem.modem ∧
      (smCallRun v22Config plainInit trainingPeer trainingTurns).call.history.carrierLostInData =
        false := by
  have hquiet : trainedModem.retrained = false := modemOps_retrained trained_then_quiet.2.1
  have htrained : trainingModem.retrained = false := modemOps_retrained hquiet
  rw [trainingModem, Transition.run_append] at htrained
  have hplain : PlainCall (smCallInit v22Config plainInit) answerer.modem :=
    ⟨rfl, rfl, rfl, rfl, .inl rfl, rfl, rfl, rfl⟩
  have hpeer : (smCallStart (smCallInit v22Config plainInit) trainingPeer).peer =
      promptPeer ((trainingChunk 0 900).message ::
        (trainingChunks ++ [lastTraining, quietChunk]).map Chunk.message) := by
    rw [← List.map_cons]
    exact (rfl : _ = trainingPeer)
  obtain ⟨hfirst, hcarrier⟩ := firstChunk_plain rfl fresh_init hpeer
    (hplain.withSocket smAstInit) (by decide) (by decide) (modemOps_retrained htrained)
  have hsize : ∀ k ∈ trainingChunks, 0 < k.samples ∧ k.samples ≤ txbufSize := by
    simp [trainingChunks, trainingChunk, txbufSize, smAsMaxPayload]
  obtain ⟨hrun, -, hcarrier'⟩ := chunks_plain trainingChunks hfirst hsize htrained
  have hheard : ∀ k ∈ trainingChunks, Heard k.rx := by
    simp [trainingChunks, trainingLine_heard]
  have hinit : (smCallStart (smCallInit v22Config plainInit) trainingPeer).call.history.carrierLostInData
      = false := rfl
  rw [smCallRun, trainingTurns, Transition.run_cons, trainingModem, Transition.run_append]
  exact ⟨hrun, ((hcarrier' hheard).trans (hcarrier (trainingLine_heard 0 900))).trans hinit⟩

theorem data_mode_reached_in_normal_operation :
    ∃ c, EndOfAudio (smCallRun v22Config plainInit trainingPeer trainingTurns)
        (idleTurn lastTraining.rx) c ∧
      c.phase = .data ∧ DataMeansNormal c := by
  obtain ⟨hrun, hcarrier⟩ := trainingRun
  have hquiet : trainedModem.retrained = false := modemOps_retrained trained_then_quiet.2.1
  obtain ⟨c, hturn, haudio⟩ := chunk_audio hrun (by decide) (by decide) hquiet
  have hkept := (haudio.carrier (trainingLine_heard 5760 1620)).trans hcarrier
  exact ⟨c, hturn.ended, haudio.data (.inr trained_then_quiet.1),
    data_mode_means_normal_operation v22Config plainInit trainingPeer trainingTurns
      (idleTurn lastTraining.rx) c hturn.ended hkept⟩

theorem carrier_loss_leaves_data_mode_without_normal_operation :
    ∃ c, EndOfAudio
        (smCallRun v22Config plainInit trainingPeer (trainingTurns ++ lastTraining.turns))
        (idleTurn quietChunk.rx) c ∧
      ¬ DataMeansNormal c := by
  obtain ⟨hrun, -⟩ := trainingRun
  obtain ⟨htrained, hquiet, hlost⟩ := trained_then_quiet
  obtain ⟨hlast, hdata, -⟩ :=
    chunk_plain hrun (by decide) (by decide) (modemOps_retrained hquiet)
  rw [smCallRun, ← Transition.run_append] at hlast hdata
  obtain ⟨c, hturn, haudio⟩ := chunk_audio hlast (by decide) (by decide) hquiet
  refine ⟨c, hturn.ended, ?_⟩
  intro hmeans
  have hnormal := hmeans (haudio.data (.inl (hdata (.inr htrained)))) haudio.plain.mode
    haudio.plain.bm
  rw [haudio.plain.modem] at hnormal
  exact hlost hnormal

end Softmodem.Call
