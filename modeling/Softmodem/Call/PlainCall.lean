import Softmodem.AudioSocket.Prompt
import Softmodem.Call.DataMode

namespace Softmodem.Call

open AudioSocket Serial V22bis

structure PlainCall (c : SmCall) (s : V22bisState) : Prop where
  echo : c.cfg.echoData = false
  mode : c.mode = .v22
  bm : c.bm = false
  rxGuard : c.rxGuard = 0
  phase : c.phase = .handshake ∨ c.phase = .data
  queue : c.txbits.contents = []
  modem : c.modem = s
  shutdown : s.tx.shutdown = 0

theorem PlainCall.of_fields {c c' : SmCall} {s s' : V22bisState} (h : PlainCall c s)
    (hcfg : c'.cfg = c.cfg) (hmode : c'.mode = c.mode) (hbm : c'.bm = c.bm)
    (hguard : c'.rxGuard = c.rxGuard) (hphase : c'.phase = c.phase)
    (htxbits : c'.txbits = c.txbits) (hmodem : c'.modem = s') (hshut : s'.tx.shutdown = 0) :
    PlainCall c' s' :=
  ⟨hcfg ▸ h.echo, hmode.trans h.mode, hbm.trans h.bm, hguard.trans h.rxGuard,
    hphase ▸ h.phase, htxbits ▸ h.queue, hmodem, hshut⟩

theorem callGetBit_idle {c : SmCall} (h : c.txbits.contents = []) :
    callGetBit c = (some true, c) := by
  simp [callGetBit, callGetBit_empty h, h]

theorem rxOut_plainPhase {c : SmCall} (hmode : c.mode = .v22) {out : RxOut} (hne : out ≠ retrain) :
    (rxOut c out).phase = c.phase := by
  have hv22 : c.mode ≠ .v34 := by simp [hmode]
  cases out with
  | status st =>
      simp only [rxOut, callStatus]
      rw [if_neg (by simpa [retrain] using hne)]
  | bit b =>
      simp only [rxOut, callPutBit, if_neg hv22]
      split <;> rfl

theorem rxOuts_plainPhase {outs : List RxOut} {c : SmCall} (hmode : c.mode = .v22)
    (hne : retrain ∉ outs) : (outs.foldl rxOut c).phase = c.phase := by
  induction outs generalizing c with
  | nil => rfl
  | cons out outs ih =>
      have hout : out ≠ retrain := by
        rintro rfl
        exact hne (List.mem_cons_self ..)
      have hrest : retrain ∉ outs := fun hmem => hne (List.mem_cons_of_mem _ hmem)
      exact (ih ((rxOut_frame c out).mode.trans hmode) hrest).trans (rxOut_plainPhase hmode hout)

theorem modemRxSample_plain {c : SmCall} {m : ModemRun} {o : RxObservation}
    (h : PlainCall c m.modem) (hretrain : (modemOp m (.rx o)).retrained = false) :
    PlainCall (modemRxSample c o) (modemOp m (.rx o)).modem ∧
      (modemRxSample c o).phase = c.phase := by
  have hne : retrain ∉ (v22bisRxSample c.modem o).2 := by
    simp only [modemOp, ← h.modem, Bool.or_eq_false_iff, decide_eq_false_iff_not] at hretrain
    exact hretrain.2
  have hframe := rxOuts_frame (v22bisRxSample c.modem o).2 (receiveSample c o)
  have hphase : (modemRxSample c o).phase = c.phase :=
    rxOuts_plainPhase (c := receiveSample c o) h.mode hne
  refine ⟨h.of_fields hframe.cfg hframe.mode hframe.bm hframe.rxGuard hphase hframe.txbits ?_
    (modemOp_shutdown (.rx o) h.shutdown), hphase⟩
  have hmodem : (modemRxSample c o).modem = (receiveSample c o).modem := hframe.modem
  rw [hmodem]
  simp [receiveSample, modemOp, h.modem]

theorem modemOp_retrained {m : ModemRun} {op : ModemOp} (h : (modemOp m op).retrained = false) :
    m.retrained = false := by
  cases op with
  | tx => exact h
  | rx o => exact (Bool.or_eq_false_iff.mp h).1

theorem modemOps_retrained {ops : List ModemOp} {m : ModemRun}
    (h : (Transition.run modemOp m ops).retrained = false) : m.retrained = false := by
  induction ops generalizing m with
  | nil => exact h
  | cons op ops ih => exact modemOp_retrained (ih h)

theorem modemRx_plain (rx : Nat → RxObservation) (ks : List Nat) {c : SmCall} {m : ModemRun}
    (h : PlainCall c m.modem)
    (hretrain : (Transition.run modemOp m (ks.map fun k => .rx (rx k))).retrained = false) :
    PlainCall (ks.foldl (fun c k => modemRxSample c (rx k)) c)
        (Transition.run modemOp m (ks.map fun k => .rx (rx k))).modem ∧
      (ks.foldl (fun c k => modemRxSample c (rx k)) c).phase = c.phase := by
  induction ks generalizing c m with
  | nil => exact ⟨h, rfl⟩
  | cons k ks ih =>
      obtain ⟨hsample, hphase⟩ := modemRxSample_plain h (modemOps_retrained hretrain)
      obtain ⟨hrest, hphase'⟩ := ih hsample hretrain
      exact ⟨hrest, hphase'.trans hphase⟩

def Heard (rx : Nat → RxObservation) : Prop := ∀ k, (rx k).level ≠ .belowOff

theorem modemRxSample_heard (c : SmCall) {o : RxObservation} (h : o.level ≠ .belowOff) :
    (modemRxSample c o).history.carrierLostInData = c.history.carrierLostInData := by
  have hframe := rxOuts_frame (v22bisRxSample c.modem o).2 (receiveSample c o)
  have hkept : ¬ CarrierLost c.modem o := fun hlost => h hlost.2.1
  have hreceived : (receiveSample c o).history.carrierLostInData = c.history.carrierLostInData := by
    simp [receiveSample, hkept]
  exact hframe.carrierLostInData.trans hreceived

theorem modemRx_heard {rx : Nat → RxObservation} (h : Heard rx) (ks : List Nat) (c : SmCall) :
    (ks.foldl (fun c k => modemRxSample c (rx k)) c).history.carrierLostInData =
      c.history.carrierLostInData := by
  induction ks generalizing c with
  | nil => rfl
  | cons k ks ih => exact (ih _).trans (modemRxSample_heard c (h k))

theorem callStatuses_plain {statuses : List Status} (h : .retrainOccurred ∉ statuses) (c : SmCall) :
    statuses.foldl callStatus c = c := by
  induction statuses generalizing c with
  | nil => rfl
  | cons st statuses ih =>
      have hst : st ≠ .retrainOccurred := by
        rintro rfl
        exact h (List.mem_cons_self ..)
      have hrest : .retrainOccurred ∉ statuses := fun hmem => h (List.mem_cons_of_mem _ hmem)
      rw [List.foldl_cons, callStatus, if_neg hst]
      exact ih hrest c

theorem modemTx_plain {c : SmCall} {m : ModemRun} (h : PlainCall c m.modem) (start len : Nat) :
    PlainCall (modemTx c start len) (Transition.run modemOp m (List.replicate len .tx)).modem ∧
      (modemTx c start len).phase = c.phase ∧
      (modemTx c start len).history.carrierLostInData = c.history.carrierLostInData := by
  have hidle := callGetBit_idle h.queue
  obtain ⟨hmodem, -, hcall⟩ := v22bisTx_idle hidle h.shutdown len
  have hretrain := v22bisTx_retrain callGetBit len c.modem c
  have hrx : ∀ k, (Transition.run modemOp m (List.replicate k .tx)).modem.tx.shutdown = 0 :=
    fun k => Transition.run_invariant (P := fun (m : ModemRun) => m.modem.tx.shutdown = 0)
      (fun _ op hm => modemOp_shutdown op hm) _ h.shutdown
  rw [← h.modem] at hmodem hcall
  rcases heq : v22bisTx callGetBit len c.modem c with ⟨sent, s, statuses, d⟩
  simp only [heq] at hmodem hcall hretrain
  subst hcall
  simp only [modemTx, heq, callStatuses_plain hretrain]
  exact ⟨h.of_fields rfl rfl rfl rfl rfl rfl hmodem (hrx len), rfl, rfl⟩

theorem engineChunk_plain {c : SmCall} {m : ModemRun} (h : PlainCall c m.modem) {n : Nat}
    (hn : 0 < n) (e : AudioEnv)
    (hretrain : (Transition.run modemOp m (chunkOps n e.rx)).retrained = false) :
    PlainCall (engineChunk c 0 n e) (Transition.run modemOp m (chunkOps n e.rx)).modem ∧
      (engineChunk c 0 n e).phase = c.phase ∧
      (Heard e.rx →
        (engineChunk c 0 n e).history.carrierLostInData = c.history.carrierLostInData) := by
  obtain ⟨htx, hphase, hcarrier⟩ := modemTx_plain h 0 n
  have hne : n ≠ 0 := by omega
  have hmode : c.mode ≠ .v34 := by simp [h.mode]
  simp only [engineChunk, if_neg hne, if_neg hmode]
  rw [chunkOps, Transition.run_append] at hretrain ⊢
  have htouched : PlainCall (touch (modemTx c 0 n) .input 0 n)
      (Transition.run modemOp m (List.replicate n .tx)).modem :=
    htx.of_fields rfl rfl rfl rfl rfl rfl htx.modem htx.shutdown
  have hrx := modemRx_plain e.rx (List.range n) htouched hretrain
  simp only [modemRx, Nat.zero_add]
  exact ⟨hrx.1, hrx.2.trans hphase, fun hheard => (modemRx_heard hheard _ _).trans hcarrier⟩

theorem audioLoop_plain {c : SmCall} {s : V22bisState} (h : PlainCall c s) {n : Nat}
    (hn : 0 < n) (e : AudioEnv) : audioLoop n e n c = engineChunk c 0 n e := by
  obtain ⟨left, rfl⟩ : ∃ left, n = left + 1 := ⟨n - 1, by omega⟩
  rcases h.phase with hphase | hphase <;>
    simp [audioLoop, hphase, guardChunk, h.rxGuard]

theorem captureChunk_plain {c : SmCall} {s : V22bisState} (h : PlainCall c s)
    (payload : List UInt8) (n : Nat) :
    PlainCall (captureChunk c payload n) s ∧ (captureChunk c payload n).phase = c.phase ∧
      (captureChunk c payload n).history.carrierLostInData = c.history.carrierLostInData := by
  simp only [captureChunk]
  split_ifs <;> exact ⟨h.of_fields rfl rfl rfl rfl rfl rfl h.modem h.shutdown, rfl, rfl⟩

theorem dataModeDetection_plain {c : SmCall} {s : V22bisState} (h : PlainCall c s) :
    PlainCall (dataModeDetection c) s ∧
      (c.phase = .data ∨ ModemNormal s → (dataModeDetection c).phase = .data) ∧
      (dataModeDetection c).history.carrierLostInData = c.history.carrierLostInData := by
  have hnormal : ModemNormal c.modem ↔ ModemNormal s := by rw [h.modem]
  simp only [dataModeDetection]
  split
  · refine ⟨⟨h.echo, h.mode, h.bm, h.rxGuard, .inr rfl, h.queue, h.modem, h.shutdown⟩, ?_, rfl⟩
    intro _
    rfl
  · rename_i hdetect
    refine ⟨h, ?_, rfl⟩
    rintro (hdata | hboth)
    · exact hdata
    · rcases h.phase with hphase | hphase
      · exact absurd ⟨h.mode, hphase, h.bm, hnormal.mpr hboth⟩ hdetect
      · exact hphase

structure PlainAudio (c : SmCall) (m : ModemRun) (ops : List ModemOp)
    (rx : Nat → RxObservation) (c' : SmCall) : Prop where
  plain : PlainCall c' (Transition.run modemOp m ops).modem
  data : c.phase = .data ∨ ModemNormal (Transition.run modemOp m ops).modem → c'.phase = .data
  carrier : Heard rx → c'.history.carrierLostInData = c.history.carrierLostInData

theorem processAudio_plain {c : SmCall} {m : ModemRun} (h : PlainCall c m.modem)
    (payload : List UInt8) {n : Nat} (hn : 0 < n) (e : AudioEnv)
    (hretrain : (Transition.run modemOp m (chunkOps n e.rx)).retrained = false) :
    PlainAudio c m (chunkOps n e.rx) e.rx (processAudio c payload n e) := by
  have hstart : PlainCall (audioStart c) m.modem :=
    h.of_fields rfl rfl rfl rfl rfl rfl h.modem h.shutdown
  obtain ⟨hcaptured, hphase, hcarrier⟩ := captureChunk_plain hstart payload n
  have hpoll : pollEngine (captureChunk (audioStart c) payload n) n e =
      captureChunk (audioStart c) payload n := by
    simp [pollEngine, hcaptured.bm]
  obtain ⟨hran, hphase', hcarrier'⟩ := engineChunk_plain hcaptured hn e hretrain
  have hengine : runEngine (captureChunk (audioStart c) payload n) n e =
      engineChunk (captureChunk (audioStart c) payload n) 0 n e := by
    rw [← audioLoop_plain hcaptured hn e]
    simp [runEngine, hcaptured.bm]
  have hv8 : v8Transition (engineChunk (captureChunk (audioStart c) payload n) 0 n e) e =
      engineChunk (captureChunk (audioStart c) payload n) 0 n e := by
    rcases hran.phase with hp | hp <;> simp [v8Transition, hp]
  obtain ⟨hdetected, hdata, hcarrier''⟩ := dataModeDetection_plain hran
  simp only [processAudio, hpoll, hengine, hv8]
  refine ⟨hdetected.of_fields rfl rfl rfl rfl rfl rfl hdetected.modem hdetected.shutdown, ?_, ?_⟩
  · intro hor
    exact hdata (by rwa [hphase', hphase])
  · intro hheard
    exact (hcarrier''.trans (hcarrier' hheard)).trans hcarrier

theorem pumpTransmit_idle (c : SmCall) : pumpTransmit c idlePump = c := by
  unfold pumpTransmit
  split <;> rfl

theorem pumpBytes_idle {c : SmCall} (hecho : c.cfg.echoData = false) :
    (pumpBytes c idlePump).txbits = c.txbits := by
  unfold pumpBytes
  split
  · rw [pumpReceive_relay idlePump hecho, pumpTransmit_idle]
    exact (relay_frame c _).txbits
  · rw [pumpTransmit_idle]

theorem pumpPpp_idle {c : SmCall} (hecho : c.cfg.echoData = false) :
    (pumpPpp c idlePump).txbits = c.txbits := by
  by_cases hneeds : needsPppd c
  · rw [pumpPpp_spawned hneeds rfl]
    exact pumpBytes_idle (c := (startPppd c true).1) hecho
  · by_cases hidle : c.phase ≠ .data ∧ c.pppFd = false ∧ c.cfg.echoData = false
    · rw [pumpPpp, if_pos hidle]
    · rw [pumpPpp_running idlePump hneeds hidle]
      exact pumpBytes_idle hecho

theorem pumpPpp_plain {c : SmCall} {s : V22bisState} (h : PlainCall c s) :
    PlainCall (pumpPpp c idlePump) s ∧ (pumpPpp c idlePump).phase = c.phase := by
  have hframe := pumpPpp_frame (c := c) (e := idlePump) fun _ => rfl
  exact ⟨h.of_fields hframe.cfg hframe.mode hframe.bm hframe.rxGuard hframe.phase
    (pumpPpp_idle h.echo) (hframe.modem.trans h.modem) h.shutdown, hframe.phase⟩

structure Chunk where
  samples : Nat
  rx : Nat → RxObservation

def Chunk.message (k : Chunk) : Message := ⟨smAsKindAudio, List.replicate (2 * k.samples) 0⟩

def Chunk.turns (k : Chunk) : List Turn := [idleTurn k.rx, idleTurn k.rx]

def Chunk.ops (k : Chunk) : List ModemOp := chunkOps k.samples k.rx

structure PlainRun (s : CallRun) (ks : List Chunk) (modem : V22bisState) : Prop where
  stage : s.stage = .message
  fresh : Fresh s.call.as
  peer : s.peer = promptPeer (ks.map Chunk.message)
  call : PlainCall s.call modem

theorem Chunk.read {s : CallRun} {k : Chunk} {ks : List Chunk} (hfresh : Fresh s.call.as)
    (hpeer : s.peer = promptPeer (k.message :: ks.map Chunk.message)) (hpos : 0 < k.samples)
    (hle : k.samples ≤ txbufSize) :
    ∃ as, readMessage s = (.message smAsKindAudio k.message.payload (2 * k.samples),
      { s with call := { s.call with as := as }, peer := promptPeer (ks.map Chunk.message) }) ∧
        Fresh as := by
  have hlen : k.message.payload.length = 2 * k.samples := List.length_replicate ..
  have hne : k.message.payload ≠ [] := by
    rw [← List.length_pos_iff]
    omega
  have hmax : smAsMaxPayload = 4096 := rfl
  have hsize : txbufSize = 2048 := rfl
  obtain ⟨as, hread, hfresh'⟩ := readMessage_prompt hfresh hpeer hne (by omega)
  rw [hlen] at hread
  exact ⟨as, hread, hfresh'⟩

theorem audioLength_even {n : Nat} (h : n ≤ txbufSize) : audioLength (2 * n) / 2 = n := by
  have hsize : txbufSize = 2048 := rfl
  have heven : ¬ (2 * n) % 2 = 1 := by omega
  have hfits : ¬ 2 * n > txbufSize * 2 := by omega
  simp only [audioLength, if_neg heven, if_neg hfits]
  omega

theorem PlainCall.withSocket {c : SmCall} {modem : V22bisState} (h : PlainCall c modem)
    (as : SmAstSocket) : PlainCall { c with as := as } modem :=
  h.of_fields rfl rfl rfl rfl rfl rfl h.modem h.shutdown

theorem firstChunk_plain {s : CallRun} {m : ModemRun} {k : Chunk} {ks : List Chunk}
    (hstage : s.stage = .firstMessage) (hfresh : Fresh s.call.as)
    (hpeer : s.peer = promptPeer (k.message :: ks.map Chunk.message))
    (h : PlainCall s.call m.modem) (hpos : 0 < k.samples) (hle : k.samples ≤ txbufSize)
    (hretrain : (Transition.run modemOp m k.ops).retrained = false) :
    PlainRun (smCallTurn s (idleTurn k.rx)) ks (Transition.run modemOp m k.ops).modem ∧
      (Heard k.rx → (smCallTurn s (idleTurn k.rx)).call.history.carrierLostInData =
        s.call.history.carrierLostInData) := by
  obtain ⟨as, hread, hfresh'⟩ := Chunk.read hfresh hpeer hpos hle
  have haudio := processAudio_plain (h.withSocket as) k.message.payload hpos
    (idleTurn k.rx).audio hretrain
  have huuid : ¬ (smAsKindAudio = smAsKindUuid ∧ 2 * k.samples ≥ 16) := by
    rintro ⟨hkind, -⟩
    revert hkind
    decide
  have hhalf : 2 * k.samples / 2 = k.samples := by omega
  have hturn : smCallTurn s (idleTurn k.rx) =
      { s with
        call := processAudio { s.call with as := as } k.message.payload k.samples
          (idleTurn k.rx).audio
        peer := promptPeer (ks.map Chunk.message)
        stage := .message } := by
    simp only [smCallTurn, hstage, firstMessage, hread, if_neg huuid, if_true, hhalf]
  rw [hturn]
  exact ⟨⟨rfl, by rwa [(processAudio_frame _ _ _ _).as], rfl, haudio.plain⟩, haudio.carrier⟩

def idleReply (c : SmCall) (k : Chunk) : WriteCall :=
  writeCall smAsKindAudio (audioBytes c k.samples (idleTurn k.rx).value) (idleTurn k.rx).sent

theorem idleReply_code (c : SmCall) {k : Chunk} (hle : k.samples ≤ txbufSize) :
    (idleReply c k).code = 0 := by
  have hlen := audioBytes_length c k.samples (idleTurn k.rx).value
  rw [txbufSize, smAsMaxPayload] at hle
  exact congrArg WriteCall.code (writeCall_prompt (n := 4096) (by omega) (by omega))

structure PlainTurn (s : CallRun) (k : Chunk) (ks : List Chunk) (c : SmCall) : Prop where
  ended : EndOfAudio s (idleTurn k.rx) c
  fresh : Fresh c.as
  turned : smCallTurn s (idleTurn k.rx) =
    { s with
      call := c
      peer := promptPeer (ks.map Chunk.message)
      written := s.written ++ [idleReply c k]
      timeoutCount := 0
      stage := .pump true }

theorem chunk_audio {s : CallRun} {m : ModemRun} {k : Chunk} {ks : List Chunk}
    (h : PlainRun s (k :: ks) m.modem) (hpos : 0 < k.samples) (hle : k.samples ≤ txbufSize)
    (hretrain : (Transition.run modemOp m k.ops).retrained = false) :
    ∃ c, PlainTurn s k ks c ∧ PlainAudio s.call m k.ops k.rx c := by
  obtain ⟨as, hread, hfresh⟩ := Chunk.read h.fresh h.peer hpos hle
  have haudio := processAudio_plain (h.call.withSocket as) k.message.payload hpos
    (idleTurn k.rx).audio hretrain
  have hup : ¬ s.call.phase = .hangup := by
    rcases h.call.phase with hphase | hphase <;> simp [hphase]
  have hended := EndOfAudio.message (t := idleTurn k.rx) h.stage hup (congrArg Prod.fst hread)
  rw [audioLength_even hle, hread] at hended
  refine ⟨_, ⟨hended, by rwa [(processAudio_frame _ _ _ _).as], ?_⟩,
    ⟨haudio.plain, haudio.data, haudio.carrier⟩⟩
  have hreply := idleReply_code
    (processAudio { s.call with as := as } k.message.payload k.samples (idleTurn k.rx).audio) hle
  rw [idleReply] at hreply
  simp only [smCallTurn, h.stage, message, if_neg hup, hread, if_true, audioMessage,
    audioLength_even hle, hreply, lt_irrefl, if_false]
  rfl

theorem chunk_plain {s : CallRun} {m : ModemRun} {k : Chunk} {ks : List Chunk}
    (h : PlainRun s (k :: ks) m.modem) (hpos : 0 < k.samples) (hle : k.samples ≤ txbufSize)
    (hretrain : (Transition.run modemOp m k.ops).retrained = false) :
    PlainRun (Transition.run smCallTurn s k.turns) ks (Transition.run modemOp m k.ops).modem ∧
      (s.call.phase = .data ∨ ModemNormal (Transition.run modemOp m k.ops).modem →
        (Transition.run smCallTurn s k.turns).call.phase = .data) ∧
      (Heard k.rx → (Transition.run smCallTurn s k.turns).call.history.carrierLostInData =
        s.call.history.carrierLostInData) := by
  obtain ⟨c, hturn, haudio⟩ := chunk_audio h hpos hle hretrain
  obtain ⟨hpumped, hphase⟩ := pumpPpp_plain haudio.plain
  have hpump := pumpPpp_frame (c := c) (e := idlePump) fun _ => rfl
  have hturns : Transition.run smCallTurn s k.turns =
      { s with
        call := pumpPpp c idlePump
        peer := promptPeer (ks.map Chunk.message)
        written := s.written ++ [idleReply c k]
        timeoutCount := 0
        stage := .message } := by
    simp only [Chunk.turns, Transition.run_cons, Transition.run_nil, hturn.turned]
    simp [smCallTurn, pump, idleTurn]
  rw [hturns]
  exact ⟨⟨rfl, hpump.as ▸ hturn.fresh, rfl, hpumped⟩,
    fun hor => hphase.trans (haudio.data hor),
    fun hheard => hpump.carrierLostInData.trans (haudio.carrier hheard)⟩

theorem chunks_plain (ks : List Chunk) {s : CallRun} {m : ModemRun} {rest : List Chunk}
    (h : PlainRun s (ks ++ rest) m.modem)
    (hsize : ∀ k ∈ ks, 0 < k.samples ∧ k.samples ≤ txbufSize)
    (hretrain : (Transition.run modemOp m (ks.flatMap Chunk.ops)).retrained = false) :
    PlainRun (Transition.run smCallTurn s (ks.flatMap Chunk.turns)) rest
        (Transition.run modemOp m (ks.flatMap Chunk.ops)).modem ∧
      (s.call.phase = .data ∨
          ks ≠ [] ∧ ModemNormal (Transition.run modemOp m (ks.flatMap Chunk.ops)).modem →
        (Transition.run smCallTurn s (ks.flatMap Chunk.turns)).call.phase = .data) ∧
      ((∀ k ∈ ks, Heard k.rx) →
        (Transition.run smCallTurn s (ks.flatMap Chunk.turns)).call.history.carrierLostInData =
          s.call.history.carrierLostInData) := by
  induction ks generalizing s m with
  | nil => exact ⟨h, by simp, fun _ => rfl⟩
  | cons k ks ih =>
      simp only [List.flatMap_cons, Transition.run_append] at hretrain ⊢
      obtain ⟨hpos, hle⟩ := hsize k (List.mem_cons_self ..)
      obtain ⟨hrun, hdata, hcarrier⟩ := chunk_plain h hpos hle (modemOps_retrained hretrain)
      obtain ⟨hrest, hkept, hcarrier'⟩ :=
        ih hrun (fun j hj => hsize j (List.mem_cons_of_mem _ hj)) hretrain
      refine ⟨hrest, ?_, ?_⟩
      · rintro (hphase | ⟨-, hnormal⟩)
        · exact hkept (.inl (hdata (.inl hphase)))
        · rcases eq_or_ne ks [] with rfl | hne
          · exact hdata (.inr hnormal)
          · exact hkept (.inr ⟨hne, hnormal⟩)
      · intro hheard
        have hhead := hcarrier (hheard k (List.mem_cons_self ..))
        exact (hcarrier' fun j hj => hheard j (List.mem_cons_of_mem _ hj)).trans hhead

end Softmodem.Call
