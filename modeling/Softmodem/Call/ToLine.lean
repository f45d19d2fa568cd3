import Softmodem.Call.Run
import Softmodem.Call.Steps

namespace Softmodem.Call

open AudioSocket Serial V22bis

def pppGot (c : SmCall) (e : PumpEnv) : List UInt8 :=
  if PppFdOpen c e then (e.read.getD []).take 256 else []

structure QueueInv (c : SmCall) : Prop where
  echo : c.cfg.echoData = false
  wellFormed : c.txbits.WellFormed
  conserved : c.history.popped ++ c.txbits.contents = c.history.framed.flatMap frame

theorem QueueInv.of_fields {c c' : SmCall} (h : QueueInv c) (hcfg : c'.cfg = c.cfg)
    (htxbits : c'.txbits = c.txbits) (hpopped : c'.history.popped = c.history.popped)
    (hframed : c'.history.framed = c.history.framed) : QueueInv c' :=
  ⟨hcfg ▸ h.echo, htxbits ▸ h.wellFormed, by rw [htxbits, hpopped, hframed]; exact h.conserved⟩

theorem callGetBit_queue {c : SmCall} (h : QueueInv c) : QueueInv (callGetBit c).2 := by
  refine ⟨h.echo, callGetBit_wellFormed h.wellFormed, ?_⟩
  rw [← show c.history.framed = (callGetBit c).2.history.framed from rfl, ← h.conserved]
  cases hc : c.txbits.contents with
  | nil => simp [callGetBit, hc, callGetBit_empty hc]
  | cons bit rest => simp [callGetBit, hc, callGetBit_contents hc]

theorem engineStep_queue {n : Nat} {c c' : SmCall} (h : EngineStep n c c') (hc : QueueInv c) :
    QueueInv c' := by
  cases h with
  | bookkeeping h =>
      exact hc.of_fields (congrArg (·.cfg) h) (congrArg (·.txbits) h)
        (congrArg (·.history.popped) h) (congrArg (·.history.framed) h)
  | getBit => exact callGetBit_queue hc
  | putBit bit v34Rate _ =>
      have hframe := callPutBit_frame c bit v34Rate
      exact hc.of_fields hframe.cfg hframe.txbits hframe.popped
        (callPutBit_audioFrame c bit v34Rate).framed
  | status st =>
      have hframe := callStatus_frame c st
      exact hc.of_fields hframe.cfg hframe.txbits hframe.popped (callStatus_audioFrame c st).framed
  | modemRx o =>
      have hframe := rxOuts_frame (v22bisRxSample c.modem o).2 (receiveSample c o)
      have hframed := rxOuts_audioFrame (v22bisRxSample c.modem o).2 (receiveSample c o)
      exact hc.of_fields hframe.cfg hframe.txbits hframe.popped hframed.framed
  | _ => exact hc.of_fields rfl rfl rfl rfl

theorem audioStep_queue {n : Nat} {c c' : SmCall} (h : AudioStep n c c') (hc : QueueInv c) :
    QueueInv c' := by
  cases h with
  | engine h => exact engineStep_queue h hc
  | _ => exact hc.of_fields rfl rfl rfl rfl

theorem processAudio_queue {c : SmCall} (payload : List UInt8) (n : Nat) (e : AudioEnv)
    (h : QueueInv c) : QueueInv (processAudio c payload n e) := by
  obtain ⟨c', hsteps, heq⟩ := processAudio_steps c payload n e
  have hkept : QueueInv c' :=
    hsteps.invariant (fun _ _ hstep hc => audioStep_queue hstep hc)
      (h.of_fields rfl rfl rfl rfl : QueueInv (audioStart c))
  rw [heq]
  exact hkept.of_fields rfl rfl rfl rfl

structure Framed (c c' : SmCall) (got bytes : List UInt8) : Prop where
  cfg : c'.cfg = c.cfg
  wellFormed : c'.txbits.WellFormed
  contents : c'.txbits.contents = c.txbits.contents ++ bytes.flatMap frame
  popped : c'.history.popped = c.history.popped
  framed : c'.history.framed = c.history.framed ++ bytes
  pppRead : c'.history.pppRead = c.history.pppRead ++ got

theorem Framed.refl {c c' : SmCall} (hwf : c.txbits.WellFormed) (hcfg : c'.cfg = c.cfg)
    (htxbits : c'.txbits = c.txbits) (hpopped : c'.history.popped = c.history.popped)
    (hframed : c'.history.framed = c.history.framed)
    (hread : c'.history.pppRead = c.history.pppRead) : Framed c c' [] [] :=
  ⟨hcfg, htxbits ▸ hwf, by simp [htxbits], hpopped, by simp [hframed], by simp [hread]⟩

theorem Framed.trans {a b c : SmCall} {got got' bytes bytes' : List UInt8}
    (h : Framed a b got bytes) (h' : Framed b c got' bytes') :
    Framed a c (got ++ got') (bytes ++ bytes') :=
  ⟨h'.cfg.trans h.cfg, h'.wellFormed, by simp [h'.contents, h.contents],
    h'.popped.trans h.popped, by simp [h'.framed, h.framed], by simp [h'.pppRead, h.pppRead]⟩

theorem Framed.queue {c c' : SmCall} {got bytes : List UInt8} (h : Framed c c' got bytes)
    (hc : QueueInv c) : QueueInv c' := by
  refine ⟨h.cfg ▸ hc.echo, h.wellFormed, ?_⟩
  rw [h.popped, h.contents, h.framed, ← List.append_assoc, hc.conserved, List.flatMap_append]

theorem pushByte_room {c : SmCall} (byte : UInt8) (hwf : c.txbits.WellFormed)
    (hroom : smBitqCount c.txbits + 10 ≤ smBitqSize) :
    Framed c (pushByte c byte).1 [] [byte] ∧ (pushByte c byte).2 = 0 := by
  obtain ⟨hcontents, hrc⟩ := smBitqPushByte_contents byte hwf hroom
  refine ⟨⟨rfl, smBitqPushByte_wellFormed byte hwf, ?_, rfl, ?_, ?_⟩, hrc⟩
  · simpa [pushByte] using hcontents
  · simp [pushByte, hrc]
  · simp [pushByte]

theorem pushByte_full {c : SmCall} (byte : UInt8) (hwf : c.txbits.WellFormed)
    (hfull : ¬ smBitqCount c.txbits + 10 ≤ smBitqSize) :
    Framed c (pushByte c byte).1 [] [] ∧ (pushByte c byte).2 = -1 := by
  have hpush := smBitqPushByte_full byte hwf hfull
  refine ⟨.refl hwf rfl ?_ rfl ?_ rfl, ?_⟩
  · simp [pushByte, hpush]
  · simp [pushByte, hpush]
  · simp [pushByte, hpush]

theorem frames_length (bytes : List UInt8) : (bytes.flatMap frame).length = 10 * bytes.length := by
  simp [List.length_flatMap, mul_comm]

theorem Framed.count {c c' : SmCall} {got bytes : List UInt8} (h : Framed c c' got bytes) :
    smBitqCount c'.txbits = smBitqCount c.txbits + 10 * bytes.length := by
  have hlen := congrArg List.length h.contents
  rwa [List.length_append, frames_length, SmBitq.contents_length, SmBitq.contents_length] at hlen

theorem pushRead_framed (bytes : List UInt8) {c : SmCall} (hwf : c.txbits.WellFormed) :
    ∃ k ≤ bytes.length, Framed c (pushRead c bytes).1 [] (bytes.take k) ∧
      (k = bytes.length ↔ smBitqCount c.txbits + 10 * bytes.length ≤ smBitqSize) := by
  induction bytes generalizing c with
  | nil =>
      have hcount : smBitqCount c.txbits ≤ smBitqSize := hwf
      exact ⟨0, le_rfl, .refl hwf rfl rfl rfl rfl rfl, by simpa using hcount⟩
  | cons byte bytes ih =>
      simp only [pushRead]
      rcases Nat.lt_or_ge smBitqSize (smBitqCount c.txbits + 10) with hfull | hroom
      · obtain ⟨hframed, hrc⟩ := pushByte_full byte hwf (by omega)
        have hneg : (pushByte c byte).2 < 0 := by omega
        rw [if_pos hneg]
        refine ⟨0, Nat.zero_le _, hframed, ?_⟩
        simp only [List.length_cons]
        omega
      · obtain ⟨hframed, hrc⟩ := pushByte_room byte hwf hroom
        have hpos : ¬ (pushByte c byte).2 < 0 := by omega
        obtain ⟨k, hk, hrest, hiff⟩ := ih hframed.wellFormed
        have hcount := hframed.count
        rw [if_neg hpos]
        refine ⟨k + 1, by simpa using hk, hframed.trans hrest, ?_⟩
        simp only [List.length_cons, List.length_nil] at hcount ⊢
        omega

def Throttled (c c' : SmCall) (got : List UInt8) : Prop :=
  ∃ k ≤ got.length, Framed c c' got (got.take k) ∧
    (k = got.length ↔ smBitqCount c.txbits + 10 * got.length ≤ smBitqSize)

theorem Throttled.quiet {c c' : SmCall} (hwf : c.txbits.WellFormed) (hcfg : c'.cfg = c.cfg)
    (htxbits : c'.txbits = c.txbits) (hpopped : c'.history.popped = c.history.popped)
    (hframed : c'.history.framed = c.history.framed)
    (hread : c'.history.pppRead = c.history.pppRead) : Throttled c c' [] := by
  have hcount : smBitqCount c.txbits ≤ smBitqSize := hwf
  exact ⟨0, le_rfl, .refl hwf hcfg htxbits hpopped hframed hread, by simpa using hcount⟩

theorem pumpTransmit_throttled {c : SmCall} (e : PumpEnv) (hwf : c.txbits.WellFormed) :
    Throttled c (pumpTransmit c e) (if c.pppFd then (e.read.getD []).take 256 else []) := by
  unfold pumpTransmit
  split
  · cases e.read with
    | none => exact .quiet hwf rfl rfl rfl rfl rfl
    | some bytes =>
        simp only [Option.getD_some]
        rcases eq_or_ne (bytes.take 256) [] with hnil | hne
        · rw [hnil, if_pos rfl]
          exact .quiet hwf rfl rfl rfl rfl rfl
        · rw [if_neg hne]
          have hnoted : Framed c (noteRead c (bytes.take 256)) (bytes.take 256) [] :=
            ⟨rfl, hwf, by simp [noteRead], rfl, by simp [noteRead], rfl⟩
          obtain ⟨k, hk, hframed, hiff⟩ := pushRead_framed (bytes.take 256) hnoted.wellFormed
          have hall := hnoted.trans hframed
          simp only [List.append_nil, List.nil_append] at hall
          exact ⟨k, hk, ⟨hall.cfg, hall.wellFormed, hall.contents, hall.popped, hall.framed,
            hall.pppRead⟩, hiff⟩
  · exact .quiet hwf rfl rfl rfl rfl rfl

theorem pumpBytes_throttled {c : SmCall} (e : PumpEnv) (hecho : c.cfg.echoData = false)
    (hwf : c.txbits.WellFormed) :
    Throttled c (pumpBytes c e) (if c.pppFd then (e.read.getD []).take 256 else []) := by
  unfold pumpBytes
  split
  · have hrelay := relay_frame c e.writes
    obtain ⟨k, hk, hframed, hiff⟩ :=
      pumpTransmit_throttled (c := relay c e.writes) e (hrelay.txbits ▸ hwf)
    rw [pumpReceive_relay e hecho]
    rw [hrelay.pppFd] at hk hframed hiff
    rw [hrelay.txbits] at hiff
    refine ⟨k, hk, ⟨hframed.cfg.trans hrelay.cfg, hframed.wellFormed, ?_, ?_, ?_, ?_⟩, hiff⟩
    · rw [hframed.contents, hrelay.txbits]
    · rw [hframed.popped, hrelay.popped]
    · rw [hframed.framed, hrelay.framed]
    · rw [hframed.pppRead, hrelay.pppRead]
  · exact pumpTransmit_throttled e hwf

theorem pumpPpp_throttled {c : SmCall} (e : PumpEnv) (h : QueueInv c) :
    Throttled c (pumpPpp c e) (pppGot c e) := by
  have hwf := h.wellFormed
  by_cases hneeds : needsPppd c
  · rcases Bool.eq_false_or_eq_true e.spawned with hspawned | hspawned
    · have hgot : pppGot c e = (e.read.getD []).take 256 := by
        simp [pppGot, PppFdOpen, hneeds, hspawned]
      rw [hgot, pumpPpp_spawned hneeds hspawned]
      obtain ⟨k, hk, hframed, hiff⟩ := pumpBytes_throttled (c := (startPppd c true).1) e h.echo hwf
      exact ⟨k, hk, ⟨hframed.cfg, hframed.wellFormed, hframed.contents, hframed.popped,
        hframed.framed, hframed.pppRead⟩, hiff⟩
    · have hgot : pppGot c e = [] := by simp [pppGot, PppFdOpen, hneeds, hspawned]
      rw [hgot, pumpPpp_unspawned hneeds hspawned]
      exact .quiet hwf rfl rfl rfl rfl rfl
  · have hgot : pppGot c e = if c.pppFd then (e.read.getD []).take 256 else [] := by
      simp [pppGot, PppFdOpen, hneeds]
    by_cases hidle : c.phase ≠ .data ∧ c.pppFd = false ∧ c.cfg.echoData = false
    · rw [hgot, pumpPpp, if_pos hidle, hidle.2.1]
      exact .quiet hwf rfl rfl rfl rfl rfl
    · rw [hgot, pumpPpp_running e hneeds hidle]
      exact pumpBytes_throttled e h.echo hwf

def QueueHasRoom (s : CallRun) (t : Turn) : Prop :=
  ∀ checkPppd, s.stage = .pump checkPppd →
    smBitqCount s.call.txbits + 10 * (pppGot s.call t.pump).length ≤ smBitqSize

instance (s : CallRun) (t : Turn) : Decidable (QueueHasRoom s t) :=
  inferInstanceAs (Decidable (∀ _ : Bool, _ → _))

def Lossless (c : SmCall) : Prop := c.history.framed = c.history.pppRead

def Short (c : SmCall) : Prop := c.history.framed.length < c.history.pppRead.length

theorem turn_call (s : CallRun) (t : Turn) :
    ∃ c, TurnEffect s t c ∧ (smCallTurn s t).call.history = c.history ∧
      (smCallTurn s t).call.txbits = c.txbits ∧ (smCallTurn s t).call.cfg = c.cfg := by
  obtain ⟨stages, c, heffect, ⟨hcall, -⟩ | ⟨hcall, -⟩⟩ := smCallTurn_turned s t
  · exact ⟨c, heffect, by rw [hcall], by rw [hcall], by rw [hcall]⟩
  · exact ⟨c, heffect, by rw [hcall]; rfl, by rw [hcall]; rfl, by rw [hcall]; rfl⟩

theorem turnEffect_queue {s : CallRun} {t : Turn} {c : SmCall} (h : TurnEffect s t c)
    (hs : QueueInv s.call) : QueueInv c := by
  cases h with
  | read as _ => exact hs.of_fields rfl rfl rfl rfl
  | firstAudio as _ _ => exact processAudio_queue _ _ t.audio (hs.of_fields rfl rfl rfl rfl)
  | audio as _ _ _ => exact processAudio_queue _ _ t.audio (hs.of_fields rfl rfl rfl rfl)
  | pumped hstage =>
      obtain ⟨k, -, hframed, -⟩ := pumpPpp_throttled t.pump hs
      exact hframed.queue hs

theorem turnEffect_quiet {s : CallRun} {t : Turn} {c : SmCall} (h : TurnEffect s t c)
    (hquiet : ∀ checkPppd, s.stage ≠ .pump checkPppd) :
    c.history.framed = s.call.history.framed ∧ c.history.pppRead = s.call.history.pppRead := by
  cases h with
  | read as _ => exact ⟨rfl, rfl⟩
  | firstAudio as _ _ =>
      exact ⟨(processAudio_frame _ _ _ t.audio).framed, (processAudio_frame _ _ _ t.audio).pppRead⟩
  | audio as _ _ _ =>
      exact ⟨(processAudio_frame _ _ _ t.audio).framed, (processAudio_frame _ _ _ t.audio).pppRead⟩
  | pumped hstage => exact absurd hstage (hquiet _)

theorem turnEffect_pumped {s : CallRun} {t : Turn} {c : SmCall} {checkPppd : Bool}
    (h : TurnEffect s t c) (hstage : s.stage = .pump checkPppd) : c = pumpPpp s.call t.pump := by
  cases h with
  | read as hpump => exact absurd hstage (hpump _)
  | firstAudio as h _ => simp [h] at hstage
  | audio as h _ _ => simp [h] at hstage
  | pumped _ => rfl

theorem turn_queue {s : CallRun} (t : Turn) (hs : QueueInv s.call) :
    QueueInv (smCallTurn s t).call := by
  obtain ⟨c, heffect, hhistory, htxbits, hcfg⟩ := turn_call s t
  exact (turnEffect_queue heffect hs).of_fields hcfg htxbits (by rw [hhistory]) (by rw [hhistory])

theorem turn_quiet {s : CallRun} (t : Turn) (hquiet : ∀ checkPppd, s.stage ≠ .pump checkPppd) :
    (smCallTurn s t).call.history.framed = s.call.history.framed ∧
      (smCallTurn s t).call.history.pppRead = s.call.history.pppRead := by
  obtain ⟨c, heffect, hhistory, -⟩ := turn_call s t
  rw [hhistory]
  exact turnEffect_quiet heffect hquiet

theorem turn_pumped {s : CallRun} {t : Turn} {checkPppd : Bool} (hstage : s.stage = .pump checkPppd)
    (hs : QueueInv s.call) :
    ∃ k ≤ (pppGot s.call t.pump).length,
      (smCallTurn s t).call.history.framed =
        s.call.history.framed ++ (pppGot s.call t.pump).take k ∧
      (smCallTurn s t).call.history.pppRead =
        s.call.history.pppRead ++ pppGot s.call t.pump ∧
      (k = (pppGot s.call t.pump).length ↔
        smBitqCount s.call.txbits + 10 * (pppGot s.call t.pump).length ≤ smBitqSize) := by
  obtain ⟨c, heffect, hhistory, -⟩ := turn_call s t
  obtain ⟨k, hk, hframed, hiff⟩ := pumpPpp_throttled t.pump hs
  rw [hhistory, turnEffect_pumped heffect hstage]
  exact ⟨k, hk, hframed.framed, hframed.pppRead, hiff⟩

theorem turn_lossless {s : CallRun} {t : Turn} (hs : QueueInv s.call) (h : Lossless s.call)
    (hroom : QueueHasRoom s t) : Lossless (smCallTurn s t).call := by
  by_cases hpump : ∃ checkPppd, s.stage = .pump checkPppd
  · obtain ⟨checkPppd, hstage⟩ := hpump
    obtain ⟨k, -, hframed, hread, hiff⟩ := turn_pumped (t := t) hstage hs
    rw [Lossless, hframed, hread, h, hiff.mpr (hroom checkPppd hstage), List.take_length]
  · obtain ⟨hframed, hread⟩ := turn_quiet t (not_exists.mp hpump)
    rw [Lossless, hframed, hread, h]

theorem turn_short {s : CallRun} {t : Turn} (hs : QueueInv s.call)
    (h : s.call.history.framed.length ≤ s.call.history.pppRead.length)
    (hlate : Short s.call ∨ ¬ QueueHasRoom s t) : Short (smCallTurn s t).call := by
  by_cases hpump : ∃ checkPppd, s.stage = .pump checkPppd
  · obtain ⟨checkPppd, hstage⟩ := hpump
    obtain ⟨k, hk, hframed, hread, hiff⟩ := turn_pumped (t := t) hstage hs
    rw [Short, hframed, hread]
    simp only [List.length_append, List.length_take, min_eq_left hk]
    rcases hlate with hshort | hfull
    · have hlt : s.call.history.framed.length < s.call.history.pppRead.length := hshort
      omega
    · have hne : k ≠ (pppGot s.call t.pump).length := by
        intro heq
        exact hfull fun _ _ => hiff.mp heq
      omega
  · obtain ⟨hframed, hread⟩ := turn_quiet t (not_exists.mp hpump)
    rcases hlate with hshort | hfull
    · rw [Short, hframed, hread]
      exact hshort
    · exact absurd (fun checkPppd hstage => absurd ⟨checkPppd, hstage⟩ hpump) hfull

theorem start_queue {cfg : SmCallConfig} (hecho : cfg.echoData = false) (r : InitResults)
    (peer : Peer) :
    QueueInv (smCallStart (smCallInit cfg r) peer).call ∧
      Lossless (smCallStart (smCallInit cfg r) peer).call := by
  have hinit : QueueInv (smCallZero cfg) := ⟨hecho, smBitqInit_wellFormed, by simp [smCallZero, callHistoryInit]⟩
  simp only [smCallStart, smCallInit, startAnswer]
  split_ifs <;> exact ⟨hinit.of_fields rfl rfl rfl rfl, rfl⟩

theorem pppd_to_line_lossless_iff_room (cfg : SmCallConfig) (r : InitResults) (peer : Peer)
    (turns : List Turn) (hecho : cfg.echoData = false) :
    (Lossless (smCallRun cfg r peer turns).call ∧
        (smCallRun cfg r peer turns).call.history.popped ++
            (smCallRun cfg r peer turns).call.txbits.contents =
          (smCallRun cfg r peer turns).call.history.framed.flatMap frame) ↔
      Transition.Along smCallTurn QueueHasRoom (smCallStart (smCallInit cfg r) peer) turns := by
  obtain ⟨hqueue, hlossless⟩ := start_queue hecho r peer
  have hiff := Transition.along_iff
    (P := fun (s : CallRun) => QueueInv s.call ∧ Lossless s.call)
    (B := fun (s : CallRun) => QueueInv s.call ∧ Short s.call)
    (G := QueueHasRoom)
    (fun s t h hroom => ⟨turn_queue t h.1, turn_lossless h.1 h.2 hroom⟩)
    (fun s t h hfull => ⟨turn_queue t h.1, turn_short h.1 (le_of_eq (congrArg _ h.2)) (.inr hfull)⟩)
    (fun s t h => ⟨turn_queue t h.1, turn_short h.1 (le_of_lt h.2) (.inl h.2)⟩)
    (fun s hshort h => absurd (congrArg List.length h.2) (ne_of_lt hshort.2))
    turns ⟨hqueue, hlossless⟩
  have hkept : QueueInv (smCallRun cfg r peer turns).call :=
    Transition.run_invariant (P := fun (s : CallRun) => QueueInv s.call) (fun _ t => turn_queue t) turns hqueue
  constructor
  · rintro ⟨hall, -⟩
    exact hiff.mp ⟨hkept, hall⟩
  · intro hroom
    exact ⟨(hiff.mpr hroom).2, hkept.conserved⟩

def fullRead : List UInt8 := List.replicate 256 0x7e

def greedyTurn : Turn :=
  { audio :=
      { bm := ⟨.connected, 2400, true⟩, engine := [], v8Sent := 0, v8Reports := []
        v34Created := false, rx := fun _ => ⟨.between, true, 0⟩ }
    value := fun _ => (0, 0)
    sent := [.sent 3, .sent 4096]
    pump := { spawned := true, writes := [], read := some fullRead }
    pppdExited := false }

def digit : Message := ⟨smAsKindDtmf, [0x31]⟩

def digitsPeer (k : Nat) : Peer := promptPeer (oneSample :: List.replicate k digit)

def digitTurns (k : Nat) : List Turn := (List.replicate k [greedyTurn, greedyTurn]).flatten

theorem pppd_to_line_lossless_after_one_digit :
    Lossless (smCallRun bmConfig plainInit (digitsPeer 1) (greedyTurn :: digitTurns 1)).call := by
  have hroom : Transition.Along smCallTurn QueueHasRoom
      (smCallStart (smCallInit bmConfig plainInit) (digitsPeer 1)) (greedyTurn :: digitTurns 1) := by
    decide +kernel
  exact ((pppd_to_line_lossless_iff_room bmConfig plainInit (digitsPeer 1)
    (greedyTurn :: digitTurns 1) rfl).mpr hroom).1

structure Reading (s : CallRun) (left done : Nat) : Prop where
  queue : QueueInv s.call
  stage : s.stage = .message
  fresh : Fresh s.call.as
  peer : s.peer = promptPeer (List.replicate left digit)
  phase : s.call.phase = .data
  enablePpp : s.call.cfg.enablePpp = true
  pppd : s.call.pppFd = true ∨ s.call.pppStarted = false
  popped : s.call.history.popped = []
  pppRead : s.call.history.pppRead.length = 256 * done

theorem pumpPpp_reading {c : SmCall} (hecho : c.cfg.echoData = false) (hphase : c.phase = .data)
    (hppp : c.cfg.enablePpp = true) (hpppd : c.pppFd = true ∨ c.pppStarted = false) :
    PppFdOpen c greedyTurn.pump ∧ (pumpPpp c greedyTurn.pump).pppFd = true := by
  have hread : greedyTurn.pump.read ≠ some [] := by decide
  have hopen (d : SmCall) (hfd : d.pppFd = true) (hdata : d.phase = .data)
      (hdecho : d.cfg.echoData = false) : (pumpBytes d greedyTurn.pump).pppFd = true := by
    rw [pumpBytes, if_pos hdata, pumpReceive_relay greedyTurn.pump hdecho, pumpTransmit_pppFd hread,
      (relay_frame d _).pppFd, hfd]
  by_cases hneeds : needsPppd c
  · refine ⟨by rw [PppFdOpen, if_pos hneeds]; rfl, ?_⟩
    rw [pumpPpp_spawned hneeds rfl]
    exact hopen _ rfl hphase hecho
  · have hfd : c.pppFd = true := by
      rcases hpppd with hfd | hstarted
      · exact hfd
      · exact absurd ⟨hphase, hecho, hppp, hstarted⟩ hneeds
    refine ⟨by simpa [PppFdOpen, hneeds] using hfd, ?_⟩
    rw [pumpPpp_running _ hneeds (by simp [hphase])]
    exact hopen c hfd hphase hecho

theorem reading_digit {s : CallRun} {left done : Nat} (h : Reading s (left + 1) done) :
    Reading (Transition.run smCallTurn s [greedyTurn, greedyTurn]) left (done + 1) := by
  obtain ⟨as, hread, hfresh⟩ := readMessage_prompt h.fresh
    (h.peer.trans (by rw [List.replicate_succ])) (by decide) (by decide)
  have hup : ¬ s.call.phase = .hangup := by simp [h.phase]
  have hturn : smCallTurn s greedyTurn =
      { s with
        call := { s.call with as := as }
        peer := promptPeer (List.replicate left digit)
        timeoutCount := 0
        stage := .pump true } := by
    simp only [smCallTurn, h.stage, message, if_neg hup, hread]
    simp [digit, smAsKindDtmf, smAsKindAudio, smAsKindHangup, smAsKindError]
  have hqueue : QueueInv { s.call with as := as } := h.queue.of_fields rfl rfl rfl rfl
  obtain ⟨hopen, hfd⟩ := pumpPpp_reading (c := { s.call with as := as }) hqueue.echo h.phase
    h.enablePpp h.pppd
  have hframe := pumpPpp_frame (c := { s.call with as := as }) (e := greedyTurn.pump) fun _ => rfl
  obtain ⟨k, -, hframed, -⟩ := pumpPpp_throttled (c := { s.call with as := as }) greedyTurn.pump hqueue
  have hgot : (pppGot { s.call with as := as } greedyTurn.pump).length = 256 := by
    have hfull : greedyTurn.pump.read.getD [] = fullRead := rfl
    rw [pppGot, if_pos hopen, hfull, fullRead, List.length_take, List.length_replicate, min_self]
  have hturns : Transition.run smCallTurn s [greedyTurn, greedyTurn] =
      { s with
        call := pumpPpp { s.call with as := as } greedyTurn.pump
        peer := promptPeer (List.replicate left digit)
        timeoutCount := 0
        stage := .message } := by
    have hstays : greedyTurn.pppdExited = false := rfl
    simp only [Transition.run_cons, Transition.run_nil, hturn]
    simp [smCallTurn, pump, hstays]
  rw [hturns]
  refine ⟨hframed.queue hqueue, rfl, hframe.as ▸ hfresh, rfl, hframe.phase.trans h.phase, ?_,
    .inl hfd, hframe.popped.trans h.popped, ?_⟩
  · rw [hframe.cfg]
    exact h.enablePpp
  · rw [hframed.pppRead, List.length_append, hgot, h.pppRead]
    omega

theorem reading_digits (left : Nat) {s : CallRun} {done : Nat} (h : Reading s left done) :
    Reading (Transition.run smCallTurn s (digitTurns left)) 0 (done + left) := by
  induction left generalizing s done with
  | zero => exact h
  | succ left ih =>
      have hrest := ih (reading_digit h)
      rw [digitTurns, List.replicate_succ, List.flatten_cons, Transition.run_append,
        Nat.add_comm left 1, ← Nat.add_assoc]
      exact hrest

theorem reading_start (k : Nat) :
    Reading (smCallTurn (smCallStart (smCallInit bmConfig plainInit) (digitsPeer k)) greedyTurn)
      k 0 := by
  obtain ⟨as, hread, hfresh⟩ := readMessage_prompt
    (s := smCallStart (smCallInit bmConfig plainInit) (digitsPeer k)) (m := oneSample) fresh_init rfl
    (by decide) (by decide)
  have hqueue := turn_queue greedyTurn
    (start_queue (show bmConfig.echoData = false from rfl) plainInit (digitsPeer k)).1
  have hturn : smCallTurn (smCallStart (smCallInit bmConfig plainInit) (digitsPeer k)) greedyTurn =
      { call := processAudio { smCallInit bmConfig plainInit with as := as } [0, 0] 1
          greedyTurn.audio
        peer := promptPeer (List.replicate k digit)
        written := []
        timeoutCount := 0
        stage := .message } := by
    simp only [smCallTurn, smCallStart, firstMessage] at hread ⊢
    rw [hread]
    rfl
  rw [hturn] at hqueue ⊢
  have hframe := processAudio_frame { smCallInit bmConfig plainInit with as := as } [0, 0] 1
    greedyTurn.audio
  exact ⟨hqueue, rfl, hframe.as ▸ hfresh, rfl, rfl, rfl, .inr rfl, rfl, rfl⟩

theorem twenty_six_full_reads_overflow_the_queue :
    ¬ Lossless (smCallRun bmConfig plainInit (digitsPeer 26) (greedyTurn :: digitTurns 26)).call := by
  intro hlossless
  have hend := reading_digits 26 (reading_start 26)
  rw [smCallRun, Transition.run_cons] at hlossless
  generalize Transition.run smCallTurn _ (digitTurns 26) = s at hend hlossless
  have hfits : smBitqCount s.call.txbits ≤ smBitqSize := hend.queue.wellFormed
  have hconserved := congrArg List.length hend.queue.conserved
  rw [hend.popped, hlossless, List.nil_append, SmBitq.contents_length, frames_length, hend.pppRead]
    at hconserved
  rw [hconserved] at hfits
  revert hfits
  decide

end Softmodem.Call
