import Softmodem.Call.Line

namespace Softmodem.Call

open AudioSocket Serial V22bis

def PlainAnswer (cfg : SmCallConfig) (r : InitResults) : Prop :=
  ¬ (cfg.useBinmodem = true ∧ r.bmCreated = true) ∧ ¬ (cfg.useV8 = true ∧ r.v8Created = true) ∧
    (cfg.answerToneMs > 0 ∨ cfg.preToneSilenceMs > 0)

def answerSample (pre tone k : Nat) : Pcm :=
  if k < pre then .silence else if k < pre + tone then .tone (k - pre) else .v22 (k - (pre + tone))

def guarded (g base k : Nat) : RxInput := if k < g then .zero else .sample (base + k)

-- What the replies carried since the state `s`: one sample for each sample of the caller.
structure Outputs (s : CallRun) (sample : Nat → Pcm) (l : Line) : Prop where
  bytes : repliedBytes l.run = repliedBytes s ++ l.sent.flatMap sampleBytes
  sent : l.sent.map Prod.fst = (List.range l.samples).map sample

structure AnswerOnLine (s : CallRun) (pre tone : Nat) (l : Line) : Prop where
  output : Outputs s (answerSample pre tone) l
  heard : l.heard = ((List.range l.samples).drop (pre + tone)).map .sample

structure V22OnLine (s : CallRun) (first : Nat) (l : Line) : Prop where
  output : Outputs s (fun k => .v22 (first + k)) l
  heard : l.heard = (List.range l.samples).map (guarded 4000 0)

-- Nothing is played to the caller before the message that names the call.
def NoEarlyAudio (s : CallRun) (_ : Turn) : Prop :=
  s.stage = .firstMessage → ∀ a, audioOf s = some a → a.samples = 0

def V8HandsOver (s : CallRun) (t : Turn) : Prop :=
  ∃ a, audioOf s = some a ∧ s.call.bm = false ∧ s.call.phase = .v8 ∧
    (a.after t.audio).phase ≠ .v8 ∧ (a.after t.audio).mode = .v22

def BmHandsOver (s : CallRun) (t : Turn) : Prop :=
  ∃ a, audioOf s = some a ∧ s.call.bm = true ∧ (a.after t.audio).bm = false

instance (cfg : SmCallConfig) (r : InitResults) : Decidable (PlainAnswer cfg r) :=
  inferInstanceAs (Decidable (_ ∧ _ ∧ (_ ∨ _)))

instance (s : CallRun) (t : Turn) : Decidable (NoEarlyAudio s t) :=
  inferInstanceAs (Decidable (s.stage = .firstMessage → ∀ a ∈ audioOf s, a.samples = 0))

instance (s : CallRun) (t : Turn) : Decidable (V8HandsOver s t) :=
  inferInstanceAs (Decidable (∃ a ∈ audioOf s, s.call.bm = false ∧ s.call.phase = .v8 ∧
    (a.after t.audio).phase ≠ .v8 ∧ (a.after t.audio).mode = .v22))

instance (s : CallRun) (t : Turn) : Decidable (BmHandsOver s t) :=
  inferInstanceAs (Decidable (∃ a ∈ audioOf s, s.call.bm = true ∧ (a.after t.audio).bm = false))

structure InV22 (g k : Nat) (c : SmCall) : Prop where
  mode : c.mode = .v22
  bm : c.bm = false
  rxGuard : c.rxGuard = g
  shutdown : c.modem.tx.shutdown = 0
  sounded : c.history.sounded = k
  engine : OnEngine c

theorem InV22.frame {g k : Nat} {c c' : SmCall} (h : InV22 g k c) (hf : LineFrame c c') :
    InV22 g k c' :=
  ⟨hf.mode.trans h.mode, hf.bm.trans h.bm, hf.rxGuard.trans h.rxGuard,
    hf.shutdown.trans h.shutdown, hf.sounded.trans h.sounded, hf.onEngine h.engine⟩

def overwrite (i m : Nat) (sample : Nat → Pcm) (buffer : Nat → Pcm) (j : Nat) : Pcm :=
  if i ≤ j ∧ j < i + m then sample (j - i) else buffer j

theorem overwrite_zero (i : Nat) (sample buffer : Nat → Pcm) :
    overwrite i 0 sample buffer = buffer := by
  funext j
  unfold overwrite
  rw [if_neg (by omega)]

theorem overwrite_add (i m m' : Nat) (sample buffer : Nat → Pcm) :
    overwrite (i + m) m' (fun j => sample (m + j)) (overwrite i m sample buffer) =
      overwrite i (m + m') sample buffer := by
  funext j
  unfold overwrite
  have hindex : i + m ≤ j → m + (j - (i + m)) = j - i := by omega
  split_ifs with hlast hall hfirst hall hall
  · exact congrArg sample (hindex hlast.1)
  · omega
  · rfl
  · omega
  · omega
  · rfl

theorem guarded_range (g base m : Nat) :
    List.replicate (min m g) .zero ++
        (List.range (m - min m g)).map (fun k => .sample (base + min m g + k)) =
      (List.range m).map (guarded g base) := by
  obtain ⟨rest, hm⟩ : ∃ rest, m = min m g + rest := ⟨m - min m g, by omega⟩
  have hrest : m - min m g = rest := by omega
  rw [hrest]
  conv_rhs => rw [hm]
  rw [List.range_add, List.map_append, List.map_map]
  congr 1
  · refine List.ext_getElem (by simp) ?_
    intro k hk hk'
    have hlt : k < g := by
      rw [List.length_replicate] at hk
      omega
    simp [guarded, hlt]
  · apply List.map_congr_left
    intro k hk
    have hlt := List.mem_range.mp hk
    simp only [Function.comp_apply, guarded]
    rw [if_neg (by omega), Nat.add_assoc]

theorem guarded_later (g base : Nat) : guarded (g - base) base = guarded g 0 ∘ (base + ·) := by
  funext j
  simp only [Function.comp_apply, guarded, Nat.zero_add]
  congr 1
  rw [eq_iff_iff]
  omega

section Engine

variable {g k : Nat} {c : SmCall}

theorem modemTx_inV22 (h : InV22 g k c) (i m : Nat) :
    InV22 g (k + m) (modemTx c i m) ∧
      (modemTx c i m).txbuf = overwrite i m (fun j => .v22 (k + j)) c.txbuf := by
  have hf := modemTx_line h.shutdown i m
  have hsounded : InV22 g (k + m) (soundFrom c i m .v22) :=
    ⟨h.mode, h.bm, h.rxGuard, h.shutdown, congrArg (· + m) h.sounded, h.engine⟩
  refine ⟨hsounded.frame hf, hf.txbuf.trans ?_⟩
  funext j
  rw [← h.sounded]
  rfl

theorem squelchRx_inV22 (h : InV22 g k c) (i m : Nat) (rx : Nat → RxObservation) :
    InV22 (g - m) k (squelchRx c i m rx) ∧ (squelchRx c i m rx).txbuf = c.txbuf := by
  have htouch := touch_line c .rxsquelch 0 m
  have hf := htouch.trans (modemRx_line (htouch.onEngine h.engine) i m rx)
  have hrx := h.frame hf
  exact ⟨⟨hrx.mode, hrx.bm, congrArg (· - m) hrx.rxGuard, hrx.shutdown, hrx.sounded, hrx.engine⟩,
    hf.txbuf⟩

theorem receiveRx_inV22 (h : InV22 g k c) (i m : Nat) (rx : Nat → RxObservation) :
    InV22 g k (receiveRx c i m rx) ∧ (receiveRx c i m rx).txbuf = c.txbuf := by
  have htouch := touch_line c .input i m
  have hf := htouch.trans (modemRx_line (htouch.onEngine h.engine) i m rx)
  exact ⟨h.frame hf, hf.txbuf⟩

theorem guardChunk_inV22 (h : InV22 g k c) (base i m : Nat) (e : AudioEnv) :
    (guardChunk c i m e).2 = min m g ∧
      InV22 (g - min m g) (k + min m g) (guardChunk c i m e).1 ∧
      (guardChunk c i m e).1.txbuf = overwrite i (min m g) (fun j => .v22 (k + j)) c.txbuf ∧
      (guardOps c i m e).flatMap (AudioOp.heard base) = List.replicate (min m g) .zero := by
  simp only [guardChunk, guardOps, h.rxGuard]
  split
  · obtain ⟨htx, htxbuf⟩ := modemTx_inV22 h i (min m g)
    obtain ⟨hrx, hrxbuf⟩ := squelchRx_inV22 htx i (min m g) e.rx
    exact ⟨rfl, hrx, hrxbuf.trans htxbuf, by simp [AudioOp.heard]⟩
  · obtain rfl : g = 0 := by omega
    rw [Nat.min_zero]
    exact ⟨rfl, h, (overwrite_zero i _ c.txbuf).symm, rfl⟩

theorem engineChunk_inV22 (h : InV22 g k c) (base i m : Nat) (e : AudioEnv) :
    InV22 g (k + m) (engineChunk c i m e) ∧
      (engineChunk c i m e).txbuf = overwrite i m (fun j => .v22 (k + j)) c.txbuf ∧
      (engineOps c i m e).flatMap (AudioOp.heard base) =
        (List.range m).map fun j => .sample (base + i + j) := by
  have hmode : c.mode ≠ .v34 := by simp [h.mode]
  simp only [engineChunk, engineOps, if_neg hmode]
  split
  · subst m
    exact ⟨h, (overwrite_zero i _ c.txbuf).symm, rfl⟩
  · obtain ⟨htx, htxbuf⟩ := modemTx_inV22 h i m
    obtain ⟨hrx, hrxbuf⟩ := receiveRx_inV22 htx i m e.rx
    exact ⟨hrx, hrxbuf.trans htxbuf, by simp [AudioOp.heard]⟩

theorem audioLoop_inV22 (h : InV22 g k c) (base n left : Nat) (e : AudioEnv) :
    InV22 (g - left) (k + left) (audioLoop n e left c) ∧
      (audioLoop n e left c).txbuf = overwrite (n - left) left (fun j => .v22 (k + j)) c.txbuf ∧
      (loopOps n e left c).flatMap (AudioOp.heard base) =
        (List.range left).map (guarded g (base + (n - left))) := by
  cases left with
  | zero => exact ⟨h, (overwrite_zero _ _ c.txbuf).symm, rfl⟩
  | succ left =>
      obtain ⟨hskip, hguard, hguardbuf, hguardops⟩ :=
        guardChunk_inV22 h base (n - (left + 1)) (left + 1) e
      obtain ⟨hengine, henginebuf, hengineops⟩ := engineChunk_inV22 hguard base
        (n - (left + 1) + min (left + 1) g) (left + 1 - min (left + 1) g) e
      have hloop : audioLoop n e (left + 1) c = engineChunk (guardChunk c (n - (left + 1)) (left + 1) e).1
          (n - (left + 1) + min (left + 1) g) (left + 1 - min (left + 1) g) e := by
        rw [← hskip]
        unfold audioLoop
        split
        · exact absurd ‹_› h.engine.1
        · exact absurd ‹_› h.engine.2
        · rfl
      have hops : loopOps n e (left + 1) c = guardOps c (n - (left + 1)) (left + 1) e ++
          engineOps (guardChunk c (n - (left + 1)) (left + 1) e).1
            (n - (left + 1) + min (left + 1) g) (left + 1 - min (left + 1) g) e := by
        rw [← hskip]
        unfold loopOps
        split
        · exact absurd ‹_› h.engine.1
        · exact absurd ‹_› h.engine.2
        · rfl
      have hsum : min (left + 1) g + (left + 1 - min (left + 1) g) = left + 1 := by omega
      have hleft : g - min (left + 1) g = g - (left + 1) := by omega
      rw [hloop, hops]
      refine ⟨?_, ?_, ?_⟩
      · rwa [hleft, Nat.add_assoc, hsum] at hengine
      · rw [henginebuf, hguardbuf]
        simp only [Nat.add_assoc]
        rw [overwrite_add (n - (left + 1)) (min (left + 1) g) (left + 1 - min (left + 1) g)
          (fun j => .v22 (k + j)) c.txbuf, hsum]
      · rw [List.flatMap_append, hguardops, hengineops, ← guarded_range]
        simp only [Nat.add_assoc]

theorem ending_line (h : c.phase ≠ .v8) (payload : List UInt8) (n : Nat) (e : AudioEnv) :
    LineFrame c (audioEnd (dataModeDetection (v8Transition c e)) payload n) := by
  rw [v8Transition_line h]
  exact (dataModeDetection_line c).trans (audioEnd_line _ payload n)

theorem beginning_line (c : SmCall) (payload : List UInt8) (n : Nat) :
    LineFrame c (captureChunk (audioStart c) payload n) :=
  (audioStart_line c).trans (captureChunk_line _ payload n)

theorem overwrite_played {n : Nat} (sample buffer : Nat → Pcm) :
    (List.range n).map (overwrite (n - n) n sample buffer) = (List.range n).map sample := by
  apply List.map_congr_left
  intro j hj
  have hlt := List.mem_range.mp hj
  unfold overwrite
  rw [if_pos (by omega), Nat.sub_self, Nat.sub_zero]

structure ChunkOnLine (base : Nat) (a : AudioTurn) (e : AudioEnv) (played : Nat → Pcm)
    (heard : List RxInput) : Prop where
  played : a.played e = (List.range a.samples).map played
  heard : (a.ops e).flatMap (AudioOp.heard base) = heard

theorem builtin_chunk {a : AudioTurn} {e : AudioEnv} (hbm : a.call.bm = false) (base : Nat) :
    a.after e = audioEnd (dataModeDetection (v8Transition (audioLoop a.samples e a.samples
        (captureChunk (audioStart a.call) a.payload a.samples)) e)) a.payload a.samples ∧
      (a.ops e).flatMap (AudioOp.heard base) = (loopOps a.samples e a.samples
        (captureChunk (audioStart a.call) a.payload a.samples)).flatMap (AudioOp.heard base) := by
  have hcaptured := (beginning_line a.call a.payload a.samples).bm.trans hbm
  constructor
  · simp [AudioTurn.after, processAudio, pollEngine, runEngine, hcaptured]
  · simp [AudioTurn.ops, audioOps, pollOps, runOps, pollEngine, hcaptured, AudioOp.heard]

theorem engine_inV22 {a : AudioTurn} (h : InV22 g k c) (base : Nat) (e : AudioEnv)
    (hafter : a.after e =
      audioEnd (dataModeDetection (v8Transition (audioLoop a.samples e a.samples c) e))
        a.payload a.samples)
    (hheard : (a.ops e).flatMap (AudioOp.heard base) =
      (loopOps a.samples e a.samples c).flatMap (AudioOp.heard base)) :
    InV22 (g - a.samples) (k + a.samples) (a.after e) ∧
      ChunkOnLine base a e (fun j => .v22 (k + j))
        ((List.range a.samples).map (guarded g base)) := by
  obtain ⟨hloop, hbuf, hops⟩ := audioLoop_inV22 h base a.samples a.samples e
  have hend := ending_line hloop.engine.1 a.payload a.samples e
  refine ⟨hafter ▸ hloop.frame hend, ⟨?_, ?_⟩⟩
  · rw [AudioTurn.played, hafter, hend.txbuf, hbuf, overwrite_played]
  · rw [hheard, hops, Nat.sub_self, Nat.add_zero]

theorem chunk_inV22 {a : AudioTurn} (h : InV22 g k a.call) (base : Nat) (e : AudioEnv) :
    InV22 (g - a.samples) (k + a.samples) (a.after e) ∧
      ChunkOnLine base a e (fun j => .v22 (k + j))
        ((List.range a.samples).map (guarded g base)) := by
  obtain ⟨hafter, hheard⟩ := builtin_chunk (a := a) (e := e) h.bm base
  exact engine_inV22 (h.frame (beginning_line a.call a.payload a.samples)) base e hafter hheard

end Engine

theorem overwrite_one (i : Nat) (sample buffer : Nat → Pcm) :
    overwrite i 1 (fun _ => sample 0) buffer = overwrite i 1 sample buffer := by
  funext j
  unfold overwrite
  split
  · rw [show j - i = 0 by omega]
  · rfl

structure ToneCounters (pre tone k : Nat) (c : SmCall) : Prop where
  silenceLeft : c.silenceSamplesLeft.toNat = pre - k
  toneLeft : c.toneSamplesLeft.toNat = tone - (k - pre)
  tonePhase : c.tonePhase = k - pre

structure Answering (pre tone k : Nat) (c : SmCall) : Prop where
  mode : c.mode = .v22
  bm : c.bm = false
  rxGuard : c.rxGuard = 0
  shutdown : c.modem.tx.shutdown = 0
  sounded : c.history.sounded = 0
  phase : c.phase = .answerTone
  counters : ToneCounters pre tone k c
  going : k < pre + tone

def AnswerAt (pre tone k : Nat) (c : SmCall) : Prop :=
  Answering pre tone k c ∨ pre + tone ≤ k ∧ InV22 0 (k - (pre + tone)) c

section Answer

variable {pre tone k : Nat} {c : SmCall}

theorem Answering.frame {c' : SmCall} (h : Answering pre tone k c) (hf : LineFrame c c') :
    Answering pre tone k c' := by
  have hphase : c'.phase = .answerTone := by
    rcases hf.phase with hphase | ⟨hc, -⟩
    · exact hphase.trans h.phase
    · exact absurd h.phase hc.2
  have hcounters : ToneCounters pre tone k c' :=
    ⟨hf.silence ▸ h.counters.silenceLeft, hf.tone ▸ h.counters.toneLeft,
      hf.tonePhase.trans h.counters.tonePhase⟩
  exact ⟨hf.mode.trans h.mode, hf.bm.trans h.bm, hf.rxGuard.trans h.rxGuard,
    hf.shutdown.trans h.shutdown, hf.sounded.trans h.sounded, hphase, hcounters, h.going⟩

theorem AnswerAt.frame {c' : SmCall} (h : AnswerAt pre tone k c) (hf : LineFrame c c') :
    AnswerAt pre tone k c' := by
  rcases h with h | ⟨hk, h⟩
  · exact .inl (h.frame hf)
  · exact .inr ⟨hk, h.frame hf⟩

theorem AnswerAt.bm (h : AnswerAt pre tone k c) : c.bm = false := by
  rcases h with h | ⟨-, h⟩
  · exact h.bm
  · exact h.bm

theorem AnswerAt.phase (h : AnswerAt pre tone k c) : c.phase ≠ .v8 := by
  rcases h with h | ⟨-, h⟩
  · simp [h.phase]
  · exact h.engine.1

theorem toneOutput_answering (h : Answering pre tone k c) (i : Nat) :
    ToneCounters pre tone (k + 1) (toneOutput c i) ∧
      InV22 0 0 { toneOutput c i with phase := .handshake } ∧
      (toneOutput c i).phase = .answerTone ∧
      (toneOutput c i).txbuf = overwrite i 1 (fun j => answerSample pre tone (k + j)) c.txbuf := by
  obtain ⟨hsilence, htone, hphase⟩ := h.counters
  have hgoing := h.going
  have hone (sample : Pcm) (hsample : answerSample pre tone (k + 0) = sample) :
      overwrite i 1 (fun _ => sample) c.txbuf =
        overwrite i 1 (fun j => answerSample pre tone (k + j)) c.txbuf := by
    rw [← hsample]
    exact overwrite_one i (fun j => answerSample pre tone (k + j)) c.txbuf
  have hengine : OnEngine { toneOutput c i with phase := .handshake } := by simp [OnEngine]
  unfold toneOutput at hengine ⊢
  split_ifs at hengine ⊢ with hpre hleft
  · have hk : k < pre := by omega
    have hcounters : ToneCounters pre tone (k + 1)
        { sound c i 1 (fun _ => .silence) with silenceSamplesLeft := c.silenceSamplesLeft - 1 } :=
      ⟨by simp only; omega, htone.trans (by omega), hphase.trans (by omega)⟩
    exact ⟨hcounters, ⟨h.mode, h.bm, h.rxGuard, h.shutdown, h.sounded, hengine⟩, h.phase,
      hone .silence (by simp [answerSample, hk])⟩
  · have hk : ¬ k < pre := by omega
    have hcounters : ToneCounters pre tone (k + 1)
        { sound c i 1 (fun _ => .tone c.tonePhase) with
          tonePhase := c.tonePhase + 1, toneSamplesLeft := c.toneSamplesLeft - 1 } :=
      ⟨hsilence.trans (by omega), by simp only; omega, by simp only; omega⟩
    exact ⟨hcounters, ⟨h.mode, h.bm, h.rxGuard, h.shutdown, h.sounded, hengine⟩, h.phase,
      hone (.tone c.tonePhase) (by simp [answerSample, hk, hgoing, hphase])⟩
  · omega

theorem toneSample_answering (h : Answering pre tone k c) (i : Nat) :
    AnswerAt pre tone (k + 1) (toneSample c i) ∧
      (toneSample c i).txbuf = overwrite i 1 (fun j => answerSample pre tone (k + j)) c.txbuf := by
  obtain ⟨hcounters, hv22, hphase, hbuf⟩ := toneOutput_answering h i
  have hsilence := hcounters.silenceLeft
  have htone := hcounters.toneLeft
  simp only [toneSample]
  split
  · have hdone : pre + tone ≤ k + 1 := by omega
    have hfirst : k + 1 - (pre + tone) = 0 := by
      have hgoing := h.going
      omega
    exact ⟨.inr ⟨hdone, hfirst ▸ hv22⟩, hbuf⟩
  · have hgoing : k + 1 < pre + tone := by omega
    exact ⟨.inl ⟨hv22.mode, hv22.bm, hv22.rxGuard, hv22.shutdown, hv22.sounded, hphase, hcounters,
      hgoing⟩, hbuf⟩

theorem answerSample_after (hk : pre + tone ≤ k) (j : Nat) :
    answerSample pre tone (k + j) = .v22 (k - (pre + tone) + j) := by
  unfold answerSample
  rw [if_neg (by omega), if_neg (by omega)]
  congr 1
  omega

theorem drop_range_succ (d left base : Nat) (hd : 0 < d) :
    ((List.range (left + 1)).drop d).map (fun j => RxInput.sample (base + j)) =
      ((List.range left).drop (d - 1)).map fun j => .sample (base + 1 + j) := by
  obtain ⟨d, rfl⟩ : ∃ d', d = d' + 1 := ⟨d - 1, by omega⟩
  rw [List.range_succ_eq_map, List.drop_succ_cons, Nat.add_sub_cancel, List.map_drop, List.map_map,
    List.map_drop]
  congr 2
  funext j
  simp only [Function.comp_apply, Nat.succ_eq_add_one]
  congr 1
  omega

theorem audioLoop_answerAt {n left : Nat} (hle : left ≤ n) (h : AnswerAt pre tone k c) (base : Nat)
    (e : AudioEnv) :
    AnswerAt pre tone (k + left) (audioLoop n e left c) ∧
      (audioLoop n e left c).txbuf =
        overwrite (n - left) left (fun j => answerSample pre tone (k + j)) c.txbuf ∧
      (loopOps n e left c).flatMap (AudioOp.heard base) =
        ((List.range left).drop (pre + tone - k)).map fun j => .sample (base + (n - left) + j) := by
  induction left generalizing k c with
  | zero => exact ⟨h, (overwrite_zero _ _ c.txbuf).symm, by simp [loopOps]⟩
  | succ left ih =>
      rcases h with h | ⟨hk, h⟩
      · obtain ⟨hnext, hbuf⟩ := toneSample_answering h (n - (left + 1))
        obtain ⟨hafter, hrest, hops⟩ := ih (by omega) hnext
        have hloop : audioLoop n e (left + 1) c =
            audioLoop n e left (toneSample c (n - (left + 1))) := by
          simp only [audioLoop, h.phase]
        have hloopOps : loopOps n e (left + 1) c =
            .tone (n - (left + 1)) :: loopOps n e left (toneSample c (n - (left + 1))) := by
          simp only [loopOps, h.phase]
        have hat : n - left = n - (left + 1) + 1 := by omega
        rw [hloop, hloopOps]
        refine ⟨?_, ?_, ?_⟩
        · rwa [Nat.add_right_comm, Nat.add_assoc] at hafter
        · rw [hrest, hbuf, hat]
          have hjoin := overwrite_add (n - (left + 1)) 1 left
            (fun j => answerSample pre tone (k + j)) c.txbuf
          simp only [← Nat.add_assoc] at hjoin
          rw [hjoin, Nat.add_comm 1 left]
        · have hgoing := h.going
          rw [List.flatMap_cons, hops, drop_range_succ _ _ _ (by omega), hat]
          simp only [AudioOp.heard, List.nil_append, Nat.sub_sub, Nat.add_assoc]
      · obtain ⟨hafter, hbuf, hops⟩ := audioLoop_inV22 h base n (left + 1) e
        have hover : pre + tone - k = 0 := by omega
        refine ⟨.inr ⟨by omega, ?_⟩, ?_, ?_⟩
        · rwa [Nat.zero_sub, ← Nat.sub_add_comm hk] at hafter
        · rw [hbuf]
          simp only [answerSample_after hk]
        · rw [hops, hover, List.drop_zero]
          simp [guarded]

theorem chunk_answerAt {a : AudioTurn} (h : AnswerAt pre tone k a.call) (base : Nat)
    (e : AudioEnv) :
    AnswerAt pre tone (k + a.samples) (a.after e) ∧
      ChunkOnLine base a e (fun j => answerSample pre tone (k + j))
        (((List.range a.samples).drop (pre + tone - k)).map fun j => .sample (base + j)) := by
  have hbegin := h.frame (beginning_line a.call a.payload a.samples)
  obtain ⟨hafter, hheard⟩ := builtin_chunk (a := a) (e := e) h.bm base
  obtain ⟨hloop, hbuf, hops⟩ := audioLoop_answerAt (le_refl a.samples) hbegin base e
  have hend := ending_line hloop.phase a.payload a.samples e
  refine ⟨hafter ▸ hloop.frame hend, ⟨?_, ?_⟩⟩
  · rw [AudioTurn.played, hafter, hend.txbuf, hbuf, overwrite_played]
  · rw [hheard, hops, Nat.sub_self, Nat.add_zero]

theorem socket_line (c : SmCall) (as : SmAstSocket) : LineFrame c { c with as := as } :=
  ⟨rfl, rfl, rfl, rfl, rfl, rfl, rfl, rfl, rfl, .inl rfl⟩

end Answer

theorem lineTurn_run (l : Line) (t : Turn) : (lineTurn l t).run = smCallTurn l.run t := by
  unfold lineTurn
  split <;> rfl

theorem lineTurn_bytes {s : CallRun} {l : Line} (t : Turn)
    (h : repliedBytes l.run = repliedBytes s ++ l.sent.flatMap sampleBytes) :
    repliedBytes (lineTurn l t).run = repliedBytes s ++ (lineTurn l t).sent.flatMap sampleBytes := by
  rcases haudio : audioOf l.run with _ | a
  · have hwritten := congrArg (List.flatMap WriteCall.payload) (quiet_written haudio t)
    simp only [lineTurn, haudio]
    exact hwritten.trans h
  · simp only [lineTurn, haudio]
    rw [audio_output haudio, h, List.flatMap_append, List.append_assoc]

theorem answered_sent {s : CallRun} {a : AudioTurn} {t : Turn} {sample : Nat → Pcm}
    (h : a.played t.audio = (List.range a.samples).map sample) (hearly : NoEarlyAudio s t)
    (haudio : audioOf s = some a) :
    (answered s a t).map Prod.fst = (List.range a.samples).map sample := by
  unfold answered
  split
  next hstage =>
    rw [hearly hstage a haudio]
    rfl
  next =>
    rw [AudioTurn.reply, List.map_map, ← h]
    exact List.map_id _

-- A sample consumed without an answer is missing from then on.
def Unanswered (l : Line) : Prop := l.sent.length < l.samples

theorem answered_length (s : CallRun) (a : AudioTurn) (t : Turn) :
    (answered s a t).length ≤ a.samples := by
  unfold answered
  split
  · exact Nat.zero_le _
  · simp [AudioTurn.reply, AudioTurn.played]

theorem Unanswered.turn {l : Line} (h : Unanswered l) (t : Turn) : Unanswered (lineTurn l t) := by
  rcases haudio : audioOf l.run with _ | a
  · simp only [lineTurn, haudio]
    exact h
  · have hmore := answered_length l.run a t
    simp only [Unanswered, lineTurn, haudio, List.length_append] at h ⊢
    omega

theorem Outputs.length {s : CallRun} {sample : Nat → Pcm} {l : Line} (h : Outputs s sample l) :
    l.sent.length = l.samples := by
  have hlength := congrArg List.length h.sent
  simpa using hlength

theorem early_unanswered {l : Line} {t : Turn} (h : l.sent.length = l.samples)
    (hearly : ¬ NoEarlyAudio l.run t) : Unanswered (lineTurn l t) := by
  simp only [NoEarlyAudio, not_forall] at hearly
  obtain ⟨hstage, a, haudio, hsome⟩ := hearly
  simp only [Unanswered, lineTurn, haudio, answered, if_pos hstage, List.append_nil]
  omega

theorem along_lineTurn {G : CallRun → Turn → Prop} (turns : List Turn) (l : Line) :
    Transition.Along lineTurn (fun l => G l.run) l turns ↔
      Transition.Along smCallTurn G l.run turns := by
  induction turns generalizing l with
  | nil => exact Iff.rfl
  | cons t turns ih => rw [Transition.Along, Transition.Along, ih, lineTurn_run]

theorem no_early_after {s : CallRun} (h : s.stage ≠ .firstMessage) (turns : List Turn) :
    Transition.Along smCallTurn NoEarlyAudio s turns :=
  Transition.along_of_invariant (G := fun _ _ => True) (P := fun s => s.stage ≠ .firstMessage)
    (fun _ _ hs _ hnext => hs (turn_waiting hnext).1) (fun _ _ hs _ hstage => absurd hstage hs)
    turns h ((Transition.along_iff_split _).mpr fun _ _ _ _ => trivial)

def AnswerLine (s : CallRun) (pre tone : Nat) (l : Line) : Prop :=
  AnswerAt pre tone l.samples l.run.call ∧ AnswerOnLine s pre tone l

def V22Line (s : CallRun) (first : Nat) (l : Line) : Prop :=
  InV22 (4000 - l.samples) (first + l.samples) l.run.call ∧ V22OnLine s first l

theorem lineTurn_answer {s : CallRun} {pre tone : Nat} {l : Line} {t : Turn}
    (h : AnswerLine s pre tone l) (hearly : NoEarlyAudio l.run t) :
    AnswerLine s pre tone (lineTurn l t) := by
  obtain ⟨hcall, ⟨hbytes, hsent⟩, hheard⟩ := h
  have hbytes := lineTurn_bytes t hbytes
  rcases haudio : audioOf l.run with _ | a
  · simp only [lineTurn, haudio] at hbytes ⊢
    exact ⟨hcall.frame (quiet_line haudio hcall.bm t), ⟨hbytes, hsent⟩, hheard⟩
  · obtain ⟨⟨as, ha⟩, hclosing⟩ := audioOf_turn haudio t
    have hbegin : AnswerAt pre tone l.samples a.call := ha ▸ hcall.frame (socket_line l.run.call as)
    obtain ⟨hafter, hchunk⟩ := chunk_answerAt hbegin l.samples t.audio
    simp only [lineTurn, haudio] at hbytes ⊢
    refine ⟨hafter.frame (hclosing.line hafter.bm), ⟨hbytes, ?_⟩, ?_⟩
    · rw [List.map_append, hsent, answered_sent hchunk.played hearly haudio, List.range_add,
        List.map_append, List.map_map]
      rfl
    · rw [hheard, hchunk.heard, List.range_add, List.drop_append, List.length_range,
        List.map_append, ← List.map_drop, List.map_map]
      rfl

theorem lineTurn_v22 {s : CallRun} {first : Nat} {l : Line} {t : Turn} (h : V22Line s first l)
    (hearly : NoEarlyAudio l.run t) : V22Line s first (lineTurn l t) := by
  obtain ⟨hcall, ⟨hbytes, hsent⟩, hheard⟩ := h
  have hbytes := lineTurn_bytes t hbytes
  rcases haudio : audioOf l.run with _ | a
  · simp only [lineTurn, haudio] at hbytes ⊢
    exact ⟨hcall.frame (quiet_line haudio hcall.bm t), ⟨hbytes, hsent⟩, hheard⟩
  · obtain ⟨⟨as, ha⟩, hclosing⟩ := audioOf_turn haudio t
    have hbegin := ha ▸ hcall.frame (socket_line l.run.call as)
    obtain ⟨hafter, hchunk⟩ := chunk_inV22 hbegin l.samples t.audio
    rw [Nat.sub_sub, Nat.add_assoc] at hafter
    simp only [lineTurn, haudio] at hbytes ⊢
    refine ⟨hafter.frame (hclosing.line hafter.bm), ⟨hbytes, ?_⟩, ?_⟩
    · rw [List.map_append, hsent, answered_sent hchunk.played hearly haudio, List.range_add,
        List.map_append, List.map_map]
      simp only [Nat.add_assoc]
      rfl
    · rw [hheard, hchunk.heard, guarded_later, List.range_add, List.map_append, List.map_map]

theorem answer_iff {s : CallRun} {pre tone : Nat} {l : Line} (h : AnswerLine s pre tone l)
    (turns : List Turn) :
    AnswerOnLine s pre tone (Transition.run lineTurn l turns) ↔
      Transition.Along smCallTurn NoEarlyAudio l.run turns := by
  rw [← along_lineTurn]
  exact Transition.along_iff_seen (B := Unanswered) (fun _ _ hl hearly => lineTurn_answer hl hearly)
    (fun _ _ hl hearly => early_unanswered hl.2.output.length hearly) (fun _ t hl => hl.turn t)
    (fun _ hl => hl.2) (fun _ hl hline => absurd hline.output.length hl.ne) turns h

theorem v22_after {s : CallRun} {first : Nat} {l : Line} (h : V22Line s first l)
    (hstage : l.run.stage ≠ .firstMessage) (turns : List Turn) :
    V22Line s first (Transition.run lineTurn l turns) :=
  Transition.along_invariant (fun _ _ hl hearly => lineTurn_v22 hl hearly) turns h
    ((along_lineTurn turns l).mpr (no_early_after hstage turns))

theorem milliseconds (ms : Int) : (ms * smSampleRate).tdiv 1000 = 8 * ms := by
  have hscale : ms * (smSampleRate : Int) = 8 * ms * 1000 := by
    simp only [smSampleRate]
    omega
  rw [hscale, Int.mul_tdiv_cancel _ (by omega)]

theorem startAnswer_answering {c : SmCall} (hmode : c.mode = .v22) (hbm : c.bm = false)
    (hguard : c.rxGuard = 0) (hshut : c.modem.tx.shutdown = 0) (hsounded : c.history.sounded = 0)
    (hphase : c.tonePhase = 0) (hpos : c.cfg.answerToneMs > 0 ∨ c.cfg.preToneSilenceMs > 0) :
    Answering (8 * c.cfg.preToneSilenceMs).toNat (8 * c.cfg.answerToneMs).toNat 0
      (startAnswer c) := by
  unfold startAnswer
  rw [if_pos hpos]
  have hcounters : ToneCounters (8 * c.cfg.preToneSilenceMs).toNat (8 * c.cfg.answerToneMs).toNat 0
      { c with
        phase := .answerTone
        silenceSamplesLeft := (c.cfg.preToneSilenceMs * smSampleRate).tdiv 1000
        toneSamplesLeft := (c.cfg.answerToneMs * smSampleRate).tdiv 1000 } :=
    ⟨congrArg Int.toNat (milliseconds _), by rw [milliseconds, Nat.zero_sub, Nat.sub_zero],
      hphase.trans (Nat.zero_sub _).symm⟩
  exact ⟨hmode, hbm, hguard, hshut, hsounded, rfl, hcounters, by omega⟩

theorem init_answering {cfg : SmCallConfig} {r : InitResults} (h : PlainAnswer cfg r) :
    Answering (8 * cfg.preToneSilenceMs).toNat (8 * cfg.answerToneMs).toNat 0
      (smCallInit cfg r) := by
  obtain ⟨hbm, hv8, hpositive⟩ := h
  simp only [smCallInit, if_neg hbm, if_neg hv8]
  exact @startAnswer_answering
    { smCallZero cfg with
      capIn := if r.capInOpened then some [] else none
      capOut := if r.capOutOpened then some [] else none }
    rfl rfl rfl rfl rfl rfl hpositive

section Shutdown

def TxRunning (c : SmCall) : Prop := c.modem.tx.shutdown = 0

variable {c : SmCall}

theorem TxRunning.of_modem {c' : SmCall} (h : TxRunning c) (hmodem : c'.modem = c.modem) :
    TxRunning c' := by
  unfold TxRunning
  rwa [hmodem]

theorem TxRunning.touch (h : TxRunning c) (buffer : AudioBuffer) (start length : Nat) :
    TxRunning (touch c buffer start length) := h

theorem TxRunning.sound (h : TxRunning c) (start length : Nat) (sample : Nat → Pcm) :
    TxRunning (sound c start length sample) := h

theorem TxRunning.soundFrom (h : TxRunning c) (start length : Nat) (sample : Nat → Pcm) :
    TxRunning (soundFrom c start length sample) := h

theorem engineEvents_running (events : List EngineEvent) (h : TxRunning c) :
    TxRunning (engineEvents c events) := by
  induction events generalizing c with
  | nil => exact h
  | cons event events ih =>
      apply ih
      cases event with
      | getBit => exact h
      | putBit bit v34Rate => exact h.of_modem (callPutBit_frame c bit v34Rate).modem

theorem modemRx_running (i m : Nat) (rx : Nat → RxObservation) (h : TxRunning c) :
    TxRunning (modemRx c i m rx) := by
  unfold modemRx
  generalize List.range m = ks
  induction ks generalizing c with
  | nil => exact h
  | cons k ks ih =>
      apply ih
      have hreceived : TxRunning (receiveSample c (rx (i + k))) :=
        (v22bisRxSample_shutdown c.modem (rx (i + k))).trans h
      exact hreceived.of_modem (rxOuts_frame _ _).modem

theorem bmPoll_running (n : Nat) (o : BmObservation) (h : TxRunning c) :
    TxRunning (bmPoll c n o) := by
  unfold bmPoll bmWatchCarrier bmConnect
  cases o.status with
  | retraining =>
      simp only
      split <;> exact h
  | connected =>
      simp only
      split_ifs <;> exact h
  | _ => exact h

theorem v8Reports_running (reports : List V8Report) (h : TxRunning c) :
    TxRunning (v8Reports c reports) := by
  induction reports generalizing c with
  | nil => exact h
  | cons report reports ih =>
      have hreport : TxRunning (callV8Result c report.status report.modulations) := by
        obtain ⟨done, ok, heq⟩ := callV8Result_eq c report.status report.modulations
        rw [heq]
        exact h
      exact ih hreport

theorem audioOp_running (op : AudioOp) (h : TxRunning c) : TxRunning (audioOp c op) := by
  cases op with
  | capture payload n => exact (captureChunk_line c payload n).shutdown.trans h
  | poll n o => exact bmPoll_running n o h
  | bm n e =>
      have hevents := engineEvents_running e.engine h
      exact (hevents.touch .input 0 n).soundFrom 0 n .bm
  | v8 i m e =>
      simp only [audioOp, v8Chunk]
      split
      · have hsounded := h.soundFrom i (min e.v8Sent m) .v8
        have hsilenced := hsounded.sound (i + min e.v8Sent m) (m - min e.v8Sent m) fun _ => .silence
        exact (v8Reports_running e.v8Reports hsilenced).touch .input i m
      · exact h.sound i m fun _ => .silence
  | tone i =>
      simp only [audioOp, toneSample, toneOutput]
      split_ifs <;> exact h
  | transmit i m => exact (modemTx_line h i m).shutdown.trans h
  | squelch i m rx =>
      have hrx := modemRx_running i m rx (h.touch .rxsquelch 0 m)
      exact hrx
  | receive i m rx => exact modemRx_running i m rx (h.touch .input i m)
  | v34 i m e =>
      exact engineEvents_running e.engine ((h.soundFrom i m .v34).touch .input i m)
  | transition e =>
      simp only [audioOp, v8Transition]
      split_ifs <;> exact h
  | detect => exact (dataModeDetection_line c).shutdown.trans h
  | _ => exact h

theorem processAudio_running (payload : List UInt8) (n : Nat) (e : AudioEnv) (h : TxRunning c) :
    TxRunning (processAudio c payload n e) := by
  rw [← audioOps_run]
  exact Transition.run_invariant (fun _ op => audioOp_running op) _ h

theorem turn_running {s : CallRun} (t : Turn) (h : TxRunning s.call) :
    TxRunning (smCallTurn s t).call := by
  obtain ⟨stages, c, heffect, ⟨hcall, -⟩ | ⟨hcall, -⟩⟩ := smCallTurn_turned s t
  all_goals
    have hc : TxRunning c := by
      cases heffect with
      | read as _ => exact h
      | firstAudio as _ _ => exact processAudio_running _ _ t.audio h
      | audio as _ _ _ => exact processAudio_running _ _ t.audio h
      | pumped _ => exact (pumpPpp_lineFrame s.call t.pump).shutdown.trans h
    rw [hcall]
    exact hc

theorem run_running (cfg : SmCallConfig) (r : InitResults) (peer : Peer) (turns : List Turn) :
    TxRunning (smCallRun cfg r peer turns).call := by
  have hinit : TxRunning (smCallStart (smCallInit cfg r) peer).call := by
    simp only [smCallStart, smCallInit, startAnswer]
    split_ifs <;> rfl
  exact Transition.run_invariant (P := fun s : CallRun => TxRunning s.call)
    (fun s t => turn_running t) turns hinit

end Shutdown

structure InV8Phase (c : SmCall) : Prop where
  bm : c.bm = false
  phase : c.phase = .v8
  running : TxRunning c

theorem InV8Phase.frame {c c' : SmCall} (h : InV8Phase c) (hf : LineFrame c c') : InV8Phase c' := by
  refine ⟨hf.bm.trans h.bm, ?_, hf.shutdown.trans h.running⟩
  rcases hf.phase with hphase | ⟨hc, -⟩
  · exact hphase.trans h.phase
  · exact absurd h.phase hc.1

theorem InV8Phase.sound {c : SmCall} (h : InV8Phase c) (start length : Nat)
    (sample : Nat → Pcm) : InV8Phase (sound c start length sample) :=
  ⟨h.bm, h.phase, h.running.sound start length sample⟩

theorem InV8Phase.soundFrom {c : SmCall} (h : InV8Phase c) (start length : Nat)
    (sample : Nat → Pcm) : InV8Phase (soundFrom c start length sample) :=
  ⟨h.bm, h.phase, h.running.soundFrom start length sample⟩

theorem audioLoop_inV8 {c : SmCall} (h : InV8Phase c) (n : Nat) (e : AudioEnv) :
    InV8Phase (audioLoop n e n c) := by
  cases n with
  | zero => exact h
  | succ left =>
      simp only [audioLoop, h.phase, v8Chunk]
      split
      · have hsounded := (h.soundFrom (left + 1 - (left + 1)) (min e.v8Sent (left + 1)) .v8).sound
          (left + 1 - (left + 1) + min e.v8Sent (left + 1))
          (left + 1 - min e.v8Sent (left + 1)) fun _ => .silence
        exact (hsounded.frame (v8Reports_line e.v8Reports _)).frame (touch_line _ .input _ _)
      · exact h.sound _ _ _

theorem v8_handed_over {a : AudioTurn} {e : AudioEnv} (h : InV8Phase a.call)
    (hleft : (a.after e).phase ≠ .v8) (hmode : (a.after e).mode = .v22) :
    InV22 4000 (a.after e).history.sounded (a.after e) := by
  obtain ⟨hafter, -⟩ := builtin_chunk (a := a) (e := e) h.bm 0
  have hloop := audioLoop_inV8 (h.frame (beginning_line a.call a.payload a.samples)) a.samples e
  generalize audioLoop a.samples e a.samples
    (captureChunk (audioStart a.call) a.payload a.samples) = c at hafter hloop
  have hcases := v8Transition_cases c e
  generalize v8Transition c e = d at hafter hcases
  have hend : LineFrame d (a.after e) := by
    rw [hafter]
    exact (dataModeDetection_line d).trans (audioEnd_line _ a.payload a.samples)
  cases hcases with
  | stays => exact absurd (hloop.frame hend).phase hleft
  | v34 =>
      rw [hend.mode] at hmode
      cases hmode
  | v22 ok =>
      have hstarted : InV22 4000 (a.after e).history.sounded (startV22 { c with v8Ok := ok }) :=
        ⟨rfl, hloop.bm, rfl, hloop.running, hend.sounded.symm, by simp [OnEngine, startV22]⟩
      exact hstarted.frame hend

theorem bm_handed_over {a : AudioTurn} {e : AudioEnv} (hbm : a.call.bm = true)
    (hrunning : TxRunning a.call) (hleft : (a.after e).bm = false) (base : Nat) :
    InV22 (4000 - a.samples) (a.call.history.sounded + a.samples) (a.after e) ∧
      ChunkOnLine base a e (fun j => .v22 (a.call.history.sounded + j))
        ((List.range a.samples).map (guarded 4000 base)) := by
  have hbegin := beginning_line a.call a.payload a.samples
  have hbm' := hbegin.bm.trans hbm
  rcases bmPoll_cases (captureChunk (audioStart a.call) a.payload a.samples) a.samples e.bm with
    hback | ⟨hkept, -⟩
  · have hstarted : InV22 4000 a.call.history.sounded
        (bmHandBack (captureChunk (audioStart a.call) a.payload a.samples)) :=
      ⟨rfl, rfl, rfl, hbegin.shutdown.trans hrunning, hbegin.sounded, by simp [OnEngine, bmHandBack]⟩
    apply engine_inV22 hstarted base e
    · simp [AudioTurn.after, processAudio, pollEngine, runEngine, hbm', hback, hstarted.bm]
    · simp [AudioTurn.ops, audioOps, pollOps, runOps, pollEngine, hbm', hback, hstarted.bm,
        AudioOp.heard]
  · have hpolled := hkept.trans hbm'
    have hafter : a.after e = audioEnd (dataModeDetection (v8Transition (bmChunk
        (bmPoll (captureChunk (audioStart a.call) a.payload a.samples) a.samples e.bm)
          a.samples e) e)) a.payload a.samples := by
      simp [AudioTurn.after, processAudio, pollEngine, runEngine, hbm', hpolled]
    rw [hafter, (audioEnd_line _ _ _).bm, (dataModeDetection_line _).bm, v8Transition_bm,
      bmChunk_bm, hpolled] at hleft
    cases hleft

theorem socket_running {c : SmCall} (h : TxRunning c) (as : SmAstSocket) :
    TxRunning { c with as := as } := h

theorem v8_turn {cfg : SmCallConfig} {r : InitResults} {peer : Peer} {before : List Turn} {t : Turn}
    (h : V8HandsOver (smCallRun cfg r peer before) t) :
    InV22 4000 (smCallRun cfg r peer (before ++ [t])).call.history.sounded
      (smCallRun cfg r peer (before ++ [t])).call := by
  obtain ⟨a, haudio, hbm, hphase, hleft, hmode⟩ := h
  obtain ⟨⟨as, ha⟩, hclosing⟩ := audioOf_turn haudio t
  have hbegin : InV8Phase a.call := by
    rw [ha]
    exact ⟨hbm, hphase, socket_running (run_running cfg r peer before) as⟩
  have hover := v8_handed_over hbegin hleft hmode
  have hclosed := hclosing.line hover.bm
  have hrun : smCallRun cfg r peer (before ++ [t]) = smCallTurn (smCallRun cfg r peer before) t :=
    Transition.run_append _ _ _ _
  rw [hrun, hclosed.sounded]
  exact hover.frame hclosed

theorem bm_turn {cfg : SmCallConfig} {r : InitResults} {peer : Peer} {before : List Turn} {t : Turn}
    (h : BmHandsOver (smCallRun cfg r peer before) t)
    (hearly : NoEarlyAudio (smCallRun cfg r peer before) t) :
    V22Line (smCallRun cfg r peer before) (smCallRun cfg r peer before).call.history.sounded
      (lineTurn ⟨smCallRun cfg r peer before, 0, [], []⟩ t) := by
  obtain ⟨a, haudio, hbm, hleft⟩ := h
  obtain ⟨⟨as, ha⟩, hclosing⟩ := audioOf_turn haudio t
  have hbm' : a.call.bm = true := by
    rw [ha]
    exact hbm
  have hrunning : TxRunning a.call := by
    rw [ha]
    exact socket_running (run_running cfg r peer before) as
  have hsounded : a.call.history.sounded = (smCallRun cfg r peer before).call.history.sounded := by
    rw [ha]
  obtain ⟨hafter, hchunk⟩ := bm_handed_over hbm' hrunning hleft 0
  have hbytes := lineTurn_bytes (s := smCallRun cfg r peer before)
    (l := ⟨smCallRun cfg r peer before, 0, [], []⟩) t (List.append_nil _).symm
  rw [hsounded] at hafter hchunk
  simp only [V22Line, lineTurn, haudio, Nat.zero_add, List.nil_append] at hbytes ⊢
  exact ⟨hafter.frame (hclosing.line hafter.bm),
    ⟨hbytes, answered_sent hchunk.played hearly haudio⟩, hchunk.heard⟩

theorem audio_leaves_first {s : CallRun} {a : AudioTurn} (h : audioOf s = some a) (t : Turn) :
    (smCallTurn s t).stage ≠ .firstMessage := by
  obtain ⟨-, ⟨-, hstage⟩ | ⟨-, hover⟩⟩ := audioOf_call h t
  · exact hstage
  · simp [hover]

theorem handed_back_iff {cfg : SmCallConfig} {r : InitResults} {peer : Peer} {before : List Turn}
    {t : Turn} (h : BmHandsOver (smCallRun cfg r peer before) t) (after : List Turn) :
    V22OnLine (smCallRun cfg r peer before) (smCallRun cfg r peer before).call.history.sounded
        (onLine (smCallRun cfg r peer before) (t :: after)) ↔
      NoEarlyAudio (smCallRun cfg r peer before) t := by
  obtain ⟨a, haudio, -⟩ := id h
  rw [onLine, Transition.run_cons]
  constructor
  · intro hline
    by_contra hearly
    have hmissing := Transition.run_invariant (P := Unanswered) (fun _ t hl => hl.turn t) after
      (early_unanswered (l := ⟨smCallRun cfg r peer before, 0, [], []⟩) rfl hearly)
    exact absurd hline.output.length hmissing.ne
  · intro hearly
    have hstage := audio_leaves_first haudio t
    rw [← lineTurn_run ⟨smCallRun cfg r peer before, 0, [], []⟩ t] at hstage
    exact (v22_after (bm_turn h hearly) hstage after).2

theorem handed_over {cfg : SmCallConfig} {r : InitResults} {peer : Peer} {before : List Turn}
    {t : Turn} (h : V8HandsOver (smCallRun cfg r peer before) t) (after : List Turn) :
    V22OnLine (smCallRun cfg r peer (before ++ [t]))
      (smCallRun cfg r peer (before ++ [t])).call.history.sounded
      (onLine (smCallRun cfg r peer (before ++ [t])) after) := by
  obtain ⟨a, haudio, -⟩ := id h
  have hstage : (smCallRun cfg r peer (before ++ [t])).stage ≠ .firstMessage := by
    rw [smCallRun, Transition.run_append]
    exact audio_leaves_first haudio t
  have hline : V22Line (smCallRun cfg r peer (before ++ [t]))
      (smCallRun cfg r peer (before ++ [t])).call.history.sounded
      ⟨smCallRun cfg r peer (before ++ [t]), 0, [], []⟩ :=
    ⟨v8_turn h, ⟨(List.append_nil _).symm, rfl⟩, rfl⟩
  exact (v22_after hline hstage after).2

theorem plain_answer_iff {cfg : SmCallConfig} {r : InitResults} (h : PlainAnswer cfg r)
    (peer : Peer) (turns : List Turn) :
    AnswerOnLine (smCallStart (smCallInit cfg r) peer) (8 * cfg.preToneSilenceMs).toNat
        (8 * cfg.answerToneMs).toNat (onLine (smCallStart (smCallInit cfg r) peer) turns) ↔
      Transition.Along smCallTurn NoEarlyAudio (smCallStart (smCallInit cfg r) peer) turns := by
  have hinit := (init_answering h).frame (socket_line _ smAstInit)
  have hline : AnswerLine (smCallStart (smCallInit cfg r) peer) (8 * cfg.preToneSilenceMs).toNat
      (8 * cfg.answerToneMs).toNat ⟨smCallStart (smCallInit cfg r) peer, 0, [], []⟩ :=
    ⟨.inl hinit, ⟨rfl, rfl⟩, by simp⟩
  exact answer_iff hline turns

theorem sample_exact_iff_uuid_first (cfg : SmCallConfig) (r : InitResults) (peer : Peer) :
    (PlainAnswer cfg r → ∀ turns,
      AnswerOnLine (smCallStart (smCallInit cfg r) peer) (8 * cfg.preToneSilenceMs).toNat
          (8 * cfg.answerToneMs).toNat (onLine (smCallStart (smCallInit cfg r) peer) turns) ↔
        Transition.Along smCallTurn NoEarlyAudio (smCallStart (smCallInit cfg r) peer) turns) ∧
    (∀ before t after, V8HandsOver (smCallRun cfg r peer before) t →
      V22OnLine (smCallRun cfg r peer (before ++ [t]))
        (smCallRun cfg r peer (before ++ [t])).call.history.sounded
        (onLine (smCallRun cfg r peer (before ++ [t])) after)) ∧
    (∀ before t after, BmHandsOver (smCallRun cfg r peer before) t →
      (V22OnLine (smCallRun cfg r peer before) (smCallRun cfg r peer before).call.history.sounded
          (onLine (smCallRun cfg r peer before) (t :: after)) ↔
        NoEarlyAudio (smCallRun cfg r peer before) t)) :=
  ⟨fun h turns => plain_answer_iff h peer turns, fun _ _ after h => handed_over h after,
    fun _ _ after h => handed_back_iff h after⟩

def chirpConfig : SmCallConfig := { v22Config with answerToneMs := 1, preToneSilenceMs := 1 }

def v8Config : SmCallConfig := { v22Config with useV8 := true }

def audioFrame (samples : Nat) : Message := ⟨smAsKindAudio, List.replicate (2 * samples) 0⟩

def quietTurn : Turn := idleTurn fun _ => ⟨.belowOff, false, 1⟩

def agreedTurn : Turn :=
  { quietTurn with audio := { quietTurn.audio with bm := ⟨.agreedV22, 0, false⟩ } }

def v22ResultTurn : Turn :=
  { quietTurn with audio := { quietTurn.audio with v8Reports := [⟨2, 4⟩] } }

def chirpCall : CallRun :=
  smCallStart (smCallInit chirpConfig plainInit)
    (promptPeer (uuidMessage :: List.replicate 3 (audioFrame 10)))

def v8Peer : Peer :=
  promptPeer (uuidMessage :: audioFrame 10 :: List.replicate 26 (audioFrame 160))

def bmPeer : Peer := promptPeer (uuidMessage :: List.replicate 26 (audioFrame 160))

def v8Over : CallRun := smCallRun v8Config plainInit v8Peer [quietTurn, v22ResultTurn]

def bmCall : CallRun := smCallRun bmConfig plainInit bmPeer [quietTurn]

-- One message after the other, each with its turn of the pump.
theorem tone_and_hand_overs_sample_for_sample :
    (AnswerOnLine chirpCall 8 8 (onLine chirpCall (List.replicate 6 quietTurn)) ∧
        (onLine chirpCall (List.replicate 6 quietTurn)).samples = 30) ∧
      (V22OnLine v8Over v8Over.call.history.sounded (onLine v8Over (List.replicate 52 quietTurn)) ∧
        (onLine v8Over (List.replicate 52 quietTurn)).samples = 4160) ∧
      (V22OnLine bmCall bmCall.call.history.sounded
          (onLine bmCall (agreedTurn :: List.replicate 50 quietTurn)) ∧
        (onLine bmCall (agreedTurn :: List.replicate 50 quietTurn)).samples = 4160) := by
  have hplain : PlainAnswer chirpConfig plainInit := by decide
  have hv8 : V8HandsOver (smCallRun v8Config plainInit v8Peer [quietTurn]) v22ResultTurn := by
    decide +kernel
  have hbm : BmHandsOver (smCallRun bmConfig plainInit bmPeer [quietTurn]) agreedTurn := by
    decide +kernel
  refine ⟨⟨?_, by decide +kernel⟩, ⟨?_, by decide +kernel⟩, ⟨?_, by decide +kernel⟩⟩
  · exact ((sample_exact_iff_uuid_first chirpConfig plainInit _).1 hplain _).mpr (by decide +kernel)
  · exact (sample_exact_iff_uuid_first v8Config plainInit v8Peer).2.1 _ _ _ hv8
  · exact ((sample_exact_iff_uuid_first bmConfig plainInit bmPeer).2.2 _ _ _ hbm).mpr
      (by decide +kernel)

def toneConfig : SmCallConfig := { v22Config with answerToneMs := 3300, preToneSilenceMs := 75 }

theorem audio_before_the_uuid_is_not_answered :
    PlainAnswer toneConfig plainInit ∧
      ¬ AnswerOnLine (smCallStart (smCallInit toneConfig plainInit) (promptPeer [oneSample])) 600 26400
        (onLine (smCallStart (smCallInit toneConfig plainInit) (promptPeer [oneSample]))
          [quietTurn]) := by
  refine ⟨by decide, fun h => ?_⟩
  have hlength := h.output.length
  revert hlength
  decide +kernel

end Softmodem.Call
