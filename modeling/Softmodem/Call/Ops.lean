import Softmodem.Lib.Transition
import Softmodem.Call.Steps

namespace Softmodem.Call

open AudioSocket Serial V22bis

inductive AudioOp where
  | start
  | capture (payload : List UInt8) (n : Nat)
  | poll (n : Nat) (o : BmObservation)
  | bm (n : Nat) (e : AudioEnv)
  | v8 (i m : Nat) (e : AudioEnv)
  | tone (i : Nat)
  | transmit (i m : Nat)
  | squelch (i m : Nat) (rx : Nat → RxObservation)
  | receive (i m : Nat) (rx : Nat → RxObservation)
  | v34 (i m : Nat) (e : AudioEnv)
  | transition (e : AudioEnv)
  | detect
  | finish (payload : List UInt8) (n : Nat)

def squelchRx (c : SmCall) (i m : Nat) (rx : Nat → RxObservation) : SmCall :=
  let c := modemRx (touch c .rxsquelch 0 m) i m rx
  { c with rxGuard := c.rxGuard - m }

def receiveRx (c : SmCall) (i m : Nat) (rx : Nat → RxObservation) : SmCall :=
  modemRx (touch c .input i m) i m rx

def v34Chunk (c : SmCall) (i m : Nat) (e : AudioEnv) : SmCall :=
  engineEvents (touch (soundFrom c i m .v34) .input i m) e.engine

def audioOp (c : SmCall) : AudioOp → SmCall
  | .start => audioStart c
  | .capture payload n => captureChunk c payload n
  | .poll n o => bmPoll c n o
  | .bm n e => bmChunk c n e
  | .v8 i m e => v8Chunk c i m e
  | .tone i => toneSample c i
  | .transmit i m => modemTx c i m
  | .squelch i m rx => squelchRx c i m rx
  | .receive i m rx => receiveRx c i m rx
  | .v34 i m e => v34Chunk c i m e
  | .transition e => v8Transition c e
  | .detect => dataModeDetection c
  | .finish payload n => audioEnd c payload n

def guardOps (c : SmCall) (i m : Nat) (e : AudioEnv) : List AudioOp :=
  if c.rxGuard > 0 then
    [.transmit i (min m c.rxGuard), .squelch i (min m c.rxGuard) e.rx]
  else []

def engineOps (c : SmCall) (i m : Nat) (e : AudioEnv) : List AudioOp :=
  if m = 0 then []
  else if c.mode = .v34 then [.v34 i m e]
  else [.transmit i m, .receive i m e.rx]

def loopOps (n : Nat) (e : AudioEnv) : Nat → SmCall → List AudioOp
  | 0, _ => []
  | left + 1, c =>
      let i := n - (left + 1)
      match c.phase with
      | .v8 => [.v8 i (left + 1) e]
      | .answerTone => .tone i :: loopOps n e left (toneSample c i)
      | _ =>
          let (d, skip) := guardChunk c i (left + 1) e
          guardOps c i (left + 1) e ++ engineOps d (i + skip) (left + 1 - skip) e

def pollOps (c : SmCall) (n : Nat) (e : AudioEnv) : List AudioOp :=
  if c.bm then [.poll n e.bm] else []

def runOps (c : SmCall) (n : Nat) (e : AudioEnv) : List AudioOp :=
  if c.bm then [.bm n e] else loopOps n e n c

def audioOps (c : SmCall) (payload : List UInt8) (n : Nat) (e : AudioEnv) : List AudioOp :=
  let d := captureChunk (audioStart c) payload n
  [.start, .capture payload n] ++ pollOps d n e ++ runOps (pollEngine d n e) n e ++
    [.transition e, .detect, .finish payload n]

theorem guardOps_run (c : SmCall) (i m : Nat) (e : AudioEnv) :
    Transition.run audioOp c (guardOps c i m e) = (guardChunk c i m e).1 := by
  simp only [guardOps, guardChunk]
  split <;> rfl

theorem engineOps_run (c : SmCall) (i m : Nat) (e : AudioEnv) :
    Transition.run audioOp c (engineOps c i m e) = engineChunk c i m e := by
  simp only [engineOps, engineChunk]
  split
  · rfl
  · split <;> rfl

theorem loopOps_run (n : Nat) (e : AudioEnv) (left : Nat) (c : SmCall) :
    Transition.run audioOp c (loopOps n e left c) = audioLoop n e left c := by
  induction left generalizing c with
  | zero => rfl
  | succ left ih =>
      have hengine : Transition.run audioOp c
          (guardOps c (n - (left + 1)) (left + 1) e ++
            engineOps (guardChunk c (n - (left + 1)) (left + 1) e).1
              (n - (left + 1) + (guardChunk c (n - (left + 1)) (left + 1) e).2)
              (left + 1 - (guardChunk c (n - (left + 1)) (left + 1) e).2) e) =
          engineChunk (guardChunk c (n - (left + 1)) (left + 1) e).1
            (n - (left + 1) + (guardChunk c (n - (left + 1)) (left + 1) e).2)
            (left + 1 - (guardChunk c (n - (left + 1)) (left + 1) e).2) e := by
        rw [Transition.run_append, guardOps_run, engineOps_run]
      simp only [loopOps, audioLoop]
      cases hphase : c.phase with
      | v8 => rfl
      | answerTone => exact ih (toneSample c (n - (left + 1)))
      | idle => exact hengine
      | handshake => exact hengine
      | data => exact hengine
      | hangup => exact hengine

theorem pollOps_run (c : SmCall) (n : Nat) (e : AudioEnv) :
    Transition.run audioOp c (pollOps c n e) = pollEngine c n e := by
  simp only [pollOps, pollEngine]
  split <;> rfl

theorem runOps_run (c : SmCall) (n : Nat) (e : AudioEnv) :
    Transition.run audioOp c (runOps c n e) = runEngine c n e := by
  simp only [runOps, runEngine]
  split
  · rfl
  · exact loopOps_run n e n c

theorem audioOps_run (c : SmCall) (payload : List UInt8) (n : Nat) (e : AudioEnv) :
    Transition.run audioOp c (audioOps c payload n e) = processAudio c payload n e := by
  unfold audioOps processAudio
  simp only [Transition.run_append, Transition.run_cons, Transition.run_nil, audioOp, pollOps_run,
    runOps_run]

end Softmodem.Call
