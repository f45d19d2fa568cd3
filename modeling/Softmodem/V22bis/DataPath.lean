import Softmodem.Lib.Expansion
import Softmodem.Serial.Conservation
import Softmodem.V22bis.Symbols

namespace Softmodem.V22bis

open Serial Transition

def queueGetBit (q : SmBitq) : Option Bool × SmBitq :=
  let (q, bit) := Serial.callGetBit q
  (some bit, q)

def deframe (d : SmDeframer) : RxOut → SmDeframer
  | .bit b => smDeframerBit d b
  | .status st => if st = .retrainOccurred then smDeframerInit else d

-- Two modems in data mode: what one has queued goes out as symbols, which the other decodes.
structure DataPath where
  near : V22bisState
  far : V22bisState
  channel : Channel

inductive PathOp where
  | push (byte : UInt8)
  | baud (noise : ℚ × ℚ)
  | take (len : Int)

section Path

variable (k : Nat)

def heard (far : V22bisState) (sent : Symbol) (noise : ℚ × ℚ) : V22bisState × List RxOut :=
  processBaud far (decision far.rx.sixteenWayDecisions (rotate k (point sent) + noise))

def pathStep (p : DataPath) : PathOp → DataPath
  | .push byte => { p with channel := channelStep p.channel (.push byte) }
  | .take len => { p with channel := channelStep p.channel (.take len) }
  | .baud noise =>
      let (sent, near, _, txbits) := getbaud queueGetBit p.near p.channel.txbits
      match sent with
      | none => { p with near := near, channel := { p.channel with txbits := txbits } }
      | some v =>
          let (far, outs) := heard k p.far v noise
          { near := near
            far := far
            channel :=
              { p.channel with
                txbits := txbits
                deframer := outs.foldl deframe p.channel.deframer } }

def RetrainHeard (p : DataPath) (noise : ℚ × ℚ) : Prop :=
  ∃ v ∈ (getbaud queueGetBit p.near p.channel.txbits).1,
    .status .retrainOccurred ∈ (heard k p.far v noise).2

-- The noise is within what a decision stands, no retrain is asked for, and the bits have room.
def Clear (p : DataPath) : PathOp → Prop
  | .baud noise =>
      Tolerated p.far.rx.sixteenWayDecisions noise ∧ ¬ RetrainHeard k p noise ∧
        p.channel.deframer.out.length + 4 ≤ smDeframerOut
  | _ => True

end Path

section Source

variable {σ τ : Type*} {f : σ → Option Bool × σ} {g : τ → Option Bool × τ} {φ : σ → τ}

theorem getScrambledBit_map (h : ∀ u, g (φ u) = ((f u).1, φ (f u).2)) (t : Tx) (u : σ) :
    getScrambledBit g t (φ u) =
      ((getScrambledBit f t u).1, (getScrambledBit f t u).2.1, φ (getScrambledBit f t u).2.2) := by
  unfold getScrambledBit
  cases t.currentGetBit with
  | fakeGetBit => rfl
  | getBit =>
      rw [h]
      rcases hf : f u with ⟨_ | bit, u'⟩ <;> rfl

-- A transmitter sends the same whatever way its source keeps the bits.
theorem getbaud_map (h : ∀ u, g (φ u) = ((f u).1, φ (f u).2)) (s : V22bisState) (u : σ) :
    getbaud g s (φ u) =
      ((getbaud f s u).1, (getbaud f s u).2.1, (getbaud f s u).2.2.1,
        φ (getbaud f s u).2.2.2) := by
  unfold getbaud
  split
  · rfl
  · extract_lets t
    split
    · rfl
    · simp only [getScrambledBit_map h]
      split <;> rfl

end Source

def queueAfter (q : SmBitq) (i : Nat) : SmBitq := (fun q => (Serial.callGetBit q).1)^[i] q

def queueBits (q : SmBitq) (i : Nat) : Bool := (Serial.callGetBit (queueAfter q i)).2

theorem queueGetBit_after (q : SmBitq) (i : Nat) :
    queueGetBit (queueAfter q i) =
      ((endless (queueBits q) i).1, queueAfter q (endless (queueBits q) i).2) := by
  simp [queueGetBit, endless, queueBits, queueAfter, Function.iterate_succ_apply']

def drawn (source : Nat → Bool) (u n : Nat) : List Bool :=
  (List.range n).map fun i => source (u + i)

def symbolBits (sixteen : Bool) : Nat := if sixteen then 4 else 2

theorem scramble_currentGetBit (t : Tx) (bit : Bool) :
    (scramble t bit).1.currentGetBit = t.currentGetBit := rfl

theorem advance_currentGetBit (t : Tx) (bits : Fin 4) :
    (advance t bits).currentGetBit = t.currentGetBit := rfl

theorem getScrambledBit_data {source : Nat → Bool} {t : Tx} (h : t.currentGetBit = .getBit)
    (u : Nat) :
    getScrambledBit (endless source) t u =
      ((scramble t (source u)).1, (scramble t (source u)).2, u + 1) := by
  simp only [getScrambledBit, h, endless]

theorem getbaud_data {sixteen : Bool} {s : V22bisState} (hs : Sending sixteen s)
    (hbit : s.tx.currentGetBit = .getBit) (source : Nat → Bool) (u : Nat) :
    drawnBits source s u = (scrambleAll s.tx (drawn source u (symbolBits sixteen))).2 ∧
      ∃ raw, (getbaud (endless source) s u).2 =
        ({ s with tx := advance (scrambleAll s.tx (drawn source u (symbolBits sixteen))).1 raw },
          [], u + symbolBits sixteen) := by
  have hnormal : ¬ s.tx.training ≠ .normalOperation := fun hne => hne hs.training
  have hup : ¬ s.tx.shutdown ≠ 0 := fun hne => hne hs.shutdown
  have hrun : ¬ s.tx.shutdown > 10 := by
    rw [hs.shutdown]
    decide
  have hrate := hs.rate
  unfold getbaud drawnBits
  rw [if_neg hnormal, if_neg hup]
  dsimp only
  rw [if_neg hrun]
  cases sixteen with
  | false =>
      have hslow : s.negotiatedBitRate = 1200 := hrate
      rw [if_pos hslow, if_pos hslow]
      simp only [getScrambledBit_data, hbit, scramble_currentGetBit]
      exact ⟨rfl, _, rfl⟩
  | true =>
      have hfast : ¬ s.negotiatedBitRate = 1200 := by
        rw [hrate]
        decide
      rw [if_neg hfast, if_neg hfast]
      simp only [getScrambledBit_data, hbit, scramble_currentGetBit, advance_currentGetBit]
      exact ⟨rfl, _, rfl⟩

-- What a descrambler gives depends on its register and its counter alone.
structure SameDescrambler (r r' : Rx) : Prop where
  register : r'.scrambleReg = r.scrambleReg
  counter : r'.scramblerPatternCount = r.scramblerPatternCount

theorem SameDescrambler.all {r r' : Rx} (h : SameDescrambler r r') (line : List Bool) :
    (descrambleAll r' line).2 = (descrambleAll r line).2 ∧
      SameDescrambler (descrambleAll r line).1 (descrambleAll r' line).1 := by
  induction line generalizing r r' with
  | nil => exact ⟨rfl, h⟩
  | cons bit line ih =>
      have hnext : SameDescrambler (descramble r bit).1 (descramble r' bit).1 :=
        ⟨by simp [descramble, h.register], by simp [descramble, h.counter]⟩
      obtain ⟨hout, hsame⟩ := ih hnext
      refine ⟨?_, hsame⟩
      have hfirst : (descramble r' bit).2 = (descramble r bit).2 := by
        simp [descramble, h.register, h.counter]
      simp only [descrambleAll, Mealy.run_cons, hfirst, List.cons.injEq, true_and]
      exact hout

structure Listening (sixteen : Bool) (s : V22bisState) : Prop where
  training : s.rx.training = .normalOperation
  sixteenWay : s.rx.sixteenWayDecisions = sixteen

structure Decoded (sixteen : Bool) (s : V22bisState) (nearest : Symbol)
    (result : V22bisState × List RxOut) : Prop where
  outs : result.2 = (descrambleAll s.rx
    (decodedBits sixteen s.rx.constellationState nearest)).2.map RxOut.bit
  descrambler : SameDescrambler (descrambleAll s.rx
    (decodedBits sixteen s.rx.constellationState nearest)).1 result.1.rx
  listening : Listening sixteen result.1
  constellationState : result.1.rx.constellationState = nearest

theorem decodeBaud_decoded {sixteen : Bool} {s : V22bisState} {r : Rx}
    (hsame : SameDescrambler s.rx r) (hstate : r.constellationState = s.rx.constellationState)
    (hr : Listening sixteen { s with rx := r }) (nearest : Symbol) (raw : Fin 4) :
    Decoded sixteen s nearest
      ({ s with rx := { (decodeBaud r nearest).1 with lastRawBits := raw } },
        (decodeBaud r nearest).2) := by
  have heq := decodeBaud_decodes r nearest
  obtain ⟨hsix, hnearest⟩ := decodeBaud_kept r nearest
  have htraining := decodeBaud_training r nearest
  obtain rfl : r.sixteenWayDecisions = sixteen := hr.sixteenWay
  rw [hstate] at heq
  have hnext : SameDescrambler s.rx { r with constellationState := nearest } :=
    ⟨hsame.register, hsame.counter⟩
  obtain ⟨hout, hafter⟩ :=
    hnext.all (decodedBits r.sixteenWayDecisions s.rx.constellationState nearest)
  refine ⟨?_, ⟨?_, ?_⟩, ⟨htraining.trans hr.training, hsix⟩, hnearest⟩
  · simp only [heq, hout]
  · simpa only [heq] using hafter.register
  · simpa only [heq] using hafter.counter

theorem processBaud_decoded {sixteen : Bool} {s : V22bisState} (h : Listening sixteen s)
    {nearest : Symbol} (hretrain : .status .retrainOccurred ∉ (processBaud s nearest).2) :
    Decoded sixteen s nearest (processBaud s nearest) := by
  have hswitch : trainingSwitch s nearest = rxNormalOperation s nearest := by
    simp only [trainingSwitch, h.training]
  unfold processBaud at hretrain ⊢
  rw [hswitch] at hretrain ⊢
  unfold rxNormalOperation at hretrain ⊢
  rcases Decidable.em (alternates s.rx.lastRawBits (rawBits s.rx nearest)) with halt | halt
  · simp only [if_pos halt]
    exact decodeBaud_decoded (r := { s.rx with patternRepeats := s.rx.patternRepeats + 1 })
      ⟨rfl, rfl⟩ rfl ⟨h.training, h.sixteenWay⟩ nearest _
  · simp only [if_neg halt] at hretrain ⊢
    rcases Decidable.em (s.rx.patternRepeats ≥ 50 ∧ isS1Edge s.rx.lastRawBits) with hs1 | hs1
    · simp [if_pos hs1] at hretrain
    · simp only [if_neg hs1]
      exact decodeBaud_decoded (r := { s.rx with patternRepeats := 0 }) ⟨rfl, rfl⟩ rfl
        ⟨h.training, h.sixteenWay⟩ nearest _

structure Ready (sixteen : Bool) (p : DataPath) : Prop where
  sending : Sending sixteen p.near
  data : p.near.tx.currentGetBit = .getBit
  listening : Listening sixteen p.far

def InPhase (k : Nat) (p : DataPath) : Prop :=
  quadrant p.far.rx.constellationState = p.near.tx.constellationState + Fin.ofNat 4 k

structure SameScrambler (t t' : Tx) : Prop where
  register : t'.scrambleReg = t.scrambleReg
  counter : t'.scramblerPatternCount = t.scramblerPatternCount

def DataPath.bits (sixteen : Bool) (p : DataPath) : List Bool :=
  drawn (queueBits p.channel.txbits) 0 (symbolBits sixteen)

def DataPath.line (sixteen : Bool) (p : DataPath) : List Bool :=
  (scrambleAll p.near.tx (p.bits sixteen)).2

def DataPath.sent (sixteen : Bool) (p : DataPath) : Symbol :=
  encodeSymbol p.near.tx.constellationState (p.line sixteen)

structure Sends (sixteen : Bool) (p : DataPath) (near : V22bisState) : Prop where
  getbaud : getbaud queueGetBit p.near p.channel.txbits =
    (some (p.sent sixteen), near, [], queueAfter p.channel.txbits (symbolBits sixteen))
  length : (p.line sixteen).length = if sixteen then 4 else 2
  sending : Sending sixteen near
  data : near.tx.currentGetBit = .getBit
  constellationState : near.tx.constellationState = quadrant (p.sent sixteen)
  scrambler : SameScrambler (scrambleAll p.near.tx (p.bits sixteen)).1 near.tx

theorem scrambleAll_currentGetBit (t : Tx) (bits : List Bool) :
    (scrambleAll t bits).1.currentGetBit = t.currentGetBit := by
  induction bits generalizing t with
  | nil => rfl
  | cons bit bits ih => exact ih (scramble t bit).1

theorem near_sends {sixteen : Bool} {p : DataPath} (h : Ready sixteen p) :
    ∃ near, Sends sixteen p near := by
  have hsent := getbaud_sent h.sending (queueBits p.channel.txbits) 0
  obtain ⟨hdrawn, raw, hafter⟩ := getbaud_data h.sending h.data (queueBits p.channel.txbits) 0
  have hbaud := getbaud_map (queueGetBit_after p.channel.txbits) p.near 0
  obtain ⟨hsymbol, hlength, hsending, hstate⟩ := hsent
  rw [hdrawn] at hsymbol hlength hstate
  rw [hsymbol, hafter, Nat.zero_add] at hbaud
  rw [hafter] at hsending hstate
  refine ⟨_, hbaud, hlength, hsending, ?_, hstate, rfl, rfl⟩
  rw [advance_currentGetBit, scrambleAll_currentGetBit]
  exact h.data

-- What one symbol does, whatever the far end held: `line` is what it takes the symbol for.
structure Carried (k : Nat) (sixteen : Bool) (p : DataPath) (line : List Bool) (p' : DataPath) :
    Prop where
  length : line.length = symbolBits sixteen
  ready : Ready sixteen p'
  inPhase : InPhase k p'
  scrambler : SameScrambler (scrambleAll p.near.tx (p.bits sixteen)).1 p'.near.tx
  descrambler : SameDescrambler (descrambleAll p.far.rx line).1 p'.far.rx
  channel : p'.channel =
    { p.channel with
      txbits := queueAfter p.channel.txbits (symbolBits sixteen)
      deframer := (descrambleAll p.far.rx line).2.foldl smDeframerBit p.channel.deframer }
  heard : InPhase k p → line = p.line sixteen

theorem foldl_deframe (bits : List Bool) (d : SmDeframer) :
    (bits.map RxOut.bit).foldl deframe d = bits.foldl smDeframerBit d := by
  rw [List.foldl_map]
  rfl

theorem baud_carried {k : Nat} {sixteen : Bool} {p : DataPath} (h : Ready sixteen p)
    {noise : ℚ × ℚ} (hclear : Clear k p (.baud noise)) :
    ∃ line, Carried k sixteen p line (pathStep k p (.baud noise)) := by
  obtain ⟨near, hsends⟩ := near_sends h
  obtain ⟨hnoise, hretrain, -⟩ := hclear
  rw [h.listening.sixteenWay] at hnoise
  have hdecision : decision sixteen (rotate k (point (p.sent sixteen)) + noise) =
      turned (Fin.ofNat 4 k) (p.sent sixteen) :=
    decision_rotated k (encoded_sliceable _ hsends.length) hnoise
  have hheard : heard k p.far (p.sent sixteen) noise =
      processBaud p.far (turned (Fin.ofNat 4 k) (p.sent sixteen)) := by
    rw [heard, h.listening.sixteenWay, hdecision]
  have hquiet : .status .retrainOccurred ∉
      (processBaud p.far (turned (Fin.ofNat 4 k) (p.sent sixteen))).2 := by
    rw [← hheard]
    exact fun hmem => hretrain ⟨_, by simp [hsends.getbaud], hmem⟩
  obtain ⟨houts, hdescrambler, hlistening, hnearest⟩ := processBaud_decoded h.listening hquiet
  have hphase := quadrant_turned (Fin.ofNat 4 k) (p.sent sixteen)
  refine ⟨decodedBits sixteen p.far.rx.constellationState
    (turned (Fin.ofNat 4 k) (p.sent sixteen)), ?_⟩
  simp only [pathStep, hsends.getbaud, hheard]
  refine ⟨?_, ⟨hsends.sending, hsends.data, hlistening⟩, ?_, hsends.scrambler, hdescrambler, ?_, ?_⟩
  · cases sixteen <;> rfl
  · rw [InPhase, hnearest, hphase, hsends.constellationState]
  · simp only [houts, foldl_deframe]
  · exact decoded_of_quadrant hsends.length

theorem Synchronised.same {t t' : Tx} {r r' : Rx} (h : Synchronised t r) (ht : SameScrambler t t')
    (hr : SameDescrambler r r') : Synchronised t' r' := by
  refine ⟨fun i hi hlow => ?_, ?_⟩
  · rw [ht.register, hr.register]
    exact h.register i hi hlow
  · rw [ht.counter, hr.counter]
    exact h.counter

theorem Synchronised.all {t : Tx} {r : Rx} (h : Synchronised t r) (bits : List Bool) :
    (descrambleAll r (scrambleAll t bits).2).2 = bits ∧
      Synchronised (scrambleAll t bits).1 (descrambleAll r (scrambleAll t bits).2).1 := by
  refine ⟨Mealy.inverts (fun _ _ _ h => h.step) (fun _ _ _ h => h.descramble) bits h, ?_⟩
  induction bits generalizing t r with
  | nil => exact h
  | cons bit bits ih => exact ih h.step

structure InStep (k : Nat) (sixteen : Bool) (p : DataPath) : Prop where
  ready : Ready sixteen p
  inPhase : InPhase k p
  synchronised : Synchronised p.near.tx p.far.rx

-- A symbol in step is as many bits pulled from the queue into the deframer.
def pulls (p : DataPath) : PathOp → List ChannelOp
  | .push byte => [.push byte]
  | .take len => [.take len]
  | .baud _ => List.replicate (symbolBits p.far.rx.sixteenWayDecisions) .pull

theorem drawn_succ (q : SmBitq) (n : Nat) :
    drawn (queueBits q) 0 (n + 1) =
      (Serial.callGetBit q).2 :: drawn (queueBits (Serial.callGetBit q).1) 0 n := by
  rw [drawn, List.range_succ_eq_map, List.map_cons, List.map_map]
  refine congrArg _ (List.map_congr_left fun i _ => ?_)
  simp [queueBits, queueAfter]

theorem pulls_run (n : Nat) (c : Channel) :
    run channelStep c (List.replicate n .pull) =
      { c with
        txbits := queueAfter c.txbits n
        deframer := (drawn (queueBits c.txbits) 0 n).foldl smDeframerBit c.deframer } := by
  induction n generalizing c with
  | zero => rfl
  | succ n ih =>
      rw [List.replicate_succ, run_cons, ih, drawn_succ]
      rfl

theorem completed_length (d : SmDeframer) (bit : Bool) : (completed d bit).length ≤ 1 := by
  unfold completed
  split <;> simp

theorem pulls_room {n : Nat} {c : Channel} (h : c.deframer.out.length + n ≤ smDeframerOut) :
    Along channelStep RoomForBit c (List.replicate n .pull) := by
  induction n generalizing c with
  | zero => trivial
  | succ n ih =>
      have hroom : c.deframer.out.length < smDeframerOut := by omega
      refine ⟨hroom, ih ?_⟩
      have hlast := completed_length c.deframer (Serial.callGetBit c.txbits).2
      simp only [channelStep, smDeframerBit_out _ hroom, List.length_append]
      omega

theorem symbolBits_le (sixteen : Bool) : symbolBits sixteen ≤ 4 := by
  cases sixteen <;> decide

section Run

variable {k : Nat} {sixteen : Bool} {p : DataPath}

theorem InStep.step (h : InStep k sixteen p) {op : PathOp} (hclear : Clear k p op) :
    InStep k sixteen (pathStep k p op) ∧
      (pathStep k p op).channel = run channelStep p.channel (pulls p op) ∧
      Along channelStep RoomForBit p.channel (pulls p op) := by
  cases op with
  | push byte =>
      exact ⟨⟨⟨h.ready.sending, h.ready.data, h.ready.listening⟩, h.inPhase, h.synchronised⟩, rfl,
        trivial, trivial⟩
  | take len =>
      exact ⟨⟨⟨h.ready.sending, h.ready.data, h.ready.listening⟩, h.inPhase, h.synchronised⟩, rfl,
        trivial, trivial⟩
  | baud noise =>
      obtain ⟨line, hcarried⟩ := baud_carried h.ready hclear
      obtain ⟨-, hready, hphase, hscrambler, hdescrambler, hchannel, hheard⟩ := hcarried
      rw [hheard h.inPhase, DataPath.line] at hdescrambler hchannel
      obtain ⟨hbits, hsynchronised⟩ := h.synchronised.all (p.bits sixteen)
      refine ⟨⟨hready, hphase, hsynchronised.same hscrambler hdescrambler⟩, ?_, ?_⟩
      · rw [hchannel, hbits, pulls, h.ready.listening.sixteenWay, pulls_run]
        rfl
      · apply pulls_room
        have hroom := hclear.2.2
        have hfour := symbolBits_le p.far.rx.sixteenWayDecisions
        omega

theorem InStep.run (h : InStep k sixteen p) {ops : List PathOp}
    (hops : Along (pathStep k) (Clear k) p ops) :
    InStep k sixteen (run (pathStep k) p ops) ∧
      (Transition.run (pathStep k) p ops).channel =
        Transition.run channelStep p.channel (expand (pathStep k) pulls p ops) ∧
      Along channelStep RoomForBit p.channel (expand (pathStep k) pulls p ops) := by
  induction ops generalizing p with
  | nil => exact ⟨h, rfl, trivial⟩
  | cons op ops ih =>
      obtain ⟨hnext, hchannel, hroom⟩ := h.step hops.1
      obtain ⟨hlast, hrest, hroom'⟩ := ih hnext hops.2
      rw [expand, run_append, along_append, ← hchannel]
      exact ⟨hlast, hrest, hroom, hroom'⟩

-- Two modems in step and the line between them are the plain serial channel, noise and all.
theorem data_path_conserves_the_bytes {before : List UInt8} (h : InStep k sixteen p)
    (hwf : p.channel.txbits.WellFormed)
    (hline : Aligned p.channel.deframer p.channel.txbits.contents before) {ops : List PathOp}
    (hops : Along (pathStep k) (Clear k) p ops) :
    let q := Transition.run (pathStep k) p ops
    q.channel = Transition.run channelStep p.channel (expand (pathStep k) pulls p ops) ∧
      (∃ new done, q.channel.accepted = p.channel.accepted ++ new ∧
        q.channel.received = p.channel.received ++ done ∧
        before ++ new = done ++ toComplete q.channel) ∧
      q.channel.deframer.framingErrors = p.channel.deframer.framingErrors := by
  intro q
  obtain ⟨-, hchannel, hroom⟩ := h.run hops
  have hcarries := (Carries.refl hwf hline).run hroom
  rw [← hchannel] at hcarries
  exact ⟨hchannel, hcarries.conserved, hcarries.framingErrors⟩

end Run

theorem fifty_symbols_ask_for_a_retrain {k : Nat} {p : DataPath} {noise : ℚ × ℚ}
    (h : p.far.rx.training = .normalOperation) (hfew : p.far.rx.patternRepeats < 50) :
    ¬ RetrainHeard k p noise := by
  have hno (last : Fin 4) : ¬ (p.far.rx.patternRepeats ≥ 50 ∧ isS1Edge last) :=
    fun hmany => absurd hmany.1 (not_le.mpr hfew)
  have hbits (r : Rx) (nearest : Symbol) :
      .status .retrainOccurred ∉ (decodeBaud r nearest).2 := by
    rw [decodeBaud_decodes]
    simp
  rintro ⟨v, -, hmem⟩
  unfold heard processBaud trainingSwitch at hmem
  simp only [h, rxNormalOperation, if_neg (hno _)] at hmem
  split at hmem
  · exact hbits _ _ hmem
  · exact hbits _ _ hmem

def fastPath : DataPath :=
  { near := fastSender, far := { v22bisZero with rx := fastReceiver }, channel := channelInit }

theorem a_letter_starts_over_the_line :
    let ops : List PathOp := [.push 65, .baud (1 / 2, -1 / 2), .take 1]
    let q := run (pathStep 0) fastPath ops
    q.channel = run channelStep fastPath.channel (expand (pathStep 0) pulls fastPath ops) ∧
      (∃ new done, q.channel.accepted = fastPath.channel.accepted ++ new ∧
        q.channel.received = fastPath.channel.received ++ done ∧
        [] ++ new = done ++ toComplete q.channel) ∧
      q.channel.deframer.framingErrors = fastPath.channel.deframer.framingErrors := by
  have hnoise : Tolerated true ((1 / 2, -1 / 2) : ℚ × ℚ) := by
    constructor
    · norm_num [margin]
    · norm_num [margin, abs_lt]
  have hready : Ready true fastPath := ⟨⟨rfl, rfl, rfl⟩, rfl, rfl, rfl⟩
  have hsync : Synchronised fastPath.near.tx fastPath.far.rx := ⟨fun _ _ _ => rfl, rfl⟩
  refine @data_path_conserves_the_bytes 0 true fastPath [] ⟨hready, rfl, hsync⟩
    smBitqInit_wellFormed (.idle [] rfl rfl) _ ⟨trivial, ⟨hnoise, ?_, by decide⟩, trivial, trivial⟩
  exact fifty_symbols_ask_for_a_retrain rfl (by decide)

end Softmodem.V22bis
