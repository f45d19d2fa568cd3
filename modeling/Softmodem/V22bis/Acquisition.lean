import Softmodem.Serial.Recovery
import Softmodem.V22bis.DataPath

namespace Softmodem.V22bis

open Serial Transition

-- An idle sender scrambles ones.
def ones (n : Nat) : List Bool := List.replicate n true

def OnesBelow (n : Nat) (t : Tx) : Prop := ∀ i < n, i < 17 → t.scrambleReg.getLsbD i = true

theorem onesBelow_scramble {n : Nat} {t : Tx} (h : OnesBelow n t) {bit : Bool}
    (hout : (scramble t bit).2 = true) : OnesBelow (n + 1) (scramble t bit).1 := by
  intro i hi hlow
  have hreg : (scramble t bit).1.scrambleReg = t.scrambleReg.shiftConcat true := by
    rw [← hout]
    rfl
  rw [hreg]
  cases i with
  | zero => simp
  | succ i =>
      have hbit := h i (by omega) (by omega)
      have hsmall : i + 1 < 32 ∧ i < 32 := by omega
      simpa [hsmall] using hbit

theorem onesBelow_all {n m : Nat} {t : Tx} (h : OnesBelow n t)
    (hones : false ∉ (scrambleAll t (ones m)).2) :
    OnesBelow (n + m) (scrambleAll t (ones m)).1 := by
  induction m generalizing n t with
  | zero => exact h
  | succ m ih =>
      obtain ⟨hfirst, hrest⟩ : (scramble t true).2 = true ∧
          false ∉ (scrambleAll (scramble t true).1 (ones m)).2 := by
        simpa [ones, List.replicate_succ, scrambleAll] using hones
      have hnext := ih (onesBelow_scramble h hfirst) hrest
      rwa [Nat.add_assoc, Nat.add_comm 1 m] at hnext

-- With ones in all its register, a one goes out unless the counter complements it.
theorem scramble_ones {t : Tx} (h : OnesBelow 17 t) :
    (scramble t true).2 = !decide (64 ≤ t.scramblerPatternCount) := by
  have h13 := h 13 (by decide) (by decide)
  have h16 := h 16 (by decide) (by decide)
  simp only [scramble, h13, h16]
  cases decide (64 ≤ t.scramblerPatternCount) <;> rfl

theorem counter_stops {m : Nat} {t : Tx} (h : OnesBelow 17 t)
    (hones : false ∉ (scrambleAll t (ones m)).2) : t.scramblerPatternCount + m ≤ 64 ∨ m = 0 := by
  induction m generalizing t with
  | zero => exact .inr rfl
  | succ m ih =>
      obtain ⟨hfirst, hrest⟩ : (scramble t true).2 = true ∧
          false ∉ (scrambleAll (scramble t true).1 (ones m)).2 := by
        simpa [ones, List.replicate_succ, scrambleAll] using hones
      have hcount := scramble_count t true
      have hout := scramble_ones h
      rw [hfirst] at hcount hout
      have hlow : ¬ 64 ≤ t.scramblerPatternCount := by simpa using hout
      have hnext : OnesBelow 17 (scramble t true).1 := fun i hi hlow =>
        onesBelow_scramble h hfirst i (by omega) hlow
      rw [if_pos rfl, if_neg hlow] at hcount
      rcases ih hnext hrest with hle | rfl
      · left
        omega
      · left
        omega

theorem idle_line_has_a_zero (t : Tx) : false ∈ (scrambleAll t (ones 82)).2 := by
  by_contra hones
  have hsplit : ones 82 = ones 17 ++ ones 65 := rfl
  rw [hsplit, scrambleAll, Mealy.run_append, List.mem_append, not_or] at hones
  have hfull : OnesBelow (0 + 17) (scrambleAll t (ones 17)).1 :=
    onesBelow_all (fun i hi => absurd hi (Nat.not_lt_zero i)) hones.1
  rw [Nat.zero_add] at hfull
  rcases counter_stops hfull hones.2 with hle | hzero
  · omega
  · cases hzero

theorem idle_bits_synchronise (t : Tx) (r : Rx) {n : Nat} (hn : 82 ≤ n) :
    Synchronised (scrambleAll t (ones n)).1 (descrambleAll r (scrambleAll t (ones n)).2).1 := by
  have hnone : SharesBits 0 t r := fun i hi => absurd hi (Nat.not_lt_zero i)
  have hshares := scrambleAll_shares hnone (ones n)
  refine ⟨fun i hi hlow => hshares i ?_ hlow, scrambleAll_counter (.inr ?_)⟩
  · rw [ones, List.length_replicate]
    omega
  · have hsplit : ones n = ones 82 ++ ones (n - 82) := by
      rw [ones, ones, ones, ← List.replicate_add, Nat.add_sub_cancel' hn]
    rw [hsplit, scrambleAll, Mealy.run_append]
    exact List.mem_append_left _ (idle_line_has_a_zero t)

theorem SameScrambler.all {t t' : Tx} (h : SameScrambler t t') (bits : List Bool) :
    (scrambleAll t' bits).2 = (scrambleAll t bits).2 ∧
      SameScrambler (scrambleAll t bits).1 (scrambleAll t' bits).1 := by
  induction bits generalizing t t' with
  | nil => exact ⟨rfl, h⟩
  | cons bit bits ih =>
      have hnext : SameScrambler (scramble t bit).1 (scramble t' bit).1 :=
        ⟨by simp [scramble, h.register, h.counter], by simp [scramble, h.register, h.counter]⟩
      obtain ⟨hout, hsame⟩ := ih hnext
      refine ⟨?_, hsame⟩
      have hfirst : (scramble t' bit).2 = (scramble t bit).2 := by
        simp [scramble, h.register, h.counter]
      simp only [scrambleAll, Mealy.run_cons, hfirst, List.cons.injEq, true_and]
      exact hout

def PathOp.isBaud : PathOp → Bool
  | .baud _ => true
  | _ => false

def PathOp.Idle (op : PathOp) : Prop := ∀ byte, op ≠ .push byte

def bauds (ops : List PathOp) : Nat := ops.countP PathOp.isBaud

theorem bauds_split {n : Nat} {ops : List PathOp} (h : n ≤ bauds ops) :
    ∃ first rest, ops = first ++ rest ∧ bauds first = n := by
  induction ops generalizing n with
  | nil => exact ⟨[], [], rfl, (Nat.le_zero.mp h).symm⟩
  | cons op ops ih =>
      cases n with
      | zero => exact ⟨[], op :: ops, rfl, rfl⟩
      | succ n =>
          rcases hbaud : op.isBaud with _ | _
          · have hle : n + 1 ≤ bauds ops := by simpa [bauds, hbaud] using h
            obtain ⟨first, rest, rfl, hfirst⟩ := ih hle
            exact ⟨op :: first, rest, rfl, by simpa [bauds, hbaud] using hfirst⟩
          · have hle : n ≤ bauds ops := by simpa [bauds, hbaud] using h
            obtain ⟨first, rest, rfl, hfirst⟩ := ih hle
            exact ⟨op :: first, rest, rfl, by simpa [bauds, hbaud] using hfirst⟩

theorem bauds_append (first rest : List PathOp) :
    bauds (first ++ rest) = bauds first + bauds rest := List.countP_append

theorem bauds_take (len : Int) (ops : List PathOp) : bauds (.take len :: ops) = bauds ops := by
  simp [bauds, PathOp.isBaud]

theorem bauds_baud (noise : ℚ × ℚ) (ops : List PathOp) :
    bauds (.baud noise :: ops) = bauds ops + 1 := List.countP_cons_of_pos rfl

theorem queueAfter_empty {q : SmBitq} (h : q.contents = []) (n : Nat) : queueAfter q n = q := by
  have hfix : (Serial.callGetBit q).1 = q := by rw [callGetBit_empty h]
  exact Function.iterate_fixed hfix n

theorem drawn_empty {q : SmBitq} (h : q.contents = []) (n : Nat) :
    drawn (queueBits q) 0 n = ones n := by
  have hbits (i : Nat) : queueBits q i = true := by
    rw [queueBits, queueAfter_empty h, callGetBit_empty h]
  simp [drawn, ones, hbits, List.map_const']

theorem foldl_inCharacter (bits : List Bool) {d : SmDeframer} (h : InCharacter d) :
    InCharacter (bits.foldl smDeframerBit d) := by
  induction bits generalizing d with
  | nil => exact h
  | cons bit bits ih => exact ih (smDeframerBit_inCharacter h bit)

theorem foldl_ones (n : Nat) {d : SmDeframer} (h : InCharacter d) :
    OnesTaken n d ((ones n).foldl smDeframerBit d) := by
  have hbits : bitsOf ((ones n).map .bit) = ones n := by
    simp [bitsOf, List.filterMap_map, Function.comp_def, DeframerOp.bit?]
  have hrun (bits : List Bool) (c : Decoder) :
      (decoderRun c (bits.map .bit)).deframer = bits.foldl smDeframerBit c.deframer := by
    induction bits generalizing c with
    | nil => rfl
    | cons bit bits ih => exact ih _
  have hones : ∀ b ∈ bitsOf ((ones n).map .bit), b = true := by
    intro b hb
    rw [hbits] at hb
    exact List.eq_of_mem_replicate hb
  have htaken := onesTaken_run hones (c := ⟨d, []⟩) h
  rw [hbits, hrun] at htaken
  simpa [ones] using htaken

section Idle

variable {k : Nat} {sixteen : Bool} {p : DataPath}

-- What an idle stretch keeps, in step or not.
structure Kept (sixteen : Bool) (p q : DataPath) : Prop where
  ready : Ready sixteen q
  txbits : q.channel.txbits = p.channel.txbits
  accepted : q.channel.accepted = p.channel.accepted
  inCharacter : InCharacter q.channel.deframer

theorem Carried.kept {line : List Bool} {q : DataPath} (h : Carried k sixteen p line q)
    (hempty : p.channel.txbits.contents = []) (hin : InCharacter p.channel.deframer) :
    Kept sixteen p q := by
  refine ⟨h.ready, ?_, ?_, ?_⟩
  · rw [h.channel, queueAfter_empty hempty]
  · rw [h.channel]
  · rw [h.channel]
    exact foldl_inCharacter _ hin

theorem take_inCharacter {d : SmDeframer} (h : InCharacter d) (len : Int) :
    InCharacter (smDeframerTake d len).1 := (onesTaken_take h len).inCharacter

theorem idle_kept {ops : List PathOp} (h : Ready sixteen p)
    (hempty : p.channel.txbits.contents = []) (hin : InCharacter p.channel.deframer)
    (hidle : ∀ op ∈ ops, op.Idle) (hclear : Along (pathStep k) (Clear k) p ops) :
    Kept sixteen p (run (pathStep k) p ops) ∧
      (InPhase k p ∨ 1 ≤ bauds ops → InPhase k (run (pathStep k) p ops)) := by
  induction ops generalizing p with
  | nil => exact ⟨⟨h, rfl, rfl, hin⟩, fun hphase => hphase.resolve_right (by simp [bauds])⟩
  | cons op ops ih =>
      have hrest : ∀ op ∈ ops, op.Idle := fun op hop => hidle op (List.mem_cons_of_mem _ hop)
      cases op with
      | push byte => exact absurd rfl (hidle _ (List.mem_cons_self ..) byte)
      | take len =>
          have hnext : Ready sixteen (pathStep k p (.take len)) :=
            ⟨h.sending, h.data, h.listening⟩
          rw [run_cons, bauds_take]
          obtain ⟨hlast, hphase⟩ := ih hnext hempty (take_inCharacter hin len) hrest hclear.2
          exact ⟨⟨hlast.ready, hlast.txbits, hlast.accepted, hlast.inCharacter⟩, hphase⟩
      | baud noise =>
          obtain ⟨line, hcarried⟩ := baud_carried h hclear.1
          have hkept := hcarried.kept hempty hin
          obtain ⟨hlast, hphase⟩ :=
            ih hkept.ready (hkept.txbits ▸ hempty) hkept.inCharacter hrest hclear.2
          exact ⟨⟨hlast.ready, hlast.txbits.trans hkept.txbits,
            hlast.accepted.trans hkept.accepted, hlast.inCharacter⟩,
            fun _ => hphase (.inl hcarried.inPhase)⟩

theorem SameScrambler.trans {t t' t'' : Tx} (h : SameScrambler t t') (h' : SameScrambler t' t'') :
    SameScrambler t t'' :=
  ⟨h'.register.trans h.register, h'.counter.trans h.counter⟩

theorem SameDescrambler.trans {r r' r'' : Rx} (h : SameDescrambler r r')
    (h' : SameDescrambler r' r'') : SameDescrambler r r'' :=
  ⟨h'.register.trans h.register, h'.counter.trans h.counter⟩

-- `n` idle bits have been scrambled, sent, heard and descrambled between two states.
structure Idled (n : Nat) (p q : DataPath) : Prop where
  scrambler : SameScrambler (scrambleAll p.near.tx (ones n)).1 q.near.tx
  descrambler :
    SameDescrambler (descrambleAll p.far.rx (scrambleAll p.near.tx (ones n)).2).1 q.far.rx

theorem Idled.trans {n m : Nat} {q s : DataPath} (h : Idled n p q) (h' : Idled m q s) :
    Idled (n + m) p s := by
  obtain ⟨hline, hscrambler⟩ := h.scrambler.all (ones m)
  have hones : ones (n + m) = ones n ++ ones m := List.replicate_add ..
  have hlast := h'.descrambler
  rw [hline] at hlast
  obtain ⟨-, hdescrambler⟩ :=
    h.descrambler.all (scrambleAll (scrambleAll p.near.tx (ones n)).1 (ones m)).2
  refine ⟨?_, ?_⟩
  · rw [hones, scrambleAll, Mealy.run_append]
    exact hscrambler.trans h'.scrambler
  · rw [hones, scrambleAll, Mealy.run_append, descrambleAll, Mealy.run_append]
    exact hdescrambler.trans hlast

theorem idle_idled {ops : List PathOp} (h : Ready sixteen p) (hphase : InPhase k p)
    (hempty : p.channel.txbits.contents = []) (hidle : ∀ op ∈ ops, op.Idle)
    (hclear : Along (pathStep k) (Clear k) p ops) :
    Idled (bauds ops * symbolBits sixteen) p (run (pathStep k) p ops) := by
  induction ops generalizing p with
  | nil =>
      rw [bauds, List.countP_nil, Nat.zero_mul]
      exact ⟨⟨rfl, rfl⟩, ⟨rfl, rfl⟩⟩
  | cons op ops ih =>
      have hrest : ∀ op ∈ ops, op.Idle := fun op hop => hidle op (List.mem_cons_of_mem _ hop)
      cases op with
      | push byte => exact absurd rfl (hidle _ (List.mem_cons_self ..) byte)
      | take len =>
          have hnext : Ready sixteen (pathStep k p (.take len)) :=
            ⟨h.sending, h.data, h.listening⟩
          obtain ⟨hscrambler, hdescrambler⟩ := ih hnext hphase hempty hrest hclear.2
          rw [run_cons, bauds_take]
          exact ⟨hscrambler, hdescrambler⟩
      | baud noise =>
          obtain ⟨line, hcarried⟩ := baud_carried h hclear.1
          have htxbits : (pathStep k p (.baud noise)).channel.txbits = p.channel.txbits := by
            rw [hcarried.channel, queueAfter_empty hempty]
          have hbits : p.bits sixteen = ones (symbolBits sixteen) := drawn_empty hempty _
          have hfirst : Idled (symbolBits sixteen) p (pathStep k p (.baud noise)) := by
            have hdescrambler := hcarried.descrambler
            rw [hcarried.heard hphase, DataPath.line, hbits] at hdescrambler
            exact ⟨hbits ▸ hcarried.scrambler, hdescrambler⟩
          have hlater := ih hcarried.ready hcarried.inPhase (htxbits ▸ hempty) hrest hclear.2
          have hboth := hfirst.trans hlater
          rwa [run_cons, bauds_baud, Nat.add_mul, Nat.one_mul, Nat.add_comm]

-- In step, an idle symbol is so many ones for the deframer.
theorem idle_settles {ops : List PathOp} (h : InStep k sixteen p)
    (hempty : p.channel.txbits.contents = []) (hin : InCharacter p.channel.deframer)
    (hidle : ∀ op ∈ ops, op.Idle) (hclear : Along (pathStep k) (Clear k) p ops) :
    OnesTaken (bauds ops * symbolBits sixteen) p.channel.deframer
      (run (pathStep k) p ops).channel.deframer := by
  induction ops generalizing p with
  | nil =>
      rw [bauds, List.countP_nil, Nat.zero_mul]
      exact foldl_ones 0 hin
  | cons op ops ih =>
      have hrest : ∀ op ∈ ops, op.Idle := fun op hop => hidle op (List.mem_cons_of_mem _ hop)
      obtain ⟨hnext, hchannel, -⟩ := h.step hclear.1
      cases op with
      | push byte => exact absurd rfl (hidle _ (List.mem_cons_self ..) byte)
      | take len =>
          have hfirst := onesTaken_take hin len
          have hlater := ih hnext hempty hfirst.inCharacter hrest hclear.2
          have hboth := hfirst.trans hlater
          rwa [Nat.zero_add, ← bauds_take len] at hboth
      | baud noise =>
          rw [pulls, h.ready.listening.sixteenWay, pulls_run, drawn_empty hempty,
            queueAfter_empty hempty] at hchannel
          have hfirst := foldl_ones (symbolBits sixteen) hin
          have hdeframer : (pathStep k p (.baud noise)).channel.deframer =
              (ones (symbolBits sixteen)).foldl smDeframerBit p.channel.deframer := by
            rw [hchannel]
          rw [← hdeframer] at hfirst
          have hlater := ih hnext (by rw [hchannel]; exact hempty) hfirst.inCharacter hrest hclear.2
          have hboth := hfirst.trans hlater
          rwa [run_cons, bauds_baud, Nat.add_mul, Nat.one_mul, Nat.add_comm]

theorem two_le_symbolBits (sixteen : Bool) : 2 ≤ symbolBits sixteen := by
  cases sixteen <;> decide

theorem idle_locks {ops : List PathOp} (h : Ready sixteen p) (hphase : InPhase k p)
    (hempty : p.channel.txbits.contents = []) (hin : InCharacter p.channel.deframer)
    (hidle : ∀ op ∈ ops, op.Idle) (hlong : 41 ≤ bauds ops)
    (hclear : Along (pathStep k) (Clear k) p ops) :
    InStep k sixteen (run (pathStep k) p ops) := by
  obtain ⟨hkept, hstays⟩ := idle_kept h hempty hin hidle hclear
  obtain ⟨hscrambler, hdescrambler⟩ := idle_idled h hphase hempty hidle hclear
  have hbits : 82 ≤ bauds ops * symbolBits sixteen :=
    Nat.mul_le_mul hlong (two_le_symbolBits sixteen)
  exact ⟨hkept.ready, hstays (.inl hphase),
    (idle_bits_synchronise p.near.tx p.far.rx hbits).same hscrambler hdescrambler⟩

theorem idle_hunts {ops : List PathOp} (h : InStep k sixteen p)
    (hempty : p.channel.txbits.contents = []) (hin : InCharacter p.channel.deframer)
    (hidle : ∀ op ∈ ops, op.Idle) (hlong : 5 ≤ bauds ops)
    (hclear : Along (pathStep k) (Clear k) p ops) :
    Aligned (run (pathStep k) p ops).channel.deframer [] [] := by
  have hones := idle_settles h hempty hin hidle hclear
  have hbits : 10 ≤ bauds ops * symbolBits sixteen :=
    Nat.mul_le_mul hlong (two_le_symbolBits sixteen)
  have hfar : toStop p.channel.deframer ≤ 9 := toStop_le
  refine .idle [] ?_ ?_
  · rw [← toStop_eq_zero_iff hones.inCharacter, hones.remaining]
    omega
  · rw [hones.prev, decide_eq_true (by omega), Bool.true_or]

-- One symbol sets the phase, 41 more the descrambler, and five the deframer.
theorem idle_acquires {idle : List PathOp} (h : Ready sixteen p)
    (hempty : p.channel.txbits.contents = []) (hin : InCharacter p.channel.deframer)
    (hidle : ∀ op ∈ idle, op.Idle) (hlong : 47 ≤ bauds idle)
    (hclear : Along (pathStep k) (Clear k) p idle) :
    InStep k sixteen (run (pathStep k) p idle) ∧ Kept sixteen p (run (pathStep k) p idle) ∧
      Aligned (run (pathStep k) p idle).channel.deframer [] [] := by
  obtain ⟨hkept, -⟩ := idle_kept h hempty hin hidle hclear
  obtain ⟨first, rest, rfl, hfirst⟩ := bauds_split (n := 1) (by omega : 1 ≤ bauds idle)
  rw [bauds_append, hfirst] at hlong
  obtain ⟨lock, settle, rfl, hlock⟩ := bauds_split (n := 41) (by omega : 41 ≤ bauds rest)
  rw [bauds_append, hlock] at hlong
  obtain ⟨hclearFirst, hclearRest⟩ := (along_append first _).mp hclear
  obtain ⟨hclearLock, hclearSettle⟩ := (along_append lock _).mp hclearRest
  have hidleRest (op : PathOp) (hop : op ∈ lock ++ settle) : op.Idle :=
    hidle op (List.mem_append_right first hop)
  obtain ⟨hone, hphase⟩ := idle_kept h hempty hin
    (fun op hop => hidle op (List.mem_append_left _ hop)) hclearFirst
  have hemptyOne := hone.txbits ▸ hempty
  have hidleLock (op : PathOp) (hop : op ∈ lock) := hidleRest op (List.mem_append_left settle hop)
  have hlocked := idle_locks hone.ready (hphase (.inr hfirst.ge)) hemptyOne hone.inCharacter
    hidleLock hlock.ge hclearLock
  obtain ⟨hheld, -⟩ := idle_kept hone.ready hemptyOne hone.inCharacter hidleLock hclearLock
  have hidleSettle (op : PathOp) (hop : op ∈ settle) :=
    hidleRest op (List.mem_append_right lock hop)
  have hemptyHeld := hheld.txbits ▸ hemptyOne
  rw [run_append, run_append] at hkept ⊢
  exact ⟨(hlocked.run hclearSettle).1, hkept,
    idle_hunts hlocked hemptyHeld hheld.inCharacter hidleSettle (by omega) hclearSettle⟩

theorem idle_line_brings_the_receiver_in_step {idle ops : List PathOp} (h : Ready sixteen p)
    (hwf : p.channel.txbits.WellFormed) (hempty : p.channel.txbits.contents = [])
    (hin : InCharacter p.channel.deframer) (hidle : ∀ op ∈ idle, op.Idle)
    (hlong : 47 ≤ bauds idle) (hclear : Along (pathStep k) (Clear k) p (idle ++ ops)) :
    let mid := run (pathStep k) p idle
    let q := run (pathStep k) p (idle ++ ops)
    q.channel = run channelStep mid.channel (expand (pathStep k) pulls mid ops) ∧
      (∃ new done, q.channel.accepted = p.channel.accepted ++ new ∧
        q.channel.received = mid.channel.received ++ done ∧ new = done ++ toComplete q.channel) ∧
      q.channel.deframer.framingErrors = mid.channel.deframer.framingErrors := by
  intro mid q
  obtain ⟨hclearIdle, hclearOps⟩ := (along_append idle ops).mp hclear
  obtain ⟨hstep, hkept, hhunting⟩ := idle_acquires h hempty hin hidle hlong hclearIdle
  have hq : q = run (pathStep k) mid ops := run_append ..
  obtain ⟨-, hchannel, hroom⟩ := hstep.run hclearOps
  rw [← hkept.txbits] at hwf hempty
  rw [← hempty] at hhunting
  have hcarries := (Carries.refl hwf hhunting).run hroom
  rw [← hchannel, ← hq] at hcarries
  obtain ⟨new, done, haccepted, hreceived, hbooks⟩ := hcarries.conserved
  refine ⟨hq ▸ hchannel, ⟨new, done, ?_, hreceived, hbooks⟩, hcarries.framingErrors⟩
  rw [haccepted, hkept.accepted]

end Idle

theorem descrambleAll_patternRepeats (r : Rx) (line : List Bool) :
    (descrambleAll r line).1.patternRepeats = r.patternRepeats := by
  induction line generalizing r with
  | nil => rfl
  | cons bit line ih => exact ih (descramble r bit).1

theorem baud_repeats {k : Nat} {p : DataPath} (h : p.far.rx.training = .normalOperation)
    (noise : ℚ × ℚ) :
    (pathStep k p (.baud noise)).far.rx.patternRepeats ≤ p.far.rx.patternRepeats + 1 := by
  have hdecoded (r : Rx) (nearest : Symbol) :
      (decodeBaud r nearest).1.patternRepeats = r.patternRepeats := by
    rw [decodeBaud_decodes]
    exact descrambleAll_patternRepeats _ _
  have hheard (v : Symbol) :
      (heard k p.far v noise).1.rx.patternRepeats ≤ p.far.rx.patternRepeats + 1 := by
    unfold heard processBaud trainingSwitch
    simp only [h, rxNormalOperation, hdecoded]
    split
    · exact le_rfl
    · exact Nat.zero_le _
  unfold pathStep
  rcases getbaud queueGetBit p.near p.channel.txbits with ⟨_ | v, near, statuses, txbits⟩
  · exact Nat.le_succ _
  · exact hheard v

theorem foldl_out (bits : List Bool) {d : SmDeframer}
    (h : d.out.length + bits.length ≤ smDeframerOut) :
    (bits.foldl smDeframerBit d).out.length ≤ d.out.length + bits.length := by
  induction bits generalizing d with
  | nil => exact le_rfl
  | cons bit bits ih =>
      rw [List.length_cons] at h ⊢
      have hlast := completed_length d bit
      have hout : (smDeframerBit d bit).out.length = d.out.length + (completed d bit).length := by
        rw [smDeframerBit_out bit (by omega), List.length_append]
      have hrest := ih (d := smDeframerBit d bit) (by omega)
      rw [List.foldl_cons]
      omega

theorem bauds_clear {k : Nat} {sixteen : Bool} {noise : ℚ × ℚ} (hnoise : Tolerated sixteen noise)
    {n : Nat} {p : DataPath} (h : Ready sixteen p) (hfew : p.far.rx.patternRepeats + n ≤ 50)
    (hroom : p.channel.deframer.out.length + 4 * n ≤ smDeframerOut) :
    Along (pathStep k) (Clear k) p (List.replicate n (.baud noise)) := by
  induction n generalizing p with
  | zero => trivial
  | succ n ih =>
      have hclear : Clear k p (.baud noise) := by
        refine ⟨h.listening.sixteenWay ▸ hnoise, ?_, by omega⟩
        exact fifty_symbols_ask_for_a_retrain h.listening.training (by omega)
      obtain ⟨line, hcarried⟩ := baud_carried h hclear
      have hfour := symbolBits_le sixteen
      have hlength : (descrambleAll p.far.rx line).2.length ≤ 4 := by
        rw [descrambleAll, Mealy.run_length, hcarried.length]
        exact hfour
      have hrepeats := baud_repeats (k := k) h.listening.training noise
      have hout := foldl_out (descrambleAll p.far.rx line).2 (d := p.channel.deframer) (by omega)
      refine ⟨hclear, ih hcarried.ready (by omega) ?_⟩
      rw [hcarried.channel]
      dsimp only
      omega

def lostPath : DataPath :=
  { near := fastSender
    far :=
      { v22bisZero with
        rx :=
          { fastReceiver with
            scrambleReg := 0x12345, scramblerPatternCount := 63, constellationState := 9 } }
    channel :=
      { channelInit with
        deframer := { smDeframerInit with state := .data, nbits := 3, prev := false } } }

theorem a_lost_receiver_comes_into_step :
    let idle := List.replicate 47 (PathOp.baud (1 / 2, -1 / 2))
    let ops : List PathOp := [.push 65, .take 1]
    let mid := run (pathStep 1) lostPath idle
    let q := run (pathStep 1) lostPath (idle ++ ops)
    q.channel = run channelStep mid.channel (expand (pathStep 1) pulls mid ops) ∧
      (∃ new done, q.channel.accepted = lostPath.channel.accepted ++ new ∧
        q.channel.received = mid.channel.received ++ done ∧ new = done ++ toComplete q.channel) ∧
      q.channel.deframer.framingErrors = mid.channel.deframer.framingErrors := by
  have hnoise : Tolerated true ((1 / 2, -1 / 2) : ℚ × ℚ) := by
    constructor
    · norm_num [margin]
    · norm_num [margin, abs_lt]
  have hready : Ready true lostPath := ⟨⟨rfl, rfl, rfl⟩, rfl, rfl, rfl⟩
  have hidle : ∀ op ∈ List.replicate 47 (PathOp.baud (1 / 2, -1 / 2)), op.Idle := by
    intro op hop byte heq
    rw [List.eq_of_mem_replicate hop] at heq
    cases heq
  have hlong : bauds (List.replicate 47 (PathOp.baud (1 / 2, -1 / 2))) = 47 := by
    rw [bauds, List.countP_replicate]
    rfl
  have hclear := bauds_clear (k := 1) hnoise (n := 47) hready (by decide) (by decide)
  exact idle_line_brings_the_receiver_in_step hready smBitqInit_wellFormed rfl (fun _ => by decide)
    hidle hlong.ge ((along_append _ _).mpr ⟨hclear, trivial, trivial, trivial⟩)

end Softmodem.V22bis
