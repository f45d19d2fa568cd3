import Softmodem.Lib.DelayLine
import Softmodem.Lib.Transition
import Softmodem.V22bis.Transmitter
import Softmodem.V22bis.Receiver

namespace Softmodem.V22bis

abbrev Line := List (Option Symbol)

-- A modem, and the symbols its receiver has heard and not decided yet.
structure Party where
  modem : V22bisState
  pending : Line
  deriving DecidableEq

def signalUp (s : V22bisState) : V22bisState :=
  { s with rx := { s.rx with signalPresent := true } }

def hearSymbol (s : V22bisState) (nearest : Symbol) : V22bisState :=
  (processBaud (signalUp s) nearest).1

-- The filters hold a symbol back: a decision is on the symbol heard as many symbols before as
-- they hold, and the first ones are on none.
def Party.hear (p : Party) (guess : Fin 4) : Option Symbol → Party
  | none => p
  | some nearest =>
      let (decided, pending) := DelayLine.shift p.pending (some nearest)
      { modem := hearSymbol p.modem (decided.getD (constellationIndex guess 1))
        pending := pending }

def nextBit : List (Option Bool) → Option Bool × List (Option Bool)
  | [] => (some true, [])
  | bit :: bits => (bit, bits)

def Party.sends (p : Party) (bits : List (Option Bool)) : Option Symbol :=
  (getbaud nextBit p.modem bits).1

def Party.tick (p : Party) (bits : List (Option Bool)) (guess : Fin 4)
    (heard : Option Symbol) : Party :=
  { p with modem := (getbaud nextBit p.modem bits).2.1 }.hear guess heard

structure Link where
  caller : Party
  answerer : Party
  toAnswerer : Line
  toCaller : Line
  deriving DecidableEq

structure Tick where
  callerBits : List (Option Bool)
  answererBits : List (Option Bool)
  callerGuess : Fin 4
  answererGuess : Fin 4

-- How far decisions lag behind what is heard, on either side.
structure Lags where
  caller : Nat
  answerer : Nat

def Link.init (callerRate answererRate : Nat) (lags : Lags) (d : Nat) : Link :=
  { caller := ⟨v22bisInit true callerRate, List.replicate lags.caller none⟩
    answerer := ⟨v22bisInit false answererRate, List.replicate lags.answerer none⟩
    toAnswerer := List.replicate d none
    toCaller := List.replicate d none }

def Link.tick (l : Link) (t : Tick) : Link :=
  let (atAnswerer, toAnswerer) := DelayLine.shift l.toAnswerer (l.caller.sends t.callerBits)
  let (atCaller, toCaller) := DelayLine.shift l.toCaller (l.answerer.sends t.answererBits)
  { caller := l.caller.tick t.callerBits t.callerGuess atCaller
    answerer := l.answerer.tick t.answererBits t.answererGuess atAnswerer
    toAnswerer := toAnswerer
    toCaller := toCaller }

def InNormalOperation (s : V22bisState) : Prop :=
  s.tx.training = .normalOperation ∧ s.rx.training = .normalOperation

instance (s : V22bisState) : Decidable (InNormalOperation s) :=
  inferInstanceAs (Decidable (_ ∧ _))

def RatesAgree (callerRate answererRate : Nat) (l : Link) : Prop :=
  InNormalOperation l.caller.modem → InNormalOperation l.answerer.modem →
    l.caller.modem.negotiatedBitRate = min callerRate answererRate ∧
      l.answerer.modem.negotiatedBitRate = min callerRate answererRate

instance (callerRate answererRate : Nat) (l : Link) :
    Decidable (RatesAgree callerRate answererRate l) :=
  inferInstanceAs (Decidable (_ → _ → _ ∧ _))

instance : Strict Party :=
  .ofFields (fun ⟨a, b⟩ => (a, b)) (fun (a, b) => ⟨a, b⟩) (fun _ => rfl)

instance : Strict Link :=
  .ofFields (fun ⟨a, b, c, d⟩ => (a, b, c, d)) (fun (a, b, c, d) => ⟨a, b, c, d⟩) (fun _ => rfl)

theorem tick_step (p : Party) (bits : List (Option Bool)) (guess : Fin 4)
    (heard : Option Symbol) :
    RxStep (getbaud nextBit p.modem bits).2.1 (p.tick bits guess heard).modem := by
  cases heard with
  | none => exact rxStep_rx ..
  | some nearest =>
      have h := processBaud_step (signalUp (getbaud nextBit p.modem bits).2.1)
        ((DelayLine.shift p.pending (some nearest)).1.getD (constellationIndex guess 1))
      exact ⟨h.rate, h.shutdown, h.negotiated, h.training⟩

end Softmodem.V22bis
