import Softmodem.Call.Delivery
import Softmodem.Call.Periods

namespace Softmodem.Call

open AudioSocket Serial V22bis

def RetrainKeepsCompleted (start : Link) (events : List LinkEvent) : Prop :=
  ∀ before after, events = before ++ .retrain :: after → ∀ later, later <+: after →
    (Transition.run linkStep start before).deframer.out <+:
      (Transition.run linkStep start (before ++ .retrain :: later)).taken.drop
          (Transition.run linkStep start before).taken.length ++
        (Transition.run linkStep start (before ++ .retrain :: later)).deframer.out

def NothingWaits (l : Link) (e : LinkEvent) : Prop := e = .retrain → l.deframer.out = []

instance (l : Link) (e : LinkEvent) : Decidable (NothingWaits l e) :=
  inferInstanceAs (Decidable (_ → _))

theorem retrain_clears (l : Link) :
    (linkStep l .retrain).deframer.out = [] ∧ (linkStep l .retrain).taken = l.taken := ⟨rfl, rfl⟩

theorem keepsCompleted_iff (start : Link) (events : List LinkEvent) :
    RetrainKeepsCompleted start events ↔ Transition.Along linkStep NothingWaits start events := by
  rw [Transition.along_iff_split]
  constructor
  · rintro h before e after heq rfl
    have hkept := h before after heq [] (List.nil_prefix ..)
    obtain ⟨hout, htaken⟩ := retrain_clears (Transition.run linkStep start before)
    rw [Transition.run_append, Transition.run_cons, Transition.run_nil, hout, htaken,
      List.drop_length] at hkept
    exact List.prefix_nil.mp hkept
  · intro h before after heq later _
    rw [h before .retrain after heq rfl]
    exact List.nil_prefix ..

theorem retrain_keeps_completed_iff (cfg : SmCallConfig) (r : InitResults) (peer : Peer)
    (turns : List Turn) :
    RetrainKeepsCompleted (smCallInit cfg r).link
        (callEvents (smCallStart (smCallInit cfg r) peer) turns) ↔
      Transition.Along linkStep NothingWaits (smCallInit cfg r).link
        (callEvents (smCallStart (smCallInit cfg r) peer) turns) :=
  keepsCompleted_iff _ _

def retrainTurns : List Turn := [letterTurn .connected [0x41], letterTurn .retraining []]

theorem retrain_loses_a_completed_letter :
    ¬ RetrainKeepsCompleted (smCallInit bmConfig plainInit).link
      (callEvents (smCallStart (smCallInit bmConfig plainInit) (promptPeer [oneSample, oneSample]))
        retrainTurns) := by
  rw [keepsCompleted_iff]
  decide

end Softmodem.Call
