import Softmodem.Sip.ByeDialog

namespace Softmodem.Sip

open CString Transition

instance (r : Response) (m : SipMsg) : Decidable (Answers r m) :=
  decidable_of_iff
    (r.via = m.via ∧ r.fromHdr = m.fromHdr ∧ r.callId = m.callId ∧ r.cseq = m.cseq)
    ⟨fun ⟨h₁, h₂, h₃, h₄⟩ => ⟨h₁, h₂, h₃, h₄⟩, fun h => ⟨h.via, h.fromHdr, h.callId, h.cseq⟩⟩

def AnsweredAfter (earlier : List Exchange) (x : Exchange) : Prop :=
  ∀ r ∈ x.responses,
    Answers r x.request ∨ ∃ y ∈ earlier, y.datagram = x.datagram ∧ r ∈ y.responses

def AllAnswered : List Exchange → Prop
  | [] => True
  | x :: earlier => AnsweredAfter earlier x ∧ AllAnswered earlier

def decideAllAnswered : (xs : List Exchange) → Decidable (AllAnswered xs)
  | [] => .isTrue trivial
  | x :: earlier =>
      have := decideAllAnswered earlier
      have : Decidable (AnsweredAfter earlier x) := by
        unfold AnsweredAfter
        infer_instance
      inferInstanceAs (Decidable (_ ∧ _))

instance (xs : List Exchange) : Decidable (AllAnswered xs) := decideAllAnswered xs

def SameTransaction (maxCalls : Int) (s : SipRun) (e : LoopEnv) : Prop :=
  ∀ r ∈ heard maxCalls s e,
    let datagram := recvInto s.buf r e.line
    let m := parseSip datagram
    m.isResponse = false → m.method = ascii "INVITE" → Mine s.server m → ∀ d ∈ s.dialog,
      (m.via = d.invite.via ∧ m.fromHdr = d.invite.fromHdr ∧ m.cseq = d.invite.cseq) ∨
        ∃ y ∈ s.exchanges, y.datagram = datagram.bytes ∧ d.ok ∈ y.responses

def answerTo (s : SipRun) (r : Received) (e : LoopEnv) : Exchange :=
  let datagram := recvInto s.buf r e.line
  { datagram := datagram.bytes
    src := r.src
    request := parseSip datagram
    met := reception s.server (parseSip datagram) e.toEnv
    dialog := s.dialog
    responses := (receiveSip s.server r.src e.toEnv datagram).2.filterMap Action.response? }

theorem heardRequest_exchanges (s : SipRun) (r : Received) (e : LoopEnv) :
    (heardRequest s r e).exchanges =
      if (parseSip (recvInto s.buf r e.line)).isResponse then s.exchanges
      else answerTo s r e :: s.exchanges := rfl

theorem mem_responses {actions : List Action} {r : Response} :
    r ∈ actions.filterMap Action.response? ↔ ∃ dest, .response dest r ∈ actions := by
  rw [List.mem_filterMap]
  constructor
  · rintro ⟨a, ha, har⟩
    cases a with
    | response dest r' =>
        obtain rfl : r' = r := by simpa [Action.response?] using har
        exact ⟨dest, ha⟩
    | bye | rtp | opened | closed => simp [Action.response?] at har
  · rintro ⟨dest, h⟩
    exact ⟨_, h, rfl⟩

theorem closing_no_response (s : SmSip) (dest : SockAddr) (r : Response) :
    .response dest r ∉ closing s := by
  simp [closing]

theorem openCaptures_no_response (s : SmSip) (e : Env) (dest : SockAddr) (r : Response) :
    .response dest r ∉ openCaptures s e := by
  simp [openCaptures]

theorem Handled.answers {s : SmSip} {m : SipMsg} {src : SockAddr} {e : Env}
    {result : SmSip × List Action} (h : Handled s m src e result)
    (hreplay : ¬ (m.method = ascii "INVITE" ∧ Mine s m ∧ s.lastOk ≠ none))
    {dest : SockAddr} {r : Response} (hr : .response dest r ∈ result.2) : Answers r m := by
  cases h with
  | replayed hmethod hm ok hok => exact absurd ⟨hmethod, hm, by simp [hok]⟩ hreplay
  | answered r' _ _ h' | busy _ _ _ r' h' | noAudio _ _ _ r' h' =>
      obtain ⟨-, rfl⟩ : dest = src ∧ r = r' := by simpa using hr
      exact h'
  | ignored | media => simp at hr
  | bye _ _ r' h' =>
      obtain ⟨-, rfl⟩ : dest = src ∧ r = r' := by simpa [closing_no_response] using hr
      exact h'
  | cancel _ _ ok r' hok _ h' =>
      obtain ⟨-, rfl⟩ | ⟨-, rfl⟩ : (dest = src ∧ r = ok) ∨ (dest = src ∧ r = r') := by
        simpa [closing_no_response] using hr
      · exact hok
      · exact h'
  | noSocket _ _ _ _ trying r' ht _ h' | noPort _ _ _ _ _ trying r' ht _ h'
  | noDaemon _ _ _ _ _ _ trying r' ht _ h' =>
      obtain ⟨-, rfl⟩ | ⟨-, rfl⟩ : (dest = src ∧ r = trying) ∨ (dest = src ∧ r = r') := by
        simpa [closing_no_response] using hr
      · exact ht
      · exact h'
  | accepted _ _ _ _ _ _ _ trying ht =>
      obtain ⟨-, rfl⟩ | ⟨-, rfl⟩ : (dest = src ∧ r = trying) ∨
          (dest = src ∧ r = okResponse s m e) := by
        simpa [openCaptures_no_response] using hr
      · exact ht
      · exact buildResponse_answers ..

theorem handleRequest_replay {s : SmSip} {m : SipMsg} {src : SockAddr} {e : Env} {ok : Response}
    (hmethod : m.method = ascii "INVITE") (hm : Mine s m) (hok : s.lastOk = some ok) :
    handleRequest s m src e = (s, [.response src ok]) := by
  have hregister : m.method ≠ ascii "REGISTER" := by
    rw [hmethod]
    decide
  rw [handleRequest, if_neg hregister, if_pos hmethod]
  simp [handleInvite, hm.1, hm.2, hok]

theorem receiveSip_request {s : SmSip} {src : SockAddr} {e : Env} {d : Datagram}
    (h : (parseSip d).isResponse = false) :
    receiveSip s src e d = handleRequest s (parseSip d) src e := by
  simp [receiveSip, h]

theorem InCall.answers_iff {s : SipRun} {d : Dialog} (h : InCall s d) {m : SipMsg}
    (hm : Mine s.server m) :
    Answers d.ok m ↔
      m.via = d.invite.via ∧ m.fromHdr = d.invite.fromHdr ∧ m.cseq = d.invite.cseq := by
  have hid : d.ok.callId = m.callId := h.answers.callId.trans (h.callId.symm.trans hm.2)
  constructor
  · intro ha
    exact ⟨ha.via.symm.trans h.answers.via, ha.fromHdr.symm.trans h.answers.fromHdr,
      ha.cseq.symm.trans h.answers.cseq⟩
  · rintro ⟨hvia, hfrom, hcseq⟩
    exact ⟨h.answers.via.trans hvia.symm, h.answers.fromHdr.trans hfrom.symm, hid,
      h.answers.cseq.trans hcseq.symm⟩

theorem answerTo_iff {s : SipRun} (ht : Tracked s) (r : Received) (e : LoopEnv)
    (hresponse : (parseSip (recvInto s.buf r e.line)).isResponse = false) :
    AnsweredAfter s.exchanges (answerTo s r e) ↔
      ((parseSip (recvInto s.buf r e.line)).method = ascii "INVITE" →
        Mine s.server (parseSip (recvInto s.buf r e.line)) → ∀ d ∈ s.dialog,
          ((parseSip (recvInto s.buf r e.line)).via = d.invite.via ∧
            (parseSip (recvInto s.buf r e.line)).fromHdr = d.invite.fromHdr ∧
            (parseSip (recvInto s.buf r e.line)).cseq = d.invite.cseq) ∨
          ∃ y ∈ s.exchanges,
            y.datagram = (recvInto s.buf r e.line).bytes ∧ d.ok ∈ y.responses) := by
  unfold AnsweredAfter answerTo
  generalize recvInto s.buf r e.line = datagram at *
  dsimp only
  rw [receiveSip_request hresponse]
  generalize parseSip datagram = m
  rcases Decidable.em (m.method = ascii "INVITE" ∧ Mine s.server m) with ⟨hmethod, hm⟩ | hother
  · obtain ⟨d, hd⟩ := ht hm.1
    rw [handleRequest_replay hmethod hm hd.lastOk]
    simp [Action.response?, hd.dialog, hd.answers_iff hm, hmethod, hm]
  · constructor
    · intro _ hmethod hm
      exact absurd ⟨hmethod, hm⟩ hother
    · intro _ response hr
      obtain ⟨dest, hr⟩ := mem_responses.mp hr
      refine .inl ((handleRequest_handled ..).answers ?_ hr)
      exact fun h => hother ⟨h.1, h.2.1⟩

theorem step_answered {maxCalls : Int} {s : SipRun} {e : LoopEnv} (ht : Tracked s) :
    AllAnswered (step maxCalls s e).exchanges ↔
      AllAnswered s.exchanges ∧ SameTransaction maxCalls s e := by
  rcases hheard : heard maxCalls s e with _ | r
  · rw [step_unheard hheard]
    simp [SameTransaction, hheard]
  rw [step_heard hheard, heardRequest_exchanges]
  rcases hresponse : (parseSip (recvInto s.buf r e.line)).isResponse with _ | _
  · have hiff := answerTo_iff ht r e hresponse
    have hguard : SameTransaction maxCalls s e ↔ AnsweredAfter s.exchanges (answerTo s r e) := by
      simp only [SameTransaction, hheard, Option.mem_some_iff, forall_eq', hresponse, hiff,
        forall_const]
    rw [hguard, and_comm]
    rfl
  · simp [SameTransaction, hheard, hresponse]

theorem responses_answer_their_request_iff (maxCalls : Int) (cfg : SmSipConfig) (buf : Bytes)
    (es : List LoopEnv) :
    AllAnswered (smSipRun maxCalls (start cfg buf) es).exchanges ↔
      Along (step maxCalls) (SameTransaction maxCalls) (start cfg buf) es := by
  have hinv (s : SipRun) (e : LoopEnv) (h : Tracked s ∧ ByesTracked s) :
      Tracked (step maxCalls s e) ∧ ByesTracked (step maxCalls s e) :=
    (step_turn maxCalls s e).tracked h.1 h.2
  have hstart : Tracked (start cfg buf) ∧ ByesTracked (start cfg buf) :=
    run_tracked maxCalls cfg buf []
  have h := along_iff_of_step (Q := fun s => AllAnswered s.exchanges) hinv
    (fun _ _ hs => step_answered hs.1) es hstart
  have hnone : AllAnswered (start cfg buf).exchanges := trivial
  exact h.trans (and_iff_right hnone)

-- The second INVITE belongs to the first call but has a Via branch and CSeq of its own.
theorem reinvite_answered_with_the_old_response :
    ¬ ∀ (maxCalls : Int) (cfg : SmSipConfig) (buf : Bytes) (es : List LoopEnv),
      AllAnswered (smSipRun maxCalls (start cfg buf) es).exchanges := by
  intro h
  exact absurd (h (-1) ataConfig ataBuffer [ataInvite "1", ataInvite "2"]) (by decide +kernel)

end Softmodem.Sip
