import Softmodem.Sip.Answering

namespace Softmodem.Sip

open CString Transition

def Reception.status : Reception → Nat
  | .taken => 200
  | .busy => 486
  | .noAudio => 488
  | .noPort => 500
  | .noDaemon => 503

theorem status_injective : Function.Injective Reception.status := by
  intro a b h
  cases a <;> cases b <;> simp_all [Reception.status]

def finals (rs : List Response) : List Response := rs.filter fun r => 200 ≤ r.status

def Exchange.inviteFinals (x : Exchange) : List Response :=
  (finals x.responses).filter fun r => x.request.method = ascii "INVITE" ∨ r.status = 487

def SameInvite (x y : Exchange) : Prop :=
  x.request.callId = y.request.callId ∧ x.request.cseqNum = y.request.cseqNum

instance (x y : Exchange) : Decidable (SameInvite x y) := inferInstanceAs (Decidable (_ ∧ _))

def Agree (x y : Exchange) : Prop :=
  SameInvite x y → ∀ r ∈ x.inviteFinals, ∀ r' ∈ y.inviteFinals, r.status = r'.status

def Names (x : Exchange) : Prop :=
  ∀ r ∈ x.responses, r.status = 487 → ∃ d ∈ x.dialog, r.cseq = d.invite.cseq

structure OneOutcome (xs : List Exchange) : Prop where
  agree : ∀ x ∈ xs, ∀ y ∈ xs, Agree x y
  names : ∀ x ∈ xs, Names x

instance (x y : Exchange) : Decidable (Agree x y) := by
  unfold Agree
  infer_instance

instance (x : Exchange) : Decidable (Names x) := by
  unfold Names
  infer_instance

instance (xs : List Exchange) : Decidable (OneOutcome xs) :=
  decidable_of_iff ((∀ x ∈ xs, ∀ y ∈ xs, Agree x y) ∧ ∀ x ∈ xs, Names x)
    ⟨fun ⟨h, h'⟩ => ⟨h, h'⟩, fun h => ⟨h.agree, h.names⟩⟩

def SameReception (maxCalls : Int) (s : SipRun) (e : LoopEnv) : Prop :=
  ∀ r ∈ heard maxCalls s e,
    let x := answerTo s r e
    x.request.isResponse = false →
      ¬ (x.request.method = ascii "CANCEL" ∧ Mine s.server x.request) ∧
        (x.request.method = ascii "INVITE" →
          ∀ y ∈ s.exchanges, y.request.method = ascii "INVITE" → SameInvite x y → y.met = x.met)

theorem parseField_cseq (mem : Bytes) (s eol : Nat) {m : SipMsg} {fields : List HeaderField}
    (hfields : ∀ f ∈ fields, ∀ m v, m.cseqNum = atoi m.cseq →
      (f.set m v).cseqNum = atoi (f.set m v).cseq)
    (h : m.cseqNum = atoi m.cseq) :
    (parseField mem s eol m fields).cseqNum = atoi (parseField mem s eol m fields).cseq := by
  induction fields with
  | nil =>
      unfold parseField
      split
      · exact h
      · exact h
  | cons f fields ih =>
      unfold parseField
      split
      · exact ih fun g hg => hfields g (by simp [hg])
      · exact hfields f (by simp) m _ h

theorem headerFields_cseq (f : HeaderField) (hf : f ∈ headerFields) (m : SipMsg) (v : Bytes)
    (h : m.cseqNum = atoi m.cseq) : (f.set m v).cseqNum = atoi (f.set m v).cseq := by
  simp only [headerFields, List.mem_cons, List.not_mem_nil, or_false] at hf
  rcases hf with rfl | rfl | rfl | rfl | rfl | rfl | rfl | rfl
  · dsimp only [addVia]
    split
    · exact h
    · exact h
  · exact h
  · exact h
  · exact h
  · rfl
  · exact h
  · exact h
  · exact h

theorem parseHeaders_cseq (mem : Bytes) (body left s : Nat) {m : SipMsg}
    (h : m.cseqNum = atoi m.cseq) :
    (parseHeaders mem body left s m).cseqNum = atoi (parseHeaders mem body left s m).cseq := by
  induction left generalizing s m with
  | zero => exact h
  | succ left ih =>
      simp only [parseHeaders]
      split
      · split
        · exact ih _ h
        · exact ih _ (parseField_cseq mem s _ headerFields_cseq h)
      · exact h

theorem parseSip_cseq (d : Datagram) : (parseSip d).cseqNum = atoi (parseSip d).cseq := by
  have hzero : sipMsgZero.cseqNum = atoi sipMsgZero.cseq := by decide
  have hfirst (eol : Nat) : (parseFirstLine d eol sipMsgZero).cseqNum =
      atoi (parseFirstLine d eol sipMsgZero).cseq := by
    simp only [parseFirstLine]
    split
    · exact hzero
    · split
      · exact hzero
      · exact hzero
  have hheaders := parseHeaders_cseq d.buf ((bodyOffset d.bytes).getD d.len)
    (m := parseFirstLine d (findEol d.buf 0 ((bodyOffset d.bytes).getD d.len)) sipMsgZero)
  simp only [parseSip, parseBody]
  split
  · exact hheaders _ _ (hfirst _)
  · exact hheaders _ _ (hfirst _)

theorem closing_responses (s : SmSip) : (closing s).filterMap Action.response? = [] := by
  refine List.filterMap_eq_nil_iff.mpr fun a ha => ?_
  obtain ⟨d, -, rfl⟩ := List.mem_map.mp ha
  rfl

theorem Handled.invite_finals {s : SmSip} {m : SipMsg} {src : SockAddr} {e : Env}
    {result : SmSip × List Action} (h : Handled s m src e result)
    (hmethod : m.method = ascii "INVITE")
    (hok : s.callActive → ∃ ok, s.lastOk = some ok ∧ ok.status = 200) :
    ∃ r, finals (result.2.filterMap Action.response?) = [r] ∧
      r.status = (reception s m e).status := by
  have one {trying r : Response} (status : Nat) (htrying : trying.status = 100)
      (hr : r.status = status) (hfinal : 200 ≤ status) : finals [trying, r] = [r] := by
    simp [finals, htrying, hr, hfinal]
  cases h with
  | answered _ hm => exact absurd hmethod hm.1
  | ignored hm => exact absurd (hmethod.symm.trans hm) (by decide)
  | media hm => exact absurd (hmethod.symm.trans hm) (by decide)
  | bye hm => exact absurd (hmethod.symm.trans hm) (by decide)
  | cancel hm => exact absurd (hmethod.symm.trans hm) (by decide)
  | replayed _ hm ok h =>
      obtain ⟨ok', hok', hstatus⟩ := hok hm.1
      obtain rfl : ok = ok' := Option.some.inj (h.symm.trans hok')
      refine ⟨ok, ?_, ?_⟩
      · simp [finals, Action.response?, hstatus]
      · simp [reception, hm.1, hm.2, hstatus, Reception.status]
  | busy _ hs hm r _ hstatus =>
      obtain ⟨ok, hlast, -⟩ := hok hs
      have hother : s.callId ≠ m.callId := fun hid => by simp [hm ⟨hs, hid⟩] at hlast
      refine ⟨r, ?_, ?_⟩
      · simp [finals, Action.response?, hstatus]
      · simp [reception, hs, hother, hstatus, Reception.status]
  | noAudio _ hs hport r _ hstatus =>
      refine ⟨r, ?_, ?_⟩
      · simp [finals, Action.response?, hstatus]
      · simp [reception, hs, hport, hstatus, Reception.status]
  | noSocket _ hs hport hsocket trying r _ htrying _ hstatus =>
      refine ⟨r, ?_, ?_⟩
      · rw [List.filterMap_append, closing_responses, List.append_nil]
        exact one _ htrying hstatus (by decide)
      · simp [reception, hs, Int.not_le.mpr hport, hsocket, hstatus, Reception.status]
  | noPort _ hs hport hsocket hbind trying r _ htrying _ hstatus =>
      refine ⟨r, ?_, ?_⟩
      · rw [List.filterMap_append, closing_responses, List.append_nil]
        exact one _ htrying hstatus (by decide)
      · simp [reception, hs, Int.not_le.mpr hport, hbind, hstatus, Reception.status]
  | noDaemon _ hs hport hsocket hbind hdaemon trying r _ htrying _ hstatus =>
      refine ⟨r, ?_, ?_⟩
      · rw [List.filterMap_append, closing_responses, List.append_nil]
        exact one _ htrying hstatus (by decide)
      · simp [reception, hs, Int.not_le.mpr hport, hsocket, hbind, hdaemon, hstatus, Reception.status]
  | accepted _ hs hport hsocket hbind daemon hdaemon trying _ htrying =>
      refine ⟨okResponse s m e, ?_, ?_⟩
      · rw [accepted_responses]
        exact one 200 htrying rfl (by decide)
      · simp [reception, hs, Int.not_le.mpr hport, hsocket, hbind, hdaemon, okResponse,
          Reception.status]

theorem Handled.other_finals {s : SmSip} {m : SipMsg} {src : SockAddr} {e : Env}
    {result : SmSip × List Action} (h : Handled s m src e result)
    (hmethod : m.method ≠ ascii "INVITE") (hcancel : ¬ (m.method = ascii "CANCEL" ∧ Mine s m)) :
    ∀ r ∈ result.2.filterMap Action.response?, r.status ≠ 487 := by
  intro r' hr'
  cases h with
  | answered r _ _ _ hstatus =>
      obtain rfl : r' = r := by simpa [Action.response?] using hr'
      omega
  | ignored => simp at hr'
  | media => simp at hr'
  | bye _ _ r _ hstatus =>
      obtain rfl : r' = r := by simpa [closing_responses, Action.response?] using hr'
      omega
  | cancel hm hmine => exact absurd ⟨hm, hmine⟩ hcancel
  | replayed hm | busy hm | noAudio hm | noSocket hm | noPort hm | noDaemon hm | accepted hm =>
      exact absurd hm hmethod

theorem Handled.cancel_responses {s : SmSip} {m : SipMsg} {src : SockAddr} {e : Env}
    {result : SmSip × List Action} (h : Handled s m src e result)
    (hmethod : m.method = ascii "CANCEL") (hmine : Mine s m) :
    ∃ r ∈ result.2.filterMap Action.response?, r.status = 487 ∧ Answers r m := by
  have hne {method : Bytes} (h : m.method = method) (hc : method ≠ ascii "CANCEL") : False :=
    hc (h.symm.trans hmethod)
  cases h with
  | answered _ _ hother => exact absurd hmethod (hother hmine).2
  | ignored h => exact (hne h (by decide)).elim
  | media h => exact (hne h (by decide)).elim
  | bye h => exact (hne h (by decide)).elim
  | cancel _ _ _ r _ _ hr hstatus => exact ⟨r, by simp [Action.response?], hstatus, hr⟩
  | replayed h | busy h | noAudio h | noSocket h | noPort h | noDaemon h | accepted h =>
      exact (hne h (by decide)).elim

theorem Handled.accepts {s : SmSip} {m : SipMsg} {src : SockAddr} {e : Env}
    {result : SmSip × List Action} (h : Handled s m src e result)
    (hbefore : s.callActive = false) (hactive : result.1.callActive) :
    m.method = ascii "INVITE" := by
  cases h with
  | answered | ignored => exact absurd hactive (by simp [hbefore])
  | media _ hm => exact absurd hm.1 (by simp [hbefore])
  | bye | cancel => exact absurd hactive Bool.false_ne_true
  | replayed hm | busy hm | noAudio hm | noSocket hm | noPort hm | noDaemon hm | accepted hm =>
      exact hm

theorem SameInvite.symm {x y : Exchange} (h : SameInvite x y) : SameInvite y x :=
  ⟨h.1.symm, h.2.symm⟩

theorem Agree.symm {x y : Exchange} (h : Agree x y) : Agree y x :=
  fun hs r hr r' hr' => (h hs.symm r' hr' r hr).symm

theorem oneOutcome_cons {x : Exchange} {xs : List Exchange} :
    OneOutcome (x :: xs) ↔
      OneOutcome xs ∧ Agree x x ∧ (∀ y ∈ xs, Agree x y) ∧ Names x := by
  constructor
  · intro h
    refine ⟨⟨?_, ?_⟩, ?_, ?_, ?_⟩
    · exact fun y hy z hz => h.agree y (by simp [hy]) z (by simp [hz])
    · exact fun y hy => h.names y (by simp [hy])
    · exact h.agree x (by simp) x (by simp)
    · exact fun y hy => h.agree x (by simp) y (by simp [hy])
    · exact h.names x (by simp)
  · rintro ⟨hxs, hself, hothers, hnames⟩
    constructor
    · intro y hy z hz
      rcases List.mem_cons.mp hy with rfl | hy' <;> rcases List.mem_cons.mp hz with rfl | hz'
      · exact hself
      · exact hothers z hz'
      · exact (hothers y hy').symm
      · exact hxs.agree y hy' z hz'
    · intro y hy
      rcases List.mem_cons.mp hy with rfl | hy
      · exact hnames
      · exact hxs.names y hy

theorem mem_inviteFinals {x : Exchange} {r : Response} :
    r ∈ x.inviteFinals ↔
      r ∈ x.responses ∧ 200 ≤ r.status ∧
        (x.request.method = ascii "INVITE" ∨ r.status = 487) := by
  simp only [Exchange.inviteFinals, finals, List.mem_filter, decide_eq_true_eq, and_assoc]

theorem inviteFinals_invite {x : Exchange} (h : x.request.method = ascii "INVITE") :
    x.inviteFinals = finals x.responses := by
  simp [Exchange.inviteFinals, h]

structure Logged (s : SipRun) : Prop where
  tracked : Tracked s
  byes : ByesTracked s
  setUp : s.server.callActive → ∀ d ∈ s.dialog,
    ∃ y ∈ s.exchanges, y.request = d.invite ∧ y.request.method = ascii "INVITE" ∧
      d.ok ∈ y.responses
  parsed : ∀ y ∈ s.exchanges, y.request.cseqNum = atoi y.request.cseq
  invites : ∀ y ∈ s.exchanges, y.request.method = ascii "INVITE" →
    ∃ r, y.inviteFinals = [r] ∧ r.status = y.met.status
  terminated : OneOutcome s.exchanges → ∀ y ∈ s.exchanges, ∀ r ∈ y.responses, r.status ≠ 487

theorem Tracked.ok {s : SipRun} (h : Tracked s) (hactive : s.server.callActive) :
    ∃ ok, s.server.lastOk = some ok ∧ ok.status = 200 := by
  obtain ⟨d, hd⟩ := h hactive
  exact ⟨d.ok, hd.lastOk, hd.status⟩

section Answer

variable {s : SipRun} {r : Received} {e : LoopEnv}

theorem answerTo_responses (hresponse : (answerTo s r e).request.isResponse = false) :
    ∃ result, Handled s.server (answerTo s r e).request r.src e.toEnv result ∧
      (answerTo s r e).responses = result.2.filterMap Action.response? := by
  have h : receiveSip s.server r.src e.toEnv (recvInto s.buf r e.line) =
      handleRequest s.server (answerTo s r e).request r.src e.toEnv :=
    receiveSip_request hresponse
  exact ⟨_, handleRequest_handled .., congrArg (fun p => p.2.filterMap Action.response?) h⟩

theorem answerTo_cancel (h : Logged s)
    (hresponse : (answerTo s r e).request.isResponse = false)
    (hmethod : (answerTo s r e).request.method = ascii "CANCEL")
    (hmine : Mine s.server (answerTo s r e).request) :
    ¬ OneOutcome (answerTo s r e :: s.exchanges) := by
  intro hone
  obtain ⟨result, hr, hresponses⟩ := answerTo_responses hresponse
  obtain ⟨t, ht, hstatus, hanswers⟩ := hr.cancel_responses hmethod hmine
  rw [← hresponses] at ht
  obtain ⟨-, -, hagree, hnames⟩ := oneOutcome_cons.mp hone
  obtain ⟨d, hd, hcseq⟩ := hnames t ht hstatus
  obtain ⟨y, hy, hrequest, hinvite, hok⟩ := h.setUp hmine.1 d hd
  obtain ⟨d', hd'⟩ := h.tracked hmine.1
  obtain rfl : d = d' := Option.some.inj (hd.symm.trans hd'.dialog)
  have hnum : (answerTo s r e).request.cseqNum = y.request.cseqNum := by
    have hsame : (answerTo s r e).request.cseq = y.request.cseq := by
      rw [hrequest, ← hcseq, hanswers.cseq]
    rw [h.parsed y hy, ← hsame]
    exact parseSip_cseq _
  have hsame : SameInvite (answerTo s r e) y :=
    ⟨by rw [hrequest, ← hd'.callId, hmine.2], hnum⟩
  have hfinal : t ∈ (answerTo s r e).inviteFinals :=
    mem_inviteFinals.mpr ⟨ht, by omega, .inr hstatus⟩
  have hfinal' : d.ok ∈ y.inviteFinals :=
    mem_inviteFinals.mpr ⟨hok, by rw [hd'.status], .inl hinvite⟩
  have := hagree y hy hsame t hfinal d.ok hfinal'
  rw [hstatus, hd'.status] at this
  exact absurd this (by decide)

theorem answerTo_other (hresponse : (answerTo s r e).request.isResponse = false)
    (hmethod : (answerTo s r e).request.method ≠ ascii "INVITE")
    (hcancel : ¬ ((answerTo s r e).request.method = ascii "CANCEL" ∧
      Mine s.server (answerTo s r e).request)) :
    (∀ t ∈ (answerTo s r e).responses, t.status ≠ 487) ∧
      (OneOutcome (answerTo s r e :: s.exchanges) ↔ OneOutcome s.exchanges) := by
  obtain ⟨result, hr, hresponses⟩ := answerTo_responses hresponse
  have hquiet : ∀ t ∈ (answerTo s r e).responses, t.status ≠ 487 := by
    rw [hresponses]
    exact hr.other_finals hmethod hcancel
  have hnone (t : Response) : t ∉ (answerTo s r e).inviteFinals := by
    intro ht
    obtain ⟨ht, -, hinvite | hstatus⟩ := mem_inviteFinals.mp ht
    · exact hmethod hinvite
    · exact hquiet t ht hstatus
  refine ⟨hquiet, fun h => (oneOutcome_cons.mp h).1, fun h => oneOutcome_cons.mpr ⟨h, ?_, ?_, ?_⟩⟩
  · exact fun _ t ht => absurd ht (hnone t)
  · exact fun _ _ _ t ht => absurd ht (hnone t)
  · exact fun t ht hstatus => absurd hstatus (hquiet t ht)

theorem answerTo_invite (h : Tracked s)
    (hresponse : (answerTo s r e).request.isResponse = false)
    (hmethod : (answerTo s r e).request.method = ascii "INVITE") :
    ∃ t, (answerTo s r e).inviteFinals = [t] ∧ t.status = (answerTo s r e).met.status := by
  obtain ⟨result, hr, hresponses⟩ := answerTo_responses hresponse
  rw [inviteFinals_invite hmethod, hresponses]
  exact hr.invite_finals hmethod h.ok

theorem status_ne_487 (met : Reception) : met.status ≠ 487 := by
  cases met <;> decide

theorem answerTo_invite_iff (h : Logged s)
    (hresponse : (answerTo s r e).request.isResponse = false)
    (hmethod : (answerTo s r e).request.method = ascii "INVITE") :
    (∀ t ∈ (answerTo s r e).responses, t.status ≠ 487) ∧
      (OneOutcome (answerTo s r e :: s.exchanges) ↔
        OneOutcome s.exchanges ∧ ∀ y ∈ s.exchanges, y.request.method = ascii "INVITE" →
          SameInvite (answerTo s r e) y → y.met = (answerTo s r e).met) := by
  obtain ⟨t, ht, hstatus⟩ := answerTo_invite h.tracked hresponse hmethod
  have hquiet : ∀ u ∈ (answerTo s r e).responses, u.status ≠ 487 := by
    intro u hu hu'
    have hmem : u ∈ (answerTo s r e).inviteFinals :=
      mem_inviteFinals.mpr ⟨hu, by omega, .inl hmethod⟩
    obtain rfl : u = t := by simpa [ht] using hmem
    exact status_ne_487 _ (hstatus.symm.trans hu')
  refine ⟨hquiet, ?_⟩
  constructor
  · intro hone
    obtain ⟨hxs, -, hagree, -⟩ := oneOutcome_cons.mp hone
    refine ⟨hxs, fun y hy hinvite hsame => ?_⟩
    obtain ⟨t', ht', hstatus'⟩ := h.invites y hy hinvite
    have := hagree y hy hsame t (by simp [ht]) t' (by simp [ht'])
    exact status_injective (hstatus'.symm.trans (this.symm.trans hstatus))
  · rintro ⟨hxs, hmet⟩
    refine oneOutcome_cons.mpr ⟨hxs, ?_, ?_, ?_⟩
    · intro _ u hu u' hu'
      obtain rfl : u = t := by simpa [ht] using hu
      obtain rfl : u' = u := by simpa [ht] using hu'
      rfl
    · intro y hy hsame u hu u' hu'
      obtain rfl : u = t := by simpa [ht] using hu
      have hmem := mem_inviteFinals.mp hu'
      have hinvite : y.request.method = ascii "INVITE" :=
        hmem.2.2.resolve_right (h.terminated hxs y hy u' hmem.1)
      obtain ⟨t', ht', hstatus'⟩ := h.invites y hy hinvite
      obtain rfl : u' = t' := by simpa [ht'] using hu'
      rw [hstatus, hstatus', hmet y hy hinvite hsame]
    · exact fun u hu hu' => absurd hu' (hquiet u hu)

theorem answerTo_iff_reception (h : Logged s)
    (hresponse : (answerTo s r e).request.isResponse = false) :
    OneOutcome (answerTo s r e :: s.exchanges) ↔
      OneOutcome s.exchanges ∧
        ¬ ((answerTo s r e).request.method = ascii "CANCEL" ∧
          Mine s.server (answerTo s r e).request) ∧
        ((answerTo s r e).request.method = ascii "INVITE" →
          ∀ y ∈ s.exchanges, y.request.method = ascii "INVITE" →
            SameInvite (answerTo s r e) y → y.met = (answerTo s r e).met) := by
  rcases Decidable.em ((answerTo s r e).request.method = ascii "CANCEL" ∧
    Mine s.server (answerTo s r e).request) with hcancel | hcancel
  · exact iff_of_false (answerTo_cancel h hresponse hcancel.1 hcancel.2) fun h => h.2.1 hcancel
  rcases Decidable.em ((answerTo s r e).request.method = ascii "INVITE") with hinvite | hinvite
  · rw [(answerTo_invite_iff h hresponse hinvite).2]
    exact and_congr_right fun _ => ⟨fun h => ⟨hcancel, fun _ => h⟩, fun h => h.2 hinvite⟩
  · rw [(answerTo_other hresponse hinvite hcancel).2]
    exact ⟨fun h => ⟨h, hcancel, fun h => absurd h hinvite⟩, fun h => h.1⟩

theorem answerTo_terminated (h : Logged s)
    (hresponse : (answerTo s r e).request.isResponse = false)
    (hone : OneOutcome (answerTo s r e :: s.exchanges)) :
    ∀ y ∈ answerTo s r e :: s.exchanges, ∀ t ∈ y.responses, t.status ≠ 487 := by
  obtain ⟨hxs, hcancel, -⟩ := (answerTo_iff_reception h hresponse).mp hone
  intro y hy
  rcases List.mem_cons.mp hy with rfl | hy
  · rcases Decidable.em ((answerTo s r e).request.method = ascii "INVITE") with hinvite | hinvite
    · exact (answerTo_invite_iff h hresponse hinvite).1
    · exact (answerTo_other hresponse hinvite hcancel).1
  · exact h.terminated hxs y hy

theorem heardRequest_logs (hresponse : (answerTo s r e).request.isResponse = false) :
    (heardRequest s r e).exchanges = answerTo s r e :: s.exchanges := by
  have hne : ¬ (parseSip (recvInto s.buf r e.line)).isResponse := by
    rw [show (parseSip (recvInto s.buf r e.line)).isResponse = false from hresponse]
    exact Bool.false_ne_true
  rw [heardRequest_exchanges, if_neg hne]

theorem heardRequest_setUp (h : Logged s)
    (hactive : (heardRequest s r e).server.callActive) :
    ∀ d ∈ (heardRequest s r e).dialog,
      ∃ y ∈ (heardRequest s r e).exchanges, y.request = d.invite ∧
        y.request.method = ascii "INVITE" ∧ d.ok ∈ y.responses := by
  intro d hd
  have hmore : s.exchanges ⊆ (heardRequest s r e).exchanges := by
    rw [heardRequest_exchanges]
    split
    · exact List.Subset.refl _
    · exact List.subset_cons_self ..
  rcases hbefore : s.server.callActive with _ | _
  · have hresponse : (answerTo s r e).request.isResponse = false := by
      rcases receiveSip_cases s.server r.src e.toEnv (recvInto s.buf r e.line) with
        ⟨_, hr⟩ | ⟨hr, _⟩
      · rw [heardRequest_server, hr] at hactive
        exact absurd hactive (by simp [hbefore])
      · exact hr
    have hset : (heardRequest s r e).dialog =
        ((answerTo s r e).responses.find? fun ok => ok.status = 200).map fun ok =>
          ⟨(answerTo s r e).request, r.src, ok, none⟩ := by
      rw [heardRequest_server] at hactive
      simp [heardRequest, answerTo, hactive, hbefore]
    rw [hset] at hd
    obtain ⟨ok, hok, rfl⟩ := Option.map_eq_some_iff.mp hd
    refine ⟨answerTo s r e, ?_, rfl, ?_, List.mem_of_find?_eq_some hok⟩
    · rw [heardRequest_logs hresponse]
      exact List.mem_cons_self
    · rw [heardRequest_server, receiveSip_request hresponse] at hactive
      exact (handleRequest_handled ..).accepts hbefore hactive
  · rw [heardRequest_dialog hactive hbefore] at hd
    obtain ⟨y, hy, hrest⟩ := h.setUp hbefore d hd
    exact ⟨y, hmore hy, hrest⟩

end Answer

theorem Turn.logged {s s' : SipRun} {e : LoopEnv} (h : Turn s e s') (hs : Logged s) :
    Logged s' := by
  obtain ⟨ht, hb⟩ := h.tracked hs.tracked hs.byes
  cases h with
  | waited => exact ⟨ht, hb, hs.setUp, hs.parsed, hs.invites, hs.terminated⟩
  | ended =>
      refine ⟨ht, hb, fun hactive => ?_, hs.parsed, hs.invites, hs.terminated⟩
      exact absurd hactive (by simp [SipRun.act, hangUp_inactive])
  | media r =>
      refine ⟨ht, hb, fun hactive d hd => ?_, hs.parsed, hs.invites, hs.terminated⟩
      have hbefore : s.server.callActive := by
        rw [← (receiveRtp_sameDialog s.server r e.firstPacket).callActive]
        exact hactive
      obtain ⟨d', hd', rfl⟩ := Option.map_eq_some_iff.mp hd
      obtain ⟨y, hy, hrequest, hinvite, hok⟩ := hs.setUp hbefore d' hd'
      refine ⟨y, hy, ?_, hinvite, ?_⟩
      · rw [hrequest]
        split <;> rfl
      · split <;> exact hok
  | ticked now hactive =>
      refine ⟨ht, hb, fun hafter d hd => ?_, hs.parsed, hs.invites, hs.terminated⟩
      have hdialog : d ∈ s.dialog := (if_pos hafter).subst (motive := (d ∈ ·)) hd
      exact hs.setUp hactive d hdialog
  | request r =>
      rcases hresponse : (answerTo s r e).request.isResponse with _ | _
      · have hex := heardRequest_logs hresponse
        refine ⟨ht, hb, heardRequest_setUp hs, ?_, ?_, ?_⟩
        · rw [hex, List.forall_mem_cons]
          exact ⟨parseSip_cseq _, hs.parsed⟩
        · rw [hex, List.forall_mem_cons]
          exact ⟨answerTo_invite hs.tracked hresponse, hs.invites⟩
        · rw [hex]
          exact answerTo_terminated hs hresponse
      · have hex : (heardRequest s r e).exchanges = s.exchanges := by
          exact if_pos hresponse
        refine ⟨ht, hb, heardRequest_setUp hs, ?_, ?_, ?_⟩
        · rw [hex]
          exact hs.parsed
        · rw [hex]
          exact hs.invites
        · rw [hex]
          exact hs.terminated

theorem start_logged (cfg : SmSipConfig) (buf : Bytes) : Logged (start cfg buf) := by
  obtain ⟨ht, hb⟩ := run_tracked 0 cfg buf []
  refine ⟨ht, hb, fun hactive => ?_, ?_, ?_, ?_⟩
  · exact absurd hactive (by simp [start, smSipCreate])
  · exact fun y hy => absurd hy List.not_mem_nil
  · exact fun y hy => absurd hy List.not_mem_nil
  · exact fun _ y hy => absurd hy List.not_mem_nil

theorem step_oneOutcome {maxCalls : Int} {s : SipRun} {e : LoopEnv} (h : Logged s) :
    OneOutcome (step maxCalls s e).exchanges ↔
      OneOutcome s.exchanges ∧ SameReception maxCalls s e := by
  rcases hheard : heard maxCalls s e with _ | r
  · rw [step_unheard hheard]
    simp [SameReception, hheard]
  rw [step_heard hheard]
  rcases hresponse : (answerTo s r e).request.isResponse with _ | _
  · rw [heardRequest_logs hresponse, answerTo_iff_reception h hresponse]
    simp [SameReception, hheard, hresponse]
  · have hex : (heardRequest s r e).exchanges = s.exchanges := if_pos hresponse
    rw [hex]
    simp [SameReception, hheard, hresponse]

theorem one_outcome_per_invite_iff (maxCalls : Int) (cfg : SmSipConfig) (buf : Bytes)
    (es : List LoopEnv) :
    OneOutcome (smSipRun maxCalls (start cfg buf) es).exchanges ↔
      Along (step maxCalls) (SameReception maxCalls) (start cfg buf) es := by
  have h := along_iff_of_step (Q := fun s => OneOutcome s.exchanges)
    (fun s e hs => (step_turn maxCalls s e).logged hs)
    (fun _ _ hs => step_oneOutcome hs) es (start_logged cfg buf)
  have hnone : OneOutcome (start cfg buf).exchanges :=
    ⟨fun _ hx => absurd hx List.not_mem_nil, fun _ hx => absurd hx List.not_mem_nil⟩
  exact h.trans (and_iff_right hnone)

theorem answered_then_terminated :
    ¬ ∀ (maxCalls : Int) (cfg : SmSipConfig) (buf : Bytes) (es : List LoopEnv),
      OneOutcome (smSipRun maxCalls (start cfg buf) es).exchanges := by
  intro h
  exact absurd (h (-1) ataConfig ataBuffer [ataInvite "1", ataRequest "CANCEL" "1" ""])
    (by decide +kernel)

end Softmodem.Sip
