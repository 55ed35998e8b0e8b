import OpcServer.Adapters.TcpLink
import Mathlib.Data.List.Nodup

/-! Over TCP a late reply never reaches a later request, as long as the caller makes one call
at a time. While the connection stands the stream of the socket is aligned: between two
transactions it is empty, and within one it holds what the transaction has not yet read of
its own reply. A transaction that fails closes the socket, and what comes after it is lost
with the old connection. -/

namespace OpcServer.Adapters

open Domain

/-- The whole request is written. -/
def TcpCall.written (c : TcpCall) : Prop :=
  ∀ request, c.stage = .write request → c.moving.length = request.length

theorem TcpCall.moving_ended {c : TcpCall} {bytes : List UInt8}
    (h : c.ended = some (.ok bytes)) : c.moving = c.moved ++ bytes := by
  simp only [moving, h]

theorem TcpCall.moving_pending {c : TcpCall} (h : c.ended = none) : c.moving = c.moved := by
  simp only [moving, h, List.append_nil]

namespace TcpLink

/-! ### The stream stays aligned -/

/-- Nothing is with the device or on its way. -/
def Quiet (s : TcpLink) : Prop := s.pending = [] ∧ s.transit = [] ∧ s.stream = []

/-- The request is on its way, or with the device and no byte is on its way; or what the
transaction has read and what is on its way make up the reply. -/
def OnWire (s : TcpLink) (c : TcpCall) : Prop :=
  (¬ c.written ∧ c.taken = [] ∧ s.Quiet ∧ ∀ reply, (c.serial, reply) ∉ s.replies) ∨
  (c.written ∧ c.taken = [] ∧ s.pending = [c.sent] ∧ s.transit = [] ∧ s.stream = []) ∨
  (c.written ∧ s.pending = [] ∧ ∃ reply, (c.serial, reply) ∈ s.replies ∧ Correct c.pdu reply ∧
    c.taken ++ (s.stream ++ s.transit) = packMbap c.tid c.unit reply)

/-- What holds of a transaction until it has failed. -/
structure Carries (s : TcpLink) (c : TcpCall) : Prop where
  size : ∀ bytes, c.ended = some (.ok bytes) → bytes ≠ [] ∧ bytes.length ≤ c.left
  short : (∀ e, c.ended ≠ some (.error e)) → c.moved.length < c.stage.wants
  header : ∀ mbap, c.stage = .body mbap → mbap.length = 6
  wire : (∀ e, c.ended ≠ some (.error e)) → s.OnWire c

/-- A result is a lost connection or a timeout, or what the reply to the request says. -/
def Told (replies : List (ℕ × List UInt8)) (serial : ℕ) (result : Result (List UInt8)) : Prop :=
  (∃ e, result = .error e ∧ (e.code = .connection ∨ e.code = .timeout)) ∨
    ∃ reply, (serial, reply) ∈ replies ∧ result = tcpAnswerOf reply

/-- What a run keeps. -/
structure Aligned (s : TcpLink) : Prop where
  one : s.calls.length ≤ 1
  pending : s.pending.length ≤ 1 ∧
    ∀ r ∈ s.pending, r.serial < s.requests ∧ ∀ reply, (r.serial, reply) ∉ s.replies
  replies : (s.replies.map Prod.fst).Nodup ∧ ∀ p ∈ s.replies, p.1 < s.requests
  results : (s.results.map Prod.fst).Nodup ∧
    ∀ p ∈ s.results, p.1 < s.requests ∧ Told s.replies p.1 p.2
  expired : ∀ serial ∈ s.expired, s.finished serial = true ∨
    ∃ c, s.calls = [c] ∧ c.serial = serial
  idle : s.calls = [] → s.client.connected = true → s.Quiet
  call : ∀ c, s.calls = [c] → c.serial + 1 = s.requests ∧ s.finished c.serial = false ∧
    (s.client.connected = false → c.ended ≠ none) ∧ s.Carries c

theorem finished_iff {s : TcpLink} {serial : ℕ} :
    s.finished serial = true ↔ serial ∈ s.results.map Prod.fst := by
  simp [finished]

/-- There is only one transaction. -/
theorem Aligned.only {s : TcpLink} (h : s.Aligned) {call : ℕ} {c : TcpCall}
    (hc : s.calls[call]? = some c) : s.calls = [c] ∧ call = 0 := by
  have hone := h.one
  obtain ⟨hlt, hget⟩ := List.getElem?_eq_some_iff.mp hc
  obtain rfl : call = 0 := by omega
  obtain ⟨d, hd⟩ := List.length_eq_one_iff.mp (Nat.le_antisymm hone hlt)
  simp only [hd, List.getElem_cons_zero] at hget
  exact ⟨by rw [hd, hget], rfl⟩

theorem Aligned.not_finished {s : TcpLink} (h : s.Aligned) {serial : ℕ} (hs : s.requests ≤ serial) :
    s.finished serial = false := by
  rw [Bool.eq_false_iff]
  intro hf
  obtain ⟨p, hp, rfl⟩ := List.mem_map.mp (finished_iff.mp hf)
  exact absurd (h.results.2 p hp).1 (by omega)

theorem Told.mono {replies replies' : List (ℕ × List UInt8)} (hsub : replies ⊆ replies')
    {serial : ℕ} {result : Result (List UInt8)} (h : Told replies serial result) :
    Told replies' serial result := by
  rcases h with h | ⟨reply, hreply, h⟩
  · exact .inl h
  · exact .inr ⟨reply, hsub hreply, h⟩

theorem writeError_lost (e : IoError) :
    (writeError e).code = .connection ∨ (writeError e).code = .timeout := by
  cases e with
  | aborted => exact .inr rfl
  | eof => exact .inl rfl
  | other message => exact .inl rfl

theorem readError_lost (e : IoError) :
    (readError e).code = .connection ∨ (readError e).code = .timeout := by
  cases e with
  | aborted => exact .inr rfl
  | eof => exact .inl rfl
  | other message => exact .inl rfl

/-- An operation that failed ends the transaction. -/
theorem handler_error (c : TcpCall) (e : IoError) : ∃ err,
    c.handler (.error e) = .returns (.error err) ∧
      (err.code = .connection ∨ err.code = .timeout) := by
  unfold TcpCall.handler
  cases c.stage with
  | write request => exact ⟨_, rfl, writeError_lost e⟩
  | header => exact ⟨_, rfl, readError_lost e⟩
  | body mbap => exact ⟨_, rfl, readError_lost e⟩

theorem disconnects_lost {err : Error} (h : err.code = .connection ∨ err.code = .timeout) :
    disconnects (.error err : Result (List UInt8)) = true := by
  simpa [disconnects] using h

/-- With its last byte a composed operation runs its own handler. -/
theorem handler_whole {c : TcpCall} {bytes : List UInt8}
    (hwhole : ¬ (c.moved ++ bytes).length < c.stage.wants) :
    c.handler (.ok bytes) = c.stage.handler (.ok (c.moved ++ bytes)) := if_neg hwhole

/-- The bytes of the operation that ended are counted with those before. -/
theorem Carries.whole {s : TcpLink} {c : TcpCall} (h : s.Carries c) {bytes : List UInt8}
    (hended : c.ended = some (.ok bytes)) :
    (c.moved ++ bytes).length ≤ c.stage.wants := by
  have hshort := h.short (by simp [hended])
  have hsize := (h.size bytes hended).2
  rw [TcpCall.left] at hsize
  rw [List.length_append]
  omega

/-- The next operation starts with what has been moved before. -/
def NextFrom (c : TcpCall) (stage : Stage) (moved : List UInt8) : Prop :=
  TcpCall.taken { c with stage := stage, moved := moved, ended := none } = c.taken ∧
    (TcpCall.written { c with stage := stage, moved := moved, ended := none } ↔ c.written) ∧
    moved.length < stage.wants ∧ ∀ mbap, stage = .body mbap → mbap.length = 6

/-- What the handler of an operation that succeeded does: it starts the next one, or the
transaction has read its own reply, to the last byte. -/
theorem Carries.handled {s : TcpLink} {c : TcpCall} (h : s.Carries c) {bytes : List UInt8}
    (hended : c.ended = some (.ok bytes)) :
    (∃ stage moved, c.handler (.ok bytes) = .next stage moved ∧ NextFrom c stage moved) ∨
    ∃ reply, (c.serial, reply) ∈ s.replies ∧
      c.handler (.ok bytes) = .returns (tcpAnswerOf reply) ∧ s.Quiet := by
  have hle := h.whole hended
  have hmoving := TcpCall.moving_ended hended
  have hwire := h.wire (by simp [hended])
  by_cases hmore : (c.moved ++ bytes).length < c.stage.wants
  · -- the composed operation goes on
    left
    have hsame : TcpCall.moving { c with moved := c.moved ++ bytes, ended := none } = c.moving := by
      rw [hmoving]
      exact List.append_nil _
    refine ⟨c.stage, c.moved ++ bytes, if_pos hmore, ?_, ?_, hmore, h.header⟩
    · simp only [TcpCall.taken, hsame]
    · simp only [TcpCall.written, hsame]
  have hall : (c.moved ++ bytes).length = c.stage.wants := by omega
  rw [handler_whole hmore]
  cases hstage : c.stage with
  | write request =>
    left
    have hwritten : c.written := by
      intro request' hrequest
      cases hstage.symm.trans hrequest
      rw [hmoving, hall, hstage]
      rfl
    refine ⟨.header, [], rfl, ?_, ?_, by decide, by simp⟩
    · simp only [TcpCall.taken, hstage]
      rfl
    · exact iff_of_true (by simp [TcpCall.written]) hwritten
  | header =>
    left
    have htaken : c.taken = c.moved ++ bytes := by
      simp only [TcpCall.taken, hstage, hmoving]
    rw [hstage] at hall
    replace hall : (c.moved ++ bytes).length = 6 := hall
    have hsome : c.taken ≠ [] := by
      rw [htaken]
      intro hnone
      rw [hnone] at hall
      cases hall
    rcases hwire with ⟨-, hnone, -⟩ | ⟨-, hnone, -⟩ | ⟨-, -, reply, -, hcorrect, hwire⟩
    · exact absurd hnone hsome
    · exact absurd hnone hsome
    · obtain ⟨header, hheader, hlength, hpack⟩ := packMbap_append c.tid c.unit reply
      rw [hpack, htaken] at hwire
      obtain ⟨rfl, -⟩ := List.append_inj hwire (hall.trans hheader.symm)
      obtain ⟨hnext, hwants⟩ := onHeader_correct hcorrect hlength
      refine ⟨.body (c.moved ++ bytes), [], hnext, ?_, ?_, ?_, ?_⟩
      · rw [htaken]
        exact List.append_nil _
      · exact iff_of_true (by simp [TcpCall.written]) (by simp [TcpCall.written, hstage])
      · rw [hwants]
        exact Nat.lt_of_lt_of_le Nat.one_pos (Nat.le_add_right _ _)
      · rintro mbap hmbap
        cases hmbap
        exact hall
  | body mbap =>
    right
    have hmbap := h.header mbap hstage
    have htaken : c.taken = mbap ++ (c.moved ++ bytes) := by
      simp only [TcpCall.taken, hstage, hmoving]
    have hsome : c.taken ≠ [] := by
      rw [htaken]
      intro hnone
      obtain rfl : mbap = [] := (List.append_eq_nil_iff.mp hnone).1
      cases hmbap
    rcases hwire with ⟨-, hnone, -⟩ | ⟨-, hnone, -⟩ | ⟨-, hpending, reply, hreply, hcorrect, hwire⟩
    · exact absurd hnone hsome
    · exact absurd hnone hsome
    · obtain ⟨header, hheader, hlength, hpack⟩ := packMbap_append c.tid c.unit reply
      rw [hpack, htaken, List.append_assoc] at hwire
      obtain ⟨rfl, hbody⟩ := List.append_inj hwire (hmbap.trans hheader.symm)
      rw [hstage, (onHeader_correct hcorrect hlength).2] at hall
      rw [← List.append_nil (c.unit :: reply)] at hbody
      obtain ⟨hread, hrest⟩ := List.append_inj hbody (by rw [hall, List.length_cons, Nat.add_comm])
      obtain ⟨hstream, htransit⟩ := List.append_eq_nil_iff.mp hrest
      refine ⟨reply, hreply, ?_, hpending, htransit, hstream⟩
      rw [hread]
      exact onBody_answer c.unit hcorrect.2.1

/-! ### What a step does to one transaction -/

/-- The steps of a link with at most one transaction in progress. -/
inductive StepsTo (s : TcpLink) : TcpAction → TcpLink → Prop
  | connect (ok : Bool) : StepsTo s (.connect ok) { s.cancel with
      client := { s.client with connected := ok }
      running := true
      pending := []
      transit := []
      stream := [] }
  | start (unit : UInt8) (pdu : List UInt8) (hopen : s.client.connected = true) :
    StepsTo s (.start unit pdu) { s with
      client := { s.client with transactionId := s.client.transactionId + 1 }
      running := true
      requests := s.requests + 1
      calls := s.calls ++ [{ serial := s.requests, tid := s.client.transactionId, unit, pdu
                             stage := .write (packMbap s.client.transactionId unit pdu) }] }
  | refuse (unit : UInt8) (pdu : List UInt8) (hclosed : s.client.connected = false) :
    StepsTo s (.start unit pdu) { s with
      running := true
      requests := s.requests + 1
      results := s.results ++ [(s.requests, .error (makeErr .connection "not connected"))] }
  | close : StepsTo s .close { s.markDisconnected with closing := true }
  | stop : StepsTo s .stop { s with running := false, closing := false }
  | answer {request : ℕ} {r : Sent} {reply : List UInt8} (hr : s.pending[request]? = some r)
      (hcorrect : Correct r.pdu reply) : StepsTo s (.answer request reply) { s with
      pending := s.pending.eraseIdx request
      transit := s.transit ++ packMbap r.tid r.unit reply
      replies := s.replies ++ [(r.serial, reply)] }
  | arrive (count : ℕ) : StepsTo s (.arrive count) { s with
      stream := s.stream ++ s.transit.take count
      transit := s.transit.drop count }
  | complete {c : TcpCall} (hc : s.calls = [c]) {count : ℕ} {t : TcpLink}
      (ht : s.complete 0 c count = some t) : StepsTo s (.complete 0 count) t
  | breaks {c : TcpCall} (hc : s.calls = [c]) (hrunning : s.running = true) (e : IoError) :
    StepsTo s (.breaks 0 e) { s with calls := [{ c with ended := some (.error e) }] }
  | expire {c : TcpCall} (hc : s.calls = [c]) (hrunning : s.running = true)
      (harmed : c.armed = true) : StepsTo s (.expire 0) { s with
      calls := [{ c with armed := false }]
      expired := s.expired ++ [c.serial] }
  | stale {handler serial : ℕ} (hserial : s.expired[handler]? = some serial)
      (hrunning : s.running = true) (hfinished : s.finished serial = true) :
    StepsTo s (.deadline handler) { s with expired := s.expired.eraseIdx handler }
  | deadline {c : TcpCall} (hc : s.calls = [c]) (hrunning : s.running = true) {handler : ℕ}
      (hserial : s.expired[handler]? = some c.serial) :
    StepsTo s (.deadline handler) { s with
      calls := [c.cancel]
      expired := s.expired.eraseIdx handler }
  | handle {c : TcpCall} (hc : s.calls = [c]) (hrunning : s.running = true) {ended : Ended}
      (hended : c.ended = some ended) : StepsTo s (.handle 0) (s.handle 0 c ended)

theorem Aligned.steps {s t : TcpLink} (h : s.Aligned) {action : TcpAction}
    (hstep : step action s = some t) : StepsTo s action t := by
  cases action with
  | connect ok =>
    cases hstep
    exact .connect ok
  | start unit pdu =>
    simp only [step] at hstep
    split at hstep
    · next hopen =>
      cases hstep
      exact .start unit pdu hopen
    · next hclosed =>
      cases hstep
      exact .refuse unit pdu (Bool.eq_false_iff.mpr hclosed)
  | close =>
    cases hstep
    exact .close
  | stop =>
    simp only [step] at hstep
    split at hstep
    · cases hstep
      exact .stop
    · cases hstep
  | answer request reply =>
    simp only [step] at hstep
    split at hstep
    · cases hstep
    · next r hr =>
      split at hstep
      · next hcorrect =>
        cases hstep
        exact .answer hr hcorrect
      · cases hstep
  | arrive count =>
    cases hstep
    exact .arrive count
  | complete call count =>
    simp only [step] at hstep
    split at hstep
    · cases hstep
    · next c hget =>
      obtain ⟨hc, rfl⟩ := h.only hget
      exact .complete hc hstep
  | breaks call e =>
    simp only [step] at hstep
    split at hstep
    · cases hstep
    · next c hget =>
      obtain ⟨hc, rfl⟩ := h.only hget
      split at hstep
      · next hready =>
        cases hstep
        rw [hc]
        exact .breaks hc hready.1 e
      · cases hstep
  | expire call =>
    simp only [step] at hstep
    split at hstep
    · cases hstep
    · next c hget =>
      obtain ⟨hc, rfl⟩ := h.only hget
      split at hstep
      · next hready =>
        cases hstep
        rw [hc]
        exact .expire hc hready.1 hready.2
      · cases hstep
  | deadline handler =>
    simp only [step] at hstep
    split at hstep
    · cases hstep
    · next serial hserial =>
      split at hstep
      · next hrunning =>
        cases hstep
        rcases h.expired serial (List.mem_of_getElem? hserial) with hf | ⟨c, hc, rfl⟩
        · rw [show TcpLink.finished s serial = true from hf, if_pos rfl]
          exact .stale hserial hrunning hf
        · rw [show TcpLink.finished s c.serial = false from (h.call c hc).2.1,
            if_neg Bool.false_ne_true, cancel, hc]
          exact .deadline hc hrunning hserial
      · cases hstep
  | handle call =>
    simp only [step] at hstep
    split at hstep
    · cases hstep
    · next c hget =>
      obtain ⟨hc, rfl⟩ := h.only hget
      split at hstep
      · cases hstep
      · next ended hended =>
        split at hstep
        · next hrunning =>
          cases hstep
          exact .handle hc hrunning hended
        · cases hstep

/-! ### One step -/

theorem aligned_connect {s : TcpLink} (h : s.Aligned) (hidle : s.calls = []) (ok : Bool) :
    Aligned { s.cancel with
      client := { s.client with connected := ok }
      running := true
      pending := []
      transit := []
      stream := [] } where
  one := by simp [cancel, hidle]
  pending := by simp
  replies := h.replies
  results := h.results
  expired serial hserial := by
    rcases h.expired serial hserial with hf | ⟨c, hc, -⟩
    · exact .inl hf
    · rw [hidle] at hc
      cases hc
  idle _ _ := ⟨rfl, rfl, rfl⟩
  call c hc := by
    simp only [cancel, hidle, List.map_nil] at hc
    cases hc

theorem aligned_start {s : TcpLink} (h : s.Aligned) (hidle : s.calls = [])
    (hopen : s.client.connected = true) (tid : UInt16) (unit : UInt8) (pdu : List UInt8) :
    Aligned { s with
      client := { s.client with transactionId := tid + 1 }
      running := true
      requests := s.requests + 1
      calls := s.calls ++ [{ serial := s.requests, tid, unit, pdu
                             stage := .write (packMbap tid unit pdu) }] } := by
  have hquiet := h.idle hidle hopen
  have hlength : 0 < (packMbap tid unit pdu).length := by
    rw [packMbap_length]
    omega
  have hnew : ∀ reply, (s.requests, reply) ∉ s.replies := by
    intro reply hreply
    exact absurd (h.replies.2 _ hreply) (Nat.lt_irrefl _)
  rw [hidle, List.nil_append]
  refine ⟨le_rfl, ⟨h.pending.1, fun r hr =>
      ⟨Nat.lt_succ_of_lt (h.pending.2 r hr).1, (h.pending.2 r hr).2⟩⟩,
    ⟨h.replies.1, fun p hp => Nat.lt_succ_of_lt (h.replies.2 p hp)⟩,
    ⟨h.results.1, fun p hp => ⟨Nat.lt_succ_of_lt (h.results.2 p hp).1, (h.results.2 p hp).2⟩⟩,
    ?_, by simp, ?_⟩
  · intro serial hserial
    rcases h.expired serial hserial with hf | ⟨c, hc, -⟩
    · exact .inl hf
    · rw [hidle] at hc
      cases hc
  · intro c hc
    cases hc
    refine ⟨rfl, h.not_finished le_rfl, ?_, by simp, fun _ => hlength, by simp, ?_⟩
    · intro hclosed
      rw [hopen] at hclosed
      cases hclosed
    · intro _
      left
      refine ⟨?_, rfl, hquiet, hnew⟩
      intro hwritten
      exact absurd (hwritten _ rfl) (Nat.ne_of_lt hlength)

/-- A result is out. -/
theorem results_append {s : TcpLink} (h : s.Aligned) {serial : ℕ} {result : Result (List UInt8)}
    (hnew : s.finished serial = false) (htold : Told s.replies serial result) {requests : ℕ}
    (hserial : serial < requests) (hle : s.requests ≤ requests) :
    ((s.results ++ [(serial, result)]).map Prod.fst).Nodup ∧
      ∀ p ∈ s.results ++ [(serial, result)], p.1 < requests ∧ Told s.replies p.1 p.2 := by
  constructor
  · rw [List.map_append, List.nodup_append]
    refine ⟨h.results.1, by simp, ?_⟩
    intro a ha b hb heq
    obtain rfl := List.mem_singleton.mp hb
    subst heq
    rw [finished_iff.mpr ha] at hnew
    cases hnew
  · intro p hp
    rcases List.mem_append.mp hp with hp | hp
    · exact ⟨Nat.lt_of_lt_of_le (h.results.2 p hp).1 hle, (h.results.2 p hp).2⟩
    · obtain rfl := List.mem_singleton.mp hp
      exact ⟨hserial, htold⟩

theorem aligned_refuse {s : TcpLink} (h : s.Aligned) (hidle : s.calls = [])
    (hclosed : s.client.connected = false) :
    Aligned { s with
      running := true
      requests := s.requests + 1
      results := s.results ++ [(s.requests, .error (makeErr .connection "not connected"))] } where
  one := h.one
  pending := ⟨h.pending.1, fun r hr =>
    ⟨Nat.lt_succ_of_lt (h.pending.2 r hr).1, (h.pending.2 r hr).2⟩⟩
  replies := ⟨h.replies.1, fun p hp => Nat.lt_succ_of_lt (h.replies.2 p hp)⟩
  results := results_append h (h.not_finished le_rfl) (.inl ⟨_, rfl, .inl rfl⟩)
    (Nat.lt_succ_self _) (Nat.le_succ _)
  expired serial hserial := by
    rcases h.expired serial hserial with hf | ⟨c, hc, -⟩
    · left
      exact finished_iff.mpr (by simp [finished_iff.mp hf])
    · rw [hidle] at hc
      cases hc
  idle _ hopen := by
    rw [show s.client.connected = true from hopen] at hclosed
    cases hclosed
  call c hc := by
    rw [show s.calls = [c] from hc] at hidle
    cases hidle

/-- The device answers the request that it has. -/
theorem OnWire.answer {s : TcpLink} {c : TcpCall} (h : s.OnWire c) {r : Sent}
    (hone : s.pending = [r]) {reply : List UInt8} (hcorrect : Correct r.pdu reply) :
    OnWire { s with
      pending := []
      transit := s.transit ++ packMbap r.tid r.unit reply
      replies := s.replies ++ [(r.serial, reply)] } c := by
  right
  right
  rcases h with ⟨-, -, ⟨hnone, -⟩, -⟩ | ⟨hwritten, htaken, hsent, htransit, hstream⟩ | ⟨-, hnone, -⟩
  · rw [hone] at hnone
    cases hnone
  · rw [hone] at hsent
    obtain rfl : r = c.sent := List.head_eq_of_cons_eq hsent
    refine ⟨hwritten, rfl, reply, List.mem_append_right _ (List.mem_singleton_self _), hcorrect, ?_⟩
    rw [htaken, hstream, htransit]
    rfl
  · rw [hone] at hnone
    cases hnone

theorem aligned_answer {s : TcpLink} (h : s.Aligned) {request : ℕ} {r : Sent} {reply : List UInt8}
    (hr : s.pending[request]? = some r) (hcorrect : Correct r.pdu reply) :
    Aligned { s with
      pending := s.pending.eraseIdx request
      transit := s.transit ++ packMbap r.tid r.unit reply
      replies := s.replies ++ [(r.serial, reply)] } := by
  have hmem : r ∈ s.pending := List.mem_of_getElem? hr
  obtain ⟨hlast, hnew⟩ := h.pending.2 r hmem
  have hone : s.pending = [r] := by
    obtain ⟨r', hr'⟩ := List.length_eq_one_iff.mp
      (Nat.le_antisymm h.pending.1 (List.length_pos_of_mem hmem))
    rw [hr', List.mem_singleton] at hmem
    rw [hr', hmem]
  obtain rfl : request = 0 := by
    have := (List.getElem?_eq_some_iff.mp hr).1
    rw [hone, List.length_singleton] at this
    omega
  have hsub : s.replies ⊆ s.replies ++ [(r.serial, reply)] := List.subset_append_left _ _
  have herase : s.pending.eraseIdx 0 = [] := by rw [hone, List.eraseIdx_zero, List.tail_cons]
  rw [herase]
  refine ⟨h.one, by simp, ⟨?_, ?_⟩, ⟨h.results.1, fun p hp =>
    ⟨(h.results.2 p hp).1, (h.results.2 p hp).2.mono hsub⟩⟩, h.expired, ?_, ?_⟩
  · rw [List.map_append, List.nodup_append]
    refine ⟨h.replies.1, by simp, ?_⟩
    intro a ha b hb heq
    obtain ⟨p, hp, rfl⟩ := List.mem_map.mp ha
    obtain rfl := List.mem_singleton.mp hb
    replace heq : p.1 = r.serial := heq
    exact hnew p.2 (by rw [← heq]; exact hp)
  · intro p hp
    rcases List.mem_append.mp hp with hp | hp
    · exact h.replies.2 p hp
    · obtain rfl := List.mem_singleton.mp hp
      exact hlast
  · intro hidle hopen
    have hnone := (h.idle hidle hopen).1
    rw [hone] at hnone
    cases hnone
  · intro c hc
    obtain ⟨hserial, hf, hclosed, hcarries⟩ := h.call c hc
    exact ⟨hserial, hf, hclosed, hcarries.size, hcarries.short, hcarries.header,
      fun hok => (hcarries.wire hok).answer hone hcorrect⟩

theorem Quiet.arrive {s : TcpLink} (h : s.Quiet) (count : ℕ) :
    Quiet { s with
      stream := s.stream ++ s.transit.take count
      transit := s.transit.drop count } := by
  obtain ⟨hpending, htransit, hstream⟩ := h
  refine ⟨hpending, ?_, ?_⟩
  · rw [htransit, List.drop_nil]
  · rw [htransit, hstream, List.take_nil, List.append_nil]

theorem aligned_arrive {s : TcpLink} (h : s.Aligned) (count : ℕ) :
    Aligned { s with
      stream := s.stream ++ s.transit.take count
      transit := s.transit.drop count } where
  one := h.one
  pending := h.pending
  replies := h.replies
  results := h.results
  expired := h.expired
  idle hidle hopen := (h.idle hidle hopen).arrive count
  call c hc := by
    obtain ⟨hserial, hf, hclosed, hcarries⟩ := h.call c hc
    refine ⟨hserial, hf, hclosed, hcarries.size, hcarries.short, hcarries.header, ?_⟩
    intro hok
    rcases hcarries.wire hok with ⟨hsending, htaken, hquiet, hnew⟩ |
      ⟨hwritten, htaken, hsent, htransit, hstream⟩ | ⟨hwritten, hnone, reply, hreply, hcorrect, hall⟩
    · exact .inl ⟨hsending, htaken, hquiet.arrive count, hnew⟩
    · refine .inr (.inl ⟨hwritten, htaken, hsent, ?_, ?_⟩)
      · rw [htransit, List.drop_nil]
      · rw [htransit, hstream, List.take_nil, List.append_nil]
    · refine .inr (.inr ⟨hwritten, hnone, reply, hreply, hcorrect, ?_⟩)
      rw [List.append_assoc, List.take_append_drop]
      exact hall

/-- The transaction in progress goes on; its number stays. -/
theorem Aligned.update {s : TcpLink} (h : s.Aligned) (client : TcpTransport) {c c' : TcpCall}
    (hc : s.calls = [c]) {pending : List Sent} {stream : List UInt8}
    (hpending : pending = s.pending ∨
      pending = [c.sent] ∧ ∀ reply, (c.serial, reply) ∉ s.replies)
    (hcarries : Carries { s with pending := pending, stream := stream } c')
    (hserial : c'.serial = c.serial) (hclosed : client.connected = false → c'.ended ≠ none) :
    Aligned { s with client := client, calls := [c'], pending := pending, stream := stream } where
  one := le_rfl
  pending := by
    rcases hpending with rfl | ⟨rfl, hnew⟩
    · exact h.pending
    · refine ⟨le_rfl, ?_⟩
      intro r hr
      obtain rfl := List.mem_singleton.mp hr
      refine ⟨?_, hnew⟩
      have hlast := (h.call c hc).1
      change c.serial < s.requests
      omega
  replies := h.replies
  results := h.results
  expired serial hs := by
    rcases h.expired serial hs with hf | ⟨d, hd, rfl⟩
    · exact .inl hf
    · rw [hc] at hd
      cases hd
      exact .inr ⟨c', rfl, hserial⟩
  idle hidle := by cases hidle
  call d hd := by
    cases hd
    obtain ⟨hlast, hf, -, -⟩ := h.call c hc
    rw [hserial]
    exact ⟨hlast, hf, hclosed, hcarries.size, hcarries.short, hcarries.header, hcarries.wire⟩

/-- A piece of the request is written; the last one hands it to the device. -/
theorem carries_write {s : TcpLink} {c : TcpCall} (h : s.Carries c) (hnone : c.ended = none)
    {request : List UInt8} (hstage : c.stage = .write request) {count : ℕ} (hcount : 0 < count)
    (hleft : count ≤ c.left) :
    s.pending = [] ∧ (∀ reply, (c.serial, reply) ∉ s.replies) ∧
      Carries { s with pending := if count = c.left then s.pending ++ [c.sent] else s.pending }
        { c with ended := some (.ok ((request.drop c.moved.length).take count)) } := by
  have hshort := h.short (by simp [hnone])
  have hwants : c.stage.wants = request.length := by rw [hstage]; rfl
  have hpiece : ((request.drop c.moved.length).take count).length = count := by
    rw [TcpCall.left, hwants] at hleft
    rw [List.length_take_of_le (by rw [List.length_drop]; exact hleft)]
  have hmoving : (TcpCall.moving { c with
      ended := some (.ok ((request.drop c.moved.length).take count)) }).length =
        c.moved.length + count := by
    rw [TcpCall.moving_ended rfl, List.length_append, hpiece]
  have hsending : ¬ c.written := by
    intro hwritten
    have := hwritten request hstage
    rw [TcpCall.moving_pending hnone] at this
    omega
  rcases h.wire (by simp [hnone]) with ⟨-, htaken, hquiet, hnew⟩ | ⟨hwritten, -⟩ | ⟨hwritten, -⟩
  · have htaken' : TcpCall.taken { c with
        ended := some (.ok ((request.drop c.moved.length).take count)) } = [] := by
      simp only [TcpCall.taken, hstage]
    refine ⟨hquiet.1, hnew, ?_, fun _ => hshort, h.header, fun _ => ?_⟩
    · rintro bytes hbytes
      cases hbytes
      refine ⟨?_, hpiece.le.trans hleft⟩
      intro hnil
      rw [hnil] at hpiece
      exact absurd hpiece (Nat.ne_of_lt hcount)
    · rw [TcpCall.left, hwants] at hleft ⊢
      split_ifs with hlast
      · -- the last piece
        refine .inr (.inl ⟨?_, htaken', ?_, hquiet.2⟩)
        · intro request' hrequest
          cases hstage.symm.trans hrequest
          rw [hmoving]
          omega
        · rw [hquiet.1]
          rfl
      · refine .inl ⟨?_, htaken', hquiet, hnew⟩
        intro hwritten
        have := hwritten request hstage
        rw [hmoving] at this
        omega
  · exact absurd hwritten hsending
  · exact absurd hwritten hsending

/-- A piece of the reply is read. -/
theorem carries_read {s : TcpLink} {c : TcpCall} (h : s.Carries c) (hnone : c.ended = none)
    (hstage : ∀ request, c.stage ≠ .write request) {count : ℕ} (hcount : 0 < count)
    (hleft : count ≤ c.left) (hstream : count ≤ s.stream.length) :
    Carries { s with stream := s.stream.drop count }
      { c with ended := some (.ok (s.stream.take count)) } := by
  have hwritten : ∀ ended, TcpCall.written { c with ended := ended } := by
    intro ended request hrequest
    exact absurd hrequest (hstage request)
  have htaken : TcpCall.taken { c with ended := some (.ok (s.stream.take count)) } =
      c.taken ++ s.stream.take count := by
    simp only [TcpCall.taken, TcpCall.moving, hnone, List.append_nil]
    split
    · next request hrequest => exact absurd hrequest (hstage request)
    · rfl
    · rw [List.append_assoc]
  have hpiece : (s.stream.take count).length = count := List.length_take_of_le hstream
  have hsome : s.stream ≠ [] := by
    intro hnil
    rw [hnil] at hstream
    exact absurd hcount (Nat.not_lt_of_le hstream)
  refine ⟨?_, fun _ => h.short (by simp [hnone]), h.header, fun _ => ?_⟩
  · rintro bytes hbytes
    cases hbytes
    refine ⟨?_, hpiece.le.trans hleft⟩
    intro hnil
    rw [hnil] at hpiece
    exact absurd hpiece (Nat.ne_of_lt hcount)
  · rcases h.wire (by simp [hnone]) with ⟨-, -, hquiet, -⟩ | ⟨-, -, -, -, hempty⟩ |
      ⟨-, hpending, reply, hreply, hcorrect, hall⟩
    · exact absurd hquiet.2.2 hsome
    · exact absurd hempty hsome
    · refine .inr (.inr ⟨hwritten _, hpending, reply, hreply, hcorrect, ?_⟩)
      rw [htaken, ← hall]
      simp only [List.append_assoc]
      rw [← List.append_assoc (s.stream.take _), List.take_append_drop]

theorem carries_error {s : TcpLink} {c : TcpCall} (h : s.Carries c) (e : IoError) :
    s.Carries { c with ended := some (.error e) } where
  size bytes hbytes := by cases hbytes
  short hok := absurd rfl (hok e)
  header := h.header
  wire hok := absurd rfl (hok e)

theorem carries_cancel {s : TcpLink} {c : TcpCall} (h : s.Carries c) : s.Carries c.cancel := by
  unfold TcpCall.cancel
  split
  · exact carries_error h .aborted
  · exact h

/-- The next operation starts, or fails on a closed socket. -/
theorem carries_next {s : TcpLink} {c : TcpCall} (h : s.Carries c) {bytes : List UInt8}
    (hended : c.ended = some (.ok bytes)) {stage : Stage} {moved : List UInt8}
    (hnext : NextFrom c stage moved) :
    s.Carries { c with stage := stage, moved := moved, ended := s.launch } := by
  obtain ⟨htaken, hwritten, hshort, hheader⟩ := hnext
  cases hopen : s.client.connected with
  | false =>
    have hlaunch : s.launch = some (.error (.other "Bad file descriptor")) := by
      rw [launch, hopen]
      rfl
    rw [hlaunch]
    exact ⟨fun _ hb => (by cases hb), fun hok => absurd rfl (hok _), hheader,
      fun hok => absurd rfl (hok _)⟩
  | true =>
    have hlaunch : s.launch = none := by
      rw [launch, hopen]
      rfl
    rw [hlaunch]
    refine ⟨fun _ hb => (by cases hb), fun _ => hshort, hheader, fun _ => ?_⟩
    have hwire := h.wire (by simp [hended])
    rw [OnWire, ← htaken, ← hwritten] at hwire
    exact hwire

theorem cancel_ended (c : TcpCall) : c.cancel.ended ≠ none := by
  unfold TcpCall.cancel
  split
  · simp
  · rename_i e he
    simp [he]

theorem cancel_serial (c : TcpCall) : c.cancel.serial = c.serial := by
  unfold TcpCall.cancel
  split
  · rfl
  · rfl

theorem Aligned.cancel {s : TcpLink} (h : s.Aligned) {client : TcpTransport}
    (hclosed : client.connected = false ∨ client = s.client) :
    Aligned { s.cancel with client := client } := by
  cases hcalls : s.calls with
  | nil =>
    rw [TcpLink.cancel, hcalls]
    refine ⟨Nat.zero_le _, h.pending, h.replies, h.results, ?_, ?_, by simp⟩
    · intro serial hs
      rcases h.expired serial hs with hf | ⟨c, hc, -⟩
      · exact .inl hf
      · rw [hcalls] at hc
        cases hc
    · intro _ hopen
      rcases hclosed with hclosed | rfl
      · rw [show client.connected = true from hopen] at hclosed
        cases hclosed
      · exact h.idle hcalls hopen
  | cons c rest =>
    obtain ⟨hc, -⟩ := h.only (show s.calls[0]? = some c by rw [hcalls]; rfl)
    have hcarries : Carries { s with pending := s.pending, stream := s.stream } c.cancel :=
      carries_cancel (h.call c hc).2.2.2
    have hupdate := h.update client hc (.inl rfl) hcarries (cancel_serial c)
      (fun _ => cancel_ended c)
    rw [TcpLink.cancel, hc]
    exact hupdate

theorem Aligned.markDisconnected {s : TcpLink} (h : s.Aligned) : s.markDisconnected.Aligned :=
  h.cancel (.inl rfl)

theorem Aligned.finish {s : TcpLink} (h : s.Aligned) {c : TcpCall} (hc : s.calls = [c])
    {result : Result (List UInt8)} (htold : Told s.replies c.serial result)
    (hrest : disconnects result = false → s.Quiet) : (s.finish 0 c result).Aligned := by
  obtain ⟨hserial, hf, -⟩ := h.call c hc
  have hlt : c.serial < s.requests := by
    rw [← hserial]
    exact Nat.lt_succ_self _
  -- Whatever becomes of the socket, the transaction is over.
  have hover : ∀ connected : Bool, (connected = true → s.Quiet) → Aligned { s with
      client := { s.client with connected := connected }
      calls := []
      results := s.results ++ [(c.serial, result)] } := by
    intro connected hquiet
    refine ⟨Nat.zero_le _, h.pending, h.replies, results_append h hf htold hlt le_rfl, ?_,
      fun _ hopen => hquiet hopen, by simp⟩
    intro serial hs
    left
    rw [finished_iff, List.map_append, List.mem_append]
    rcases h.expired serial hs with hf | ⟨d, hd, rfl⟩
    · exact .inl (finished_iff.mp hf)
    · rw [hc] at hd
      cases hd
      exact .inr (List.mem_singleton_self _)
  unfold TcpLink.finish
  rw [hc]
  split_ifs with hlost
  · exact hover false (fun hopen => by cases hopen)
  · exact hover s.client.connected (fun _ => hrest (Bool.eq_false_iff.mpr hlost))

theorem Aligned.handle {s : TcpLink} (h : s.Aligned) {c : TcpCall} (hc : s.calls = [c])
    {ended : Ended} (hended : c.ended = some ended) : (s.handle 0 c ended).Aligned := by
  obtain ⟨-, -, -, hcarries⟩ := h.call c hc
  cases ended with
  | error e =>
    obtain ⟨err, hover, hlost⟩ := handler_error c e
    rw [TcpLink.handle, hover]
    apply h.finish hc (.inl ⟨err, rfl, hlost⟩)
    intro hkeeps
    rw [disconnects_lost hlost] at hkeeps
    cases hkeeps
  | ok bytes =>
    rcases hcarries.handled hended with ⟨stage, moved, hhandler, hnext⟩ |
      ⟨reply, hreply, hover, hquiet⟩
    · have hnew : Carries { s with pending := s.pending, stream := s.stream }
          { c with stage := stage, moved := moved, ended := s.launch } :=
        carries_next hcarries hended hnext
      have hupdate := h.update s.client hc (.inl rfl) hnew rfl
        (fun hclosed => by simp [launch, hclosed])
      rw [TcpLink.handle, hhandler, hc]
      exact hupdate
    · rw [TcpLink.handle, hover]
      exact h.finish hc (.inr ⟨reply, hreply, rfl⟩) (fun _ => hquiet)

theorem aligned_complete {s t : TcpLink} (h : s.Aligned) {c : TcpCall} (hc : s.calls = [c])
    {count : ℕ} (hstep : s.complete 0 c count = some t) : t.Aligned := by
  have hcarries := (h.call c hc).2.2.2
  unfold complete at hstep
  split at hstep
  · next hready =>
    obtain ⟨-, hnone, -, hcount, hleft⟩ := hready
    split at hstep
    · next request hstage =>
      obtain ⟨hempty, hnew, hwrite⟩ := carries_write hcarries hnone hstage hcount hleft
      cases hstep
      have hpending : (if count = c.left then s.pending ++ [c.sent] else s.pending) = s.pending ∨
          (if count = c.left then s.pending ++ [c.sent] else s.pending) = [c.sent] ∧
            ∀ reply, (c.serial, reply) ∉ s.replies := by
        split_ifs
        · exact .inr ⟨by rw [hempty, List.nil_append], hnew⟩
        · exact .inl rfl
      rw [hc]
      exact h.update _ hc hpending hwrite rfl (fun _ => by simp)
    · next hstage =>
      split at hstep
      · next hstream =>
        cases hstep
        rw [hc]
        exact h.update _ hc (.inl rfl)
          (carries_read hcarries hnone hstage hcount hleft hstream) rfl (fun _ => by simp)
      · cases hstep
  · cases hstep

/-- What a step of the socket leaves alone. -/
theorem complete_frame {s t : TcpLink} {c : TcpCall} (hc : s.calls = [c]) {count : ℕ}
    (h : s.complete 0 c count = some t) :
    t.client = s.client ∧ t.running = s.running ∧ t.expired = s.expired ∧
      t.requests = s.requests ∧ t.replies = s.replies ∧ t.results = s.results ∧
      t.transit = s.transit ∧
      ∃ bytes, t.calls = [{ c with ended := some (.ok bytes) }] := by
  unfold complete at h
  split at h
  · split at h
    · cases h
      exact ⟨rfl, rfl, rfl, rfl, rfl, rfl, rfl, _, by rw [hc]; rfl⟩
    · split at h
      · cases h
        exact ⟨rfl, rfl, rfl, rfl, rfl, rfl, rfl, _, by rw [hc]; rfl⟩
      · cases h
  · cases h

theorem aligned_expire {s : TcpLink} (h : s.Aligned) {c : TcpCall} (hc : s.calls = [c]) :
    Aligned { s with
      calls := [{ c with armed := false }]
      expired := s.expired ++ [c.serial] } := by
  obtain ⟨-, -, hclosed, hcarries⟩ := h.call c hc
  have hsame : Carries { s with pending := s.pending, stream := s.stream }
      { c with armed := false } :=
    ⟨hcarries.size, hcarries.short, hcarries.header, hcarries.wire⟩
  have ht := h.update s.client hc (.inl rfl) hsame rfl hclosed
  refine ⟨le_rfl, ht.pending, ht.replies, ht.results, ?_, fun hidle => (by cases hidle), ?_⟩
  · intro serial hs
    rcases List.mem_append.mp hs with hs | hs
    · exact ht.expired serial hs
    · exact .inr ⟨_, rfl, (List.mem_singleton.mp hs).symm⟩
  · intro d hd
    obtain ⟨hlast, hf, hended, hd'⟩ := ht.call d hd
    exact ⟨hlast, hf, hended, hd'.size, hd'.short, hd'.header, hd'.wire⟩

/-- The deadlines that wait and the worker do not matter. -/
theorem Aligned.frame {s : TcpLink} (h : s.Aligned) {expired : List ℕ} (hsub : expired ⊆ s.expired)
    (running closing : Bool) :
    Aligned { s with expired := expired, running := running, closing := closing } where
  one := h.one
  pending := h.pending
  replies := h.replies
  results := h.results
  expired serial hs := h.expired serial (hsub hs)
  idle := h.idle
  call c hc := by
    obtain ⟨hlast, hf, hended, hcarries⟩ := h.call c hc
    exact ⟨hlast, hf, hended, hcarries.size, hcarries.short, hcarries.header, hcarries.wire⟩

theorem step_aligned {action : TcpAction} {s t : TcpLink} (h : s.Aligned)
    (hone : OneAtATime action s) (hstep : step action s = some t) : t.Aligned := by
  cases h.steps hstep with
  | connect ok => exact aligned_connect h hone.1 ok
  | start unit pdu hopen => exact aligned_start h hone.1 hopen s.client.transactionId unit pdu
  | refuse unit pdu hclosed => exact aligned_refuse h hone.1 hclosed
  | close => exact h.markDisconnected.frame (List.Subset.refl _) _ _
  | stop => exact h.frame (List.Subset.refl _) _ _
  | answer hr hcorrect => exact aligned_answer h hr hcorrect
  | arrive count => exact aligned_arrive h count
  | complete hc ht => exact aligned_complete h hc ht
  | @breaks c hc hrunning e =>
    have hcarries : Carries { s with pending := s.pending, stream := s.stream }
        { c with ended := some (.error e) } := carries_error (h.call c hc).2.2.2 e
    exact h.update s.client hc (.inl rfl) hcarries rfl (fun _ => by simp)
  | expire hc => exact aligned_expire h hc
  | stale => exact h.frame List.eraseIdx_subset s.running s.closing
  | @deadline c hc =>
    have hcarries : Carries { s with pending := s.pending, stream := s.stream } c.cancel :=
      carries_cancel (h.call c hc).2.2.2
    exact (h.update s.client hc (.inl rfl) hcarries (cancel_serial c)
      (fun _ => cancel_ended c)).frame List.eraseIdx_subset s.running s.closing
  | handle hc hrunning hended => exact h.handle hc hended

theorem aligned_of_reachable {s : TcpLink}
    (hs : Transition.Reachable step OneAtATime Fresh s) : s.Aligned := by
  apply hs.invariant
  · rintro s ⟨-, hcalls, hexpired, hpending, htransit, hstream, hreplies, hresults⟩
    exact ⟨by simp [hcalls], by simp [hpending], by simp [hreplies], by simp [hresults],
      by simp [hexpired], fun _ _ => ⟨hpending, htransit, hstream⟩, by simp [hcalls]⟩
  · intro s t action _ h hone hstep
    exact step_aligned h hone hstep

end TcpLink

/-- In every run with one call at a time a transaction returns at most once, and what it
returns is a lost connection, a timeout, or what the reply to its own request says. -/
theorem tcp_reply_own {s : TcpLink}
    (hs : Transition.Reachable TcpLink.step TcpLink.OneAtATime TcpLink.Fresh s) :
    (s.results.map Prod.fst).Nodup ∧ (s.replies.map Prod.fst).Nodup ∧
      ∀ serial result, (serial, result) ∈ s.results →
        (∃ e, result = .error e ∧ (e.code = .connection ∨ e.code = .timeout)) ∨
        ∃ reply, (serial, reply) ∈ s.replies ∧ result = tcpAnswerOf reply := by
  have h := TcpLink.aligned_of_reachable hs
  exact ⟨h.results.1, h.replies.1, fun serial result hmem => (h.results.2 _ hmem).2⟩

/-- The read of one register, answered in two pieces, of which the first ends in the header. -/
def oneRead : List TcpAction :=
  [.connect true, .start 1 readOne, .complete 0 5, .handle 0, .complete 0 7, .handle 0,
    .answer 0 oneRegister, .arrive 3, .complete 0 3, .handle 0, .arrive 8, .complete 0 3, .handle 0,
    .complete 0 5, .handle 0]

theorem oneRead_own : ∃ s, Transition.run TcpLink.step oneRead {} = some s ∧
    (0, .ok oneRegister) ∈ s.results ∧
    ∃ reply, (0, reply) ∈ s.replies ∧ .ok oneRegister = tcpAnswerOf reply := by
  have hfresh : TcpLink.Fresh {} := ⟨rfl, rfl, rfl, rfl, rfl, rfl, rfl, rfl⟩
  obtain ⟨s, hrun⟩ : ∃ s, Transition.run TcpLink.step oneRead {} = some s := ⟨_, rfl⟩
  have hmeets : Transition.Meets TcpLink.step TcpLink.OneAtATime oneRead {} := by decide +kernel
  have hs := (Transition.Reachable.start hfresh).of_meets oneRead hmeets hrun
  have hresult : (0, .ok oneRegister) ∈ s.results := by
    cases hrun
    decide
  refine ⟨s, hrun, hresult, ?_⟩
  rcases (tcp_reply_own hs).2.2 0 _ hresult with ⟨e, herror, -⟩ | hown
  · cases herror
  · exact hown

/-- With two requests at once the first one takes the reply to the second. -/
example : (Transition.run TcpLink.step [.connect true, .start 1 readOne, .complete 0 12, .handle 0,
    .start 2 readOne, .complete 1 12, .answer 1 oneRegister, .arrive 11, .complete 0 6, .handle 0,
    .complete 1 5, .handle 1] {}).map (fun s => (s.replies, s.results)) =
    some ([(1, oneRegister)], [(0, .ok oneRegister)]) := by decide +kernel

end OpcServer.Adapters
