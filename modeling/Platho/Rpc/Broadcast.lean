import Platho.Rpc.Transport

/-!
# A broadcast that definitely failed

The wallet signs and pays again when it reads an error as "never left". What an error says is a
function of the attempts that were made: an operation on one transport ends with what its last
attempt comes to, marked when an earlier one is unknown, and `callSend` adds a mark for the
transports it moved on from. It adds it only for an error below 400, so a transport that failed
with an answer of 400 or more is forgotten, whatever its attempts may have delivered.
-/

namespace Platho.Rpc

namespace Attempt

/-- The note the layers keep of an attempt: it may have delivered the message. -/
def unknown : Attempt → Bool
  | answered response => decide (500 ≤ response.status) && !response.carriesChainRejection
  | timedOut _ | failed _ => true
  | unsent _ => false

def isOk : Attempt → Bool
  | answered response => response.ok
  | _ => false

/-- The attempt did not deliver the message, and the layers know it. -/
def clear (attempt : Attempt) : Bool := !attempt.unknown && !attempt.isOk

/-- What an operation comes to whose last attempt this is. -/
def settle (attempt : Attempt) (unknown : Bool) : Except SendError Json :=
  match attempt.outcome with
  | .ok response => settleAnswer ⟨response, false⟩ unknown
  | .error error => .error (error.marked unknown)

/-- The door took the message and its answer can be read. -/
def delivers : Attempt → Bool
  | answered response => response.ok && decide (response.json ≠ .null) && !response.refuses
  | _ => false

/-- The error of the answer alone reads as a message that never left. -/
def refusing : Attempt → Bool
  | answered response => !response.ok &&
      (walletErrorIsSeqnoMismatch (toncenterHttpErrorWithBody "TON RPC sendBoc" response) ||
        decide (response.classified.verdict = .rejected) ||
        decide (response.classified.verdict = .refused))
  | unsent (.queueTimeout _) => true
  | _ => false

/-- The text of the answer reads as that of a door that is not configured. -/
def unconfigured : Attempt → Bool
  | answered response => !response.ok &&
      isSendBocTransportUnavailableError (toncenterHttpErrorWithBody "TON RPC sendBoc" response)
  | _ => false

/-- `callSend` moves on from an operation with this last attempt without a note of it. -/
def overlooked (attempt : Attempt) : Bool :=
  attempt.unconfigured || match attempt with
    | answered response => !response.ok && decide (400 ≤ response.status)
    | unsent _ => true
    | _ => false

/-- It may have delivered the message. -/
def uncertain : Attempt → Bool
  | answered response => response.ok ||
      (decide (500 ≤ response.status) && !response.classified.rejectedByChain)
  | timedOut _ | failed _ => true
  | unsent _ => false

/-- It was answered ok by a door that did not refuse the message. -/
def accepted : Attempt → Bool
  | answered response => response.ok && !response.refuses
  | _ => false

end Attempt

/-! ### One request and one transport -/

/-- The answer of a request after attempts of which one is unknown. -/
def Attempt.receive (attempt : Attempt) (unknown : Bool) : Except SendError Received :=
  match attempt.outcome with
  | .ok response => .ok ⟨response, !response.ok && unknown⟩
  | .error error => .error (error.marked unknown)

theorem Attempt.receive_notOk {attempt : Attempt} {response : Response} {unknown : Bool}
    (outcome : attempt.outcome = .ok response) (notOk : response.ok = false) :
    attempt.receive unknown = .ok ⟨response, unknown⟩ := by
  rw [receive, outcome]
  simp only [notOk, Bool.not_false, Bool.true_and]

theorem not_ok_of_ne {response : Response} (status : 300 ≤ response.status) :
    response.ok = false := by
  rw [Response.ok, decide_eq_false_iff_not]
  omega

theorem answered_of_outcome {attempt : Attempt} {response : Response}
    (answered : attempt.outcome = .ok response) : attempt = .answered response := by
  cases attempt with
  | answered r =>
    cases answered
    rfl
  | timedOut | failed | unsent => cases answered

/-- A request comes to what its last attempt comes to, marked by the ones before it. -/
theorem schedule_spec (rateLimitRetries serverErrorRetries : Nat) (attempts : Nat → Attempt)
    (rateLimited serverErrors : Nat) (earlierAttemptUnknown : Bool) :
    let traced := scheduleToncenterHttpRequest rateLimitRetries serverErrorRetries attempts
      rateLimited serverErrors earlierAttemptUnknown
    ∃ earlier last, traced.attempts = earlier ++ [last] ∧
      (∀ attempt ∈ earlier, attempt.isOk = false) ∧
      traced.result = last.receive (earlierAttemptUnknown || earlier.any Attempt.unknown) := by
  fun_induction scheduleToncenterHttpRequest rateLimitRetries serverErrorRetries attempts
    rateLimited serverErrors earlierAttemptUnknown with
  | case1 rateLimited serverErrors unknown attempt error outcome =>
    refine ⟨[], attempt, rfl, by simp, ?_⟩
    rw [Attempt.receive, outcome, List.any_nil, Bool.or_false]
  | case2 rateLimited serverErrors unknown attempt response outcome busy =>
    refine ⟨[], attempt, rfl, by simp, ?_⟩
    rw [List.any_nil, Bool.or_false, Attempt.receive_notOk outcome (not_ok_of_ne (by omega))]
  | case3 rateLimited serverErrors unknown attempt response outcome busy more ih =>
    obtain ⟨earlier, last, made, notOk, result⟩ := ih
    have same := answered_of_outcome outcome
    have settled : attempt.unknown = false := by
      rw [same, Attempt.unknown, Bool.and_eq_false_iff, decide_eq_false_iff_not]
      exact .inl (by omega)
    refine ⟨attempt :: earlier, last, ?_, ?_, ?_⟩
    · rw [Traced.after, made]
      rfl
    · rw [List.forall_mem_cons]
      refine ⟨?_, notOk⟩
      rw [same]
      exact not_ok_of_ne (by omega)
    · rw [List.any_cons, settled, Bool.false_or]
      exact result
  | case4 rateLimited serverErrors unknown attempt response outcome busy broken rejected =>
    refine ⟨[], attempt, rfl, by simp, ?_⟩
    rw [List.any_nil, Bool.or_false, Attempt.receive_notOk outcome (not_ok_of_ne (by omega))]
  | case5 rateLimited serverErrors unknown attempt response outcome busy broken rejected ih =>
    obtain ⟨earlier, last, made, notOk, result⟩ := ih
    have same := answered_of_outcome outcome
    have noted : attempt.unknown = true := by
      rw [same, Attempt.unknown, Bool.and_eq_true, decide_eq_true_eq]
      exact ⟨broken.1, by simpa using rejected⟩
    refine ⟨attempt :: earlier, last, ?_, ?_, ?_⟩
    · rw [Traced.after, made]
      rfl
    · rw [List.forall_mem_cons]
      refine ⟨?_, notOk⟩
      rw [same]
      exact not_ok_of_ne (by omega)
    · rw [List.any_cons, noted, Bool.true_or, Bool.or_true, ← Bool.true_or]
      exact result
  | case6 rateLimited serverErrors unknown attempt response outcome busy broken =>
    refine ⟨[], attempt, rfl, by simp, ?_⟩
    rw [Attempt.receive, outcome, List.any_nil, Bool.or_false]

theorem schedule_oneShot (attempt : Attempt) :
    scheduleToncenterHttpRequest 0 0 (fun _ => attempt) 0 0 false =
      ⟨[attempt], attempt.receive false⟩ := by
  rw [scheduleToncenterHttpRequest, Attempt.receive]
  cases outcome : attempt.outcome with
  | error error => rfl
  | ok response =>
    by_cases busy : response.status = 429
    · simp [busy]
    · simp [busy]

/-- The try at the alternate door is noted as any other attempt. -/
theorem viaAlternate_eq {attempt : Attempt} (notOk : attempt.isOk = false) :
    viaAlternate attempt = (none, attempt.unknown) := by
  rw [viaAlternate, schedule_oneShot]
  cases attempt with
  | answered response =>
    rw [Attempt.isOk] at notOk
    simp only [Attempt.receive, Attempt.outcome, notOk]
    rfl
  | timedOut timeoutMs => rfl
  | failed failure => rfl
  | unsent refusal =>
    cases refusal with
    | queueTimeout timeoutMs => rfl
    | backoff => rfl

theorem viaAlternate_ok {response : Response} (ok : response.ok = true) :
    viaAlternate (.answered response) = (some response, false) := by
  rw [viaAlternate, schedule_oneShot]
  simp only [Attempt.receive, Attempt.outcome, ok, if_true]

/-- The operation on a transport ends with what its last attempt comes to. -/
def Traced.Settled (traced : Traced Json) : Prop :=
  ∃ earlier last, traced.attempts = earlier ++ [last] ∧
    (∀ attempt ∈ earlier, attempt.isOk = false) ∧
    traced.result = last.settle (earlier.any Attempt.unknown)

theorem SendError.marked_marked (error : SendError) (a b : Bool) :
    (error.marked a).marked b = error.marked (a || b) := by
  rw [marked, marked, marked, Bool.or_assoc]

theorem settleAnswer_mark (response : Response) (mark unknown : Bool) :
    settleAnswer ⟨response, !response.ok && mark⟩ unknown =
      settleAnswer ⟨response, false⟩ (unknown || mark) := by
  rw [settleAnswer, settleAnswer]
  cases ok : response.ok <;> simp

/-- What the own door comes to, after an alternate door that is `unknown` or not. -/
theorem settlePosted_receive (last : Attempt) (mark unknown : Bool) :
    settlePosted (last.receive mark) unknown = last.settle (unknown || mark) := by
  rw [Attempt.receive, Attempt.settle]
  cases last.outcome with
  | error error =>
    dsimp only [settlePosted]
    rw [SendError.marked_marked, Bool.or_comm]
  | ok response => exact settleAnswer_mark response mark unknown

theorem postOwn_settled (transport : Transport) (posts : Nat → Attempt) (unknown : Bool) :
    ∃ earlier last, (transport.postOwn posts unknown).attempts = earlier ++ [last] ∧
      (∀ attempt ∈ earlier, attempt.isOk = false) ∧
      (transport.postOwn posts unknown).result =
        last.settle (unknown || earlier.any Attempt.unknown) := by
  obtain ⟨earlier, last, made, notOk, result⟩ := schedule_spec transport.rateLimitRetries
    transport.serverErrorRetries posts 0 0 false
  refine ⟨earlier, last, made, notOk, ?_⟩
  rw [Transport.postOwn]
  dsimp only
  rw [result, settlePosted_receive, Bool.false_or]

theorem sendBoc_settled {transport : Transport} {endpointForSend : Endpoint}
    (configured : transport.sendBocEndpoint = some endpointForSend) (alternate : Option Endpoint)
    (script : Script) : (transport.sendBoc alternate script).Settled := by
  rw [Transport.sendBoc, configured]
  dsimp only
  split
  · cases isOk : script.alternate.isOk with
    | true =>
      cases same : script.alternate with
      | answered response =>
        rw [same] at isOk
        rw [viaAlternate_ok isOk]
        exact ⟨[], .answered response, rfl, by simp, rfl⟩
      | timedOut | failed | unsent =>
        rw [same] at isOk
        cases isOk
    | false =>
      rw [viaAlternate_eq isOk]
      obtain ⟨earlier, last, made, notOk, result⟩ :=
        postOwn_settled transport script.posts script.alternate.unknown
      refine ⟨script.alternate :: earlier, last, ?_, List.forall_mem_cons.mpr ⟨isOk, notOk⟩, ?_⟩
      · dsimp only [Traced.after]
        rw [made]
        rfl
      · rw [List.any_cons]
        exact result
  · obtain ⟨earlier, last, made, notOk, result⟩ := postOwn_settled transport script.posts false
    refine ⟨earlier, last, made, notOk, ?_⟩
    rw [result, Bool.false_or]

/-! ### What an error says -/

/-- `callSend` notes that the transport may have delivered the message. -/
def SendError.noted (error : SendError) : Bool :=
  !isSendBocTransportUnavailableError error &&
    (decide (error.status < 400) && decide (error.code ≠ some .queueTimeout))

theorem definitivelyRejected_eq (error : SendError) :
    definitivelyRejected error = (!error.tonRpcPriorDeliveryAmbiguous &&
      (walletErrorIsSeqnoMismatch error || decide (error.code = some .queueTimeout) ||
        decide (error.broadcastVerdict = some .rejected) ||
        decide (error.broadcastVerdict = some .refused))) := by
  rw [definitivelyRejected]
  cases error.tonRpcPriorDeliveryAmbiguous <;> simp [Bool.or_assoc]

theorem definitivelyRejected_marked (error : SendError) (mark : Bool) :
    definitivelyRejected (error.marked mark) = (!mark && definitivelyRejected error) := by
  rw [definitivelyRejected_eq, definitivelyRejected_eq]
  change (!(_ || mark) && (walletErrorIsSeqnoMismatch error || _ || _ || _)) = _
  cases mark <;> simp [SendError.marked]

/-- An error without an exit code, a verdict or the wait in the queue is not definite. -/
theorem not_definite {error : SendError} (code : error.code ≠ some .queueTimeout)
    (exitCode : error.chainExitCode = none) (body : error.responseBody = none)
    (verdict : error.broadcastVerdict = none)
    (text : toncenterBroadcastExitCode error.message = none) :
    definitivelyRejected error = false := by
  have mismatch : walletErrorIsSeqnoMismatch error = false := by
    rw [walletErrorIsSeqnoMismatch, exitCode, body]
    simp [text]
  rw [definitivelyRejected_eq, mismatch, verdict]
  simp [code]

theorem definitivelyRejected_queueTimeout (timeoutMs : Nat) :
    definitivelyRejected (tonRpcQueueTimeoutError timeoutMs) = true := by
  rw [definitivelyRejected_eq]
  simp [tonRpcQueueTimeoutError, transportError]

/-- What the wallet and `callSend` read from the error of an operation is what its last attempt
says, unless the error is marked. -/
structure Reads (error : SendError) (last : Attempt) (unknown : Bool) : Prop where
  definite : definitivelyRejected error = (!unknown && last.refusing)
  unconfigured : isSendBocTransportUnavailableError error = last.unconfigured
  noted : error.noted = !last.overlooked

theorem Reads.of_marked {error : SendError} {last : Attempt}
    (definite : definitivelyRejected error = last.refusing)
    (unconfigured : isSendBocTransportUnavailableError error = last.unconfigured)
    (noted : error.noted = !last.overlooked) (unknown : Bool) :
    Reads (error.marked unknown) last unknown where
  definite := by rw [definitivelyRejected_marked, definite]
  unconfigured := unconfigured
  noted := noted

/-- An error of the transport itself, with a plain text. -/
theorem reads_plain {error : SendError} {last : Attempt} {unknown : Bool}
    (plain : Plain error.message) (status : error.status = 0)
    (code : error.code ≠ some .queueTimeout) (exitCode : error.chainExitCode = none)
    (body : error.responseBody = none) (verdict : error.broadcastVerdict = none)
    (refusing : last.refusing = false) (unconfigured : last.unconfigured = false)
    (overlooked : last.overlooked = false) : Reads error last unknown where
  definite := by
    rw [not_definite code exitCode body verdict plain.noExitCode, refusing, Bool.and_false]
  unconfigured := plain.configured.trans unconfigured.symm
  noted := by
    rw [SendError.noted, overlooked]
    have configured : isSendBocTransportUnavailableError error = false := plain.configured
    simp [configured, status, code]

/-- An answer that was `ok` and then refused or could not be read. -/
theorem reads_ok {response : Response} (ok : response.ok = true) {error : SendError}
    {unknown : Bool} (plain : Plain error.message) (status : error.status = 0)
    (code : error.code ≠ some .queueTimeout) (exitCode : error.chainExitCode = none)
    (body : error.responseBody = none) (verdict : error.broadcastVerdict = none) :
    Reads error (.answered response) unknown := by
  have notOk : (!response.ok) = false := by rw [ok, Bool.not_true]
  refine reads_plain plain status code exitCode body verdict ?_ ?_ ?_
  · rw [Attempt.refusing, notOk, Bool.false_and]
  · rw [Attempt.unconfigured, notOk, Bool.false_and]
  · rw [Attempt.overlooked, Attempt.unconfigured, notOk, Bool.false_and, Bool.false_and,
      Bool.or_false]

theorem httpError_code (response : Response) :
    (toncenterHttpErrorWithBody "TON RPC sendBoc" response).code ≠ some .queueTimeout := by
  rw [toncenterHttpErrorWithBody]
  dsimp only
  split <;> simp

/-- The error of an answer that is not `ok`. -/
theorem reads_answered {response : Response} (notOk : response.ok = false) (unknown : Bool) :
    Reads (toncenterSendBocError response unknown) (.answered response) unknown := by
  have isNot : (!response.ok) = true := by rw [notOk, Bool.not_false]
  have code : decide ((toncenterSendBocError response unknown).code = some .queueTimeout) =
    false := decide_eq_false (httpError_code response)
  constructor
  · rw [definitivelyRejected_eq, Attempt.refusing, isNot, Bool.true_and, code, Bool.or_false]
    dsimp only [toncenterSendBocError]
    simp only [Option.some.injEq]
    rfl
  · rw [Attempt.unconfigured, isNot, Bool.true_and]
    rfl
  · have below : decide ((toncenterSendBocError response unknown).status < 400) =
        !decide (400 ≤ response.status) := by
      rw [← decide_not, decide_eq_decide, Nat.not_le]
      rfl
    have noted : decide ((toncenterSendBocError response unknown).code ≠ some .queueTimeout) =
        true := decide_eq_true (httpError_code response)
    rw [SendError.noted, Attempt.overlooked, Attempt.unconfigured, isNot, Bool.true_and,
      Bool.true_and, Bool.not_or, noted, Bool.and_true, below]
    rfl

theorem settle_reads {last : Attempt} {unknown : Bool} {error : SendError}
    (failed : last.settle unknown = .error error) : Reads error last unknown := by
  cases last with
  | answered response =>
    change settleAnswer ⟨response, false⟩ unknown = _ at failed
    rw [settleAnswer] at failed
    dsimp only at failed
    cases ok : response.ok with
    | true =>
      rw [ok, if_pos rfl] at failed
      split at failed
      · cases failed
        exact reads_ok ok (.of_lacks 'b' (by decide) (by decide) (by decide)) rfl (by decide) rfl
          rfl rfl
      · split at failed
        · cases failed
          exact reads_ok ok (.of_lacks 'f' (by decide) (by decide) (by decide)) rfl (by decide)
            rfl rfl rfl
        · cases failed
    | false =>
      rw [ok, if_neg (by decide), Bool.or_false] at failed
      cases failed
      exact reads_answered ok unknown
  | timedOut timeoutMs =>
    cases failed
    exact reads_plain (plain_timedOut timeoutMs) rfl (by simp [SendError.marked, tonRpcTimeoutError])
      rfl rfl rfl rfl rfl rfl
  | failed failure =>
    cases failed
    exact reads_plain failure.plain rfl
      (by simp [SendError.marked, Failure.error, transportError]) rfl rfl rfl rfl rfl rfl
  | unsent refusal =>
    cases failed
    cases refusal with
    | queueTimeout timeoutMs =>
      refine .of_marked (definitivelyRejected_queueTimeout timeoutMs)
        (plain_queueTimedOut timeoutMs).configured ?_ unknown
      rw [SendError.noted]
      change (_ && (_ && decide (some ErrorCode.queueTimeout ≠ some .queueTimeout))) = false
      simp
    | backoff =>
      refine .of_marked ?_ ?_ ?_ unknown
      · exact not_definite (by decide) rfl rfl rfl
          (toncenterBroadcastExitCode_eq_none (by decide))
      · exact (Plain.of_lacks 'd' (by decide) (by decide) (by decide)).configured
      · rw [SendError.noted]
        change (_ && (decide (429 < 400) && _)) = false
        simp

theorem settle_ok_iff (last : Attempt) (unknown : Bool) :
    (∃ json, last.settle unknown = .ok json) ↔ last.delivers = true := by
  cases last with
  | answered response =>
    change (∃ json, settleAnswer ⟨response, false⟩ unknown = .ok json) ↔ _
    rw [settleAnswer, Attempt.delivers]
    dsimp only
    cases response.ok with
    | false => simp
    | true =>
      cases response.json with
      | null => simp
      | unreadable => cases response.refuses <;> simp
      | value ok resultOk => cases response.refuses <;> simp
  | timedOut timeoutMs => simp [Attempt.settle, Attempt.outcome, Attempt.delivers]
  | failed failure => simp [Attempt.settle, Attempt.outcome, Attempt.delivers]
  | unsent refusal => simp [Attempt.settle, Attempt.outcome, Attempt.delivers]

/-! ### The visits of a call -/

namespace Visit

variable (visit : Visit)

/-- The call ended in time, with such an attempt. -/
def ends (last : Attempt → Bool) : Bool := !visit.bounded && visit.attempts.getLast?.any last

def delivered : Bool := visit.ends Attempt.delivers

def unconfigured : Bool := visit.ends Attempt.unconfigured

def overlooked : Bool := visit.ends Attempt.overlooked

/-- No attempt delivered the message, and the last one says so. -/
def refused : Bool := visit.ends Attempt.refusing && visit.attempts.dropLast.all Attempt.clear

end Visit

/-- What the call to a transport comes to is what its visit says. -/
structure Comes (visit : Visit) (result : Except SendError Json) : Prop where
  ok : (∃ json, result = .ok json) ↔ visit.delivered = true
  definite : ∀ error, result = .error error → definitivelyRejected error = visit.refused
  unconfigured : ∀ error, result = .error error →
    isSendBocTransportUnavailableError error = visit.unconfigured
  noted : ∀ error, result = .error error → error.noted = !visit.overlooked

theorem all_clear {attempts : List Attempt} (notOk : ∀ attempt ∈ attempts, attempt.isOk = false) :
    attempts.all Attempt.clear = !attempts.any Attempt.unknown := by
  rw [List.not_any_eq_all_not, Bool.eq_iff_iff, List.all_eq_true, List.all_eq_true]
  refine forall₂_congr fun attempt mem => ?_
  rw [Attempt.clear, notOk attempt mem, Bool.not_false, Bool.and_true]

theorem comes_of_settled {traced : Traced Json} (settled : traced.Settled)
    (transport : Transport) : Comes ⟨transport, false, traced.attempts⟩ traced.result := by
  obtain ⟨earlier, last, made, notOk, result⟩ := settled
  rw [made, result]
  have ends : ∀ p : Attempt → Bool, (Visit.mk transport false (earlier ++ [last])).ends p = p last := by
    intro p
    simp [Visit.ends]
  constructor
  · rw [settle_ok_iff, Visit.delivered, ends]
  · intro error failed
    rw [(settle_reads failed).definite, Visit.refused, ends, List.dropLast_concat, all_clear notOk,
      Bool.and_comm]
  · intro error failed
    rw [(settle_reads failed).unconfigured, Visit.unconfigured, ends]
  · intro error failed
    rw [(settle_reads failed).noted, Visit.overlooked, ends]

/-- A transport that is no longer listened to. -/
theorem comes_bounded (transport : Transport) (attempts : List Attempt) (timeoutMs : Nat) :
    Comes ⟨transport, true, attempts⟩ (.error (tonRpcTimeoutError timeoutMs)) := by
  have reads : Reads (tonRpcTimeoutError timeoutMs) (.timedOut timeoutMs) false :=
    settle_reads rfl
  constructor
  · constructor
    · rintro ⟨json, same⟩
      cases same
    · intro same
      cases same
  · rintro error ⟨⟩
    exact reads.definite
  · rintro error ⟨⟩
    exact reads.unconfigured
  · rintro error ⟨⟩
    exact reads.noted

theorem withTimeout_comes {traced : Traced Json} (settled : traced.Settled)
    (transport : Transport) (timeoutMs : Nat) (bound : Option Nat) :
    let called := withTonRpcOperationTimeout traced timeoutMs bound
    Comes ⟨transport, called.1, called.2.attempts⟩ called.2.result := by
  cases bound with
  | none => exact comes_of_settled settled transport
  | some answered =>
    rw [withTonRpcOperationTimeout]
    dsimp only
    split
    · exact comes_of_settled settled transport
    · exact comes_bounded transport _ timeoutMs

/-! ### The loop -/

/-- What a call comes to from the transports it visited, when an earlier one was noted or not. -/
structure Ends (visits : List Visit) (noted : Bool) (result : Except SendError Json) : Prop where
  ok : (∃ json, result = .ok json) ↔ visits.getLast?.any Visit.delivered = true
  definite : ∀ error, result = .error error → definitivelyRejected error =
    visits.getLast?.any fun last => last.refused &&
      (last.unconfigured || (!noted && visits.dropLast.all Visit.overlooked))

theorem Ends.cons {visit : Visit} {visits : List Visit} {noted : Bool}
    {result : Except SendError Json} (nonempty : visits ≠ [])
    (ends : Ends visits (noted || !visit.overlooked) result) :
    Ends (visit :: visits) noted result where
  ok := by
    rw [ends.ok, List.getLast?_cons_of_ne_nil nonempty]
  definite error failed := by
    rw [ends.definite error failed, List.getLast?_cons_of_ne_nil nonempty,
      List.dropLast_cons_of_ne_nil nonempty, List.all_cons, Bool.not_or, Bool.not_not,
      Bool.and_assoc]

/-- The last transport failed, and its error has the mark of those before it. -/
theorem Ends.single {visit : Visit} {error : SendError} (comes : Comes visit (.error error))
    (configured : isSendBocTransportUnavailableError error = false) (noted : Bool) :
    Ends [visit] noted (.error (error.marked noted)) where
  ok := by
    have failed : visit.delivered = false := by
      rw [← Bool.not_eq_true, ← comes.ok]
      rintro ⟨json, same⟩
      cases same
    simp [failed]
  definite := by
    rintro failed ⟨⟩
    have unconfigured : visit.unconfigured = false :=
      (comes.unconfigured error rfl).symm.trans configured
    rw [definitivelyRejected_marked, comes.definite error rfl, Bool.and_comm]
    simp [unconfigured]

/-- The last transport failed with the text of a door that is not configured. -/
theorem Ends.unconfigured {visit : Visit} {error : SendError} (comes : Comes visit (.error error))
    (unavailable : isSendBocTransportUnavailableError error = true) (noted : Bool) :
    Ends [visit] noted (.error error) where
  ok := by
    have failed : visit.delivered = false := by
      rw [← Bool.not_eq_true, ← comes.ok]
      rintro ⟨json, same⟩
      cases same
    simp [failed]
  definite := by
    rintro failed ⟨⟩
    have unconfigured : visit.unconfigured = true :=
      (comes.unconfigured error rfl).symm.trans unavailable
    rw [comes.definite error rfl]
    simp [unconfigured]

theorem callSend_ne_nil (doors : Doors) (bocBytes operationTimeoutMs : Nat)
    {candidates : List (Transport × Script)} (nonempty : candidates ≠ []) (cursor : Int)
    (noted : Bool) (lastError : Option SendError) :
    (callSend doors bocBytes operationTimeoutMs candidates cursor noted lastError).1 ≠ [] := by
  cases candidates with
  | nil => exact absurd rfl nonempty
  | cons c rest =>
    rw [callSend]
    dsimp only
    split
    · simp
    · split
      · simp
      · split
        · simp
        · split <;> simp

theorem callSend_ends (doors : Doors) (bocBytes operationTimeoutMs : Nat)
    (candidates : List (Transport × Script))
    (configured : ∀ c ∈ candidates, c.1.sendBocEndpoint.isSome) (nonempty : candidates ≠ [])
    (cursor : Int) (noted : Bool) (lastError : Option SendError) :
    let run := callSend doors bocBytes operationTimeoutMs candidates cursor noted lastError
    Ends run.1 noted run.2 := by
  induction candidates generalizing cursor noted lastError with
  | nil => exact absurd rfl nonempty
  | cons candidate rest ih =>
    obtain ⟨transport, script⟩ := candidate
    rw [List.forall_mem_cons] at configured
    obtain ⟨endpoint, here⟩ := Option.isSome_iff_exists.mp configured.1
    have comes := withTimeout_comes
      (sendBoc_settled here (firstBroadcastDoorForBytes doors bocBytes cursor).1 script) transport
      operationTimeoutMs script.bound
    rw [callSend]
    dsimp only at comes ⊢
    generalize (firstBroadcastDoorForBytes doors bocBytes cursor).2 = cursor
    generalize withTonRpcOperationTimeout _ _ _ = called at comes ⊢
    obtain ⟨bounded, attempts, result⟩ := called
    dsimp only at comes ⊢
    generalize visited : Visit.mk transport bounded attempts = visit at comes ⊢
    cases result with
    | ok json =>
      have delivered : visit.delivered = true := comes.ok.mp ⟨json, rfl⟩
      constructor
      · simp [delivered]
      · rintro error ⟨⟩
    | error error =>
      dsimp only
      cases unavailable : isSendBocTransportUnavailableError error with
      | true =>
        rw [if_pos rfl]
        cases rest with
        | nil => exact .unconfigured comes unavailable noted
        | cons next rest =>
          -- nothing is noted here, and the visit is one that is overlooked
          have overlooked : (!visit.overlooked) = false := by
            rw [← comes.noted error rfl, SendError.noted, unavailable, Bool.not_true,
              Bool.false_and]
          apply Ends.cons (callSend_ne_nil doors bocBytes operationTimeoutMs (by simp) _ _ _)
          rw [overlooked, Bool.or_false]
          exact ih configured.2 (by simp) _ _ _
      | false =>
        rw [if_neg (by decide)]
        split
        · exact .single comes unavailable noted
        · split
          · exact .single comes unavailable noted
          · cases rest with
            | nil => exact .single comes unavailable noted
            | cons next rest =>
              have ambiguous : (!visit.overlooked) =
                  (decide (error.status < 400) && decide (error.code ≠ some .queueTimeout)) := by
                rw [← comes.noted error rfl, SendError.noted, unavailable, Bool.not_false,
                  Bool.true_and]
              apply Ends.cons (callSend_ne_nil doors bocBytes operationTimeoutMs (by simp) _ _ _)
              rw [ambiguous]
              exact ih configured.2 (by simp) _ _ _

/-! ### The whole call -/

/-- A call moved on from an attempt that may have delivered the message, noted none of the
transports it moved on from, and the last one refused. -/
def forgotten (log : List Visit) : Bool :=
  (log.dropLast.any fun visit => visit.attempts.any Attempt.uncertain) &&
    log.getLast?.any fun last =>
      last.refused && (last.unconfigured || log.dropLast.all Visit.overlooked)

/-- A door took the message, but the transport was no longer listened to or the answer could not
be read, and the last transport did not deliver. -/
def lost (log : List Visit) : Bool :=
  (log.any fun visit => visit.attempts.any Attempt.accepted) &&
    !log.getLast?.any Visit.delivered

/-- What the wallet relies on. -/
structure Reliable (log : List Visit) (result : Except SendError Json) : Prop where
  failed : ∀ error, result = .error error → definitivelyRejected error = true →
    ∀ visit ∈ log, ∀ attempt ∈ visit.attempts, attempt.uncertain = false
  accepted : (∃ visit ∈ log, ∃ attempt ∈ visit.attempts, attempt.accepted = true) →
    ∃ json, result = .ok json

theorem accepted_iff (log : List Visit) :
    (∃ visit ∈ log, ∃ attempt ∈ visit.attempts, attempt.accepted = true) ↔
      (log.any fun visit => visit.attempts.any Attempt.accepted) = true := by
  simp only [List.any_eq_true]

theorem plain_httpError (status : Nat) :
    toncenterBroadcastExitCode s!"TON RPC sendBoc HTTP {status}" = none := by
  apply toncenterBroadcastExitCode_eq_none
  change 'x' ∉ ("TON RPC sendBoc HTTP " ++ toString status).toList.map Char.toLower
  rw [← String.append_empty (s := _ ++ _), mem_lower_around (by decide)]
  decide

/-- A mismatch is read from an exit code. -/
theorem exitCode_of_mismatch {error : SendError}
    (mismatch : walletErrorIsSeqnoMismatch error = true) :
    error.chainExitCode.isSome ∨
      (toncenterBroadcastExitCode (error.responseBody.getD error.message)).isSome := by
  rw [walletErrorIsSeqnoMismatch] at mismatch
  split at mismatch
  · next code direct => exact .inl (Option.isSome_of_eq_some direct)
  · exact .inr (Option.isSome_of_eq_some (of_decide_eq_true mismatch))

theorem rejectedByChain_of_exitCode {response : Response}
    (code : response.chainExitCode.isSome ∨
      (toncenterBroadcastExitCode (response.responseBody.getD "")).isSome) :
    response.classified.rejectedByChain = true := by
  rw [← Bool.or_eq_true, ← Option.isSome_or] at code
  rw [Response.classified, classifyBroadcastDoorAnswer]
  dsimp only
  rw [code, Bool.or_true, Bool.true_or]

theorem rejectedByChain_of_mismatch {response : Response} (mismatch : walletErrorIsSeqnoMismatch
      (toncenterHttpErrorWithBody "TON RPC sendBoc" response) = true) :
    response.classified.rejectedByChain = true := by
  refine rejectedByChain_of_exitCode ((exitCode_of_mismatch mismatch).imp_right fun read => ?_)
  change (toncenterBroadcastExitCode (response.responseBody.getD _)).isSome = true at read
  cases body : response.responseBody with
  | some detail =>
    rw [body] at read
    exact read
  | none =>
    -- without a detail the code is looked for in the fixed text of the error
    rw [toncenterHttpErrorWithBody] at read
    dsimp only at read
    rw [body] at read
    change (toncenterBroadcastExitCode s!"TON RPC sendBoc HTTP {response.status}").isSome = true
      at read
    rw [plain_httpError] at read
    cases read

theorem certain_of_refusing {attempt : Attempt} (refusing : attempt.refusing = true) :
    attempt.uncertain = false := by
  cases attempt with
  | answered response =>
    rw [Attempt.refusing, Bool.and_eq_true, Bool.or_eq_true, Bool.or_eq_true] at refusing
    obtain ⟨notOk, why⟩ := refusing
    rw [Bool.not_eq_true'] at notOk
    rw [Attempt.uncertain, notOk, Bool.false_or, Bool.and_eq_false_iff, Bool.not_eq_false']
    have verdict : response.classified.verdict =
        broadcastVerdictOf response.status response.classified.rejectedByChain := rfl
    obtain (mismatch | rejected) | refused := why
    · exact .inr (rejectedByChain_of_mismatch mismatch)
    · have said := of_decide_eq_true rejected
      rw [verdict, broadcastVerdictOf] at said
      by_cases byChain : response.classified.rejectedByChain = true
      · exact .inr byChain
      · rw [if_neg byChain] at said
        split_ifs at said
    · have said := of_decide_eq_true refused
      rw [verdict, broadcastVerdictOf] at said
      split_ifs at said with _ _ _ below
      exact .inl (decide_eq_false below)
  | timedOut | failed => cases refusing
  | unsent => rfl

theorem certain_of_clear {attempt : Attempt} (clear : attempt.clear = true) :
    attempt.uncertain = false := by
  rw [Attempt.clear, Bool.and_eq_true, Bool.not_eq_true', Bool.not_eq_true'] at clear
  obtain ⟨known, notOk⟩ := clear
  cases attempt with
  | answered response =>
    rw [Attempt.isOk] at notOk
    rw [Attempt.unknown, Bool.and_eq_false_iff, Bool.not_eq_false'] at known
    rw [Attempt.uncertain, notOk, Bool.false_or, Bool.and_eq_false_iff, Bool.not_eq_false']
    exact known.imp_right fun carries => rejectedByChain_of_exitCode (.inl carries)
  | timedOut | failed => cases known
  | unsent => rfl

theorem certain_of_refused {visit : Visit} (refused : visit.refused = true) :
    ∀ attempt ∈ visit.attempts, attempt.uncertain = false := by
  rw [Visit.refused, Visit.ends, Bool.and_eq_true, Bool.and_eq_true, Option.any_eq_true,
    List.all_eq_true] at refused
  obtain ⟨⟨-, last, isLast, refusing⟩, clear⟩ := refused
  obtain ⟨earlier, made⟩ := List.getLast?_eq_some_iff.mp isLast
  rw [made, List.dropLast_concat] at clear
  rw [made, List.forall_mem_append, List.forall_mem_singleton]
  exact ⟨fun attempt mem => certain_of_clear (clear attempt mem), certain_of_refusing refusing⟩

theorem candidates_configured {transports : List Transport} {transport : Transport}
    (mem : transport ∈ orderedTonRpcTransportCandidates transports) :
    transport.sendBocEndpoint.isSome := by
  simp only [orderedTonRpcTransportCandidates, List.mem_append, List.mem_filter,
    Bool.and_eq_true] at mem
  obtain ((⟨⟨-, is, -⟩, -⟩ | ⟨⟨-, is, -⟩, -⟩) | ⟨⟨-, is, -⟩, -⟩) | ⟨⟨-, is, -⟩, -⟩ := mem
  all_goals exact is

theorem mem_iff_dropLast {log : List Visit} {last : Visit} (isLast : log.getLast? = some last)
    {visit : Visit} : visit ∈ log ↔ visit ∈ log.dropLast ∨ visit = last := by
  obtain ⟨before, same⟩ := List.getLast?_eq_some_iff.mp isLast
  rw [same, List.dropLast_concat, List.mem_append, List.mem_singleton]

theorem not_refused_of_delivered {visit : Visit} (delivered : visit.delivered = true) :
    visit.refused = false := by
  rw [Visit.delivered, Visit.ends, Bool.and_eq_true, Option.any_eq_true] at delivered
  obtain ⟨-, last, isLast, delivers⟩ := delivered
  have refusing : last.refusing = false := by
    cases last with
    | answered response =>
      rw [Attempt.delivers, Bool.and_eq_true, Bool.and_eq_true] at delivers
      rw [Attempt.refusing, delivers.1.1, Bool.not_true, Bool.false_and]
    | timedOut | failed | unsent => cases delivers
  rw [Visit.refused, Visit.ends, isLast, Option.any_some, refusing, Bool.and_false,
    Bool.false_and]

/-- A definite error hides an uncertain attempt exactly when the call forgot it. -/
theorem Ends.failed_iff {log : List Visit} {result : Except SendError Json}
    (ends : Ends log false result) :
    (∀ error, result = .error error → definitivelyRejected error = true →
      ∀ visit ∈ log, ∀ attempt ∈ visit.attempts, attempt.uncertain = false) ↔
      forgotten log = false := by
  rw [forgotten]
  cases isLast : log.getLast? with
  | none =>
    rw [List.getLast?_eq_none_iff] at isLast
    simp [isLast]
  | some last =>
    rw [Option.any_some]
    cases result with
    | ok json =>
      have delivered := ends.ok.mp ⟨json, rfl⟩
      rw [isLast, Option.any_some] at delivered
      simp [not_refused_of_delivered delivered]
    | error error =>
      have definite := ends.definite error rfl
      rw [isLast, Option.any_some, Bool.not_false, Bool.true_and] at definite
      rw [← definite]
      cases rejected : definitivelyRejected error with
      | false => simp [rejected]
      | true =>
        rw [rejected] at definite
        have refused : last.refused = true := (Bool.and_eq_true_iff.mp definite.symm).1
        rw [Bool.and_true, List.any_eq_false]
        constructor
        · intro certain visit mem uncertain
          obtain ⟨attempt, in_, yes⟩ := List.any_eq_true.mp uncertain
          rw [certain error rfl rejected visit (List.dropLast_subset log mem) attempt in_] at yes
          cases yes
        · rintro clear failed ⟨⟩ - visit mem attempt in_
          obtain before | rfl := (mem_iff_dropLast isLast).mp mem
          · exact Bool.eq_false_iff.mpr fun uncertain =>
              clear visit before (List.any_eq_true.mpr ⟨attempt, in_, uncertain⟩)
          · exact certain_of_refused refused attempt in_

/-- What a call with some transport to try comes to. -/
theorem Ends.reliable_iff {log : List Visit} {result : Except SendError Json}
    (ends : Ends log false result) :
    Reliable log result ↔ forgotten log = false ∧ lost log = false := by
  constructor
  · rintro ⟨failed, accepted⟩
    refine ⟨ends.failed_iff.mp failed, ?_⟩
    rw [accepted_iff] at accepted
    rw [lost, Bool.and_eq_false_imp, Bool.not_eq_false']
    exact fun taken => ends.ok.mp (accepted taken)
  · rintro ⟨notForgotten, notLost⟩
    refine ⟨ends.failed_iff.mpr notForgotten, fun accepted => ?_⟩
    rw [accepted_iff] at accepted
    rw [lost, accepted, Bool.true_and, Bool.not_eq_false'] at notLost
    exact ends.ok.mpr notLost

/-- The wallet's own door, and the same door without its key for emergencies. -/
def userToncenter : Transport where
  sendBocEndpoint := some "https://toncenter.com/api/v3/message"
  verifierOnly := false
  emergencyFallback := true
  dead := false
  rateLimitRetries := 1
  serverErrorRetries := 3

def keylessToncenter : Transport := { userToncenter with verifierOnly := true }

def plainAnswer (status : Nat) (text : String) : Attempt :=
  .answered ⟨status, some ⟨text, text⟩, .unreadable⟩

/-- The first post is cut by a server error that follows its delivery; every later one is a
message whose seqno the wallet has left behind. -/
def cutScript (first : Attempt) : Script where
  alternate := first
  posts n := if n = 0 then first else plainAnswer 406 "exit code: 133"
  bound := none

def cutCall : List Visit × Except SendError Json :=
  sendBoc [userToncenter, keylessToncenter] ⟨[], 0⟩ 90000 "" (-1) fun place =>
    cutScript (if place = 0 then plainAnswer 503 "upstream error"
      else plainAnswer 406 "exit code: 133")

end Platho.Rpc
