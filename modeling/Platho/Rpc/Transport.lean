import Mathlib.Tactic.Common
import Mathlib.Algebra.Ring.Nat
import Mathlib.Data.List.Infix

/-!
# Sending a message through the transports

A signed message goes out through the transports of the wallet, one after the other until one
takes it. A transport posts it to its own door, for a large message after one try at an alternate
door, and it posts again when the door is busy or answers with a server error. Every layer keeps
its own note of whether an attempt without a clear answer may have delivered the message.

The network is a script: for each transport, how its attempts end, and after how many of them the
bound on the whole operation fires, if it does.
-/

namespace Platho.Rpc

/-! ### The texts of errors -/

/-- `/a|b|…/i.test(text)` for plain words. -/
def mentions (words : List String) (text : String) : Bool :=
  let lower := text.toList.map Char.toLower
  words.any fun word => decide (word.toList <:+: lower)

/-- The rest of a text after a word, in any case. -/
def afterWord : List Char → List Char → Option (List Char)
  | [], text => some text
  | _ :: _, [] => none
  | w :: word, c :: text => if c.toLower = w then afterWord word text else none

/-- The blank or low line that may stand between the two words. -/
def skipJoint : List Char → List Char
  | ' ' :: text => text
  | '_' :: text => text
  | text => text

/-- At most so many characters that are neither a digit nor a minus. -/
def skipSeparators : Nat → List Char → List Char
  | 0, text => text
  | _, [] => []
  | n + 1, c :: text => if c.isDigit || c = '-' then c :: text else skipSeparators n text

/-- From here on a number is no longer finite. -/
def numberLimit : Nat := 2 ^ 1024 - 2 ^ 970

def digitsValue (digits : List Char) : Option Nat :=
  let value := digits.foldl (fun n c => 10 * n + (c.toNat - '0'.toNat)) 0
  if digits = [] ∨ numberLimit ≤ value then none else some value

def readCode : List Char → Option Int
  | '-' :: text => (digitsValue (text.takeWhile Char.isDigit)).map fun n => -(n : Int)
  | text => (digitsValue (text.takeWhile Char.isDigit)).map fun n => (n : Int)

/-- The pattern `exit[ _]?code[^0-9-]{0,8}(-?\d+)` at the start of a text. -/
def exitCodeHere (text : List Char) : Option Int := do
  let joint ← afterWord "exit".toList text
  let separators ← afterWord "code".toList (skipJoint joint)
  readCode (skipSeparators 8 separators)

def exitCodeIn : List Char → Option Int
  | [] => none
  | c :: text => (exitCodeHere (c :: text)).or (exitCodeIn text)

def toncenterBroadcastExitCode (text : String) : Option Int := exitCodeIn text.toList

/-- A word is not in a text that lacks one of its letters. -/
theorem mentions_eq_false (c : Char) {words : List String} {text : String}
    (needs : ∀ word ∈ words, c ∈ word.toList) (lacks : c ∉ text.toList.map Char.toLower) :
    mentions words text = false := by
  rw [mentions, List.any_eq_false]
  intro word mem found
  exact lacks ((of_decide_eq_true found).subset (needs word mem))

/-- A text without an `x` speaks of no exit code. -/
theorem toncenterBroadcastExitCode_eq_none {text : String}
    (lacks : 'x' ∉ text.toList.map Char.toLower) : toncenterBroadcastExitCode text = none := by
  rw [toncenterBroadcastExitCode]
  generalize text.toList = chars at lacks
  induction chars with
  | nil => rfl
  | cons c chars ih =>
    rw [List.map_cons, List.mem_cons, not_or] at lacks
    have second : afterWord ['x', 'i', 't'] chars = none := by
      cases chars with
      | nil => rfl
      | cons d chars =>
        rw [List.map_cons, List.mem_cons, not_or] at lacks
        exact if_neg fun same => lacks.2.1 same.symm
    have word : afterWord "exit".toList (c :: chars) = none := by
      change (if c.toLower = 'e' then afterWord ['x', 'i', 't'] chars else none) = none
      rw [second, ite_self]
    have here : exitCodeHere (c :: chars) = none := by
      rw [exitCodeHere, word]
      rfl
    rw [exitCodeIn, here, ih lacks.2]
    rfl

theorem toLower_of_isDigit {c : Char} (digit : c.isDigit) : c.toLower = c := by
  simp only [Char.isDigit, Bool.and_eq_true, decide_eq_true_eq] at digit
  delta Char.toLower
  rw [dif_neg]
  rintro ⟨low, -⟩
  have bad : 'A'.val ≤ '9'.val := UInt32.le_trans low digit.2
  exact absurd bad (by decide)

theorem isDigit_of_mem_lower {n : Nat} {c : Char}
    (mem : c ∈ (toString n).toList.map Char.toLower) : c.isDigit := by
  obtain ⟨d, in_, rfl⟩ := List.mem_map.mp mem
  have digit : d.isDigit :=
    @Nat.isDigit_of_mem_toDigits 10 n d (by decide) (by decide) (by simpa using in_)
  rw [toLower_of_isDigit digit]
  exact digit

/-- A text around a number has the letters of its two sides. -/
theorem mem_lower_around {c : Char} {before after : String} {n : Nat} (letter : c.isDigit = false) :
    c ∈ (before ++ toString n ++ after).toList.map Char.toLower ↔
      c ∈ before.toList.map Char.toLower ∨ c ∈ after.toList.map Char.toLower := by
  rw [String.toList_append, String.toList_append, List.map_append, List.map_append,
    List.mem_append, List.mem_append]
  constructor
  · rintro ((left | number) | right)
    · exact .inl left
    · rw [isDigit_of_mem_lower number] at letter
      cases letter
    · exact .inr right
  · rintro (left | right)
    · exact .inl (.inl left)
    · exact .inr right

/-! ### Answers -/

/-- The text of an answer, and what `toncenterHttpErrorDetail` reads out of it. -/
structure Body where
  text : String
  detail : String

/-- A field of an answer: missing or null, `false`, or anything else. -/
inductive Field
  | absent
  | no
  | other
  deriving DecidableEq

/-- What `response.json()` gives. -/
inductive Json
  | unreadable
  | null
  | value (ok resultOk : Field)
  deriving DecidableEq

structure Response where
  status : Nat
  body : Option Body
  json : Json

inductive Verdict
  | accepted
  | rejected
  | broken
  | refused
  | unknown
  deriving DecidableEq

def broadcastVerdictOf (status : Nat) (rejectedByChain : Bool) : Verdict :=
  if status = 0 then .unknown
  else if 200 ≤ status ∧ status < 300 then .accepted
  else if rejectedByChain then .rejected
  else if 500 ≤ status then .broken
  else .refused

structure DoorAnswer where
  chainExitCode : Option Int
  rejectedByChain : Bool
  verdict : Verdict

def classifyBroadcastDoorAnswer (status : Nat) (body : String) (exitCode : Option Int) :
    DoorAnswer :=
  let chainExitCode := exitCode.or (toncenterBroadcastExitCode body)
  let rejectedByChain := decide (status = 406) || chainExitCode.isSome ||
    mentions ["cannot apply external message"] body
  { chainExitCode := chainExitCode
    rejectedByChain := rejectedByChain
    verdict := broadcastVerdictOf status rejectedByChain }

namespace Response

variable (response : Response)

def ok : Bool := decide (200 ≤ response.status ∧ response.status < 300)

def chainExitCode : Option Int :=
  response.body.bind fun body => toncenterBroadcastExitCode body.text

/-- The detail an error keeps of the answer, unless it is empty. -/
def responseBody : Option String :=
  response.body.bind fun body => if body.detail = "" then none else some body.detail

def carriesChainRejection : Bool := response.chainExitCode.isSome

def classified : DoorAnswer :=
  classifyBroadcastDoorAnswer response.status (response.responseBody.getD "")
    response.chainExitCode

/-- `json.ok ?? json.result?.ok ?? true` is `false`. -/
def refuses : Bool :=
  match response.json with
  | .value .no _ | .value .absent .no => true
  | _ => false

end Response

/-! ### Errors -/

inductive ErrorCode
  | timeout
  | queueTimeout
  | rateLimited
  | httpError
  deriving DecidableEq

structure SendError where
  name : String
  message : String
  status : Nat
  code : Option ErrorCode
  responseBody : Option String
  chainExitCode : Option Int
  broadcastVerdict : Option Verdict
  tonRpcPriorDeliveryAmbiguous : Bool

def transportError (message : String) : SendError where
  name := "TonRpcTransportError"
  message := message
  status := 0
  code := none
  responseBody := none
  chainExitCode := none
  broadcastVerdict := none
  tonRpcPriorDeliveryAmbiguous := false

def tonRpcTimeoutError (timeoutMs : Nat) : SendError :=
  { transportError s!"TON RPC request timed out after {timeoutMs} ms" with
    code := some .timeout }

def tonRpcQueueTimeoutError (timeoutMs : Nat) : SendError :=
  { transportError s!"TON RPC queue wait timed out after {timeoutMs} ms" with
    code := some .queueTimeout }

def toncenterBackoffError : SendError :=
  { transportError "TON RPC rate limit backoff active" with
    status := 429
    code := some .rateLimited }

/-- The error of an answer that is not `ok`, with what its body says. -/
def toncenterHttpErrorWithBody (label : String) (response : Response) : SendError :=
  let status := response.status
  { transportError s!"{label} HTTP {status}" with
    message := match response.responseBody with
      | none => s!"{label} HTTP {status}"
      | some detail => s!"{label} HTTP {status}: {detail}"
    status := status
    code := some (if status = 429 then .rateLimited else .httpError)
    responseBody := response.responseBody
    chainExitCode := response.chainExitCode }

def unavailableTexts : List String :=
  ["sendboc endpoint is not configured", "sendboc transport is not configured"]

def isSendBocTransportUnavailableError (error : SendError) : Bool :=
  mentions unavailableTexts error.message

def isRetryableTonRpcError (error : SendError) : Bool :=
  decide (error.status = 429) || decide (500 ≤ error.status) ||
    decide (error.code = some .rateLimited) || decide (error.code = some .timeout) ||
    decide (error.name = "TypeError") ||
    mentions ["rate limit", "timeout", "network", "failed to fetch"] error.message

def isTonRpcHardTransportError (error : SendError) : Bool :=
  if error.status = 429 ∨ error.code = some .rateLimited ∨ error.code = some .queueTimeout then false
  else decide (error.code = some .timeout) || decide (400 ≤ error.status) ||
    decide (error.name = "TypeError") ||
    mentions ["failed to fetch", "network", "dns", "connection", "load failed"] error.message

/-- A text that speaks neither of an exit code nor of a door that is not configured. -/
structure Plain (message : String) : Prop where
  noExitCode : toncenterBroadcastExitCode message = none
  configured : isSendBocTransportUnavailableError (transportError message) = false

theorem Plain.of_lacks {message : String} (c : Char)
    (needs : ∀ word ∈ unavailableTexts, c ∈ word.toList)
    (lacks : c ∉ message.toList.map Char.toLower) (x : 'x' ∉ message.toList.map Char.toLower) :
    Plain message where
  noExitCode := toncenterBroadcastExitCode_eq_none x
  configured := mentions_eq_false c needs lacks

theorem plain_timedOut (timeoutMs : Nat) : Plain (tonRpcTimeoutError timeoutMs).message := by
  change Plain ("TON RPC request timed out after " ++ toString timeoutMs ++ " ms")
  apply Plain.of_lacks 'g' (by decide)
  all_goals
    rw [mem_lower_around (by decide)]
    decide

theorem plain_queueTimedOut (timeoutMs : Nat) :
    Plain (tonRpcQueueTimeoutError timeoutMs).message := by
  change Plain ("TON RPC queue wait timed out after " ++ toString timeoutMs ++ " ms")
  apply Plain.of_lacks 'g' (by decide)
  all_goals
    rw [mem_lower_around (by decide)]
    decide

/-! ### One request -/

/-- A failure of the platform's `fetch`. Its text is the platform's own. -/
structure Failure where
  name : String
  message : String
  plain : Plain message

/-- How a task leaves the queue without a request: its wait was over, or the door is resting. -/
inductive Refusal
  | queueTimeout (timeoutMs : Nat)
  | backoff

/-- How one HTTP attempt ends. -/
inductive Attempt
  | answered (response : Response)
  | timedOut (timeoutMs : Nat)
  | failed (failure : Failure)
  | unsent (refusal : Refusal)

def Failure.error (failure : Failure) : SendError :=
  { transportError failure.message with name := failure.name }

def Refusal.error : Refusal → SendError
  | .queueTimeout timeoutMs => tonRpcQueueTimeoutError timeoutMs
  | .backoff => toncenterBackoffError

/-- `scheduleToncenterRequest`: the answer, or the error of an attempt that has none. -/
def Attempt.outcome : Attempt → Except SendError Response
  | answered response => .ok response
  | timedOut timeoutMs => .error (tonRpcTimeoutError timeoutMs)
  | failed failure => .error failure.error
  | unsent refusal => .error refusal.error

/-- An answer with the mark that an earlier attempt is unknown. -/
structure Received where
  response : Response
  plathoPriorDeliveryAmbiguous : Bool

/-- What the attempts of an operation come to, with the attempts that were made. -/
structure Traced (α : Type) where
  attempts : List Attempt
  result : Except SendError α

def Traced.after {α : Type} (earlier : List Attempt) (traced : Traced α) : Traced α :=
  { traced with attempts := earlier ++ traced.attempts }

/-- The error of a request some attempt of which is unknown. -/
def SendError.marked (error : SendError) (unknown : Bool) : SendError :=
  { error with
    tonRpcPriorDeliveryAmbiguous := error.tonRpcPriorDeliveryAmbiguous || unknown }

/-- The attempt after `rateLimited` busy answers and `serverErrors` server errors. -/
def scheduleToncenterHttpRequest (rateLimitRetries serverErrorRetries : Nat)
    (attempts : Nat → Attempt) (rateLimited serverErrors : Nat) (earlierAttemptUnknown : Bool) :
    Traced Received :=
  let attempt := attempts (rateLimited + serverErrors)
  match attempt.outcome with
  | .error error => ⟨[attempt], .error (error.marked earlierAttemptUnknown)⟩
  | .ok response =>
    if response.status = 429 then
      if rateLimitRetries ≤ rateLimited then
        ⟨[attempt], .ok ⟨response, earlierAttemptUnknown⟩⟩
      else
        .after [attempt] (scheduleToncenterHttpRequest rateLimitRetries serverErrorRetries
          attempts (rateLimited + 1) serverErrors earlierAttemptUnknown)
    else if 500 ≤ response.status ∧ serverErrors < serverErrorRetries then
      if response.carriesChainRejection then
        ⟨[attempt], .ok ⟨response, earlierAttemptUnknown⟩⟩
      else
        .after [attempt] (scheduleToncenterHttpRequest rateLimitRetries serverErrorRetries
          attempts rateLimited (serverErrors + 1) true)
    else ⟨[attempt], .ok ⟨response, !response.ok && earlierAttemptUnknown⟩⟩
termination_by (rateLimitRetries - rateLimited) + (serverErrorRetries - serverErrors)

/-! ### One transport -/

abbrev Endpoint := String

/-- The doors of the configuration that are not toncenter's own, and the size from which a
message is first tried at one of them. -/
structure Doors where
  alternates : List Endpoint
  firstBroadcastAlternateDoorAboveBytes : Nat

/-- The bytes of a message from the length of its base64 text. -/
def approximateBocBytes (boc : String) : Nat := (boc.length * 3 + 3) / 4

/-- The next alternate door for a large message, and the cursor after it. -/
def firstBroadcastDoorForBytes (doors : Doors) (bocBytes : Nat) (cursor : Int) :
    Option Endpoint × Int :=
  if doors.firstBroadcastAlternateDoorAboveBytes = 0 then (none, cursor)
  else if bocBytes ≤ doors.firstBroadcastAlternateDoorAboveBytes then (none, cursor)
  else if doors.alternates = [] then (none, cursor)
  else
    let next := (cursor + 1) % doors.alternates.length
    (doors.alternates[next.toNat]?, next)

/-- A transport made by `createTonCenterV3Transport`, with what the fallback asks about it. -/
structure Transport where
  sendBocEndpoint : Option Endpoint
  verifierOnly : Bool
  emergencyFallback : Bool
  dead : Bool
  rateLimitRetries : Nat
  serverErrorRetries : Nat

/-- How the attempts of one transport end: the one at the alternate door, the ones at its own
door, and after how many of them the bound of the operation fires. -/
structure Script where
  alternate : Attempt
  posts : Nat → Attempt
  bound : Option Nat

/-- The try at the alternate door: its answer when that is `ok`, and whether it may have
delivered the message. -/
def viaAlternate (attempt : Attempt) : Option Response × Bool :=
  let viaAlternate := scheduleToncenterHttpRequest 0 0 (fun _ => attempt) 0 0 false
  match viaAlternate.result with
  | .ok received =>
    if received.response.ok then (some received.response, false)
    else (none, decide (500 ≤ received.response.status) &&
      !received.response.carriesChainRejection)
  | .error error => (none, !decide (400 ≤ error.status) && decide (error.code ≠ some .queueTimeout))

/-- The error of an answer that is not `ok`, with the verdict of the door. -/
def toncenterSendBocError (response : Response) (priorDeliveryAmbiguous : Bool) : SendError :=
  { toncenterHttpErrorWithBody "TON RPC sendBoc" response with
    tonRpcPriorDeliveryAmbiguous := priorDeliveryAmbiguous
    broadcastVerdict := some response.classified.verdict }

/-- The answer of the door, once one came. -/
def settleAnswer (received : Received) (priorDeliveryAmbiguous : Bool) : Except SendError Json :=
  let response := received.response
  if response.ok then
    match response.json with
    | .null => .error { transportError "Cannot read properties of null (reading 'ok')" with
        name := "TypeError" }
    | json =>
      if response.refuses then .error (transportError "TON RPC sendBoc rejected message")
      else .ok json
  else
    .error (toncenterSendBocError response
      (priorDeliveryAmbiguous || received.plathoPriorDeliveryAmbiguous))

/-- What a request at the own door of a transport comes to. -/
def settlePosted (posted : Except SendError Received) (priorDeliveryAmbiguous : Bool) :
    Except SendError Json :=
  match posted with
  | .error error => .error (error.marked priorDeliveryAmbiguous)
  | .ok received => settleAnswer received priorDeliveryAmbiguous

/-- The request at the own door, after an alternate door that may have delivered the message. -/
def Transport.postOwn (transport : Transport) (posts : Nat → Attempt)
    (priorDeliveryAmbiguous : Bool) : Traced Json :=
  let posted := scheduleToncenterHttpRequest transport.rateLimitRetries
    transport.serverErrorRetries posts 0 0 false
  ⟨posted.attempts, settlePosted posted.result priorDeliveryAmbiguous⟩

/-- `sendBoc` of one transport, with the alternate door chosen for it. -/
def Transport.sendBoc (transport : Transport) (alternate : Option Endpoint) (script : Script) :
    Traced Json :=
  match transport.sendBocEndpoint with
  | none => ⟨[], .error (transportError "TON sendBoc endpoint is not configured")⟩
  | some endpointForSend =>
    if alternate.any (· ≠ endpointForSend) then
      match viaAlternate script.alternate with
      | (some response, priorDeliveryAmbiguous) =>
        ⟨[script.alternate], settleAnswer ⟨response, false⟩ priorDeliveryAmbiguous⟩
      | (none, priorDeliveryAmbiguous) =>
        .after [script.alternate] (transport.postOwn script.posts priorDeliveryAmbiguous)
    else transport.postOwn script.posts false

/-! ### All transports -/

def isEmergencyFallbackTransport (transport : Transport) : Bool :=
  transport.verifierOnly && transport.emergencyFallback

/-- Those that can send, the living before the dead and the ordinary before the emergency ones. -/
def orderedTonRpcTransportCandidates (transports : List Transport) : List Transport :=
  let eligible := transports.filter fun transport =>
    transport.sendBocEndpoint.isSome &&
      (!transport.verifierOnly || isEmergencyFallbackTransport transport)
  let among (dead emergency : Bool) := eligible.filter fun transport =>
    transport.dead == dead && isEmergencyFallbackTransport transport == emergency
  among false false ++ among false true ++ among true false ++ among true true

/-- The call to one transport: whether the bound of the operation fired, and its attempts. -/
structure Visit where
  transport : Transport
  bounded : Bool
  attempts : List Attempt

/-- `withTonRpcOperationTimeout`: past the bound the transport is no longer listened to. -/
def withTonRpcOperationTimeout (traced : Traced Json) (timeoutMs : Nat) (bound : Option Nat) :
    Bool × Traced Json :=
  match bound with
  | some answered =>
    if timeoutMs = 0 then (false, traced)
    else (true, ⟨traced.attempts.take answered, .error (tonRpcTimeoutError timeoutMs)⟩)
  | none => (false, traced)

/-- The loop of `callSend`, and the transports it called. `scripts` are those of the candidates
still to come. -/
def callSend (doors : Doors) (bocBytes operationTimeoutMs : Nat) :
    List (Transport × Script) → Int → Bool → Option SendError → List Visit × Except SendError Json
  | [], _, _, lastError =>
    ([], .error (lastError.getD (transportError "TON RPC sendBoc transport is not configured")))
  | (transport, script) :: candidates, cursor, priorDeliveryAmbiguous, _ =>
    let (alternate, cursor) := firstBroadcastDoorForBytes doors bocBytes cursor
    let (bounded, traced) := withTonRpcOperationTimeout (transport.sendBoc alternate script)
      operationTimeoutMs script.bound
    let visit := ⟨transport, bounded, traced.attempts⟩
    match traced.result with
    | .ok json => ([visit], .ok json)
    | .error error =>
      if isSendBocTransportUnavailableError error then
        let (visits, result) :=
          callSend doors bocBytes operationTimeoutMs candidates cursor priorDeliveryAmbiguous error
        (visit :: visits, result)
      else
        let error := error.marked priorDeliveryAmbiguous
        let ambiguous := priorDeliveryAmbiguous ||
          (decide (error.status < 400) && decide (error.code ≠ some .queueTimeout))
        if !isEmergencyFallbackTransport transport && decide (500 ≤ error.status) then
          ([visit], .error error)
        else if !isRetryableTonRpcError error && !isTonRpcHardTransportError error then
          ([visit], .error error)
        else
          let (visits, result) :=
            callSend doors bocBytes operationTimeoutMs candidates cursor ambiguous error
          (visit :: visits, result)

/-- `sendBoc` of the transport that `createFallbackTonRpcTransport` makes. The script at a place is
that of the candidate called at this place. -/
def sendBoc (transports : List Transport) (doors : Doors) (operationTimeoutMs : Nat) (boc : String)
    (cursor : Int) (script : Nat → Script) : List Visit × Except SendError Json :=
  let candidates := orderedTonRpcTransportCandidates transports
  callSend doors (approximateBocBytes boc) operationTimeoutMs
    (candidates.zipIdx.map fun (transport, i) => (transport, script i)) cursor false none

/-! ### The wallet's reading of an error -/

def PLATHO_WALLET_SEQNO_MISMATCH_EXIT_CODE : Int := 133

def walletErrorIsSeqnoMismatch (error : SendError) : Bool :=
  match error.chainExitCode with
  | some direct => decide (direct = PLATHO_WALLET_SEQNO_MISMATCH_EXIT_CODE)
  | none => decide (toncenterBroadcastExitCode (error.responseBody.getD error.message) =
      some PLATHO_WALLET_SEQNO_MISMATCH_EXIT_CODE)

/-- The wallet takes the message for one that never left. -/
def definitivelyRejected (error : SendError) : Bool :=
  let neverLeft := !error.tonRpcPriorDeliveryAmbiguous &&
    (decide (error.code = some .queueTimeout) ||
      decide (error.broadcastVerdict = some .rejected) ||
      decide (error.broadcastVerdict = some .refused))
  (walletErrorIsSeqnoMismatch error && !error.tonRpcPriorDeliveryAmbiguous) || neverLeft

end Platho.Rpc
