import Mathlib.Algebra.Order.Ring.Rat
import Mathlib.Tactic.NormNum
import Mathlib.Tactic.Positivity
import GenericMlCache.GatewayRelay
import GenericMlCache.HttpRedirects

/-!
# Requests and their retries

The request helper of the direct API adapters: one request after another, with a
pause before each retry, until a response is decoded or a failure is final. A float
is the rational number it stands for: the delays are finite, and the backoff doubles
exactly, or goes beyond every delay that the policy admits.
-/

namespace GenericMlCache.RequestRetries

open PythonText ExecutionModel JsonText GatewayRelay HttpRedirects

/-- `RetryPolicy`. -/
structure RetryPolicy where
  /-- How many attempts a call has. -/
  maxAttempts : ℤ := 3
  /-- The ceiling of the first delay, in seconds. -/
  baseDelay : ℚ := 1/2
  /-- The longest delay. -/
  maxDelay : ℚ := 8

/-- The smallest integer that `float` refuses. -/
def floatLimit : ℤ := 2^1024-2^970

/-- The standard library's conversions and its random numbers. -/
structure DelayLibrary where
  /-- `int(text)`: none where it raises ValueError. -/
  int : PyStr → Option ℤ
  /-- `float(n)`: none where it raises OverflowError. -/
  float : ℤ → Option ℚ
  /-- `random.uniform(0.0, ceiling)` after an attempt. -/
  uniform : ℕ → ℚ → ℚ
  /-- Only a number past the largest float overflows. -/
  float_none : ∀ n,float n=none ↔ floatLimit ≤ |n|
  /-- A float has the sign of its number. -/
  float_sign : ∀ n q,float n=some q → (0 ≤ q ↔ 0 ≤ n)
  /-- A random number lies between zero and its ceiling. -/
  uniform_mem : ∀ attempt ceiling,0 ≤ ceiling → 0 ≤ uniform attempt ceiling ∧ uniform attempt ceiling ≤ ceiling

/-- What comes of reading a body to its end. -/
inductive BodyRead where
  | whole (body : Bytes)
  /-- A TimeoutError, with its message. -/
  | timedOut (message : PyStr)
  /-- Any other exception. -/
  | broken (e : PyExc)

/-- A response of any status, as far as the helper and the redirects look at it. -/
structure Reply where
  /-- The status. -/
  code : ℕ
  /-- The `Location` header or, where there is none, the `URI` header. -/
  location : Option PyStr
  /-- The `Retry-After` header. -/
  retryAfter : Option PyStr
  /-- The body, when it is read. -/
  body : BodyRead

/-- What becomes of a request that is sent. -/
inductive Outcome where
  | reply (reply : Reply)
  /-- A network failure or a timeout that surfaces as URLError or TimeoutError. -/
  | networkFailure (message : PyStr)
  /-- A network failure that surfaces as something else. -/
  | otherFailure (e : PyExc)

/-- What comes of `urlopen` and of reading what it gives, behind one request. -/
inductive Opened where
  /-- A response that `urlopen` gives back, read to its end. -/
  | response (statusCode : ℕ) (body : Bytes)
  /-- An HTTPError, with its `Retry-After` header and what reading its body comes to. -/
  | httpError (code : ℕ) (retryAfter : Option PyStr) (body : Except PyExc Bytes)
  /-- URLError or TimeoutError. -/
  | failed (message : PyStr)
  | raised (e : PyExc)
  /-- `urlopen` sends another request: the response was a redirect. -/
  | moved (url : PyStr)

/-- What the helper raises. -/
inductive RequestError where
  | providerApiError (statusCode : ℕ) (body : PyStr)
  | providerProtocolError (statusCode : ℕ) (body : PyStr)
  | other (e : PyExc)

/-- What a call has done: how many requests it has sent, for how long it has slept,
and what it came to. None while its last request is not answered. -/
structure Run where
  /-- The requests sent. -/
  sent : ℕ
  /-- The seconds slept before each further attempt. -/
  sleeps : List ℚ
  /-- What it came to; none while its last request is not answered. -/
  result : Option (Except RequestError (List (PyStr × Json)))

/-- `_body_snippet`. -/
def bodySnippet (text : PyStr) : PyStr := if text.length ≤ 500 then text else text.take 500++[0x2026]

/-- `_is_retryable_status`. -/
def isRetryableStatus (status : ℕ) : Bool := status=429 || (500 ≤ status && status ≤ 599)

/-- The OverflowError of an integer beyond the range of floats. -/
def tooLarge : PyExc := .other true (pyStr "int too large to convert to float")

/-- `exc.read()` of an HTTPError. No clause catches what it raises. -/
def BodyRead.read : BodyRead → Except PyExc Bytes
  | .whole body => .ok body
  | .timedOut message => .error (.other true message)
  | .broken e => .error e

/-- What comes of a request that `urlopen` sent, with the URLs it was sent on to: a 2xx is
returned, a redirect may be followed, and anything else is an HTTPError. -/
def opened (target : PyStr → PyStr → Target PyStr PyStr) (asked : Asked PyStr) (visited : List PyStr) :
    Outcome → Opened × List PyStr
  | .networkFailure message => (.failed message,visited)
  | .otherFailure e => (.raised e,visited)
  | .reply reply =>
    if 200 ≤ reply.code ∧ reply.code < 300 then
      match reply.body with
      | .whole body => (.response reply.code body,visited)
      | .timedOut message => (.failed message,visited)
      | .broken e => (.raised e,visited)
    else
      match redirection target asked visited reply.code reply.location with
      | .kept => (.httpError reply.code reply.retryAfter reply.body.read,visited)
      | .invalid message => (.raised (.other true message),visited)
      | .followed url =>
        -- the URL is counted before the body is read, and the request keeps the count
        match reply.body with
        | .whole _ => (.moved url,url::visited)
        | .timedOut message => (.failed message,url::visited)
        | .broken e => (.raised e,url::visited)

section Helper
variable (lib : JsonLibrary) (delays : DelayLibrary) (sleep : ℚ → Except PyExc Unit)
  (target : PyStr → PyStr → Target PyStr PyStr) (policy : RetryPolicy) (request : Asked PyStr)

/-- `_decode_json_object`. -/
def decodeJsonObject (statusCode : ℕ) (raw : Bytes) : Except RequestError (List (PyStr × Json)) :=
  let protocolError := .error (.providerProtocolError statusCode (bodySnippet (decodeReplace lib raw)))
  match decodeUtf8 raw with
  | none => protocolError
  | some text =>
    match lib.loads text with
    | .ok (.obj decoded) => .ok decoded
    | .ok _ | .error .jsonDecodeError | .error .unicodeDecodeError => protocolError
    | .error (.valueError message) | .error (.recursionError message) => .error (.other (.other true message))

/-- `_retry_after_seconds`. -/
def retryAfterSeconds (header : Option PyStr) : Except PyExc (Option ℚ) :=
  match header.bind delays.int with
  | none => .ok none
  | some n =>
    match delays.float n with
    | some seconds => .ok (some seconds)
    | none => .error tooLarge

/-- `_delay`. -/
def delay (attempt : ℕ) (retryAfter : Option ℚ) : Except PyExc ℚ :=
  match retryAfter with
  | some seconds => .ok (min seconds policy.maxDelay)
  | none =>
    -- the power is converted to a float before it is multiplied
    if attempt-1 < 1024 then
      .ok (delays.uniform attempt (min policy.maxDelay (policy.baseDelay*2^(attempt-1))))
    else .error tooLarge

/-- `sleep(_delay(…))` and what is done after it. -/
def pause (attempt : ℕ) (retryAfter : Except PyExc (Option ℚ)) (later : Run) : Run :=
  match retryAfter.bind (delay delays policy attempt) with
  | .error e => ⟨1,[],some (.error (.other e))⟩
  | .ok seconds =>
    match sleep seconds with
    | .error e => ⟨1,[seconds],some (.error (.other e))⟩
    | .ok _ => ⟨later.sent+1,seconds::later.sleeps,later.result⟩

/-- The loop of `request_json`, at an attempt and a request that `urlopen` sends. -/
def requestLoop : ℕ → Asked PyStr → List PyStr → List Outcome → Run
  | _,_,_,[] => ⟨1,[],none⟩
  | attempt,asked,visited,outcome::rest =>
    match opened target asked visited outcome with
    | (.response statusCode body,_) => ⟨1,[],some (decodeJsonObject lib statusCode body)⟩
    | (.httpError _ _ (.error e),_) | (.raised e,_) => ⟨1,[],some (.error (.other e))⟩
    | (.httpError code retryAfter (.ok body),visited') =>
      if isRetryableStatus code=true ∧ attempt < policy.maxAttempts then
        pause delays sleep policy attempt (retryAfterSeconds delays retryAfter)
          (requestLoop (attempt+1) request visited' rest)
      else ⟨1,[],some (.error (.providerApiError code (bodySnippet (decodeReplace lib body))))⟩
    | (.failed message,visited') =>
      if attempt < policy.maxAttempts then
        pause delays sleep policy attempt (.ok none) (requestLoop (attempt+1) request visited' rest)
      else ⟨1,[],some (.error (.providerApiError 0 message))⟩
    | (.moved url,visited') =>
      let later := requestLoop attempt ⟨.get,url⟩ visited' rest
      ⟨later.sent+1,later.sleeps,later.result⟩

/-- `request_json`, over the outcomes of the requests that are sent for it. -/
def requestJson (outcomes : List Outcome) : Run :=
  requestLoop lib delays sleep target policy request 1 request [] outcomes

end Helper

/-- A body that is not read in time. -/
def BodyRead.isLate : BodyRead → Bool
  | .timedOut _ => true
  | .whole _ | .broken _ => false

/-- After which another request may be sent: a 429, a 5xx or a failure of the network. -/
def Outcome.retryable : Outcome → Bool
  | .reply r => isRetryableStatus r.code || r.body.isLate
  | .networkFailure _ | .otherFailure _ => true

/-- The ends that a call may come to: the decoded object of the last response, or one of
the two provider errors. -/
def Ends (lib : JsonLibrary) (outcomes : List Outcome) (sent : ℕ) : Except RequestError (List (PyStr × Json)) → Prop
  | .ok decoded => ∃ last reply body text,sent=last+1 ∧ outcomes[last]?=some (.reply reply) ∧ reply.body=.whole body ∧
      decodeUtf8 body=some text ∧ lib.loads text=.ok (.obj decoded)
  | .error (.providerApiError _ _) | .error (.providerProtocolError _ _) => True
  | .error (.other _) => False

/-- What is asked of a run that has as many attempts left. -/
structure Honest (lib : JsonLibrary) (policy : RetryPolicy) (attempts : ℤ) (outcomes : List Outcome) (run : Run) :
    Prop where
  /-- It sends no more requests than it has attempts. -/
  bounded : run.sent ≤ max 1 attempts
  /-- It sends another only after a retryable outcome. -/
  retried : ∀ i,i+1 < run.sent → ∃ outcome,outcomes[i]?=some outcome ∧ outcome.retryable=true
  /-- Each delay is within the policy. -/
  delays : ∀ seconds ∈ run.sleeps,0 ≤ seconds ∧ seconds ≤ policy.maxDelay
  /-- It ends with the outcome of its last request. -/
  ends : ∀ result,run.result=some result → Ends lib outcomes run.sent result
  /-- It comes to an end if its requests are answered. -/
  answered : max 1 attempts ≤ outcomes.length → run.result≠none

section Conditions
variable (lib : JsonLibrary) (delays : DelayLibrary) (target : PyStr → PyStr → Target PyStr PyStr)
  (policy : RetryPolicy) (request : Asked PyStr)

/-- A body on which `json.loads` raises what the helper does not catch. -/
def BodyLeaks (body : Bytes) : Prop :=
  ∃ text message,decodeUtf8 body=some text ∧
    (lib.loads text=.error (.valueError message) ∨ lib.loads text=.error (.recursionError message))

/-- A delay that can be computed: a `Retry-After` within range, or a power of two that
is a float. -/
def Payable (attempt : ℕ) (retryAfter : Option PyStr) : Prop :=
  match retryAfter.bind delays.int with
  | some n => 0 ≤ n ∧ n < floatLimit
  | none => attempt ≤ 1024

/-- Whether the helper copes at an attempt with what came of its request. -/
def Handled (attempt : ℕ) : Opened → Prop
  | .response _ body => ¬BodyLeaks lib body
  | .httpError code retryAfter (.ok _) =>
    isRetryableStatus code=true → attempt < policy.maxAttempts → Payable delays attempt retryAfter
  | .failed _ => attempt < policy.maxAttempts → attempt ≤ 1024
  | .httpError _ _ (.error _) | .raised _ | .moved _ => False

/-- What the helper retries. -/
def Opened.retryable : Opened → Bool
  | .httpError code _ (.ok _) => isRetryableStatus code
  | .failed _ => true
  | .response _ _ | .httpError _ _ (.error _) | .raised _ | .moved _ => false

/-- Whether it copes with every outcome that it gets to. -/
def AllHandled : ℕ → List PyStr → List Outcome → Prop
  | _,_,[] => True
  | attempt,visited,outcome::rest =>
    Handled lib delays policy attempt (opened target request visited outcome).1 ∧
      ((opened target request visited outcome).1.retryable=true → attempt < policy.maxAttempts →
        AllHandled (attempt+1) (opened target request visited outcome).2 rest)

end Conditions

section Proofs
variable {lib : JsonLibrary} {delays : DelayLibrary} {sleep : ℚ → Except PyExc Unit}
  {target : PyStr → PyStr → Target PyStr PyStr} {policy : RetryPolicy} {request asked : Asked PyStr}
  {visited visited' : List PyStr} {outcome : Outcome}

/-- What `urlopen` gives back is a response that was read. -/
theorem opened_response {statusCode : ℕ} {body : Bytes}
    (h : (opened target asked visited outcome).1=.response statusCode body) :
    ∃ reply,outcome=.reply reply ∧ reply.body=.whole body := by
  cases outcome with
  | networkFailure message => exact nomatch h
  | otherFailure e => exact nomatch h
  | reply r =>
    refine ⟨r,rfl,?_⟩
    simp only [opened] at h
    split at h
    · split at h
      next hbody =>
        cases h
        exact hbody
      · exact nomatch h
      · exact nomatch h
    · split at h
      · exact nomatch h
      · exact nomatch h
      · split at h
        all_goals exact nomatch h

/-- What the helper retries may be retried. -/
theorem retryable_of_opened (h : (opened target asked visited outcome).1.retryable=true) :
    outcome.retryable=true := by
  cases outcome with
  | networkFailure message => rfl
  | otherFailure e => rfl
  | reply r =>
    have hlate : ∀ {message : PyStr},r.body=.timedOut message → (Outcome.reply r).retryable=true := by
      intro message hbody
      simp [Outcome.retryable,hbody,BodyRead.isLate]
    simp only [opened] at h
    split at h
    · split at h
      · exact nomatch h
      next hbody => exact hlate hbody
      · exact nomatch h
    · split at h
      · cases hbody : r.body with
        | whole body =>
          simp only [hbody,BodyRead.read,Opened.retryable] at h
          simp [Outcome.retryable,h]
        | timedOut message => exact hlate hbody
        | broken e =>
          simp only [hbody,BodyRead.read] at h
          exact nomatch h
      · exact nomatch h
      · split at h
        · exact nomatch h
        next hbody => exact hlate hbody
        · exact nomatch h

/-- After a redirect no other request should be sent. -/
theorem retryable_of_moved {url : PyStr} (h : (opened target asked visited outcome).1=.moved url) :
    outcome.retryable=false := by
  cases outcome with
  | networkFailure message => exact nomatch h
  | otherFailure e => exact nomatch h
  | reply r =>
    simp only [opened] at h
    split at h
    · split at h
      all_goals exact nomatch h
    · split at h
      · exact nomatch h
      · exact nomatch h
      next place hfollowed =>
        have hcode : isRedirect r.code=true := isRedirect_of_ne_kept fun hkept => by
          cases hfollowed.symm.trans hkept
        split at h
        next hbody =>
          simp only [isRedirect,Bool.or_eq_true,decide_eq_true_eq] at hcode
          simp only [Outcome.retryable,hbody,BodyRead.isLate,isRetryableStatus,Bool.or_false,Bool.or_eq_false_iff,
            Bool.and_eq_false_iff,decide_eq_false_iff_not]
          omega
        · exact nomatch h
        · exact nomatch h

/-- A run of one request that is answered. -/
theorem honest_once {attempts : ℤ} {rest : List Outcome} {result : Except RequestError (List (PyStr × Json))} :
    Honest lib policy attempts (outcome::rest) ⟨1,[],some result⟩ ↔ Ends lib (outcome::rest) 1 result := by
  constructor
  · exact fun h => h.ends result rfl
  · intro h
    refine ⟨le_max_left _ _,fun i hi => ?_,fun _ hs => (nomatch hs),fun r hr => ?_,fun _ => Option.some_ne_none _⟩
    · dsimp only at hi
      omega
    · rw [← Option.some.inj hr]
      exact h

/-- The end of a later run, one request later. -/
theorem ends_cons {rest : List Outcome} {sent : ℕ} {result : Except RequestError (List (PyStr × Json))}
    (h : 0 < sent) : Ends lib (outcome::rest) (sent+1) result ↔ Ends lib rest sent result := by
  rcases result with (_ | _ | _) | decoded
  · exact Iff.rfl
  · exact Iff.rfl
  · exact Iff.rfl
  · constructor
    · rintro ⟨last,reply,body,text,hlast,houtcome,hbody⟩
      obtain ⟨last',rfl⟩ : ∃ last',last=last'+1 := ⟨last-1,by omega⟩
      exact ⟨last',reply,body,text,by omega,houtcome,hbody⟩
    · rintro ⟨last,reply,body,text,rfl,houtcome,hbody⟩
      exact ⟨last+1,reply,body,text,rfl,houtcome,hbody⟩

/-- A pause sends what it sent and what is sent after it. -/
theorem pause_sent (attempt : ℕ) (retryAfter : Except PyExc (Option ℚ)) (later : Run) :
    0 < (pause delays sleep policy attempt retryAfter later).sent := by
  unfold pause
  split
  next => exact Nat.one_pos
  next =>
    split
    next => exact Nat.one_pos
    next => exact Nat.succ_pos _

/-- Every run sends a request. -/
theorem requestLoop_sent (attempt : ℕ) (asked : Asked PyStr) (visited : List PyStr) (outcomes : List Outcome) :
    0 < (requestLoop lib delays sleep target policy request attempt asked visited outcomes).sent := by
  unfold requestLoop
  split
  next => exact Nat.one_pos
  next =>
    split
    next => exact Nat.one_pos
    next => exact Nat.one_pos
    next => exact Nat.one_pos
    next =>
      split
      next => exact pause_sent _ _ _
      next => exact Nat.one_pos
    next =>
      split
      next => exact pause_sent _ _ _
      next => exact Nat.one_pos
    next => exact Nat.succ_pos _

/-- A redirect that is followed is no retry. -/
theorem not_honest_moved {attempts : ℤ} {rest : List Outcome} {later : Run} (hsent : 0 < later.sent)
    (h : outcome.retryable=false) :
    ¬Honest lib policy attempts (outcome::rest) ⟨later.sent+1,later.sleeps,later.result⟩ := by
  intro hhonest
  obtain ⟨first,hfirst,hretryable⟩ := hhonest.retried 0 (Nat.succ_lt_succ hsent)
  cases hfirst
  rw [h] at hretryable
  exact nomatch hretryable

/-- A pause within the policy, and an honest run after it. -/
theorem honest_resumed {attempts : ℤ} {rest : List Outcome} {later : Run} {seconds : ℚ}
    (hsent : 0 < later.sent) (hretryable : outcome.retryable=true) (hattempts : 1 < attempts) :
    Honest lib policy attempts (outcome::rest) ⟨later.sent+1,seconds::later.sleeps,later.result⟩ ↔
      (0 ≤ seconds ∧ seconds ≤ policy.maxDelay) ∧ Honest lib policy (attempts-1) rest later := by
  constructor
  · intro h
    refine ⟨h.delays seconds List.mem_cons_self,?_,?_,?_,?_,?_⟩
    · have hbounded := h.bounded
      simp only [Nat.cast_add,Nat.cast_one] at hbounded
      omega
    · exact fun i hi => h.retried (i+1) (Nat.succ_lt_succ hi)
    · exact fun s hs => h.delays s (List.mem_cons_of_mem _ hs)
    · exact fun r hr => (ends_cons hsent).mp (h.ends r hr)
    · intro hlength
      refine h.answered ?_
      simp only [List.length_cons,Nat.cast_add,Nat.cast_one]
      omega
  · rintro ⟨hseconds,h⟩
    refine ⟨?_,?_,?_,?_,?_⟩
    · have hbounded := h.bounded
      simp only [Nat.cast_add,Nat.cast_one]
      omega
    · intro i hi
      cases i with
      | zero => exact ⟨outcome,rfl,hretryable⟩
      | succ i => exact h.retried i (Nat.lt_of_succ_lt_succ hi)
    · exact List.forall_mem_cons.mpr ⟨hseconds,h.delays⟩
    · exact fun r hr => (ends_cons hsent).mpr (h.ends r hr)
    · intro hlength
      refine h.answered ?_
      simp only [List.length_cons,Nat.cast_add,Nat.cast_one] at hlength
      omega

/-- A pause within the policy is one whose length can be computed, and lies within it. -/
theorem honest_pause (hsleep : ∀ seconds,0 ≤ seconds → seconds ≤ policy.maxDelay → sleep seconds=.ok ())
    {attempt : ℕ} {attempts : ℤ} {rest : List Outcome} {later : Run}
    {retryAfter : Except PyExc (Option ℚ)} (hsent : 0 < later.sent) (hretryable : outcome.retryable=true)
    (hattempts : 1 < attempts) :
    Honest lib policy attempts (outcome::rest) (pause delays sleep policy attempt retryAfter later) ↔
      (∃ seconds,retryAfter.bind (delay delays policy attempt)=.ok seconds ∧ 0 ≤ seconds ∧
        seconds ≤ policy.maxDelay) ∧ Honest lib policy (attempts-1) rest later := by
  unfold pause
  rcases retryAfter.bind (delay delays policy attempt) with e | seconds
  · refine honest_once.trans ⟨fun h => h.elim,?_⟩
    rintro ⟨⟨seconds,hseconds,_⟩,_⟩
    exact nomatch hseconds
  · have hrange : (∃ s,(Except.ok seconds : Except PyExc ℚ)=.ok s ∧ 0 ≤ s ∧ s ≤ policy.maxDelay) ↔
        0 ≤ seconds ∧ seconds ≤ policy.maxDelay := by
      constructor
      · rintro ⟨s,hs,hmem⟩
        rw [Except.ok.inj hs]
        exact hmem
      · exact fun h => ⟨seconds,rfl,h⟩
    rw [hrange]
    dsimp only
    rcases hslept : sleep seconds with e | _
    · constructor
      · exact fun h => (h.ends _ rfl).elim
      · rintro ⟨⟨hlow,hhigh⟩,_⟩
        rw [hsleep seconds hlow hhigh] at hslept
        exact nomatch hslept
    · exact honest_resumed hsent hretryable hattempts

/-- The delay of a backoff. -/
theorem delay_backoff (hbase : 0 ≤ policy.baseDelay) (hmax : 0 ≤ policy.maxDelay) (attempt : ℕ) :
    (∃ seconds,delay delays policy attempt none=.ok seconds ∧ 0 ≤ seconds ∧ seconds ≤ policy.maxDelay) ↔
      attempt ≤ 1024 := by
  unfold delay
  dsimp only
  split
  next hpower =>
    have hceiling : 0 ≤ min policy.maxDelay (policy.baseDelay*2^(attempt-1)) :=
      le_min hmax (mul_nonneg hbase (by positivity))
    obtain ⟨hlow,hhigh⟩ := delays.uniform_mem attempt _ hceiling
    exact ⟨fun _ => by omega,fun _ => ⟨_,rfl,hlow,hhigh.trans (min_le_left _ _)⟩⟩
  next hpower =>
    constructor
    · rintro ⟨seconds,hseconds,_⟩
      exact nomatch hseconds
    · intro h
      omega

/-- The delay after an HTTPError. -/
theorem delay_header (hbase : 0 ≤ policy.baseDelay) (hmax : 0 ≤ policy.maxDelay) (attempt : ℕ)
    (header : Option PyStr) :
    (∃ seconds,(retryAfterSeconds delays header).bind (delay delays policy attempt)=.ok seconds ∧ 0 ≤ seconds ∧
      seconds ≤ policy.maxDelay) ↔ Payable delays attempt header := by
  unfold retryAfterSeconds Payable
  rcases header.bind delays.int with _ | n
  · exact delay_backoff hbase hmax attempt
  · dsimp only
    cases hfloat : delays.float n with
    | none =>
      have hlimit := (delays.float_none n).mp hfloat
      constructor
      · rintro ⟨seconds,hseconds,_⟩
        exact nomatch hseconds
      · rintro ⟨hlow,hhigh⟩
        rw [abs_of_nonneg hlow] at hlimit
        exact absurd hhigh (not_lt.mpr hlimit)
    | some q =>
      have hlimit : |n| < floatLimit := by
        refine not_le.mp fun hle => ?_
        rw [(delays.float_none n).mpr hle] at hfloat
        exact nomatch hfloat
      have hsign := delays.float_sign n q hfloat
      constructor
      · rintro ⟨seconds,hseconds,hlow,_⟩
        rw [← Except.ok.inj hseconds] at hlow
        exact ⟨hsign.mp (hlow.trans (min_le_left _ _)),(le_abs_self n).trans_lt hlimit⟩
      · rintro ⟨hlow,_⟩
        exact ⟨_,rfl,le_min (hsign.mpr hlow) hmax,min_le_right _ _⟩

/-- A response is decoded, or its body leaks. -/
theorem ends_response (statusCode : ℕ) {reply : Reply} {body : Bytes} (hbody : reply.body=.whole body)
    (rest : List Outcome) :
    Ends lib (.reply reply::rest) 1 (decodeJsonObject lib statusCode body) ↔ ¬BodyLeaks lib body := by
  unfold decodeJsonObject BodyLeaks
  dsimp only
  rcases hdecode : decodeUtf8 body with _ | text
  · simp [Ends]
  · dsimp only
    rcases hloads : lib.loads text with e | value
    · cases e <;> simp [Ends,hloads]
    · cases value with
      | obj decoded =>
        have hleaks : ¬∃ other message,some text=some other ∧
            (lib.loads other=.error (.valueError message) ∨ lib.loads other=.error (.recursionError message)) := by
          rintro ⟨other,message,hother,hraised⟩
          rw [← Option.some.inj hother,hloads] at hraised
          rcases hraised with h | h <;> exact nomatch h
        exact iff_of_true ⟨0,reply,body,text,rfl,rfl,hbody,hdecode,hloads⟩ hleaks
      | null | bool | int | float | str | arr => simp [Ends,hloads]

/-- From an attempt on, a run is honest exactly when every outcome that it gets to is
coped with. -/
theorem honest_requestLoop (hbase : 0 ≤ policy.baseDelay) (hmax : 0 ≤ policy.maxDelay)
    (hsleep : ∀ seconds,0 ≤ seconds → seconds ≤ policy.maxDelay → sleep seconds=.ok ())
    (outcomes : List Outcome) (attempt : ℕ) (visited : List PyStr) :
    Honest lib policy (policy.maxAttempts-attempt+1) outcomes
        (requestLoop lib delays sleep target policy request attempt request visited outcomes) ↔
      AllHandled lib delays target policy request attempt visited outcomes := by
  induction outcomes generalizing attempt visited with
  | nil =>
    refine iff_of_true ⟨le_max_left _ _,fun i hi => ?_,fun _ hs => (nomatch hs),fun _ hr => (nomatch hr),fun hlength => ?_⟩
      trivial
    · simp only [requestLoop] at hi
      omega
    · simp only [List.length_nil,Nat.cast_zero] at hlength
      omega
  | cons outcome rest ih =>
    have hrest : ∀ visited',Honest lib policy (policy.maxAttempts-attempt+1-1) rest
        (requestLoop lib delays sleep target policy request (attempt+1) request visited' rest) ↔
          AllHandled lib delays target policy request (attempt+1) visited' rest := by
      intro visited'
      rw [← ih (attempt+1)]
      have hleft : policy.maxAttempts-attempt+1-1=policy.maxAttempts-(attempt+1 : ℕ)+1 := by
        push_cast
        omega
      rw [hleft]
    have hresponse := @opened_response target request visited outcome
    have hretryable := @retryable_of_opened target request visited outcome
    have hmoved := @retryable_of_moved target request visited outcome
    unfold AllHandled requestLoop
    rcases hopened : opened target request visited outcome with ⟨first,visited'⟩
    rw [hopened] at hresponse hretryable hmoved
    cases first with
    | response statusCode body =>
      obtain ⟨reply,rfl,hbody⟩ := hresponse rfl
      refine honest_once.trans ((ends_response statusCode hbody rest).trans ?_)
      simp [Handled,Opened.retryable]
    | httpError code retryAfter body =>
      cases body with
      | error e => exact honest_once.trans ⟨fun h => h.elim,fun h => h.1.elim⟩
      | ok body =>
        dsimp only
        split
        next hretried =>
          have hleft := hretried.2
          refine (honest_pause hsleep (requestLoop_sent _ _ _ _) (hretryable hretried.1) (by omega)).trans ?_
          rw [delay_header hbase hmax,hrest]
          simp [Handled,Opened.retryable,hretried]
        next hfinal =>
          refine honest_once.trans (iff_of_true trivial ⟨fun hcode hleft => absurd ⟨hcode,hleft⟩ hfinal,?_⟩)
          exact fun hcode hleft => absurd ⟨hcode,hleft⟩ hfinal
    | raised e => exact honest_once.trans ⟨fun h => h.elim,fun h => h.1.elim⟩
    | failed message =>
      dsimp only
      split
      next hleft =>
        refine (honest_pause hsleep (requestLoop_sent _ _ _ _) (hretryable rfl) (by omega)).trans ?_
        have hbackoff : (∃ seconds,(Except.ok none : Except PyExc (Option ℚ)).bind (delay delays policy attempt)=
            .ok seconds ∧ 0 ≤ seconds ∧ seconds ≤ policy.maxDelay) ↔ attempt ≤ 1024 :=
          delay_backoff hbase hmax attempt
        rw [hbackoff,hrest]
        simp [Handled,Opened.retryable,hleft]
      next hfinal =>
        exact honest_once.trans (iff_of_true trivial ⟨fun hleft => absurd hleft hfinal,fun _ hleft => absurd hleft hfinal⟩)
    | moved url =>
      exact ⟨fun h => (not_honest_moved (requestLoop_sent _ _ _ _) (hmoved rfl) h).elim,fun h => h.1.elim⟩

/-- A call keeps to its policy, sends another request only after a retryable outcome and
ends as it should exactly when every outcome that it gets to is coped with: no redirect that
`urlopen` follows, no body on which the decoder raises a plain ValueError or a RecursionError,
no error whose body cannot be read, no network failure under another class, and, where a retry
is left, no negative or overlong `Retry-After` and no backoff after more than 1024 attempts. -/
theorem request_json_honest_iff (hbase : 0 ≤ policy.baseDelay) (hmax : 0 ≤ policy.maxDelay)
    (hsleep : ∀ seconds,0 ≤ seconds → seconds ≤ policy.maxDelay → sleep seconds=.ok ()) (outcomes : List Outcome) :
    Honest lib policy policy.maxAttempts outcomes (requestJson lib delays sleep target policy request outcomes) ↔
      AllHandled lib delays target policy request 1 [] outcomes := by
  have hloop : Honest lib policy _ outcomes (requestLoop lib delays sleep target policy request 1 request [] outcomes) ↔ _ :=
    honest_requestLoop hbase hmax hsleep outcomes 1 []
  rwa [show policy.maxAttempts-(1 : ℕ)+1=policy.maxAttempts by push_cast; omega] at hloop

end Proofs

/-- A library that reads an empty object everywhere. -/
def emptyObjects : JsonLibrary where
  loads _ := .ok (.obj [])
  loadsBytes _ := .ok (.obj [])
  int
    | .int n => .ok n
    | _ => .error .typeError
  freeze _ := .ok ()
  replaced _ := []

/-- A library that reads one number, and draws no random ones. -/
def minusFive : DelayLibrary where
  int text := if text=pyStr "-5" then some (-5) else none
  float n := if floatLimit ≤ |n| then none else some n
  uniform _ ceiling := ceiling
  float_none n := by
    split
    next h => exact iff_of_true rfl h
    next h => exact iff_of_false (Option.some_ne_none _) h
  float_sign n q h := by
    split at h
    next => exact nomatch h
    next =>
      rw [← Option.some.inj h]
      exact Int.cast_nonneg_iff
  uniform_mem _ _ h := ⟨h,le_refl _⟩

/-- `time.sleep`, which takes no negative length. -/
def timeSleep (seconds : ℚ) : Except PyExc Unit :=
  if 0 ≤ seconds then .ok () else .error (.other true (pyStr "sleep length must be non-negative"))

/-- A place is the URL that a reply names. -/
def namedPlace (_ named : PyStr) : Target PyStr PyStr := .place named

/-- A request with a body. -/
def posted : Asked PyStr := ⟨.post,[]⟩

/-- A response without the headers that are looked at. -/
def plainReply (code : ℕ) : Outcome := .reply ⟨code,none,none,.whole []⟩

/-- After a network failure the second request is answered. -/
theorem request_json_honest_once :
    Honest emptyObjects {} 3 [.networkFailure [],plainReply 200]
      (requestJson emptyObjects minusFive timeSleep namedPlace {} posted [.networkFailure [],plainReply 200]) := by
  refine (@request_json_honest_iff emptyObjects minusFive timeSleep namedPlace {} posted (by norm_num) (by norm_num)
    (fun _ hlow _ => if_pos hlow) _).mpr ?_
  refine ⟨fun _ => by norm_num,fun _ _ => ⟨?_,fun h => nomatch h⟩⟩
  rintro ⟨text,message,_,h | h⟩ <;> exact nomatch h

/-- A 429 that asks for a retry after `-5` seconds. -/
def refusedNegative : Outcome := .reply ⟨429,none,some (pyStr "-5"),.whole []⟩

/-- A negative `Retry-After` is passed to sleep. -/
theorem negative_sleep :
    ¬∀ (lib : JsonLibrary) (delays : DelayLibrary) (sleep : ℚ → Except PyExc Unit)
      (target : PyStr → PyStr → Target PyStr PyStr) (policy : RetryPolicy) (request : Asked PyStr)
      (outcomes : List Outcome),0 ≤ policy.baseDelay → 0 ≤ policy.maxDelay →
        (∀ seconds,0 ≤ seconds → seconds ≤ policy.maxDelay → sleep seconds=.ok ()) →
          Honest lib policy policy.maxAttempts outcomes
            (requestJson lib delays sleep target policy request outcomes) := by
  intro h
  have hhonest := h emptyObjects minusFive timeSleep namedPlace {} posted [refusedNegative] (by norm_num)
    (by norm_num) fun _ hlow _ => if_pos hlow
  have hslept : (-5 : ℚ)∈(requestJson emptyObjects minusFive timeSleep namedPlace {} posted
      [refusedNegative]).sleeps := by decide +kernel
  exact absurd (hhonest.delays _ hslept).1 (by norm_num)

end GenericMlCache.RequestRetries
