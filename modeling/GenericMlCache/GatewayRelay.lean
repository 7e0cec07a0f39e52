import GenericMlCache.MlExecutionCommands
import GenericMlCache.HttpRedirects

/-!
# The messages gateway and its relay

A request body is validated, keyed and forwarded as it came; the relay follows the
upstream's redirects and maps the response that it reaches onto an exit code, a text
and a usage; the gateway maps the execution back onto a status and a body. The headers
and timeouts of the upstream call are left out.
-/

namespace GenericMlCache.GatewayRelay

open CallProgram PythonText ExecutionModel ExecutionRepository RepositoryCalls ServicePorts CachedExecution
  CallIdentityKeys MlExecutionCommands JsonText HttpRedirects

/-- What `int(value)` raises. -/
inductive IntError where
  | typeError
  | valueError
  | overflowError (message : PyStr)

/-- The standard library's reader and its conversion to `int`, and a recursion that may go too deep. -/
structure JsonLibrary where
  /-- `json.loads` of a text. -/
  loads : PyStr → Except LoadsError Json
  /-- `json.loads` of bytes, whose encoding it detects. -/
  loadsBytes : Bytes → Except LoadsError Json
  /-- `int(value)`. -/
  int : Json → Except IntError ℤ
  /-- `deep_freeze` of a usage block: the message of its RecursionError, if it raises. -/
  freeze : List (PyStr × Json) → Except PyStr Unit
  /-- `bytes.decode("utf-8", errors="replace")` of bytes that are not UTF-8. -/
  replaced : Bytes → PyStr

/-- That and what a `Location` header is read as, against the URL that was asked: none where
reading it raises a ValueError. -/
structure GatewayLibrary extends JsonLibrary where
  /-- The URL that is asked next. -/
  target : PyStr → PyStr → Target PyStr PyStr

/-- `d.update(other)`. -/
def update (fields other : List (PyStr × Json)) : List (PyStr × Json) := other.foldl setItem fields

/-- Whether a value counts in a condition. A float's sign bit does not matter. -/
def Json.truthy : Json → Bool
  | .null => false
  | .bool b => b
  | .int n => decide (n≠0)
  | .float bits => decide (bits≠0 ∧ bits≠0x8000000000000000)
  | .str s => decide (s≠[])
  | .arr items => !items.isEmpty
  | .obj fields => !fields.isEmpty

/-- `str.lower()` of a header, as far as ASCII letters go. -/
def lower (text : PyStr) : PyStr :=
  text.map fun c => if 0x41 ≤ c.val ∧ c.val ≤ 0x5A then Fin.ofNat 0x110000 (c.val+0x20) else c

/-- A code point that ends a line in `str.splitlines()`. -/
def isLineBreak (c : Fin 0x110000) : Bool :=
  (0x0A ≤ c.val && c.val ≤ 0x0D) || (0x1C ≤ c.val && c.val ≤ 0x1E) || [0x85,0x2028,0x2029].contains c.val

/-- `str.splitlines()`, from the text of the line that is open. -/
def splitLinesFrom : PyStr → PyStr → List PyStr
  | line,[] => if line=[] then [] else [line.reverse]
  | line,c::rest =>
    if isLineBreak c=true then
      -- a carriage return and the newline after it end one line
      match rest with
      | d::tail =>
        if c.val=0x0D ∧ d.val=0x0A then line.reverse::splitLinesFrom [] tail
        else line.reverse::splitLinesFrom [] (d::tail)
      | [] => [line.reverse]
    else splitLinesFrom (c::line) rest

/-- `str.splitlines()`. -/
def splitLines (text : PyStr) : List PyStr := splitLinesFrom [] text

/-- A response of the upstream that decodes as UTF-8. -/
structure UpstreamResponse where
  /-- The HTTP status. -/
  statusCode : ℕ
  /-- The `content-type` header. -/
  contentType : PyStr
  /-- The body. -/
  body : Bytes
  /-- The `Location` header or, where there is none, the `URI` header. -/
  location : Option PyStr := none
  /-- An HTTP status has three digits. -/
  isStatus : 100 ≤ statusCode ∧ statusCode ≤ 999
  /-- The text of the body. -/
  text : PyStr
  /-- The body is that text. -/
  decodes : decodeUtf8 body=some text
  /-- A body in memory has a length that SQLite can store. -/
  fits : body.length < 2^63

/-- What the call of the upstream comes to. -/
inductive Upstream where
  /-- A response, and what comes of the request that is sent where the response is a redirect
  that is followed. -/
  | responded (response : UpstreamResponse) (onward : Upstream)
  /-- A network failure or a timeout, with its message. -/
  | unreachable (message : PyStr)

/-- What `urlopen` comes to in the end. -/
inductive Reached where
  | responded (response : UpstreamResponse)
  | unreachable (message : PyStr)
  /-- A ValueError: a `Location` is no URL. -/
  | raised (message : PyStr)

/-- `urlopen`, with the URLs that it was sent on to so far. Any status comes back. -/
def follow (target : PyStr → PyStr → Target PyStr PyStr) : Asked PyStr → List PyStr → Upstream → Reached
  | _,_,.unreachable message => .unreachable message
  | asked,visited,.responded response onward =>
    match redirection target asked visited response.statusCode response.location with
    | .kept => .responded response
    | .invalid message => .raised message
    | .followed url => follow target ⟨.get,url⟩ (url::visited) onward

/-- The POST to `_MESSAGES_URL`. -/
def messagesRequest : Asked PyStr := ⟨.post,pyStr "https://api.anthropic.com/v1/messages"⟩

/-- What the POST reaches. -/
def GatewayLibrary.reached (lib : GatewayLibrary) (upstream : Upstream) : Reached :=
  follow lib.target messagesRequest [] upstream

/-- `ProviderApiError`: its message. -/
def providerApiError (statusCode : ℕ) (body : PyStr) : PyExc :=
  .other true (pyStr s!"anthropic-subscription API error {statusCode}: " ++ body)

section Usage
variable (lib : JsonLibrary)

/-- `bytes.decode("utf-8", errors="replace")`. -/
def decodeReplace (body : Bytes) : PyStr := (decodeUtf8 body).getD (lib.replaced body)

/-- A number that a client reports, by a conversion: none where it is missing, a boolean or
no number. -/
def numberOrNone {α : Type} (convert : Json → Except IntError α) : Option Json → Except PyExc (Option α)
  | none | some .null | some (.bool _) => .ok none
  | some value =>
    match convert value with
    | .ok n => .ok (some n)
    | .error .typeError | .error .valueError => .ok none
    | .error (.overflowError message) => .error (.other true message)

/-- `int_or_none`. -/
def intOrNone : Option Json → Except PyExc (Option ℤ) := numberOrNone lib.int

/-- `TokenUsage(…)`: its `__post_init__` freezes the block. -/
def frozenUsage (usage : TokenUsage) : Except PyExc TokenUsage :=
  match lib.freeze usage.raw with
  | .ok _ => .ok usage
  | .error message => .error (.other true message)

/-- `_usage_from_block`: none for what is not a dict. -/
def usageFromBlock : Option Json → Except PyExc (Option TokenUsage)
  | some (.obj block) => do
    let inputTokens ← intOrNone lib (getItem block "input_tokens")
    let outputTokens ← intOrNone lib (getItem block "output_tokens")
    let cacheReadTokens ← intOrNone lib (getItem block "cache_read_input_tokens")
    let cacheWriteTokens ← intOrNone lib (getItem block "cache_creation_input_tokens")
    let usage ← frozenUsage lib
      { inputTokens := inputTokens, outputTokens := outputTokens, cacheReadTokens := cacheReadTokens,
        cacheWriteTokens := cacheWriteTokens, raw := block }
    return some usage
  | _ => .ok none

/-- `_parse_usage_json`. An envelope that is not a dict has no `get`. -/
def parseUsageJson (body : Bytes) : Except PyExc (Option TokenUsage) :=
  match lib.loadsBytes body with
  | .ok (.obj fields) => usageFromBlock lib (getItem fields "usage")
  | .ok _ | .error .jsonDecodeError | .error .unicodeDecodeError => .ok none
  | .error (.valueError message) | .error (.recursionError message) => .error (.other true message)

/-- `event.get("message", {}).get("usage") or event.get("usage")`, none where a `get` is missing. -/
def eventUsage (event : Json) : Option Json :=
  match event with
  | .obj fields =>
    match (getItem fields "message").getD (.obj []) with
    | .obj message =>
      match getItem message "usage" with
      | some usage => if Json.truthy usage=true then some usage else getItem fields "usage"
      | none => getItem fields "usage"
    | _ => none
  | _ => none

/-- `_sse_line_usage`. -/
def sseLineUsage (rawLine : PyStr) : Except PyExc (List (PyStr × Json)) :=
  let line := strip rawLine
  if ¬pyStr "data:" <+: line then .ok []
  else
    let payload := strip (line.drop 5)
    if payload=[] ∨ payload=pyStr "[DONE]" then .ok []
    else
      match lib.loads payload with
      | .ok event =>
        match eventUsage event with
        | some (.obj usage) => .ok usage
        | _ => .ok []
      | .error .jsonDecodeError => .ok []
      | .error .unicodeDecodeError => .error (.other true [])
      | .error (.valueError message) | .error (.recursionError message) => .error (.other true message)

/-- The loop of `_parse_usage_sse`: later events overlay earlier ones. -/
def mergeLines : List PyStr → List (PyStr × Json) → Except PyExc (List (PyStr × Json))
  | [],merged => .ok merged
  | rawLine::rest,merged => do
    let block ← sseLineUsage lib rawLine
    mergeLines rest (update merged block)

/-- `_parse_usage_sse`. -/
def parseUsageSse (body : Bytes) : Except PyExc (Option TokenUsage) := do
  let merged ← mergeLines lib (splitLines (decodeReplace lib body)) []
  if merged=[] then return none
  else usageFromBlock lib (some (.obj merged))

/-- `_parse_usage`. -/
def parseUsage (body : Bytes) (contentType : PyStr) : Except PyExc (Option TokenUsage) :=
  if pyStr "text/event-stream" <:+: lower contentType then parseUsageSse lib body else parseUsageJson lib body

/-- `_decode_ok_body`: at most 500 bytes of a broken body are reported. -/
def decodeOkBody (body : Bytes) : Except PyExc PyStr :=
  match decodeUtf8 body with
  | some text => .ok text
  | none => .error (providerApiError 200 (decodeReplace lib (body.take 500)))

/-- `_to_answer`, packaged as `_run_api_passthrough` does. -/
def toAnswer (statusCode : ℕ) (contentType : PyStr) (body : Bytes) : Except PyExc ClientRunResult :=
  if statusCode=200 then do
    let stdout ← decodeOkBody lib body
    let usage ← parseUsage lib body contentType
    return { exitCode := 0, stdout := stdout, tokenUsage := usage }
  else .ok { exitCode := statusCode, stdout := decodeReplace lib body }

end Usage

/-- What the client's call answers: a network failure has no status, which is 0. -/
def relay (lib : GatewayLibrary) (upstream : Upstream) : Except PyExc ClientRunResult :=
  match lib.reached upstream with
  | .responded response => toAnswer lib.toJsonLibrary response.statusCode response.contentType response.body
  | .unreachable message => .error (providerApiError 0 message)
  | .raised message => .error (.other true message)

section Errors
variable {lib : JsonLibrary} {e : PyExc}

/-- Converting a count raises no interrupt. -/
theorem intOrNone_error {value : Option Json} (h : intOrNone lib value=.error e) : e.isInterrupt=false := by
  unfold intOrNone numberOrNone at h
  split at h
  · exact nomatch h
  · exact nomatch h
  · exact nomatch h
  · split at h
    · exact nomatch h
    · exact nomatch h
    · exact nomatch h
    · cases h
      rfl

/-- Nor does freezing a block. -/
theorem frozenUsage_error {usage : TokenUsage} (h : frozenUsage lib usage=.error e) : e.isInterrupt=false := by
  unfold frozenUsage at h
  split at h
  · exact nomatch h
  · cases h
    rfl

/-- Nor does reading a usage mapping. -/
theorem usageFromBlock_error {usage : Option Json} (h : usageFromBlock lib usage=.error e) :
    e.isInterrupt=false := by
  unfold usageFromBlock at h
  split at h
  next block =>
    rcases error_of_bind h with hraised | ⟨_,_,h⟩
    · exact intOrNone_error hraised
    rcases error_of_bind h with hraised | ⟨_,_,h⟩
    · exact intOrNone_error hraised
    rcases error_of_bind h with hraised | ⟨_,_,h⟩
    · exact intOrNone_error hraised
    rcases error_of_bind h with hraised | ⟨_,_,h⟩
    · exact intOrNone_error hraised
    rcases error_of_bind h with hraised | ⟨_,_,h⟩
    · exact frozenUsage_error hraised
    · exact nomatch h
  next => exact nomatch h

/-- Nor does one line of a stream. -/
theorem sseLineUsage_error {rawLine : PyStr} (h : sseLineUsage lib rawLine=.error e) : e.isInterrupt=false := by
  simp only [sseLineUsage] at h
  split at h
  · exact nomatch h
  · split at h
    · exact nomatch h
    · split at h
      · split at h
        · exact nomatch h
        · exact nomatch h
      · exact nomatch h
      all_goals
        cases h
        rfl

/-- Nor do all of its lines. -/
theorem mergeLines_error {rawLines : List PyStr} {merged : List (PyStr × Json)}
    (h : mergeLines lib rawLines merged=.error e) : e.isInterrupt=false := by
  induction rawLines generalizing merged with
  | nil => exact nomatch h
  | cons rawLine rest ih =>
    unfold mergeLines at h
    rcases error_of_bind h with hraised | ⟨block,_,h⟩
    · exact sseLineUsage_error hraised
    · exact ih h

/-- Reading the usage of a response raises no interrupt. -/
theorem parseUsage_error {body : Bytes} {contentType : PyStr} (h : parseUsage lib body contentType=.error e) :
    e.isInterrupt=false := by
  unfold parseUsage at h
  split at h
  · unfold parseUsageSse at h
    rcases error_of_bind h with hraised | ⟨merged,_,h⟩
    · exact mergeLines_error hraised
    · split at h
      · exact nomatch h
      · exact usageFromBlock_error h
  · unfold parseUsageJson at h
    split at h
    · exact usageFromBlock_error h
    · exact nomatch h
    · exact nomatch h
    · exact nomatch h
    all_goals
      cases h
      rfl

end Errors

/-- A status and a body. -/
abbrev HttpResponse := ℤ × Bytes

section Gateway
variable (lib : JsonLibrary) (sha256 : Bytes → Digest) (fileFingerprint : PyStr → Except PyExc PyStr)
  (fingerprint : Bytes → Digest)

/-- The HTTPException of a rejected request. -/
def rejected (detail : String) : PyExc := .other true (pyStr ("422: " ++ detail))

/-- `_reject_malformed`. -/
def rejectMalformed (rawBody : Bytes) : Except PyExc Unit :=
  match lib.loadsBytes rawBody with
  | .error .jsonDecodeError | .error .unicodeDecodeError => .error (rejected "request body is not valid JSON")
  | .error (.valueError message) | .error (.recursionError message) => .error (.other true message)
  | .ok (.obj fields) =>
    if (getItem fields "model").isSome=true then .ok ()
    else .error (rejected "request body must include 'model'")
  | .ok _ => .error (rejected "request body must include 'model'")

/-- The command of a request. -/
def messagesCommand (sessionId : PyStr) (rawBody : Bytes) : RunMlExecutionCommand where
  client := pyStr "anthropic-subscription"
  model := []
  executionKind := .apiPassthrough
  rawBody := rawBody
  sessionId := some sessionId

/-- `_stdout_bytes`. -/
def stdoutBytes : List Artifact → Bytes
  | [] => []
  | artifact::rest =>
    match artifact.artifactType,artifact.content with
    | .stdout,some content => content
    | _,_ => stdoutBytes rest

/-- `_to_http_response`. The status of a failure is its exit code, 502 where there is none. -/
def toHttpResponse (execution : MlExecution) : HttpResponse :=
  match execution.executionState with
  | .success => (200,stdoutBytes execution.artifacts)
  | _ => ((execution.failure.bind (·.exitCode)).getD 502,stdoutBytes execution.artifacts)

/-- A success is a 200. -/
theorem toHttpResponse_success {execution : MlExecution} {body : Bytes} (hstate : execution.executionState=.success)
    (hbody : stdoutBytes execution.artifacts=body) : toHttpResponse execution=(200,body) := by
  unfold toHttpResponse
  rw [hstate,hbody]

/-- A failure is its exit code. -/
theorem toHttpResponse_failed {execution : MlExecution} {body : Bytes} {status : ℤ}
    (hstate : execution.executionState=.failed) (hcode : execution.failure.bind (·.exitCode)=some status)
    (hbody : stdoutBytes execution.artifacts=body) : toHttpResponse execution=(status,body) := by
  unfold toHttpResponse
  rw [hstate,hcode,hbody]
  rfl

/-- `proxy_messages`, of a gateway without a quota. -/
def proxyMessages (sessionId : PyStr) (rawBody : Bytes) : ServiceM RunMlExecutionCommand HttpResponse := do
  ofExcept (rejectMalformed lib rawBody)
  let execution ← execute (runMlExecutionService sha256 fileFingerprint none) fingerprint
    (messagesCommand sessionId rawBody)
  return toHttpResponse execution

end Gateway

end GenericMlCache.GatewayRelay
