import GenericMlCache.GatewayRelay

/-!
# Parsing a client's output

How the adapters lift the answer and the usage out of a client's stdout: one JSON
object, or a stream of them a line each. What `json.loads`, `int`, `float` and
`deep_freeze` do to a value is the library's.
-/

namespace GenericMlCache.OutputParsing

open PythonText ExecutionModel MlExecutionCommands JsonText GatewayRelay

/-- The library with the conversion that only a cost needs. -/
structure UsageLibrary extends JsonLibrary where
  /-- `float(value)`. -/
  float : Json → Except IntError UInt64

/-- What a parser makes of a client's stdout. -/
structure ParsedOutput where
  /-- The answer. -/
  text : PyStr
  /-- The usage, if one is reported. -/
  usage : Option TokenUsage

/-- `event.get("type") == name`, and the same of other keys. -/
def hasText (fields : List (PyStr × Json)) (key name : String) : Bool :=
  match getItem fields key with
  | some (.str s) => decide (s=pyStr name)
  | _ => false

/-- `ensure_trailing_newline`. -/
def ensureTrailingNewline (text : PyStr) : PyStr :=
  if text≠[] ∧ text.getLast?≠some 0x0A then text++[0x0A] else text

section Parsers
variable (lib : UsageLibrary)

/-- `json.loads` under `except (json.JSONDecodeError, ValueError)`: none where that catches. -/
def tryLoads (text : PyStr) : Except PyExc (Option Json) :=
  match lib.loads text with
  | .ok value => .ok (some value)
  | .error (.recursionError message) => .error (.other true message)
  | .error _ => .ok none

/-- The result object of a line, if it is one. -/
def resultOfLine (line : PyStr) : Except PyExc (Option (List (PyStr × Json))) :=
  if strip line=[] then .ok none
  else do
    match ← tryLoads lib (strip line) with
    | some (.obj event) => return if hasText event "type" "result"=true then some event else none
    | _ => return none

/-- The loop of `final_result_object`: the last result object stays. -/
def lastResultObject : List PyStr → Option (List (PyStr × Json)) → Except PyExc (Option (List (PyStr × Json)))
  | [],last => .ok last
  | line::lines,last => do
    let found ← resultOfLine lib line
    lastResultObject lines (found.or last)

/-- `final_result_object`. -/
def finalResultObject (stdout : PyStr) : Except PyExc (Option (List (PyStr × Json))) :=
  if strip stdout=[] then .ok none
  else do
    match ← tryLoads lib (strip stdout) with
    | some (.obj document) => return some document
    | _ => lastResultObject lib (splitLines stdout) none

/-- `float_or_none`. -/
def floatOrNone : Option Json → Except PyExc (Option UInt64) := numberOrNone lib.float

/-- The value itself where it is a dict, and an empty one otherwise. -/
def dictOrEmpty : Option Json → List (PyStr × Json)
  | some (.obj fields) => fields
  | _ => []

/-- The items of a dict under some keys. -/
def pickItems (fields : List (PyStr × Json)) (keys : List String) : List (PyStr × Json) :=
  keys.filterMap fun key => (getItem fields key).map fun value => (pyStr key,value)

/-- The usage that Claude's `parse_output` reads. -/
def claudeUsage (doc : List (PyStr × Json)) : Except PyExc TokenUsage := do
  let block := dictOrEmpty (getItem doc "usage")
  let inputTokens ← intOrNone lib.toJsonLibrary (getItem block "input_tokens")
  let outputTokens ← intOrNone lib.toJsonLibrary (getItem block "output_tokens")
  let cacheReadTokens ← intOrNone lib.toJsonLibrary (getItem block "cache_read_input_tokens")
  let cacheWriteTokens ← intOrNone lib.toJsonLibrary (getItem block "cache_creation_input_tokens")
  let costUsd ← floatOrNone lib (getItem doc "total_cost_usd")
  frozenUsage lib.toJsonLibrary
    { inputTokens := inputTokens, outputTokens := outputTokens, cacheReadTokens := cacheReadTokens,
      cacheWriteTokens := cacheWriteTokens, costUsd := costUsd,
      raw := pickItems doc ["usage","modelUsage","total_cost_usd"] }

/-- Claude's `parse_output`. -/
def claudeParseOutput (stdout : PyStr) : Except PyExc ParsedOutput := do
  match ← finalResultObject lib stdout with
  | none => return ⟨stdout,none⟩
  | some doc =>
    match getItem doc "result" with
    | some (.str text) => do
      let usage ← claudeUsage lib doc
      return ⟨ensureTrailingNewline text,some usage⟩
    | _ => return ⟨stdout,none⟩

/-- The usage that Cursor's `parse_output` reads out of a block. -/
def cursorUsage (block : List (PyStr × Json)) : Except PyExc TokenUsage := do
  let inputTokens ← intOrNone lib.toJsonLibrary (getItem block "inputTokens")
  let outputTokens ← intOrNone lib.toJsonLibrary (getItem block "outputTokens")
  let cacheReadTokens ← intOrNone lib.toJsonLibrary (getItem block "cacheReadTokens")
  let cacheWriteTokens ← intOrNone lib.toJsonLibrary (getItem block "cacheWriteTokens")
  frozenUsage lib.toJsonLibrary
    { inputTokens := inputTokens, outputTokens := outputTokens, cacheReadTokens := cacheReadTokens,
      cacheWriteTokens := cacheWriteTokens, raw := block }

/-- Cursor's `parse_output`. -/
def cursorParseOutput (stdout : PyStr) : Except PyExc ParsedOutput := do
  match ← finalResultObject lib stdout with
  | none => return ⟨stdout,none⟩
  | some doc =>
    match getItem doc "result" with
    | some (.str text) =>
      match getItem doc "usage" with
      | some (.obj block) => do
        let usage ← cursorUsage lib block
        return ⟨ensureTrailingNewline text,some usage⟩
      | _ => return ⟨ensureTrailingNewline text,none⟩
    | _ => return ⟨stdout,none⟩

/-- What Codex's `parse_output` has found so far. -/
structure CodexFound where
  /-- The last answer. -/
  answer : Option PyStr := none
  /-- The last usage block. -/
  usageBlock : Option (List (PyStr × Json)) := none

/-- The answer that an event carries. -/
def codexAnswer (event : List (PyStr × Json)) : Option PyStr :=
  if hasText event "type" "item.completed"=true then
    match getItem event "item" with
    | some (.obj item) =>
      if hasText item "type" "agent_message"=true then
        match getItem item "text" with
        | some (.str text) => some text
        | _ => none
      else none
    | _ => none
  else none

/-- The usage block that an event carries. An event has one type. -/
def codexBlock (event : List (PyStr × Json)) : Option (List (PyStr × Json)) :=
  if hasText event "type" "turn.completed"=true then
    match getItem event "usage" with
    | some (.obj block) => some block
    | _ => none
  else none

/-- One event of Codex's stream: the latest answer and the latest block stay. -/
def CodexFound.see (found : CodexFound) (event : List (PyStr × Json)) : CodexFound where
  answer := (codexAnswer event).or found.answer
  usageBlock := (codexBlock event).or found.usageBlock

/-- The event of a line of Codex's stream. Only a JSONDecodeError is tolerated. -/
def codexEvent (line : PyStr) : Except PyExc (Option (List (PyStr × Json))) :=
  if strip line=[] then .ok none
  else
    match lib.loads (strip line) with
    | .ok (.obj event) => .ok (some event)
    | .ok _ | .error .jsonDecodeError => .ok none
    | .error .unicodeDecodeError => .error (.other true [])
    | .error (.valueError message) | .error (.recursionError message) => .error (.other true message)

/-- The loop of Codex's `parse_output`. -/
def codexEvents : List PyStr → CodexFound → Except PyExc CodexFound
  | [],found => .ok found
  | line::lines,found => do
    match ← codexEvent lib line with
    | some event => codexEvents lines (found.see event)
    | none => codexEvents lines found

/-- The usage that Codex's `parse_output` reads out of a block. -/
def codexUsage (block : List (PyStr × Json)) : Except PyExc TokenUsage := do
  let inputTokens ← intOrNone lib.toJsonLibrary (getItem block "input_tokens")
  let outputTokens ← intOrNone lib.toJsonLibrary (getItem block "output_tokens")
  let cacheReadTokens ← intOrNone lib.toJsonLibrary (getItem block "cached_input_tokens")
  let reasoningTokens ← intOrNone lib.toJsonLibrary (getItem block "reasoning_output_tokens")
  frozenUsage lib.toJsonLibrary
    { inputTokens := inputTokens, outputTokens := outputTokens, cacheReadTokens := cacheReadTokens,
      reasoningTokens := reasoningTokens, raw := block }

/-- Codex's `parse_output`. -/
def codexParseOutput (stdout : PyStr) : Except PyExc ParsedOutput := do
  let found ← codexEvents lib (splitLines stdout) {}
  match found.answer with
  | none => return ⟨stdout,none⟩
  | some answer =>
    match found.usageBlock with
    | some block => do
      let usage ← codexUsage lib block
      return ⟨ensureTrailingNewline answer,some usage⟩
    | none => return ⟨ensureTrailingNewline answer,none⟩

end Parsers

end GenericMlCache.OutputParsing
