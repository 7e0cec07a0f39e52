import GenericMlCache.IniParser
import GenericMlCache.JsonRoundTrip
import GenericMlCache.TextPatterns

/-!
# Scrubbed diagnostic lines

The diagnostics adapter turns the fields of an event into one line of text. Each
field passes a scrubber before it is rendered: five substitutions on a string,
a recursion over the values of mappings, lists and tuples, and a list of keys
whose values are dropped.
-/

namespace GenericMlCache.LogScrubbing

open PythonText MlExecutionCommands IniParser JsonText JsonRoundTrip TextPatterns

/-- What Python knows of Unicode: the word characters of a pattern, what `repr`
prints as it is, and `str.lower`. -/
structure UnicodeTables where
  /-- Whether a character is one of a word. -/
  isWord : Fin 0x110000 → Bool
  /-- Whether `repr` prints a character as it is. -/
  isPrintable : Fin 0x110000 → Bool
  /-- `str.lower()`. -/
  lower : PyStr → PyStr

/-- `[a-z]`. -/
def isLower (c : Fin 0x110000) : Bool := 0x61 ≤ c.val && c.val ≤ 0x7A

/-- `[A-Z]`. -/
def isUpper (c : Fin 0x110000) : Bool := 0x41 ≤ c.val && c.val ≤ 0x5A

/-- `[0-9a-f]`. -/
def isLowerHex (c : Fin 0x110000) : Bool := isDigit c || (0x61 ≤ c.val && c.val ≤ 0x66)

/-- One of these. -/
def oneOf (points : PyStr) (c : Fin 0x110000) : Bool := points.contains c

/-- `[A-Za-z0-9]` and these. -/
def alnumOr (points : PyStr) (c : Fin 0x110000) : Bool := isLower c || isUpper c || isDigit c || oneOf points c

/-- What `[A-Za-z]` takes besides ASCII under `(?i)`. -/
def foldsToLetter (c : Fin 0x110000) : Bool := [0x130,0x131,0x17F,0x212A].contains c.val

/-- A small letter under `(?i)`. -/
def foldedLetter (letter c : Fin 0x110000) : Bool :=
  c=letter || c.val+0x20=letter.val || (letter=0x6B && c.val=0x212A) || (letter=0x69 && (c.val=0x130 || c.val=0x131))

/-- These characters. -/
def literal (text : PyStr) : Regex (Fin 0x110000) := .word (text.map fun c d => d=c)

/-- These small letters under `(?i)`. -/
def foldedLiteral (text : PyStr) : Regex (Fin 0x110000) := .word (text.map foldedLetter)

section Patterns
variable (tables : UnicodeTables)

/-- The same text for every match. -/
def constantRule (regex : Regex (Fin 0x110000)) (text : PyStr) (h : 0 < regex.least) : Rule (Fin 0x110000) where
  regex := regex
  template _ := text
  positive := h

/-- E-mail addresses. -/
def emailRule : Rule (Fin 0x110000) :=
  constantRule (.seq (.boundary tables.isWord) (.seq (.many (alnumOr (pyStr "._%+-")) 1 none) (.seq (literal (pyStr "@"))
    (.seq (.many (alnumOr (pyStr ".-")) 1 none) (.seq (literal (pyStr "."))
      (.seq (.many (fun c => isLower c || isUpper c) 2 none) (.boundary tables.isWord)))))))
    (pyStr "[email]") (Nat.succ_pos _)

/-- Authorization and Bearer header values. -/
def headerRule : Rule (Fin 0x110000) where
  regex := .seq (.group (.alt (foldedLiteral (pyStr "bearer")) (.alt (foldedLiteral (pyStr "token"))
      (.seq (foldedLiteral (pyStr "api")) (.seq (.many (oneOf (pyStr "-_")) 0 (some 1)) (foldedLiteral (pyStr "key")))))))
    (.seq (.many isSpace 1 none) (.many (fun c => alnumOr (pyStr "-._~+/=") c || foldsToLetter c) 8 none))
  template m := m.captured.getD [] ++ pyStr " [token]"
  positive := by decide

/-- Our own encryption token. -/
def tokenRule : Rule (Fin 0x110000) :=
  constantRule (.seq (literal (pyStr "gmlc_")) (.many isLowerHex 32 none)) (pyStr "[secret]") (by decide)

/-- AWS access key ids. -/
def accessKeyRule : Rule (Fin 0x110000) :=
  constantRule (.seq (.boundary tables.isWord) (.seq (literal (pyStr "AKIA"))
    (.seq (.many (fun c => isDigit c || isUpper c) 16 (some 16)) (.boundary tables.isWord))))
    (pyStr "[secret]") (Nat.succ_pos _)

/-- Long opaque strings with an upper-case letter or a base64 character. -/
def opaqueRule : Rule (Fin 0x110000) :=
  constantRule (.seq (.many (fun c => isLower c || isDigit c) 0 none) (.seq (.word [fun c => isUpper c || oneOf (pyStr "+/") c])
    (.seq (.many (alnumOr (pyStr "+/-_")) 30 none) (.many (oneOf (pyStr "=")) 0 (some 2)))))
    (pyStr "[secret]") (by decide)

/-- `_PII_PATTERNS`. -/
def piiPatterns : List (Rule (Fin 0x110000)) :=
  [emailRule tables,headerRule,tokenRule,accessKeyRule tables,opaqueRule]

/-- `_scrub_string`. -/
def scrubString (value : PyStr) : PyStr := (piiPatterns tables).foldl (fun value rule => rule.sub value) value

end Patterns

/-- What the texts of numbers, booleans and None are made of. -/
def scalarPoints : PyStr := pyStr "0123456789+-.einfaTruFlsNoj()"

/-- The text of a number, a boolean or None. -/
structure ScalarText where
  /-- The text. -/
  text : PyStr
  /-- It holds no other characters. -/
  plain : ∀ c∈text,c∈scalarPoints

/-- A value of a field. -/
inductive Value where
  | str (text : PyStr)
  | scalar (text : ScalarText)
  | mapping (items : List (PyStr × Value))
  | list (items : List Value)
  | tuple (items : List Value)

/-- `_SENSITIVE_KEYS`. -/
def sensitiveKeys : List PyStr :=
  [pyStr "token",pyStr "secret",pyStr "password",pyStr "passwd",pyStr "api_key",pyStr "apikey",pyStr "authorization",
    pyStr "auth",pyStr "credential",pyStr "key_material",pyStr "private_key",pyStr "access_token",pyStr "refresh_token"]

section Scrub
variable (tables : UnicodeTables)

/-- A key whose value is dropped. -/
def isSensitive (key : PyStr) : Bool := sensitiveKeys.contains (tables.lower key)

mutual

/-- `_scrub_value`. -/
def scrubValue : Value → Value
  | .str text => .str (scrubString tables text)
  | .mapping items => .mapping (scrubItems items)
  | .list items => .list (scrubElements items)
  | .tuple items => .tuple (scrubElements items)
  | .scalar text => .scalar text

/-- The values of a mapping, each under its key. -/
def scrubItems : List (PyStr × Value) → List (PyStr × Value)
  | [] => []
  | (key,value)::items =>
    (key,if isSensitive tables key=true then .str (pyStr "[redacted]") else scrubValue value)::scrubItems items

/-- The elements of a sequence. -/
def scrubElements : List Value → List Value
  | [] => []
  | value::items => scrubValue value::scrubElements items

end

/-- `_scrub_field`. -/
def scrubField (key : PyStr) (value : Value) : Value :=
  if isSensitive tables key=true then .str (pyStr "[redacted]") else scrubValue tables value

/-- So many hexadecimal digits. -/
def hexDigits : ℕ → ℕ → PyStr
  | 0,_ => []
  | width+1,n => hexDigits width (n/16) ++ [hexCode (n%16)]

/-- The quotation mark that `repr` takes. -/
def quoteFor (text : PyStr) : Fin 0x110000 :=
  if (text.contains 0x27 && !text.contains 0x22)=true then 0x22 else 0x27

/-- How `repr` writes a character. -/
def escapePoint (quote c : Fin 0x110000) : PyStr :=
  if c=quote ∨ c=0x5C then [0x5C,c]
  else if c=0x09 then pyStr "\\t"
  else if c=0x0A then pyStr "\\n"
  else if c=0x0D then pyStr "\\r"
  else if c.val < 0x20 ∨ c.val=0x7F then pyStr "\\x" ++ hexDigits 2 c.val
  else if c.val < 0x7F ∨ tables.isPrintable c=true then [c]
  else if c.val < 0x100 then pyStr "\\x" ++ hexDigits 2 c.val
  else if c.val < 0x10000 then pyStr "\\u" ++ hexDigits 4 c.val
  else pyStr "\\U" ++ hexDigits 8 c.val

/-- `repr(text)`. -/
def reprText (text : PyStr) : PyStr :=
  [quoteFor text] ++ (text.flatMap (escapePoint tables (quoteFor text)) ++ [quoteFor text])

mutual

/-- `repr(value)`. -/
def reprValue : Value → PyStr
  | .str text => reprText tables text
  | .scalar text => text.text
  | .mapping [] => pyStr "\x7b\x7d"
  | .mapping ((key,value)::items) =>
    pyStr "\x7b" ++ (reprText tables key ++ (pyStr ": " ++ (reprValue value ++ reprItems items)))
  | .list [] => pyStr "[]"
  | .list (value::items) => pyStr "[" ++ (reprValue value ++ (reprElements items ++ pyStr "]"))
  | .tuple [] => pyStr "()"
  | .tuple [value] => pyStr "(" ++ (reprValue value ++ pyStr ",)")
  | .tuple (value::second::items) => pyStr "(" ++ (reprValue value ++ (reprElements (second::items) ++ pyStr ")"))

/-- The items after the first one, and the brace. -/
def reprItems : List (PyStr × Value) → PyStr
  | [] => pyStr "\x7d"
  | (key,value)::items => pyStr ", " ++ (reprText tables key ++ (pyStr ": " ++ (reprValue value ++ reprItems items)))

/-- The elements after the first one. -/
def reprElements : List Value → PyStr
  | [] => []
  | value::items => pyStr ", " ++ (reprValue value ++ reprElements items)

end

/-- `str(value)`. -/
def strValue : Value → PyStr
  | .str text => text
  | value => reprValue tables value

end Scrub

/-- `bool(value)`. -/
def truthyValue : Value → Bool
  | .str text => !text.isEmpty
  | .scalar text => text.text∉[pyStr "0",pyStr "0.0",pyStr "-0.0",pyStr "0j",pyStr "False",pyStr "None"]
  | .mapping items => !items.isEmpty
  | .list items | .tuple items => !items.isEmpty

/-- The fields of an event, in order. -/
structure EventDict where
  /-- The fields with their values. -/
  items : List (PyStr × Value)
  /-- A key occurs once. -/
  nodup : (items.map Prod.fst).Nodup

namespace EventDict

/-- `event_dict.get(key)`. -/
def get? (d : EventDict) (key : PyStr) : Option Value := (d.items.find? fun e => e.1=key).map Prod.snd

/-- What `event_dict.pop(key)` leaves. -/
def pop (d : EventDict) (key : PyStr) : EventDict where
  items := d.items.filter fun e => e.1≠key
  nodup := d.nodup.sublist (List.filter_sublist.map Prod.fst)

/-- `event_dict[key] = value`. -/
def setItem (d : EventDict) (key : PyStr) (value : Value) : EventDict where
  items :=
    if key∈d.items.map Prod.fst then d.items.map fun e => (e.1,if e.1=key then value else e.2)
    else d.items ++ [(key,value)]
  nodup := by
    split
    next =>
      rw [List.map_map]
      exact d.nodup
    next hnew =>
      rw [List.map_append,List.map_singleton]
      exact List.Nodup.append d.nodup (List.nodup_singleton _) (List.disjoint_singleton.mpr hnew)

/-- The values, each changed under its key. -/
def mapValues (d : EventDict) (f : PyStr → Value → Value) : EventDict where
  items := d.items.map fun e => (e.1,f e.1 e.2)
  nodup := by
    rw [List.map_map]
    exact d.nodup

section Items
variable {d : EventDict} {key : PyStr} {value : Value} {e : PyStr × Value}

/-- What a key looks up to. -/
theorem mem_items : (key,value)∈d.items ↔ d.get? key=some value := by
  unfold get?
  constructor
  · intro hmem
    cases hfind : d.items.find? fun e => decide (e.1=key) with
    | none => exact absurd (decide_eq_true rfl) (List.find?_eq_none.mp hfind (key,value) hmem)
    | some e =>
      have hkey : e.1=key := by simpa using List.find?_some hfind
      have hsame : e=(key,value) := List.inj_on_of_nodup_map d.nodup (List.mem_of_find?_eq_some hfind) hmem hkey
      rw [hsame]
      rfl
  · intro hget
    obtain ⟨e,hfind,rfl⟩ := Option.map_eq_some_iff.mp hget
    have hkey : e.1=key := by simpa using List.find?_some hfind
    rw [← hkey]
    exact List.mem_of_find?_eq_some hfind

/-- The items that a pop leaves. -/
theorem mem_pop : e∈(d.pop key).items ↔ e∈d.items ∧ e.1≠key := by
  simp only [pop,List.mem_filter,decide_eq_true_eq]

/-- The items after an assignment. -/
theorem mem_setItem : e∈(d.setItem key value).items ↔ e=(key,value) ∨ e∈d.items ∧ e.1≠key := by
  obtain ⟨k,v⟩ := e
  unfold setItem
  dsimp only
  split
  next hold =>
    obtain ⟨f,hf,hkey⟩ := List.mem_map.mp hold
    simp only [List.mem_map,Prod.mk.injEq]
    constructor
    · rintro ⟨g,hg,rfl,rfl⟩
      by_cases hg' : g.1=key
      · exact Or.inl ⟨hg',if_pos hg'⟩
      · rw [if_neg hg']
        exact Or.inr ⟨hg,hg'⟩
    · rintro (⟨rfl,rfl⟩ | ⟨hmem,hne⟩)
      · exact ⟨f,hf,hkey,if_pos hkey⟩
      · exact ⟨(k,v),hmem,rfl,if_neg hne⟩
  next hnew =>
    rw [List.mem_append,List.mem_singleton,or_comm]
    refine or_congr_right (iff_self_and.mpr fun hmem heq => hnew ?_)
    exact heq ▸ List.mem_map_of_mem hmem

/-- The changed items. -/
theorem mem_mapValues {f : PyStr → Value → Value} :
    e∈(d.mapValues f).items ↔ ∃ v,(e.1,v)∈d.items ∧ f e.1 v=e.2 := by
  obtain ⟨k,v⟩ := e
  simp only [mapValues,List.mem_map,Prod.mk.injEq]
  constructor
  · rintro ⟨g,hg,rfl,rfl⟩
    exact ⟨g.2,hg,rfl⟩
  · rintro ⟨u,hu,rfl⟩
    exact ⟨(k,u),hu,rfl,rfl⟩

/-- Equal items look up alike. -/
theorem get?_congr {d' : EventDict} (h : ∀ value,(key,value)∈d.items ↔ (key,value)∈d'.items) : d.get? key=d'.get? key := by
  ext value
  rw [← mem_items,← mem_items]
  exact h value

/-- An assignment leaves the other keys. -/
theorem get?_setItem_of_ne {k : PyStr} (h : k≠key) : (d.setItem key value).get? k=d.get? k := by
  refine get?_congr fun v => ?_
  rw [mem_setItem]
  constructor
  · rintro (heq | ⟨hmem,_⟩)
    · exact absurd (congrArg Prod.fst heq) h
    · exact hmem
  · exact fun hmem => Or.inr ⟨hmem,h⟩

/-- So does a pop. -/
theorem get?_pop_of_ne {k : PyStr} (h : k≠key) : (d.pop key).get? k=d.get? k :=
  get?_congr fun _ => mem_pop.trans (and_iff_left h)

/-- The items after assignments to different keys. -/
theorem mem_foldl_setItem {items : List (PyStr × Value)} (hnodup : (items.map Prod.fst).Nodup) :
    e∈(items.foldl (fun d f => d.setItem f.1 f.2) d).items ↔ e∈items ∨ e∈d.items ∧ e.1∉items.map Prod.fst := by
  induction items generalizing d with
  | nil => simp
  | cons f items ih =>
    obtain ⟨hf,hnodup⟩ := List.nodup_cons.mp hnodup
    rw [List.foldl_cons,ih hnodup,mem_setItem,List.map_cons,List.mem_cons,List.mem_cons,not_or]
    constructor
    · rintro (hmem | ⟨rfl | ⟨hmem,hne⟩,hnew⟩)
      · exact Or.inl (Or.inr hmem)
      · exact Or.inl (Or.inl rfl)
      · exact Or.inr ⟨hmem,hne,hnew⟩
    · rintro ((rfl | hmem) | ⟨hmem,hne,hnew⟩)
      · exact Or.inr ⟨Or.inl rfl,hf⟩
      · exact Or.inl hmem
      · exact Or.inr ⟨Or.inr ⟨hmem,hne⟩,hnew⟩

end Items

end EventDict

/-- `DiagnosticsLevel`. -/
inductive DiagnosticsLevel where
  | debug | info | warn | error
deriving DecidableEq,Repr

/-- `_LEVEL_ORDER`. -/
def DiagnosticsLevel.order : DiagnosticsLevel → ℕ
  | .debug => 0
  | .info => 1
  | .warn => 2
  | .error => 3

/-- The name of a level. -/
def DiagnosticsLevel.text : DiagnosticsLevel → PyStr
  | .debug => pyStr "DEBUG"
  | .info => pyStr "INFO"
  | .warn => pyStr "WARN"
  | .error => pyStr "ERROR"

/-- A call of `debug`, `info`, `warn` or `error`. -/
structure Event where
  /-- The level it is logged at. -/
  level : DiagnosticsLevel
  /-- The message. -/
  msg : PyStr
  /-- The formatted traceback of an exception that was passed as `exc`. -/
  exc : Option PyStr
  /-- The keyword arguments. -/
  context : EventDict
  /-- The names of parameters are taken: such a call raises TypeError. -/
  named : ∀ e∈context.items,e.1≠pyStr "self" ∧ e.1≠pyStr "msg" ∧ e.1≠pyStr "level"

/-- What the processors read besides the event. -/
structure Surroundings where
  /-- The time, as text. -/
  timestamp : PyStr
  /-- The thread's name. -/
  thread : PyStr
  /-- Class, method and line of the first frame outside, where there is one. -/
  caller : Option PyStr
  /-- What `structlog.processors.format_exc_info` makes of an `exc_info` field: none where it
  raises, and no text where there is nothing to format. -/
  excInfo : Value → Option (Option PyStr)

section Processors
variable (tables : UnicodeTables) (around : Surroundings)

/-- The dict that `_emit` begins with. -/
def Event.dict (event : Event) : EventDict :=
  event.context.items.foldl (fun d e => d.setItem e.1 e.2)
    ⟨[(pyStr "event",.str event.msg),(pyStr "level",.str event.level.text)],by
      have hnodup : [pyStr "event",pyStr "level"].Nodup := by decide
      exact hnodup⟩

/-- `structlog.processors.TimeStamper`. -/
def timeStamper (d : EventDict) : EventDict := d.setItem (pyStr "timestamp") (.str around.timestamp)

/-- `_thread_info_processor`. -/
def threadInfoProcessor (d : EventDict) : EventDict := d.setItem (pyStr "thread") (.str around.thread)

/-- `_caller_info_processor`. -/
def callerInfoProcessor (d : EventDict) : EventDict :=
  match around.caller with
  | none => d
  | some caller => d.setItem (pyStr "caller") (.str caller)

/-- `_exc_processor`. A field of that name that is no exception raises, unless it is None. -/
def excProcessor (exc : Option PyStr) (d : EventDict) : Option EventDict :=
  match exc with
  | some formatted => some ((d.pop (pyStr "exc")).setItem (pyStr "traceback") (.str (rstrip formatted)))
  | none =>
    match d.get? (pyStr "exc") with
    | none => some (d.pop (pyStr "exc"))
    | some (.scalar text) => if text.text=pyStr "None" then some (d.pop (pyStr "exc")) else none
    | some _ => none

/-- `structlog.processors.format_exc_info`. -/
def formatExcInfo (d : EventDict) : Option EventDict :=
  match d.get? (pyStr "exc_info") with
  | none => some (d.pop (pyStr "exc_info"))
  | some value =>
    match around.excInfo value with
    | none => none
    | some none => some (d.pop (pyStr "exc_info"))
    | some (some text) => some ((d.pop (pyStr "exc_info")).setItem (pyStr "exception") (.str text))

/-- `_scrub_processor`. -/
def scrubProcessor (d : EventDict) : EventDict := d.mapValues (scrubField tables)

/-- The text of a popped field. -/
def poppedText (d : EventDict) (key : PyStr) : PyStr :=
  match d.get? key with
  | none => []
  | some value => strValue tables value

/-- `str.upper()` of an ASCII text. -/
def upperAscii (text : PyStr) : PyStr := text.map fun c => if isLower c=true then Fin.ofNat 0x110000 (c.val-0x20) else c

/-- `str.ljust(5)`. -/
def ljust5 (text : PyStr) : PyStr := text ++ List.replicate (5-text.length) 0x20

/-- The keys that the layout of a line uses. -/
def layoutKeys : List PyStr :=
  [pyStr "timestamp",pyStr "level",pyStr "thread",pyStr "caller",pyStr "event",pyStr "traceback"]

/-- A field that is shown behind the message. -/
def isExtra (key : PyStr) : Bool := !layoutKeys.contains key && key.head?≠some 0x5F

/-- The fields behind the message. -/
def extraFields (d : EventDict) : List (PyStr × Value) := d.items.filter fun e => isExtra e.1

/-- A field behind the message. -/
def extraText (e : PyStr × Value) : PyStr := e.1 ++ (pyStr "=" ++ strValue tables e.2)

/-- The level of a line. One that is no string has no `upper`. -/
def levelText (d : EventDict) : Option PyStr :=
  match d.get? (pyStr "level") with
  | none => some []
  | some (.str level) => some level
  | some _ => none

/-- What a line begins with. -/
def lineStart (d : EventDict) (level : PyStr) : PyStr :=
  poppedText tables d (pyStr "timestamp") ++ (pyStr " [" ++ (poppedText tables d (pyStr "thread") ++
    (pyStr "] " ++ (ljust5 (upperAscii level) ++ (pyStr "  " ++ (poppedText tables d (pyStr "caller") ++
      (pyStr " — " ++ poppedText tables d (pyStr "event"))))))))

/-- The fields behind the message, joined. -/
def extrasText (d : EventDict) : PyStr := joinText (pyStr "  ") ((extraFields d).map (extraText tables))

/-- A line before its traceback. -/
def headText (d : EventDict) (level : PyStr) : PyStr :=
  if (extrasText tables d).isEmpty=true then lineStart tables d level
  else lineStart tables d level ++ (pyStr "  " ++ extrasText tables d)

/-- `_render`. -/
def render (d : EventDict) : Option PyStr :=
  (levelText d).map fun level =>
    match d.get? (pyStr "traceback") with
    | some tb =>
      if truthyValue tb=true then headText tables d level ++ (pyStr "\n" ++ strValue tables tb) else headText tables d level
    | none => headText tables d level

/-- `_emit` behind the threshold: the line, none where nothing is written. -/
def emit (minLevel : ℕ) (event : Event) : Option PyStr :=
  if event.level.order < minLevel then none
  else do
    let d ← excProcessor event.exc (callerInfoProcessor around (threadInfoProcessor around (timeStamper around event.dict)))
    let d ← formatExcInfo around d
    render tables (scrubProcessor tables d)

end Processors

end GenericMlCache.LogScrubbing
