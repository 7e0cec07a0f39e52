import GenericMlCache.IniParser

/-!
# The configuration file, loaded and validated

`config.load` turns the file into settings and `config.validate` lists what is
wrong with it. The two read the same keys, each in its own way.
-/

namespace GenericMlCache.ConfigFile

open PythonText MlExecutionCommands IniParser

/-- `[0-9]`. -/
def isDigit (c : Fin 0x110000) : Bool := 0x30 ≤ c.val && c.val ≤ 0x39

/-- `[a-z]`. -/
def isLetter (c : Fin 0x110000) : Bool := 0x61 ≤ c.val && c.val ≤ 0x7A

/-- `re.fullmatch(r"([0-9]+(?:\.[0-9]+)?)([a-z]*)", text)`: the two groups. -/
def matchUnits (text : PyStr) : Option (PyStr × PyStr) :=
  let units (number unit : PyStr) := if unit.all isLetter=true then some (number,unit) else none
  let whole := text.takeWhile isDigit
  if whole=[] then none
  else match text.dropWhile isDigit with
    | [] => some (whole,[])
    | c::tail =>
      if c=0x2E then
        let fraction := tail.takeWhile isDigit
        if fraction=[] then none else units (whole ++ c::fraction) (tail.dropWhile isDigit)
      else units whole (c::tail)

/-- The text and number functions of Python that the settings are parsed with. -/
structure Builtins where
  /-- `str.lower()`. -/
  lower : PyStr → PyStr
  /-- `str.upper()`. -/
  upper : PyStr → PyStr
  /-- `repr(text)`. -/
  repr : PyStr → PyStr
  /-- `str(exc)`. -/
  errorText : ParserError → PyStr
  /-- Its floats. -/
  Float : Type
  /-- `float(text)`, none where it raises ValueError. -/
  float : PyStr → Option Float
  /-- The product with an int. -/
  times : Float → ℕ → Float
  /-- `int(x)`, none where it raises OverflowError. -/
  toInt : Float → Option ℤ
  /-- The empty text is its own lower case. -/
  lower_nil : lower []=[]
  /-- No number is empty. -/
  float_nil : float []=none
  /-- Decimal digits are a number. -/
  float_digits : ∀ text number unit,matchUnits text=some (number,unit) → float number≠none

/-- The exceptions of a command that reads its settings. -/
inductive ConfigExc where
  | configError (message : PyStr)
  | interpolationError (error : InterpolationError)
  | keyError (key : PyStr)
  | valueError
  | overflowError

/-- `SECTION`. -/
def defaultsSection : PyStr := pyStr "defaults"

/-- `EXECUTABLES_SECTION`. -/
def executablesSection : PyStr := pyStr "executables"

/-- `_MODES`, sorted. -/
def modes : List PyStr := [pyStr "cache",pyStr "offline",pyStr "refresh"]

/-- `_DEPTHS`, sorted. -/
def depths : List PyStr := [pyStr "cache",pyStr "dataset",pyStr "meter"]

/-- `_LOG_LEVELS`, sorted. -/
def logLevels : List PyStr := [pyStr "DEBUG",pyStr "ERROR",pyStr "INFO",pyStr "WARN"]

/-- `_TRUE` and `_FALSE`. -/
def booleans : List (PyStr × Bool) :=
  [(pyStr "true",true),(pyStr "1",true),(pyStr "yes",true),(pyStr "on",true),
    (pyStr "false",false),(pyStr "0",false),(pyStr "no",false),(pyStr "off",false)]

/-- `_SIZE_UNITS`. -/
def sizeUnits : List (PyStr × ℕ) :=
  [(pyStr "b",1),(pyStr "gb",1024^3),(pyStr "kb",1024),(pyStr "mb",1024^2),(pyStr "tb",1024^4)]

/-- `_AGE_UNITS`. -/
def ageUnits : List (PyStr × ℕ) :=
  [(pyStr "d",86400),(pyStr "h",3600),(pyStr "m",60),(pyStr "s",1),(pyStr "w",604800)]

section Parsing
variable (b : Builtins)

/-- `sorted(…)` of some texts, as a message shows it. -/
def listText (texts : List PyStr) : PyStr :=
  pyStr "[" ++ joinText (pyStr ", ") (texts.map b.repr) ++ pyStr "]"

/-- `_parse_timeout`. -/
def parseTimeout (raw place : PyStr) : Except ConfigExc b.Float :=
  match b.float raw with
  | some seconds => .ok seconds
  | none => .error (.configError (pyStr "invalid timeout " ++ b.repr raw ++ pyStr " " ++ place ++ pyStr "; expected a number"))

/-- `_parse_bool`. -/
def parseBool (raw place : PyStr) : Except ConfigExc Bool :=
  match booleans.lookup (b.lower (strip raw)) with
  | some value => .ok value
  | none => .error (.configError
      (pyStr "invalid boolean " ++ b.repr raw ++ pyStr " " ++ place ++ pyStr "; expected true or false"))

/-- What `_parse_size` and `_parse_age` have in common: a number, and the factor of its unit. -/
def parseUnits (word hint unit : PyStr) (units : List (PyStr × ℕ)) (raw place : PyStr) :
    Except ConfigExc (b.Float × ℕ) :=
  match matchUnits ((b.lower (strip raw)).filter fun c => c≠0x20) with
  | none => .error (.configError
      (pyStr "invalid " ++ word ++ pyStr " " ++ b.repr raw ++ pyStr " " ++ place ++ pyStr "; e.g. " ++ hint))
  | some (number,given) =>
    let unit := if given=[] then unit else given
    match units.lookup unit with
    | none => .error (.configError (pyStr "invalid " ++ word ++ pyStr " unit " ++ b.repr unit ++ pyStr " " ++ place ++
        pyStr "; expected one of " ++ listText b (units.map Prod.fst)))
    | some factor =>
      match b.float number with
      | none => .error .valueError
      | some x => .ok (x,factor)

/-- `_parse_size`. -/
def parseSize (raw place : PyStr) : Except ConfigExc ℤ := do
  let (number,factor) ← parseUnits b (pyStr "size") (pyStr "5GB, 500MB, or a byte count") (pyStr "b") sizeUnits raw place
  match b.toInt (b.times number factor) with
  | none => .error .overflowError
  | some size => .ok size

/-- `_parse_age`. -/
def parseAge (raw place : PyStr) : Except ConfigExc b.Float := do
  let (number,factor) ← parseUnits b (pyStr "age") (pyStr "30d, 12h, 3600s") (pyStr "s") ageUnits raw place
  return b.times number factor

/-- `_parse_adapters`: none for the wildcard. -/
def parseAdapters (raw place : PyStr) : Except ConfigExc (Option (Finset PyStr)) :=
  let text := strip raw
  if text=pyStr "*" then .ok none
  else
    let names := ((text.splitOn 0x2C).map strip).filter fun name => name≠[]
    if names=[] then .error (.configError (pyStr "invalid adapters " ++ b.repr raw ++ pyStr " " ++ place ++
      pyStr "; expected '*' or a comma-separated list of names"))
    else .ok (some names.toFinset)

end Parsing

/-- `FileConfig`. -/
structure FileConfig (b : Builtins) where
  /-- `[defaults] mode`. -/
  mode : Option PyStr := none
  /-- `[defaults] persist`. -/
  persist : Option PyStr := none
  /-- `[defaults] store`. -/
  store : Option PyStr := none
  /-- `[defaults] timeout`, in seconds. -/
  timeout : Option b.Float := none
  /-- `[defaults] trust_scan`. -/
  trustScan : Option Bool := none
  /-- `[defaults] max_size`, in bytes. -/
  maxSize : Option ℤ := none
  /-- `[defaults] max_age`, in seconds. -/
  maxAge : Option b.Float := none
  /-- `[defaults] adapters`, where given. -/
  adapters : Option (Finset PyStr) := none
  /-- The executable of each client. -/
  executables : List (PyStr × PyStr) := []
  /-- The path of the file, where there was one. -/
  source : Option PyStr := none
  /-- `[defaults] log_level`, in upper case. -/
  logLevel : Option PyStr := none
  /-- `[defaults] log_file`. -/
  logFile : Option PyStr := none
  /-- `[defaults] version`. -/
  version : Option PyStr := none

section Loading
variable (b : Builtins)

/-- A value of the `[defaults]` section, where the file has one. -/
def getDefault (parser : Parser) (key : String) : Except ConfigExc (Option PyStr) :=
  if parser.hasSection defaultsSection=true then
    (parser.get b.lower defaultsSection (pyStr key)).mapError .interpolationError
  else .ok none

/-- `raise ConfigError` for a value that is given and not allowed. -/
def checkChoice (word : String) (allowed : List PyStr) (f : PyStr → PyStr) (value : Option PyStr) (p : PyStr) :
    Except ConfigExc Unit :=
  match value with
  | none => .ok ()
  | some v =>
    if f v∈allowed then .ok ()
    else .error (.configError (pyStr "invalid " ++ pyStr word ++ pyStr " " ++ b.repr v ++ pyStr " in " ++ p ++
      pyStr "; expected one of " ++ listText b allowed))

/-- `parse(raw, where) if raw else None`. -/
def parseGiven {α : Type} (parse : PyStr → PyStr → Except ConfigExc α) (raw : Option PyStr) (p : PyStr) :
    Except ConfigExc (Option α) :=
  match raw with
  | none => .ok none
  | some raw => if raw=[] then .ok none else (parse raw (pyStr "in " ++ p)).map some

/-- `_parse_adapters(raw, where) if raw is not None else None`. -/
def adaptersGiven (raw : Option PyStr) (p : PyStr) : Except ConfigExc (Option (Finset PyStr)) :=
  match raw with
  | none => .ok none
  | some raw => parseAdapters b raw (pyStr "in " ++ p)

/-- `parser[EXECUTABLES_SECTION].items()`, where the file has the section. -/
def executableItems (parser : Parser) : Except ConfigExc (List (PyStr × PyStr)) :=
  if parser.hasSection executablesSection=true then
    (parser.options executablesSection).mapM fun key =>
      match parser.get b.lower executablesSection key with
      | .error e => .error (.interpolationError e)
      | .ok none => .error (.keyError key)
      | .ok (some value) => .ok (key,value)
  else .ok []

/-- `load` behind the parser. -/
def loadSettings (p : PyStr) (parser : Parser) : Except ConfigExc (FileConfig b) := do
  let mode ← getDefault b parser "mode"
  checkChoice b "mode" modes id mode p
  let persist ← getDefault b parser "persist"
  checkChoice b "persist" depths id persist p
  let timeoutRaw ← getDefault b parser "timeout"
  let timeout ← parseGiven (parseTimeout b) timeoutRaw p
  let trustScanRaw ← getDefault b parser "trust_scan"
  let trustScan ← parseGiven (parseBool b) trustScanRaw p
  let maxSizeRaw ← getDefault b parser "max_size"
  let maxSize ← parseGiven (parseSize b) maxSizeRaw p
  let maxAgeRaw ← getDefault b parser "max_age"
  let maxAge ← parseGiven (parseAge b) maxAgeRaw p
  let adaptersRaw ← getDefault b parser "adapters"
  let adapters ← adaptersGiven b adaptersRaw p
  let logLevel ← getDefault b parser "log_level"
  checkChoice b "log_level" logLevels b.upper logLevel p
  let logFile ← getDefault b parser "log_file"
  let executables ← executableItems b parser
  let store ← getDefault b parser "store"
  let version ← getDefault b parser "version"
  return { mode := mode,persist := persist,store := store,timeout := timeout,trustScan := trustScan,
           maxSize := maxSize,maxAge := maxAge,adapters := adapters,executables := executables,source := some p,
           logLevel := logLevel.map b.upper,logFile := logFile,version := version }

/-- `load` of a path, with the text of the file there, none where there is no file. -/
def load (p : PyStr) (file : Option PyStr) : Except ConfigExc (FileConfig b) :=
  match file with
  | none => .ok {}
  | some text =>
    match readConfig b.lower text with
    | .error e => .error (.configError (pyStr "could not parse config at " ++ p ++ pyStr ": " ++ b.errorText e))
    | .ok parser => loadSettings b p parser

end Loading

/-- How serious a finding is. -/
inductive Severity where
  | error | warning
deriving DecidableEq

/-- `ConfigIssue`. -/
structure ConfigIssue where
  /-- An error or a warning. -/
  severity : Severity
  /-- The setting it is about, if one. -/
  key : Option PyStr
  /-- What it says. -/
  message : PyStr
deriving DecidableEq

section Validating
variable (b : Builtins) (parser : Parser)

/-- `_KNOWN_DEFAULTS_KEYS`. -/
def knownDefaultsKeys : List String :=
  ["mode","persist","store","timeout","trust_scan","max_size","max_age","adapters","log_level","log_file","version"]

/-- A value of the `[defaults]` section. -/
def sectionValue (key : String) : Except ConfigExc (Option PyStr) :=
  (parser.get b.lower defaultsSection (pyStr key)).mapError .interpolationError

/-- The finding on a key whose value is given and not allowed. -/
def choiceIssues (key : String) (allowed : List PyStr) (f : PyStr → PyStr) (value : Option PyStr) :
    List ConfigIssue :=
  match value with
  | none => []
  | some v =>
    if f v∈allowed then []
    else [⟨.error,some (pyStr key),pyStr "invalid value " ++ b.repr v ++ pyStr "; expected one of " ++ listText b allowed⟩]

/-- The finding on the version. -/
def versionIssues (value : Option PyStr) : List ConfigIssue :=
  match value with
  | none => []
  | some v =>
    if strip v=pyStr "1" then []
    else [⟨.warning,some (pyStr "version"),pyStr "config schema version " ++ b.repr v ++ pyStr " does not match " ++
      pyStr "the current schema version " ++ b.repr (pyStr "1") ++ pyStr "; the file may be stale"⟩]

/-- `_check_enum_keys`. -/
def checkEnumKeys : Except ConfigExc (List ConfigIssue) := do
  let mode ← sectionValue b parser "mode"
  let persist ← sectionValue b parser "persist"
  let logLevel ← sectionValue b parser "log_level"
  let version ← sectionValue b parser "version"
  return choiceIssues b "mode" modes id mode ++ choiceIssues b "persist" depths id persist ++
    choiceIssues b "log_level" logLevels b.upper logLevel ++ versionIssues b version

/-- The finding on a key that a parser reads; `message` is given what `ConfigError` says and the value. -/
def parsedIssues {α : Type} (key : String) (parse : PyStr → PyStr → Except ConfigExc α)
    (message : PyStr → PyStr → PyStr) : Except ConfigExc (List ConfigIssue) := do
  let raw ← sectionValue b parser key
  match raw with
  | none => .ok []
  | some raw =>
    match parse raw [] with
    | .ok _ => .ok []
    | .error (.configError text) => .ok [⟨.error,some (pyStr key),message text raw⟩]
    | .error e => .error e

/-- The finding on an unknown key. -/
def unknownKeyIssues (key : PyStr) : List ConfigIssue :=
  if key∈knownDefaultsKeys.map pyStr then []
  else [⟨.warning,some key,pyStr "unknown key " ++ b.repr key ++ pyStr " in [defaults] — will be ignored"⟩]

/-- `_validate_defaults_section`. -/
def validateDefaultsSection : Except ConfigExc (List ConfigIssue) := do
  let enums ← checkEnumKeys b parser
  let timeout ← parsedIssues b parser "timeout" (parseTimeout b) fun text _ => text
  let maxSize ← parsedIssues b parser "max_size" (parseSize b) fun text _ => text
  let maxAge ← parsedIssues b parser "max_age" (parseAge b) fun text _ => text
  let trustScan ← parsedIssues b parser "trust_scan" (parseBool b) fun _ raw =>
    pyStr "invalid boolean " ++ b.repr raw ++ pyStr "; expected true or false"
  return (parser.options defaultsSection).flatMap (unknownKeyIssues b) ++ enums ++ timeout ++ maxSize ++ maxAge ++ trustScan

/-- The finding on an unknown section. -/
def unknownSectionIssues (sect : PyStr) : List ConfigIssue :=
  if sect=defaultsSection ∨ sect=executablesSection then []
  else [⟨.warning,none,pyStr "unknown section [" ++ sect ++ pyStr "] — will be ignored"⟩]

/-- `validate` behind the parser. -/
def validateSections : Except ConfigExc (List ConfigIssue) :=
  let sections := (parser.sections.map Prod.fst).flatMap unknownSectionIssues
  if parser.hasSection defaultsSection=true then (validateDefaultsSection b parser).map (sections ++ ·)
  else .ok sections

/-- `validate` of the text of the file, none where there is no file. -/
def validate (file : Option PyStr) : Except ConfigExc (List ConfigIssue) :=
  match file with
  | none => .ok []
  | some text =>
    match readConfig b.lower text with
    | .error e => .ok [⟨.error,none,pyStr "cannot parse file: " ++ b.errorText e⟩]
    | .ok parser => validateSections b parser

end Validating

end GenericMlCache.ConfigFile
