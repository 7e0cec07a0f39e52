import GenericMlCache.ExecutionModel

/-!
# JSON texts

What `json.dumps` writes with its defaults, and the scanner of `json.loads` down
to what it does with escapes, surrogate pairs, long integers, repeated keys and
the three words for floats that JSON does not have. A float's decimal text is the
standard library's. A value nests to any depth: the interpreter's recursion limit
is left out here.
-/

namespace GenericMlCache.JsonText

open PythonText ExecutionModel

/-- What `json.loads` raises. The first two are the subclasses of ValueError that
the callers name; an integer literal of too many digits raises ValueError itself. -/
inductive LoadsError where
  | jsonDecodeError
  | unicodeDecodeError
  | valueError (message : PyStr)
  | recursionError (message : PyStr)

/-- `d.get(key)` of a dict's items. -/
def getItem (fields : List (PyStr × Json)) (key : String) : Option Json :=
  (fields.find? fun e => e.1=pyStr key).map Prod.snd

/-- `d[key] = value`. -/
def setItem (fields : List (PyStr × Json)) (e : PyStr × Json) : List (PyStr × Json) :=
  if e.1∈fields.map Prod.fst then fields.map fun f => if f.1=e.1 then (f.1,e.2) else f
  else fields ++ [e]

/-- `sys.get_int_max_str_digits()`, at its default. -/
def intMaxStrDigits : ℕ := 4300

/-- One UTF-16 unit as `json.dumps` escapes it. -/
def escapeUnit (unit : ℕ) : PyStr :=
  let digits := pyStr (String.ofList (Nat.toDigits 16 unit))
  pyStr "\\u" ++ List.replicate (4-digits.length) 0x30 ++ digits

/-- One code point in an ASCII JSON string. -/
def escapeCodePoint (c : Fin 0x110000) : PyStr :=
  match c.val with
  | 0x22 => pyStr "\\\""
  | 0x5C => pyStr "\\\\"
  | 0x0A => pyStr "\\n"
  | 0x0D => pyStr "\\r"
  | 0x09 => pyStr "\\t"
  | 0x0C => pyStr "\\f"
  | 0x08 => pyStr "\\b"
  | n =>
    if 0x20 ≤ n ∧ n ≤ 0x7E then [c]
    else if n < 0x10000 then escapeUnit n
    else escapeUnit (0xD800+(n-0x10000)/0x400) ++ escapeUnit (0xDC00+(n-0x10000)%0x400)

/-- A JSON string. -/
def dumpsText (text : PyStr) : PyStr := pyStr "\"" ++ text.flatMap escapeCodePoint ++ pyStr "\""

/-- `json.dumps` of a list of texts. -/
def dumpsTexts (texts : List PyStr) : PyStr :=
  pyStr "[" ++ joinText (pyStr ", ") (texts.map fun text =>
    pyStr "\"" ++ text.flatMap escapeCodePoint ++ pyStr "\"") ++ pyStr "]"

/-- `int.__repr__`, where it has few enough digits. -/
def intText (n : ℤ) : PyStr :=
  (if n < 0 then [0x2D] else []) ++ pyStr (String.ofList (Nat.toDigits 10 n.natAbs))

/-- Whether `int.__repr__` succeeds. -/
def intPrintable (n : ℤ) : Bool := (Nat.toDigits 10 n.natAbs).length ≤ intMaxStrDigits

/-- The bits of `float("nan")`. -/
def nanBits : UInt64 := 0x7FF8000000000000

/-- The bits of `float("inf")`. -/
def infBits : UInt64 := 0x7FF0000000000000

/-- The bits of `float("-inf")`. -/
def negInfBits : UInt64 := 0xFFF0000000000000

/-- Whether the bits are those of a float that is neither infinite nor a NaN. -/
def isFinite (bits : UInt64) : Bool := (bits.toNat/2^52)%2^11≠2^11-1

section Dumps
variable (floatRepr : UInt64 → PyStr)

/-- How the encoder writes a float. -/
def floatText (bits : UInt64) : PyStr :=
  if isFinite bits=true then floatRepr bits
  else if bits=infBits then pyStr "Infinity"
  else if bits=negInfBits then pyStr "-Infinity"
  else pyStr "NaN"

mutual

/-- The text of a value whose integers are all printable. -/
def renderValue : Json → PyStr
  | .null => pyStr "null"
  | .bool true => pyStr "true"
  | .bool false => pyStr "false"
  | .int n => intText n
  | .float bits => floatText floatRepr bits
  | .str s => dumpsText s
  | .arr [] => pyStr "[]"
  | .arr (value::items) => pyStr "[" ++ renderValue value ++ renderItems items
  | .obj [] => pyStr "\x7b\x7d"
  | .obj ((key,value)::fields) =>
    pyStr "\x7b" ++ dumpsText key ++ pyStr ": " ++ renderValue value ++ renderFields fields

/-- The items after the first one, and the bracket. -/
def renderItems : List Json → PyStr
  | [] => pyStr "]"
  | value::items => pyStr ", " ++ renderValue value ++ renderItems items

/-- The members after the first one, and the brace. -/
def renderFields : List (PyStr × Json) → PyStr
  | [] => pyStr "\x7d"
  | (key,value)::fields =>
    pyStr ", " ++ dumpsText key ++ pyStr ": " ++ renderValue value ++ renderFields fields

end

end Dumps

mutual

/-- Whether a value and all values inside it have a property. -/
def every (p : Json → Bool) : Json → Bool
  | .arr items => p (.arr items) && everyItem p items
  | .obj fields => p (.obj fields) && everyField p fields
  | value => p value

/-- The same of a list's items. -/
def everyItem (p : Json → Bool) : List Json → Bool
  | [] => true
  | value::items => every p value && everyItem p items

/-- The same of a dict's values. -/
def everyField (p : Json → Bool) : List (PyStr × Json) → Bool
  | [] => true
  | (_,value)::fields => every p value && everyField p fields

end

/-- Every item on its own. -/
theorem everyItem_eq_all (p : Json → Bool) (items : List Json) : everyItem p items=items.all (every p) := by
  induction items with
  | nil => rfl
  | cons item items ih => rw [everyItem,ih,List.all_cons]

/-- Every member on its own. -/
theorem everyField_eq_all (p : Json → Bool) (fields : List (PyStr × Json)) :
    everyField p fields=fields.all fun e => every p e.2 := by
  induction fields with
  | nil => rfl
  | cons e fields ih => rw [everyField,ih,List.all_cons]

/-- Whether every integer of a value is printable. -/
def printable : Json → Bool := every fun value =>
  match value with
  | .int n => intPrintable n
  | _ => true

/-- The ValueError of an integer that has too many digits to print. -/
def unprintableInt : PyExc :=
  .other true (pyStr ("Exceeds the limit (4300 digits) for integer string conversion; " ++
    "use sys.set_int_max_str_digits() to increase the limit"))

/-- `json.dumps`. The first integer that has too many digits ends it. -/
def dumps (floatRepr : UInt64 → PyStr) (value : Json) : Except PyExc PyStr :=
  if printable value=true then .ok (renderValue floatRepr value) else .error unprintableInt

/-- What was read, and the text behind it. -/
abbrev Scan (α : Type) := Except LoadsError (α × PyStr)

/-- Puts an item in front of those that were read. -/
def consScan {α : Type} (item : α) (scan : Scan (List α)) : Scan (List α) :=
  scan.map fun r => (item::r.1,r.2)

/-- Reads on behind what was read. -/
def scanThen {α β : Type} (scan : Scan α) (next : α → PyStr → Scan β) : Scan β :=
  scan.bind fun r => next r.1 r.2

/-- The whitespace of JSON. -/
def isJsonSpace (c : Fin 0x110000) : Bool := [0x20,0x09,0x0A,0x0D].contains c.val

/-- The text behind its leading whitespace. -/
def skipSpace (text : PyStr) : PyStr := text.dropWhile isJsonSpace

/-- The text behind a word that it has to start with. -/
def expect (word text : PyStr) : Option PyStr :=
  if word.isPrefixOf text=true then some (text.drop word.length) else none

/-- What a two-character escape stands for. -/
def shortEscape (c : Fin 0x110000) : Option (Fin 0x110000) :=
  match c.val with
  | 0x22 | 0x5C | 0x2F => some c
  | 0x62 => some 0x08
  | 0x66 => some 0x0C
  | 0x6E => some 0x0A
  | 0x72 => some 0x0D
  | 0x74 => some 0x09
  | _ => none

/-- The value of a hexadecimal digit. -/
def hexDigit (c : Fin 0x110000) : Option ℕ :=
  if 0x30 ≤ c.val ∧ c.val ≤ 0x39 then some (c.val-0x30)
  else if 0x61 ≤ c.val ∧ c.val ≤ 0x66 then some (c.val-0x57)
  else if 0x41 ≤ c.val ∧ c.val ≤ 0x46 then some (c.val-0x37)
  else none

/-- The unit that four hexadecimal digits write. -/
def hexUnit (a b c d : Fin 0x110000) : Option (Fin 0x110000) := do
  let a ← hexDigit a
  let b ← hexDigit b
  let c ← hexDigit c
  let d ← hexDigit d
  return Fin.ofNat 0x110000 (((a*16+b)*16+c)*16+d)

/-- One unit of a string literal, and whether a `\u` escape wrote it. -/
abbrev LiteralUnit := Fin 0x110000 × Bool

/-- The units of a string literal, up to its closing quote. A control character
ends the scan, as the decoder is strict. -/
def literalUnits : PyStr → Scan (List LiteralUnit)
  | [] => .error .jsonDecodeError
  | c::rest =>
    if c=0x22 then .ok ([],rest)
    else if c=0x5C then
      match rest with
      | [] => .error .jsonDecodeError
      | e::tail =>
        if e=0x75 then
          match tail with
          | h₁::h₂::h₃::h₄::behind =>
            match hexUnit h₁ h₂ h₃ h₄ with
            | some unit => consScan (unit,true) (literalUnits behind)
            | none => .error .jsonDecodeError
          | _ => .error .jsonDecodeError
        else
          match shortEscape e with
          | some d => consScan (d,false) (literalUnits tail)
          | none => .error .jsonDecodeError
    else if c.val < 0x20 then .error .jsonDecodeError
    else consScan (c,false) (literalUnits rest)

/-- A unit that opens a surrogate pair. -/
def isHighSurrogate (c : Fin 0x110000) : Bool := 0xD800 ≤ c.val && c.val ≤ 0xDBFF

/-- A unit that closes a surrogate pair. -/
def isLowSurrogate (c : Fin 0x110000) : Bool := 0xDC00 ≤ c.val && c.val ≤ 0xDFFF

/-- `Py_UNICODE_JOIN_SURROGATES`. -/
def joinPair (high low : Fin 0x110000) : Fin 0x110000 :=
  Fin.ofNat 0x110000 (0x10000+(high.val-0xD800)*0x400+(low.val-0xDC00))

/-- Whether two units next to each other are one code point: both are escapes. -/
def isPair (high low : LiteralUnit) : Bool :=
  high.2 && low.2 && isHighSurrogate high.1 && isLowSurrogate low.1

/-- The code points that units write. -/
def joinSurrogates : List LiteralUnit → PyStr
  | [] => []
  | unit::rest =>
    match rest with
    | [] => [unit.1]
    | low::tail =>
      if isPair unit low=true then joinPair unit.1 low.1::joinSurrogates tail
      else unit.1::joinSurrogates (low::tail)

/-- `scanstring`, behind the opening quote. -/
def scanString (text : PyStr) : Scan PyStr := (literalUnits text).map fun r => (joinSurrogates r.1,r.2)

/-- A decimal digit of a number. -/
def isDigit (c : Fin 0x110000) : Bool := 0x30 ≤ c.val && c.val ≤ 0x39

/-- The digits a text starts with, and what is behind them. -/
def spanDigits (text : PyStr) : PyStr × PyStr := (text.takeWhile isDigit,text.dropWhile isDigit)

/-- The sign of a number. -/
def numberSign : PyStr → PyStr × PyStr
  | [] => ([],[])
  | c::rest => if c=0x2D then ([c],rest) else ([],c::rest)

/-- `0|[1-9][0-9]*`. -/
def numberWhole : PyStr → Option (PyStr × PyStr)
  | [] => none
  | c::rest =>
    if c=0x30 then some ([c],rest)
    else if isDigit c=true then some (spanDigits (c::rest))
    else none

/-- `(\.[0-9]+)?`. -/
def numberFraction : PyStr → PyStr × PyStr
  | [] => ([],[])
  | c::rest =>
    if c=0x2E ∧ (spanDigits rest).1≠[] then (c::(spanDigits rest).1,(spanDigits rest).2)
    else ([],c::rest)

/-- The sign of an exponent. -/
def exponentSign : PyStr → PyStr × PyStr
  | [] => ([],[])
  | c::rest => if c=0x2B ∨ c=0x2D then ([c],rest) else ([],c::rest)

/-- `([eE][-+]?[0-9]+)?`. -/
def numberExponent : PyStr → PyStr × PyStr
  | [] => ([],[])
  | c::rest =>
    let sign := exponentSign rest
    let digits := spanDigits sign.2
    if (c=0x65 ∨ c=0x45) ∧ digits.1≠[] then (c::(sign.1++digits.1),digits.2) else ([],c::rest)

/-- The natural number that decimal digits write. -/
def digitsValue (digits : PyStr) : ℕ := digits.foldl (fun n c => 10*n+(c.val-0x30)) 0

/-- `int(text)` of a sign and digits. Without a limit, as `sys.set_int_max_str_digits(0)`
leaves it, every integer is read. -/
def intOfDigits (limit : Option ℕ) (sign digits : PyStr) : Except LoadsError Json :=
  if ∀ maximum ∈ limit,digits.length ≤ maximum then
    .ok (.int (if sign=[] then (digitsValue digits : ℤ) else -(digitsValue digits : ℤ)))
  else .error (.valueError (pyStr (s!"Exceeds the limit (4300 digits) for integer string conversion: " ++
    s!"value has {digits.length} digits; use sys.set_int_max_str_digits() to increase the limit")))

section Loads
variable (limit : Option ℕ) (parseFloat : PyStr → UInt64)

/-- `_match_number`: a text without fraction and exponent is an integer. -/
def matchNumber (text : PyStr) : Scan Json :=
  let sign := numberSign text
  match numberWhole sign.2 with
  | none => .error .jsonDecodeError
  | some whole =>
    let fraction := numberFraction whole.2
    let exponent := numberExponent fraction.2
    if fraction.1=[] ∧ exponent.1=[] then (intOfDigits limit sign.1 whole.1).map fun n => (n,whole.2)
    else .ok (.float (parseFloat (sign.1++whole.1++fraction.1++exponent.1)),exponent.2)

/-- The words of the scanner and what they stand for. -/
def words : List (PyStr × Json) :=
  [(pyStr "null",.null),(pyStr "true",.bool true),(pyStr "false",.bool false),(pyStr "NaN",.float nanBits),
    (pyStr "Infinity",.float infBits),(pyStr "-Infinity",.float negInfBits)]

/-- A word, or a number. -/
def scanScalar (text : PyStr) : Scan Json :=
  match words.findSome? fun w => (expect w.1 text).map fun rest => (w.2,rest) with
  | some r => .ok r
  | none => matchNumber limit parseFloat text

mutual

/-- `scan_once`. At least every second call reads a character, so twice the length
of the text and one more is enough fuel. -/
def scanOnce : ℕ → PyStr → Scan Json
  | 0,_ => .error .jsonDecodeError
  | _+1,[] => .error .jsonDecodeError
  | fuel+1,c::rest =>
    if c=0x22 then (scanString rest).map fun r => (.str r.1,r.2)
    else if c=0x7B then
      match expect (pyStr "\x7d") (skipSpace rest) with
      | some rest => .ok (.obj [],rest)
      | none => (scanMembers fuel (skipSpace rest)).map fun r => (.obj (r.1.foldl setItem []),r.2)
    else if c=0x5B then
      match expect (pyStr "]") (skipSpace rest) with
      | some rest => .ok (.arr [],rest)
      | none => (scanItems fuel (skipSpace rest)).map fun r => (.arr r.1,r.2)
    else scanScalar limit parseFloat (c::rest)

/-- The loop of `_parse_array`, from an item on. -/
def scanItems : ℕ → PyStr → Scan (List Json)
  | 0,_ => .error .jsonDecodeError
  | fuel+1,text => scanThen (scanOnce fuel text) fun value rest =>
    match expect (pyStr "]") (skipSpace rest) with
    | some rest => .ok ([value],rest)
    | none =>
      match expect (pyStr ",") (skipSpace rest) with
      | some rest => consScan value (scanItems fuel (skipSpace rest))
      | none => .error .jsonDecodeError

/-- The loop of `_parse_object`, from a key on. -/
def scanMembers : ℕ → PyStr → Scan (List (PyStr × Json))
  | 0,_ => .error .jsonDecodeError
  | fuel+1,text =>
    match expect (pyStr "\"") text with
    | none => .error .jsonDecodeError
    | some rest => scanThen (scanString rest) fun key rest =>
      match expect (pyStr ":") (skipSpace rest) with
      | none => .error .jsonDecodeError
      | some rest => scanThen (scanOnce fuel (skipSpace rest)) fun value rest =>
        match expect (pyStr "\x7d") (skipSpace rest) with
        | some rest => .ok ([(key,value)],rest)
        | none =>
          match expect (pyStr ",") (skipSpace rest) with
          | some rest => consScan (key,value) (scanMembers fuel (skipSpace rest))
          | none => .error .jsonDecodeError

end

/-- `json.loads` of a text, under a limit of digits. -/
def loadsWithin (text : PyStr) : Except LoadsError Json :=
  if (expect [0xFEFF] text).isSome=true then .error .jsonDecodeError
  else
    match scanOnce limit parseFloat (2*text.length+1) (skipSpace text) with
    | .ok (value,rest) => if skipSpace rest=[] then .ok value else .error .jsonDecodeError
    | .error e => .error e

/-- `json.loads` of a text. -/
abbrev loads : PyStr → Except LoadsError Json := loadsWithin (some intMaxStrDigits) parseFloat

end Loads

end GenericMlCache.JsonText
