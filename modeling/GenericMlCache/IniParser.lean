import GenericMlCache.TextReading
import GenericMlCache.MlExecutionCommands

/-!
# Configuration files in INI format

`configparser.ConfigParser` with its default settings: the lines of a file read
into sections of options, the `[DEFAULT]` section behind every other, and the
interpolation of `%(name)s` references, which runs when a value is asked for and
not when the file is read.
-/

namespace GenericMlCache.IniParser

open PythonText TextReading MlExecutionCommands

/-- `str.rstrip()`. -/
def rstrip (text : PyStr) : PyStr := (text.reverse.dropWhile isSpace).reverse

/-- The lines a file opened as text gives, without their ends. -/
def fileLines (text : PyStr) : List PyStr :=
  let lines := (translateNewlines text).splitOn 0x0A
  if lines.getLast?=some [] then lines.dropLast else lines

/-- `SECTCRE`: the text between the bracket a line starts with and the last closing one. -/
def sectionHeader : PyStr → Option PyStr
  | [] => none
  | c::rest =>
    if c=0x5B then
      match rest.reverse.dropWhile fun d => d≠0x5D with
      | _::d::header => some (d::header).reverse
      | _ => none
    else none

/-- `OPTCRE`: the texts in front of the first `=` or `:` and behind it. -/
def optionLine (value : PyStr) : Option (PyStr × PyStr) :=
  match value.dropWhile fun c => c≠0x3D ∧ c≠0x3A with
  | _::optval => some (value.takeWhile (fun c => c≠0x3D ∧ c≠0x3A),optval)
  | [] => none

/-- The errors of `configparser.Error` that reading raises. -/
inductive ParserError where
  | missingSectionHeader (lineno : ℕ) (line : PyStr)
  | duplicateSection (sectname : PyStr) (lineno : ℕ)
  | duplicateOption (sectname optname : PyStr) (lineno : ℕ)
  /-- `ParsingError`, with the lines that are neither a header nor an option. -/
  | parsing (errors : List (ℕ × PyStr))

/-- The section whose options every other section has. -/
def defaultSection : PyStr := pyStr "DEFAULT"

/-- Names and values of a section's options, in order. -/
abbrev Options (Value : Type) := List (PyStr × Value)

/-- What `_read` holds between two lines. -/
structure ReadState where
  /-- The sections, with the lines of each value. -/
  sections : Options (Options (List PyStr)) := []
  /-- The options of `[DEFAULT]`, with the lines of each value. -/
  defaults : Options (List PyStr) := []
  /-- The section being read, none in front of the first header. -/
  sectname : Option PyStr := none
  /-- The option whose value the next line may continue. -/
  optname : PyStr := []
  /-- The indentation of the option being read. -/
  indentLevel : ℕ := 0
  /-- The lines of the pending `ParsingError`. -/
  errors : List (ℕ × PyStr) := []

/-- The options of a name. -/
def ReadState.options (s : ReadState) (sectname : PyStr) : Options (List PyStr) :=
  if sectname=defaultSection then s.defaults else (s.sections.lookup sectname).getD []

/-- A change of the current section's options. -/
def ReadState.update (s : ReadState) (f : Options (List PyStr) → Options (List PyStr)) : ReadState :=
  match s.sectname with
  | none => s
  | some sectname =>
    if sectname=defaultSection then { s with defaults := f s.defaults }
    else { s with sections := s.sections.map fun e => if e.1=sectname then (e.1,f e.2) else e }

/-- `cursect[optname].append(value)`. -/
def ReadState.append (s : ReadState) (value : PyStr) : ReadState :=
  s.update fun options => options.map fun e => if e.1=s.optname then (e.1,e.2 ++ [value]) else e

section Reading
variable (lower : PyStr → PyStr)

/-- A header or an option, at its own indentation. -/
def readEntry (s : ReadState) (lineno : ℕ) (line value : PyStr) : Except ParserError ReadState :=
  match sectionHeader value with
  | some header =>
    -- A section of this file is never reopened, but `[DEFAULT]` is.
    if header∈s.sections.map Prod.fst then .error (.duplicateSection header lineno)
    else if header=defaultSection then .ok { s with sectname := some header,optname := [] }
    else .ok { s with sections := s.sections ++ [(header,[])],sectname := some header,optname := [] }
  | none =>
    match s.sectname with
    | none => .error (.missingSectionHeader lineno line)
    | some sectname =>
      match optionLine value with
      | none => .ok { s with errors := s.errors ++ [(lineno,line)] }
      | some (option,optval) =>
        let errors := if option=[] then s.errors ++ [(lineno,line)] else s.errors
        let optname := lower (rstrip option)
        -- In a single read the elements added to a section are its options.
        if optname∈(s.options sectname).map Prod.fst then .error (.duplicateOption sectname optname lineno)
        else .ok ({ s with errors := errors,optname := optname }.update (· ++ [(optname,[strip optval])]))

/-- One line of `_read`. -/
def readLine (s : ReadState) (lineno : ℕ) (line : PyStr) : Except ParserError ReadState :=
  let comment := (strip line).head?=some 0x23 || (strip line).head?=some 0x3B
  let value := if comment=true then [] else strip line
  if value=[] then
    .ok (if comment=false ∧ s.sectname.isSome=true ∧ s.optname≠[] then s.append [] else s)
  else
    let indentLevel := (line.takeWhile isSpace).length
    if s.sectname.isSome=true ∧ s.optname≠[] ∧ s.indentLevel < indentLevel then .ok (s.append value)
    else readEntry lower { s with indentLevel := indentLevel } lineno line value

/-- The lines of `_read`, numbered from the given one. -/
def readLines : ReadState → ℕ → List PyStr → Except ParserError ReadState
  | s,_,[] => .ok s
  | s,lineno,line::rest => do
    let s ← readLine lower s lineno line
    readLines s (lineno+1) rest

/-- A file that was read. -/
structure Parser where
  /-- The sections, with their options. -/
  sections : Options (Options PyStr)
  /-- The options of `[DEFAULT]`. -/
  defaults : Options PyStr

/-- `_join_multiline_values` of one section. -/
def joinValues (options : Options (List PyStr)) : Options PyStr :=
  options.map fun e => (e.1,rstrip (joinText [0x0A] e.2))

/-- `parser.read` of a file with the given text. -/
def readConfig (text : PyStr) : Except ParserError Parser := do
  let s ← readLines lower {} 1 (fileLines text)
  if s.errors=[] then .ok ⟨s.sections.map fun e => (e.1,joinValues e.2),joinValues s.defaults⟩
  else .error (.parsing s.errors)

end Reading

/-- What a value consists of for the interpolation. -/
inductive Piece where
  | char (c : Fin 0x110000)
  /-- `%(name)s`. -/
  | reference (name : PyStr)
  /-- A `%` that nothing accepts. -/
  | bad
deriving DecidableEq

/-- The pieces of a text. Inside a reference the name so far is held in reverse.
Nothing is read behind a bad piece. -/
def pieces : Option PyStr → PyStr → List Piece
  | none,[] => []
  | some _,[] => [.bad]
  | none,c::rest =>
    if c≠0x25 then .char c::pieces none rest
    else match rest with
      | [] => [.bad]
      | d::rest =>
        if d=0x25 then .char 0x25::pieces none rest
        else if d=0x28 then pieces (some []) rest
        else [.bad]
  | some name,c::rest =>
    if c≠0x29 then pieces (some (c::name)) rest
    else match rest with
      | [] => [.bad]
      | d::rest => if name≠[] ∧ d=0x73 then .reference name.reverse::pieces none rest else [.bad]

/-- The errors of `configparser.Error` that reading a value raises. -/
inductive InterpolationError where
  | badSyntax
  | missingOption (reference : PyStr)
  | depth
deriving DecidableEq

section Values
variable (lower : PyStr → PyStr)

/-- `_interpolate_some`, with the number of levels that are left. -/
def interpolate (map : PyStr → Option PyStr) : ℕ → PyStr → Except InterpolationError PyStr
  | 0,_ => .error .depth
  | levels+1,text => do
    let texts ← (pieces none text).mapM fun
      | .char c => .ok [c]
      | .bad => .error .badSyntax
      | .reference name =>
        match map (lower name) with
        | none => .error (.missingOption (lower name))
        | some v => if 0x25∈v then interpolate map levels v else .ok v
    return texts.flatten

/-- `MAX_INTERPOLATION_DEPTH`. -/
def maxInterpolationDepth : ℕ := 10

namespace Parser
variable (parser : Parser)

/-- `parser.has_section(name)`. -/
def hasSection (sectname : PyStr) : Bool := (parser.sections.lookup sectname).isSome

/-- `_unify_values`: a section's options in front of the defaults. -/
def lookup (sectname key : PyStr) : Option PyStr :=
  (((parser.sections.lookup sectname).getD []).lookup key).or (parser.defaults.lookup key)

/-- `parser[name].get(option)`. -/
def get (sectname option : PyStr) : Except InterpolationError (Option PyStr) :=
  match parser.lookup sectname (lower option) with
  | none => .ok none
  | some value => (interpolate lower (parser.lookup sectname) maxInterpolationDepth value).map some

/-- `parser.options(name)`. -/
def options (sectname : PyStr) : List PyStr :=
  let own := ((parser.sections.lookup sectname).getD []).map Prod.fst
  own ++ (parser.defaults.map Prod.fst).filter fun key => key∉own

end Parser

end Values

end GenericMlCache.IniParser
