import GenericMlCache.ConfigFile

/-!
# What validation says of loading

Both read the file with one parser and mostly the same keys. They part where a
value is empty, where `adapters` names nothing, where only one of them asks for
a value whose references do not resolve, and where an exception is not the one
that validation expects.
-/

namespace GenericMlCache.ConfigValidation

open PythonText ExecutionRepository IniParser ConfigFile

/-- An exception is raised. -/
def Fails {ε α : Type} (x : Except ε α) : Prop := ∃ e,x=.error e

instance {ε α : Type} (x : Except ε α) : Decidable (Fails x) :=
  match x with
  | .error e => isTrue ⟨e,rfl⟩
  | .ok _ => isFalse nofun

section Failing
variable {ε α β γ : Type} {e : ε} {x : Except ε α} {P : Prop}

@[simp] theorem fails_error : Fails (.error e : Except ε α) ↔ True := ⟨fun _ => trivial,fun _ => ⟨e,rfl⟩⟩

@[simp] theorem fails_ok (a : α) : Fails (.ok a : Except ε α) ↔ False := by
  simp [Fails]

@[simp] theorem fails_pure (a : α) : Fails (pure a : Except ε α) ↔ False := fails_ok a

@[simp] theorem fails_map (f : α → β) : Fails (x.map f) ↔ Fails x := by
  cases x <;> simp [Except.map]

@[simp] theorem fails_mapError {ε' : Type} (f : ε → ε') : Fails (x.mapError f) ↔ Fails x := by
  cases x <;> simp [Except.mapError]

/-- A step, and a rest that fails alike whatever the step gave. -/
theorem fails_step {rest : α → Except ε β} (h : ∀ a,Fails (rest a) ↔ P) :
    Fails (x >>= rest) ↔ Fails x ∨ P := by
  cases x with
  | error e => simp [bind,Except.bind]
  | ok a => simp [bind,Except.bind,h]

/-- A value, a check of it, and a rest that fails alike whatever the two gave. -/
theorem fails_checked {check : α → Except ε β} {rest : α → β → Except ε γ} (h : ∀ a c,Fails (rest a c) ↔ P) :
    Fails (x >>= fun a => check a >>= rest a) ↔ Fails x ∨ (∃ a,x=.ok a ∧ Fails (check a)) ∨ P := by
  cases x with
  | error e => simp [bind,Except.bind]
  | ok a =>
    have hrest := fails_step (x := check a) (h a)
    simpa [bind,Except.bind] using hrest

end Failing

section Conditions
variable (b : Builtins) (parser : Parser)

/-- The key has a value and its references resolve. -/
def Given (key : String) (raw : PyStr) : Prop := getDefault b parser key=.ok (some raw)

/-- The references of the key's value do not resolve. -/
def Unreadable (key : String) : Prop := Fails (getDefault b parser key)

/-- The keys of `[defaults]` that validation asks for. -/
def checkedKeys : List String :=
  ["mode","persist","log_level","version","timeout","max_size","max_age","trust_scan"]

/-- The keys of `[defaults]` that only loading asks for. -/
def uncheckedKeys : List String := ["store","adapters","log_file"]

/-- What the text of a number with a unit stands for. -/
def unitsOf (unit : PyStr) (units : List (PyStr × ℕ)) (raw : PyStr) : Option (b.Float × ℕ) := do
  let (number,given) ← matchUnits ((b.lower (MlExecutionCommands.strip raw)).filter fun c => c≠0x20)
  let factor ← units.lookup (if given=[] then unit else given)
  let x ← b.float number
  return (x,factor)

/-- The number of bytes of a size is no finite float. -/
def SizeOverflows (raw : PyStr) : Prop :=
  ∃ r,unitsOf b (pyStr "b") sizeUnits raw=some r ∧ b.toInt (b.times r.1 r.2)=none

/-- What each of the parsed keys makes of its value. -/
def Misread : List (String × (PyStr → Prop)) :=
  [("timeout",fun raw => Fails (parseTimeout b raw [])),("trust_scan",fun raw => Fails (parseBool b raw [])),
    ("max_size",fun raw => Fails (parseSize b raw [])),("max_age",fun raw => Fails (parseAge b raw []))]

/-- A value that both reject: one that is not among the allowed ones, or one that
is not empty and does not parse. -/
def Rejected : Prop :=
  (∃ mode,Given b parser "mode" mode ∧ mode∉modes) ∨ (∃ persist,Given b parser "persist" persist ∧ persist∉depths) ∨
    (∃ level,Given b parser "log_level" level ∧ b.upper level∉logLevels) ∨
    ∃ e∈Misread b,∃ raw,Given b parser e.1 raw ∧ raw≠[] ∧ e.2 raw

/-- A parsed key is given without a value. Loading skips it, validation does not. -/
def EmptyValue : Prop := ∃ e∈Misread b,Given b parser e.1 []

/-- `adapters` is given and names nothing. Only loading looks at it. -/
def NoAdapters : Prop := ∃ raw,Given b parser "adapters" raw ∧ Fails (parseAdapters b raw [])

/-- Only loading asks for a value whose references do not resolve. -/
def UncheckedUnreadable : Prop :=
  (∃ key∈uncheckedKeys,Unreadable b parser key) ∨ Fails (executableItems b parser)

/-- Validation raises: a value that it asks for has references that do not
resolve, or a size is no finite number of bytes. -/
def ValidationRaises : Prop :=
  (∃ key∈checkedKeys,Unreadable b parser key) ∨ ∃ raw,Given b parser "max_size" raw ∧ SizeOverflows b raw

/-- The file does not parse, or validation does not raise and finds an error
where loading does: a value that both reject, or the findings that are only
one's own, both or neither. -/
def Predictable (file : Option PyStr) : Prop :=
  ∀ text parser,file=some text → readConfig b.lower text=.ok parser →
    ¬ValidationRaises b parser ∧
      (Rejected b parser ∨ (EmptyValue b parser ↔ NoAdapters b parser ∨ UncheckedUnreadable b parser))

end Conditions

/-- An exception other than `ConfigError` is raised. -/
def Escapes {α : Type} (x : Except ConfigExc α) : Prop := ∃ e,x=.error e ∧ ∀ message,e≠.configError message

section Parsers
variable {b : Builtins} {raw place : PyStr}

/-- A timeout fails alike wherever it stands, and with `ConfigError`. -/
theorem fails_parseTimeout : Fails (parseTimeout b raw place) ↔ b.float raw=none := by
  unfold parseTimeout
  cases b.float raw <;> simp

theorem not_escapes_parseTimeout : ¬Escapes (parseTimeout b raw place) := by
  unfold parseTimeout Escapes
  cases b.float raw <;> simp

/-- A boolean fails alike wherever it stands, and with `ConfigError`. -/
theorem fails_parseBool :
    Fails (parseBool b raw place) ↔ booleans.lookup (b.lower (MlExecutionCommands.strip raw))=none := by
  unfold parseBool
  cases booleans.lookup (b.lower (MlExecutionCommands.strip raw)) <;> simp

theorem not_escapes_parseBool : ¬Escapes (parseBool b raw place) := by
  unfold parseBool Escapes
  cases booleans.lookup (b.lower (MlExecutionCommands.strip raw)) <;> simp

/-- The adapters fail alike wherever they stand. -/
theorem fails_parseAdapters (place : PyStr) : Fails (parseAdapters b raw place) ↔ Fails (parseAdapters b raw []) := by
  unfold parseAdapters
  dsimp only
  split
  · simp
  · split <;> simp

/-- A number with a unit is read alike wherever it stands, and fails with `ConfigError`. -/
theorem parseUnits_cases (raw place : PyStr) (word hint unit : PyStr) (units : List (PyStr × ℕ)) :
    (∃ message,unitsOf b unit units raw=none ∧ parseUnits b word hint unit units raw place=.error (.configError message)) ∨
      ∃ r,unitsOf b unit units raw=some r ∧ parseUnits b word hint unit units raw place=.ok r := by
  unfold unitsOf parseUnits
  cases hmatch : matchUnits ((b.lower (MlExecutionCommands.strip raw)).filter fun c => c≠0x20) with
  | none => exact Or.inl ⟨_,rfl,rfl⟩
  | some groups =>
    obtain ⟨number,given⟩ := groups
    dsimp only [bind,Option.bind]
    cases units.lookup (if given=[] then unit else given) with
    | none => exact Or.inl ⟨_,rfl,rfl⟩
    | some factor =>
      cases hfloat : b.float number with
      | none => exact absurd hfloat (b.float_digits _ _ _ hmatch)
      | some x => exact Or.inr ⟨(x,factor),rfl,rfl⟩

/-- An age fails where its text stands for nothing, and with `ConfigError`. -/
theorem fails_parseAge : Fails (parseAge b raw place) ↔ unitsOf b (pyStr "s") ageUnits raw=none := by
  unfold parseAge
  rcases parseUnits_cases (b := b) raw place (pyStr "age") (pyStr "30d, 12h, 3600s") (pyStr "s") ageUnits
    with ⟨message,hnone,herror⟩ | ⟨r,hsome,hok⟩
  · rw [herror,hnone]
    simp [bind,Except.bind]
  · rw [hok,hsome]
    simp [bind,Except.bind]

theorem not_escapes_parseAge : ¬Escapes (parseAge b raw place) := by
  unfold parseAge Escapes
  rcases parseUnits_cases (b := b) raw place (pyStr "age") (pyStr "30d, 12h, 3600s") (pyStr "s") ageUnits
    with ⟨message,_,herror⟩ | ⟨r,_,hok⟩
  · rw [herror]
    simp [bind,Except.bind]
  · rw [hok]
    simp [bind,Except.bind,pure,Except.pure]

/-- A size fails where its text stands for nothing, or for no finite number of bytes. -/
theorem parseSize_cases (raw place : PyStr) :
    (∃ message,unitsOf b (pyStr "b") sizeUnits raw=none ∧ parseSize b raw place=.error (.configError message)) ∨
      ∃ r,unitsOf b (pyStr "b") sizeUnits raw=some r ∧
        (b.toInt (b.times r.1 r.2)=none ∧ parseSize b raw place=.error .overflowError ∨
          ∃ n,b.toInt (b.times r.1 r.2)=some n ∧ parseSize b raw place=.ok n) := by
  unfold parseSize
  rcases parseUnits_cases (b := b) raw place (pyStr "size") (pyStr "5GB, 500MB, or a byte count") (pyStr "b")
    sizeUnits with ⟨message,hnone,herror⟩ | ⟨r,hsome,hok⟩
  · exact Or.inl ⟨message,hnone,by rw [herror]; rfl⟩
  · refine Or.inr ⟨r,hsome,?_⟩
    rw [hok]
    cases hint : b.toInt (b.times r.1 r.2) with
    | none => exact Or.inl ⟨rfl,by simp [bind,Except.bind,hint]⟩
    | some n => exact Or.inr ⟨n,rfl,by simp [bind,Except.bind,hint]⟩

/-- A size fails alike wherever it stands. -/
theorem fails_parseSize : Fails (parseSize b raw place) ↔ Fails (parseSize b raw []) := by
  rcases parseSize_cases (b := b) raw place with ⟨m,hnone,h⟩ | ⟨r,hsome,hr⟩ <;>
    rcases parseSize_cases (b := b) raw [] with ⟨m',hnone',h'⟩ | ⟨r',hsome',hr'⟩
  · simp [h,h']
  · simp [hnone] at hsome'
  · simp [hsome] at hnone'
  · cases Option.some.inj (hsome.symm.trans hsome')
    rcases hr with ⟨hint,h⟩ | ⟨n,hint,h⟩ <;> rcases hr' with ⟨hint',h'⟩ | ⟨n',hint',h'⟩
    · simp [h,h']
    · simp [hint] at hint'
    · simp [hint] at hint'
    · simp [h,h']

/-- An exception other than `ConfigError` escapes where a size overflows. -/
theorem escapes_parseSize : Escapes (parseSize b raw place) ↔ SizeOverflows b raw := by
  unfold SizeOverflows
  rcases parseSize_cases (b := b) raw place with ⟨m,hnone,h⟩ | ⟨r,hsome,hr⟩
  · simp [Escapes,h,hnone]
  · rcases hr with ⟨hint,h⟩ | ⟨n,hint,h⟩
    · simp [Escapes,h,hsome,hint]
    · simp [Escapes,h,hsome,hint]

end Parsers

section Loading
variable {b : Builtins} {parser : Parser} {p : PyStr}

/-- A choice is rejected where it is given and not allowed. -/
theorem fails_checkChoice {word : String} {allowed : List PyStr} {f : PyStr → PyStr} {value : Option PyStr} :
    Fails (checkChoice b word allowed f value p) ↔ ∃ v,value=some v ∧ f v∉allowed := by
  unfold checkChoice
  cases value with
  | none => simp
  | some v => by_cases hv : f v∈allowed <;> simp [hv]

/-- A parsed value is rejected where it is given, not empty, and does not parse. -/
theorem fails_parseGiven {α : Type} {parse : PyStr → PyStr → Except ConfigExc α} {raw : Option PyStr}
    (hparse : ∀ raw place,Fails (parse raw place) ↔ Fails (parse raw [])) :
    Fails (parseGiven parse raw p) ↔ ∃ v,raw=some v ∧ v≠[] ∧ Fails (parse v []) := by
  unfold parseGiven
  cases raw with
  | none => simp
  | some v => by_cases hv : v=[] <;> simp [hv,hparse v (pyStr "in " ++ p)]

/-- The adapters are rejected where they are given and name nothing. -/
theorem fails_adaptersGiven {raw : Option PyStr} :
    Fails (adaptersGiven b raw p) ↔ ∃ v,raw=some v ∧ Fails (parseAdapters b v []) := by
  unfold adaptersGiven
  cases raw with
  | none => simp
  | some v => simp [fails_parseAdapters (pyStr "in " ++ p)]

/-- Loading fails where a value that it asks for cannot be read, or is rejected. -/
theorem fails_loadSettings (b : Builtins) (parser : Parser) (p : PyStr) : Fails (loadSettings b p parser) ↔
    (∃ key∈checkedKeys,Unreadable b parser key) ∨ Rejected b parser ∨ NoAdapters b parser ∨
      UncheckedUnreadable b parser := by
  unfold loadSettings
  refine Iff.trans (fails_checked fun _ _ => fails_checked fun _ _ => fails_checked fun _ _ => fails_checked fun _ _ =>
    fails_checked fun _ _ => fails_checked fun _ _ => fails_checked fun _ _ => fails_checked fun _ _ =>
    fails_step fun _ => fails_step fun _ => fails_step fun _ => fails_step fun _ => fails_pure _) ?_
  have hgiven (key : String) (Q : PyStr → Prop) :
      (∃ a,getDefault b parser key=.ok a ∧ ∃ v,a=some v ∧ Q v) ↔ ∃ v,Given b parser key v ∧ Q v := by
    simp only [Given]
    constructor
    · rintro ⟨_,ha,v,rfl,hv⟩
      exact ⟨v,ha,hv⟩
    · rintro ⟨v,ha,hv⟩
      exact ⟨_,ha,v,rfl,hv⟩
  have htimeout (raw place) : Fails (parseTimeout b raw place) ↔ Fails (parseTimeout b raw []) :=
    fails_parseTimeout.trans fails_parseTimeout.symm
  have hbool (raw place) : Fails (parseBool b raw place) ↔ Fails (parseBool b raw []) :=
    fails_parseBool.trans fails_parseBool.symm
  have hsize (raw place) : Fails (parseSize b raw place) ↔ Fails (parseSize b raw []) := fails_parseSize
  have hage (raw place) : Fails (parseAge b raw place) ↔ Fails (parseAge b raw []) :=
    fails_parseAge.trans fails_parseAge.symm
  simp only [fails_checkChoice,fails_adaptersGiven,fails_parseGiven htimeout,fails_parseGiven hbool,
    fails_parseGiven hsize,fails_parseGiven hage,hgiven]
  simp only [Rejected,Misread,NoAdapters,UncheckedUnreadable,Unreadable,checkedKeys,uncheckedKeys,List.mem_cons,
    List.not_mem_nil,or_false,exists_eq_or_imp,exists_eq_left,id_eq]
  exact iff_of_eq (by ac_rfl)

end Loading

section Validating
variable {b : Builtins} {parser : Parser} {p : PyStr} {key : String} {issues : List ConfigIssue}

/-- One of the findings is an error. -/
def HasError (issues : List ConfigIssue) : Prop := ∃ issue∈issues,issue.severity=.error

instance (issues : List ConfigIssue) : Decidable (HasError issues) :=
  inferInstanceAs (Decidable (∃ issue∈issues,issue.severity=.error))

@[simp] theorem hasError_nil : ¬HasError [] := by simp [HasError]

theorem hasError_append {xs ys : List ConfigIssue} : HasError (xs ++ ys) ↔ HasError xs ∨ HasError ys := by
  simp only [HasError,List.mem_append,or_and_right,exists_or]

/-- Warnings are no errors. -/
theorem not_hasError_flatMap {α : Type} {xs : List α} {f : α → List ConfigIssue} (h : ∀ x,¬HasError (f x)) :
    ¬HasError (xs.flatMap f) := by
  rintro ⟨issue,hmem,hseverity⟩
  obtain ⟨x,_,hissue⟩ := List.mem_flatMap.mp hmem
  exact h x ⟨issue,hissue,hseverity⟩

theorem not_hasError_unknownKey (name : PyStr) : ¬HasError (unknownKeyIssues b name) := by
  unfold unknownKeyIssues
  split <;> simp [HasError]

theorem not_hasError_unknownSection (sect : PyStr) : ¬HasError (unknownSectionIssues sect) := by
  unfold unknownSectionIssues
  split <;> simp [HasError]

theorem not_hasError_version (value : Option PyStr) : ¬HasError (versionIssues b value) := by
  unfold versionIssues
  cases value with
  | none => simp
  | some v =>
    dsimp only
    split <;> simp [HasError]

/-- A choice is an error where it is given and not allowed. -/
theorem hasError_choice {allowed : List PyStr} {f : PyStr → PyStr} {value : Option PyStr} :
    HasError (choiceIssues b key allowed f value) ↔ ∃ v,value=some v ∧ f v∉allowed := by
  unfold choiceIssues
  cases value with
  | none => simp
  | some v => by_cases hv : f v∈allowed <;> simp [hv,HasError]

/-- What a parsed key's check gives: it raises where the value cannot be read or
an exception escapes, else it finds an error where the value does not parse. -/
theorem parsedIssues_cases {α : Type} {parse : PyStr → PyStr → Except ConfigExc α} {message : PyStr → PyStr → PyStr} :
    (Fails (parsedIssues b parser key parse message) ↔
      Fails (sectionValue b parser key) ∨ ∃ v,sectionValue b parser key=.ok (some v) ∧ Escapes (parse v [])) ∧
    ∀ issues,parsedIssues b parser key parse message=.ok issues →
      (HasError issues ↔ ∃ v,sectionValue b parser key=.ok (some v) ∧ Fails (parse v [])) := by
  unfold parsedIssues
  cases hvalue : sectionValue b parser key with
  | error e => simp [bind,Except.bind]
  | ok value =>
    cases value with
    | none => simp [bind,Except.bind]
    | some v =>
      cases hparse : parse v [] with
      | ok a => simp [bind,Except.bind,hparse,Escapes]
      | error e =>
        cases e with
        | configError text => simp [bind,Except.bind,hparse,Escapes,HasError]
        | interpolationError error => simp [bind,Except.bind,hparse,Escapes]
        | keyError name => simp [bind,Except.bind,hparse,Escapes]
        | valueError => simp [bind,Except.bind,hparse,Escapes]
        | overflowError => simp [bind,Except.bind,hparse,Escapes]

/-- Without the section no key is given. -/
theorem getDefault_of_absent (h : parser.hasSection defaultsSection=false) : getDefault b parser key=.ok none := by
  simp [getDefault,h]

/-- With the section both ask for the same values. -/
theorem getDefault_of_present (h : parser.hasSection defaultsSection=true) :
    getDefault b parser key=sectionValue b parser key := by
  simp [getDefault,sectionValue,h]

/-- Validating the section raises where a value that it asks for cannot be read,
or a size overflows. -/
theorem fails_validateDefaults (h : parser.hasSection defaultsSection=true) :
    Fails (validateDefaultsSection b parser) ↔ ValidationRaises b parser := by
  have henums : Fails (checkEnumKeys b parser) ↔ Fails (sectionValue b parser "mode") ∨
      Fails (sectionValue b parser "persist") ∨ Fails (sectionValue b parser "log_level") ∨
      Fails (sectionValue b parser "version") ∨ False :=
    fails_step fun _ => fails_step fun _ => fails_step fun _ => fails_step fun _ => fails_pure _
  unfold validateDefaultsSection
  refine Iff.trans (fails_step fun _ => fails_step fun _ => fails_step fun _ => fails_step fun _ =>
    fails_step fun _ => fails_pure _) ?_
  simp only [henums,parsedIssues_cases.1,not_escapes_parseTimeout,not_escapes_parseBool,not_escapes_parseAge,
    escapes_parseSize,and_false,exists_false,or_false]
  simp only [ValidationRaises,Unreadable,Given,getDefault_of_present h,checkedKeys,List.mem_cons,List.not_mem_nil,
    or_false,exists_eq_or_imp,exists_eq_left]
  exact iff_of_eq (by ac_rfl)

/-- A value that is given is empty or is not. -/
theorem given_iff {x : Except ConfigExc (Option PyStr)} {Q : PyStr → Prop} (hQ : Q []) :
    (∃ v,x=.ok (some v) ∧ Q v) ↔ x=.ok (some []) ∨ ∃ v,x=.ok (some v) ∧ v≠[] ∧ Q v := by
  constructor
  · rintro ⟨v,hv,hq⟩
    by_cases hnil : v=[]
    · exact Or.inl (hnil ▸ hv)
    · exact Or.inr ⟨v,hv,hnil,hq⟩
  · rintro (hnil | ⟨v,hv,_,hq⟩)
    · exact ⟨[],hnil,hQ⟩
    · exact ⟨v,hv,hq⟩

/-- No empty value parses. -/
theorem misread_nil {e : String × (PyStr → Prop)} (h : e∈Misread b) : e.2 [] := by
  have hstrip : b.lower (MlExecutionCommands.strip [])=[] := b.lower_nil
  have hunits (unit : PyStr) (units : List (PyStr × ℕ)) : unitsOf b unit units []=none := by
    unfold unitsOf
    rw [hstrip]
    rfl
  simp only [Misread,List.mem_cons,List.not_mem_nil,or_false] at h
  rcases h with rfl | rfl | rfl | rfl
  · exact fails_parseTimeout.mpr b.float_nil
  · refine fails_parseBool.mpr ?_
    rw [hstrip]
    decide
  · rcases parseSize_cases (b := b) [] [] with ⟨m,_,herror⟩ | ⟨r,hr,_⟩
    · exact ⟨_,herror⟩
    · cases (hunits _ _).symm.trans hr
  · exact fails_parseAge.mpr (hunits _ _)

/-- Validating the section finds an error where a value is rejected, or a parsed
key has none. -/
theorem hasError_validateDefaults (h : parser.hasSection defaultsSection=true)
    (hok : validateDefaultsSection b parser=.ok issues) :
    HasError issues ↔ Rejected b parser ∨ EmptyValue b parser := by
  obtain ⟨enums,henums,hok⟩ := ok_of_bind hok
  obtain ⟨timeout,htime,hok⟩ := ok_of_bind hok
  obtain ⟨maxSize,hmaxSize,hok⟩ := ok_of_bind hok
  obtain ⟨maxAge,hmaxAge,hok⟩ := ok_of_bind hok
  obtain ⟨trustScan,htrustScan,hok⟩ := ok_of_bind hok
  obtain ⟨mode,hmode,henums⟩ := ok_of_bind henums
  obtain ⟨persist,hpersist,henums⟩ := ok_of_bind henums
  obtain ⟨level,hlevel,henums⟩ := ok_of_bind henums
  obtain ⟨version,_,henums⟩ := ok_of_bind henums
  rw [← Except.ok.inj hok,← Except.ok.inj henums]
  simp only [hasError_append,hasError_choice,not_hasError_version,or_false,false_or,
    not_hasError_flatMap not_hasError_unknownKey,parsedIssues_cases.2 _ htime,parsedIssues_cases.2 _ hmaxSize,
    parsedIssues_cases.2 _ hmaxAge,parsedIssues_cases.2 _ htrustScan]
  simp only [Rejected,EmptyValue,Misread,Given,getDefault_of_present h,hmode,hpersist,hlevel,Except.ok.injEq,
    List.mem_cons,List.not_mem_nil,or_false,exists_eq_or_imp,exists_eq_left,id_eq]
  have hempty : ∀ e∈Misread b,e.2 [] := fun e => misread_nil
  simp only [Misread,List.forall_mem_cons] at hempty
  have htimeout := given_iff (Q := fun v => Fails (parseTimeout b v [])) (x := sectionValue b parser "timeout") hempty.1
  have htrust := given_iff (Q := fun v => Fails (parseBool b v [])) (x := sectionValue b parser "trust_scan") hempty.2.1
  have hsize := given_iff (Q := fun v => Fails (parseSize b v [])) (x := sectionValue b parser "max_size") hempty.2.2.1
  have hage := given_iff (Q := fun v => Fails (parseAge b v [])) (x := sectionValue b parser "max_age") hempty.2.2.2.1
  rw [htimeout,htrust,hsize,hage]
  exact iff_of_eq (by ac_rfl)

end Validating

section Prediction
variable {b : Builtins} {p : PyStr} {parser : Parser}

/-- Validation does not raise, finds an error exactly where loading fails, and
only warns of a file that loads. -/
def Predicts (b : Builtins) (p : PyStr) (file : Option PyStr) : Prop :=
  ∃ issues,validate b file=.ok issues ∧ (HasError issues ↔ Fails (load b p file)) ∧
    (¬Fails (load b p file) → ∀ issue∈issues,issue.severity=.warning)

/-- Findings without an error are warnings. -/
theorem warnings_of_not_hasError {issues : List ConfigIssue} (h : ¬HasError issues) :
    ∀ issue∈issues,issue.severity=.warning := by
  intro issue hissue
  cases hseverity : issue.severity with
  | warning => rfl
  | error => exact absurd ⟨issue,hissue,hseverity⟩ h

/-- Validation predicts loading as soon as it does not raise and finds an error
where loading fails. -/
theorem predicts_iff {file : Option PyStr} : Predicts b p file ↔
    ∃ issues,validate b file=.ok issues ∧ (HasError issues ↔ Fails (load b p file)) := by
  constructor
  · rintro ⟨issues,hok,hiff,_⟩
    exact ⟨issues,hok,hiff⟩
  · rintro ⟨issues,hok,hiff⟩
    exact ⟨issues,hok,hiff,fun hload => warnings_of_not_hasError (hload ∘ hiff.mp)⟩

/-- Validation predicts loading, computed. -/
def predicts (b : Builtins) (p : PyStr) (file : Option PyStr) : Bool :=
  match validate b file with
  | .error _ => false
  | .ok issues => decide (HasError issues ↔ Fails (load b p file))

instance (file : Option PyStr) : Decidable (Predicts b p file) :=
  decidable_of_iff (predicts b p file=true) <| by
    rw [predicts_iff]
    unfold predicts
    cases validate b file with
    | error e => simp
    | ok issues => simp

/-- Without the section nothing of it is found, by either. -/
theorem absent_section (h : parser.hasSection defaultsSection=false) : ¬ValidationRaises b parser ∧ ¬Rejected b parser ∧
    ¬EmptyValue b parser ∧ ¬NoAdapters b parser ∧ ∀ key,¬Unreadable b parser key := by
  have hunreadable (key : String) : ¬Unreadable b parser key := by
    unfold Unreadable
    rw [getDefault_of_absent h]
    simp
  have hgiven (key : String) (raw : PyStr) : ¬Given b parser key raw := by
    unfold Given
    rw [getDefault_of_absent h]
    exact nofun
  refine ⟨?_,?_,?_,?_,hunreadable⟩
  · rintro (⟨key,_,hkey⟩ | ⟨raw,hraw,_⟩)
    · exact hunreadable key hkey
    · exact hgiven _ raw hraw
  · rintro (⟨v,hv,_⟩ | ⟨v,hv,_⟩ | ⟨v,hv,_⟩ | ⟨e,_,v,hv,_⟩) <;> exact hgiven _ v hv
  · rintro ⟨e,_,hv⟩
    exact hgiven _ _ hv
  · rintro ⟨v,hv,_⟩
    exact hgiven _ v hv

/-- What validation does with a file that parses. -/
theorem validateSections_cases (b : Builtins) (parser : Parser) : (Fails (validateSections b parser) ↔ ValidationRaises b parser) ∧
    ∀ issues,validateSections b parser=.ok issues → (HasError issues ↔ Rejected b parser ∨ EmptyValue b parser) := by
  have hsections : ¬HasError ((parser.sections.map Prod.fst).flatMap unknownSectionIssues) :=
    not_hasError_flatMap not_hasError_unknownSection
  unfold validateSections
  cases h : parser.hasSection defaultsSection with
  | false =>
    obtain ⟨hraises,hrejected,hempty,_⟩ := absent_section (b := b) h
    dsimp only
    refine ⟨by simp [hraises],?_⟩
    rintro issues ⟨⟩
    simp [hsections,hrejected,hempty]
  | true =>
    dsimp only
    rw [if_pos rfl]
    refine ⟨by rw [fails_map,fails_validateDefaults h],?_⟩
    intro issues hok
    cases hdefaults : validateDefaultsSection b parser with
    | error e => simp [hdefaults,Except.map] at hok
    | ok found =>
      rw [hdefaults] at hok
      cases Except.ok.inj hok
      rw [hasError_append,hasError_validateDefaults h hdefaults]
      simp [hsections]

/-- What both reject leaves nothing to compare; else the findings of one's own remain. -/
theorem agree_iff {C R E N U : Prop} (h : ¬C) : (R ∨ E ↔ C ∨ R ∨ N ∨ U) ↔ R ∨ (E ↔ N ∨ U) := by
  by_cases hr : R
  · simp [hr]
  · simp [hr,h]

/-- Validation predicts loading exactly for the files that are predictable. -/
theorem validate_predicts_iff (b : Builtins) (p : PyStr) (file : Option PyStr) :
    Predicts b p file ↔ Predictable b file := by
  rw [predicts_iff]
  unfold Predictable
  cases file with
  | none => simp [validate,load]
  | some text =>
    cases hread : readConfig b.lower text with
    | error e =>
      have hnone : ∀ text' parser,some text=some text' → readConfig b.lower text'≠.ok parser := by
        rintro _ parser ⟨⟩ hok
        exact nomatch hread.symm.trans hok
      constructor
      · exact fun _ text' parser htext hok => absurd hok (hnone text' parser htext)
      · intro _
        refine ⟨[_],by rw [validate,hread],?_⟩
        simp [load,hread,HasError]
    | ok parser =>
      obtain ⟨hfails,hok⟩ := validateSections_cases b parser
      have hload := fails_loadSettings b parser p
      have hvalidate : validate b (some text)=validateSections b parser := by simp [validate,hread]
      have hloading : load b p (some text)=loadSettings b p parser := by simp [load,hread]
      have hvalues : (∀ text' parser',some text=some text' → readConfig b.lower text'=.ok parser' →
          ¬ValidationRaises b parser' ∧ (Rejected b parser' ∨
            (EmptyValue b parser' ↔ NoAdapters b parser' ∨ UncheckedUnreadable b parser'))) ↔
          ¬ValidationRaises b parser ∧
            (Rejected b parser ∨ (EmptyValue b parser ↔ NoAdapters b parser ∨ UncheckedUnreadable b parser)) := by
        constructor
        · exact fun h => h text parser rfl hread
        · rintro h _ _ ⟨⟩ hread'
          cases Except.ok.inj (hread.symm.trans hread')
          exact h
      rw [hvalidate,hloading,hload,hvalues]
      constructor
      · rintro ⟨issues,hissues,hiff⟩
        have hraises : ¬ValidationRaises b parser := by
          rw [← hfails,hissues]
          simp
        rw [hok issues hissues,agree_iff fun h => hraises (Or.inl h)] at hiff
        exact ⟨hraises,hiff⟩
      · rintro ⟨hraises,hiff⟩
        cases hissues : validateSections b parser with
        | error e => exact absurd (hfails.mp ⟨e,hissues⟩) hraises
        | ok issues =>
          refine ⟨issues,rfl,?_⟩
          rw [hok issues hissues,agree_iff fun h => hraises (Or.inl h)]
          exact hiff

end Prediction

/-- A run that ends where another text begins is cut off in front of that text. -/
theorem takeWhile_whole {α : Type} {p : α → Bool} {x y : List α} (h : x.all p=true)
    (hy : y.head?.all (fun c => !p c)=true) : (x ++ y).takeWhile p=x ∧ (x ++ y).dropWhile p=y := by
  have hall : ∀ c∈x,p c=true := List.all_eq_true.mp h
  rw [List.takeWhile_append_of_pos hall,List.dropWhile_append_of_pos hall]
  cases y with
  | nil => simp
  | cons c y =>
    have hc : p c=false := by simpa using hy
    simp [hc]

/-- The number in front of a unit is a number without a unit. -/
theorem matchUnits_number {text number unit : PyStr} (h : matchUnits text=some (number,unit)) :
    matchUnits number=some (number,[]) := by
  have hdigits (text : PyStr) : (text.takeWhile isDigit).all isDigit=true := List.all_takeWhile
  unfold matchUnits at h
  dsimp only at h
  split at h
  · exact nomatch h
  next hwhole =>
    have hcut := takeWhile_whole (hdigits text) (y := []) rfl
    have hplain : matchUnits (text.takeWhile isDigit)=some (text.takeWhile isDigit,[]) := by
      rw [List.append_nil] at hcut
      simp [matchUnits,hcut.1,hcut.2,hwhole]
    split at h
    · cases h
      exact hplain
    next c tail hrest =>
      split at h
      next hc =>
        split at h
        · exact nomatch h
        next hfraction =>
          split at h
          · cases h
            subst hc
            have hpoint := takeWhile_whole (hdigits text) (y := 0x2E::tail.takeWhile isDigit) rfl
            have hend := takeWhile_whole (hdigits tail) (y := []) rfl
            rw [List.append_nil] at hend
            simp [matchUnits,hpoint.1,hpoint.2,hwhole,hend.1,hend.2,hfraction]
          · exact nomatch h
      next hc =>
        split at h
        · cases h
          exact hplain
        · exact nomatch h

/-- The value of decimal digits with a point, and the number of digits behind it. -/
def decimal (number : PyStr) : ℕ × ℕ :=
  ((number.filter isDigit).foldl (fun n c => 10*n+(c.val-0x30)) 0,((number.dropWhile isDigit).drop 1).length)

/-- Letters of the ASCII range, and decimals that are not rounded. -/
def asciiBuiltins : Builtins where
  lower text := text.map fun c => if 0x41 ≤ c.val ∧ c.val ≤ 0x5A then Fin.ofNat 0x110000 (c.val+0x20) else c
  upper text := text.map fun c => if isLetter c=true then Fin.ofNat 0x110000 (c.val-0x20) else c
  repr text := pyStr "'" ++ text ++ pyStr "'"
  errorText _ := []
  Float := ℕ × ℕ
  float text :=
    match matchUnits text with
    | some (number,[]) => some (decimal number)
    | _ => none
  times x factor := (x.1*factor,x.2)
  toInt x := if x.1/10^x.2 < 2^1024-2^970 then some (x.1/10^x.2 : ℕ) else none
  lower_nil := rfl
  float_nil := rfl
  float_digits _ _ _ h := by
    rw [matchUnits_number h]
    exact nofun

/-- The text `[defaults]`, one line, and the line's end. -/
def defaultsFile (line : String) : PyStr := pyStr "[defaults]\n" ++ pyStr line ++ pyStr "\n"

/-- An empty timeout is an error for validation and loads; empty adapters do not
load and validation is silent; of a lone percent sign validation raises. -/
theorem validate_predicts_fails :
    ¬Predicts asciiBuiltins (pyStr "config.ini") (some (defaultsFile "timeout =")) ∧
    ¬Predicts asciiBuiltins (pyStr "config.ini") (some (defaultsFile "adapters =")) ∧
    ¬Predicts asciiBuiltins (pyStr "config.ini") (some (defaultsFile "mode = %")) := by
  decide +kernel

end GenericMlCache.ConfigValidation
