import GenericMlCache.OutputParsing

/-!
# What a parser reads, and when it raises

Every parser of a client's output comes to one value, which depends only on what
the texts it looks at say and on which counts can be converted, or it raises. Both
are stated for each function of the parsers, from the conversion of one count up.
-/

namespace GenericMlCache.UsageReading

open PythonText ExecutionModel MlExecutionCommands JsonText GatewayRelay OutputParsing

section Conditions
variable {α β : Type} {p q : Prop} {x : Except PyExc α} {a : α}

/-- The computation comes to the value when the condition holds, and raises otherwise. -/
def OkWhen (p : Prop) (x : Except PyExc α) (a : α) : Prop := (p → x=.ok a) ∧ (¬p → ∃ e,x=.error e)

/-- What it comes to, and when. -/
theorem OkWhen.eq_ok_iff (h : OkWhen p x a) (b : α) : x=.ok b ↔ p ∧ a=b := by
  constructor
  · intro hok
    by_cases hp : p
    · have heq := h.1 hp
      rw [hok] at heq
      exact ⟨hp,(Except.ok.inj heq).symm⟩
    · obtain ⟨e,he⟩ := h.2 hp
      rw [hok] at he
      exact nomatch he
  · rintro ⟨hp,rfl⟩
    exact h.1 hp

/-- A value. -/
theorem okWhen_ok (a : α) : OkWhen True (.ok a) a := ⟨fun _ => rfl,fun h => absurd trivial h⟩

/-- The same condition in other words. -/
theorem OkWhen.congr (h : OkWhen p x a) (hpq : p ↔ q) : OkWhen q x a :=
  ⟨fun hq => h.1 (hpq.mpr hq),fun hq => h.2 fun hp => hq (hpq.mp hp)⟩

/-- The same value under another name. -/
theorem OkWhen.value {b : α} (h : OkWhen p x a) (hab : a=b) : OkWhen p x b := by
  rwa [← hab]

/-- One computation after another. -/
theorem OkWhen.bind {f : α → Except PyExc β} {b : β} (h : OkWhen p x a) (hf : OkWhen q (f a) b) :
    OkWhen (p ∧ q) (x >>= f) b := by
  constructor
  · rintro ⟨hp,hq⟩
    rw [h.1 hp]
    exact hf.1 hq
  · intro hpq
    by_cases hp : p
    · rw [h.1 hp]
      exact hf.2 fun hq => hpq ⟨hp,hq⟩
    · obtain ⟨e,he⟩ := h.2 hp
      rw [he]
      exact ⟨e,rfl⟩

/-- A computation whose value is packed. -/
theorem OkWhen.pack (h : OkWhen p x a) (g : α → β) : OkWhen p (x >>= fun b => .ok (g b)) (g a) :=
  (h.bind (okWhen_ok (g a))).congr (and_iff_left trivial)

end Conditions

section Counts
variable (lib : UsageLibrary)

/-- A number that a conversion refuses for its size. -/
def Overflows {α : Type} (convert : Json → Except IntError α) : Option Json → Prop
  | none | some .null | some (.bool _) => False
  | some value => ∃ message,convert value=.error (.overflowError message)

/-- A number, unknown where it cannot be read. -/
def number {α : Type} (convert : Json → Except IntError α) : Option Json → Option α
  | none | some .null | some (.bool _) => none
  | some value => (convert value).toOption

/-- A count that `int` refuses for its size. -/
def CountOverflows : Option Json → Prop := Overflows lib.int

/-- A count, unknown where it cannot be read. -/
def count : Option Json → Option ℤ := number lib.int

/-- An amount that `float` refuses for its size. -/
def AmountOverflows : Option Json → Prop := Overflows lib.float

/-- An amount, unknown where it cannot be read. -/
def amount : Option Json → Option UInt64 := number lib.float

/-- A number is read, or is unknown, unless it overflows. -/
theorem okWhen_numberOrNone {α : Type} (convert : Json → Except IntError α) (value : Option Json) :
    OkWhen (¬Overflows convert value) (numberOrNone convert value) (number convert value) := by
  rcases value with _ | value
  · exact (okWhen_ok _).congr not_false_iff.symm
  · cases value with
    | null | bool => exact (okWhen_ok _).congr not_false_iff.symm
    | int | float | str | arr | obj =>
      unfold Overflows numberOrNone number
      dsimp only
      generalize convert _=r
      rcases r with (_ | _ | message) | n
      · exact (okWhen_ok _).congr (by simp only [Except.error.injEq,reduceCtorEq,exists_false,not_false_eq_true])
      · exact (okWhen_ok _).congr (by simp only [Except.error.injEq,reduceCtorEq,exists_false,not_false_eq_true])
      · exact ⟨fun h => absurd ⟨message,rfl⟩ h,fun _ => ⟨_,rfl⟩⟩
      · exact (okWhen_ok _).congr (by simp only [reduceCtorEq,exists_false,not_false_eq_true])

/-- The block that `deep_freeze` gets through. -/
def Freezes (raw : List (PyStr × Json)) : Prop := lib.freeze raw=.ok ()

/-- A usage is made when its block freezes. -/
theorem okWhen_frozenUsage (usage : TokenUsage) :
    OkWhen (Freezes lib usage.raw) (frozenUsage lib.toJsonLibrary usage) usage := by
  unfold Freezes frozenUsage
  cases hfreeze : lib.freeze usage.raw with
  | ok r => exact (okWhen_ok _).congr (by simp only)
  | error message => exact ⟨fun h => absurd h (by simp only [reduceCtorEq,not_false_eq_true]),fun _ => ⟨_,rfl⟩⟩

/-- Whether the counts of a block can all be read or left unknown. -/
def CountsReadable (block : List (PyStr × Json)) (keys : List String) : Prop :=
  ∀ key ∈ keys,¬CountOverflows lib (getItem block key)

/-- Whether Claude's usage can be read. -/
def ClaudeReadable (doc : List (PyStr × Json)) : Prop :=
  CountsReadable lib (dictOrEmpty (getItem doc "usage"))
      ["input_tokens","output_tokens","cache_read_input_tokens","cache_creation_input_tokens"] ∧
    ¬AmountOverflows lib (getItem doc "total_cost_usd") ∧
    Freezes lib (pickItems doc ["usage","modelUsage","total_cost_usd"])

/-- What Claude's usage says. -/
def claudeSays (doc : List (PyStr × Json)) : TokenUsage where
  inputTokens := count lib (getItem (dictOrEmpty (getItem doc "usage")) "input_tokens")
  outputTokens := count lib (getItem (dictOrEmpty (getItem doc "usage")) "output_tokens")
  cacheReadTokens := count lib (getItem (dictOrEmpty (getItem doc "usage")) "cache_read_input_tokens")
  cacheWriteTokens := count lib (getItem (dictOrEmpty (getItem doc "usage")) "cache_creation_input_tokens")
  costUsd := amount lib (getItem doc "total_cost_usd")
  raw := pickItems doc ["usage","modelUsage","total_cost_usd"]

/-- Claude's usage. -/
theorem okWhen_claudeUsage (doc : List (PyStr × Json)) :
    OkWhen (ClaudeReadable lib doc) (claudeUsage lib doc) (claudeSays lib doc) := by
  have hcount := okWhen_numberOrNone lib.int
  refine ((hcount _).bind ((hcount _).bind ((hcount _).bind ((hcount _).bind
    ((okWhen_numberOrNone lib.float _).bind (okWhen_frozenUsage lib _)))))).congr ?_
  simp only [ClaudeReadable,CountsReadable,CountOverflows,AmountOverflows,List.forall_mem_cons,List.not_mem_nil,IsEmpty.forall_iff,implies_true,
    and_true,and_assoc]

/-- Whether Cursor's usage can be read. -/
def CursorReadable (block : List (PyStr × Json)) : Prop :=
  CountsReadable lib block ["inputTokens","outputTokens","cacheReadTokens","cacheWriteTokens"] ∧ Freezes lib block

/-- What Cursor's usage says. -/
def cursorSays (block : List (PyStr × Json)) : TokenUsage where
  inputTokens := count lib (getItem block "inputTokens")
  outputTokens := count lib (getItem block "outputTokens")
  cacheReadTokens := count lib (getItem block "cacheReadTokens")
  cacheWriteTokens := count lib (getItem block "cacheWriteTokens")
  raw := block

/-- Cursor's usage. -/
theorem okWhen_cursorUsage (block : List (PyStr × Json)) :
    OkWhen (CursorReadable lib block) (cursorUsage lib block) (cursorSays lib block) := by
  have hcount := okWhen_numberOrNone lib.int
  refine ((hcount _).bind ((hcount _).bind ((hcount _).bind ((hcount _).bind
    (okWhen_frozenUsage lib _))))).congr ?_
  simp only [CursorReadable,CountsReadable,CountOverflows,List.forall_mem_cons,List.not_mem_nil,IsEmpty.forall_iff,implies_true,
    and_true,and_assoc]

/-- Whether Codex's usage can be read. -/
def CodexReadable (block : List (PyStr × Json)) : Prop :=
  CountsReadable lib block ["input_tokens","output_tokens","cached_input_tokens","reasoning_output_tokens"] ∧
    Freezes lib block

/-- What Codex's usage says. -/
def codexSays (block : List (PyStr × Json)) : TokenUsage where
  inputTokens := count lib (getItem block "input_tokens")
  outputTokens := count lib (getItem block "output_tokens")
  cacheReadTokens := count lib (getItem block "cached_input_tokens")
  reasoningTokens := count lib (getItem block "reasoning_output_tokens")
  raw := block

/-- Codex's usage. -/
theorem okWhen_codexUsage (block : List (PyStr × Json)) :
    OkWhen (CodexReadable lib block) (codexUsage lib block) (codexSays lib block) := by
  have hcount := okWhen_numberOrNone lib.int
  refine ((hcount _).bind ((hcount _).bind ((hcount _).bind ((hcount _).bind
    (okWhen_frozenUsage lib _))))).congr ?_
  simp only [CodexReadable,CountsReadable,CountOverflows,List.forall_mem_cons,List.not_mem_nil,IsEmpty.forall_iff,implies_true,
    and_true,and_assoc]

end Counts

section Objects
variable (read : PyStr → Option Json)

/-- The object of a line. -/
def lineObject (line : PyStr) : Option (List (PyStr × Json)) :=
  if strip line=[] then none
  else
    match read (strip line) with
    | some (.obj event) => some event
    | _ => none

/-- The objects of the lines of a text. -/
def events (stdout : PyStr) : List (List (PyStr × Json)) := (splitLines stdout).filterMap (lineObject read)

/-- Whether an object is a result. -/
def isResult (event : List (PyStr × Json)) : Bool := hasText event "type" "result"

/-- The object of a text as a whole. -/
def wholeObject (stdout : PyStr) : Option (List (PyStr × Json)) :=
  match read (strip stdout) with
  | some (.obj document) => some document
  | _ => none

/-- The result object of a text: the text itself, or the last result of its lines. -/
def resultObject (stdout : PyStr) : Option (List (PyStr × Json)) :=
  if strip stdout=[] then none
  else (wholeObject read stdout).or ((events read stdout).filter isResult).getLast?

end Objects

section Texts
variable (lib : UsageLibrary)

/-- What `json.loads` makes of a text. -/
def seen (text : PyStr) : Option Json := (lib.loads text).toOption

/-- A text that nests beyond the interpreter's recursion limit. -/
def TooDeep (text : PyStr) : Prop := ∃ message,lib.loads text=.error (.recursionError message)

/-- A text on which `json.loads` raises something else than a JSONDecodeError. -/
def Escapes (text : PyStr) : Prop :=
  match lib.loads text with
  | .ok _ | .error .jsonDecodeError => False
  | _ => True

/-- A text is tried. -/
theorem okWhen_tryLoads (text : PyStr) : OkWhen (¬TooDeep lib text) (tryLoads lib text) (seen lib text) := by
  unfold TooDeep tryLoads seen
  cases hloads : lib.loads text with
  | ok value => exact (okWhen_ok _).congr (by simp only [reduceCtorEq,exists_false,not_false_eq_true])
  | error e =>
    cases e with
    | recursionError message => exact ⟨fun h => absurd ⟨message,rfl⟩ h,fun _ => ⟨_,rfl⟩⟩
    | jsonDecodeError | unicodeDecodeError | valueError =>
      exact (okWhen_ok _).congr (by simp only [Except.error.injEq,reduceCtorEq,exists_false,not_false_eq_true])

/-- A line that is looked at and nests too deep. -/
def LineTooDeep (line : PyStr) : Prop := strip line≠[] ∧ TooDeep lib (strip line)

/-- A line is looked at. -/
theorem okWhen_resultOfLine (line : PyStr) : OkWhen (¬LineTooDeep lib line) (resultOfLine lib line)
    ((lineObject (seen lib) line).filter isResult) := by
  unfold resultOfLine LineTooDeep lineObject
  by_cases hempty : strip line=[]
  · simp only [hempty,if_true]
    exact (okWhen_ok _).congr (by simp only [ne_eq,not_true_eq_false,false_and,not_false_eq_true])
  · simp only [hempty,if_false]
    have htry := okWhen_tryLoads lib (strip line)
    refine (htry.bind (q := True) ?_).congr (by simp only [and_true,ne_eq,hempty,not_false_eq_true,true_and])
    rcases seen lib (strip line) with _ | value
    · exact okWhen_ok _
    · cases value with
      | obj event => exact (okWhen_ok _).value rfl
      | null | bool | int | float | str | arr => exact okWhen_ok _

/-- The loop over the lines. -/
theorem okWhen_lastResultObject (lines : List PyStr) (last : Option (List (PyStr × Json))) :
    OkWhen (∀ line ∈ lines,¬LineTooDeep lib line) (lastResultObject lib lines last)
      ((((lines.filterMap (lineObject (seen lib))).filter isResult).getLast?).or last) := by
  induction lines generalizing last with
  | nil => exact (okWhen_ok _).congr (by simp)
  | cons line lines ih =>
    have hrun := (okWhen_resultOfLine lib line).bind (f := fun found => lastResultObject lib lines (found.or last))
      (ih (((lineObject (seen lib) line).filter isResult).or last))
    refine (hrun.congr (q := ∀ l ∈ line::lines,¬LineTooDeep lib l) (by simp only [List.forall_mem_cons])).value ?_
    cases hobject : lineObject (seen lib) line with
    | none => simp [hobject]
    | some event =>
      rw [List.filterMap_cons_some hobject,List.filter_cons]
      by_cases hresult : isResult event=true
      · rw [if_pos hresult,List.getLast?_cons,Option.filter_some_pos hresult]
        cases ((lines.filterMap (lineObject (seen lib))).filter isResult).getLast? <;> rfl
      · rw [if_neg hresult,Option.filter_some_neg (Bool.not_eq_true _ ▸ hresult)]
        rfl

/-- Whether `final_result_object` gets through a text. -/
def ResultReadable (stdout : PyStr) : Prop :=
  strip stdout=[] ∨ ¬TooDeep lib (strip stdout) ∧
    ((wholeObject (seen lib) stdout).isSome=true ∨ ∀ line ∈ splitLines stdout,¬LineTooDeep lib line)

/-- The result object that is found. -/
theorem okWhen_finalResultObject (stdout : PyStr) :
    OkWhen (ResultReadable lib stdout) (finalResultObject lib stdout) (resultObject (seen lib) stdout) := by
  unfold ResultReadable finalResultObject resultObject wholeObject events
  by_cases hempty : strip stdout=[]
  · simp only [hempty,if_true,true_or]
    exact okWhen_ok none
  · simp only [hempty,if_false,false_or]
    refine (okWhen_tryLoads lib (strip stdout)).bind ?_
    have hloop := okWhen_lastResultObject lib (splitLines stdout) none
    rw [Option.or_none] at hloop
    rcases seen lib (strip stdout) with _ | value
    · exact hloop.congr (by simp only [Option.isSome_none,Bool.false_eq_true,false_or])
    · cases value with
      | obj document => exact (okWhen_ok _).congr (by simp only [Option.isSome_some,true_or])
      | null | bool | int | float | str | arr =>
        exact hloop.congr (by simp only [Option.isSome_none,Bool.false_eq_true,false_or])

end Texts

section Outputs
variable (read : PyStr → Option Json) (lib : UsageLibrary)

/-- What Claude's document says. A document without a result text says nothing. -/
def claudeOutput (stdout : PyStr) (found : Option (List (PyStr × Json))) : ParsedOutput :=
  match found with
  | none => ⟨stdout,none⟩
  | some doc =>
    match getItem doc "result" with
    | some (.str text) => ⟨ensureTrailingNewline text,some (claudeSays lib doc)⟩
    | _ => ⟨stdout,none⟩

/-- A document that has a result text. -/
def Answers (doc : List (PyStr × Json)) : Prop := ∃ text,getItem doc "result"=some (.str text)

/-- Whether Claude's usage can be read where an answer was found. -/
def ClaudeUsageReadable (found : Option (List (PyStr × Json))) : Prop :=
  ∀ doc ∈ found,Answers doc → ClaudeReadable lib doc

/-- Claude's output. -/
theorem okWhen_claude (stdout : PyStr) :
    OkWhen (ResultReadable lib stdout ∧ ClaudeUsageReadable lib (resultObject (seen lib) stdout))
      (claudeParseOutput lib stdout) (claudeOutput lib stdout (resultObject (seen lib) stdout)) := by
  refine (okWhen_finalResultObject lib stdout).bind ?_
  generalize resultObject (seen lib) stdout=found
  unfold ClaudeUsageReadable claudeOutput Answers
  rcases found with _ | doc
  · exact (okWhen_ok _).congr (by simp)
  · simp only [Option.mem_some_iff,forall_eq']
    rcases getItem doc "result" with _ | value
    · exact (okWhen_ok _).congr (by simp)
    · cases value with
      | str text =>
        have hpack := (okWhen_claudeUsage lib doc).pack fun usage =>
          (⟨ensureTrailingNewline text,some usage⟩ : ParsedOutput)
        exact hpack.congr (by simp)
      | null | bool | int | float | arr | obj => exact (okWhen_ok _).congr (by simp)

/-- What Cursor's document says. -/
def cursorOutput (stdout : PyStr) (found : Option (List (PyStr × Json))) : ParsedOutput :=
  match found with
  | none => ⟨stdout,none⟩
  | some doc =>
    match getItem doc "result" with
    | some (.str text) =>
      match getItem doc "usage" with
      | some (.obj block) => ⟨ensureTrailingNewline text,some (cursorSays lib block)⟩
      | _ => ⟨ensureTrailingNewline text,none⟩
    | _ => ⟨stdout,none⟩

/-- Whether Cursor's usage can be read where an answer and a block were found. -/
def CursorUsageReadable (found : Option (List (PyStr × Json))) : Prop :=
  ∀ doc ∈ found,Answers doc → ∀ block,getItem doc "usage"=some (.obj block) → CursorReadable lib block

/-- Cursor's output. -/
theorem okWhen_cursor (stdout : PyStr) :
    OkWhen (ResultReadable lib stdout ∧ CursorUsageReadable lib (resultObject (seen lib) stdout))
      (cursorParseOutput lib stdout) (cursorOutput lib stdout (resultObject (seen lib) stdout)) := by
  refine (okWhen_finalResultObject lib stdout).bind ?_
  generalize resultObject (seen lib) stdout=found
  unfold CursorUsageReadable cursorOutput Answers
  rcases found with _ | doc
  · exact (okWhen_ok _).congr (by simp)
  · simp only [Option.mem_some_iff,forall_eq']
    rcases getItem doc "result" with _ | value
    · exact (okWhen_ok _).congr (by simp)
    · cases value with
      | str text =>
        dsimp only
        rcases getItem doc "usage" with _ | usage
        · exact (okWhen_ok _).congr (by simp)
        · cases usage with
          | obj block =>
            have hpack := (okWhen_cursorUsage lib block).pack fun usage =>
              (⟨ensureTrailingNewline text,some usage⟩ : ParsedOutput)
            exact hpack.congr (by simp)
          | null | bool | int | float | str | arr => exact (okWhen_ok _).congr (by simp)
      | null | bool | int | float | arr | obj => exact (okWhen_ok _).congr (by simp)

/-- The answer of a stream of Codex's events: the last one. -/
def codexAnswerOf (stream : List (List (PyStr × Json))) : Option PyStr := (stream.filterMap codexAnswer).getLast?

/-- Its usage block: the last one. -/
def codexBlockOf (stream : List (List (PyStr × Json))) : Option (List (PyStr × Json)) :=
  (stream.filterMap codexBlock).getLast?

/-- What the events say. -/
def codexOutput (stdout : PyStr) (stream : List (List (PyStr × Json))) : ParsedOutput :=
  match codexAnswerOf stream with
  | none => ⟨stdout,none⟩
  | some answer => ⟨ensureTrailingNewline answer,(codexBlockOf stream).map (codexSays lib)⟩

/-- A line that is looked at and raises something else than a JSONDecodeError. -/
def LineEscapes (line : PyStr) : Prop := strip line≠[] ∧ Escapes lib (strip line)

/-- An event is read. -/
theorem okWhen_codexEvent (line : PyStr) :
    OkWhen (¬LineEscapes lib line) (codexEvent lib line) (lineObject (seen lib) line) := by
  unfold LineEscapes codexEvent lineObject Escapes seen
  by_cases hempty : strip line=[]
  · simp only [hempty,if_true]
    exact (okWhen_ok _).congr (by simp)
  · simp only [hempty,if_false]
    rcases lib.loads (strip line) with e | value
    · cases e with
      | jsonDecodeError => exact (okWhen_ok _).congr (by simp [hempty])
      | unicodeDecodeError | valueError | recursionError =>
        exact ⟨fun h => absurd ⟨hempty,trivial⟩ h,fun _ => ⟨_,rfl⟩⟩
    · cases value with
      | obj event => exact (okWhen_ok _).congr (by simp)
      | null | bool | int | float | str | arr => exact (okWhen_ok _).congr (by simp)

/-- The loop over the events. -/
theorem okWhen_codexEvents (lines : List PyStr) (found : CodexFound) :
    OkWhen (∀ line ∈ lines,¬LineEscapes lib line) (codexEvents lib lines found)
      { answer := (codexAnswerOf (lines.filterMap (lineObject (seen lib)))).or found.answer,
        usageBlock := (codexBlockOf (lines.filterMap (lineObject (seen lib)))).or found.usageBlock } := by
  induction lines generalizing found with
  | nil => exact (okWhen_ok _).congr (by simp)
  | cons line lines ih =>
    have hall : (∀ l ∈ line::lines,¬LineEscapes lib l) ↔
        ¬LineEscapes lib line ∧ ∀ l ∈ lines,¬LineEscapes lib l := List.forall_mem_cons
    cases hobject : lineObject (seen lib) line with
    | none =>
      have hevent := okWhen_codexEvent lib line
      rw [hobject] at hevent
      rw [List.filterMap_cons_none hobject]
      exact (hevent.bind (ih found)).congr hall.symm
    | some event =>
      have hevent := okWhen_codexEvent lib line
      rw [hobject] at hevent
      refine ((hevent.bind (ih (found.see event))).congr hall.symm).value ?_
      rw [List.filterMap_cons_some hobject]
      have hlatest : ∀ {γ : Type} (f : List (PyStr × Json) → Option γ) (stream : List (List (PyStr × Json)))
          (old : Option γ),((stream.filterMap f).getLast?).or ((f event).or old)=
            (((event::stream).filterMap f).getLast?).or old := by
        intro γ f stream old
        cases hf : f event with
        | none => rw [List.filterMap_cons_none hf,Option.none_or]
        | some latest =>
          rw [List.filterMap_cons_some hf,List.getLast?_cons]
          cases (stream.filterMap f).getLast? <;> rfl
      simp only [CodexFound.see,codexAnswerOf,codexBlockOf,hlatest]

/-- Whether Codex's stream can be read: every line, and the usage if there is an answer. -/
def CodexStreamReadable (stdout : PyStr) : Prop :=
  (∀ line ∈ splitLines stdout,¬LineEscapes lib line) ∧
    ((codexAnswerOf (events (seen lib) stdout)).isSome=true →
      ∀ block ∈ codexBlockOf (events (seen lib) stdout),CodexReadable lib block)

/-- Codex's output. -/
theorem okWhen_codex (stdout : PyStr) : OkWhen (CodexStreamReadable lib stdout) (codexParseOutput lib stdout)
    (codexOutput lib stdout (events (seen lib) stdout)) := by
  refine (okWhen_codexEvents lib (splitLines stdout) {}).bind ?_
  simp only [Option.or_none]
  unfold codexOutput events
  rcases codexAnswerOf ((splitLines stdout).filterMap (lineObject (seen lib))) with _ | answer
  · exact (okWhen_ok _).congr (by simp)
  · rcases codexBlockOf ((splitLines stdout).filterMap (lineObject (seen lib))) with _ | block
    · exact (okWhen_ok _).congr (by simp)
    · have hpack := (okWhen_codexUsage lib block).pack fun usage =>
        (⟨ensureTrailingNewline answer,some usage⟩ : ParsedOutput)
      exact hpack.congr (by simp)

/-- Whether the counts of a relayed block can be read. -/
def RelayReadable (block : List (PyStr × Json)) : Prop :=
  CountsReadable lib block
      ["input_tokens","output_tokens","cache_read_input_tokens","cache_creation_input_tokens"] ∧ Freezes lib block

/-- What a relayed block says. -/
def relaySays (block : List (PyStr × Json)) : TokenUsage where
  inputTokens := count lib (getItem block "input_tokens")
  outputTokens := count lib (getItem block "output_tokens")
  cacheReadTokens := count lib (getItem block "cache_read_input_tokens")
  cacheWriteTokens := count lib (getItem block "cache_creation_input_tokens")
  raw := block

/-- The dict that a value is, if it is one. -/
def asDict : Option Json → Option (List (PyStr × Json))
  | some (.obj block) => some block
  | _ => none

/-- The usage block of an envelope. -/
def envelopeBlock (envelope : Option Json) : Option (List (PyStr × Json)) :=
  (asDict envelope).bind fun fields => asDict (getItem fields "usage")

/-- The payload of a line of an event stream, where it has one to read. -/
def payloadOf (rawLine : PyStr) : Option PyStr :=
  if ¬pyStr "data:" <+: strip rawLine then none
  else if strip ((strip rawLine).drop 5)=[] ∨ strip ((strip rawLine).drop 5)=pyStr "[DONE]" then none
  else some (strip ((strip rawLine).drop 5))

/-- The usage that a line of an event stream carries. -/
def lineUsage (rawLine : PyStr) : List (PyStr × Json) :=
  dictOrEmpty (((payloadOf rawLine).bind read).bind eventUsage)

/-- The usage that the lines carry, later ones over earlier ones. -/
def mergedUsage (rawLines : List PyStr) (merged : List (PyStr × Json)) : List (PyStr × Json) :=
  rawLines.foldl (fun merged rawLine => update merged (lineUsage read rawLine)) merged

/-- Whether a response is an event stream. -/
def isEventStream (response : UpstreamResponse) : Bool :=
  decide (pyStr "text/event-stream" <:+: lower response.contentType)

/-- The usage block of an answer. -/
def relayBlock (envelope : Option Json) (response : UpstreamResponse) : Option (List (PyStr × Json)) :=
  if isEventStream response=true then
    if mergedUsage read (splitLines response.text) []=[] then none
    else some (mergedUsage read (splitLines response.text) [])
  else envelopeBlock envelope

/-- What a response says. Only a 200 has a usage. -/
def relayOutput (envelope : Option Json) (response : UpstreamResponse) : ClientRunResult :=
  if response.statusCode=200 then
    { exitCode := 0, stdout := response.text, tokenUsage := (relayBlock read envelope response).map (relaySays lib) }
  else { exitCode := response.statusCode, stdout := response.text }

end Outputs

section Relay
variable (lib : UsageLibrary)

/-- A usage block is read. -/
theorem okWhen_usageFromBlock (usage : Option Json) :
    OkWhen (∀ block ∈ asDict usage,RelayReadable lib block) (usageFromBlock lib.toJsonLibrary usage)
      ((asDict usage).map (relaySays lib)) := by
  rcases usage with _ | value
  · exact (okWhen_ok _).congr (by simp [asDict])
  · cases value with
    | obj block =>
      have hcount := okWhen_numberOrNone lib.int
      have hlast := (okWhen_frozenUsage lib (relaySays lib block)).pack some
      refine OkWhen.congr ((hcount _).bind ((hcount _).bind ((hcount _).bind ((hcount _).bind hlast)))) ?_
      simp [asDict,RelayReadable,CountsReadable,CountOverflows,relaySays,and_assoc]
    | null | bool | int | float | str | arr => exact (okWhen_ok _).congr (by simp [asDict])

/-- What `json.loads` makes of a body. -/
def seenBytes (body : Bytes) : Option Json := (lib.loadsBytes body).toOption

/-- A body on which `json.loads` raises something that the relay does not catch. -/
def BodyEscapes (body : Bytes) : Prop :=
  match lib.loadsBytes body with
  | .ok _ | .error .jsonDecodeError | .error .unicodeDecodeError => False
  | _ => True

/-- An envelope is read. -/
theorem okWhen_parseUsageJson (body : Bytes) :
    OkWhen (¬BodyEscapes lib body ∧ ∀ block ∈ envelopeBlock (seenBytes lib body),RelayReadable lib block)
      (parseUsageJson lib.toJsonLibrary body) ((envelopeBlock (seenBytes lib body)).map (relaySays lib)) := by
  unfold BodyEscapes parseUsageJson envelopeBlock seenBytes
  rcases lib.loadsBytes body with e | value
  · cases e with
    | jsonDecodeError | unicodeDecodeError => exact (okWhen_ok _).congr (by simp [Except.toOption,asDict])
    | valueError | recursionError => exact ⟨fun h => absurd trivial h.1,fun _ => ⟨_,rfl⟩⟩
  · cases value with
    | obj fields =>
      refine OkWhen.congr (okWhen_usageFromBlock lib (getItem fields "usage")) ?_
      simp [Except.toOption,asDict]
    | null | bool | int | float | str | arr => exact (okWhen_ok _).congr (by simp [Except.toOption,asDict])

/-- One line of an event stream is read. -/
theorem okWhen_sseLineUsage (rawLine : PyStr) :
    OkWhen (∀ payload ∈ payloadOf rawLine,¬Escapes lib payload) (sseLineUsage lib.toJsonLibrary rawLine)
      (lineUsage (seen lib) rawLine) := by
  unfold sseLineUsage lineUsage payloadOf
  dsimp only
  split
  next => exact (okWhen_ok _).congr (by simp)
  next =>
    split
    next => exact (okWhen_ok _).congr (by simp)
    next =>
      simp only [Option.mem_some_iff,forall_eq',Option.bind_some]
      unfold Escapes seen
      rcases lib.loads (strip ((strip rawLine).drop 5)) with e | event
      · cases e with
        | jsonDecodeError => exact (okWhen_ok _).congr (by simp)
        | unicodeDecodeError | valueError | recursionError => exact ⟨fun h => absurd trivial h,fun _ => ⟨_,rfl⟩⟩
      · simp only [Except.toOption,Option.bind_some]
        rcases eventUsage event with _ | usage
        · exact (okWhen_ok _).congr (by simp)
        · cases usage with
          | obj block => exact (okWhen_ok _).congr (by simp)
          | null | bool | int | float | str | arr => exact (okWhen_ok _).congr (by simp)

/-- All lines of an event stream are read. -/
theorem okWhen_mergeLines (rawLines : List PyStr) (merged : List (PyStr × Json)) :
    OkWhen (∀ rawLine ∈ rawLines,∀ payload ∈ payloadOf rawLine,¬Escapes lib payload)
      (mergeLines lib.toJsonLibrary rawLines merged) (mergedUsage (seen lib) rawLines merged) := by
  induction rawLines generalizing merged with
  | nil => exact (okWhen_ok _).congr (by simp)
  | cons rawLine rest ih =>
    have hline := okWhen_sseLineUsage lib rawLine
    exact (hline.bind (ih (update merged (lineUsage (seen lib) rawLine)))).congr (by
      simp only [List.forall_mem_cons])

/-- Whether what carries the usage of a response raises nothing that escapes. -/
def SourceReadable (response : UpstreamResponse) : Prop :=
  if isEventStream response=true then
    ∀ rawLine ∈ splitLines response.text,∀ payload ∈ payloadOf rawLine,¬Escapes lib payload
  else ¬BodyEscapes lib response.body

/-- The block that is seen in a response. -/
def seenBlock (response : UpstreamResponse) : Option (List (PyStr × Json)) :=
  relayBlock (seen lib) (seenBytes lib response.body) response

/-- The usage of a response is read. -/
theorem okWhen_parseUsage (response : UpstreamResponse) :
    OkWhen (SourceReadable lib response ∧ ∀ block ∈ seenBlock lib response,RelayReadable lib block)
      (parseUsage lib.toJsonLibrary response.body response.contentType)
      ((seenBlock lib response).map (relaySays lib)) := by
  have htext : decodeReplace lib.toJsonLibrary response.body=response.text := by
    rw [decodeReplace,response.decodes]
    rfl
  unfold SourceReadable seenBlock relayBlock parseUsage isEventStream
  simp only [decide_eq_true_eq]
  split
  next =>
    rw [parseUsageSse,htext]
    refine (okWhen_mergeLines lib (splitLines response.text) []).bind ?_
    split
    next => exact (okWhen_ok _).congr (by simp)
    next => exact okWhen_usageFromBlock lib (some (.obj (mergedUsage (seen lib) (splitLines response.text) [])))
  next => exact okWhen_parseUsageJson lib response.body

/-- Whether the answer of a response can be read. -/
def AnswerReadable (response : UpstreamResponse) : Prop :=
  response.statusCode=200 → SourceReadable lib response ∧ ∀ block ∈ seenBlock lib response,RelayReadable lib block

/-- The relay's answer. -/
theorem okWhen_relay (response : UpstreamResponse) : OkWhen (AnswerReadable lib response)
    (toAnswer lib.toJsonLibrary response.statusCode response.contentType response.body)
    (relayOutput (seen lib) lib (seenBytes lib response.body) response) := by
  have htext : decodeReplace lib.toJsonLibrary response.body=response.text := by
    rw [decodeReplace,response.decodes]
    rfl
  unfold AnswerReadable relayOutput toAnswer
  by_cases hstatus : response.statusCode=200
  · have hbody : decodeOkBody lib.toJsonLibrary response.body=.ok response.text := by
      rw [decodeOkBody,response.decodes]
    have hanswer := (okWhen_parseUsage lib response).pack fun usage =>
      ({ exitCode := 0, stdout := response.text, tokenUsage := usage } : ClientRunResult)
    simp only [hstatus,if_true,hbody,forall_true_left]
    exact hanswer
  · simp only [hstatus,if_false,htext,false_implies]
    exact okWhen_ok _

end Relay

end GenericMlCache.UsageReading
