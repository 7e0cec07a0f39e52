import GenericMlCache.UsageReading
import GenericMlCache.JsonRoundTrip

/-!
# Usage and the answer

When the parsers give back what a client's output or an upstream's response says,
with every count that cannot be read left unknown, and when they raise or lose the
answer over a usage field.
-/

namespace GenericMlCache.UsageAnswers

open PythonText ExecutionModel MlExecutionCommands JsonText JsonRoundTrip GatewayRelay OutputParsing UsageReading

/-- That the texts say what `json.loads` gives back: it returns the value of a document,
and raises a JSONDecodeError only where there is none. -/
structure Meaning (lib : UsageLibrary) (reads : PyStr → Option Json) (readsBytes : Bytes → Option Json) : Prop where
  /-- What is loaded of a text is what it says. -/
  value : ∀ text v,lib.loads text=.ok v → reads text=some v
  /-- A text refused as no document is none. -/
  noDocument : ∀ text,lib.loads text=.error .jsonDecodeError → reads text=none
  /-- What is loaded of a body is what it says. -/
  bytesValue : ∀ body v,lib.loadsBytes body=.ok v → readsBytes body=some v
  /-- A body refused as no document is none. -/
  bytesNoDocument : ∀ body,lib.loadsBytes body=.error .jsonDecodeError ∨
    lib.loadsBytes body=.error .unicodeDecodeError → readsBytes body=none

section Meaning
variable {lib : UsageLibrary} {reads : PyStr → Option Json} {readsBytes : Bytes → Option Json}

/-- Where nothing escapes, what is seen is what the text says. -/
theorem Meaning.seen_eq (hm : Meaning lib reads readsBytes) {text : PyStr} (h : ¬Escapes lib text) :
    seen lib text=reads text := by
  unfold Escapes at h
  unfold seen
  rcases hloads : lib.loads text with e | v
  · rw [hloads] at h
    cases e with
    | jsonDecodeError => exact (hm.noDocument text hloads).symm
    | unicodeDecodeError | valueError | recursionError => exact absurd trivial h
  · exact (hm.value text v hloads).symm

/-- So it is of a body. -/
theorem Meaning.seenBytes_eq (hm : Meaning lib reads readsBytes) {body : Bytes} (h : ¬BodyEscapes lib body) :
    seenBytes lib body=readsBytes body := by
  unfold BodyEscapes at h
  unfold seenBytes
  rcases hloads : lib.loadsBytes body with e | v
  · rw [hloads] at h
    cases e with
    | jsonDecodeError => exact (hm.bytesNoDocument body (.inl hloads)).symm
    | unicodeDecodeError => exact (hm.bytesNoDocument body (.inr hloads)).symm
    | valueError | recursionError => exact absurd trivial h
  · exact (hm.bytesValue body v hloads).symm

/-- The events of a stream no line of which escapes. -/
theorem Meaning.events_eq (hm : Meaning lib reads readsBytes) {stdout : PyStr}
    (h : ∀ line ∈ splitLines stdout,¬LineEscapes lib line) :
    events (seen lib) stdout=events reads stdout := by
  refine List.filterMap_congr fun line hline => ?_
  unfold lineObject
  split
  next => rfl
  next hstrip => rw [hm.seen_eq fun hescapes => h line hline ⟨hstrip,hescapes⟩]

/-- The usage that lines carry none of which escapes. -/
theorem Meaning.mergedUsage_eq (hm : Meaning lib reads readsBytes) {rawLines : List PyStr}
    (h : ∀ rawLine ∈ rawLines,∀ payload ∈ payloadOf rawLine,¬Escapes lib payload) (merged : List (PyStr × Json)) :
    mergedUsage (seen lib) rawLines merged=mergedUsage reads rawLines merged := by
  induction rawLines generalizing merged with
  | nil => rfl
  | cons rawLine rest ih =>
    have hline : lineUsage (seen lib) rawLine=lineUsage reads rawLine := by
      unfold lineUsage
      rcases hpayload : payloadOf rawLine with _ | payload
      · rfl
      · rw [Option.bind_some,Option.bind_some,hm.seen_eq (h rawLine List.mem_cons_self payload hpayload)]
    have hrest := ih (fun line hl => h line (List.mem_cons_of_mem rawLine hl))
      (update merged (lineUsage reads rawLine))
    unfold mergedUsage at hrest ⊢
    rw [List.foldl_cons,List.foldl_cons,hline]
    exact hrest

/-- What a response says whose usage can be read. -/
theorem Meaning.relayOutput_eq (hm : Meaning lib reads readsBytes) {response : UpstreamResponse}
    (h : response.statusCode=200 → SourceReadable lib response) :
    relayOutput (seen lib) lib (seenBytes lib response.body) response=
      relayOutput reads lib (readsBytes response.body) response := by
  unfold relayOutput
  split
  next hstatus =>
    have hsource := h hstatus
    have hblock : relayBlock (seen lib) (seenBytes lib response.body) response=
        relayBlock reads (readsBytes response.body) response := by
      unfold SourceReadable at hsource
      unfold relayBlock
      split at hsource
      next hstream => rw [if_pos hstream,if_pos hstream,hm.mergedUsage_eq hsource]
      next hstream => rw [if_neg hstream,if_neg hstream,hm.seenBytes_eq hsource]
    rw [hblock]
  next => rfl

/-- An object that is seen in a text is what the text says. -/
theorem Meaning.seen_obj (hm : Meaning lib reads readsBytes) {text : PyStr} {document : List (PyStr × Json)}
    (h : seen lib text=some (.obj document)) : reads text=some (.obj document) := by
  unfold seen at h
  rcases hloads : lib.loads text with e | v
  · rw [hloads] at h
    exact nomatch h
  · rw [hloads] at h
    cases h
    exact hm.value text _ hloads

/-- An object that is seen in a line is the line's. -/
theorem Meaning.lineObject_seen (hm : Meaning lib reads readsBytes) {line : PyStr} {event : List (PyStr × Json)}
    (h : lineObject (seen lib) line=some event) : lineObject reads line=some event := by
  unfold lineObject at h ⊢
  split at h
  · exact nomatch h
  next hstrip =>
    rw [if_neg hstrip]
    split at h
    next event' hseen =>
      rw [hm.seen_obj hseen]
      exact h
    · exact nomatch h

end Meaning

section Holders
variable (lib : UsageLibrary) (reads : PyStr → Option Json)

/-- The line that holds the last result of a text. -/
def lastResultLine (stdout : PyStr) : Option PyStr :=
  ((splitLines stdout).filter fun line => ((lineObject reads line).filter isResult).isSome).getLast?

/-- The text that holds the result object: the whole text where that is an object, and otherwise
the last line that is a result. -/
def holder (stdout : PyStr) : Option PyStr :=
  if strip stdout=[] then none
  else if (wholeObject reads stdout).isSome=true then some (strip stdout)
  else (lastResultLine reads stdout).map strip

/-- `json.loads` refuses the text that holds the result object. -/
def PassedOver (stdout : PyStr) : Prop := ∃ text∈holder reads stdout,Escapes lib text

/-- The last result among the lines that `json.loads` reads. -/
def lastSeen (stdout : PyStr) : Option (List (PyStr × Json)) := ((events (seen lib) stdout).filter isResult).getLast?

end Holders

section Found
variable {lib : UsageLibrary} {reads : PyStr → Option Json} {readsBytes : Bytes → Option Json}

/-- The last result of some lines is the object of the last line that holds one. -/
theorem lastResult_eq (read : PyStr → Option Json) (lines : List PyStr) :
    ((lines.filterMap (lineObject read)).filter isResult).getLast?=
      ((lines.filter fun line => ((lineObject read line).filter isResult).isSome).getLast?).bind
        (lineObject read) := by
  induction lines using List.reverseRecOn with
  | nil => rfl
  | append_singleton lines line ih =>
    rw [List.filterMap_append,List.filter_append,List.filter_append]
    cases hobject : lineObject read line with
    | none =>
      rw [List.filterMap_cons_none hobject,List.filterMap_nil,List.filter_nil,List.append_nil,ih,
        List.filter_cons_of_neg (by rw [hobject]; exact Bool.false_ne_true),List.filter_nil,List.append_nil]
    | some event =>
      rw [List.filterMap_cons_some hobject,List.filterMap_nil]
      cases hresult : isResult event with
      | true =>
        rw [List.filter_cons_of_pos hresult,List.filter_nil,List.getLast?_concat,
          List.filter_cons_of_pos (by rw [hobject,Option.filter_some_pos hresult]; rfl),List.filter_nil,
          List.getLast?_concat,Option.bind_some,hobject]
      | false =>
        rw [List.filter_cons_of_neg (Bool.not_eq_true _ ▸ hresult),List.filter_nil,List.append_nil,ih,
          List.filter_cons_of_neg (by
            rw [hobject,Option.filter_some_neg (Bool.not_eq_true _ ▸ hresult)]
            exact Bool.false_ne_true),List.filter_nil,List.append_nil]

/-- The last element that passes a test passes a stronger one: then it is the last that does. -/
theorem getLast?_filter_stronger {α : Type} {p q : α → Bool} (hqp : ∀ a,q a=true → p a=true) {l : List α} {a : α}
    (hlast : (l.filter p).getLast?=some a) (ha : q a=true) : (l.filter q).getLast?=some a := by
  induction l using List.reverseRecOn with
  | nil => exact nomatch hlast
  | append_singleton l b ih =>
    rw [List.filter_append] at hlast ⊢
    by_cases hp : p b=true
    · rw [List.filter_cons_of_pos hp,List.filter_nil,List.getLast?_concat] at hlast
      cases hlast
      rw [List.filter_cons_of_pos ha,List.filter_nil,List.getLast?_concat]
    · have hq : ¬q b=true := fun hb => hp (hqp b hb)
      rw [List.filter_cons_of_neg hp,List.filter_nil,List.append_nil] at hlast
      rw [List.filter_cons_of_neg hq,List.filter_nil,List.append_nil]
      exact ih hlast

/-- Where a text as a whole is no object, none is seen in it. -/
theorem Meaning.wholeObject_seen (hm : Meaning lib reads readsBytes) {stdout : PyStr}
    (h : wholeObject reads stdout=none) : wholeObject (seen lib) stdout=none := by
  cases hseen : wholeObject (seen lib) stdout with
  | none => rfl
  | some document =>
    have hobject : seen lib (strip stdout)=some (.obj document) := by
      unfold wholeObject at hseen
      split at hseen
      next document' hread =>
        cases hseen
        exact hread
      · exact nomatch hseen
    unfold wholeObject at h
    rw [hm.seen_obj hobject] at h
    exact nomatch h

/-- The last result that is seen is the last one there is, unless its line is refused. -/
theorem Meaning.lastSeen_eq (hm : Meaning lib reads readsBytes) {stdout : PyStr}
    (h : ∀ line∈lastResultLine reads stdout,¬Escapes lib (strip line)) :
    lastSeen lib stdout=((events reads stdout).filter isResult).getLast? := by
  -- A line that is seen to be a result is one.
  have hstronger : ∀ line,((lineObject (seen lib) line).filter isResult).isSome=true →
      ((lineObject reads line).filter isResult).isSome=true := by
    intro line hseen
    cases hobject : lineObject (seen lib) line with
    | none =>
      rw [hobject] at hseen
      exact nomatch hseen
    | some event =>
      rw [hm.lineObject_seen hobject]
      rwa [hobject] at hseen
  unfold lastSeen events
  rw [lastResult_eq,lastResult_eq]
  cases hlast : lastResultLine reads stdout with
  | none =>
    have hnone : (splitLines stdout).filter (fun line => ((lineObject reads line).filter isResult).isSome)=[] :=
      List.getLast?_eq_none_iff.mp hlast
    have hseen : (splitLines stdout).filter (fun line => ((lineObject (seen lib) line).filter isResult).isSome)=[] := by
      refine List.filter_eq_nil_iff.mpr fun line hline hresult => ?_
      exact List.filter_eq_nil_iff.mp hnone line hline (hstronger line hresult)
    rw [hnone,hseen]
    rfl
  | some line =>
    have hread : lineObject (seen lib) line=lineObject reads line := by
      unfold lineObject
      rw [hm.seen_eq (h line hlast)]
    have hresult : ((lineObject reads line).filter isResult).isSome=true := by
      have hmem := List.mem_of_getLast? hlast
      exact (List.mem_filter.mp hmem).2
    have hlastSeen := getLast?_filter_stronger hstronger hlast (by rw [hread]; exact hresult)
    unfold lastResultLine at hlast
    rw [hlast,hlastSeen,Option.bind_some,Option.bind_some,hread]

/-- Unless it is passed over, the result object that is found is the right one. -/
theorem Meaning.resultObject_kept (hm : Meaning lib reads readsBytes) {stdout : PyStr}
    (h : ¬PassedOver lib reads stdout) : resultObject (seen lib) stdout=resultObject reads stdout := by
  unfold resultObject
  by_cases hempty : strip stdout=[]
  · rw [if_pos hempty,if_pos hempty]
  · rw [if_neg hempty,if_neg hempty]
    cases hwhole : wholeObject reads stdout with
    | some document =>
      have hholder : holder reads stdout=some (strip stdout) := by
        unfold holder
        rw [if_neg hempty,hwhole]
        rfl
      have hread : seen lib (strip stdout)=reads (strip stdout) :=
        hm.seen_eq fun hescapes => h ⟨strip stdout,hholder,hescapes⟩
      have hsame : wholeObject (seen lib) stdout=wholeObject reads stdout := by
        unfold wholeObject
        rw [hread]
      rw [hsame,hwhole]
      rfl
    | none =>
      rw [hm.wholeObject_seen hwhole,Option.none_or,Option.none_or]
      refine hm.lastSeen_eq fun line hline hescapes => h ⟨strip line,?_,hescapes⟩
      unfold holder
      rw [if_neg hempty,hwhole,hline]
      rfl

/-- Where it is passed over, the last result among the lines that are read is found. -/
theorem Meaning.resultObject_passed (hm : Meaning lib reads readsBytes) {stdout : PyStr}
    (h : PassedOver lib reads stdout) : resultObject (seen lib) stdout=lastSeen lib stdout := by
  obtain ⟨text,hholder,hescapes⟩ := h
  unfold holder at hholder
  split at hholder
  · exact nomatch hholder
  next hempty =>
    have hwhole : wholeObject (seen lib) stdout=none := by
      split at hholder
      next =>
        cases hholder
        have hseen : seen lib (strip stdout)=none := by
          unfold Escapes at hescapes
          unfold seen
          cases hloads : lib.loads (strip stdout) with
          | ok v =>
            rw [hloads] at hescapes
            exact hescapes.elim
          | error e => rfl
        unfold wholeObject
        rw [hseen]
      next hnot =>
        refine hm.wholeObject_seen ?_
        cases hread : wholeObject reads stdout with
        | none => rfl
        | some document =>
          rw [hread] at hnot
          exact absurd rfl hnot
    unfold resultObject lastSeen
    rw [if_neg hempty,hwhole,Option.none_or]

end Found

section Same
variable (lib : UsageLibrary)

/-- The result text of a document. -/
def resultText (doc : List (PyStr × Json)) : Option PyStr :=
  match getItem doc "result" with
  | some (.str text) => some text
  | _ => none

/-- Two texts are the same up to a newline at the end. -/
def SameLine (text text' : PyStr) : Prop :=
  text=text' ∨ (text≠[] ∧ text.getLast?≠some 0x0A ∧ text'=text ++ [0x0A]) ∨
    (text'≠[] ∧ text'.getLast?≠some 0x0A ∧ text=text' ++ [0x0A])

/-- Two blocks have the same counts under some keys. -/
def SameCounts (block block' : List (PyStr × Json)) (keys : List String) : Prop :=
  ∀ key∈keys,count lib (getItem block key)=count lib (getItem block' key)

/-- Two documents report the same usage to Claude's parser. -/
def SameClaudeUsage (doc doc' : List (PyStr × Json)) : Prop :=
  SameCounts lib (dictOrEmpty (getItem doc "usage")) (dictOrEmpty (getItem doc' "usage"))
      ["input_tokens","output_tokens","cache_read_input_tokens","cache_creation_input_tokens"] ∧
    amount lib (getItem doc "total_cost_usd")=amount lib (getItem doc' "total_cost_usd") ∧
    pickItems doc ["usage","modelUsage","total_cost_usd"]=pickItems doc' ["usage","modelUsage","total_cost_usd"]

/-- Two documents report the same usage to Cursor's parser: the same block, if there is one. -/
def SameCursorUsage (doc doc' : List (PyStr × Json)) : Prop :=
  asDict (getItem doc "usage")=asDict (getItem doc' "usage")

/-- Two results answer the same: both have no text, or both have the same one and the same usage. -/
def SameAnswer (sameUsage : List (PyStr × Json) → List (PyStr × Json) → Prop)
    (found found' : Option (List (PyStr × Json))) : Prop :=
  (found.bind resultText=none ∧ found'.bind resultText=none) ∨
    ∃ doc doc' text text',found=some doc ∧ found'=some doc' ∧ resultText doc=some text ∧ resultText doc'=some text' ∧
      SameLine text text' ∧ sameUsage doc doc'

/-- A result whose text is the whole output and that has no usage. -/
def Echoes (hasUsage : List (PyStr × Json) → Prop) (stdout : PyStr) (found : Option (List (PyStr × Json))) : Prop :=
  ∃ doc text,found=some doc ∧ resultText doc=some text ∧ ensureTrailingNewline text=stdout ∧ ¬hasUsage doc

variable {lib : UsageLibrary}

/-- A newline is ensured to the same text exactly where the texts differ by it at most. -/
theorem ensureTrailingNewline_eq {text text' : PyStr} :
    ensureTrailingNewline text=ensureTrailingNewline text' ↔ SameLine text text' := by
  have hends : ∀ {t : PyStr},(t ++ [(0x0A : Fin 0x110000)]).getLast?=some 0x0A := List.getLast?_concat
  unfold ensureTrailingNewline SameLine
  split
  next h =>
    split
    next h' =>
      refine ⟨fun heq => .inl (List.append_cancel_right heq),fun hsame => ?_⟩
      rcases hsame with rfl | ⟨_,_,rfl⟩ | ⟨_,_,rfl⟩
      · rfl
      · exact absurd hends h'.2
      · exact absurd hends h.2
    next h' =>
      refine ⟨fun heq => .inr (.inl ⟨h.1,h.2,heq.symm⟩),fun hsame => ?_⟩
      rcases hsame with rfl | ⟨_,_,heq⟩ | ⟨hne,hlast,_⟩
      · exact absurd h h'
      · exact heq.symm
      · exact absurd ⟨hne,hlast⟩ h'
  next h =>
    split
    next h' =>
      refine ⟨fun heq => .inr (.inr ⟨h'.1,h'.2,heq⟩),fun hsame => ?_⟩
      rcases hsame with rfl | ⟨hne,hlast,_⟩ | ⟨_,_,heq⟩
      · exact absurd h' h
      · exact absurd ⟨hne,hlast⟩ h
      · exact heq
    next h' =>
      refine ⟨.inl,fun hsame => ?_⟩
      rcases hsame with heq | ⟨hne,hlast,_⟩ | ⟨hne,hlast,_⟩
      · exact heq
      · exact absurd ⟨hne,hlast⟩ h
      · exact absurd ⟨hne,hlast⟩ h'

/-- Claude's usage of two documents is the same exactly where its fields are. -/
theorem claudeSays_eq {doc doc' : List (PyStr × Json)} :
    claudeSays lib doc=claudeSays lib doc' ↔ SameClaudeUsage lib doc doc' := by
  simp only [claudeSays,TokenUsage.mk.injEq,SameClaudeUsage,SameCounts,List.forall_mem_cons,List.not_mem_nil,
    IsEmpty.forall_iff,implies_true,and_true,true_and,and_assoc]

/-- So is Cursor's, of the blocks that they hold. -/
theorem cursorSays_eq {doc doc' : List (PyStr × Json)} :
    (asDict (getItem doc "usage")).map (cursorSays lib)=(asDict (getItem doc' "usage")).map (cursorSays lib) ↔
      SameCursorUsage doc doc' := by
  unfold SameCursorUsage
  refine ⟨fun heq => Option.map_injective (fun block block' hsays => ?_) heq,fun hsame => by rw [hsame]⟩
  exact congrArg TokenUsage.raw hsays

/-- The output that a parser makes of what it found, by what it takes for the usage. -/
def outputOf (usage : List (PyStr × Json) → Option TokenUsage) (stdout : PyStr)
    (found : Option (List (PyStr × Json))) : ParsedOutput :=
  match found with
  | none => ⟨stdout,none⟩
  | some doc =>
    match resultText doc with
    | some text => ⟨ensureTrailingNewline text,usage doc⟩
    | none => ⟨stdout,none⟩

/-- Claude's output is made so. -/
theorem claudeOutput_eq (stdout : PyStr) (found : Option (List (PyStr × Json))) :
    claudeOutput lib stdout found=outputOf (fun doc => some (claudeSays lib doc)) stdout found := by
  cases found with
  | none => rfl
  | some doc =>
    unfold claudeOutput outputOf resultText
    dsimp only
    rcases getItem doc "result" with _ | value
    · rfl
    · cases value <;> rfl

/-- So is Cursor's. -/
theorem cursorOutput_eq (stdout : PyStr) (found : Option (List (PyStr × Json))) :
    cursorOutput lib stdout found=
      outputOf (fun doc => (asDict (getItem doc "usage")).map (cursorSays lib)) stdout found := by
  cases found with
  | none => rfl
  | some doc =>
    unfold cursorOutput outputOf resultText asDict
    dsimp only
    rcases getItem doc "result" with _ | value
    · rfl
    · cases value with
      | str text =>
        dsimp only
        rcases getItem doc "usage" with _ | usage
        · rfl
        · cases usage <;> rfl
      | null | bool | int | float | arr | obj => rfl

/-- A result is no document, a document without a text, or one with a text. -/
theorem resultText_cases (found : Option (List (PyStr × Json))) :
    found=none ∨ (∃ doc,found=some doc ∧ resultText doc=none) ∨ ∃ doc text,found=some doc ∧ resultText doc=some text := by
  cases found with
  | none => exact .inl rfl
  | some doc =>
    cases htext : resultText doc with
    | none => exact .inr (.inl ⟨doc,rfl,htext⟩)
    | some text => exact .inr (.inr ⟨doc,text,rfl,htext⟩)

/-- When two results make the same output. -/
theorem outputOf_same {usage : List (PyStr × Json) → Option TokenUsage} {stdout : PyStr}
    {found found' : Option (List (PyStr × Json))} :
    outputOf usage stdout found=outputOf usage stdout found' ↔
      SameAnswer (fun doc doc' => usage doc=usage doc') found found' ∨
        (Echoes (fun doc => usage doc≠none) stdout found ∧ found'.bind resultText=none) ∨
          (found.bind resultText=none ∧ Echoes (fun doc => usage doc≠none) stdout found') := by
  unfold SameAnswer Echoes outputOf
  rcases resultText_cases found with rfl | ⟨doc,rfl,h⟩ | ⟨doc,text,rfl,h⟩
  · rcases resultText_cases found' with rfl | ⟨doc',rfl,h'⟩ | ⟨doc',text',rfl,h'⟩
    · simp
    · simp [h']
    · simp [h',eq_comm]
  · rcases resultText_cases found' with rfl | ⟨doc',rfl,h'⟩ | ⟨doc',text',rfl,h'⟩
    · simp [h]
    · simp [h,h']
    · simp [h,h',eq_comm]
  · rcases resultText_cases found' with rfl | ⟨doc',rfl,h'⟩ | ⟨doc',text',rfl,h'⟩
    · simp [h]
    · simp [h,h']
    · simp [h,h',ensureTrailingNewline_eq]

/-- When two results make the same output of Claude's parser. -/
theorem claudeOutput_same {stdout : PyStr} {found found' : Option (List (PyStr × Json))} :
    claudeOutput lib stdout found=claudeOutput lib stdout found' ↔
      SameAnswer (SameClaudeUsage lib) found found' := by
  rw [claudeOutput_eq,claudeOutput_eq,outputOf_same]
  simp [Echoes,SameAnswer,claudeSays_eq]

/-- When two results make the same output of Cursor's parser. -/
theorem cursorOutput_same {stdout : PyStr} {found found' : Option (List (PyStr × Json))} :
    cursorOutput lib stdout found=cursorOutput lib stdout found' ↔
      SameAnswer SameCursorUsage found found' ∨
        (Echoes (fun doc => asDict (getItem doc "usage")≠none) stdout found ∧ found'.bind resultText=none) ∨
          (found.bind resultText=none ∧ Echoes (fun doc => asDict (getItem doc "usage")≠none) stdout found') := by
  rw [cursorOutput_eq,cursorOutput_eq,outputOf_same]
  simp only [cursorSays_eq,Option.map_eq_none_iff,ne_eq]

end Same

/-- Two results answer the same to Cursor's parser. A result without a usage may also have the
whole output for its text. -/
def SameCursorAnswer (stdout : PyStr) (found found' : Option (List (PyStr × Json))) : Prop :=
  SameAnswer SameCursorUsage found found' ∨
    (Echoes (fun doc => asDict (getItem doc "usage")≠none) stdout found ∧ found'.bind resultText=none) ∨
      (found.bind resultText=none ∧ Echoes (fun doc => asDict (getItem doc "usage")≠none) stdout found')

/-- When a parser of one result object gives back what an output says: no text that is looked at
nests too deep; unless `json.loads` refuses the text that holds the result, the usage of the
result is read; and where it is refused, the last result among the lines that are read has a
usage that is read, and answers the same. -/
structure ResultKept (lib : UsageLibrary) (reads : PyStr → Option Json)
    (readable : Option (List (PyStr × Json)) → Prop)
    (same : Option (List (PyStr × Json)) → Option (List (PyStr × Json)) → Prop) (stdout : PyStr) : Prop where
  /-- No RecursionError. -/
  shallow : ResultReadable lib stdout
  /-- The usage of the result is read. -/
  kept : ¬PassedOver lib reads stdout → readable (resultObject reads stdout)
  /-- The result that is left answers the same. -/
  passed : PassedOver lib reads stdout →
    readable (lastSeen lib stdout) ∧ same (lastSeen lib stdout) (resultObject reads stdout)

section Parsers
variable {lib : UsageLibrary} {reads : PyStr → Option Json} {readsBytes : Bytes → Option Json}

/-- A parser of one result object, by whether its usage is read and what two results make of
the output. -/
theorem Meaning.resultKept_iff (hm : Meaning lib reads readsBytes) {stdout : PyStr}
    {readable : Option (List (PyStr × Json)) → Prop}
    {same : Option (List (PyStr × Json)) → Option (List (PyStr × Json)) → Prop}
    (output : Option (List (PyStr × Json)) → ParsedOutput)
    (hsame : ∀ found found',output found=output found' ↔ same found found') :
    (ResultReadable lib stdout ∧ readable (resultObject (seen lib) stdout)) ∧
        output (resultObject (seen lib) stdout)=output (resultObject reads stdout) ↔
      ResultKept lib reads readable same stdout := by
  by_cases hpassed : PassedOver lib reads stdout
  · rw [hm.resultObject_passed hpassed,hsame]
    exact ⟨fun h => ⟨h.1.1,fun hkept => absurd hpassed hkept,fun _ => ⟨h.1.2,h.2⟩⟩,
      fun h => ⟨⟨h.shallow,(h.passed hpassed).1⟩,(h.passed hpassed).2⟩⟩
  · rw [hm.resultObject_kept hpassed]
    exact ⟨fun h => ⟨h.1.1,fun _ => h.1.2,fun hp => absurd hp hpassed⟩,
      fun h => ⟨⟨h.shallow,h.kept hpassed⟩,rfl⟩⟩

/-- The four parsers give back the answer and the usage of what they are handed exactly when:
nothing they hand to `json.loads` raises what they do not catch there; for Claude and Cursor,
the text that holds the result object is not refused by `json.loads`, or the last result line
that is read answers the same; no count or cost of the usage that is read is out of range, and
its block does not nest beyond the recursion limit. -/
theorem usage_never_costs_iff (hm : Meaning lib reads readsBytes) (stdout : PyStr) (response : UpstreamResponse) :
    (claudeParseOutput lib stdout=.ok (claudeOutput lib stdout (resultObject reads stdout)) ↔
      ResultKept lib reads (ClaudeUsageReadable lib) (SameAnswer (SameClaudeUsage lib)) stdout) ∧
    (cursorParseOutput lib stdout=.ok (cursorOutput lib stdout (resultObject reads stdout)) ↔
      ResultKept lib reads (CursorUsageReadable lib) (SameCursorAnswer stdout) stdout) ∧
    (codexParseOutput lib stdout=.ok (codexOutput lib stdout (events reads stdout)) ↔
      CodexStreamReadable lib stdout) ∧
    (toAnswer lib.toJsonLibrary response.statusCode response.contentType response.body=
        .ok (relayOutput reads lib (readsBytes response.body) response) ↔ AnswerReadable lib response) := by
  refine ⟨?_,?_,?_,?_⟩
  · exact ((okWhen_claude lib stdout).eq_ok_iff _).trans
      (hm.resultKept_iff (claudeOutput lib stdout) fun _ _ => claudeOutput_same)
  · exact ((okWhen_cursor lib stdout).eq_ok_iff _).trans
      (hm.resultKept_iff (cursorOutput lib stdout) fun _ _ => cursorOutput_same)
  · refine ((okWhen_codex lib stdout).eq_ok_iff _).trans (and_iff_left_of_imp fun hreadable => ?_)
    rw [hm.events_eq hreadable.1]
  · refine ((okWhen_relay lib response).eq_ok_iff _).trans (and_iff_left_of_imp fun hreadable => ?_)
    exact hm.relayOutput_eq fun hstatus => (hreadable hstatus).1

end Parsers

/-- The integer part of a finite float. -/
def truncated (bits : UInt64) : ℤ :=
  let exponent := (bits.toNat/2^52)%2^11
  let mantissa := bits.toNat%2^52+if exponent=0 then 0 else 2^52
  let magnitude : ℕ := if 1075 ≤ exponent then mantissa*2^(exponent-1075) else mantissa/2^(1075-max exponent 1)
  if bits.toNat < 2^63 then magnitude else -magnitude

/-- `int(value)`, where no text is a number. -/
def intOf : Json → Except IntError ℤ
  | .int n => .ok n
  | .bool b => .ok (if b then 1 else 0)
  | .float bits =>
    if isFinite bits=true then .ok (truncated bits)
    else if bits=infBits ∨ bits=negInfBits then
      .error (.overflowError (pyStr "cannot convert float infinity to integer"))
    else .error .valueError
  | .str _ => .error .valueError
  | .null | .arr _ | .obj _ => .error .typeError

/-- `float(value)`, where no text is a number and no integer is converted. -/
def floatOf : Json → Except IntError UInt64
  | .float bits => .ok bits
  | .str _ | .int _ | .bool _ => .error .valueError
  | .null | .arr _ | .obj _ => .error .typeError

/-- The library with the scanner, where every decimal text is beyond the range of floats. -/
def scanningLibrary : UsageLibrary where
  loads := loads fun _ => infBits
  loadsBytes body :=
    match decodeUtf8 body with
    | some text => loads (fun _ => infBits) text
    | none => .error .unicodeDecodeError
  int := intOf
  replaced _ := []
  float := floatOf
  freeze _ := .ok ()

/-- The texts of a library may say what it sees in them. -/
theorem seen_meaning (lib : UsageLibrary) : Meaning lib (seen lib) (seenBytes lib) where
  value text v h := by rw [seen,h]; rfl
  noDocument text h := by rw [seen,h]; rfl
  bytesValue body v h := by rw [seenBytes,h]; rfl
  bytesNoDocument body h := by rcases h with h | h <;> (rw [seenBytes,h]; rfl)

/-- A result whose count of input tokens is beyond the range of floats. -/
def infiniteCount : PyStr :=
  pyStr "\x7b\"type\":\"result\",\"result\":\"hi\",\"usage\":\x7b\"input_tokens\":1e999\x7d\x7d"

/-- Whether a computation raises. -/
def raises {α : Type} (x : Except PyExc α) : Bool :=
  match x with
  | .error _ => true
  | .ok _ => false

/-- The status of a success. -/
theorem ok_isStatus : 100 ≤ 200 ∧ 200 ≤ 999 := by decide

/-- The text of two braces. -/
theorem decodes_braces : decodeUtf8 [0x7b,0x7d]=some (pyStr "\x7b\x7d") := by decide

/-- Two octets are no long body. -/
theorem braces_fit : ([0x7b,0x7d] : Bytes).length < 2^63 := by decide

/-- An empty answer without a usage. -/
def emptyAnswer : UpstreamResponse where
  statusCode := 200
  contentType := pyStr "application/json"
  body := [0x7b,0x7d]
  isStatus := ok_isStatus
  text := pyStr "\x7b\x7d"
  decodes := decodes_braces
  fits := braces_fit

/-- One infinite count, and Claude's parser raises instead of giving the answer back. -/
theorem usage_costs_the_answer :
    ¬∀ (lib : UsageLibrary) (reads : PyStr → Option Json) (readsBytes : Bytes → Option Json),
      Meaning lib reads readsBytes → ∀ (stdout : PyStr) (response : UpstreamResponse),
        claudeParseOutput lib stdout=.ok (claudeOutput lib stdout (resultObject reads stdout)) ∧
        cursorParseOutput lib stdout=.ok (cursorOutput lib stdout (resultObject reads stdout)) ∧
        codexParseOutput lib stdout=.ok (codexOutput lib stdout (events reads stdout)) ∧
        toAnswer lib.toJsonLibrary response.statusCode response.contentType response.body=
          .ok (relayOutput reads lib (readsBytes response.body) response) := by
  intro h
  have hclaude := (h scanningLibrary _ _ (seen_meaning scanningLibrary) infiniteCount emptyAnswer).1
  have hraises : raises (claudeParseOutput scanningLibrary infiniteCount)=true := by decide +kernel
  rw [hclaude] at hraises
  exact nomatch hraises

/-- Looking up a key, item by item. -/
theorem getItem_cons (key : String) (k : PyStr) (value : Json) (fields : List (PyStr × Json)) :
    getItem ((k,value)::fields) key=if k=pyStr key then some value else getItem fields key := by
  unfold getItem
  by_cases hkey : k=pyStr key
  · rw [List.find?_cons_of_pos (by simp [hkey]),if_pos hkey]
    rfl
  · rw [List.find?_cons_of_neg (by simp [hkey]),if_neg hkey]

/-- A block with a count. -/
def countedBlock : List (PyStr × Json) := [(pyStr "input_tokens",.int 3)]

/-- A document with a result and that block. -/
def countedDocument : List (PyStr × Json) :=
  [(pyStr "type",.str (pyStr "result")),(pyStr "result",.str (pyStr "hi")),(pyStr "usage",.obj countedBlock)]

/-- The block has one item. -/
theorem getItem_countedBlock (key : String) :
    getItem countedBlock key=if pyStr "input_tokens"=pyStr key then some (.int 3) else none :=
  getItem_cons key _ _ []

/-- The document has three. -/
theorem getItem_countedDocument (key : String) : getItem countedDocument key=
    if pyStr "type"=pyStr key then some (.str (pyStr "result"))
    else if pyStr "result"=pyStr key then some (.str (pyStr "hi"))
    else if pyStr "usage"=pyStr key then some (.obj countedBlock) else none := by
  unfold countedDocument
  rw [getItem_cons,getItem_cons,getItem_cons]
  rfl

/-- Its text. -/
def countedText : PyStr := renderValue sampleCodec.floatRepr (.obj countedDocument)

/-- The library whose floats are those of a codec. -/
def codecLibrary : UsageLibrary where
  loads := loads sampleCodec.parseFloat
  loadsBytes _ := .ok (.obj [])
  int := intOf
  replaced _ := []
  float := floatOf
  freeze _ := .ok ()

/-- The text is read as the document. -/
theorem loads_counted : codecLibrary.loads (strip countedText)=.ok (.obj countedDocument) := by
  have hstrip : strip countedText=countedText := by decide +kernel
  have hreadable : readable (.obj countedDocument)=true := by decide +kernel
  have hlib : codecLibrary.loads=loads sampleCodec.parseFloat := rfl
  have hread := (loads_dumps sampleCodec hreadable).2
  rw [hstrip,hlib]
  unfold countedText
  rw [hread]

/-- The text is one line. -/
theorem splitLines_counted : splitLines countedText=[countedText] := by decide +kernel

/-- It is not blank. -/
theorem strip_counted : strip countedText≠[] := by decide +kernel

/-- What is seen in it is the document. -/
theorem seen_counted : seen codecLibrary (strip countedText)=some (.obj countedDocument) := by
  rw [seen,loads_counted]
  rfl

/-- `json.loads` refuses nothing in it. -/
theorem accepted_counted : ¬Escapes codecLibrary (strip countedText) := by
  unfold Escapes
  rw [loads_counted]
  exact id

/-- The document as a whole. -/
theorem wholeObject_counted : wholeObject (seen codecLibrary) countedText=some countedDocument := by
  unfold wholeObject
  rw [seen_counted]

/-- The document is the result. -/
theorem resultObject_counted : resultObject (seen codecLibrary) countedText=some countedDocument := by
  unfold resultObject
  rw [if_neg strip_counted,wholeObject_counted]
  rfl

/-- A parser of one result object keeps it, where its usage is read. -/
theorem resultKept_counted {readable : Option (List (PyStr × Json)) → Prop}
    {same : Option (List (PyStr × Json)) → Option (List (PyStr × Json)) → Prop}
    (h : readable (some countedDocument)) :
    ResultKept codecLibrary (seen codecLibrary) readable same countedText := by
  refine ⟨.inr ⟨?_,.inl (by rw [wholeObject_counted]; rfl)⟩,fun _ => by rwa [resultObject_counted],?_⟩
  · rintro ⟨message,hdeep⟩
    exact nomatch loads_counted.symm.trans hdeep
  · rintro ⟨text,hholder,hescapes⟩
    unfold holder at hholder
    rw [if_neg strip_counted,wholeObject_counted,Option.isSome_some,if_pos rfl] at hholder
    have htext : strip countedText=text := Option.mem_some_iff.mp hholder
    have haccepted : ¬Escapes codecLibrary text := by
      rw [← htext]
      exact accepted_counted
    exact absurd hescapes haccepted

/-- Its counts are read, whatever their names. -/
theorem countsReadable_counted (keys : List String) : CountsReadable codecLibrary countedBlock keys := by
  intro key _ hoverflows
  rw [getItem_countedBlock] at hoverflows
  split at hoverflows
  · obtain ⟨message,h⟩ := hoverflows
    exact nomatch h
  · exact hoverflows

/-- What the four parsers make of the text and of the empty object. -/
theorem usage_never_costs_counted :
    claudeParseOutput codecLibrary countedText=.ok ⟨pyStr "hi\n",some
      { inputTokens := some 3, raw := [(pyStr "usage",.obj countedBlock)] }⟩ ∧
    cursorParseOutput codecLibrary countedText=.ok ⟨pyStr "hi\n",some { raw := countedBlock }⟩ ∧
    codexParseOutput codecLibrary countedText=.ok ⟨countedText,none⟩ ∧
    toAnswer codecLibrary.toJsonLibrary emptyAnswer.statusCode emptyAnswer.contentType emptyAnswer.body=
      .ok { exitCode := 0, stdout := emptyAnswer.text } := by
  obtain ⟨hclaude,hcursor,hcodex,hrelay⟩ :=
    usage_never_costs_iff (seen_meaning codecLibrary) countedText emptyAnswer
  have hnewline : ensureTrailingNewline (pyStr "hi")=pyStr "hi\n" := by decide +kernel
  have hresult : getItem countedDocument "result"=some (.str (pyStr "hi")) := by
    rw [getItem_countedDocument,if_neg (by decide +kernel),if_pos rfl]
  have husage : getItem countedDocument "usage"=some (.obj countedBlock) := by
    rw [getItem_countedDocument,if_neg (by decide +kernel),if_neg (by decide +kernel),if_pos rfl]
  have hnone : ∀ key : String,pyStr "type"≠pyStr key → pyStr "result"≠pyStr key → pyStr "usage"≠pyStr key →
      getItem countedDocument key=none := by
    intro key h h' h''
    rw [getItem_countedDocument,if_neg h,if_neg h',if_neg h'']
  have hcost := hnone "total_cost_usd" (by decide +kernel) (by decide +kernel) (by decide +kernel)
  have hmodels := hnone "modelUsage" (by decide +kernel) (by decide +kernel) (by decide +kernel)
  have hcount : count codecLibrary (getItem countedBlock "input_tokens")=some 3 := by
    rw [getItem_countedBlock,if_pos rfl]
    rfl
  have hunknown : ∀ key : String,pyStr "input_tokens"≠pyStr key → count codecLibrary (getItem countedBlock key)=none := by
    intro key h
    rw [getItem_countedBlock,if_neg h]
    rfl
  have hevents : events (seen codecLibrary) countedText=[countedDocument] := by
    have hline : lineObject (seen codecLibrary) countedText=some countedDocument := by
      unfold lineObject
      rw [if_neg strip_counted,seen_counted]
    unfold events
    rw [splitLines_counted,List.filterMap_cons_some hline,List.filterMap_nil]
  have hsilent : codexAnswerOf [countedDocument]=none := by
    have htype : hasText countedDocument "type" "item.completed"=false := by
      unfold hasText
      rw [getItem_countedDocument,if_pos rfl]
      exact decide_eq_false (by decide +kernel)
    have hanswer : codexAnswer countedDocument=none := by
      unfold codexAnswer
      rw [htype]
      rfl
    unfold codexAnswerOf
    rw [List.filterMap_cons_none hanswer]
    rfl
  refine ⟨?_,?_,?_,?_⟩
  · rw [hclaude.mpr (resultKept_counted ?_),resultObject_counted]
    · simp only [claudeOutput,hresult,claudeSays,husage,dictOrEmpty,hcount,hunknown _ (by decide +kernel :
        pyStr "input_tokens"≠pyStr "output_tokens"),hunknown _ (by decide +kernel :
        pyStr "input_tokens"≠pyStr "cache_read_input_tokens"),hunknown _ (by decide +kernel :
        pyStr "input_tokens"≠pyStr "cache_creation_input_tokens"),hcost,hnewline,pickItems,hmodels,amount,number,
        List.filterMap_cons,List.filterMap_nil,Option.map_some,Option.map_none]
    · rintro doc ⟨⟩ _
      refine ⟨?_,?_,rfl⟩
      · rw [husage]
        exact countsReadable_counted _
      · rw [hcost]
        exact id
  · rw [hcursor.mpr (resultKept_counted ?_),resultObject_counted]
    · simp only [cursorOutput,hresult,husage,cursorSays,hunknown _ (by decide +kernel :
        pyStr "input_tokens"≠pyStr "inputTokens"),hunknown _ (by decide +kernel :
        pyStr "input_tokens"≠pyStr "outputTokens"),hunknown _ (by decide +kernel :
        pyStr "input_tokens"≠pyStr "cacheReadTokens"),hunknown _ (by decide +kernel :
        pyStr "input_tokens"≠pyStr "cacheWriteTokens"),hnewline]
    · rintro doc ⟨⟩ _ block hblock
      rw [husage] at hblock
      cases hblock
      exact ⟨countsReadable_counted _,rfl⟩
  · rw [hcodex.mpr ⟨fun line hline => ?_,fun hanswer => ?_⟩,hevents,codexOutput,hsilent]
    · rw [splitLines_counted] at hline
      rw [List.mem_singleton.mp hline]
      exact mt And.right accepted_counted
    · rw [hevents,hsilent] at hanswer
      exact nomatch hanswer
  · have hstream : ¬isEventStream emptyAnswer=true := by decide +kernel
    have hblock : seenBlock codecLibrary emptyAnswer=none := by
      unfold seenBlock relayBlock
      rw [if_neg hstream]
      rfl
    rw [hrelay.mpr fun _ => ⟨?_,fun block hb => ?_⟩]
    · have hstatus : emptyAnswer.statusCode=200 := rfl
      have hnoBlock : relayBlock (seen codecLibrary) (seenBytes codecLibrary emptyAnswer.body) emptyAnswer=none :=
        hblock
      unfold relayOutput
      rw [if_pos hstatus,hnoBlock]
      rfl
    · unfold SourceReadable
      rw [if_neg hstream]
      exact id
    · rw [hblock] at hb
      exact nomatch hb

end GenericMlCache.UsageAnswers
