import GenericMlCache.StreamedResults

/-!
# Streams and single objects

Whether a client's stream gives the same result as its last result line alone, and
whether Codex's stream gives the text of its last message.
-/

namespace GenericMlCache.StreamParity

open PythonText ExecutionModel MlExecutionCommands JsonText JsonGrammar GatewayRelay OutputParsing UsageReading
  StreamedResults

/-- A scan that raises a JSONDecodeError or a ValueError, if it raises. -/
def Plain {α : Type} (scan : Except LoadsError α) : Prop :=
  ∀ e,scan=.error e → e=.jsonDecodeError ∨ ∃ message,e=.valueError message

section Plain
variable {α β : Type}

/-- A scan that succeeds. -/
theorem plain_ok (a : α) : Plain (.ok a) := fun _ h => nomatch h

/-- A text that is no JSON. -/
theorem plain_decode : Plain (.error .jsonDecodeError : Except LoadsError α) :=
  fun _ h => .inl (Except.error.inj h).symm

/-- A scan whose result is packed. -/
theorem plain_map {scan : Except LoadsError α} (h : Plain scan) (f : α → β) : Plain (scan.map f) := by
  cases scan with
  | ok a => exact plain_ok (f a)
  | error e => exact fun d hd => h d (by rw [Except.error.inj hd])

/-- One scan after another. -/
theorem plain_then {scan : Scan α} {next : α → PyStr → Scan β} (h : Plain scan) (hnext : ∀ a rest,Plain (next a rest)) :
    Plain (scanThen scan next) := by
  cases scan with
  | ok r => exact hnext r.1 r.2
  | error e => exact fun d hd => h d (by rw [Except.error.inj hd])

/-- The units of a literal. -/
theorem plain_literalUnits (text : PyStr) : Plain (literalUnits text) := by
  fun_induction literalUnits text with
  | case1 | case3 | case5 | case6 | case8 | case9 => exact plain_decode
  | case2 => exact plain_ok _
  | case4 _ _ _ _ _ _ _ _ ih | case7 _ _ _ _ _ _ ih | case10 _ _ _ _ _ ih => exact plain_map ih _

/-- A number. -/
theorem plain_matchNumber (limit : Option ℕ) (parseFloat : PyStr → UInt64) (text : PyStr) :
    Plain (matchNumber limit parseFloat text) := by
  unfold matchNumber
  dsimp only
  split
  next => exact plain_decode
  next =>
    split
    next =>
      refine plain_map ?_ _
      unfold intOfDigits
      split
      next => exact plain_ok _
      next => exact fun e h => .inr ⟨_,(Except.error.inj h).symm⟩
    next => exact plain_ok _

/-- The scanner, a call deeper at a time. -/
theorem plain_scan (limit : Option ℕ) (parseFloat : PyStr → UInt64) (fuel : ℕ) :
    ∀ text,Plain (scanOnce limit parseFloat fuel text) ∧ Plain (scanItems limit parseFloat fuel text) ∧
      Plain (scanMembers limit parseFloat fuel text) := by
  induction fuel with
  | zero =>
    intro text
    rw [scanOnce,scanItems,scanMembers]
    exact ⟨plain_decode,plain_decode,plain_decode⟩
  | succ fuel ih =>
    intro text
    refine ⟨?_,?_,?_⟩
    · cases text with
      | nil => exact plain_decode
      | cons c rest =>
        rw [scanOnce]
        split
        next => exact plain_map (plain_map (plain_literalUnits rest) _) _
        split
        next =>
          split
          next => exact plain_ok _
          next => exact plain_map (ih _).2.2 _
        split
        next =>
          split
          next => exact plain_ok _
          next => exact plain_map (ih _).2.1 _
        next =>
          unfold scanScalar
          split
          next => exact plain_ok _
          next => exact plain_matchNumber limit parseFloat _
    · rw [scanItems]
      refine plain_then (ih text).1 fun value rest => ?_
      split
      next => exact plain_ok _
      next =>
        split
        next => exact plain_map (ih _).2.1 _
        next => exact plain_decode
    · rw [scanMembers]
      split
      next => exact plain_decode
      next body _ =>
        refine plain_then (plain_map (plain_literalUnits body) _) fun key rest => ?_
        split
        next => exact plain_decode
        next =>
          refine plain_then (ih _).1 fun value rest => ?_
          split
          next => exact plain_ok _
          next =>
            split
            next => exact plain_map (ih _).2.2 _
            next => exact plain_decode

/-- The reader of a whole text. -/
theorem plain_loads (limit : Option ℕ) (parseFloat : PyStr → UInt64) (text : PyStr) :
    Plain (loadsWithin limit parseFloat text) := by
  unfold loadsWithin
  split
  next => exact plain_decode
  next =>
    have hscan := (plain_scan limit parseFloat (2*text.length+1) (skipSpace text)).1
    split
    next =>
      split
      next => exact plain_ok _
      next => exact plain_decode
    next e herror => exact fun d hd => hscan d (by rw [herror,Except.error.inj hd])

end Plain

/-- Whether a text and its quotes are no longer than a bound. -/
def shortText (n : ℕ) : Json → Bool
  | .str s => decide (s.length+2 ≤ n)
  | _ => true

/-- Whether every text within a part is. -/
def PartShort (n : ℕ) : Part → Prop
  | .value v => every (shortText n) v=true
  | .items l => ∀ v ∈ l,every (shortText n) v=true
  | .members l => ∀ e ∈ l,every (shortText n) e.2=true

/-- Code points are no more than units. -/
theorem joinSurrogates_length (units : List LiteralUnit) : (joinSurrogates units).length ≤ units.length := by
  fun_induction joinSurrogates units with
  | case1 => exact Nat.le_refl 0
  | case2 => exact Nat.le_refl 1
  | case3 _ _ _ _ ih =>
    simp only [List.length_cons]
    omega
  | case4 _ _ _ _ ih =>
    simp only [List.length_cons] at ih ⊢
    omega

/-- Units are no more than the characters in front of the closing quote. -/
theorem units_length {a : PyStr} {units : List LiteralUnit} (h : Units a units) : units.length+1 ≤ a.length := by
  induction h with
  | close => exact Nat.le_refl 1
  | plain _ _ _ _ ih | short _ _ _ ih | unicode _ _ ih =>
    simp only [List.length_cons]
    omega

/-- What is set in a dict is what it had or what is new. -/
theorem forall_setItem {P : Json → Prop} {fields : List (PyStr × Json)} {e : PyStr × Json}
    (h : ∀ d ∈ fields,P d.2) (he : P e.2) : ∀ d ∈ setItem fields e,P d.2 := by
  intro d hd
  unfold setItem at hd
  split at hd
  next =>
    obtain ⟨f,hf,rfl⟩ := List.mem_map.mp hd
    split
    next => exact he
    next => exact h f hf
  next =>
    rcases List.mem_append.mp hd with hd | hd
    · exact h d hd
    · rw [List.mem_singleton.mp hd]
      exact he

/-- So the values of a dict are among those of its members. -/
theorem forall_members {P : Json → Prop} {l fields : List (PyStr × Json)} (h : ∀ d ∈ fields,P d.2)
    (hl : ∀ e ∈ l,P e.2) : ∀ d ∈ l.foldl setItem fields,P d.2 := by
  induction l generalizing fields with
  | nil => exact h
  | cons e l ih =>
    exact ih (forall_setItem h (hl e List.mem_cons_self)) fun d hd => hl d (List.mem_cons_of_mem e hd)

/-- Every text within a part stands in the part's own text. -/
theorem writes_short {limit : Option ℕ} {parseFloat : PyStr → UInt64} {a : PyStr} {p : Part}
    (h : Writes limit parseFloat a p) :
    ∀ n,a.length ≤ n → PartShort n p := by
  induction h with
  | @text a units hu =>
    intro n hn
    have hunits := units_length hu
    have hjoin := joinSurrogates_length units
    simp only [List.length_cons] at hn
    simp only [PartShort,every,shortText,decide_eq_true_eq]
    omega
  | word hw =>
    intro n _
    simp only [words,List.mem_cons,List.not_mem_nil,or_false] at hw
    rcases hw with rfl | rfl | rfl | rfl | rfl | rfl <;> rfl
  | int _ hint =>
    intro n _
    unfold intOfDigits at hint
    split at hint
    next => cases Except.ok.inj hint; rfl
    next => cases hint
  | float | emptyList | emptyDict => exact fun n _ => rfl
  | @list ws a l _ _ ih =>
    intro n hn
    simp only [List.length_cons,List.length_append] at hn
    have hitems := ih n (by omega)
    simp only [PartShort,every,everyItem_eq_all,shortText,Bool.true_and]
    exact List.all_eq_true.mpr hitems
  | @dict ws a l _ _ ih =>
    intro n hn
    simp only [List.length_cons,List.length_append] at hn
    have hmembers := ih n (by omega)
    simp only [PartShort,every,everyField_eq_all,shortText,Bool.true_and]
    have hvalues := @forall_members (fun v => every (shortText n) v=true) l [] (fun d hd => (by cases hd)) hmembers
    exact List.all_eq_true.mpr hvalues
  | lastItem _ _ ih =>
    intro n hn
    simp only [List.length_append] at hn
    exact List.forall_mem_cons.mpr ⟨ih n (by omega),fun v hv => (by cases hv)⟩
  | nextItem _ _ _ _ ih ih' =>
    intro n hn
    simp only [List.length_append,List.length_cons] at hn
    exact List.forall_mem_cons.mpr ⟨ih n (by omega),ih' n (by omega)⟩
  | lastMember _ _ _ _ _ ih =>
    intro n hn
    simp only [List.length_append,List.length_cons] at hn
    exact List.forall_mem_cons.mpr ⟨ih n (by omega),fun v hv => (by cases hv)⟩
  | nextMember _ _ _ _ _ _ _ ih ih' =>
    intro n hn
    simp only [List.length_append,List.length_cons] at hn
    exact List.forall_mem_cons.mpr ⟨ih n (by omega),ih' n (by omega)⟩

/-- An item of a dict all of whose texts are short. -/
theorem every_getItem {p : Json → Bool} {fields : List (PyStr × Json)} {key : String} {v : Json}
    (h : every p (.obj fields)=true) (hv : getItem fields key=some v) : every p v=true := by
  obtain ⟨e,hfind,rfl⟩ := Option.map_eq_some_iff.mp hv
  rw [every,everyField_eq_all,Bool.and_eq_true] at h
  exact List.all_eq_true.mp h.2 e (List.mem_of_find?_eq_some hfind)

section Modes
variable (lib : UsageLibrary) (deep : PyStr → Option PyStr) {parseFloat : PyStr → UInt64}

/-- A text that does not nest too deep does not raise a RecursionError. -/
theorem not_tooDeep {text : PyStr} (h : deep text=none) : ¬TooDeep (scanning lib deep parseFloat) text := by
  rintro ⟨message,hraised⟩
  simp only [scanning,h] at hraised
  rcases plain_loads _ parseFloat text _ hraised with hdecode | ⟨_,hvalue⟩
  · cases hdecode
  · cases hvalue

/-- Where no text nests too deep, `final_result_object` raises nothing. -/
theorem resultReadable_scanning (h : ∀ text,deep text=none) (stdout : PyStr) :
    ResultReadable (scanning lib deep parseFloat) stdout :=
  .inr ⟨not_tooDeep lib deep (h _),.inr fun _ _ hline => not_tooDeep lib deep (h _) hline.2⟩

/-- The stream and a line with the object of its last result give the same exactly when
the scanner runs out of stack on neither, and the last result line that is found in the
stream has the line's object, or is missing where the line itself is refused. -/
theorem stream_result_iff {lines : List (StreamLine parseFloat)} {stdout : PyStr} (h : Stream lines stdout)
    (alone : StreamLine parseFloat) (hlast : lastResult lines=some alone.object) :
    (∃ result,finalResultObject (scanning lib deep parseFloat) stdout=.ok result ∧
        finalResultObject (scanning lib deep parseFloat) alone.text=.ok result) ↔
      ResultReadable (scanning lib deep parseFloat) stdout ∧
        ResultReadable (scanning lib deep parseFloat) alone.text ∧
        lastResult (foundLines lib deep lines)=if alone.accepted lib deep=true then some alone.object else none := by
  have halone : resultObject (seen (scanning lib deep parseFloat)) alone.text=
      if alone.accepted lib deep=true then some alone.object else none := by
    rcases resultObject_stream lib deep (.last alone) with ⟨line,hline,hresult⟩ | ⟨hlength,_⟩
    · rw [hresult,(List.cons.inj hline).1]
    · exact absurd rfl hlength
  have hstream := (okWhen_finalResultObject (scanning lib deep parseFloat) stdout).eq_ok_iff
  have hsingle := (okWhen_finalResultObject (scanning lib deep parseFloat) alone.text).eq_ok_iff
  rw [halone] at hsingle
  rw [resultObject_found lib deep h hlast] at hstream
  constructor
  · rintro ⟨result,hleft,hright⟩
    obtain ⟨hreadable,rfl⟩ := (hstream result).mp hleft
    obtain ⟨hreadable',heq⟩ := (hsingle _).mp hright
    exact ⟨hreadable,hreadable',heq.symm⟩
  · rintro ⟨hreadable,hreadable',heq⟩
    exact ⟨_,(hstream _).mpr ⟨hreadable,rfl⟩,(hsingle _).mpr ⟨hreadable',heq.symm⟩⟩

/-- The text of the last message among lines. -/
def lastMessage (lines : List (StreamLine parseFloat)) : Option PyStr := codexAnswerOf (lines.map StreamLine.object)

/-- The usage block of the last completed turn among lines. -/
def lastUsage (lines : List (StreamLine parseFloat)) : Option (List (PyStr × Json)) :=
  codexBlockOf (lines.map StreamLine.object)

/-- A message is shorter than its line by more than a newline. -/
theorem codexAnswer_length {line : StreamLine parseFloat} {answer : PyStr} (h : codexAnswer line.object=some answer) :
    answer.length+2 ≤ line.text.length := by
  obtain ⟨ws,mid,ws',_,_,htext,hwrites⟩ := line.shape
  have hlength : (0x7B::(mid++[0x7D]) : PyStr).length ≤ line.text.length := by
    rw [htext]
    simp only [List.length_append,List.length_cons,List.length_nil]
    omega
  have hobject : every (shortText line.text.length) (.obj line.object)=true := writes_short hwrites _ hlength
  unfold codexAnswer at h
  split at h
  next =>
    split at h
    next item hitem =>
      split at h
      next =>
        split at h
        next text hanswer =>
          cases Option.some.inj h
          have htext := every_getItem (every_getItem hobject hitem) hanswer
          simpa only [every,shortText,decide_eq_true_eq] using htext
        next => cases h
      next => cases h
    next => cases h
  next => cases h

/-- A stream is as long as each of its lines. -/
theorem stream_length {lines : List (StreamLine parseFloat)} {stdout : PyStr} (h : Stream lines stdout) :
    ∀ line ∈ lines,line.text.length ≤ stdout.length := by
  induction h with
  | last line => simp
  | closed line _ => simp
  | next line _ _ ih =>
    refine List.forall_mem_cons.mpr ⟨by simp,fun l hl => ?_⟩
    have hline := ih l hl
    simp only [List.length_append]
    omega

/-- At most a newline is added to an answer. -/
theorem ensureTrailingNewline_length (text : PyStr) : (ensureTrailingNewline text).length ≤ text.length+1 := by
  unfold ensureTrailingNewline
  split
  next => simp
  next => omega

/-- The stream gives the text of its last message exactly when the last message among the
lines that are left whole and accepted has that text, no piece of a line raises anything
but a JSONDecodeError, and the counts of the last usage block among those lines can be
read. -/
theorem stream_answer_iff {lines : List (StreamLine parseFloat)} {stdout : PyStr} (h : Stream lines stdout)
    {answer : PyStr} (hlast : lastMessage lines=some answer) :
    (codexParseOutput (scanning lib deep parseFloat) stdout).map ParsedOutput.text=.ok (ensureTrailingNewline answer) ↔
      (lastMessage (lines.filter (StreamLine.whole lib deep))).map ensureTrailingNewline=
          some (ensureTrailingNewline answer) ∧
        (∀ line ∈ lines,∀ piece ∈ splitLines line.text,¬LineEscapes (scanning lib deep parseFloat) piece) ∧
        ∀ block ∈ lastUsage (lines.filter (StreamLine.whole lib deep)),CodexReadable (scanning lib deep parseFloat) block := by
  have hanswer : codexAnswerOf (events (seen (scanning lib deep parseFloat)) stdout)=
      lastMessage (lines.filter (StreamLine.whole lib deep)) := by
    have hevents := events_stream lib deep (f := codexAnswer)
      (fun event hevent => if_neg (by rw [hasText_of_none hevent]; exact Bool.false_ne_true)) h
    rw [codexAnswerOf,hevents]
    rfl
  have hblock : codexBlockOf (events (seen (scanning lib deep parseFloat)) stdout)=
      lastUsage (lines.filter (StreamLine.whole lib deep)) := by
    have hevents := events_stream lib deep (f := codexBlock)
      (fun event hevent => if_neg (by rw [hasText_of_none hevent]; exact Bool.false_ne_true)) h
    rw [codexBlockOf,hevents]
    rfl
  have hlines : (∀ line ∈ splitLines stdout,¬LineEscapes (scanning lib deep parseFloat) line) ↔
      ∀ line ∈ lines,∀ piece ∈ splitLines line.text,¬LineEscapes (scanning lib deep parseFloat) piece := by
    rw [splitLines_stream h]
    simp only [List.mem_flatMap,forall_exists_index,and_imp]
    exact ⟨fun hall line hline piece hpiece => hall piece line hline hpiece,
      fun hall piece line hline hpiece => hall line hline piece hpiece⟩
  -- the raw stream is longer than the answer
  have hraw : stdout≠ensureTrailingNewline answer := by
    intro heq
    obtain ⟨object,hobject,hfound⟩ := List.mem_filterMap.mp (List.mem_of_getLast? hlast)
    obtain ⟨line,hline,rfl⟩ := List.mem_map.mp hobject
    have hshort := codexAnswer_length hfound
    have hlong := stream_length h line hline
    have hensured := ensureTrailingNewline_length answer
    rw [← heq] at hensured
    omega
  have hcodex := okWhen_codex (scanning lib deep parseFloat) stdout
  have hmapped : (codexParseOutput (scanning lib deep parseFloat) stdout).map ParsedOutput.text=
      .ok (ensureTrailingNewline answer) ↔
      CodexStreamReadable (scanning lib deep parseFloat) stdout ∧
        (codexOutput (scanning lib deep parseFloat) stdout (events (seen (scanning lib deep parseFloat)) stdout)).text=
          ensureTrailingNewline answer := by
    have hpack := hcodex.pack ParsedOutput.text
    exact hpack.eq_ok_iff _
  rw [hmapped,CodexStreamReadable,hlines,codexOutput,hanswer,hblock]
  rcases lastMessage (lines.filter (StreamLine.whole lib deep)) with _ | found
  · simp only [hraw,and_false,Option.map_none,reduceCtorEq,false_and]
  · simp only [Option.isSome_some,forall_true_left,Option.map_some,Option.some.injEq]
    exact and_comm

/-- What a stream gives, for the result of Claude and Cursor and for Codex's answer. -/
theorem stream_and_single_agree_iff {lines : List (StreamLine parseFloat)} {stdout : PyStr} (h : Stream lines stdout) :
    (∀ alone : StreamLine parseFloat,lastResult lines=some alone.object →
      ((∃ result,finalResultObject (scanning lib deep parseFloat) stdout=.ok result ∧
          finalResultObject (scanning lib deep parseFloat) alone.text=.ok result) ↔
        ResultReadable (scanning lib deep parseFloat) stdout ∧
          ResultReadable (scanning lib deep parseFloat) alone.text ∧
          lastResult (foundLines lib deep lines)=
            if alone.accepted lib deep=true then some alone.object else none)) ∧
    ∀ answer,lastMessage lines=some answer →
      ((codexParseOutput (scanning lib deep parseFloat) stdout).map ParsedOutput.text=
          .ok (ensureTrailingNewline answer) ↔
        (lastMessage (lines.filter (StreamLine.whole lib deep))).map ensureTrailingNewline=
            some (ensureTrailingNewline answer) ∧
          (∀ line ∈ lines,∀ piece ∈ splitLines line.text,¬LineEscapes (scanning lib deep parseFloat) piece) ∧
          ∀ block ∈ lastUsage (lines.filter (StreamLine.whole lib deep)),
            CodexReadable (scanning lib deep parseFloat) block) :=
  ⟨fun alone hlast => stream_result_iff lib deep h alone hlast,fun _ hlast => stream_answer_iff lib deep h hlast⟩

end Modes

/-- A library whose scanner is never asked for a float. -/
def sampleLibrary : UsageLibrary where
  loads := loads fun _ => 0
  loadsBytes _ := .error .unicodeDecodeError
  int
    | .int n => .ok n
    | _ => .error .typeError
  replaced _ := []
  float
    | .float bits => .ok bits
    | _ => .error .typeError
  freeze _ := .ok ()

/-- The items of a dict of texts that was read. -/
def textItems : Except LoadsError Json → Option (List (PyStr × PyStr))
  | .ok (.obj fields) => fields.mapM fun e =>
    match e.2 with
    | .str s => some (e.1,s)
    | _ => none
  | _ => none

/-- They are all of the dict. -/
theorem eq_of_textItems {r : Except LoadsError Json} {items : List (PyStr × PyStr)} (h : textItems r=some items) :
    r=.ok (.obj (items.map fun e => (e.1,.str e.2))) := by
  unfold textItems at h
  split at h
  next fields =>
    induction fields generalizing items with
    | nil =>
      rw [List.mapM_nil] at h
      cases Option.some.inj h
      rfl
    | cons e fields ih =>
      rw [List.mapM_cons] at h
      obtain ⟨item,hitem,hbehind⟩ := Option.bind_eq_some_iff.mp h
      obtain ⟨rest,hrest,heq⟩ := Option.bind_eq_some_iff.mp hbehind
      cases Option.some.inj heq
      have htail := Json.obj.inj (Except.ok.inj (ih hrest))
      split at hitem
      next s hs =>
        cases Option.some.inj hitem
        rw [List.map_cons,← htail,← hs]
      next => exact nomatch hitem
  next => exact nomatch h

/-- An event without a type. -/
def emptyLine : StreamLine fun _ => 0 where
  text := pyStr "\x7b\x7d"
  object := ([] : List (PyStr × PyStr)).map fun e => (e.1,.str e.2)
  writes := loadsWithin_unlimited (eq_of_textItems (r := loads (fun _ => 0) _) (by decide +kernel))
  onOneLine := ⟨by decide +kernel,by decide +kernel⟩

/-- A result. -/
def resultLine : StreamLine fun _ => 0 where
  text := pyStr "\x7b\"type\":\"result\",\"result\":\"a\"\x7d"
  object := [(pyStr "type",pyStr "result"),(pyStr "result",pyStr "a")].map fun e => (e.1,.str e.2)
  writes := loadsWithin_unlimited (eq_of_textItems (r := loads (fun _ => 0) _) (by decide +kernel))
  onOneLine := ⟨by decide +kernel,by decide +kernel⟩

/-- A result with a line separator in its text, as JSON admits it. -/
def brokenLine : StreamLine fun _ => 0 where
  text := pyStr "\x7b\"type\":\"result\",\"result\":\"" ++ [0x2028] ++ pyStr "\"\x7d"
  object := [(pyStr "type",pyStr "result"),(pyStr "result",[0x2028])].map fun e => (e.1,.str e.2)
  writes := loadsWithin_unlimited (eq_of_textItems (r := loads (fun _ => 0) _) (by decide +kernel))
  onOneLine := ⟨by decide +kernel,by decide +kernel⟩

/-- A stream of an event and a result. -/
def twoLines (line : StreamLine fun _ => 0) : PyStr := emptyLine.text++([0x0A]++line.text)

/-- It is a stream. -/
theorem twoLines_stream (line : StreamLine fun _ => 0) : Stream [emptyLine,line] (twoLines line) :=
  .next emptyLine (.inl rfl) (.last line)

/-- Nothing nests too deep for it. -/
def shallow : PyStr → Option PyStr := fun _ => none

/-- What is found in a stream of an event and a result that is left whole. -/
theorem lastResult_twoLines {line : StreamLine fun _ => 0} (hwhole : line.whole sampleLibrary shallow=true)
    (hresult : isResult line.object=true) :
    lastResult (foundLines sampleLibrary shallow [emptyLine,line])=some line.object := by
  have hline : [line].filter (StreamLine.whole sampleLibrary shallow)=[line] := List.filter_cons_of_pos hwhole
  have hevent : isResult emptyLine.object=false := rfl
  rw [foundLines,List.filter_cons,hline]
  · split_ifs <;> simp [lastResult,hresult,hevent]
  · exact fun _ h => by cases h

/-- A plain result comes out of the stream as it comes out alone. -/
theorem stream_and_single_agree_plain :
    ∃ result,finalResultObject (scanning sampleLibrary shallow fun _ => 0) (twoLines resultLine)=.ok result ∧
      finalResultObject (scanning sampleLibrary shallow fun _ => 0) resultLine.text=.ok result := by
  have hfound := @lastResult_twoLines resultLine (by decide +kernel) rfl
  have haccepted : resultLine.accepted sampleLibrary shallow=true := by decide +kernel
  exact ((stream_and_single_agree_iff sampleLibrary shallow (twoLines_stream resultLine)).1 resultLine rfl).mpr
    ⟨resultReadable_scanning _ _ (fun _ => rfl) _,resultReadable_scanning _ _ (fun _ => rfl) _,
      hfound.trans (if_pos haccepted).symm⟩

/-- A result with a line separator does not come out of the stream. -/
theorem stream_and_single_differ :
    ¬∀ (lib : UsageLibrary) (deep : PyStr → Option PyStr) (parseFloat : PyStr → UInt64)
      (lines : List (StreamLine parseFloat)) (stdout : PyStr),Stream lines stdout →
        (∀ alone : StreamLine parseFloat,lastResult lines=some alone.object →
          ∃ result,finalResultObject (scanning lib deep parseFloat) stdout=.ok result ∧
            finalResultObject (scanning lib deep parseFloat) alone.text=.ok result) ∧
        ∀ answer,lastMessage lines=some answer →
          (codexParseOutput (scanning lib deep parseFloat) stdout).map ParsedOutput.text=
            .ok (ensureTrailingNewline answer) := by
  intro h
  have hagree := (h sampleLibrary shallow _ _ _ (twoLines_stream brokenLine)).1 brokenLine rfl
  have hfound := ((stream_result_iff sampleLibrary shallow (twoLines_stream brokenLine) brokenLine rfl).mp hagree).2.2
  have haccepted : brokenLine.accepted sampleLibrary shallow=true := by decide +kernel
  have hnone : (lastResult (foundLines sampleLibrary shallow [emptyLine,brokenLine])).isNone=true := by decide +kernel
  rw [hfound,if_pos haccepted] at hnone
  exact absurd hnone Bool.false_ne_true

end GenericMlCache.StreamParity
