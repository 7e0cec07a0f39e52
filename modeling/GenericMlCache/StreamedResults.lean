import GenericMlCache.JsonQuotes
import GenericMlCache.UsageReading

/-!
# Results in a stream

A stream of JSON objects, one on a line, next to the lines that `str.splitlines`
makes of it. A literal may hold characters at which Python breaks a line and JSON
does not; of a line that is broken there no piece is an object with a type.
-/

namespace GenericMlCache.StreamedResults

open PythonText ExecutionModel MlExecutionCommands JsonText JsonGrammar JsonQuotes GatewayRelay OutputParsing
  UsageReading

/-- What the text of a dict, or of its members, looks like. -/
def Braces : Part → PyStr → Prop
  | .value (.obj _),a => ∃ mid,a=0x7B::(mid++[0x7D])
  | .members _,a => ∃ mid,a=mid++[0x7D]
  | _,_ => True

section Grammar
variable {limit : Option ℕ} {parseFloat : PyStr → UInt64}

/-- A dict is written between braces. -/
theorem writes_braces {a : PyStr} {p : Part} (h : Writes limit parseFloat a p) : Braces p a := by
  induction h with
  | word hw =>
    simp only [words,List.mem_cons,List.not_mem_nil,or_false] at hw
    rcases hw with rfl | rfl | rfl | rfl | rfl | rfl <;> trivial
  | int _ hint =>
    unfold intOfDigits at hint
    split at hint
    next =>
      cases Except.ok.inj hint
      trivial
    next => cases hint
  | text | float | emptyList | list | lastItem | nextItem => trivial
  | @emptyDict ws => exact ⟨ws,rfl⟩
  | @dict ws a l _ _ ih =>
    obtain ⟨mid,rfl⟩ := ih
    exact ⟨ws++mid,by rw [List.append_assoc]⟩
  | @lastMember k ws ws' a ws'' => exact ⟨0x22::(k++(ws++(0x3A::(ws'++(a++ws''))))),by simp⟩
  | @nextMember k ws ws' a ws'' ws₄ b _ _ _ _ _ _ _ _ _ _ _ ih =>
    obtain ⟨mid,rfl⟩ := ih
    exact ⟨0x22::(k++(ws++(0x3A::(ws'++(a++(ws''++(0x2C::(ws₄++mid)))))))),by simp⟩

/-- JSON's whitespace is whitespace. -/
theorem isSpace_of_spaces {ws : PyStr} (h : Spaces ws) : ∀ c ∈ ws,isSpace c=true := by
  intro c hc
  have hspace := h c hc
  simp only [isJsonSpace,List.contains_eq_mem,List.mem_cons,List.not_mem_nil,or_false,decide_eq_true_eq] at hspace
  simp only [isSpace,Bool.or_eq_true,Bool.and_eq_true,decide_eq_true_eq]
  omega

/-- What stands in braces is left by `strip`. -/
theorem strip_braces {ws mid ws' : PyStr} (hws : Spaces ws) (hws' : Spaces ws') :
    strip (ws++(0x7B::(mid++(0x7D::ws'))))=0x7B::(mid++[0x7D]) := by
  have hopen : isSpace 0x7B=false := by decide
  have hclose : isSpace 0x7D=false := by decide
  have hback : ∀ c ∈ ws'.reverse,isSpace c=true := fun c hc => isSpace_of_spaces hws' c (List.mem_reverse.mp hc)
  rw [strip,List.dropWhile_append_of_pos (isSpace_of_spaces hws),
    List.dropWhile_cons_of_neg (by rw [hopen]; exact Bool.false_ne_true)]
  simp only [List.reverse_cons,List.reverse_append,List.append_assoc]
  rw [List.dropWhile_append_of_pos hback]
  simp only [List.cons_append,List.nil_append]
  rw [List.dropWhile_cons_of_neg (by rw [hclose]; exact Bool.false_ne_true)]
  simp

end Grammar

/-- The pieces of a text without newlines and carriage returns. -/
def pieces : PyStr → PyStr → List PyStr
  | piece,[] => [piece.reverse]
  | piece,c::rest => if isLineBreak c=true then piece.reverse::pieces [] rest else pieces (c::piece) rest

/-- What ends a line of a stream. -/
def IsBreak (brk : PyStr) : Prop := brk=[0x0A] ∨ brk=[0x0D,0x0A]

/-- A text with no newline and no carriage return. -/
def OnOneLine (text : PyStr) : Prop := 0x0A∉text ∧ 0x0D∉text

/-- A break that is no carriage return ends a line of its own. -/
theorem splitLinesFrom_break {c : Fin 0x110000} (hbreak : isLineBreak c=true) (hreturn : c≠0x0D) (piece rest : PyStr) :
    splitLinesFrom piece (c::rest)=piece.reverse::splitLinesFrom [] rest := by
  have hval : c.val≠0x0D := fun h => hreturn (Fin.ext h)
  rw [splitLinesFrom.eq_def]
  cases rest with
  | nil => exact if_pos hbreak
  | cons d tail => exact (if_pos hbreak).trans (if_neg fun h => hval h.1)

/-- Another character belongs to the piece. -/
theorem splitLinesFrom_plain {c : Fin 0x110000} (hplain : ¬isLineBreak c=true) (piece rest : PyStr) :
    splitLinesFrom piece (c::rest)=splitLinesFrom (c::piece) rest := by
  rw [splitLinesFrom.eq_def]
  exact if_neg hplain

/-- The pieces of a line that is closed come before the lines behind it. -/
theorem splitLinesFrom_line {t brk : PyStr} (ht : OnOneLine t) (hbrk : IsBreak brk) (piece rest : PyStr) :
    splitLinesFrom piece (t++(brk++rest))=pieces piece t++splitLinesFrom [] rest := by
  induction t generalizing piece with
  | nil =>
    rcases hbrk with rfl | rfl
    · exact splitLinesFrom_break (by decide) (by decide) piece rest
    · rfl
  | cons c t ih =>
    have htail : OnOneLine t :=
      ⟨fun h => ht.1 (List.mem_cons_of_mem c h),fun h => ht.2 (List.mem_cons_of_mem c h)⟩
    rw [List.cons_append,pieces]
    split
    next hbreak =>
      have hreturn : c≠0x0D := fun h => ht.2 (by rw [h]; exact List.mem_cons_self)
      rw [splitLinesFrom_break hbreak hreturn,ih htail]
      rfl
    next hbreak =>
      rw [splitLinesFrom_plain hbreak]
      exact ih htail (c::piece)

/-- The pieces of a last line that ends with a character that is no break. -/
theorem splitLinesFrom_last {t : PyStr} {c : Fin 0x110000} (ht : OnOneLine t) (hc : isLineBreak c=false) (piece : PyStr) :
    splitLinesFrom piece (t++[c])=pieces piece (t++[c]) := by
  induction t generalizing piece with
  | nil =>
    have hplain : ¬isLineBreak c=true := by
      rw [hc]
      exact Bool.false_ne_true
    rw [List.nil_append,splitLinesFrom_plain hplain,pieces,if_neg hplain]
    rfl
  | cons d t ih =>
    have htail : OnOneLine t :=
      ⟨fun h => ht.1 (List.mem_cons_of_mem d h),fun h => ht.2 (List.mem_cons_of_mem d h)⟩
    rw [List.cons_append,pieces]
    split
    next hbreak =>
      have hreturn : d≠0x0D := fun h => ht.2 (by rw [h]; exact List.mem_cons_self)
      rw [splitLinesFrom_break hbreak hreturn,ih htail]
    next hbreak =>
      rw [splitLinesFrom_plain hbreak]
      exact ih htail (d::piece)

/-- A line without breaks is one piece. -/
theorem pieces_unbroken {t : PyStr} (h : ∀ c ∈ t,isLineBreak c=false) (piece : PyStr) :
    pieces piece t=[piece.reverse++t] := by
  induction t generalizing piece with
  | nil => rw [pieces,List.append_nil]
  | cons c t ih =>
    have hplain : ¬isLineBreak c=true := by
      rw [h c List.mem_cons_self]
      exact Bool.false_ne_true
    rw [pieces,if_neg hplain,ih fun d hd => h d (List.mem_cons_of_mem c hd)]
    simp

/-- A piece that does not have both of its ends outside of literals. -/
def Fragment (piece : PyStr) : Prop :=
  quoteRun .outside piece=some .inside ∨ ∃ q,quoteRun .inside piece=some q

/-- The characters at which Python breaks a line and JSON does not. -/
theorem break_cases {c : Fin 0x110000} (hbreak : isLineBreak c=true) (hnewline : c≠0x0A) (hreturn : c≠0x0D) :
    c∈([0x0B,0x0C,0x1C,0x1D,0x1E,0x85,0x2028,0x2029] : PyStr) := by
  have hval : c.val≠0x0A ∧ c.val≠0x0D := ⟨fun h => hnewline (Fin.ext h),fun h => hreturn (Fin.ext h)⟩
  simp only [isLineBreak,Bool.or_eq_true,Bool.and_eq_true,decide_eq_true_eq,List.contains_eq_mem,List.mem_cons,
    List.not_mem_nil,or_false] at hbreak
  simp only [List.mem_cons,List.not_mem_nil,or_false,Fin.ext_iff]
  change c.val=0x0B ∨ c.val=0x0C ∨ c.val=0x1C ∨ c.val=0x1D ∨ c.val=0x1E ∨ c.val=0x85 ∨ c.val=0x2028 ∨ c.val=0x2029
  omega

/-- Such a character stands in a literal, and keeps it open. -/
theorem quoteStep_break {c : Fin 0x110000} {q r : QuoteState} (hbreak : isLineBreak c=true) (hnewline : c≠0x0A)
    (hreturn : c≠0x0D) (h : quoteStep q c=some r) : q=.inside ∧ r=.inside := by
  have hcases : ∀ c ∈ ([0x0B,0x0C,0x1C,0x1D,0x1E,0x85,0x2028,0x2029] : PyStr),quoteStep .outside c=none ∧
      quoteStep .escape c=none ∧ quoteStep .inside c=some .inside := by
    simp only [List.forall_mem_cons,List.not_mem_nil,IsEmpty.forall_iff,implies_true,and_true]
    refine ⟨?_,?_,?_,?_,?_,?_,?_,?_⟩ <;> decide
  obtain ⟨houtside,hescape,hinside⟩ := hcases c (break_cases hbreak hnewline hreturn)
  cases q with
  | outside => rw [houtside] at h; cases h
  | escape => rw [hescape] at h; cases h
  | inside =>
    rw [hinside] at h
    exact ⟨rfl,(Option.some.inj h).symm⟩

/-- The run over a piece goes on with the text behind it. -/
theorem run_reverse_cons {q r s : QuoteState} {c : Fin 0x110000} {piece : PyStr}
    (hpiece : quoteRun q piece.reverse=some r) (hstep : quoteStep r c=some s) :
    quoteRun q (c::piece).reverse=some s := by
  rw [List.reverse_cons,quoteRun_append,hpiece,Option.bind_some,quoteRun,hstep]
  rfl

/-- From within a literal on, every piece starts within one. -/
theorem pieces_inside {t piece : PyStr} {r e : QuoteState} (ht : OnOneLine t)
    (hpiece : quoteRun .inside piece.reverse=some r) (hrun : quoteRun r t=some e) :
    ∀ p ∈ pieces piece t,∃ q,quoteRun .inside p=some q := by
  induction t generalizing piece r with
  | nil =>
    intro p hp
    rw [pieces,List.mem_singleton] at hp
    rw [hp]
    exact ⟨r,hpiece⟩
  | cons c t ih =>
    have htail : OnOneLine t :=
      ⟨fun h => ht.1 (List.mem_cons_of_mem c h),fun h => ht.2 (List.mem_cons_of_mem c h)⟩
    obtain ⟨r',hstep,hbehind⟩ := run_cons hrun
    rw [pieces]
    split
    next hbreak =>
      have hnewline : c≠0x0A := fun h => ht.1 (by rw [h]; exact List.mem_cons_self)
      have hreturn : c≠0x0D := fun h => ht.2 (by rw [h]; exact List.mem_cons_self)
      obtain ⟨rfl,rfl⟩ := quoteStep_break hbreak hnewline hreturn hstep
      exact List.forall_mem_cons.mpr ⟨⟨.inside,hpiece⟩,@ih [] .inside htail rfl hbehind⟩
    next => exact ih htail (run_reverse_cons hpiece hstep) hbehind

/-- Of a line that is broken, every piece is a fragment. -/
theorem pieces_fragments {t piece : PyStr} {r e : QuoteState} (ht : OnOneLine t)
    (hpiece : quoteRun .outside piece.reverse=some r) (hrun : quoteRun r t=some e)
    (hbroken : ∃ c ∈ t,isLineBreak c=true) : ∀ p ∈ pieces piece t,Fragment p := by
  induction t generalizing piece r with
  | nil =>
    obtain ⟨c,hc,_⟩ := hbroken
    exact nomatch hc
  | cons c t ih =>
    have htail : OnOneLine t :=
      ⟨fun h => ht.1 (List.mem_cons_of_mem c h),fun h => ht.2 (List.mem_cons_of_mem c h)⟩
    obtain ⟨r',hstep,hbehind⟩ := run_cons hrun
    rw [pieces]
    split
    next hbreak =>
      have hnewline : c≠0x0A := fun h => ht.1 (by rw [h]; exact List.mem_cons_self)
      have hreturn : c≠0x0D := fun h => ht.2 (by rw [h]; exact List.mem_cons_self)
      obtain ⟨rfl,rfl⟩ := quoteStep_break hbreak hnewline hreturn hstep
      refine List.forall_mem_cons.mpr ⟨.inl hpiece,fun p hp => .inr ?_⟩
      exact @pieces_inside t [] _ _ htail rfl hbehind p hp
    next hplain =>
      refine ih htail (run_reverse_cons hpiece hstep) hbehind ?_
      obtain ⟨d,hd,hbreak⟩ := hbroken
      rcases List.mem_cons.mp hd with rfl | hd
      · exact absurd hbreak hplain
      · exact ⟨d,hd,hbreak⟩

/-- Outside of literals whitespace is that of JSON, and keeps the outside. -/
theorem quoteStep_space {c : Fin 0x110000} {q r : QuoteState} (hc : isSpace c=true) (hq : q≠.escape)
    (h : quoteStep q c=some r) : r=q := by
  have hquote : c≠0x22 := by
    rintro rfl
    exact absurd hc (by decide)
  have hslash : c≠0x5C := by
    rintro rfl
    exact absurd hc (by decide)
  cases q with
  | outside =>
    rw [quoteStep,if_neg hquote] at h
    split at h
    next => exact (Option.some.inj h).symm
    next => cases h
  | inside =>
    rw [quoteStep,if_neg hquote,if_neg hslash] at h
    exact (Option.some.inj h).symm
  | escape => exact absurd rfl hq

/-- So does a stretch of it. -/
theorem quoteRun_spaces {ws : PyStr} {q r : QuoteState} (hws : ∀ c ∈ ws,isSpace c=true) (hq : q≠.escape)
    (h : quoteRun q ws=some r) : r=q := by
  induction ws with
  | nil => exact (Option.some.inj h).symm
  | cons c ws ih =>
    obtain ⟨q',hstep,hbehind⟩ := run_cons h
    rw [quoteStep_space (hws c List.mem_cons_self) hq hstep] at hbehind
    exact ih (fun d hd => hws d (List.mem_cons_of_mem c hd)) hbehind

/-- A text is what is left of it between whitespace. -/
theorem strip_parts (text : PyStr) : ∃ ws ws',(∀ c ∈ ws,isSpace c=true) ∧ (∀ c ∈ ws',isSpace c=true) ∧
    text=ws++(strip text++ws') := by
  have hback : (text.dropWhile isSpace)=strip text++((text.dropWhile isSpace).reverse.takeWhile isSpace).reverse := by
    rw [strip,← List.reverse_append,List.takeWhile_append_dropWhile,List.reverse_reverse]
  refine ⟨text.takeWhile isSpace,((text.dropWhile isSpace).reverse.takeWhile isSpace).reverse,
    List.all_eq_true.mp List.all_takeWhile,fun c hc => ?_,?_⟩
  · exact List.all_eq_true.mp List.all_takeWhile c (List.mem_reverse.mp hc)
  · rw [← hback,List.takeWhile_append_dropWhile]

/-- A dict that a fragment is read as has no key with a letter that no word and no
number has. -/
theorem fragment_keys {limit : Option ℕ} {parseFloat : PyStr → UInt64} {piece : PyStr}
    {fields : List (PyStr × Json)} (h : Fragment piece)
    (hloads : loadsWithin limit parseFloat (strip piece)=.ok (.obj fields)) :
    ∀ key ∈ fields.map Prod.fst,∀ c ∈ key,isStructural c=true := by
  obtain ⟨ws,ws',hws,hws',htext⟩ := strip_parts piece
  obtain ⟨js,a,js',hjs,hjs',hstrip,hwrites⟩ := loads_iff.mp hloads
  have hspaces : ∀ {js : PyStr},Spaces js → quoteRun .outside js=some .outside ∧ quoteRun .inside js=some .inside :=
    fun h => run_structural (structural_spaces h)
  have hout : quoteRun .outside (strip piece)=some .outside := by
    rw [hstrip]
    exact run_outside (hspaces hjs).1 (run_outside (run_writes hwrites) (hspaces hjs').1)
  rcases h with hout' | ⟨q,hin⟩
  · -- between whitespace it would end outside of a literal
    rw [htext] at hout'
    obtain ⟨r,hfirst,hrest⟩ := run_parts hout'
    rw [quoteRun_spaces (q := .outside) hws nofun hfirst] at hrest
    obtain ⟨r',hmid,hlast⟩ := run_parts hrest
    rw [hout] at hmid
    rw [← Option.some.inj hmid] at hlast
    exact absurd (quoteRun_spaces (q := .outside) hws' nofun hlast) nofun
  · rw [htext] at hin
    obtain ⟨r,hfirst,hrest⟩ := run_parts hin
    rw [quoteRun_spaces (q := .inside) hws nofun hfirst] at hrest
    obtain ⟨r',hmid,_⟩ := run_parts hrest
    rw [hstrip] at hmid
    obtain ⟨r'',hmid',_⟩ := run_parts (inside_append (hspaces hjs).2 hmid)
    exact (exchanged_writes hwrites r'' hmid').2

/-- A key of a dict. -/
theorem mem_of_getItem {fields : List (PyStr × Json)} {key : String} {v : Json} (h : getItem fields key=some v) :
    pyStr key∈fields.map Prod.fst := by
  obtain ⟨e,hfind,_⟩ := Option.map_eq_some_iff.mp h
  have hkey := List.find?_some hfind
  simp only [decide_eq_true_eq] at hkey
  exact List.mem_map.mpr ⟨e,List.mem_of_find?_eq_some hfind,hkey⟩

/-- It has no type. -/
theorem fragment_type {limit : Option ℕ} {parseFloat : PyStr → UInt64} {piece : PyStr}
    {fields : List (PyStr × Json)} (h : Fragment piece)
    (hloads : loadsWithin limit parseFloat (strip piece)=.ok (.obj fields)) :
    getItem fields "type"=none := by
  cases htype : getItem fields "type" with
  | none => rfl
  | some v =>
    have hchars := fragment_keys h hloads (pyStr "type") (mem_of_getItem htype)
    exact absurd (hchars 0x70 (by decide)) (by decide)

section Streams
variable (lib : UsageLibrary) (deep : PyStr → Option PyStr) (parseFloat : PyStr → UInt64)

/-- The library with the standard library's scanner. `deep` is the RecursionError of the
texts that nest beyond the interpreter's limit. -/
def scanning : UsageLibrary :=
  { lib with
    loads := fun text =>
      match deep text with
      | some message => .error (.recursionError message)
      | none => loads parseFloat text }

variable {parseFloat}

/-- What is seen in a text is what the text writes. -/
theorem loads_of_seen {text : PyStr} {v : Json} (h : seen (scanning lib deep parseFloat) text=some v) :
    loadsWithin none parseFloat text=.ok v := by
  have hseen : ((scanning lib deep parseFloat).loads text).toOption=some v := h
  simp only [scanning] at hseen
  split at hseen
  next => cases hseen
  next =>
    cases hloads : loads parseFloat text with
    | error e => rw [hloads] at hseen; cases hseen
    | ok w =>
      rw [hloads] at hseen
      cases Option.some.inj hseen
      exact loadsWithin_unlimited hloads

/-- A JSON object that is written on one line, whether or not `json.loads` accepts it: an
integer may have more digits than it converts, and the values may nest too deep for it. -/
structure StreamLine (parseFloat : PyStr → UInt64) where
  /-- The text of the line. -/
  text : PyStr
  /-- The items of the object. -/
  object : List (PyStr × Json)
  /-- The text writes the object. -/
  writes : loadsWithin none parseFloat text=.ok (.obj object)
  /-- No newline is raw in it. -/
  onOneLine : OnOneLine text

/-- Whether `str.splitlines` leaves a line whole. -/
def StreamLine.unbroken (line : StreamLine parseFloat) : Bool := line.text.all fun c => !isLineBreak c

/-- Whether `json.loads` accepts a line. -/
def StreamLine.accepted (lib : UsageLibrary) (deep : PyStr → Option PyStr) (line : StreamLine parseFloat) : Bool :=
  (seen (scanning lib deep parseFloat) (strip line.text)).isSome

/-- Whether a line of a stream is read as its object. -/
def StreamLine.whole (lib : UsageLibrary) (deep : PyStr → Option PyStr) (line : StreamLine parseFloat) : Bool :=
  line.unbroken && line.accepted lib deep

/-- The lines whose objects are found: a text of one line is read whole, and one of more
lines a piece at a time. -/
def foundLines (lib : UsageLibrary) (deep : PyStr → Option PyStr) :
    List (StreamLine parseFloat) → List (StreamLine parseFloat)
  | [line] => [line].filter (StreamLine.accepted lib deep)
  | lines => lines.filter (StreamLine.whole lib deep)

/-- A stream of lines, the last one closed or not. -/
inductive Stream : List (StreamLine parseFloat) → PyStr → Prop where
  | last (line : StreamLine parseFloat) : Stream [line] line.text
  | closed (line : StreamLine parseFloat) {brk : PyStr} : IsBreak brk → Stream [line] (line.text++brk)
  | next (line : StreamLine parseFloat) {brk text : PyStr} {lines : List (StreamLine parseFloat)} : IsBreak brk →
      Stream lines text → Stream (line::lines) (line.text++(brk++text))

/-- The last result among lines. -/
def lastResult (lines : List (StreamLine parseFloat)) : Option (List (PyStr × Json)) :=
  ((lines.map StreamLine.object).filter isResult).getLast?

/-- Where the object of a line stands. -/
theorem StreamLine.shape (line : StreamLine parseFloat) : ∃ ws mid ws',Spaces ws ∧ Spaces ws' ∧
    line.text=ws++(0x7B::(mid++(0x7D::ws'))) ∧
    Writes none parseFloat (0x7B::(mid++[0x7D])) (.value (.obj line.object)) := by
  obtain ⟨ws,a,ws',hws,hws',htext,hwrites⟩ := loads_iff.mp line.writes
  obtain ⟨mid,rfl⟩ := writes_braces hwrites
  exact ⟨ws,mid,ws',hws,hws',by rw [htext]; simp,hwrites⟩

/-- A line ends with a character that is no break. -/
theorem StreamLine.ends (line : StreamLine parseFloat) : ∃ t c,line.text=t++[c] ∧ isLineBreak c=false := by
  obtain ⟨ws,mid,ws',_,hws',htext,_⟩ := line.shape
  rcases List.eq_nil_or_concat ws' with rfl | ⟨tail,c,rfl⟩
  · exact ⟨ws++(0x7B::mid),0x7D,by rw [htext]; simp,by decide⟩
  · refine ⟨ws++(0x7B::(mid++(0x7D::tail))),c,by rw [htext]; simp,?_⟩
    have hspace := hws' c (by simp)
    have hmem : c∈line.text := by rw [htext]; simp
    have hnewline : c≠0x0A := fun h => line.onOneLine.1 (h ▸ hmem)
    have hreturn : c≠0x0D := fun h => line.onOneLine.2 (h ▸ hmem)
    have hval : c.val≠0x0A ∧ c.val≠0x0D := ⟨fun h => hnewline (Fin.ext h),fun h => hreturn (Fin.ext h)⟩
    simp only [isJsonSpace,List.contains_eq_mem,List.mem_cons,List.not_mem_nil,or_false,decide_eq_true_eq] at hspace
    simp only [isLineBreak,List.contains_eq_mem,List.mem_cons,List.not_mem_nil,or_false,Bool.or_eq_false_iff,
      Bool.and_eq_false_iff,decide_eq_false_iff_not]
    omega

/-- The lines of a line are its pieces. -/
theorem StreamLine.splitLines_eq (line : StreamLine parseFloat) : splitLines line.text=pieces [] line.text := by
  obtain ⟨t,c,htext,hc⟩ := line.ends
  have hone := line.onOneLine
  rw [htext] at hone ⊢
  exact splitLinesFrom_last ⟨fun h => hone.1 (List.mem_append_left _ h),fun h => hone.2 (List.mem_append_left _ h)⟩
    hc []

/-- The lines of a stream are the pieces of its lines. -/
theorem splitLines_stream {lines : List (StreamLine parseFloat)} {text : PyStr} (h : Stream lines text) :
    splitLines text=lines.flatMap fun line => splitLines line.text := by
  have hline : ∀ (line : StreamLine parseFloat) {brk rest : PyStr},IsBreak brk →
      splitLines (line.text++(brk++rest))=splitLines line.text++splitLines rest := by
    intro line brk rest hbrk
    rw [line.splitLines_eq]
    exact splitLinesFrom_line line.onOneLine hbrk [] rest
  induction h with
  | last line => simp
  | @closed line brk hbrk =>
    have hclosed := @hline line brk [] hbrk
    rw [List.append_nil] at hclosed
    rw [hclosed]
    simp [splitLines,splitLinesFrom]
  | next line hbrk _ ih => rw [hline line hbrk,ih,List.flatMap_cons]

/-- No whitespace is whitespace. -/
theorem spaces_nil : Spaces [] := fun _ hc => nomatch hc

/-- A value that is written alone is what the text writes. -/
theorem loads_written {a : PyStr} {v : Json} (h : Writes none parseFloat a (.value v)) :
    loadsWithin none parseFloat a=.ok v :=
  loads_iff.mpr ⟨[],a,[],spaces_nil,spaces_nil,by rw [List.append_nil,List.nil_append],h⟩

/-- What is left of a line by `strip`, also with whitespace behind the line. -/
theorem StreamLine.stripped (line : StreamLine parseFloat) {ws : PyStr} (h : Spaces ws) :
    strip (line.text++ws)≠[] ∧ strip (line.text++ws)=strip line.text ∧
      loadsWithin none parseFloat (strip line.text)=.ok (.obj line.object) := by
  obtain ⟨js,mid,js',hjs,hjs',htext,hwrites⟩ := line.shape
  have hstrip : strip (line.text++ws)=0x7B::(mid++[0x7D]) := by
    rw [htext,← strip_braces hjs (List.forall_mem_append.mpr ⟨hjs',h⟩)]
    simp
  have hline : strip line.text=0x7B::(mid++[0x7D]) := by rw [htext,strip_braces hjs hjs']
  rw [hstrip,hline]
  exact ⟨List.cons_ne_nil _ _,rfl,loads_written hwrites⟩

/-- A line that is accepted is seen as its object. -/
theorem StreamLine.seen_accepted {line : StreamLine parseFloat} (h : line.accepted lib deep=true) :
    seen (scanning lib deep parseFloat) (strip line.text)=some (.obj line.object) := by
  obtain ⟨v,hv⟩ := Option.isSome_iff_exists.mp h
  have hloads := (line.stripped spaces_nil).2.2
  rw [loads_of_seen lib deep hv] at hloads
  rw [hv,Except.ok.inj hloads]

/-- In a line that is refused nothing is seen. -/
theorem StreamLine.seen_refused {line : StreamLine parseFloat} (h : ¬line.accepted lib deep=true) :
    seen (scanning lib deep parseFloat) (strip line.text)=none := by
  rwa [StreamLine.accepted,Bool.not_eq_true,Option.isSome_eq_false_iff,Option.isNone_iff_eq_none] at h

/-- A piece of a broken line is no object with a type. -/
theorem lineObject_piece {line : StreamLine parseFloat} (h : ¬line.unbroken=true) {piece : PyStr}
    (hpiece : piece∈splitLines line.text) {event : List (PyStr × Json)}
    (hevent : lineObject (seen (scanning lib deep parseFloat)) piece=some event) : getItem event "type"=none := by
  have hbroken : ∃ c ∈ line.text,isLineBreak c=true := by
    simp only [StreamLine.unbroken,List.all_eq_true,Bool.not_eq_true',not_forall,Bool.not_eq_false] at h
    obtain ⟨c,hc,hbreak⟩ := h
    exact ⟨c,hc,hbreak⟩
  obtain ⟨ws,a,ws',hws,hws',htext,hwrites⟩ := loads_iff.mp line.writes
  have hrun : quoteRun .outside line.text=some .outside := by
    rw [htext]
    exact run_outside (run_structural (structural_spaces hws)).1
      (run_outside (run_writes hwrites) (run_structural (structural_spaces hws')).1)
  rw [line.splitLines_eq] at hpiece
  have hfragment := @pieces_fragments line.text [] _ _ line.onOneLine rfl hrun hbroken piece hpiece
  unfold lineObject at hevent
  split at hevent
  next => exact nomatch hevent
  next =>
    split at hevent
    next fields hfields =>
      rw [← Option.some.inj hevent]
      exact fragment_type hfragment (loads_of_seen lib deep hfields)
    next => exact nomatch hevent

/-- A line that is left whole is its object if it is accepted, and nothing otherwise. -/
theorem splitLines_unbroken {line : StreamLine parseFloat} (h : line.unbroken=true) :
    (splitLines line.text).filterMap (lineObject (seen (scanning lib deep parseFloat)))=
      if line.accepted lib deep=true then [line.object] else [] := by
  have hplain : ∀ c ∈ line.text,isLineBreak c=false := by
    intro c hc
    have hplain := List.all_eq_true.mp h c hc
    rwa [Bool.not_eq_true'] at hplain
  have hne := (line.stripped spaces_nil).1
  rw [List.append_nil] at hne
  rw [line.splitLines_eq,pieces_unbroken hplain,List.reverse_nil,List.nil_append,List.filterMap_cons,lineObject,
    if_neg hne]
  split_ifs with haccepted
  · rw [line.seen_accepted lib deep haccepted]
    rfl
  · rw [line.seen_refused lib deep haccepted]
    rfl

/-- What is made of the events of a stream, when nothing is made of an event without a
type: what is made of the objects of the lines that are left whole and accepted. -/
theorem events_stream {γ : Type} {f : List (PyStr × Json) → Option γ}
    (hf : ∀ event,getItem event "type"=none → f event=none) {lines : List (StreamLine parseFloat)} {text : PyStr}
    (h : Stream lines text) :
    (events (seen (scanning lib deep parseFloat)) text).filterMap f=
      ((lines.filter (StreamLine.whole lib deep)).map StreamLine.object).filterMap f := by
  rw [events,splitLines_stream h]
  clear h
  induction lines with
  | nil => rfl
  | cons line lines ih =>
    rw [List.flatMap_cons,List.filterMap_append,List.filterMap_append,ih,List.filter_cons,StreamLine.whole]
    by_cases hbroken : line.unbroken=true
    · rw [splitLines_unbroken lib deep hbroken,hbroken,Bool.true_and]
      split_ifs with haccepted
      · rw [List.map_cons,← List.filterMap_append,List.singleton_append]
      · rfl
    · have hdropped : line.unbroken=false := Bool.not_eq_true _ ▸ hbroken
      rw [hdropped,Bool.false_and,if_neg Bool.false_ne_true]
      have hnone : ((splitLines line.text).filterMap (lineObject (seen (scanning lib deep parseFloat)))).filterMap f=[] := by
        rw [List.filterMap_filterMap,List.filterMap_eq_nil_iff]
        intro piece hpiece
        cases hevent : lineObject (seen (scanning lib deep parseFloat)) piece with
        | none => rfl
        | some event => exact hf event (lineObject_piece lib deep hbroken hpiece hevent)
      rw [hnone,List.nil_append]

/-- An event without a type has none. -/
theorem hasText_of_none {event : List (PyStr × Json)} {key name : String} (h : getItem event key=none) :
    hasText event key name=false := by
  rw [hasText,h]

/-- The results of a stream. -/
theorem results_stream {lines : List (StreamLine parseFloat)} {text : PyStr} (h : Stream lines text) :
    ((events (seen (scanning lib deep parseFloat)) text).filter isResult).getLast?=
      lastResult (lines.filter (StreamLine.whole lib deep)) := by
  have hfilter : ∀ stream : List (List (PyStr × Json)),
      stream.filter isResult=stream.filterMap fun e => if isResult e=true then some e else none := by
    intro stream
    rw [← List.filterMap_eq_filter]
    rfl
  have hevents := events_stream lib deep (f := fun e => if isResult e=true then some e else none)
    (fun event hevent => if_neg (by rw [isResult,hasText_of_none hevent]; exact Bool.false_ne_true)) h
  rw [hfilter,hevents,← hfilter]
  rfl

/-- What ends a line is whitespace of JSON. -/
theorem spaces_of_break {brk : PyStr} (h : IsBreak brk) : Spaces brk := by
  rcases h with rfl | rfl
  · exact List.forall_mem_cons.mpr ⟨by decide,fun c hc => nomatch hc⟩
  · exact List.forall_mem_cons.mpr ⟨by decide,List.forall_mem_cons.mpr ⟨by decide,fun c hc => nomatch hc⟩⟩

/-- Whitespace next to whitespace. -/
theorem spaces_append {ws ws' : PyStr} (h : Spaces ws) (h' : Spaces ws') : Spaces (ws++ws') :=
  List.forall_mem_append.mpr ⟨h,h'⟩

/-- A stream stands between braces. -/
theorem stream_shape {lines : List (StreamLine parseFloat)} {text : PyStr} (h : Stream lines text) :
    ∃ ws mid ws',Spaces ws ∧ Spaces ws' ∧ text=ws++(0x7B::(mid++(0x7D::ws'))) := by
  induction h with
  | last line =>
    obtain ⟨ws,mid,ws',hws,hws',htext,_⟩ := line.shape
    exact ⟨ws,mid,ws',hws,hws',htext⟩
  | @closed line brk hbrk =>
    obtain ⟨ws,mid,ws',hws,hws',htext,_⟩ := line.shape
    exact ⟨ws,mid,ws'++brk,hws,spaces_append hws' (spaces_of_break hbrk),by rw [htext]; simp⟩
  | @next line brk text lines _ _ ih =>
    obtain ⟨ws,mid,ws',hws,_,htext,_⟩ := line.shape
    obtain ⟨ws₂,mid₂,ws₂',_,hws₂',rfl⟩ := ih
    exact ⟨ws,mid++(0x7D::(ws'++(brk++(ws₂++(0x7B::mid₂))))),ws₂',hws,hws₂',by rw [htext]; simp⟩

/-- A text of one line is read whole if the line is accepted. -/
theorem wholeObject_line (line : StreamLine parseFloat) {ws : PyStr} (h : Spaces ws) : strip (line.text++ws)≠[] ∧
    wholeObject (seen (scanning lib deep parseFloat)) (line.text++ws)=
      if line.accepted lib deep=true then some line.object else none := by
  obtain ⟨hne,hstrip,_⟩ := line.stripped h
  refine ⟨hne,?_⟩
  rw [wholeObject,hstrip]
  split_ifs with haccepted
  · rw [line.seen_accepted lib deep haccepted]
  · rw [line.seen_refused lib deep haccepted]

/-- A line with lines behind it is not: they are extra data. -/
theorem wholeObject_lines (line : StreamLine parseFloat) {brk text : PyStr} (hbrk : IsBreak brk)
    {lines : List (StreamLine parseFloat)} (h : Stream lines text) : strip (line.text++(brk++text))≠[] ∧
    wholeObject (seen (scanning lib deep parseFloat)) (line.text++(brk++text))=none := by
  obtain ⟨ws,mid,ws',hws,hws',htext,hwrites⟩ := line.shape
  obtain ⟨ws₂,mid₂,ws₂',hws₂,hws₂',rfl⟩ := stream_shape h
  have hbetween : Spaces (ws'++(brk++ws₂)) := spaces_append hws' (spaces_append (spaces_of_break hbrk) hws₂)
  have hstrip : strip (line.text++(brk++(ws₂++(0x7B::(mid₂++(0x7D::ws₂'))))))=
      (0x7B::(mid++[0x7D]))++((ws'++(brk++ws₂))++(0x7B::(mid₂++[0x7D]))) := by
    have hbraces := @strip_braces ws (mid++(0x7D::(ws'++(brk++(ws₂++(0x7B::mid₂)))))) ws₂' hws hws₂'
    rw [htext]
    simp only [List.append_assoc,List.cons_append,List.nil_append] at hbraces ⊢
    exact hbraces
  have hend : numberEnd ((ws'++(brk++ws₂))++(0x7B::(mid₂++[0x7D]))) :=
    numberEnd_spaces hbetween (numberEnd_cons (by decide) _)
  have hextra := loads_extra spaces_nil hwrites hbetween (show isJsonSpace 0x7B=false by decide) hend
  rw [List.nil_append] at hextra
  rw [wholeObject,hstrip]
  refine ⟨List.cons_ne_nil _ _,?_⟩
  cases hseen : seen (scanning lib deep parseFloat)
      ((0x7B::(mid++[0x7D]))++((ws'++(brk++ws₂))++(0x7B::(mid₂++[0x7D])))) with
  | none => rfl
  | some v =>
    have hloads := loads_of_seen lib deep hseen
    rw [hextra] at hloads
    cases hloads

/-- Nothing is found in a line that is refused. -/
theorem results_refused {line : StreamLine parseFloat} {text : PyStr} (h : Stream [line] text)
    (hrefused : ¬line.accepted lib deep=true) :
    ((events (seen (scanning lib deep parseFloat)) text).filter isResult).getLast?=none := by
  have hwhole : ¬line.whole lib deep=true := fun h => hrefused (Bool.and_eq_true _ _ ▸ h).2
  rw [results_stream lib deep h,List.filter_cons_of_neg hwhole]
  rfl

/-- The result object of a stream: that of its line if it has one line and the line is
accepted, and that of the last whole result line otherwise. -/
theorem resultObject_stream {lines : List (StreamLine parseFloat)} {text : PyStr} (h : Stream lines text) :
    (∃ line,lines=[line] ∧ resultObject (seen (scanning lib deep parseFloat)) text=
        if line.accepted lib deep=true then some line.object else none) ∨
      lines.length≠1 ∧ resultObject (seen (scanning lib deep parseFloat)) text=
        lastResult (lines.filter (StreamLine.whole lib deep)) := by
  have hresults := results_stream lib deep h
  cases h with
  | last line =>
    obtain ⟨hne,hwhole⟩ := @wholeObject_line lib deep parseFloat line [] spaces_nil
    rw [List.append_nil] at hne hwhole
    refine .inl ⟨line,rfl,?_⟩
    rw [resultObject,if_neg hne,hwhole]
    split_ifs with haccepted
    · rfl
    · exact (Option.none_or).trans (results_refused lib deep (.last line) haccepted)
  | closed line hbrk =>
    obtain ⟨hne,hwhole⟩ := wholeObject_line lib deep line (spaces_of_break hbrk)
    refine .inl ⟨line,rfl,?_⟩
    rw [resultObject,if_neg hne,hwhole]
    split_ifs with haccepted
    · rfl
    · exact (Option.none_or).trans (results_refused lib deep (.closed line hbrk) haccepted)
  | @next line brk text lines hbrk hrest =>
    obtain ⟨hne,hwhole⟩ := wholeObject_lines lib deep line hbrk hrest
    refine .inr ⟨?_,?_⟩
    · cases hrest <;> simp
    · rw [resultObject,if_neg hne,hwhole,hresults,Option.none_or]

/-- It is the last result among the lines that are found, when the stream's last line, if
it is the only one, is a result. -/
theorem resultObject_found {lines : List (StreamLine parseFloat)} {text : PyStr} (h : Stream lines text)
    {object : List (PyStr × Json)} (hlast : lastResult lines=some object) :
    resultObject (seen (scanning lib deep parseFloat)) text=lastResult (foundLines lib deep lines) := by
  rcases resultObject_stream lib deep h with ⟨line,rfl,hresult⟩ | ⟨hlength,hresult⟩
  · have hisResult : isResult line.object=true := by
      have hmem := List.mem_of_getLast? hlast
      obtain ⟨hsingle,hisResult⟩ := List.mem_filter.mp hmem
      rwa [List.mem_singleton.mp hsingle] at hisResult
    rw [hresult,foundLines]
    split_ifs with haccepted
    · rw [List.filter_cons_of_pos haccepted,lastResult,List.map_cons,List.filter_cons_of_pos hisResult]
      rfl
    · rw [List.filter_cons_of_neg haccepted]
      rfl
  · rw [hresult,foundLines]
    rintro line rfl
    exact hlength rfl

end Streams

end GenericMlCache.StreamedResults
