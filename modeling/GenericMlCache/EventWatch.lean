import GenericMlCache.EventStream
import GenericMlCache.TextReading

/-!
# Watching a job's events

`watch` reads the whole events file again at every drain and prints the lines
behind those that it has counted. The file grows in between, so that a drain may
see any prefix of it, the last one too: it comes a moment after the last status,
which is written before the last event.
-/

namespace GenericMlCache.EventWatch

open PythonText ExecutionModel JsonText TextReading GatewayRelay

/-- What becomes of a line. -/
inductive Shown where
  | printed
  | skipped
  | raised
deriving DecidableEq

/-- What printing an event rests on. -/
structure Terminal where
  /-- Whether `datetime.fromtimestamp` accepts a number. -/
  fromTimestamp : Json → Bool
  /-- `str` of a value that is no text. -/
  str : Json → PyStr
  /-- Whether the encoding of stdout has a code point. UTF-8 has no surrogates. -/
  encodes : Fin 0x110000 → Bool

section Display
variable (terminal : Terminal) (parseFloat : PyStr → UInt64)

/-- The text of a value in an f-string. -/
def Terminal.format : Json → PyStr
  | .str s => s
  | value => terminal.str value

/-- The texts that are printed of a dict, besides its time. -/
def Terminal.texts (fields : List (PyStr × Json)) : List PyStr :=
  terminal.format ((getItem fields "kind").getD (.str (pyStr "?")))::
    (fields.filter fun e => decide (e.1≠pyStr "ts" ∧ e.1≠pyStr "kind")).flatMap fun e => [e.1,terminal.format e.2]

/-- Whether a dict's kind can be looked up, its time formatted and its text written. -/
def displays (fields : List (PyStr × Json)) : Bool :=
  let hashable := match getItem fields "kind" with
    | some (.arr _) | some (.obj _) => false
    | _ => true
  let timed := match getItem fields "ts" with
    | some (.int n) => terminal.fromTimestamp (.int n)
    | some (.float bits) => terminal.fromTimestamp (.float bits)
    | some (.bool b) => terminal.fromTimestamp (.bool b)
    | _ => true
  hashable && timed && (terminal.texts fields).all fun text => text.all terminal.encodes

/-- `_print_event`. -/
def printEvent (line : PyStr) : Shown :=
  match loads parseFloat line with
  | .error (.recursionError _) => .raised
  | .error _ => .skipped
  | .ok (.obj fields) => if displays terminal fields=true then .printed else .raised
  -- No other value has a method `get`.
  | .ok _ => .raised

end Display

/-- What a watch has counted and printed. -/
structure Watch where
  /-- The lines that were counted. -/
  seen : ℕ := 0
  /-- The lines that were printed. -/
  printed : List PyStr := []

section Drains
variable (shown : PyStr → Shown)

/-- The lines that a loop over `_print_event` prints, and whether it was cut by an exception. -/
def printLines : List PyStr → List PyStr × Bool
  | [] => ([],false)
  | line::rest =>
    match shown line with
    | .raised => ([],true)
    | .skipped => printLines rest
    | .printed => (line::(printLines rest).1,(printLines rest).2)

/-- `drain` of a file with the given content, and whether it raised. A file that
does not exist yet counts as an empty one. -/
def drain (w : Watch) (content : Bytes) : Watch × Bool :=
  match decodeText content with
  | none => (w,true)
  | some text =>
    let lines := splitLines text
    let (out,raised) := printLines shown (lines.drop w.seen)
    if raised=true then ({ w with printed := w.printed ++ out },true)
    else (⟨lines.length,w.printed ++ out⟩,false)

/-- What is printed by drains at the given lengths of the file, up to an exception. -/
def watch (file : Bytes) : Watch → List ℕ → List PyStr
  | w,[] => w.printed
  | w,cut::cuts =>
    match drain shown w (file.take cut) with
    | (w,true) => w.printed
    | (w,false) => watch file w cuts

end Drains

section Splitting

/-- No line holds what ends lines. -/
theorem splitLinesFrom_unbroken {line text : PyStr} (h : ∀ c∈line,isLineBreak c=false) :
    ∀ piece∈splitLinesFrom line text,∀ c∈piece,isLineBreak c=false := by
  fun_induction splitLinesFrom line text with
  | case1 => simp
  | case2 line hne =>
    intro piece hpiece c hc
    rw [List.mem_singleton.mp hpiece] at hc
    exact h c (List.mem_reverse.mp hc)
  | case3 line c hbreak d tail hcr ih =>
    intro piece hpiece e he
    rcases List.mem_cons.mp hpiece with rfl | hpiece
    · exact h e (List.mem_reverse.mp he)
    · exact ih (by simp) piece hpiece e he
  | case4 line c hbreak d tail hcr ih =>
    intro piece hpiece e he
    rcases List.mem_cons.mp hpiece with rfl | hpiece
    · exact h e (List.mem_reverse.mp he)
    · exact ih (by simp) piece hpiece e he
  | case5 line c hbreak =>
    intro piece hpiece e he
    rw [List.mem_singleton.mp hpiece] at he
    exact h e (List.mem_reverse.mp he)
  | case6 line c rest hbreak ih =>
    refine ih fun e he => ?_
    rcases List.mem_cons.mp he with rfl | he
    · exact Bool.not_eq_true _ ▸ hbreak
    · exact h e he

/-- An unbroken text stays in the open line. -/
theorem splitLinesFrom_append {line text rest : PyStr} (h : ∀ c∈text,isLineBreak c=false) :
    splitLinesFrom line (text ++ rest)=splitLinesFrom (text.reverse ++ line) rest := by
  induction text generalizing line with
  | nil => rfl
  | cons c text ih =>
    rw [List.forall_mem_cons] at h
    rw [List.cons_append,splitLinesFrom.eq_def]
    simp only [h.1,Bool.false_eq_true,if_false]
    rw [ih h.2]
    simp

/-- An unbroken line and its newline are the first line of a text. -/
theorem splitLines_line {line rest : PyStr} (h : ∀ c∈line,isLineBreak c=false) :
    splitLines (line ++ 0x0A::rest)=line::splitLines rest := by
  have hbreak : isLineBreak 0x0A=true := by decide
  rw [splitLines,splitLinesFrom_append h,splitLinesFrom.eq_def]
  cases rest with
  | nil => simp [hbreak,splitLines,splitLinesFrom]
  | cons d tail =>
    have hval : ¬(0x0A : Fin 0x110000).val=0x0D := by decide
    simp only [hbreak,if_true,hval,false_and,if_false]
    simp [splitLines]

/-- An unbroken text without a newline is one line, unless it is empty. -/
theorem splitLines_unbroken {text : PyStr} (h : ∀ c∈text,isLineBreak c=false) :
    splitLines text=if text=[] then [] else [text] := by
  have hsplit : splitLinesFrom [] (text ++ [])=splitLinesFrom (text.reverse ++ []) [] := splitLinesFrom_append h
  rw [List.append_nil,List.append_nil] at hsplit
  rw [splitLines,hsplit,splitLinesFrom]
  simp

end Splitting

section Prefixes
variable {lines : List PyStr} {l : PyStr} {cut cut' : ℕ}

/-- The octets of a text. -/
def octets (text : PyStr) : Bytes := text.flatMap encodeCodePoint

/-- A file of lines, each with its newline. -/
def fileOf (lines : List PyStr) : Bytes := lines.flatMap fun l => octets (l ++ [0x0A])

/-- The lines of a prefix of the file, none where it does not decode. -/
def contentLines (lines : List PyStr) (cut : ℕ) : Option (List PyStr) :=
  (decodeText ((fileOf lines).take cut)).map splitLines

/-- The length falls strictly inside a line: some of its octets are there, not all. -/
def inside : List PyStr → ℕ → Bool
  | [],_ => false
  | l::rest,cut =>
    if cut ≤ (octets l).length then 0 < cut && cut < (octets l).length else inside rest (cut-((octets l).length+1))

/-- How many lines are there with all their octets. -/
def complete : List PyStr → ℕ → ℕ
  | [],_ => 0
  | l::rest,cut => if cut < (octets l).length then 0 else 1+complete rest (cut-((octets l).length+1))

/-- How many lines are there with some of their octets. -/
def started : List PyStr → ℕ → ℕ
  | [],_ => 0
  | l::rest,cut => if cut=0 then 0 else 1+started rest (cut-((octets l).length+1))

theorem complete_le (lines : List PyStr) (cut : ℕ) : complete lines cut ≤ lines.length := by
  induction lines generalizing cut with
  | nil => exact le_rfl
  | cons l rest ih =>
    have hrest := ih (cut-((octets l).length+1))
    rw [complete,List.length_cons]
    split <;> omega

theorem started_le (lines : List PyStr) (cut : ℕ) : started lines cut ≤ lines.length := by
  induction lines generalizing cut with
  | nil => exact le_rfl
  | cons l rest ih =>
    have hrest := ih (cut-((octets l).length+1))
    rw [started,List.length_cons]
    split <;> omega

/-- A longer prefix has as many complete lines. -/
theorem complete_mono (h : cut ≤ cut') : complete lines cut ≤ complete lines cut' := by
  induction lines generalizing cut cut' with
  | nil => exact le_rfl
  | cons l rest ih =>
    have hrest := ih (show cut-((octets l).length+1) ≤ cut'-((octets l).length+1) by omega)
    rw [complete,complete]
    split <;> split <;> omega

/-- A longer prefix has as many lines that are started. -/
theorem started_mono (lines : List PyStr) (h : cut ≤ cut') : started lines cut ≤ started lines cut' := by
  induction lines generalizing cut cut' with
  | nil => exact le_rfl
  | cons l rest ih =>
    have hrest := ih (show cut-((octets l).length+1) ≤ cut'-((octets l).length+1) by omega)
    rw [started,started]
    split <;> split <;> omega

/-- What a line needs to be decoded again as the line it was. -/
structure Clean (l : PyStr) : Prop where
  /-- It was written as UTF-8. -/
  encodes : encodable l=true
  /-- It is not empty. -/
  nonempty : l≠[]
  /-- It holds no control character. -/
  printed : ∀ c∈l,0x20 ≤ c.val

theorem Clean.octets_pos (h : Clean l) : 0 < (octets l).length := by
  cases l with
  | nil => exact absurd rfl h.nonempty
  | cons c l =>
    have hc := List.length_pos_iff.mpr (encodeCodePoint_ne_nil c)
    rw [octets,List.flatMap_cons,List.length_append]
    omega

theorem not_control {c : Fin 0x110000} (h : 0x20 ≤ c.val) : c≠0x0A ∧ c≠0x0D := by
  constructor <;> rintro rfl <;> exact absurd h (by decide)

/-- A prefix that ends in the first line. -/
theorem contentLines_first (rest : List PyStr) (h : cut ≤ (octets l).length) :
    contentLines (l::rest) cut=(decodeText ((octets l).take cut)).map splitLines := by
  have hfile : fileOf (l::rest)=octets l ++ (octets [0x0A] ++ fileOf rest) := by
    simp [fileOf,octets]
  rw [contentLines,hfile,List.take_append_of_le_length h]

/-- A prefix that ends behind the first line. -/
theorem contentLines_later (rest : List PyStr) (hl : Clean l) (hunbroken : ∀ c∈l,isLineBreak c=false)
    (h : (octets l).length < cut) :
    contentLines (l::rest) cut=(contentLines rest (cut-((octets l).length+1))).map (l::·) := by
  have hnewline : octets [0x0A]=[0x0A] := by decide
  have hfile : fileOf (l::rest)=octets (l ++ [0x0A]) ++ fileOf rest := by simp [fileOf]
  have hlength : (octets (l ++ [0x0A])).length=(octets l).length+1 := by
    rw [octets,List.flatMap_append,← octets,← octets,hnewline,List.length_append]
    rfl
  have htake : (fileOf (l::rest)).take cut=octets (l ++ [0x0A]) ++ (fileOf rest).take (cut-((octets l).length+1)) := by
    rw [hfile,List.take_append,List.take_of_length_le (by omega),hlength]
  have hencodes : encodable (l ++ [0x0A])=true := by
    unfold encodable
    rw [List.all_append,← encodable,hl.encodes]
    rfl
  have hreturn : 0x0D∉l ++ [0x0A] := by
    rw [List.mem_append,not_or]
    exact ⟨fun hmem => (not_control (hl.printed _ hmem)).2 rfl,by decide⟩
  unfold contentLines decodeText
  rw [htake,octets,decodeUtf8_append hencodes]
  cases decodeUtf8 ((fileOf rest).take (cut-((octets l).length+1))) with
  | none => rfl
  | some text =>
    have htranslate : translateNewlines ((l ++ [0x0A]) ++ text)=(l ++ [0x0A]) ++ translateNewlines text := by
      rw [translateNewlines_append,translateNewlines_eq hreturn]
      intro hlast
      exact absurd (List.mem_of_getLast? hlast) hreturn
    simp only [Option.map_some,htranslate]
    rw [List.append_assoc,List.singleton_append,splitLines_line hunbroken]

/-- The whole first line. -/
theorem decodeText_line (hl : Clean l) : decodeText (octets l)=some l := by
  have hdecode := decodeUtf8_append hl.encodes []
  have hnil : decodeUtf8 []=some [] := by rw [decodeUtf8.eq_def]
  rw [List.append_nil,hnil] at hdecode
  rw [decodeText,octets,hdecode,Option.map_some,Option.map_some,List.append_nil,translateNewlines_eq]
  exact fun hmem => (not_control (hl.printed _ hmem)).2 rfl

/-- A part of the first line that decodes is one line, and not the whole one. -/
theorem decodeText_part (hl : Clean l) (hunbroken : ∀ c∈l,isLineBreak c=false) (hpos : 0 < cut)
    (hlt : cut < (octets l).length) {text : PyStr} (h : decodeText ((octets l).take cut)=some text) :
    splitLines text=[text] ∧ text≠l := by
  obtain ⟨t,ht,htext⟩ := Option.map_eq_some_iff.mp h
  have hencoded := encodeUtf8_of_decodeUtf8 ht
  have hoctets : octets t=(octets l).take cut := encodeUtf8_eq_some hencoded
  have hlength : (octets t).length=cut := by
    rw [hoctets,List.length_take]
    omega
  have hbegin : t <+: l := prefix_of_encoded (by
    rw [← octets,← octets,hoctets]
    exact List.take_prefix _ _)
  have hreturn : 0x0D∉t := fun hmem => (not_control (hl.printed _ (hbegin.subset hmem))).2 rfl
  rw [translateNewlines_eq hreturn] at htext
  subst htext
  have hne : t≠[] := by
    rintro rfl
    simp [octets] at hlength
    omega
  constructor
  · rw [splitLines_unbroken fun c hc => hunbroken c (hbegin.subset hc),if_neg hne]
  · rintro rfl
    omega

/-- What a drain sees of unbroken lines: the complete ones, and where the prefix
falls inside a line either no text at all or one more line that is not the next one. -/
theorem contentLines_cases (cut : ℕ) (hclean : ∀ l∈lines,Clean l) (hunbroken : ∀ l∈lines,∀ c∈l,isLineBreak c=false) :
    (inside lines cut=false ∧ started lines cut=complete lines cut ∧
      contentLines lines cut=some (lines.take (complete lines cut))) ∨
    (inside lines cut=true ∧ started lines cut=complete lines cut+1 ∧
      (contentLines lines cut=none ∨ ∃ part,lines[complete lines cut]?≠some part ∧
        contentLines lines cut=some (lines.take (complete lines cut) ++ [part]))) := by
  induction lines generalizing cut with
  | nil =>
    have hnil : decodeUtf8 []=some [] := by rw [decodeUtf8.eq_def]
    refine Or.inl ⟨rfl,rfl,?_⟩
    simp [contentLines,fileOf,decodeText,hnil,translateNewlines,splitLines,splitLinesFrom,complete]
  | cons l rest ih =>
    rw [List.forall_mem_cons] at hclean hunbroken
    obtain ⟨hl,hrest⟩ := hclean
    obtain ⟨hbreak,hbreaks⟩ := hunbroken
    have hpos := hl.octets_pos
    rcases Nat.lt_trichotomy cut (octets l).length with hlt | heq | hgt
    · have hfirst := contentLines_first rest hlt.le
      have hcomplete : complete (l::rest) cut=0 := by rw [complete,if_pos hlt]
      rw [hcomplete,hfirst]
      by_cases hzero : cut=0
      · have hnil : decodeUtf8 []=some [] := by rw [decodeUtf8.eq_def]
        subst hzero
        refine Or.inl ⟨by simp [inside],by simp [started],?_⟩
        simp [decodeText,hnil,translateNewlines,splitLines,splitLinesFrom]
      · have hstarted : started rest (cut-((octets l).length+1))=0 := by
          rw [show cut-((octets l).length+1)=0 by omega]
          cases rest <;> simp [started]
        refine Or.inr ⟨?_,by rw [started,if_neg hzero,hstarted],?_⟩
        · rw [inside,if_pos hlt.le]
          simp only [Bool.and_eq_true,decide_eq_true_eq]
          omega
        · cases hdecode : decodeText ((octets l).take cut) with
          | none => exact Or.inl rfl
          | some text =>
            obtain ⟨hlines,hne⟩ := decodeText_part hl hbreak (by omega) hlt hdecode
            refine Or.inr ⟨text,by simpa using hne.symm,?_⟩
            simp [hlines]
    · have hfirst := contentLines_first rest heq.le
      have hafter : cut-((octets l).length+1)=0 := by omega
      have hcomplete : complete (l::rest) cut=1 := by
        rw [complete,if_neg (by omega),hafter]
        cases rest with
        | nil => rfl
        | cons next rest =>
          have hnext := (hrest next List.mem_cons_self).octets_pos
          rw [complete,if_pos hnext]
      have hstarted : started (l::rest) cut=1 := by
        rw [started,if_neg (by omega),hafter]
        cases rest <;> simp [started]
      refine Or.inl ⟨?_,by rw [hstarted,hcomplete],?_⟩
      · rw [inside,if_pos heq.le]
        simp only [Bool.and_eq_false_iff,decide_eq_false_iff_not]
        omega
      · rw [hfirst,hcomplete,heq,List.take_length,decodeText_line hl,Option.map_some,splitLines_unbroken hbreak,
          if_neg hl.nonempty]
        rfl
    · have hlater := contentLines_later rest hl hbreak hgt
      have hcomplete : complete (l::rest) cut=complete rest (cut-((octets l).length+1))+1 := by
        rw [complete,if_neg (by omega),Nat.add_comm]
      have hstarted : started (l::rest) cut=started rest (cut-((octets l).length+1))+1 := by
        rw [started,if_neg (by omega),Nat.add_comm]
      have hinside : inside (l::rest) cut=inside rest (cut-((octets l).length+1)) := by
        rw [inside,if_neg (by omega)]
      rw [hlater,hcomplete,hstarted,hinside]
      rcases ih _ hrest hbreaks with ⟨hin,hstart,hcontent⟩ | ⟨hin,hstart,hcontent⟩
      · exact Or.inl ⟨hin,by rw [hstart],by rw [hcontent]; rfl⟩
      · refine Or.inr ⟨hin,by rw [hstart],?_⟩
        rcases hcontent with hnone | ⟨part,hpart,hcontent⟩
        · exact Or.inl (by rw [hnone]; rfl)
        · exact Or.inr ⟨part,by simpa using hpart,by rw [hcontent]; rfl⟩

/-- The length of the first line and its newline. -/
theorem fileOf_length (l : PyStr) (rest : List PyStr) : (fileOf (l::rest)).length=(octets l).length+1+(fileOf rest).length := by
  have hnewline : (encodeCodePoint 0x0A).length=1 := by decide
  simp [fileOf,octets,hnewline]
  omega

/-- All lines of the whole file are complete. -/
theorem complete_whole (lines : List PyStr) : complete lines (fileOf lines).length=lines.length := by
  induction lines with
  | nil => rfl
  | cons l rest ih =>
    have hlength := fileOf_length l rest
    have hrest : (fileOf (l::rest)).length-((octets l).length+1)=(fileOf rest).length := by omega
    rw [complete,if_neg (by omega),hrest,ih,List.length_cons,Nat.add_comm]

/-- The whole file does not end inside a line. -/
theorem inside_whole (lines : List PyStr) : inside lines (fileOf lines).length=false := by
  induction lines with
  | nil => rfl
  | cons l rest ih =>
    have hlength := fileOf_length l rest
    have hrest : (fileOf (l::rest)).length-((octets l).length+1)=(fileOf rest).length := by omega
    rw [inside,if_neg (by omega),hrest,ih]

end Prefixes

section Runs
variable {shown : PyStr → Shown} {lines : List PyStr} {w : Watch} {cuts : List ℕ} {cut : ℕ}

/-- Lines that are all printed. -/
theorem printLines_append {ls : List PyStr} (rest : List PyStr) (h : ∀ l∈ls,shown l=.printed) :
    printLines shown (ls ++ rest)=(ls ++ (printLines shown rest).1,(printLines shown rest).2) := by
  induction ls with
  | nil => rfl
  | cons l ls ih =>
    rw [List.forall_mem_cons] at h
    rw [List.cons_append,printLines,h.1]
    simp [ih h.2]

/-- What is printed is printed in order, each line at most once. -/
theorem printLines_sublist (shown : PyStr → Shown) (ls : List PyStr) : (printLines shown ls).1.Sublist ls := by
  induction ls with
  | nil => exact List.Sublist.refl _
  | cons l ls ih =>
    rw [printLines]
    split
    · exact List.nil_sublist _
    · exact ih.cons l
    · exact ih.cons_cons l

/-- A drain of a prefix of the file, by the lines of that prefix. -/
theorem drain_eq : drain shown w ((fileOf lines).take cut)=
    match contentLines lines cut with
    | none => (w,true)
    | some ls =>
      if (printLines shown (ls.drop w.seen)).2=true then
        ({ w with printed := w.printed ++ (printLines shown (ls.drop w.seen)).1 },true)
      else (⟨ls.length,w.printed ++ (printLines shown (ls.drop w.seen)).1⟩,false) := by
  unfold drain contentLines
  cases decodeText ((fileOf lines).take cut) <;> rfl

/-- Nothing that was printed is taken back. -/
theorem watch_prefix (file : Bytes) (w : Watch) : w.printed <+: watch shown file w cuts := by
  induction cuts generalizing w with
  | nil => exact List.prefix_rfl
  | cons cut cuts ih =>
    have hdrain : w.printed <+: (drain shown w (file.take cut)).1.printed := by
      unfold drain
      cases decodeText (file.take cut) with
      | none => exact List.prefix_rfl
      | some text =>
        dsimp only
        split <;> exact List.prefix_append _ _
    rw [watch]
    cases hresult : drain shown w (file.take cut) with
    | mk w' raised =>
      rw [hresult] at hdrain
      cases raised with
      | true => exact hdrain
      | false => exact hdrain.trans (ih w')

/-- A line with a line break in it is never printed as it is. -/
theorem watch_unbroken (file : Bytes) (h : ∀ l∈w.printed,∀ c∈l,isLineBreak c=false) :
    ∀ l∈watch shown file w cuts,∀ c∈l,isLineBreak c=false := by
  induction cuts generalizing w with
  | nil => exact h
  | cons cut cuts ih =>
    have hdrain : ∀ l∈(drain shown w (file.take cut)).1.printed,∀ c∈l,isLineBreak c=false := by
      unfold drain
      cases decodeText (file.take cut) with
      | none => exact h
      | some text =>
        have hpieces : ∀ l∈splitLines text,∀ c∈l,isLineBreak c=false := splitLinesFrom_unbroken (by simp)
        have hout : ∀ l∈w.printed ++ (printLines shown ((splitLines text).drop w.seen)).1,∀ c∈l,isLineBreak c=false := by
          intro l hl
          rcases List.mem_append.mp hl with hl | hl
          · exact h l hl
          · exact hpieces l (List.mem_of_mem_drop ((printLines_sublist shown _).subset hl))
        dsimp only
        split <;> exact hout
    rw [watch]
    cases hresult : drain shown w (file.take cut) with
    | mk w' raised =>
      rw [hresult] at hdrain
      cases raised with
      | true => exact hdrain
      | false => exact ih hdrain

/-- Only what can be printed is printed. -/
theorem printLines_shown {ls : List PyStr} : ∀ l∈(printLines shown ls).1,shown l=.printed := by
  induction ls with
  | nil =>
    intro l hl
    cases hl
  | cons l ls ih =>
    rw [printLines]
    split
    next =>
      intro l hl
      cases hl
    next => exact ih
    next hline => exact List.forall_mem_cons.mpr ⟨hline,ih⟩

/-- By no drain anything else. -/
theorem watch_shown (file : Bytes) (h : ∀ l∈w.printed,shown l=.printed) :
    ∀ l∈watch shown file w cuts,shown l=.printed := by
  induction cuts generalizing w with
  | nil => exact h
  | cons cut cuts ih =>
    have hdrain : ∀ l∈(drain shown w (file.take cut)).1.printed,shown l=.printed := by
      unfold drain
      cases decodeText (file.take cut) with
      | none => exact h
      | some text =>
        dsimp only
        split <;> exact List.forall_mem_append.mpr ⟨h,printLines_shown⟩
    rw [watch]
    cases hresult : drain shown w (file.take cut) with
    | mk w' raised =>
      rw [hresult] at hdrain
      cases raised with
      | true => exact hdrain
      | false => exact ih hdrain

/-- How many lines the last drain reads. -/
def reached (lines : List PyStr) : ℕ → List ℕ → ℕ
  | j,[] => j
  | _,cut::cuts => reached lines (complete lines cut) cuts

/-- The last drain reads most lines, and some drain reads all it does. -/
theorem lines_le_reached {j : ℕ} (hgrows : cuts.Pairwise (· ≤ ·)) (hj : ∀ cut∈cuts,j ≤ complete lines cut) :
    lines.length ≤ reached lines j cuts ↔ lines.length ≤ j ∨ ∃ cut∈cuts,complete lines cut=lines.length := by
  induction cuts generalizing j with
  | nil => simp [reached]
  | cons cut cuts ih =>
    rw [List.pairwise_cons] at hgrows
    rw [List.forall_mem_cons] at hj
    rw [reached,ih hgrows.2 fun later hlater => complete_mono (hgrows.1 later hlater)]
    have hle := complete_le lines cut
    simp only [List.mem_cons,exists_eq_or_imp]
    constructor
    · rintro (hall | hlater)
      · exact .inr (.inl (Nat.le_antisymm hle hall))
      · exact .inr (.inr hlater)
    · rintro (hall | hall | hlater)
      · exact .inl (hall.trans hj.1)
      · exact .inl hall.ge
      · exact .inr hlater

section Unbroken
variable (hclean : ∀ l∈lines,Clean l) (hunbroken : ∀ l∈lines,∀ c∈l,isLineBreak c=false)
include hclean hunbroken

/-- The number of lines that a prefix shows. -/
theorem contentLines_length {ls : List PyStr} (h : contentLines lines cut=some ls) :
    ls.length=started lines cut := by
  have hle := complete_le lines cut
  rcases contentLines_cases cut hclean hunbroken with ⟨_,hstart,hcontent⟩ | ⟨_,hstart,hcontent⟩
  · have heq := Option.some.inj (h.symm.trans hcontent)
    rw [heq,hstart,List.length_take]
    omega
  · rcases hcontent with hnone | ⟨part,_,hcontent⟩
    · exact nomatch h.symm.trans hnone
    · have heq := Option.some.inj (h.symm.trans hcontent)
      rw [heq,hstart,List.length_append,List.length_take,List.length_singleton]
      omega

/-- A watch that has counted more lines than it has printed never catches up. -/
theorem watch_behind (w : Watch) (hbehind : w.printed.length < w.seen) (hseen : w.seen ≤ lines.length)
    (hcuts : ∀ cut∈cuts,w.seen ≤ started lines cut) (hgrows : cuts.Pairwise (· ≤ ·)) :
    (watch shown (fileOf lines) w cuts).length < lines.length := by
  induction cuts generalizing w with
  | nil => exact hbehind.trans_le hseen
  | cons cut cuts ih =>
    rw [List.forall_mem_cons] at hcuts
    rw [List.pairwise_cons] at hgrows
    rw [watch,drain_eq]
    cases hcontent : contentLines lines cut with
    | none => exact hbehind.trans_le hseen
    | some ls =>
      have hlength := contentLines_length hclean hunbroken hcontent
      have hstarted := started_le lines cut
      have hout := (printLines_sublist shown (ls.drop w.seen)).length_le
      rw [List.length_drop] at hout
      have hprinted : (w.printed ++ (printLines shown (ls.drop w.seen)).1).length < ls.length := by
        rw [List.length_append]
        omega
      dsimp only
      by_cases hraised : (printLines shown (ls.drop w.seen)).2=true
      · rw [if_pos hraised]
        dsimp only
        omega
      · rw [if_neg hraised]
        refine ih _ hprinted (by dsimp only; omega) (fun later hlater => ?_) hgrows.2
        have hmono := started_mono lines (hgrows.1 later hlater)
        dsimp only
        omega

variable (hshown : ∀ l∈lines,shown l=.printed)
include hshown

/-- A drain that ends between two lines, or at the end of one, prints what is new. -/
theorem drain_between {j : ℕ} (hj : j ≤ complete lines cut) (hinside : inside lines cut=false) :
    drain shown ⟨j,lines.take j⟩ ((fileOf lines).take cut)=
      (⟨complete lines cut,lines.take (complete lines cut)⟩,false) := by
  have hle := complete_le lines cut
  have hcontent : contentLines lines cut=some (lines.take (complete lines cut)) := by
    rcases contentLines_cases cut hclean hunbroken with ⟨_,_,hcontent⟩ | ⟨hin,_,_⟩
    · exact hcontent
    · rw [hinside] at hin
      exact nomatch hin
  have hnew : ∀ l∈(lines.take (complete lines cut)).drop j,shown l=.printed :=
    fun l hl => hshown l (List.mem_of_mem_take (List.mem_of_mem_drop hl))
  have hprint := printLines_append [] hnew
  rw [List.append_nil] at hprint
  have htake : lines.take j=(lines.take (complete lines cut)).take j := by
    rw [List.take_take,Nat.min_eq_left hj]
  rw [drain_eq,hcontent]
  dsimp only
  rw [hprint]
  simp only [printLines,Bool.false_eq_true,if_false,List.append_nil]
  rw [htake,List.take_append_drop,List.length_take,Nat.min_eq_left hle]

/-- Drains between the lines print what the last of them reads, once and in order. -/
theorem watch_between {j : ℕ} (hj : ∀ cut∈cuts,j ≤ complete lines cut) (hgrows : cuts.Pairwise (· ≤ ·))
    (hinside : ∀ cut∈cuts,inside lines cut=false) :
    watch shown (fileOf lines) ⟨j,lines.take j⟩ cuts=lines.take (reached lines j cuts) := by
  induction cuts generalizing j with
  | nil => rfl
  | cons cut cuts ih =>
    rw [List.forall_mem_cons] at hj hinside
    rw [List.pairwise_cons] at hgrows
    rw [watch,drain_between hclean hunbroken hshown hj.1 hinside.1]
    exact ih (fun later hlater => complete_mono (hgrows.1 later hlater)) hgrows.2 hinside.2

/-- A drain that ends inside a line spoils what all of them print. -/
theorem watch_inside {j : ℕ} (hj : ∀ cut∈cuts,j ≤ complete lines cut) (hgrows : cuts.Pairwise (· ≤ ·))
    (hinside : ∃ cut∈cuts,inside lines cut=true) : watch shown (fileOf lines) ⟨j,lines.take j⟩ cuts≠lines := by
  induction cuts generalizing j with
  | nil => simp at hinside
  | cons cut cuts ih =>
    rw [List.forall_mem_cons] at hj
    rw [List.pairwise_cons] at hgrows
    rcases contentLines_cases cut hclean hunbroken with ⟨hout,_,_⟩ | ⟨hin,hstart,hcontent⟩
    · have hlater : ∃ cut∈cuts,inside lines cut=true := by
        obtain ⟨later,hmem,hin⟩ := hinside
        rcases List.mem_cons.mp hmem with rfl | hmem
        · rw [hout] at hin
          exact nomatch hin
        · exact ⟨later,hmem,hin⟩
      rw [watch,drain_between hclean hunbroken hshown hj.1 hout]
      exact ih (fun later hmem => complete_mono (hgrows.1 later hmem)) hgrows.2 hlater
    · have hstarted := started_le lines cut
      rw [watch,drain_eq]
      rcases hcontent with hnone | ⟨part,hpart,hcontent⟩
      · rw [hnone]
        intro heq
        have hcount := congrArg List.length heq
        rw [List.length_take] at hcount
        omega
      · have hnew : ∀ l∈(lines.take (complete lines cut)).drop j,shown l=.printed :=
          fun l hl => hshown l (List.mem_of_mem_take (List.mem_of_mem_drop hl))
        have htaken : (lines.take (complete lines cut)).length=complete lines cut := by
          rw [List.length_take]
          omega
        have htake : lines.take j=(lines.take (complete lines cut)).take j := by
          rw [List.take_take,Nat.min_eq_left hj.1]
        have hdrop : (lines.take (complete lines cut) ++ [part]).drop j=
            (lines.take (complete lines cut)).drop j ++ [part] := by
          rw [List.drop_append_of_le_length]
          rw [htaken]
          exact hj.1
        rw [hcontent]
        dsimp only
        rw [hdrop,printLines_append [part] hnew,htake]
        dsimp only
        rw [← List.append_assoc,List.take_append_drop]
        cases hshow : shown part with
        | raised =>
          simp only [printLines,hshow,if_true,List.append_nil]
          intro heq
          have hcount := congrArg List.length heq
          omega
        | skipped =>
          simp only [printLines,hshow,Bool.false_eq_true,if_false,List.append_nil]
          rw [List.length_append,htaken,List.length_singleton]
          intro heq
          have hstarts : ∀ later∈cuts,complete lines cut+1 ≤ started lines later := by
            intro later hmem
            have hmono := started_mono lines (hgrows.1 later hmem)
            omega
          have hshort : (watch shown (fileOf lines) ⟨complete lines cut+1,lines.take (complete lines cut)⟩
              cuts).length < lines.length :=
            watch_behind hclean hunbroken _ (by dsimp only; omega) (by dsimp only; omega) hstarts hgrows.2
          rw [heq] at hshort
          exact lt_irrefl _ hshort
        | printed =>
          simp only [printLines,hshow,Bool.false_eq_true,if_false]
          intro heq
          have hbegin : lines.take (complete lines cut) ++ [part] <+: watch shown (fileOf lines)
              ⟨(lines.take (complete lines cut) ++ [part]).length,lines.take (complete lines cut) ++ [part]⟩
              cuts := watch_prefix (fileOf lines) ⟨_,_⟩
          rw [heq] at hbegin
          have hlt : complete lines cut < (lines.take (complete lines cut) ++ [part]).length := by
            rw [List.length_append,htaken,List.length_singleton]
            omega
          have hget := List.prefix_iff_getElem?.mp hbegin (complete lines cut) hlt
          rw [hget] at hpart
          refine hpart (congrArg some ?_)
          simp [htaken]

end Unbroken

/-- Drains of a growing file print every line once and in order exactly if no line holds
what ends lines, every line can be printed, no drain ends inside a line and some drain
reads them all. -/
theorem watch_eq_iff (hclean : ∀ l∈lines,Clean l) (hgrows : cuts.Pairwise (· ≤ ·)) :
    watch shown (fileOf lines) {} cuts=lines ↔
      (∀ l∈lines,∀ c∈l,isLineBreak c=false) ∧ (∀ l∈lines,shown l=.printed) ∧
        (∀ cut∈cuts,inside lines cut=false) ∧ (lines=[] ∨ ∃ cut∈cuts,complete lines cut=lines.length) := by
  have hreached := @lines_le_reached lines cuts 0 hgrows fun _ _ => Nat.zero_le _
  rw [Nat.le_zero,List.length_eq_zero_iff] at hreached
  rw [← hreached]
  constructor
  · intro heq
    have hunbroken : ∀ l∈lines,∀ c∈l,isLineBreak c=false := by
      intro l hl
      rw [← heq] at hl
      exact watch_unbroken (w := {}) (fileOf lines) (by simp) l hl
    have hshown : ∀ l∈lines,shown l=.printed := by
      intro l hl
      rw [← heq] at hl
      exact watch_shown (w := {}) (fileOf lines) (by simp) l hl
    have hinside : ∀ cut∈cuts,inside lines cut=false := by
      intro cut hcut
      by_contra hin
      exact watch_inside hclean hunbroken hshown (fun _ _ => Nat.zero_le _) hgrows
        ⟨cut,hcut,eq_true_of_ne_false hin⟩ heq
    refine ⟨hunbroken,hshown,hinside,?_⟩
    have hbetween := watch_between hclean hunbroken hshown (fun _ _ => Nat.zero_le _) hgrows hinside
    have hlength := congrArg List.length (hbetween.symm.trans heq)
    rw [List.length_take] at hlength
    omega
  · rintro ⟨hunbroken,hshown,hinside,hall⟩
    have hbetween := watch_between hclean hunbroken hshown (fun _ _ => Nat.zero_le _) hgrows hinside
    exact hbetween.trans (List.take_of_length_le hall)

end Runs

section Events
open EventStream JsonRoundTrip
variable {codec : FloatCodec} {terminal : Terminal} {events : List Event} {e : Event}

/-- The line of a written event is decoded as it was. -/
theorem clean_line (h : e.Written) : Clean (e.line codec.floatRepr) where
  encodes := encodable_line h
  nonempty := line_ne_nil
  printed := line_not_control h

/-- Whether stdout takes all that is printed of an event. -/
def Printable (terminal : Terminal) (e : Event) : Prop :=
  ∀ s∈terminal.texts e.record,∀ c∈s,terminal.encodes c=true

/-- A written event's dict is displayed where its text is printable. -/
theorem displays_record (htime : terminal.fromTimestamp (.float e.ts)=true) :
    displays terminal e.record=true ↔ Printable terminal e := by
  have hkind : getItem e.record "kind"=some (.str e.kind) := by
    have hother : pyStr "ts"≠pyStr "kind" := by decide
    simp [getItem,Event.record,hother]
  have hts : getItem e.record "ts"=some (.float e.ts) := by
    simp [getItem,Event.record]
  rw [displays,hkind,hts]
  simp only [htime,Bool.and_true,Bool.true_and,List.all_eq_true,Printable]

/-- The line of a written event is printed exactly where its text is printable. -/
theorem printEvent_line (h : e.Written) (htime : terminal.fromTimestamp (.float e.ts)=true) :
    printEvent terminal codec.parseFloat (e.line codec.floatRepr)=.printed ↔ Printable terminal e := by
  rw [printEvent,loads_line h,← displays_record htime]
  dsimp only
  split
  next hdisplays => exact iff_of_true rfl hdisplays
  next hnot => exact iff_of_false (fun h => by cases h) hnot

/-- The events file is the file of the events' lines. -/
theorem fileOf_events (h : ∀ e∈events,e.Written) :
    events.flatMap (Event.written codec.floatRepr)=fileOf (events.map (Event.line codec.floatRepr)) := by
  induction events with
  | nil => rfl
  | cons e events ih =>
    rw [List.forall_mem_cons] at h
    rw [List.flatMap_cons,ih h.2,written_eq h.1]
    rfl

section Lines
variable (h : ∀ e∈events,e.Written)
include h

/-- The lines of written events are decoded as they were. -/
theorem clean_lines : ∀ l∈events.map (Event.line codec.floatRepr),Clean l :=
  List.forall_mem_map.mpr fun e he => clean_line (h e he)

/-- The lines of written events are printed where their texts are printable. -/
theorem lines_printed_iff (htime : ∀ e∈events,terminal.fromTimestamp (.float e.ts)=true) :
    (∀ l∈events.map (Event.line codec.floatRepr),printEvent terminal codec.parseFloat l=.printed) ↔
      ∀ e∈events,Printable terminal e := by
  rw [List.forall_mem_map]
  exact forall₂_congr fun e he => printEvent_line (h e he) (htime e he)

/-- `splitlines` leaves the lines of events whole whose texts hold no separator. -/
theorem unbroken_iff : (∀ l∈events.map (Event.line codec.floatRepr),∀ c∈l,isLineBreak c=false) ↔
    ∀ e∈events,∀ s∈e.texts,∀ c∈s,c∉separators := by
  rw [List.forall_mem_map]
  refine forall₂_congr fun e he => ?_
  have hline := line_breaks_iff codec (h e he)
  constructor
  · intro hunbroken s hs c hc hsep
    obtain ⟨d,hd,hbreak⟩ := hline.mpr ⟨s,hs,c,hc,hsep⟩
    rw [hunbroken d hd] at hbreak
    exact nomatch hbreak
  · intro hnone c hc
    by_contra hbreak
    obtain ⟨s,hs,d,hd,hsep⟩ := hline.mp ⟨c,hc,eq_true_of_ne_false hbreak⟩
    exact hnone s hs d hd hsep

end Lines

/-- `watch` prints every event of a job once and in file order exactly if no text
of an event holds NEL, LS or PS, stdout takes what is printed of each, no drain reads
the file with a line half written and some drain reads it with all lines. Each written
event's time has to be one that can be formatted. -/
theorem watch_shows_iff (codec : FloatCodec) (terminal : Terminal) (events : List Event) (cuts : List ℕ)
    (hwritten : ∀ e∈events,e.Written) (htime : ∀ e∈events,terminal.fromTimestamp (.float e.ts)=true)
    (hgrows : cuts.Pairwise (· ≤ ·)) :
    watch (printEvent terminal codec.parseFloat) (events.flatMap (Event.written codec.floatRepr)) {} cuts=
        events.map (Event.line codec.floatRepr) ↔
      (∀ e∈events,∀ s∈e.texts,∀ c∈s,c∉separators) ∧ (∀ e∈events,Printable terminal e) ∧
        (∀ cut∈cuts,inside (events.map (Event.line codec.floatRepr)) cut=false) ∧
        (events=[] ∨ ∃ cut∈cuts,complete (events.map (Event.line codec.floatRepr)) cut=events.length) := by
  rw [fileOf_events hwritten,watch_eq_iff (clean_lines hwritten) hgrows,unbroken_iff hwritten,
    lines_printed_iff hwritten htime,List.map_eq_nil_iff,List.length_map]

/-- An event of one text. -/
def textEvent (text : PyStr) : Event := ⟨0,pyStr "submitted",[(pyStr "client",some (.text text))]⟩

theorem textEvent_written {text : PyStr} (h : encodable text=true) : (textEvent text).Written where
  finite := (by decide : isFinite 0=true)
  names := by
    have hnames : (textEvent text).record.map Prod.fst=[pyStr "ts",pyStr "kind",pyStr "client"] := rfl
    rw [hnames]
    decide
  kind := encodable_pyStr _
  keys := by
    intro f hf
    rw [List.mem_singleton.mp hf]
    exact encodable_pyStr _
  texts := by
    intro f hf s hs
    rw [List.mem_singleton.mp hf] at hs
    rw [← FieldValue.text.inj hs]
    exact h
  ints := by
    intro f hf n hn
    rw [List.mem_singleton.mp hf] at hn
    exact nomatch hn

/-- A terminal that takes everything. -/
def sampleTerminal : Terminal where
  fromTimestamp _ := true
  str _ := []
  encodes _ := true

/-- Two events. -/
def twoEvents : List Event := [textEvent (pyStr "echo"),textEvent (pyStr "fail")]

/-- They are written. -/
theorem twoEvents_written : ∀ e∈twoEvents,e.Written :=
  List.forall_mem_cons.mpr ⟨textEvent_written (encodable_pyStr _),
    List.forall_mem_singleton.mpr (textEvent_written (encodable_pyStr _))⟩

/-- Two events, watched from before the first one until behind the last one. -/
theorem watch_shows_two :
    watch (printEvent sampleTerminal sampleCodec.parseFloat)
        (twoEvents.flatMap (Event.written sampleCodec.floatRepr)) {}
        [0,(twoEvents.flatMap (Event.written sampleCodec.floatRepr)).length]=
      twoEvents.map (Event.line sampleCodec.floatRepr) := by
  refine (watch_shows_iff sampleCodec sampleTerminal twoEvents _ twoEvents_written (fun _ _ => rfl)
    (by simp)).mpr ⟨?_,fun _ _ _ _ _ _ => rfl,?_,.inr ⟨_,List.mem_cons_of_mem _ (List.mem_singleton_self _),?_⟩⟩
  · have htexts : ∀ e∈twoEvents,∀ s∈e.texts,(s.all fun c => decide (Printed c))=true := by decide
    exact fun e he s hs c hc => (printed_all (htexts e he s hs) c hc).not_separator
  · rw [fileOf_events twoEvents_written]
    exact List.forall_mem_cons.mpr ⟨rfl,List.forall_mem_singleton.mpr (inside_whole _)⟩
  · rw [fileOf_events twoEvents_written,complete_whole,List.length_map]

/-- Three ways to lose an event: a client name with a line separator, which no drain
prints whole; a drain that sees the first octet of a line, which counts it and never
prints it; and a last drain that comes before the event. -/
theorem watch_shows_fails :
    (∃ events : List Event,∃ cut,(∀ e∈events,e.Written) ∧
      cut=(events.flatMap (Event.written sampleCodec.floatRepr)).length ∧
      watch (printEvent sampleTerminal sampleCodec.parseFloat)
          (events.flatMap (Event.written sampleCodec.floatRepr)) {} [cut]≠
        events.map (Event.line sampleCodec.floatRepr)) ∧
    (∃ events : List Event,∃ cut whole,(∀ e∈events,e.Written) ∧ (∀ e∈events,∀ s∈e.texts,∀ c∈s,c∉separators) ∧
      whole=(events.flatMap (Event.written sampleCodec.floatRepr)).length ∧ cut ≤ whole ∧
      watch (printEvent sampleTerminal sampleCodec.parseFloat)
          (events.flatMap (Event.written sampleCodec.floatRepr)) {} [cut,whole]≠
        events.map (Event.line sampleCodec.floatRepr)) ∧
    ∃ events : List Event,(∀ e∈events,e.Written) ∧ (∀ e∈events,∀ s∈e.texts,∀ c∈s,c∉separators) ∧
      watch (printEvent sampleTerminal sampleCodec.parseFloat)
          (events.flatMap (Event.written sampleCodec.floatRepr)) {} [0]≠
        events.map (Event.line sampleCodec.floatRepr) := by
  have hecho : ∀ e∈[textEvent (pyStr "echo")],e.Written :=
    List.forall_mem_singleton.mpr (textEvent_written (encodable_pyStr _))
  have htexts : ∀ e∈[textEvent (pyStr "echo")],∀ s∈e.texts,(s.all fun c => decide (Printed c))=true := by decide
  have hnone : ∀ e∈[textEvent (pyStr "echo")],∀ s∈e.texts,∀ c∈s,c∉separators :=
    fun e he s hs c hc => (printed_all (htexts e he s hs) c hc).not_separator
  have hclean : ∀ l∈[textEvent (pyStr "echo")].map (Event.line sampleCodec.floatRepr),Clean l := clean_lines hecho
  refine ⟨⟨[textEvent [0x2028]],_,List.forall_mem_singleton.mpr (textEvent_written (by decide)),rfl,fun heq => ?_⟩,
    ⟨_,1,_,hecho,hnone,rfl,by decide +kernel,fun heq => ?_⟩,_,hecho,hnone,fun heq => ?_⟩
  · have hwritten : ∀ e∈[textEvent [0x2028]],e.Written :=
      List.forall_mem_singleton.mpr (textEvent_written (by decide))
    rw [fileOf_events hwritten] at heq
    have hunbroken := ((watch_eq_iff (clean_lines hwritten) (List.pairwise_singleton _ _)).mp heq).1
    have hseparated := (unbroken_iff hwritten).mp hunbroken _ (List.mem_singleton_self _) [0x2028] (by decide)
    exact hseparated 0x2028 (List.mem_singleton_self _) (by decide)
  · have hinside : inside ([textEvent (pyStr "echo")].map (Event.line sampleCodec.floatRepr)) 1=true := by decide +kernel
    have hle : 1 ≤ (fileOf ([textEvent (pyStr "echo")].map (Event.line sampleCodec.floatRepr))).length := by decide +kernel
    rw [fileOf_events hecho] at heq
    have hout := ((watch_eq_iff hclean (List.pairwise_pair.mpr hle)).mp heq).2.2.1 1 List.mem_cons_self
    rw [hinside] at hout
    cases hout
  · have hzero : complete ([textEvent (pyStr "echo")].map (Event.line sampleCodec.floatRepr)) 0=0 := by decide +kernel
    rw [fileOf_events hecho] at heq
    rcases ((watch_eq_iff hclean (List.pairwise_singleton _ _)).mp heq).2.2.2 with hempty | ⟨cut,hcut,hall⟩
    · cases hempty
    · rw [List.mem_singleton.mp hcut,hzero] at hall
      cases hall

end Events

end GenericMlCache.EventWatch
