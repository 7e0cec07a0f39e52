import GenericMlCache.PythonText

/-!
# Reading lines from a pipe

A text stream decodes its bytes chunk by chunk, translates the line ends and gives one
line after another. What it gives in all is what decoding the bytes at once gives.
-/

namespace GenericMlCache.TextReading

open PythonText

/-- One step of an incremental UTF-8 decoder: the text of the whole characters and the
bytes of a character that has only begun; none where it raises UnicodeDecodeError. -/
def decodeChunk : Bytes → Option (PyStr × Bytes)
  | [] => some ([],[])
  | b0::rest =>
    if b0 < 0x80 then (decodeChunk rest).map fun (text,held) => (Fin.ofNat 0x110000 b0.toNat::text,held)
    else if 0xC2 ≤ b0 && b0 ≤ 0xDF then
      match rest with
      | b1::tail =>
        if isContinuation b1 then (decodeChunk tail).map fun (text,held) =>
          (Fin.ofNat 0x110000 ((b0.toNat-0xC0)*64+(b1.toNat-0x80))::text,held)
        else none
      | [] => some ([],[b0])
    else if 0xE0 ≤ b0 && b0 ≤ 0xEF then
      match rest with
      | b1::b2::tail =>
        if isContinuation b1 && isContinuation b2 && (b0 != 0xE0 || 0xA0 ≤ b1) && (b0 != 0xED || b1 ≤ 0x9F) then
          (decodeChunk tail).map fun (text,held) =>
            (Fin.ofNat 0x110000 ((b0.toNat-0xE0)*4096+(b1.toNat-0x80)*64+(b2.toNat-0x80))::text,held)
        else none
      | [b1] =>
        if isContinuation b1 && (b0 != 0xE0 || 0xA0 ≤ b1) && (b0 != 0xED || b1 ≤ 0x9F) then some ([],[b0,b1])
        else none
      | [] => some ([],[b0])
    else if 0xF0 ≤ b0 && b0 ≤ 0xF4 then
      match rest with
      | b1::b2::b3::tail =>
        if isContinuation b1 && isContinuation b2 && isContinuation b3 && (b0 != 0xF0 || 0x90 ≤ b1) &&
            (b0 != 0xF4 || b1 ≤ 0x8F) then
          (decodeChunk tail).map fun (text,held) => (Fin.ofNat 0x110000
            ((b0.toNat-0xF0)*262144+(b1.toNat-0x80)*4096+(b2.toNat-0x80)*64+(b3.toNat-0x80))::text,held)
        else none
      | [b1,b2] =>
        if isContinuation b1 && isContinuation b2 && (b0 != 0xF0 || 0x90 ≤ b1) && (b0 != 0xF4 || b1 ≤ 0x8F) then
          some ([],[b0,b1,b2])
        else none
      | [b1] =>
        if isContinuation b1 && (b0 != 0xF0 || 0x90 ≤ b1) && (b0 != 0xF4 || b1 ≤ 0x8F) then some ([],[b0,b1])
        else none
      | [] => some ([],[b0])
    else none

/-- A whole character in front of a chunk. -/
theorem decodeChunk_cons {c : Fin 0x110000} {tail rest : Bytes} {t : PyStr}
    (ih : ∀ {t},decodeUtf8 (tail++rest)=some t →
      ∃ text held t',decodeChunk tail=some (text,held) ∧ decodeUtf8 (held++rest)=some t' ∧ t=text++t')
    (h : (decodeUtf8 (tail++rest)).map (c::·)=some t) :
    ∃ text held t',(decodeChunk tail).map (fun (text,held) => (c::text,held))=some (text,held) ∧
      decodeUtf8 (held++rest)=some t' ∧ t=text++t' := by
  obtain ⟨t₁,hdecoded,rfl⟩ := Option.map_eq_some_iff.mp h
  obtain ⟨text,held,t',hchunk,hrest,rfl⟩ := ih hdecoded
  exact ⟨c::text,held,t',by rw [hchunk]; rfl,hrest,rfl⟩

/-- A chunk of what decodes is decoded, and what it holds back decodes with the rest. -/
theorem decodeChunk_append {a rest : Bytes} {t : PyStr} (h : decodeUtf8 (a++rest)=some t) :
    ∃ text held t',decodeChunk a=some (text,held) ∧ decodeUtf8 (held++rest)=some t' ∧ t=text++t' := by
  fun_induction decodeChunk a generalizing t with
  | case1 => exact ⟨[],[],t,rfl,h,rfl⟩
  | case2 b0 tail hb0 ih =>
    rw [List.cons_append,decodeUtf8.eq_def] at h
    dsimp only at h
    rw [if_pos hb0] at h
    exact decodeChunk_cons ih h
  | case3 b0 hb0 hlead b1 tail hb1 ih =>
    rw [List.cons_append,List.cons_append,decodeUtf8.eq_def] at h
    dsimp only at h
    rw [if_neg hb0,if_pos hlead,if_pos hb1] at h
    exact decodeChunk_cons ih h
  | case4 b0 hb0 hlead b1 tail hb1 =>
    rw [List.cons_append,List.cons_append,decodeUtf8.eq_def] at h
    dsimp only at h
    rw [if_neg hb0,if_pos hlead,if_neg hb1] at h
    cases h
  | case6 b0 hb0 htwo hlead b1 b2 tail hrest ih =>
    rw [List.cons_append,List.cons_append,List.cons_append,decodeUtf8.eq_def] at h
    dsimp only at h
    rw [if_neg hb0,if_neg htwo,if_pos hlead,if_pos hrest] at h
    exact decodeChunk_cons ih h
  | case7 b0 hb0 htwo hlead b1 b2 tail hrest =>
    rw [List.cons_append,List.cons_append,List.cons_append,decodeUtf8.eq_def] at h
    dsimp only at h
    rw [if_neg hb0,if_neg htwo,if_pos hlead,if_neg hrest] at h
    cases h
  | case9 b0 hb0 htwo hlead b1 hbegun =>
    -- no third octet makes the two a character
    rw [List.cons_append,List.cons_append,List.nil_append,decodeUtf8.eq_def] at h
    dsimp only at h
    rw [if_neg hb0,if_neg htwo,if_pos hlead] at h
    cases rest with
    | nil => cases h
    | cons b2 tail =>
      dsimp only at h
      have hrest : ¬(isContinuation b1 && isContinuation b2 && (b0 != 0xE0 || 0xA0 ≤ b1) &&
          (b0 != 0xED || b1 ≤ 0x9F))=true := fun hall => hbegun (by simp_all only [Bool.and_eq_true,and_self])
      rw [if_neg hrest] at h
      cases h
  | case11 b0 hb0 htwo hthree hlead b1 b2 b3 tail hrest ih =>
    rw [List.cons_append,List.cons_append,List.cons_append,List.cons_append,decodeUtf8.eq_def] at h
    dsimp only at h
    rw [if_neg hb0,if_neg htwo,if_neg hthree,if_pos hlead,if_pos hrest] at h
    exact decodeChunk_cons ih h
  | case12 b0 hb0 htwo hthree hlead b1 b2 b3 tail hrest =>
    rw [List.cons_append,List.cons_append,List.cons_append,List.cons_append,decodeUtf8.eq_def] at h
    dsimp only at h
    rw [if_neg hb0,if_neg htwo,if_neg hthree,if_pos hlead,if_neg hrest] at h
    cases h
  | case14 b0 hb0 htwo hthree hlead b1 b2 hbegun =>
    rw [List.cons_append,List.cons_append,List.cons_append,List.nil_append,decodeUtf8.eq_def] at h
    dsimp only at h
    rw [if_neg hb0,if_neg htwo,if_neg hthree,if_pos hlead] at h
    cases rest with
    | nil => cases h
    | cons b3 tail =>
      dsimp only at h
      have hrest : ¬(isContinuation b1 && isContinuation b2 && isContinuation b3 && (b0 != 0xF0 || 0x90 ≤ b1) &&
          (b0 != 0xF4 || b1 ≤ 0x8F))=true := fun hall => hbegun (by simp_all only [Bool.and_eq_true,and_self])
      rw [if_neg hrest] at h
      cases h
  | case16 b0 hb0 htwo hthree hlead b1 hbegun =>
    rw [List.cons_append,List.cons_append,List.nil_append,decodeUtf8.eq_def] at h
    dsimp only at h
    rw [if_neg hb0,if_neg htwo,if_neg hthree,if_pos hlead] at h
    rcases rest with _ | ⟨b2,_ | ⟨b3,tail⟩⟩
    · cases h
    · cases h
    · dsimp only at h
      have hrest : ¬(isContinuation b1 && isContinuation b2 && isContinuation b3 && (b0 != 0xF0 || 0x90 ≤ b1) &&
          (b0 != 0xF4 || b1 ≤ 0x8F))=true := fun hall => hbegun (by simp_all only [Bool.and_eq_true,and_self])
      rw [if_neg hrest] at h
      cases h
  | case18 b0 tail hb0 htwo hthree hfour =>
    rw [List.cons_append,decodeUtf8.eq_def] at h
    dsimp only at h
    rw [if_neg hb0,if_neg htwo,if_neg hthree,if_neg hfour] at h
    cases h
  | _ => exact ⟨[],_,t,rfl,h,rfl⟩

/-- Universal newlines: `\r\n` and `\r` become `\n`. -/
def translateNewlines : PyStr → PyStr
  | [] => []
  | [c] => [if c=0x0D then 0x0A else c]
  | c::d::rest =>
    if c=0x0D ∧ d=0x0A then 0x0A::translateNewlines rest
    else (if c=0x0D then 0x0A else c)::translateNewlines (d::rest)

/-- Two texts are translated on their own unless a line end lies across them. -/
theorem translateNewlines_append {a b : PyStr} (h : a.getLast?=some 0x0D → b.head?≠some 0x0A) :
    translateNewlines (a++b)=translateNewlines a++translateNewlines b := by
  fun_induction translateNewlines a with
  | case1 => rfl
  | case2 c =>
    cases b with
    | nil => rfl
    | cons d rest =>
      have hbreak : ¬(c=0x0D ∧ d=0x0A) := fun ⟨hc,hd⟩ => h (by rw [hc]; rfl) (by rw [hd]; rfl)
      rw [List.singleton_append,translateNewlines,if_neg hbreak,List.singleton_append]
  | case3 c d rest hbreak ih =>
    have hlast : rest.getLast?=some 0x0D → b.head?≠some 0x0A := by
      intro hrest
      refine h ?_
      cases rest with
      | nil => exact nomatch hrest
      | cons e rest => simpa using hrest
    rw [List.cons_append,List.cons_append,translateNewlines,if_pos hbreak,ih hlast,List.cons_append]
  | case4 c d rest hbreak ih =>
    have hlast : (d::rest).getLast?=some 0x0D → b.head?≠some 0x0A := fun hrest => h (by simpa using hrest)
    rw [List.cons_append,List.cons_append,translateNewlines,if_neg hbreak,← List.cons_append,ih hlast,List.cons_append]

/-- A carriage return held back. -/
def heldReturn (pendingCr : Bool) : PyStr := if pendingCr=true then [0x0D] else []

/-- One step of the incremental newline decoder: the translated text, and whether a
carriage return at its end is held back. -/
def newlineStep (pendingCr final : Bool) (output : PyStr) : PyStr × Bool :=
  let taken := pendingCr && (!output.isEmpty || final)
  let output := if taken=true then 0x0D::output else output
  if output.getLast?=some 0x0D ∧ final=false then (translateNewlines output.dropLast,true)
  else (translateNewlines output,pendingCr && !taken)

/-- A step gives what the translation of the whole gives, up to what it holds back. -/
theorem newlineStep_append (pendingCr : Bool) (output rest : PyStr) :
    translateNewlines (heldReturn pendingCr++(output++rest))=(newlineStep pendingCr false output).1++
      translateNewlines (heldReturn (newlineStep pendingCr false output).2++rest) := by
  cases output with
  | nil => cases pendingCr <;> rfl
  | cons c output =>
    have hstep : newlineStep pendingCr false (c::output)=
        if (heldReturn pendingCr++c::output).getLast?=some 0x0D then
          (translateNewlines (heldReturn pendingCr++c::output).dropLast,true)
        else (translateNewlines (heldReturn pendingCr++c::output),false) := by
      cases pendingCr <;> simp [newlineStep,heldReturn]
    rw [hstep,← List.append_assoc]
    by_cases hlast : (heldReturn pendingCr++c::output).getLast?=some 0x0D
    · rw [if_pos hlast]
      have hsplit : heldReturn pendingCr++c::output=(heldReturn pendingCr++c::output).dropLast++[0x0D] :=
        (List.dropLast_append_getLast? _ hlast).symm
      conv_lhs => rw [hsplit,List.append_assoc]
      exact translateNewlines_append fun _ => by simp
    · rw [if_neg hlast]
      exact translateNewlines_append fun heq => absurd heq hlast

/-- The last step gives all that is left. -/
theorem newlineStep_final (pendingCr : Bool) (output : PyStr) :
    newlineStep pendingCr true output=(translateNewlines (heldReturn pendingCr++output),false) := by
  cases pendingCr <;> simp [newlineStep,heldReturn]

/-- The text up to the first line end, and what follows. -/
def firstLine : PyStr → Option (PyStr × PyStr)
  | [] => none
  | c::rest => if c=0x0A then some ([c],rest) else (firstLine rest).map fun (line,after) => (c::line,after)

/-- A line and what follows it make up the text. -/
theorem firstLine_append {text line after : PyStr} (h : firstLine text=some (line,after)) : text=line++after := by
  induction text generalizing line with
  | nil => exact nomatch h
  | cons c rest ih =>
    unfold firstLine at h
    split at h
    · cases h
      rfl
    · obtain ⟨⟨line',after'⟩,hrest,heq⟩ := Option.map_eq_some_iff.mp h
      cases heq
      rw [ih hrest,List.cons_append]

/-- A text stream that is iterated for its lines: what its decoders hold back, and the
decoded text that is no line yet. -/
structure LineReader where
  /-- The bytes of a character that has not ended. -/
  held : Bytes := []
  /-- A carriage return is held back. -/
  pendingCr : Bool := false
  /-- The decoded text that is no line yet. -/
  text : PyStr := []
  /-- The stream has ended. -/
  eof : Bool := false
deriving DecidableEq

namespace LineReader

/-- Decode a chunk; none where that raises UnicodeDecodeError. -/
def fetch (r : LineReader) (chunk : Bytes) : Option LineReader :=
  (decodeChunk (r.held++chunk)).map fun (output,held) =>
    let (output,pendingCr) := newlineStep r.pendingCr false output
    { r with held := held, pendingCr := pendingCr, text := r.text++output }

/-- Decode what is left at the end of the bytes; none where that raises. -/
def finish (r : LineReader) : Option LineReader :=
  (decodeUtf8 r.held).map fun output =>
    let (output,pendingCr) := newlineStep r.pendingCr true output
    { held := [], pendingCr := pendingCr, text := r.text++output, eof := true }

/-- The next line, if it is read already. -/
def next (r : LineReader) : Option (PyStr × LineReader) :=
  match firstLine r.text with
  | some (line,after) => some (line,{ r with text := after })
  | none => if r.eof=true ∧ r.text≠[] then some (r.text,{ r with text := [] }) else none

/-- Lines that were given, a reader and the bytes to come make up a text. -/
def Reads (r : LineReader) (given : PyStr) (rest : Bytes) (whole : PyStr) : Prop :=
  ∃ t,decodeUtf8 (r.held++rest)=some t ∧ whole=given++r.text++translateNewlines (heldReturn r.pendingCr++t) ∧
    (r.eof=true → r.held=[] ∧ r.pendingCr=false ∧ rest=[])

variable {r r' : LineReader} {given whole line : PyStr} {chunk rest : Bytes}

/-- A reader that has read nothing. -/
theorem Reads.start {t : PyStr} (h : decodeUtf8 rest=some t) :
    Reads {} [] rest (translateNewlines t) := ⟨t,h,rfl,fun hno => (nomatch hno)⟩

/-- A chunk of a text is decoded. -/
theorem Reads.fetch (h : r.Reads given (chunk++rest) whole) (heof : r.eof=false) :
    ∃ r',r.fetch chunk=some r' ∧ r'.eof=false ∧ r'.Reads given rest whole := by
  obtain ⟨t,hdecoded,rfl,_⟩ := h
  rw [← List.append_assoc] at hdecoded
  obtain ⟨output,held,t',hchunk,hrest,rfl⟩ := decodeChunk_append hdecoded
  refine ⟨{ r with
    held := held
    pendingCr := (newlineStep r.pendingCr false output).2
    text := r.text++(newlineStep r.pendingCr false output).1 },by rw [LineReader.fetch,hchunk]; rfl,heof,t',hrest,?_,
      fun hyes => absurd (heof.symm.trans hyes) (by decide)⟩
  rw [newlineStep_append]
  simp only [List.append_assoc]

/-- So is what is left at its end. -/
theorem Reads.finish (h : r.Reads given [] whole) :
    ∃ r',r.finish=some r' ∧ r'.eof=true ∧ r'.Reads given [] whole := by
  obtain ⟨t,hdecoded,rfl,_⟩ := h
  rw [List.append_nil] at hdecoded
  refine ⟨⟨[],false,r.text++translateNewlines (heldReturn r.pendingCr++t),true⟩,?_,rfl,[],rfl,?_,
    fun _ => ⟨rfl,rfl,rfl⟩⟩
  · rw [LineReader.finish,hdecoded,Option.map_some]
    dsimp only
    rw [newlineStep_final]
  · simp [heldReturn,translateNewlines]

/-- A line that is given goes from the reader to the lines given. -/
theorem Reads.next (h : r.Reads given rest whole) (hnext : r.next=some (line,r')) :
    r'.Reads (given++line) rest whole := by
  obtain ⟨t,hdecoded,rfl,heof⟩ := h
  unfold LineReader.next at hnext
  split at hnext
  next line after hline =>
    cases hnext
    refine ⟨t,hdecoded,?_,heof⟩
    rw [firstLine_append hline]
    simp only [List.append_assoc]
  next =>
    split at hnext
    next =>
      cases hnext
      exact ⟨t,hdecoded,by simp only [List.append_nil,List.append_assoc],heof⟩
    next => exact nomatch hnext

/-- A reader at the end that gives no line has given the whole text. -/
theorem Reads.all (h : r.Reads given rest whole) (heof : r.eof=true) (hnext : r.next=none) : given=whole := by
  obtain ⟨t,hdecoded,rfl,hdone⟩ := h
  obtain ⟨hheld,hreturn,rfl⟩ := hdone heof
  unfold LineReader.next at hnext
  split at hnext
  next => exact nomatch hnext
  next =>
    split at hnext
    next => exact nomatch hnext
    next hempty =>
      have htext : r.text=[] := by simpa [heof] using hempty
      rw [hheld] at hdecoded
      cases hdecoded
      rw [htext,hreturn]
      simp [heldReturn,translateNewlines]

end LineReader

/-- The text of bytes that are decoded at once, as `communicate` decodes them. -/
def decodeText (b : Bytes) : Option PyStr := (decodeUtf8 b).map translateNewlines

/-- A reader over bytes that decode. -/
theorem reads_decodeText {b : Bytes} {whole : PyStr} (h : decodeText b=some whole) :
    LineReader.Reads {} [] b whole := by
  obtain ⟨t,hdecoded,rfl⟩ := Option.map_eq_some_iff.mp h
  exact .start hdecoded

section Octets
variable {b0 b1 b2 b3 : UInt8} {rest : Bytes}

/-- A condition on the second octet below some first octet, by their values. -/
theorem or_of_bound {b lead : UInt8} {p : Bool} (h : b.toNat=lead.toNat → p=true) : (b != lead || p)=true := by
  by_cases hb : b=lead
  · rw [h (by rw [hb])]
    simp
  · simp [hb]

theorem decodeUtf8_one (h0 : b0.toNat < 0x80) :
    decodeUtf8 (b0::rest)=(decodeUtf8 rest).map (Fin.ofNat 0x110000 b0.toNat :: ·) := by
  have hlt : b0 < 0x80 := by simpa [UInt8.lt_iff_toNat_lt] using h0
  rw [decodeUtf8.eq_def]
  dsimp only
  rw [if_pos hlt]

theorem decodeUtf8_two (h0 : 0xC2 ≤ b0.toNat ∧ b0.toNat ≤ 0xDF) (h1 : isContinuation b1=true) :
    decodeUtf8 (b0::b1::rest)=
      (decodeUtf8 rest).map (Fin.ofNat 0x110000 ((b0.toNat-0xC0)*64+(b1.toNat-0x80)) :: ·) := by
  have hlt : ¬b0 < 0x80 := by
    simp [UInt8.le_iff_toNat_le]
    omega
  have htwo : (decide (0xC2 ≤ b0) && decide (b0 ≤ 0xDF))=true := by simpa [UInt8.le_iff_toNat_le] using h0
  rw [decodeUtf8.eq_def]
  dsimp only
  rw [if_neg hlt,if_pos htwo]
  exact if_pos h1

theorem decodeUtf8_three (h0 : 0xE0 ≤ b0.toNat ∧ b0.toNat ≤ 0xEF) (h1 : isContinuation b1=true)
    (h2 : isContinuation b2=true) (hshort : b0.toNat=0xE0 → 0xA0 ≤ b1.toNat)
    (hsurrogate : b0.toNat=0xED → b1.toNat ≤ 0x9F) :
    decodeUtf8 (b0::b1::b2::rest)=(decodeUtf8 rest).map
      (Fin.ofNat 0x110000 ((b0.toNat-0xE0)*4096+(b1.toNat-0x80)*64+(b2.toNat-0x80)) :: ·) := by
  have hlt : ¬b0 < 0x80 := by
    simp [UInt8.le_iff_toNat_le]
    omega
  have htwo : ¬(decide (0xC2 ≤ b0) && decide (b0 ≤ 0xDF))=true := by
    simp [UInt8.le_iff_toNat_le]
    omega
  have hthree : (decide (0xE0 ≤ b0) && decide (b0 ≤ 0xEF))=true := by simpa [UInt8.le_iff_toNat_le] using h0
  have hlow : (b0 != 0xE0 || 0xA0 ≤ b1)=true :=
    or_of_bound fun h => by simpa [UInt8.le_iff_toNat_le] using hshort h
  have hhigh : (b0 != 0xED || b1 ≤ 0x9F)=true :=
    or_of_bound fun h => by simpa [UInt8.le_iff_toNat_le] using hsurrogate h
  rw [decodeUtf8.eq_def]
  dsimp only
  rw [if_neg hlt,if_neg htwo,if_pos hthree]
  exact if_pos (by rw [h1,h2,hlow,hhigh]; rfl)

theorem decodeUtf8_four (h0 : 0xF0 ≤ b0.toNat ∧ b0.toNat ≤ 0xF4) (h1 : isContinuation b1=true)
    (h2 : isContinuation b2=true) (h3 : isContinuation b3=true) (hshort : b0.toNat=0xF0 → 0x90 ≤ b1.toNat)
    (hbeyond : b0.toNat=0xF4 → b1.toNat ≤ 0x8F) :
    decodeUtf8 (b0::b1::b2::b3::rest)=(decodeUtf8 rest).map (Fin.ofNat 0x110000
      ((b0.toNat-0xF0)*262144+(b1.toNat-0x80)*4096+(b2.toNat-0x80)*64+(b3.toNat-0x80)) :: ·) := by
  have hlt : ¬b0 < 0x80 := by
    simp [UInt8.le_iff_toNat_le]
    omega
  have htwo : ¬(decide (0xC2 ≤ b0) && decide (b0 ≤ 0xDF))=true := by
    simp [UInt8.le_iff_toNat_le]
    omega
  have hthree : ¬(decide (0xE0 ≤ b0) && decide (b0 ≤ 0xEF))=true := by
    simp [UInt8.le_iff_toNat_le]
    omega
  have hfour : (decide (0xF0 ≤ b0) && decide (b0 ≤ 0xF4))=true := by simpa [UInt8.le_iff_toNat_le] using h0
  have hlow : (b0 != 0xF0 || 0x90 ≤ b1)=true :=
    or_of_bound fun h => by simpa [UInt8.le_iff_toNat_le] using hshort h
  have hhigh : (b0 != 0xF4 || b1 ≤ 0x8F)=true :=
    or_of_bound fun h => by simpa [UInt8.le_iff_toNat_le] using hbeyond h
  rw [decodeUtf8.eq_def]
  dsimp only
  rw [if_neg hlt,if_neg htwo,if_neg hthree,if_pos hfour]
  exact if_pos (by rw [h1,h2,h3,hlow,hhigh]; rfl)

/-- The octet of a value. -/
theorem octet_val {n : ℕ} (hn : n < 256) : (UInt8.ofNat n).toNat=n := by
  rw [UInt8.toNat_ofNat',Nat.mod_eq_of_lt hn]

/-- Six bits make a continuation octet. -/
theorem isContinuation_ofNat {n : ℕ} (h : 0x80 ≤ n ∧ n ≤ 0xBF) : isContinuation (UInt8.ofNat n)=true := by
  rw [isContinuation_iff,octet_val (by omega)]
  exact h

end Octets

/-- The octets of a code point are decoded in front of any others. -/
theorem decodeUtf8_cons {c : Fin 0x110000} (h : isSurrogate c=false) (rest : Bytes) :
    decodeUtf8 (encodeCodePoint c ++ rest)=(decodeUtf8 rest).map (c::·) := by
  have hlt := c.isLt
  have hself (n : ℕ) (hn : n=c.val) : Fin.ofNat 0x110000 n=c := by
    rw [hn]
    exact Fin.ext (Nat.mod_eq_of_lt c.isLt)
  simp only [isSurrogate,Bool.and_eq_false_iff,decide_eq_false_iff_not] at h
  unfold encodeCodePoint
  dsimp only
  split
  next h1 =>
    rw [List.singleton_append,decodeUtf8_one (by rw [octet_val (by omega)]; exact h1)]
    rw [octet_val (by omega),hself _ rfl]
  next h1 =>
    split
    next h2 =>
      have hlead := octet_val (show 0xC0+c.val/64 < 256 by omega)
      have hlast := octet_val (show 0x80+c.val%64 < 256 by omega)
      rw [List.cons_append,List.singleton_append,decodeUtf8_two (by rw [hlead]; omega) (isContinuation_ofNat (by omega))]
      rw [hlead,hlast,hself _ (by omega)]
    next h2 =>
      split
      next h3 =>
        have hlead := octet_val (show 0xE0+c.val/4096 < 256 by omega)
        have hmid := octet_val (show 0x80+c.val/64%64 < 256 by omega)
        have hlast := octet_val (show 0x80+c.val%64 < 256 by omega)
        rw [List.cons_append,List.cons_append,List.singleton_append,
          decodeUtf8_three (by rw [hlead]; omega) (isContinuation_ofNat (by omega)) (isContinuation_ofNat (by omega))
            (by rw [hlead,hmid]; omega) (by rw [hlead,hmid]; omega)]
        rw [hlead,hmid,hlast,hself _ (by omega)]
      next h3 =>
        have hlead := octet_val (show 0xF0+c.val/262144 < 256 by omega)
        have hmid := octet_val (show 0x80+c.val/4096%64 < 256 by omega)
        have hmid' := octet_val (show 0x80+c.val/64%64 < 256 by omega)
        have hlast := octet_val (show 0x80+c.val%64 < 256 by omega)
        rw [List.cons_append,List.cons_append,List.cons_append,List.singleton_append,
          decodeUtf8_four (by rw [hlead]; omega) (isContinuation_ofNat (by omega)) (isContinuation_ofNat (by omega))
            (isContinuation_ofNat (by omega)) (by rw [hlead,hmid]; omega) (by rw [hlead,hmid]; omega)]
        rw [hlead,hmid,hmid',hlast,hself _ (by omega)]

/-- An encodable text is decoded in front of any octets. -/
theorem decodeUtf8_append {t : PyStr} (h : encodable t=true) (rest : Bytes) :
    decodeUtf8 (t.flatMap encodeCodePoint ++ rest)=(decodeUtf8 rest).map (t ++ ·) := by
  induction t with
  | nil => simp
  | cons c t ih =>
    rw [encodable,List.all_cons,Bool.and_eq_true,Bool.not_eq_true'] at h
    rw [List.flatMap_cons,List.append_assoc,decodeUtf8_cons h.1,ih h.2,Option.map_map]
    rfl

/-- A text without carriage returns is not translated. -/
theorem translateNewlines_eq {t : PyStr} (h : 0x0D∉t) : translateNewlines t=t := by
  fun_induction translateNewlines t with
  | case1 => rfl
  | case2 c => rw [if_neg fun hc => h (by simp [hc])]
  | case3 c d rest hcr ih => exact absurd (by simp [hcr.1]) h
  | case4 c d rest hcr ih =>
    simp only [List.mem_cons,not_or] at h ih
    rw [if_neg (Ne.symm h.1),ih ⟨h.2.1,h.2.2⟩]

end GenericMlCache.TextReading
