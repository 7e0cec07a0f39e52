import GenericMlCache.JsonRoundTrip
import GenericMlCache.GatewayRelay

/-!
# The event lines of a run

`StreamWriter.event` appends one JSON object and a newline. Only the control
characters of a text are escaped, so what separates lines in other notations
stands in the line as it is.
-/

namespace GenericMlCache.EventStream

open PythonText ExecutionModel JsonText JsonGrammar JsonRoundTrip GatewayRelay

/-- One code point in a JSON string, as `json.dumps` with `ensure_ascii=False` writes it. -/
def rawCodePoint (c : Fin 0x110000) : PyStr :=
  match c.val with
  | 0x22 => pyStr "\\\""
  | 0x5C => pyStr "\\\\"
  | 0x0A => pyStr "\\n"
  | 0x0D => pyStr "\\r"
  | 0x09 => pyStr "\\t"
  | 0x0C => pyStr "\\f"
  | 0x08 => pyStr "\\b"
  | n => if n < 0x20 then escapeUnit n else [c]

/-- A JSON string. -/
def rawText (text : PyStr) : PyStr := pyStr "\"" ++ text.flatMap rawCodePoint ++ pyStr "\""

/-- What the callers pass as the fields of an event. -/
inductive FieldValue where
  | text (s : PyStr)
  | int (n : ℤ)

/-- The JSON value of a field. -/
def FieldValue.json : FieldValue → Json
  | .text s => .str s
  | .int n => .int n

/-- The arguments of `event`, with the time that is written. -/
structure Event where
  /-- The time, a float's bit pattern. -/
  ts : UInt64
  /-- The `event` field. -/
  kind : PyStr
  /-- A field that is None is left out. -/
  fields : List (PyStr × Option FieldValue)

/-- The fields that are written. -/
def Event.given (e : Event) : List (PyStr × FieldValue) := e.fields.filterMap fun f => f.2.map fun v => (f.1,v)

/-- The dict that is written. -/
def Event.record (e : Event) : List (PyStr × Json) :=
  (pyStr "ts",.float e.ts)::(pyStr "kind",.str e.kind)::e.given.map fun f => (f.1,f.2.json)

section Writing
variable (floatRepr : UInt64 → PyStr)

/-- The text of a field's value. -/
def FieldValue.render : FieldValue → PyStr
  | .text s => rawText s
  | .int n => intText n

/-- A member of a JSON object. -/
def memberText (member : PyStr × PyStr) : PyStr := rawText member.1 ++ pyStr ": " ++ member.2

/-- The keys of an event and the texts of their values. -/
def Event.members (e : Event) : List (PyStr × PyStr) :=
  (pyStr "ts",floatText floatRepr e.ts)::(pyStr "kind",rawText e.kind)::e.given.map fun f => (f.1,f.2.render)

/-- The line of an event, without its end. -/
def Event.line (e : Event) : PyStr :=
  pyStr "\x7b" ++ joinText (pyStr ", ") ((e.members floatRepr).map memberText) ++ pyStr "\x7d"

/-- What `event` appends to the file: nothing where the text does not encode or
an integer has too many digits. -/
def Event.written (e : Event) : Bytes :=
  if e.given.all (fun f => match f.2 with | .text _ => true | .int n => intPrintable n)=true then
    (encodeUtf8 (e.line floatRepr ++ [0x0A])).getD []
  else []

end Writing

/-- An event that is written: its time is a number, its fields have names of
their own, its texts encode and its integers print. -/
structure Event.Written (e : Event) : Prop where
  /-- Its time is finite. -/
  finite : isFinite e.ts=true
  /-- No two fields have one name. -/
  names : (e.record.map Prod.fst).Nodup
  /-- Its kind encodes. -/
  kind : encodable e.kind=true
  /-- Every field's name can be encoded. -/
  keys : ∀ f∈e.given,encodable f.1=true
  /-- Every text can be encoded. -/
  texts : ∀ f∈e.given,∀ s,f.2=.text s → encodable s=true
  /-- Every integer has few enough digits to print. -/
  ints : ∀ f∈e.given,∀ n,f.2=.int n → intPrintable n=true

section Reading

/-- A code point is written as its unit. -/
theorem units_rawCodePoint (c : Fin 0x110000) {a : PyStr} {units : List LiteralUnit} (ha : Units a units) :
    ∃ escaped,Units (rawCodePoint c++a) ((c,escaped)::units) := by
  have hself : Fin.ofNat 0x110000 c.val=c := Fin.ext (Nat.mod_eq_of_lt c.isLt)
  unfold rawCodePoint
  split
  iterate 7
    next h =>
      rw [← hself,h]
      exact ⟨false,.short (by decide) (by decide) ha⟩
  next n h22 h5C _ _ _ _ _ =>
    have hquote : c≠0x22 := fun h => h22 (by rw [h]; rfl)
    have hslash : c≠0x5C := fun h => h5C (by rw [h]; rfl)
    split
    next hcontrol =>
      have hescaped := units_escapeUnit (n := c.val) (by omega) ha
      rw [hself] at hescaped
      exact ⟨true,hescaped⟩
    next hplain => exact ⟨false,.plain hquote hslash (by omega) ha⟩

/-- A text without surrogates is written as units that are read as it. -/
theorem units_rawText {text : PyStr} (h : encodable text=true) :
    ∃ units,Units (text.flatMap rawCodePoint++[0x22]) units ∧ joinSurrogates units=text := by
  induction text with
  | nil => exact ⟨[],.close,rfl⟩
  | cons c text ih =>
    rw [encodable,List.all_cons,Bool.and_eq_true] at h
    obtain ⟨units,hunits,hjoin⟩ := ih h.2
    obtain ⟨escaped,hc⟩ := units_rawCodePoint c hunits
    refine ⟨(c,escaped)::units,by rwa [List.flatMap_cons,List.append_assoc],?_⟩
    rw [joinSurrogates_cons,hjoin]
    intro low _
    have hc := h.1
    simp only [isSurrogate,Bool.not_eq_true',Bool.and_eq_false_iff,decide_eq_false_iff_not] at hc
    simp only [isPair,isHighSurrogate,Bool.and_eq_false_iff,decide_eq_false_iff_not]
    left
    omega

variable (codec : FloatCodec)

/-- A written text, up to and with its closing quote. -/
theorem rawText_eq (s : PyStr) : rawText s=0x22::(s.flatMap rawCodePoint++[0x22]) := by
  rw [rawText,List.append_assoc]
  rfl

/-- A member, its key and the value its text writes. -/
structure WritesMember (member : PyStr × PyStr) (e : PyStr × Json) : Prop where
  /-- The key is the member's. -/
  key : e.1=member.1
  /-- The key encodes. -/
  encodes : encodable member.1=true
  /-- The text writes the value. -/
  value : Writes (some intMaxStrDigits) codec.parseFloat member.2 (.value e.2)

variable {codec}

/-- Members written one after the other, up to and with the closing brace. -/
theorem writes_members {members : List (PyStr × PyStr)} {fields : List (PyStr × Json)}
    (h : List.Forall₂ (WritesMember codec) members fields) (hne : members≠[]) :
    Writes (some intMaxStrDigits) codec.parseFloat (joinText (pyStr ", ") (members.map memberText)++pyStr "\x7d") (.members fields) := by
  induction h with
  | nil => exact absurd rfl hne
  | cons hmember htail ih =>
    rename_i member e members fields
    obtain ⟨key,value⟩ := e
    obtain ⟨units,hunits,hjoin⟩ := units_rawText hmember.encodes
    have hkey : key=member.1 := hmember.key
    cases htail with
    | nil =>
      have hlast := Writes.lastMember hunits spaces_nil spaces_one hmember.value spaces_nil
      rw [hjoin] at hlast
      rw [hkey]
      simpa [joinText,memberText,rawText_eq,pyStr] using hlast
    | cons hnext hrest =>
      have htail := ih (List.cons_ne_nil _ _)
      have hmany := Writes.nextMember hunits spaces_nil spaces_one hmember.value spaces_nil spaces_one htail
      rw [hjoin] at hmany
      rw [hkey]
      simpa [joinText,List.intercalate_cons_cons,memberText,rawText_eq,pyStr] using hmany

/-- A written text is read. -/
theorem writes_rawText {s : PyStr} (h : encodable s=true) : Writes (some intMaxStrDigits) codec.parseFloat (rawText s) (.value (.str s)) := by
  obtain ⟨units,hunits,hjoin⟩ := units_rawText h
  have htext := @Writes.text (some intMaxStrDigits) codec.parseFloat _ _ hunits
  rw [hjoin] at htext
  rw [rawText_eq]
  exact htext

/-- The line of a written event is read back as what was written. -/
theorem loads_line {e : Event} (h : e.Written) :
    loads codec.parseFloat (e.line codec.floatRepr)=.ok (.obj e.record) := by
  have hgiven : List.Forall₂ (WritesMember codec) (e.given.map fun f => (f.1,f.2.render))
      (e.given.map fun f => (f.1,f.2.json)) := by
    rw [List.forall₂_map_left_iff,List.forall₂_map_right_iff,List.forall₂_same]
    intro f hf
    refine ⟨rfl,h.keys f hf,?_⟩
    cases hv : f.2 with
    | text s => exact writes_rawText (h.texts f hf s hv)
    | int n => exact writes_int codec (h.ints f hf n hv)
  have hmembers : List.Forall₂ (WritesMember codec) (e.members codec.floatRepr) e.record :=
    .cons ⟨rfl,encodable_pyStr _,writes_float codec (.inl h.finite)⟩
      (.cons ⟨rfl,encodable_pyStr _,writes_rawText h.kind⟩ hgiven)
  have hdict := Writes.dict spaces_nil (writes_members hmembers (List.cons_ne_nil _ _))
  have hset := @foldl_setItem [] e.record h.names
  rw [hset] at hdict
  refine loads_iff.mpr ⟨[],_,[],spaces_nil,spaces_nil,?_,hdict⟩
  simp [Event.line,pyStr]

end Reading

section Characters

/-- A printable ASCII character. -/
def Printed (c : Fin 0x110000) : Prop := 0x20 ≤ c.val ∧ c.val ≤ 0x7E

instance (c : Fin 0x110000) : Decidable (Printed c) := inferInstanceAs (Decidable (_ ∧ _))

/-- Whether a text is printed, computed. -/
theorem printed_all {text : PyStr} (h : (text.all fun c => decide (Printed c))=true) : ∀ c∈text,Printed c :=
  fun c hc => of_decide_eq_true (List.all_eq_true.mp h c hc)

/-- The line separators that JSON leaves in a text: NEL, LS and PS. -/
def separators : List (Fin 0x110000) := [0x85,0x2028,0x2029]

/-- What is not a control character ends a line only as one of the separators. -/
theorem isLineBreak_iff {c : Fin 0x110000} (h : 0x20 ≤ c.val) : isLineBreak c=true ↔ c∈separators := by
  simp only [isLineBreak,separators,Bool.or_eq_true,Bool.and_eq_true,decide_eq_true_eq,List.contains_eq_mem,
    List.mem_cons,List.not_mem_nil,or_false,Fin.ext_iff]
  have h85 : (0x85 : Fin 0x110000).val=0x85 := rfl
  have h2028 : (0x2028 : Fin 0x110000).val=0x2028 := rfl
  have h2029 : (0x2029 : Fin 0x110000).val=0x2029 := rfl
  omega

theorem Printed.not_separator {c : Fin 0x110000} (h : Printed c) : c∉separators := by
  intro hmem
  simp only [separators,List.mem_cons,List.not_mem_nil,or_false] at hmem
  rcases hmem with rfl | rfl | rfl
  · exact absurd h (by decide)
  · exact absurd h (by decide)
  · exact absurd h (by decide)

theorem Printed.not_surrogate {c : Fin 0x110000} (h : Printed c) : isSurrogate c=false := by
  unfold Printed at h
  simp only [isSurrogate,Bool.and_eq_false_iff,decide_eq_false_iff_not]
  omega

/-- A hexadecimal digit is printed. -/
theorem printed_hexCode {d : ℕ} (h : d < 16) : Printed (hexCode d) := by
  interval_cases d <;> decide

/-- A code point is written by printed characters, or stands for itself. -/
theorem mem_rawCodePoint {c d : Fin 0x110000} (h : c∈rawCodePoint d) : Printed c ∨ c=d ∧ 0x20 ≤ c.val := by
  unfold rawCodePoint at h
  split at h
  iterate 7
    exact Or.inl (printed_all (by decide) c h)
  split at h
  next hcontrol =>
    rw [escapeUnit_eq (by omega)] at h
    simp only [List.mem_cons,List.not_mem_nil,or_false] at h
    rcases h with rfl | rfl | rfl | rfl | rfl | rfl
    · exact Or.inl (by decide)
    · exact Or.inl (by decide)
    all_goals exact Or.inl (printed_hexCode (by omega))
  next hplain =>
    rw [List.mem_singleton.mp h]
    exact Or.inr ⟨rfl,by omega⟩

/-- A separator is written as it is. -/
theorem rawCodePoint_separator {c : Fin 0x110000} (h : c∈separators) : rawCodePoint c=[c] := by
  simp only [separators,List.mem_cons,List.not_mem_nil,or_false] at h
  rcases h with rfl | rfl | rfl <;> rfl

/-- A written text consists of printed characters and of its own. -/
theorem mem_rawText {c : Fin 0x110000} {s : PyStr} (h : c∈rawText s) : Printed c ∨ c∈s ∧ 0x20 ≤ c.val := by
  rw [rawText_eq] at h
  simp only [List.mem_cons,List.mem_append,List.mem_flatMap,List.not_mem_nil,or_false] at h
  rcases h with rfl | ⟨d,hd,hc⟩ | rfl
  · exact Or.inl (by decide)
  · rcases mem_rawCodePoint hc with hprinted | ⟨rfl,hval⟩
    · exact Or.inl hprinted
    · exact Or.inr ⟨hd,hval⟩
  · exact Or.inl (by decide)

/-- A separator of a text is in the written text. -/
theorem separator_mem_rawText {c : Fin 0x110000} {s : PyStr} (h : c∈separators) (hmem : c∈s) : c∈rawText s := by
  rw [rawText_eq]
  refine List.mem_cons_of_mem _ (List.mem_append_left _ (List.mem_flatMap.mpr ⟨c,hmem,?_⟩))
  rw [rawCodePoint_separator h]
  exact List.mem_singleton_self c

/-- A digit is printed. -/
theorem printed_digit {c : Fin 0x110000} (h : isDigit c=true) : Printed c := by
  simp only [isDigit,Bool.and_eq_true,decide_eq_true_eq] at h
  unfold Printed
  omega

/-- A sign is printed. -/
theorem printed_sign {sign : PyStr} (h : sign=[] ∨ sign=[0x2B] ∨ sign=[0x2D]) : ∀ c∈sign,Printed c := by
  rcases h with rfl | rfl | rfl <;> exact printed_all (by decide)

/-- A number is printed. -/
theorem printed_number {sign whole fraction exponent : PyStr} (h : NumberText sign whole fraction exponent) :
    ∀ c∈sign++whole++fraction++exponent,Printed c := by
  intro c hc
  simp only [List.mem_append] at hc
  rcases hc with ((hc | hc) | hc) | hc
  · exact printed_sign (h.isSign.imp_right Or.inr) c hc
  · rcases h.whole with rfl | ⟨hdigits,_⟩
    · exact printed_all (by decide) c hc
    · exact printed_digit (hdigits.2 c hc)
  · rcases h.fraction with rfl | ⟨digits,hdigits,rfl⟩
    · exact nomatch hc
    · rcases List.mem_cons.mp hc with rfl | hc
      · decide
      · exact printed_digit (hdigits.2 c hc)
  · rcases h.exponent with rfl | ⟨mark,sign,digits,hmark,hsign,hdigits,rfl⟩
    · exact nomatch hc
    · rcases List.mem_cons.mp hc with rfl | hc
      · rcases hmark with rfl | rfl <;> decide
      · rcases List.mem_append.mp hc with hc | hc
        · exact printed_sign hsign c hc
        · exact printed_digit (hdigits.2 c hc)

/-- A printed integer. -/
theorem printed_intText (n : ℤ) : ∀ c∈intText n,Printed c := by
  intro c hc
  rw [intText_eq] at hc
  rcases List.mem_append.mp hc with hc | hc
  · split at hc
    · exact printed_all (by decide) c hc
    · exact nomatch hc
  · exact printed_digit ((natDigits_whole n.natAbs).2.2.1.2 c hc)

/-- The texts of an event. -/
def FieldValue.texts : FieldValue → List PyStr
  | .text s => [s]
  | .int _ => []

/-- The texts that an event writes. -/
def Event.texts (e : Event) : List PyStr := e.kind::e.given.flatMap fun f => f.1::f.2.texts

/-- A value consists of printed characters and of those of its text. -/
theorem mem_render {c : Fin 0x110000} {v : FieldValue} (h : c∈v.render) :
    Printed c ∨ (∃ s∈v.texts,c∈s) ∧ 0x20 ≤ c.val := by
  cases v with
  | text s => exact (mem_rawText h).imp_right fun hmem => ⟨⟨s,List.mem_singleton_self s,hmem.1⟩,hmem.2⟩
  | int n => exact Or.inl (printed_intText n c h)

/-- What a joined text holds, its separator or one of its parts does. -/
theorem mem_joinText {c : Fin 0x110000} {separator : PyStr} {parts : List PyStr} (h : c∈joinText separator parts) :
    c∈separator ∨ ∃ part∈parts,c∈part := by
  induction parts with
  | nil => exact nomatch h
  | cons part parts ih =>
    cases parts with
    | nil => exact Or.inr ⟨part,List.mem_cons_self,by simpa [joinText] using h⟩
    | cons next parts =>
      have hcut : c∈part ∨ c∈separator ∨ c∈joinText separator (next::parts) := by
        simpa [joinText,List.intercalate_cons_cons] using h
      rcases hcut with hpart | hsep | hrest
      · exact Or.inr ⟨part,List.mem_cons_self,hpart⟩
      · exact Or.inl hsep
      · exact (ih hrest).imp_right fun ⟨p,hp,hc⟩ => ⟨p,List.mem_cons_of_mem _ hp,hc⟩

/-- What a part holds, the joined text does. -/
theorem mem_joinText_of_part {c : Fin 0x110000} {separator : PyStr} {parts : List PyStr} {part : PyStr}
    (hpart : part∈parts) (hc : c∈part) : c∈joinText separator parts := by
  induction parts with
  | nil => exact nomatch hpart
  | cons first parts ih =>
    cases parts with
    | nil =>
      rw [List.mem_singleton.mp hpart] at hc
      simpa [joinText] using hc
    | cons next parts =>
      have hcut : c∈first ∨ c∈separator ∨ c∈joinText separator (next::parts) := by
        rcases List.mem_cons.mp hpart with rfl | hpart
        · exact Or.inl hc
        · exact Or.inr (Or.inr (ih hpart))
      simpa [joinText,List.intercalate_cons_cons] using hcut

end Characters

section Lines
variable {codec : FloatCodec} {e : Event}

/-- What the members of an event hold: printed characters, and those of its texts. -/
theorem mem_members (h : e.Written) {member : PyStr × PyStr} (hmember : member∈e.members codec.floatRepr)
    {c : Fin 0x110000} (hc : c∈memberText member) : Printed c ∨ (∃ s∈e.texts,c∈s) ∧ 0x20 ≤ c.val := by
  have hparts : c∈rawText member.1 ∨ c∈pyStr ": " ∨ c∈member.2 := by
    simpa [memberText,or_assoc] using hc
  rcases List.mem_cons.mp hmember with rfl | hmember
  · rcases hparts with hkey | hcolon | hvalue
    · have hts : ∀ c∈pyStr "ts",Printed c := printed_all (by decide)
      exact Or.inl ((mem_rawText hkey).elim id fun hmem => hts c hmem.1)
    · exact Or.inl (printed_all (by decide) c hcolon)
    · obtain ⟨sign,whole,fraction,exponent,hnumber,_,htext⟩ := codec.isNumber e.ts h.finite
      rw [floatText,if_pos h.finite,htext] at hvalue
      exact Or.inl (printed_number hnumber c hvalue)
  · rcases List.mem_cons.mp hmember with rfl | hmember
    · rcases hparts with hkey | hcolon | hvalue
      · have hkind : ∀ c∈pyStr "kind",Printed c := printed_all (by decide)
        exact Or.inl ((mem_rawText hkey).elim id fun hmem => hkind c hmem.1)
      · exact Or.inl (printed_all (by decide) c hcolon)
      · exact (mem_rawText hvalue).imp_right fun hmem => ⟨⟨e.kind,List.mem_cons_self,hmem.1⟩,hmem.2⟩
    · obtain ⟨f,hf,rfl⟩ := List.mem_map.mp hmember
      have htexts (s : PyStr) (hs : s∈f.1::f.2.texts) : s∈e.texts :=
        List.mem_cons_of_mem _ (List.mem_flatMap.mpr ⟨f,hf,hs⟩)
      rcases hparts with hkey | hcolon | hvalue
      · exact (mem_rawText hkey).imp_right fun hmem => ⟨⟨f.1,htexts _ List.mem_cons_self,hmem.1⟩,hmem.2⟩
      · exact Or.inl (printed_all (by decide) c hcolon)
      · exact (mem_render hvalue).imp_right fun hin =>
          ⟨hin.1.imp fun s hs => ⟨htexts s (List.mem_cons_of_mem _ hs.1),hs.2⟩,hin.2⟩

/-- What a line holds: printed characters, and those of the event's texts that
are no control characters. -/
theorem mem_line (h : e.Written) {c : Fin 0x110000} (hc : c∈e.line codec.floatRepr) :
    Printed c ∨ (∃ s∈e.texts,c∈s) ∧ 0x20 ≤ c.val := by
  have hparts : c∈pyStr "\x7b" ∨ c∈joinText (pyStr ", ") ((e.members codec.floatRepr).map memberText) ∨
      c∈pyStr "\x7d" := by
    simpa [Event.line,or_assoc] using hc
  rcases hparts with hopen | hmembers | hclose
  · exact Or.inl (printed_all (by decide) c hopen)
  · rcases mem_joinText hmembers with hcomma | ⟨part,hpart,hmem⟩
    · exact Or.inl (printed_all (by decide) c hcomma)
    · obtain ⟨member,hmember,rfl⟩ := List.mem_map.mp hpart
      exact mem_members h hmember hmem
  · exact Or.inl (printed_all (by decide) c hclose)

/-- A separator of an event's text is in its line. -/
theorem separator_mem_line (codec : FloatCodec) {c : Fin 0x110000} (hc : c∈separators) {s : PyStr} (hs : s∈e.texts) (hmem : c∈s) :
    c∈e.line codec.floatRepr := by
  have hmember : ∃ member∈e.members codec.floatRepr,c∈memberText member := by
    rcases List.mem_cons.mp hs with rfl | hs
    · refine ⟨_,List.mem_cons_of_mem _ List.mem_cons_self,?_⟩
      exact List.mem_append_right _ (separator_mem_rawText hc hmem)
    · obtain ⟨f,hf,hs⟩ := List.mem_flatMap.mp hs
      refine ⟨_,List.mem_cons_of_mem _ (List.mem_cons_of_mem _ (List.mem_map_of_mem hf)),?_⟩
      rcases List.mem_cons.mp hs with rfl | hs
      · exact List.mem_append_left _ (List.mem_append_left _ (separator_mem_rawText hc hmem))
      · refine List.mem_append_right _ ?_
        cases hv : f.2 with
        | text t =>
          rw [hv] at hs
          rw [List.mem_singleton.mp hs] at hmem
          exact separator_mem_rawText hc hmem
        | int n =>
          rw [hv] at hs
          exact nomatch hs
  obtain ⟨member,hmember,hc⟩ := hmember
  refine List.mem_append_left _ (List.mem_append_right _ ?_)
  exact mem_joinText_of_part (List.mem_map_of_mem hmember) hc

/-- The texts of a written event encode. -/
theorem encodable_texts (h : e.Written) : ∀ s∈e.texts,encodable s=true := by
  intro s hs
  rcases List.mem_cons.mp hs with rfl | hs
  · exact h.kind
  · obtain ⟨f,hf,hs⟩ := List.mem_flatMap.mp hs
    rcases List.mem_cons.mp hs with rfl | hs
    · exact h.keys f hf
    · cases hv : f.2 with
      | text t =>
        rw [hv] at hs
        rw [List.mem_singleton.mp hs]
        exact h.texts f hf t hv
      | int n =>
        rw [hv] at hs
        exact nomatch hs

/-- The line of a written event encodes. -/
theorem encodable_line (h : e.Written) : encodable (e.line codec.floatRepr)=true := by
  refine List.all_eq_true.mpr fun c hc => ?_
  rcases mem_line h hc with hprinted | ⟨⟨s,hs,hmem⟩,_⟩
  · rw [hprinted.not_surrogate]
    rfl
  · exact List.all_eq_true.mp (encodable_texts h s hs) c hmem

/-- A line holds no control character. -/
theorem line_not_control (h : e.Written) : ∀ c∈e.line codec.floatRepr,0x20 ≤ c.val := by
  intro c hc
  rcases mem_line h hc with hprinted | ⟨_,hval⟩
  · exact hprinted.1
  · exact hval

/-- `splitlines` breaks a line where one of the event's texts holds a separator. -/
theorem line_breaks_iff (codec : FloatCodec) (h : e.Written) :
    (∃ c∈e.line codec.floatRepr,isLineBreak c=true) ↔ ∃ s∈e.texts,∃ c∈s,c∈separators := by
  constructor
  · rintro ⟨c,hc,hbreak⟩
    have hsep := (isLineBreak_iff (line_not_control h c hc)).mp hbreak
    rcases mem_line h hc with hprinted | ⟨⟨s,hs,hmem⟩,_⟩
    · exact absurd hsep hprinted.not_separator
    · exact ⟨s,hs,c,hmem,hsep⟩
  · rintro ⟨s,hs,c,hmem,hsep⟩
    have hc := separator_mem_line codec hsep hs hmem
    exact ⟨c,hc,(isLineBreak_iff (line_not_control h c hc)).mpr hsep⟩

/-- A line starts with its brace. -/
theorem line_ne_nil : e.line codec.floatRepr≠[] := by
  simp [Event.line,pyStr]

/-- What a written event appends is its line and a newline. -/
theorem written_eq (h : e.Written) :
    e.written codec.floatRepr=(e.line codec.floatRepr ++ [0x0A]).flatMap encodeCodePoint := by
  have hints : e.given.all (fun f => match f.2 with | .text _ => true | .int n => intPrintable n)=true := by
    refine List.all_eq_true.mpr fun f hf => ?_
    cases hv : f.2 with
    | text s => rfl
    | int n => exact h.ints f hf n hv
  have hline : encodable (e.line codec.floatRepr ++ [0x0A])=true := by
    unfold encodable
    rw [List.all_append,← encodable,encodable_line h]
    rfl
  rw [Event.written,if_pos hints,encodeUtf8,if_pos hline]
  rfl

end Lines

end GenericMlCache.EventStream
