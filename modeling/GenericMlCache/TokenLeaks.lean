import GenericMlCache.LogScrubbing

/-!
# Tokens in diagnostic lines

Where a rendered line can hold an encryption token. No string that passed the
scrubber holds one, whatever the other substitutions do, and neither quoting nor
the layout makes one. What is left are the keys: they are rendered as they are.
-/

namespace GenericMlCache.TokenLeaks

open PythonText MlExecutionCommands IniParser JsonText JsonRoundTrip TextPatterns LogScrubbing

/-- An encryption token: the prefix and at least 32 lower-case hexadecimal digits. -/
def IsToken (w : PyStr) : Prop :=
  ∃ digits,w=pyStr "gmlc_" ++ digits ∧ 32≤digits.length ∧ ∀ d∈digits,isLowerHex d=true

/-- A token occurs in the text. -/
def Leaks (text : PyStr) : Prop := ∃ w,IsToken w ∧ w <:+: text

/-- A character of tokens. -/
def isTokenPoint (c : Fin 0x110000) : Bool := isLowerHex c || oneOf (pyStr "gmlc_") c

/-- A text of characters that no token has. -/
def separates (text : PyStr) : Bool := !text.isEmpty && text.all fun c => !isTokenPoint c

section Tokens
variable {w : PyStr}

theorem IsToken.point (h : IsToken w) {c : Fin 0x110000} (hc : c∈w) : isTokenPoint c=true := by
  obtain ⟨digits,rfl,_,hdigits⟩ := h
  rcases List.mem_append.mp hc with hc | hc
  · rw [isTokenPoint,oneOf,List.contains_iff_mem.mpr hc,Bool.or_true]
  · rw [isTokenPoint,hdigits c hc]
    rfl

theorem IsToken.notMem (h : IsToken w) {c : Fin 0x110000} (hc : isTokenPoint c=false) : c∉w := by
  intro hmem
  exact Bool.noConfusion (hc.symm.trans (h.point hmem))

/-- A token begins with its prefix. -/
theorem IsToken.cons (h : IsToken w) : ∃ tail,w=0x67::tail := by
  obtain ⟨digits,rfl,_,_⟩ := h
  exact ⟨pyStr "mlc_" ++ digits,rfl⟩

theorem IsToken.ne_nil (h : IsToken w) : w≠[] := by
  obtain ⟨tail,rfl⟩ := h.cons
  exact List.cons_ne_nil _ _

/-- No token without the first letter of its prefix. -/
theorem not_leaks {text : PyStr} (h : 0x67∉text) : ¬ Leaks text := by
  rintro ⟨w,hw,hin⟩
  obtain ⟨tail,rfl⟩ := hw.cons
  exact not_infix_of_notMem List.mem_cons_self h hin

theorem not_leaks_nil : ¬ Leaks [] := not_leaks List.not_mem_nil

/-- A character that no token has parts a text. -/
theorem leaks_cons {c : Fin 0x110000} (hc : isTokenPoint c=false) (a b : PyStr) :
    Leaks (a ++ c::b) ↔ Leaks a ∨ Leaks b := by
  constructor
  · rintro ⟨w,hw,hin⟩
    rcases (infix_split (hw.notMem hc) a b).mp hin with hin | hin
    · exact Or.inl ⟨w,hw,hin⟩
    · exact Or.inr ⟨w,hw,hin⟩
  · rintro (⟨w,hw,hin⟩ | ⟨w,hw,hin⟩)
    · exact ⟨w,hw,(infix_split (hw.notMem hc) a b).mpr (Or.inl hin)⟩
    · exact ⟨w,hw,(infix_split (hw.notMem hc) a b).mpr (Or.inr hin)⟩

/-- So does a text of such characters. -/
theorem leaks_sep {sep : PyStr} (hsep : separates sep=true) (a b : PyStr) :
    Leaks (a ++ (sep ++ b)) ↔ Leaks a ∨ Leaks b := by
  have hfront : ∀ {text : PyStr},(∀ c∈text,isTokenPoint c=false) → (Leaks (text ++ b) ↔ Leaks b) := by
    intro text htext
    induction text with
    | nil => rfl
    | cons c text ih =>
      have hcons := leaks_cons (htext c List.mem_cons_self) [] (text ++ b)
      rw [List.nil_append] at hcons
      rw [List.cons_append,hcons,ih fun d hd => htext d (List.mem_cons_of_mem c hd)]
      exact or_iff_right not_leaks_nil
  cases sep with
  | nil => exact nomatch hsep
  | cons c text =>
    simp only [separates,List.isEmpty_cons,Bool.not_false,Bool.true_and,List.all_eq_true,Bool.not_eq_true'] at hsep
    rw [List.cons_append,leaks_cons (hsep c List.mem_cons_self),
      hfront fun d hd => hsep d (List.mem_cons_of_mem c hd)]

/-- One in front. -/
theorem leaks_front {sep : PyStr} (hsep : separates sep=true) (b : PyStr) : Leaks (sep ++ b) ↔ Leaks b :=
  (leaks_sep hsep [] b).trans (or_iff_right not_leaks_nil)

/-- One at the end. -/
theorem leaks_back {sep : PyStr} (hsep : separates sep=true) (a : PyStr) : Leaks (a ++ sep) ↔ Leaks a := by
  have hnil := leaks_sep hsep a []
  rw [List.append_nil] at hnil
  exact hnil.trans (or_iff_left not_leaks_nil)

/-- One between texts. -/
theorem leaks_join {sep : PyStr} (hsep : separates sep=true) (parts : List PyStr) :
    Leaks (joinText sep parts) ↔ ∃ part∈parts,Leaks part := by
  unfold joinText
  induction parts with
  | nil => exact iff_of_false not_leaks_nil fun ⟨part,hmem,_⟩ => nomatch hmem
  | cons part parts ih =>
    cases parts with
    | nil => simp
    | cons next parts =>
      rw [List.intercalate_cons_cons,List.append_assoc,leaks_sep hsep,ih]
      simp

theorem separates_comma : separates (pyStr ", ")=true := by decide

theorem separates_spaces : separates (pyStr "  ")=true := by decide

end Tokens

section Strings
variable (tables : UnicodeTables) {w : PyStr}

/-- No token reaches into the mark that is put in its place. -/
theorem IsToken.isolates (h : IsToken w) : Isolates w (pyStr "[secret]") := by
  have hmark : pyStr "[secret]"=0x5B::(pyStr "secret" ++ [0x5D]) := by decide
  rw [hmark]
  refine isolates_marked (h.notMem (by decide)) (h.notMem (by decide)) fun hin => ?_
  exact not_leaks (by decide) ⟨w,h,hin⟩

/-- The pattern of tokens matches wherever one begins. -/
theorem tokenRule_matches (h : IsToken w) (prev : Option (Fin 0x110000)) (rest : PyStr) (hrest : w <+: rest) :
    tokenRule.regex.matchAt prev rest≠none := by
  obtain ⟨digits,rfl,hlength,hdigits⟩ := h
  obtain ⟨behind,rfl⟩ := hrest
  rw [List.append_assoc]
  have hfirst : accepts ((pyStr "gmlc_").map fun c d => decide (d=c)) (pyStr "gmlc_" ++ (digits ++ behind))=true := rfl
  refine matchAt_ne_none (ways_seq_ne_nil (m := ⟨5,none⟩) ?_ (ways_many_ne_nil ?_))
  · rw [literal,ways_word hfirst]
    exact List.mem_singleton_self _
  · have hdrop : (pyStr "gmlc_" ++ (digits ++ behind)).drop 5=digits ++ behind := rfl
    rw [hdrop,List.takeWhile_append_of_pos hdigits,List.length_append]
    omega

/-- A scrubbed string holds no token. -/
theorem scrubString_clean (value : PyStr) : ¬ Leaks (scrubString tables value) := by
  rintro ⟨w,hw,hin⟩
  have hmark : ∀ m : Match (Fin 0x110000),Isolates w ((fun _ => pyStr "[secret]") m) := fun _ => hw.isolates
  have hopaque := infix_of_infix_sub opaqueRule hmark hin
  have haccess := infix_of_infix_sub (accessKeyRule tables) hmark hopaque
  exact not_infix_sub hw.ne_nil hmark (tokenRule_matches hw) _ haccess

end Strings

section Quoting
variable (tables : UnicodeTables)

/-- The quotation mark is one of two. -/
theorem quoteFor_cases (text : PyStr) : quoteFor text=0x22 ∨ quoteFor text=0x27 := by
  unfold quoteFor
  split
  · exact Or.inl rfl
  · exact Or.inr rfl

/-- No hexadecimal digit is the first letter of a token. -/
theorem notMem_hexDigits (width n : ℕ) : 0x67∉hexDigits width n := by
  induction width generalizing n with
  | zero => exact List.not_mem_nil
  | succ width ih =>
    intro hmem
    rcases List.mem_append.mp hmem with hmem | hmem
    · exact ih _ hmem
    · have hdigit := hexDigit_hexCode (Nat.mod_lt n (by omega : 0 < 16))
      rw [← List.mem_singleton.mp hmem] at hdigit
      exact nomatch hdigit

/-- A character is written as it is, or behind a backslash. -/
theorem escapePoint_cases {quote : Fin 0x110000} (hquote : quote≠0x67) (c : Fin 0x110000) :
    escapePoint tables quote c=[c] ∨ ∃ tail,escapePoint tables quote c=0x5C::tail ∧ 0x67∉tail := by
  have hhex : ∀ (letter : Fin 0x110000) (width : ℕ),letter≠0x67 → 0x67∉letter::hexDigits width c.val := by
    intro letter width hletter hmem
    rcases List.mem_cons.mp hmem with heq | hmem
    · exact hletter heq.symm
    · exact notMem_hexDigits width c.val hmem
  unfold escapePoint
  by_cases h : c=quote ∨ c=0x5C
  · rw [if_pos h]
    refine Or.inr ⟨[c],rfl,fun hmem => ?_⟩
    have heq := List.mem_singleton.mp hmem
    rcases h with rfl | rfl
    · exact hquote heq.symm
    · exact absurd heq (by decide)
  · rw [if_neg h]
    split_ifs
    · exact Or.inr ⟨[0x74],by decide,by decide⟩
    · exact Or.inr ⟨[0x6E],by decide,by decide⟩
    · exact Or.inr ⟨[0x72],by decide,by decide⟩
    · exact Or.inr ⟨0x78::hexDigits 2 c.val,rfl,hhex 0x78 2 (by decide)⟩
    · exact Or.inl rfl
    · exact Or.inr ⟨0x78::hexDigits 2 c.val,rfl,hhex 0x78 2 (by decide)⟩
    · exact Or.inr ⟨0x75::hexDigits 4 c.val,rfl,hhex 0x75 4 (by decide)⟩
    · exact Or.inr ⟨0x55::hexDigits 8 c.val,rfl,hhex 0x55 8 (by decide)⟩

/-- A character of tokens is written as it is. -/
theorem escapePoint_token {quote c : Fin 0x110000} (hquote : isTokenPoint quote=false) (hc : isTokenPoint c=true) :
    escapePoint tables quote c=[c] := by
  have hval : (0x30≤c.val ∧ c.val≤0x39) ∨ (0x61≤c.val ∧ c.val≤0x66) ∨ c.val=0x67 ∨ c.val=0x6D ∨ c.val=0x6C ∨ c.val=0x5F := by
    have hbegin : pyStr "gmlc_"=[0x67,0x6D,0x6C,0x63,0x5F] := by decide
    simp only [isTokenPoint,isLowerHex,isDigit,oneOf,hbegin,Bool.or_eq_true,Bool.and_eq_true,decide_eq_true_eq,
      List.contains_iff_mem,List.mem_cons,List.not_mem_nil,or_false] at hc
    rcases hc with (h | h) | rfl | rfl | rfl | rfl | rfl
    · exact Or.inl h
    · exact Or.inr (Or.inl h)
    all_goals decide
  have hne : ¬ (c=quote ∨ c=0x5C) := by
    rintro (rfl | rfl)
    · exact Bool.noConfusion (hquote.symm.trans hc)
    · exact absurd hc (by decide)
  have hpoint : ∀ d : Fin 0x110000,c=d → c.val=d.val := fun d h => congrArg Fin.val h
  unfold escapePoint
  rw [if_neg hne,if_neg fun h => ?_,if_neg fun h => ?_,if_neg fun h => ?_,if_neg,if_pos]
  · left
    omega
  · omega
  · have := hpoint _ h
    simp at this
    omega
  · have := hpoint _ h
    simp at this
    omega
  · have := hpoint _ h
    simp at this
    omega

/-- Quoting makes no token and splits none. -/
theorem leaks_reprText (text : PyStr) : Leaks (reprText tables text) ↔ Leaks text := by
  have hquote : isTokenPoint (quoteFor text)=false ∧ quoteFor text≠0x67 := by
    rcases quoteFor_cases text with heq | heq
    · rw [heq]
      decide
    · rw [heq]
      decide
  have hsep : separates [quoteFor text]=true := by
    simp only [separates,List.isEmpty_cons,List.all_cons,List.all_nil,hquote.1]
    rfl
  have hescape : Escapes (escapePoint tables (quoteFor text)) 0x5C := by
    intro c
    rcases escapePoint_cases tables hquote.2 c with h | ⟨tail,h,_⟩
    · exact Or.inl h
    · exact Or.inr ⟨tail,h⟩
  unfold reprText
  rw [leaks_front hsep,leaks_back hsep]
  constructor
  · rintro ⟨w,hw,hin⟩
    obtain ⟨tail,rfl⟩ := hw.cons
    refine ⟨_,hw,infix_of_escaped hescape (hw.notMem (by decide)) (fun c hc => ?_) hin⟩
    rcases escapePoint_cases tables hquote.2 c with h | ⟨rest,h,hrest⟩
    · exact h
    · rw [h] at hc
      rcases List.mem_cons.mp hc with heq | hmem
      · exact absurd heq (by decide)
      · exact absurd hmem hrest
  · rintro ⟨w,hw,hin⟩
    exact ⟨w,hw,infix_flatMap_escape (fun c hc => escapePoint_token tables hquote.1 (hw.point hc)) hin⟩

end Quoting

section Values
variable (tables : UnicodeTables)

mutual

/-- The keys that are rendered with a value: those of its mappings, at any depth, that are not
below a key whose value is dropped. -/
def valueKeys : Value → List PyStr
  | .mapping items => itemKeys items
  | .list items => elementKeys items
  | .tuple items => elementKeys items
  | .str _ => []
  | .scalar _ => []

/-- The keys of a mapping, and those of its values. -/
def itemKeys : List (PyStr × Value) → List PyStr
  | [] => []
  | (key,value)::items => key::((if isSensitive tables key=true then [] else valueKeys value) ++ itemKeys items)

/-- The keys of elements. -/
def elementKeys : List Value → List PyStr
  | [] => []
  | value::items => valueKeys value ++ elementKeys items

end

/-- One of the keys holds a token. -/
def KeyLeaks (keys : List PyStr) : Prop := ∃ key∈keys,Leaks key

theorem not_keyLeaks_nil : ¬ KeyLeaks [] := fun ⟨_,hmem,_⟩ => nomatch hmem

theorem keyLeaks_cons {key : PyStr} {keys : List PyStr} : KeyLeaks (key::keys) ↔ Leaks key ∨ KeyLeaks keys := by
  simp [KeyLeaks]

theorem keyLeaks_append {keys keys' : List PyStr} : KeyLeaks (keys ++ keys') ↔ KeyLeaks keys ∨ KeyLeaks keys' := by
  simp [KeyLeaks,or_and_right,exists_or]

variable {tables}

/-- The items of a mapping stand apart from what is before them. -/
theorem leaks_items (a : PyStr) (items : List (PyStr × Value)) :
    Leaks (a ++ reprItems tables items) ↔ Leaks a ∨ Leaks (reprItems tables items) := by
  cases items with
  | nil =>
    unfold reprItems
    rw [leaks_back (by decide)]
    exact (or_iff_left (not_leaks (by decide))).symm
  | cons item items =>
    unfold reprItems
    rw [leaks_sep separates_comma,leaks_front separates_comma]

/-- The elements of a sequence stand apart from what is before them, and from the bracket. -/
theorem leaks_elements {close : PyStr} (hclose : separates close=true) (a : PyStr) (items : List Value) :
    Leaks (a ++ (reprElements tables items ++ close)) ↔ Leaks a ∨ Leaks (reprElements tables items) := by
  cases items with
  | nil =>
    unfold reprElements
    rw [List.nil_append,leaks_back hclose]
    exact (or_iff_left not_leaks_nil).symm
  | cons value items =>
    rw [← List.append_assoc,leaks_back hclose]
    unfold reprElements
    rw [leaks_sep separates_comma,leaks_front separates_comma]

/-- The elements stand apart from what is before them. -/
theorem leaks_elements_back (a : PyStr) (items : List Value) :
    Leaks (a ++ reprElements tables items) ↔ Leaks a ∨ Leaks (reprElements tables items) := by
  have hclose : separates (pyStr "]")=true := by decide
  rw [← leaks_elements hclose,← List.append_assoc,leaks_back hclose]

/-- A dropped value holds no token. -/
theorem not_leaks_redacted : ¬ Leaks (reprValue tables (.str (pyStr "[redacted]"))) := by
  unfold reprValue
  rw [leaks_reprText]
  exact not_leaks (by decide)

mutual

/-- Of a scrubbed value, only its keys can hold a token. -/
theorem leaks_value (value : Value) :
    Leaks (reprValue tables (scrubValue tables value)) ↔ KeyLeaks (valueKeys tables value) := by
  cases value with
  | str text =>
    simp only [scrubValue,reprValue,valueKeys]
    rw [leaks_reprText]
    exact iff_of_false (scrubString_clean tables text) not_keyLeaks_nil
  | scalar text =>
    simp only [scrubValue,reprValue,valueKeys]
    have hplain : 0x67∉text.text := fun hmem => absurd (text.plain _ hmem) (by decide)
    exact iff_of_false (not_leaks hplain) not_keyLeaks_nil
  | mapping items =>
    cases items with
    | nil =>
      simp only [scrubValue,scrubItems,reprValue,valueKeys,itemKeys]
      exact iff_of_false (not_leaks (by decide)) not_keyLeaks_nil
    | cons item items =>
      have hitems := leaks_itemList (item::items)
      simp only [scrubValue,valueKeys]
      rw [← hitems]
      have hbrace : separates (pyStr "\x7b")=true := by decide
      simp only [scrubItems,reprValue,reprItems]
      rw [leaks_front hbrace,leaks_front separates_comma]
  | list items =>
    cases items with
    | nil =>
      simp only [scrubValue,scrubElements,reprValue,valueKeys,elementKeys]
      exact iff_of_false (not_leaks (by decide)) not_keyLeaks_nil
    | cons value items =>
      simp only [scrubValue,scrubElements,reprValue,valueKeys,elementKeys]
      rw [leaks_front (by decide),leaks_elements (by decide),keyLeaks_append,leaks_value value,leaks_elementList items]
  | tuple items =>
    cases items with
    | nil =>
      simp only [scrubValue,scrubElements,reprValue,valueKeys,elementKeys]
      exact iff_of_false (not_leaks (by decide)) not_keyLeaks_nil
    | cons value items =>
      have hvalue := leaks_value value
      have hrest := leaks_elementList items
      simp only [scrubValue,valueKeys,elementKeys]
      rw [keyLeaks_append,← hvalue,← hrest]
      cases items with
      | nil =>
        simp only [scrubElements,reprValue,reprElements]
        rw [leaks_front (by decide),leaks_back (by decide)]
        exact (or_iff_left not_leaks_nil).symm
      | cons second items =>
        simp only [scrubElements,reprValue]
        rw [leaks_front (by decide),leaks_elements (by decide)]

/-- So for the items of a mapping. -/
theorem leaks_itemList (items : List (PyStr × Value)) :
    Leaks (reprItems tables (scrubItems tables items)) ↔ KeyLeaks (itemKeys tables items) := by
  match items with
  | [] =>
    simp only [scrubItems,reprItems,itemKeys]
    exact iff_of_false (not_leaks (by decide)) not_keyLeaks_nil
  | (key,value)::items =>
    simp only [scrubItems,reprItems,itemKeys]
    rw [leaks_front (by decide),leaks_sep (by decide),leaks_items,leaks_reprText,leaks_itemList items,keyLeaks_cons,
      keyLeaks_append]
    by_cases hkey : isSensitive tables key=true
    · rw [if_pos hkey,if_pos hkey]
      rw [or_iff_right not_leaks_redacted,or_iff_right not_keyLeaks_nil]
    · rw [if_neg hkey,if_neg hkey,leaks_value value]

/-- And for the elements of a sequence. -/
theorem leaks_elementList (items : List Value) :
    Leaks (reprElements tables (scrubElements tables items)) ↔ KeyLeaks (elementKeys tables items) := by
  match items with
  | [] =>
    simp only [scrubElements,reprElements,elementKeys]
    exact iff_of_false not_leaks_nil not_keyLeaks_nil
  | value::items =>
    simp only [scrubElements,reprElements,elementKeys]
    rw [leaks_front separates_comma,leaks_elements_back,keyLeaks_append,leaks_value value,leaks_elementList items]

end

end Values

section Lines
variable {tables : UnicodeTables} {d : EventDict}

/-- The keys rendered with the value of a field. -/
def contentKeys (tables : UnicodeTables) (key : PyStr) (value : Value) : List PyStr :=
  if isSensitive tables key=true then [] else valueKeys tables value

/-- The text of a scrubbed field holds a token where one of its keys does. -/
theorem leaks_field (key : PyStr) (value : Value) :
    Leaks (strValue tables (scrubField tables key value)) ↔ KeyLeaks (contentKeys tables key value) := by
  unfold scrubField contentKeys
  split
  · have hredacted : 0x67∉pyStr "[redacted]" := by decide
    exact iff_of_false (not_leaks hredacted) not_keyLeaks_nil
  · cases value with
    | str text =>
      simp only [scrubValue,strValue,valueKeys]
      exact iff_of_false (scrubString_clean tables text) not_keyLeaks_nil
    | _ => exact leaks_value _

/-- A value without items has no keys. -/
theorem truthy_of_keys {value : Value} (h : KeyLeaks (valueKeys tables value)) :
    truthyValue (scrubValue tables value)=true := by
  cases value with
  | str text => exact absurd h not_keyLeaks_nil
  | scalar text => exact absurd h not_keyLeaks_nil
  | mapping items =>
    cases items with
    | nil => exact absurd h not_keyLeaks_nil
    | cons item items => rfl
  | list items =>
    cases items with
    | nil => exact absurd h not_keyLeaks_nil
    | cons item items => rfl
  | tuple items =>
    cases items with
    | nil => exact absurd h not_keyLeaks_nil
    | cons item items => rfl

/-- A scrubbed field that is not rendered for being empty has no token. -/
theorem truthy_of_leaks {key : PyStr} {value : Value} (h : KeyLeaks (contentKeys tables key value)) :
    truthyValue (scrubField tables key value)=true := by
  unfold contentKeys at h
  unfold scrubField
  split at h
  · exact absurd h not_keyLeaks_nil
  next hkey =>
    rw [if_neg hkey]
    exact truthy_of_keys h

/-- An item of a scrubbed dict. -/
theorem mem_scrubbed {e : PyStr × Value} :
    e∈(scrubProcessor tables d).items ↔ ∃ v,(e.1,v)∈d.items ∧ scrubField tables e.1 v=e.2 := EventDict.mem_mapValues

/-- A popped field holds a token. -/
theorem leaks_popped (key : PyStr) : Leaks (poppedText tables (scrubProcessor tables d) key) ↔
    ∃ value,(key,value)∈d.items ∧ KeyLeaks (contentKeys tables key value) := by
  have hshown : Leaks (poppedText tables (scrubProcessor tables d) key) ↔
      ∃ shown,(key,shown)∈(scrubProcessor tables d).items ∧ Leaks (strValue tables shown) := by
    unfold poppedText
    simp only [EventDict.mem_items]
    cases (scrubProcessor tables d).get? key with
    | none => exact iff_of_false not_leaks_nil fun ⟨shown,h,_⟩ => nomatch h
    | some shown => simp
  rw [hshown]
  constructor
  · rintro ⟨shown,hmem,hleak⟩
    obtain ⟨value,hvalue,heq⟩ := mem_scrubbed.mp hmem
    have hfield : scrubField tables key value=shown := heq
    exact ⟨value,hvalue,(leaks_field key value).mp (hfield ▸ hleak)⟩
  · rintro ⟨value,hvalue,hleak⟩
    exact ⟨_,mem_scrubbed.mpr ⟨value,hvalue,rfl⟩,(leaks_field key value).mpr hleak⟩

/-- No upper-case text holds a token. -/
theorem not_leaks_level (level : PyStr) : ¬ Leaks (ljust5 (upperAscii level)) := by
  refine not_leaks fun hmem => ?_
  rcases List.mem_append.mp hmem with hmem | hmem
  · obtain ⟨c,_,hc⟩ := List.mem_map.mp hmem
    split at hc
    next hlower =>
      have hval := congrArg Fin.val hc
      simp only [isLower,Bool.and_eq_true,decide_eq_true_eq] at hlower
      simp only [Fin.ofNat] at hval
      have hsmall : (c.val-0x20)%0x110000=c.val-0x20 := Nat.mod_eq_of_lt (by omega)
      rw [hsmall] at hval
      have hlow : c.val-0x20=0x67 := hval
      omega
    next hlower =>
      rw [hc] at hlower
      exact hlower (by decide)
  · exact absurd (List.eq_of_mem_replicate hmem) (by decide)

/-- A field behind the message. -/
theorem leaks_extra (e : PyStr × Value) : Leaks (extraText tables e) ↔ Leaks e.1 ∨ Leaks (strValue tables e.2) := by
  unfold extraText
  exact leaks_sep (by decide) _ _

/-- The fields behind the message. -/
theorem leaks_extras : Leaks (extrasText tables (scrubProcessor tables d)) ↔
    ∃ e∈d.items,isExtra e.1=true ∧ (Leaks e.1 ∨ KeyLeaks (contentKeys tables e.1 e.2)) := by
  unfold extrasText
  rw [leaks_join separates_spaces]
  constructor
  · rintro ⟨part,hpart,hleak⟩
    obtain ⟨e,he,rfl⟩ := List.mem_map.mp hpart
    obtain ⟨he,hextra⟩ := List.mem_filter.mp he
    obtain ⟨value,hvalue,heq⟩ := mem_scrubbed.mp he
    refine ⟨_,hvalue,hextra,?_⟩
    rw [leaks_extra,← heq,leaks_field] at hleak
    exact hleak
  · rintro ⟨e,he,hextra,hleak⟩
    have hshown : (e.1,scrubField tables e.1 e.2)∈extraFields (scrubProcessor tables d) :=
      List.mem_filter.mpr ⟨mem_scrubbed.mpr ⟨e.2,he,rfl⟩,hextra⟩
    refine ⟨_,List.mem_map_of_mem hshown,?_⟩
    rw [leaks_extra,leaks_field]
    exact hleak

/-- A field of the layout holds a token. -/
def LayoutLeaks (tables : UnicodeTables) (d : EventDict) (keys : List PyStr) : Prop :=
  ∃ key∈keys,∃ value,(key,value)∈d.items ∧ KeyLeaks (contentKeys tables key value)

/-- The start of a line. -/
theorem leaks_lineStart (level : PyStr) : Leaks (lineStart tables (scrubProcessor tables d) level) ↔
    LayoutLeaks tables d [pyStr "timestamp",pyStr "thread",pyStr "caller",pyStr "event"] := by
  have hopen : separates (pyStr " [")=true := by decide
  have hclose : separates (pyStr "] ")=true := by decide
  have hdash : separates (pyStr " — ")=true := by decide
  unfold lineStart LayoutLeaks
  rw [leaks_sep hopen,leaks_sep hclose,leaks_sep separates_spaces,leaks_sep hdash,or_iff_right (not_leaks_level level),
    leaks_popped,leaks_popped,leaks_popped,leaks_popped]
  simp only [List.mem_cons,List.not_mem_nil,or_false,or_and_right,exists_or,exists_eq_left]

/-- The line before the traceback. -/
theorem leaks_headText (level : PyStr) : Leaks (headText tables (scrubProcessor tables d) level) ↔
    LayoutLeaks tables d [pyStr "timestamp",pyStr "thread",pyStr "caller",pyStr "event"] ∨
    ∃ e∈d.items,isExtra e.1=true ∧ (Leaks e.1 ∨ KeyLeaks (contentKeys tables e.1 e.2)) := by
  rw [← leaks_extras,← leaks_lineStart level]
  unfold headText
  split
  next hnil =>
    rw [List.isEmpty_iff.mp hnil]
    exact (or_iff_left not_leaks_nil).symm
  next => exact leaks_sep separates_spaces _ _

/-- The keys that are rendered with a field, its own among them. -/
def fieldKeys (tables : UnicodeTables) (e : PyStr × Value) : List PyStr :=
  if e.1.head?=some 0x5F then [] else e.1::contentKeys tables e.1 e.2

/-- A key of a field that is not excluded holds a token. -/
def DictLeaks (tables : UnicodeTables) (d : EventDict) (kept : PyStr → Prop) : Prop :=
  ∃ e∈d.items,kept e.1 ∧ KeyLeaks (fieldKeys tables e)

/-- The keys of a field that is shown. -/
theorem keyLeaks_field {e : PyStr × Value} :
    KeyLeaks (fieldKeys tables e) ↔ e.1.head?≠some 0x5F ∧ (Leaks e.1 ∨ KeyLeaks (contentKeys tables e.1 e.2)) := by
  unfold fieldKeys
  split
  next hhidden => exact iff_of_false not_keyLeaks_nil fun h => h.1 hhidden
  next hshown => exact keyLeaks_cons.trans (iff_and_self.mpr fun _ => hshown).symm.symm

/-- A field behind the message has no layout key. -/
theorem isExtra_iff (key : PyStr) : isExtra key=true ↔ key∉layoutKeys ∧ key.head?≠some 0x5F := by
  rw [isExtra,Bool.and_eq_true,Bool.not_eq_true',← Bool.not_eq_true,List.contains_iff_mem,decide_eq_true_eq]

/-- The layout keys: those in front, the level and the traceback. -/
theorem layout_cases {key : PyStr} (h : key∈layoutKeys) :
    key∈[pyStr "timestamp",pyStr "thread",pyStr "caller",pyStr "event"] ∨ key=pyStr "level" ∨ key∈[pyStr "traceback"] := by
  simp only [layoutKeys,List.mem_cons,List.not_mem_nil,or_false] at h ⊢
  rcases h with h | h | h | h | h | h
  · exact Or.inl (Or.inl h)
  · exact Or.inr (Or.inl h)
  · exact Or.inl (Or.inr (Or.inl h))
  · exact Or.inl (Or.inr (Or.inr (Or.inl h)))
  · exact Or.inl (Or.inr (Or.inr (Or.inr h)))
  · exact Or.inr (Or.inr h)

/-- A layout key holds no token, and is shown. -/
theorem layout_key {key : PyStr} (h : key∈layoutKeys) : ¬ Leaks key ∧ key.head?≠some 0x5F := by
  have hall : ∀ key∈layoutKeys,¬ Leaks key ∧ key.head?≠some 0x5F := by
    intro key hkey
    simp only [layoutKeys,List.mem_cons,List.not_mem_nil,or_false] at hkey
    rcases hkey with rfl | rfl | rfl | rfl | rfl | rfl
    all_goals exact ⟨not_leaks (by decide),by decide⟩
  exact hall key h

/-- A rendered line holds a token exactly where a key of its fields does. -/
theorem leaks_render {line : PyStr} (h : render tables (scrubProcessor tables d)=some line) :
    Leaks line ↔ DictLeaks tables d fun _ => True := by
  obtain ⟨level,hlevel,hline⟩ := Option.map_eq_some_iff.mp h
  have hline' : Leaks line ↔ Leaks (headText tables (scrubProcessor tables d) level) ∨
      LayoutLeaks tables d [pyStr "traceback"] := by
    have htraceback : LayoutLeaks tables d [pyStr "traceback"] ↔
        Leaks (poppedText tables (scrubProcessor tables d) (pyStr "traceback")) := by
      rw [leaks_popped]
      simp only [LayoutLeaks,List.mem_singleton,exists_eq_left]
    rw [htraceback,← hline]
    unfold poppedText
    cases htb : (scrubProcessor tables d).get? (pyStr "traceback") with
    | none => exact (or_iff_left not_leaks_nil).symm
    | some tb =>
      dsimp only
      split
      next => exact leaks_sep (by decide) _ _
      next hempty =>
        obtain ⟨value,hvalue,heq⟩ := mem_scrubbed.mp (EventDict.mem_items.mpr htb)
        have hnone : ¬ Leaks (strValue tables tb) := by
          intro hleak
          have hfield : scrubField tables (pyStr "traceback") value=tb := heq
          rw [← hfield] at hempty hleak
          exact hempty (truthy_of_leaks ((leaks_field _ _).mp hleak))
        exact (or_iff_left hnone).symm
  have hplain : ∀ value,(pyStr "level",value)∈d.items → ¬ KeyLeaks (contentKeys tables (pyStr "level") value) := by
    intro value hvalue hleak
    have hshown : (pyStr "level",scrubField tables (pyStr "level") value)∈(scrubProcessor tables d).items :=
      mem_scrubbed.mpr ⟨value,hvalue,rfl⟩
    have hget := EventDict.mem_items.mp hshown
    unfold levelText at hlevel
    rw [hget] at hlevel
    unfold scrubField at hlevel
    unfold contentKeys at hleak
    split at hleak
    · exact not_keyLeaks_nil hleak
    next hkey =>
      rw [if_neg hkey] at hlevel
      cases value with
      | str text => exact not_keyLeaks_nil hleak
      | _ => exact nomatch hlevel
  rw [hline',leaks_headText]
  unfold LayoutLeaks DictLeaks
  have hlayout : ∀ key∈layoutKeys,∀ value,(key,value)∈d.items → KeyLeaks (contentKeys tables key value) →
      ∃ e∈d.items,True ∧ KeyLeaks (fieldKeys tables e) := by
    intro key hkey value hmem hleak
    exact ⟨(key,value),hmem,trivial,keyLeaks_field.mpr ⟨(layout_key hkey).2,Or.inr hleak⟩⟩
  constructor
  · rintro ((⟨key,hkey,value,hmem,hleak⟩ | ⟨e,hmem,hextra,hleak⟩) | ⟨key,hkey,value,hmem,hleak⟩)
    · have hsub : [pyStr "timestamp",pyStr "thread",pyStr "caller",pyStr "event"] ⊆ layoutKeys := by decide
      exact hlayout key (hsub hkey) value hmem hleak
    · exact ⟨e,hmem,trivial,keyLeaks_field.mpr ⟨((isExtra_iff e.1).mp hextra).2,hleak⟩⟩
    · have hsub : [pyStr "traceback"] ⊆ layoutKeys := by decide
      exact hlayout key (hsub hkey) value hmem hleak
  · rintro ⟨⟨key,value⟩,hmem,_,hleak⟩
    obtain ⟨hshown,hleak⟩ := keyLeaks_field.mp hleak
    by_cases hkey : key∈layoutKeys
    · have hcontent := hleak.resolve_left (layout_key hkey).1
      rcases layout_cases hkey with hkey | rfl | hkey
      · exact Or.inl (Or.inl ⟨key,hkey,value,hmem,hcontent⟩)
      · exact absurd hcontent (hplain value hmem)
      · exact Or.inr ⟨key,hkey,value,hmem,hcontent⟩
    · exact Or.inl (Or.inr ⟨(key,value),hmem,(isExtra_iff key).mpr ⟨hkey,hshown⟩,hleak⟩)

end Lines

section Events
variable {tables : UnicodeTables} {around : Surroundings} {event : Event} {d d' : EventDict} {kept : PyStr → Prop}
  {key : PyStr}

theorem dictLeaks_congr {kept' : PyStr → Prop} (h : ∀ key,kept key ↔ kept' key) :
    DictLeaks tables d kept ↔ DictLeaks tables d kept' := by
  have heq : kept=kept' := funext fun key => propext (h key)
  rw [heq]

/-- A popped field is excluded. -/
theorem dictLeaks_pop : DictLeaks tables (d.pop key) kept ↔ DictLeaks tables d fun k => kept k ∧ k≠key := by
  unfold DictLeaks
  constructor
  · rintro ⟨e,hmem,hkept,hleak⟩
    obtain ⟨hmem,hne⟩ := EventDict.mem_pop.mp hmem
    exact ⟨e,hmem,⟨hkept,hne⟩,hleak⟩
  · rintro ⟨e,hmem,⟨hkept,hne⟩,hleak⟩
    exact ⟨e,EventDict.mem_pop.mpr ⟨hmem,hne⟩,hkept,hleak⟩

/-- A field of text has its own key only. -/
theorem not_keyLeaks_text (hkey : ¬ Leaks key) (text : PyStr) : ¬ KeyLeaks (fieldKeys tables (key,.str text)) := by
  intro h
  rcases (keyLeaks_field.mp h).2 with h | h
  · exact hkey h
  · unfold contentKeys at h
    split at h
    · exact not_keyLeaks_nil h
    · exact not_keyLeaks_nil h

/-- An assigned text replaces what was there. -/
theorem dictLeaks_setItem (hkey : ¬ Leaks key) (text : PyStr) :
    DictLeaks tables (d.setItem key (.str text)) kept ↔ DictLeaks tables d fun k => kept k ∧ k≠key := by
  unfold DictLeaks
  constructor
  · rintro ⟨e,hmem,hkept,hleak⟩
    rcases EventDict.mem_setItem.mp hmem with rfl | ⟨hmem,hne⟩
    · exact absurd hleak (not_keyLeaks_text hkey text)
    · exact ⟨e,hmem,⟨hkept,hne⟩,hleak⟩
  · rintro ⟨e,hmem,⟨hkept,hne⟩,hleak⟩
    exact ⟨e,EventDict.mem_setItem.mpr (Or.inr ⟨hmem,hne⟩),hkept,hleak⟩

/-- The message and the level have no keys that leak. -/
theorem dictLeaks_dict : DictLeaks tables event.dict kept ↔ DictLeaks tables event.context kept := by
  unfold DictLeaks Event.dict
  constructor
  · rintro ⟨e,hmem,hkept,hleak⟩
    rcases (EventDict.mem_foldl_setItem event.context.nodup).mp hmem with hmem | ⟨hmem,_⟩
    · exact ⟨e,hmem,hkept,hleak⟩
    · have hcases : e=(pyStr "event",.str event.msg) ∨ e=(pyStr "level",.str event.level.text) := by
        simpa only [List.mem_cons,List.not_mem_nil,or_false] using hmem
      rcases hcases with rfl | rfl
      · exact absurd hleak (not_keyLeaks_text (not_leaks (by decide)) _)
      · exact absurd hleak (not_keyLeaks_text (not_leaks (by decide)) _)
  · rintro ⟨e,hmem,hkept,hleak⟩
    exact ⟨e,(EventDict.mem_foldl_setItem event.context.nodup).mpr (Or.inl hmem),hkept,hleak⟩

/-- The first three processors replace their fields. -/
theorem dictLeaks_marked :
    DictLeaks tables (callerInfoProcessor around (threadInfoProcessor around (timeStamper around d))) kept ↔
      DictLeaks tables d fun k => kept k ∧ (k=pyStr "caller" → around.caller=none) ∧ k≠pyStr "thread" ∧
        k≠pyStr "timestamp" := by
  have hcaller : ∀ {d : EventDict},DictLeaks tables (callerInfoProcessor around d) kept ↔
      DictLeaks tables d fun k => kept k ∧ (k=pyStr "caller" → around.caller=none) := by
    intro d
    unfold callerInfoProcessor
    cases around.caller with
    | none => exact dictLeaks_congr fun k => (and_iff_left fun _ => rfl).symm
    | some caller =>
      rw [dictLeaks_setItem (not_leaks (by decide))]
      exact dictLeaks_congr fun k => and_congr_right fun _ => ⟨fun hne heq => absurd heq hne,fun h heq => nomatch h heq⟩
  rw [hcaller]
  unfold threadInfoProcessor timeStamper
  rw [dictLeaks_setItem (not_leaks (by decide)),dictLeaks_setItem (not_leaks (by decide))]
  exact dictLeaks_congr fun k => by rw [and_assoc,and_assoc]

/-- So does the traceback of an exception. -/
theorem dictLeaks_exc {exc : Option PyStr} (h : excProcessor exc d=some d') : DictLeaks tables d' kept ↔
    DictLeaks tables d fun k => kept k ∧ (k=pyStr "traceback" → exc=none) ∧ k≠pyStr "exc" := by
  have hpop : DictLeaks tables (d.pop (pyStr "exc")) kept ↔
      DictLeaks tables d fun k => kept k ∧ (k=pyStr "traceback" → (none : Option PyStr)=none) ∧ k≠pyStr "exc" := by
    rw [dictLeaks_pop]
    exact dictLeaks_congr fun k => and_congr_right fun _ => (and_iff_right fun _ => rfl).symm
  unfold excProcessor at h
  cases exc with
  | some formatted =>
    cases h
    rw [dictLeaks_setItem (not_leaks (by decide)),dictLeaks_pop]
    refine dictLeaks_congr fun k => ?_
    rw [and_assoc]
    exact and_congr_right fun _ => and_congr_left fun _ => ⟨fun hne heq => absurd heq hne,fun h heq => nomatch h heq⟩
  | none =>
    dsimp only at h
    split at h
    next =>
      cases h
      exact hpop
    next text _ =>
      split at h
      next =>
        cases h
        exact hpop
      next => exact nomatch h
    next => exact nomatch h

/-- Whether `format_exc_info` finds something to format. -/
def excInfoText (around : Surroundings) (d : EventDict) : Bool :=
  match (d.get? (pyStr "exc_info")).bind around.excInfo with
  | some (some _) => true
  | _ => false

/-- So does what it formats. -/
theorem dictLeaks_excInfo (h : formatExcInfo around d=some d') : DictLeaks tables d' kept ↔
    DictLeaks tables d fun k => kept k ∧ (k=pyStr "exception" → excInfoText around d=false) ∧ k≠pyStr "exc_info" := by
  have hpop : ∀ b : Bool,b=false → (DictLeaks tables (d.pop (pyStr "exc_info")) kept ↔
      DictLeaks tables d fun k => kept k ∧ (k=pyStr "exception" → b=false) ∧ k≠pyStr "exc_info") := by
    intro b hb
    rw [dictLeaks_pop]
    exact dictLeaks_congr fun k => and_congr_right fun _ => (and_iff_right fun _ => hb).symm
  unfold formatExcInfo at h
  unfold excInfoText
  cases hget : d.get? (pyStr "exc_info") with
  | none =>
    rw [hget] at h
    cases h
    exact hpop _ rfl
  | some value =>
    rw [hget] at h
    dsimp only at h
    cases hinfo : around.excInfo value with
    | none =>
      rw [hinfo] at h
      exact nomatch h
    | some text =>
      rw [hinfo] at h
      rw [Option.bind_some,hinfo]
      cases text with
      | none =>
        cases h
        exact hpop _ rfl
      | some text =>
        cases h
        rw [dictLeaks_setItem (not_leaks (by decide)),dictLeaks_pop]
        refine dictLeaks_congr fun k => ?_
        rw [and_assoc]
        exact and_congr_right fun _ => and_congr_left fun _ =>
          ⟨fun hne heq => absurd heq hne,fun h heq => nomatch h heq⟩

/-- The field of `format_exc_info` is the caller's. -/
theorem excInfoText_context {exc : Option PyStr} (h : excProcessor exc
      (callerInfoProcessor around (threadInfoProcessor around (timeStamper around event.dict)))=some d) :
    excInfoText around d=excInfoText around event.context := by
  have hdict : event.dict.get? (pyStr "exc_info")=event.context.get? (pyStr "exc_info") := by
    refine EventDict.get?_congr fun value => (EventDict.mem_foldl_setItem event.context.nodup).trans (or_iff_left ?_)
    rintro ⟨hmem,_⟩
    simp only [List.mem_cons,List.not_mem_nil,or_false,Prod.mk.injEq] at hmem
    rcases hmem with ⟨heq,_⟩ | ⟨heq,_⟩
    all_goals exact absurd heq (by decide)
  have hmarked : (callerInfoProcessor around (threadInfoProcessor around (timeStamper around event.dict))).get?
      (pyStr "exc_info")=event.context.get? (pyStr "exc_info") := by
    rw [← hdict]
    have hfirst : (threadInfoProcessor around (timeStamper around event.dict)).get? (pyStr "exc_info")=
        event.dict.get? (pyStr "exc_info") := by
      unfold threadInfoProcessor timeStamper
      rw [EventDict.get?_setItem_of_ne (by decide),EventDict.get?_setItem_of_ne (by decide)]
    unfold callerInfoProcessor
    split
    · exact hfirst
    · rw [EventDict.get?_setItem_of_ne (by decide),hfirst]
  have hget : d.get? (pyStr "exc_info")=event.context.get? (pyStr "exc_info") := by
    unfold excProcessor at h
    cases exc with
    | some formatted =>
      cases h
      rw [EventDict.get?_setItem_of_ne (by decide),EventDict.get?_pop_of_ne (by decide),hmarked]
    | none =>
      dsimp only at h
      split at h
      next =>
        cases h
        rw [EventDict.get?_pop_of_ne (by decide),hmarked]
      next text _ =>
        split at h
        next =>
          cases h
          rw [EventDict.get?_pop_of_ne (by decide),hmarked]
        next => cases h
      next => cases h
  unfold excInfoText
  rw [hget]

/-- A field that the processors take or write over. -/
def replaced (around : Surroundings) (event : Event) (key : PyStr) : Bool :=
  [pyStr "timestamp",pyStr "thread",pyStr "exc",pyStr "exc_info"].contains key ||
    (decide (key=pyStr "caller") && around.caller.isSome) ||
    (decide (key=pyStr "traceback") && event.exc.isSome) ||
    (decide (key=pyStr "exception") && excInfoText around event.context)

/-- The keys that are rendered with an event: the names of its fields, but for those that begin with
an underscore and those that the processors replace, and the keys of the mappings in them. -/
def renderedKeys (tables : UnicodeTables) (around : Surroundings) (event : Event) : List PyStr :=
  (event.context.items.filter fun e => !replaced around event e.1).flatMap (fieldKeys tables)

/-- The fields that are left. -/
theorem replaced_eq_false (key : PyStr) : replaced around event key=false ↔
    key≠pyStr "timestamp" ∧ key≠pyStr "thread" ∧ key≠pyStr "exc" ∧ key≠pyStr "exc_info" ∧
      (key=pyStr "caller" → around.caller=none) ∧ (key=pyStr "traceback" → event.exc=none) ∧
      (key=pyStr "exception" → excInfoText around event.context=false) := by
  have himp : ∀ {p : Prop} [Decidable p] {b : Bool},(decide p && b)=false ↔ (p → b=false) := by
    intro p _ b
    by_cases hp : p
    · simp [hp]
    · simp [hp]
  rw [replaced,Bool.or_eq_false_iff,Bool.or_eq_false_iff,Bool.or_eq_false_iff,himp,himp,himp,← Bool.not_eq_true,
    List.contains_iff_mem]
  simp only [List.mem_cons,List.not_mem_nil,or_false,not_or,Option.isSome_eq_false_iff,Option.isNone_iff_eq_none,and_assoc]

/-- Where a key that is rendered holds a token. -/
theorem keyLeaks_rendered : KeyLeaks (renderedKeys tables around event) ↔
    DictLeaks tables event.context fun key => replaced around event key=false := by
  unfold KeyLeaks DictLeaks renderedKeys
  constructor
  · rintro ⟨key,hkey,hleak⟩
    obtain ⟨e,he,hkey⟩ := List.mem_flatMap.mp hkey
    obtain ⟨he,hkept⟩ := List.mem_filter.mp he
    rw [Bool.not_eq_true'] at hkept
    exact ⟨e,he,hkept,key,hkey,hleak⟩
  · rintro ⟨e,he,hkept,key,hkey,hleak⟩
    rw [← Bool.not_eq_true'] at hkept
    exact ⟨key,List.mem_flatMap.mpr ⟨e,List.mem_filter.mpr ⟨he,hkept⟩,hkey⟩,hleak⟩

/-- The line of an event holds no token exactly when none of the keys that are rendered with it
does: not through the message, a value, a traceback or the text next to it. -/
theorem no_token_iff {minLevel : ℕ} {line : PyStr} (h : emit tables around minLevel event=some line) :
    ¬ Leaks line ↔ ∀ key∈renderedKeys tables around event,¬ Leaks key := by
  unfold emit at h
  split at h
  next => exact nomatch h
  next =>
    obtain ⟨d₁,hexc,h⟩ := Option.bind_eq_some_iff.mp h
    obtain ⟨d₂,hinfo,h⟩ := Option.bind_eq_some_iff.mp h
    have hleaks : Leaks line ↔ KeyLeaks (renderedKeys tables around event) := by
      rw [leaks_render h,dictLeaks_excInfo hinfo,dictLeaks_exc hexc,dictLeaks_marked,dictLeaks_dict,
        excInfoText_context hexc,keyLeaks_rendered]
      refine dictLeaks_congr fun key => ?_
      rw [replaced_eq_false]
      constructor
      · rintro ⟨⟨⟨_,hexception,hinfo⟩,htraceback,hexc⟩,hcaller,hthread,htimestamp⟩
        exact ⟨htimestamp,hthread,hexc,hinfo,hcaller,htraceback,hexception⟩
      · rintro ⟨htimestamp,hthread,hexc,hinfo,hcaller,htraceback,hexception⟩
        exact ⟨⟨⟨trivial,hexception,hinfo⟩,htraceback,hexc⟩,hcaller,hthread,htimestamp⟩
    rw [hleaks]
    simp only [KeyLeaks,not_exists,not_and]

end Events

/-- What Python knows of ASCII. -/
def asciiTables : UnicodeTables where
  isWord c := isLower c || isUpper c || isDigit c || decide (c=0x5F)
  isPrintable _ := false
  lower text := text.map fun c => if isUpper c=true then Fin.ofNat 0x110000 (c.val+0x20) else c

/-- Surroundings without an exception that is being handled. -/
def plainSurroundings : Surroundings where
  timestamp := pyStr "2026-06-27 22:33:20.620000"
  thread := pyStr "MainThread:1"
  caller := some (pyStr "main:7")
  excInfo _ := some none

/-- A token of 32 digits. -/
def someToken : PyStr := pyStr "gmlc_00112233445566778899aabbccddeeff"

/-- An event with a token in its message and in a list, and with this key in a mapping. -/
def noteEvent (key : PyStr) : Event where
  level := .info
  msg := pyStr "opening with " ++ someToken
  exc := none
  context := ⟨[(pyStr "note",.mapping [(key,.list [.str someToken])])],List.nodup_singleton _⟩
  named e he := by
    have hkey : e.1=pyStr "note" := congrArg Prod.fst (List.mem_singleton.mp he)
    rw [hkey]
    decide

/-- A token in the message and in a value does not show. -/
theorem no_token_scrubbed : ∃ line,emit asciiTables plainSurroundings 1 (noteEvent (pyStr "store"))=some line ∧
    ¬ Leaks line := by
  have hsome : (emit asciiTables plainSurroundings 1 (noteEvent (pyStr "store"))).isSome=true := by decide +kernel
  obtain ⟨line,hline⟩ := Option.isSome_iff_exists.mp hsome
  refine ⟨line,hline,(no_token_iff hline).mpr ?_⟩
  have hkeys : ∀ key∈renderedKeys asciiTables plainSurroundings (noteEvent (pyStr "store")),0x67∉key := by decide +kernel
  exact fun key hkey => not_leaks (hkeys key hkey)

/-- A token that is a key of a mapping does. -/
theorem no_token_fails : ¬ ∀ (event : Event) (line : PyStr),
    emit asciiTables plainSurroundings 1 event=some line → ¬ Leaks line := by
  intro h
  have hshown : (emit asciiTables plainSurroundings 1 (noteEvent someToken)).any
      (fun line => decide (someToken <:+: line))=true := by decide +kernel
  obtain ⟨line,hline,hin⟩ : ∃ line,emit asciiTables plainSurroundings 1 (noteEvent someToken)=some line ∧
      decide (someToken <:+: line)=true := (Option.any_eq_true _ _).mp hshown
  have hdigits : (someToken.drop 5).all isLowerHex=true := by decide
  have htoken : IsToken someToken := ⟨someToken.drop 5,by decide,by decide,List.all_eq_true.mp hdigits⟩
  exact h _ line hline ⟨someToken,htoken,of_decide_eq_true hin⟩

end GenericMlCache.TokenLeaks
