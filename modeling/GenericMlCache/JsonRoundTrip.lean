import GenericMlCache.JsonGrammar
import Mathlib.Data.List.Chain
import Mathlib.Tactic.IntervalCases

/-!
# What `json.dumps` writes is read back

The text of a value is in the grammar of the value itself. Two things get lost: an
integer of too many digits is not written at all, and a high and a low surrogate
next to each other are read as one code point.
-/

namespace GenericMlCache.JsonRoundTrip

open PythonText ExecutionModel JsonText JsonGrammar

/-- The code point of a character. -/
def charCode (c : Char) : Fin 0x110000 := Fin.ofNat 0x110000 c.toNat

/-- A literal from its characters. -/
theorem pyStr_ofList (characters : List Char) : pyStr (String.ofList characters)=characters.map charCode := by
  unfold pyStr
  rw [String.toList_ofList]
  apply List.map_congr_left
  intro c _
  have hvalid := c.valid
  simp only [UInt32.isValidChar,Nat.isValidChar] at hvalid
  apply Fin.ext
  have hlt : c.toNat < 0x110000 := by
    simp only [Char.toNat]
    omega
  simp only [charCode,Fin.ofNat,Nat.mod_eq_of_lt hlt]

/-- The hexadecimal digit of a number below 16. -/
def hexCode (d : ℕ) : Fin 0x110000 := charCode (Nat.digitChar d)

/-- A hexadecimal digit is read back. -/
theorem hexDigit_hexCode {d : ℕ} (h : d < 16) : hexDigit (hexCode d)=some d := by
  interval_cases d <;> decide

/-- An escaped unit has four digits. -/
theorem escapeUnit_eq {n : ℕ} (h : n < 0x10000) :
    escapeUnit n=[0x5C,0x75,hexCode (n/4096),hexCode (n/256%16),hexCode (n/16%16),hexCode (n%16)] := by
  have hb : 1 < 16 := by omega
  have hzero : charCode (Nat.digitChar 0)=0x30 := by decide
  unfold escapeUnit
  rw [pyStr_ofList,Nat.toDigits_eq_if hb]
  split
  next h₁ =>
    have hd : n/4096=0 ∧ n/256%16=0 ∧ n/16%16=0 ∧ n%16=n := by omega
    rw [hd.1,hd.2.1,hd.2.2.1,hd.2.2.2]
    simp only [List.map_cons,List.map_nil,List.length_cons,List.length_nil,hexCode,hzero]
    rfl
  next h₁ =>
    rw [Nat.toDigits_eq_if hb]
    split
    next h₂ =>
      have hd : n/4096=0 ∧ n/256%16=0 ∧ n/16%16=n/16 := by omega
      rw [hd.1,hd.2.1,hd.2.2]
      simp only [List.map_append,List.map_cons,List.map_nil,List.length_append,List.length_cons,
        List.length_nil,hexCode,hzero]
      rfl
    next h₂ =>
      rw [Nat.toDigits_eq_if hb]
      split
      next h₃ =>
        have hd : n/4096=0 ∧ n/16/16=n/256%16 := by omega
        rw [hd.1,hd.2]
        simp only [List.map_append,List.map_cons,List.map_nil,List.length_append,List.length_cons,
          List.length_nil,hexCode,hzero]
        rfl
      next h₃ =>
        have hlt : n/16/16/16 < 16 := by omega
        have hd : n/16/16/16=n/4096 ∧ n/16/16%16=n/256%16 := by omega
        rw [Nat.toDigits_of_lt_base hlt,hd.1,hd.2]
        simp only [List.map_append,List.map_cons,List.map_nil,List.length_append,List.length_cons,
          List.length_nil,hexCode]
        rfl

/-- The four digits are read back. -/
theorem hexUnit_hexCode {n : ℕ} (h : n < 0x10000) :
    hexUnit (hexCode (n/4096)) (hexCode (n/256%16)) (hexCode (n/16%16)) (hexCode (n%16))=
      some (Fin.ofNat 0x110000 n) := by
  have hsum : ((n/4096*16+n/256%16)*16+n/16%16)*16+n%16=n := by omega
  unfold hexUnit
  rw [hexDigit_hexCode (by omega),hexDigit_hexCode (by omega),hexDigit_hexCode (by omega),
    hexDigit_hexCode (by omega)]
  show some (Fin.ofNat 0x110000 _)=_
  rw [hsum]

/-- An escaped unit writes itself. -/
theorem units_escapeUnit {n : ℕ} (h : n < 0x10000) {a : PyStr} {units : List LiteralUnit} (ha : Units a units) :
    Units (escapeUnit n++a) ((Fin.ofNat 0x110000 n,true)::units) := by
  rw [escapeUnit_eq h]
  exact .unicode (hexUnit_hexCode h) ha

/-- Whether a code point is written by a `\u` escape. -/
def isEscaped (c : Fin 0x110000) : Bool :=
  !(0x20 ≤ c.val && c.val ≤ 0x7E) && !([0x0A,0x0D,0x09,0x0C,0x08].contains c.val)

/-- The units that the escape of a code point writes. -/
def unitsOf (c : Fin 0x110000) : List LiteralUnit :=
  if c.val < 0x10000 then [(c,isEscaped c)]
  else [(Fin.ofNat 0x110000 (0xD800+(c.val-0x10000)/0x400),true),
    (Fin.ofNat 0x110000 (0xDC00+(c.val-0x10000)%0x400),true)]

/-- An escaped code point writes its units. -/
theorem units_escapeCodePoint (c : Fin 0x110000) {a : PyStr} {units : List LiteralUnit} (ha : Units a units) :
    Units (escapeCodePoint c++a) (unitsOf c++units) := by
  have hself : Fin.ofNat 0x110000 c.val=c := Fin.ext (Nat.mod_eq_of_lt c.isLt)
  unfold escapeCodePoint
  split
  iterate 7
    next h =>
      rw [← hself,h]
      exact .short (by decide) (by decide) ha
  next n h22 h5C h0A h0D h09 h0C h08 =>
    split
    next hplain =>
      have hunits : unitsOf c=[(c,false)] := by
        rw [unitsOf,if_pos (by omega),isEscaped]
        simp [hplain]
      have hquote : c≠0x22 := fun h => h22 (by rw [h]; rfl)
      have hslash : c≠0x5C := fun h => h5C (by rw [h]; rfl)
      rw [hunits]
      exact .plain hquote hslash hplain.1 ha
    next hplain =>
      split
      next hbmp =>
        have hunits : unitsOf c=[(c,true)] := by
          rw [unitsOf,if_pos hbmp,isEscaped]
          have hshort : [0x0A,0x0D,0x09,0x0C,0x08].contains c.val=false := by
            simp only [List.contains_eq_mem,List.mem_cons,List.not_mem_nil,or_false,decide_eq_false_iff_not]
            tauto
          have hrange : (decide (0x20 ≤ c.val) && decide (c.val ≤ 0x7E))=false := by
            rw [← Bool.decide_and]
            exact decide_eq_false hplain
          rw [hshort,hrange]
          rfl
        have hescaped := units_escapeUnit hbmp ha
        rw [hself] at hescaped
        rw [hunits]
        exact hescaped
      next hbmp =>
        have hlt := c.isLt
        rw [unitsOf,if_neg hbmp,List.append_assoc]
        exact units_escapeUnit (by omega) (units_escapeUnit (by omega) ha)

/-- A written text writes its units. -/
theorem units_text (text : PyStr) : Units (text.flatMap escapeCodePoint++[0x22]) (text.flatMap unitsOf) := by
  induction text with
  | nil => exact .close
  | cons c text ih =>
    rw [List.flatMap_cons,List.flatMap_cons,List.append_assoc]
    exact units_escapeCodePoint c ih

/-- A text without a high surrogate right before a low one. -/
def separated (text : PyStr) : Bool :=
  decide (text.IsChain fun c d => ¬(isHighSurrogate c=true ∧ isLowSurrogate d=true))

/-- A unit that opens no pair stays. -/
theorem joinSurrogates_cons {unit : LiteralUnit} {units : List LiteralUnit}
    (h : ∀ low ∈ units.head?,isPair unit low=false) :
    joinSurrogates (unit::units)=unit.1::joinSurrogates units := by
  cases units with
  | nil => rfl
  | cons low tail =>
    have hpair : isPair unit low=false := h low rfl
    rw [joinSurrogates.eq_def]
    simp only [hpair,Bool.false_eq_true,if_false]

/-- A pair is one code point. -/
theorem joinSurrogates_pair {high low : LiteralUnit} (tail : List LiteralUnit) (h : isPair high low=true) :
    joinSurrogates (high::low::tail)=joinPair high.1 low.1::joinSurrogates tail := by
  rw [joinSurrogates.eq_def]
  simp only [h,if_true]

/-- The first unit of a code point is no low surrogate, unless the code point is one. -/
theorem head_unitsOf (c : Fin 0x110000) : ∃ unit tail,unitsOf c=unit::tail ∧
    (isLowSurrogate unit.1=true → isLowSurrogate c=true) := by
  unfold unitsOf
  split
  next h => exact ⟨_,_,rfl,id⟩
  next h =>
    have hlt := c.isLt
    refine ⟨_,_,rfl,fun hlow => ?_⟩
    simp only [isLowSurrogate,Fin.ofNat,Bool.and_eq_true,decide_eq_true_eq] at hlow
    omega

/-- The pair of a code point is joined to it again. -/
theorem joinPair_units {c : Fin 0x110000} (h : ¬c.val < 0x10000) :
    joinPair (Fin.ofNat 0x110000 (0xD800+(c.val-0x10000)/0x400))
      (Fin.ofNat 0x110000 (0xDC00+(c.val-0x10000)%0x400))=c := by
  have hlt := c.isLt
  apply Fin.ext
  unfold joinPair
  rw [Fin.val_ofNat,Fin.val_ofNat,Fin.val_ofNat]
  omega

/-- The units of a text without a split pair are its code points again. -/
theorem joinSurrogates_unitsOf {text : PyStr} (h : separated text=true) :
    joinSurrogates (text.flatMap unitsOf)=text := by
  simp only [separated,decide_eq_true_eq] at h
  induction text with
  | nil => rfl
  | cons c text ih =>
    have htail : joinSurrogates (text.flatMap unitsOf)=text := ih h.of_cons
    rw [List.flatMap_cons]
    by_cases hbmp : c.val < 0x10000
    · rw [unitsOf,if_pos hbmp,List.singleton_append,joinSurrogates_cons,htail]
      intro low hlow
      cases text with
      | nil => cases hlow
      | cons d text =>
        obtain ⟨unit,tail,hunits,hlowd⟩ := head_unitsOf d
        rw [List.flatMap_cons,hunits,List.cons_append,List.head?_cons,Option.mem_some_iff] at hlow
        subst hlow
        have hnot := (List.isChain_cons_cons.mp h).1
        by_contra hpair
        simp only [isPair,Bool.not_eq_false,Bool.and_eq_true] at hpair
        exact hnot ⟨hpair.1.2,hlowd hpair.2⟩
    · have hlt := c.isLt
      rw [unitsOf,if_neg hbmp,List.cons_append,List.singleton_append,joinSurrogates_pair,htail]
      · exact congrArg (·::text) (joinPair_units hbmp)
      · simp only [isPair,isHighSurrogate,isLowSurrogate,Fin.ofNat,Bool.true_and,Bool.and_eq_true,
          decide_eq_true_eq]
        omega

/-- The decimal digits of a natural number. -/
def natDigits (n : ℕ) : PyStr := (Nat.toDigits 10 n).map charCode

/-- A digit below ten. -/
theorem digit_charCode {d : ℕ} (h : d < 10) :
    isDigit (charCode (Nat.digitChar d))=true ∧ (charCode (Nat.digitChar d)).val-0x30=d := by
  interval_cases d <;> decide

/-- The digits of a number: those of its tenth and the last one. -/
theorem natDigits_step {n : ℕ} (h : 10 ≤ n) :
    natDigits n=natDigits (n/10)++[charCode (Nat.digitChar (n%10))] := by
  unfold natDigits
  rw [Nat.toDigits_of_base_le (by omega) h,List.map_append,List.map_singleton]

/-- A number below ten has one digit. -/
theorem natDigits_small {n : ℕ} (h : n < 10) : natDigits n=[charCode (Nat.digitChar n)] := by
  unfold natDigits
  rw [Nat.toDigits_of_lt_base h,List.map_singleton]

/-- The digits of a number are a whole part that has its value. -/
theorem natDigits_whole (n : ℕ) : isWhole (natDigits n) ∧ digitsValue (natDigits n)=n ∧
    isDigits (natDigits n) ∧ (0 < n → (natDigits n).head?≠some 0x30) := by
  induction n using Nat.strongRecOn with
  | ind n ih =>
    by_cases hsmall : n < 10
    · obtain ⟨hdigit,hvalue⟩ := digit_charCode hsmall
      have hdigits : isDigits [charCode (Nat.digitChar n)] := by
        refine ⟨List.cons_ne_nil _ _,fun c hc => ?_⟩
        rw [List.mem_singleton.mp hc]
        exact hdigit
      have hhead : 0 < n → [charCode (Nat.digitChar n)].head?≠some 0x30 := by
        interval_cases n <;> decide
      rw [natDigits_small hsmall]
      refine ⟨?_,?_,hdigits,hhead⟩
      · by_cases hzero : n=0
        · subst hzero
          exact .inl rfl
        · exact .inr ⟨hdigits,hhead (by omega)⟩
      · show 10*0+_=_
        rw [hvalue]
        omega
    · obtain ⟨_,hvalue,⟨hne,hdigits⟩,hhead⟩ := ih (n/10) (by omega)
      have hlast := digit_charCode (show n%10 < 10 by omega)
      have hall : isDigits (natDigits n) := by
        rw [natDigits_step (by omega)]
        refine ⟨List.append_ne_nil_of_left_ne_nil hne _,fun c hc => ?_⟩
        rcases List.mem_append.mp hc with hmem | hmem
        · exact hdigits c hmem
        · rw [List.mem_singleton.mp hmem]
          exact hlast.1
      have hfirst : (natDigits n).head?≠some 0x30 := by
        rw [natDigits_step (by omega),List.head?_append_of_ne_nil _ hne]
        exact hhead (by omega)
      refine ⟨.inr ⟨hall,hfirst⟩,?_,hall,fun _ => hfirst⟩
      unfold digitsValue at hvalue ⊢
      rw [natDigits_step (by omega),List.foldl_append,hvalue]
      show 10*(n/10)+_=_
      rw [hlast.2]
      omega

/-- A printed integer is its sign and its digits. -/
theorem intText_eq (n : ℤ) : intText n=(if n < 0 then [0x2D] else [])++natDigits n.natAbs := by
  unfold intText natDigits
  rw [pyStr_ofList]

/-- A printed integer is one that is read. -/
theorem intOfDigits_natDigits {n : ℤ} (h : intPrintable n=true) :
    intOfDigits (some intMaxStrDigits) (if n < 0 then [0x2D] else []) (natDigits n.natAbs)=.ok (.int n) := by
  obtain ⟨_,hvalue,_,_⟩ := natDigits_whole n.natAbs
  have hlength : (natDigits n.natAbs).length ≤ intMaxStrDigits := by
    rw [natDigits,List.length_map]
    exact of_decide_eq_true h
  have hsigned : (if (if n < 0 then [0x2D] else ([] : PyStr))=[] then (n.natAbs : ℤ) else -(n.natAbs : ℤ))=n := by
    by_cases hneg : n < 0
    · rw [if_pos hneg,if_neg (List.cons_ne_nil _ _)]
      omega
    · rw [if_neg hneg,if_pos rfl]
      omega
  have hallowed : ∀ maximum ∈ some intMaxStrDigits,(natDigits n.natAbs).length ≤ maximum := by
    intro maximum hmaximum
    rwa [← Option.some.inj hmaximum]
  rw [intOfDigits,if_pos hallowed,hvalue,hsigned]

/-- `float.__repr__` and `float` of a text: the text of a finite float has a
fraction or an exponent, and it is the float's own. -/
structure FloatCodec where
  /-- The text of a float, by its bit pattern. -/
  floatRepr : UInt64 → PyStr
  /-- The float that a text stands for. -/
  parseFloat : PyStr → UInt64
  /-- The text of a finite float is a number with a fraction or an exponent. -/
  isNumber : ∀ bits,isFinite bits=true → ∃ sign whole fraction exponent,
    NumberText sign whole fraction exponent ∧ ¬(fraction=[] ∧ exponent=[]) ∧
      floatRepr bits=sign++whole++fraction++exponent
  /-- It stands for the float. -/
  reads : ∀ bits,isFinite bits=true → parseFloat (floatRepr bits)=bits

/-- Whether a value is as Python holds it: a dict's keys are distinct, and the
only NaN is the one that is read. -/
def wellFormed : Json → Bool := every fun value =>
  match value with
  | .obj fields => decide (fields.map Prod.fst).Nodup
  | .float bits => isFinite bits || [infBits,negInfBits,nanBits].contains bits
  | _ => true

/-- Whether every text of a value is separated, keys included. -/
def separatedTexts : Json → Bool := every fun value =>
  match value with
  | .str s => separated s
  | .obj fields => fields.all fun e => separated e.1
  | _ => true

mutual

/-- Two properties of every value inside. -/
theorem every_and (p q : Json → Bool) (value : Json) :
    every (fun v => p v && q v) value=(every p value && every q value) := by
  cases value with
  | arr items =>
    simp only [every,everyItem_and p q items]
    ac_rfl
  | obj fields =>
    simp only [every,everyField_and p q fields]
    ac_rfl
  | _ => rfl

/-- The same of a list's items. -/
theorem everyItem_and (p q : Json → Bool) (items : List Json) :
    everyItem (fun v => p v && q v) items=(everyItem p items && everyItem q items) := by
  match items with
  | [] => rfl
  | value::items =>
    simp only [everyItem,every_and p q value,everyItem_and p q items]
    ac_rfl

/-- The same of a dict's values. -/
theorem everyField_and (p q : Json → Bool) (fields : List (PyStr × Json)) :
    everyField (fun v => p v && q v) fields=(everyField p fields && everyField q fields) := by
  match fields with
  | [] => rfl
  | (_,value)::fields =>
    simp only [everyField,every_and p q value,everyField_and p q fields]
    ac_rfl

end

/-- What a value itself needs to survive the way through a text. -/
def readableHere : Json → Bool
  | .int n => intPrintable n
  | .float bits => isFinite bits || [infBits,negInfBits,nanBits].contains bits
  | .str s => separated s
  | .obj fields => (fields.all fun e => separated e.1) && decide (fields.map Prod.fst).Nodup
  | _ => true

/-- Whether a value survives it, with all values inside it. -/
def readable : Json → Bool := every readableHere

/-- It does when it is well formed, printable, and its texts are separated. -/
theorem readable_eq (value : Json) :
    readable value=(printable value && separatedTexts value && wellFormed value) := by
  unfold printable separatedTexts wellFormed
  rw [← every_and,← every_and]
  unfold readable
  congr 1
  funext v
  cases v <;> simp [readableHere]

/-- A text that UTF-8 encodes has no surrogate to split. -/
theorem separated_of_encodable {text : PyStr} (h : encodable text=true) : separated text=true := by
  rw [separated,decide_eq_true_eq]
  rw [encodable,List.all_eq_true] at h
  apply List.Pairwise.isChain
  apply List.pairwise_of_forall_mem_list
  intro c hc d _ hpair
  have hplain := h c hc
  simp only [isSurrogate,isHighSurrogate,Bool.not_eq_true',Bool.and_eq_true,Bool.and_eq_false_iff,
    decide_eq_true_eq,decide_eq_false_iff_not] at hplain hpair
  omega

/-- A list survives with its items. -/
theorem readable_arr {items : List Json} : readable (.arr items)=true ↔ ∀ item ∈ items,readable item=true := by
  rw [readable,every,everyItem_eq_all,Bool.and_eq_true,List.all_eq_true]
  exact and_iff_right rfl

/-- A dict survives with its keys and values. -/
theorem readable_obj {fields : List (PyStr × Json)} : readable (.obj fields)=true ↔
    (∀ e ∈ fields,separated e.1=true ∧ readable e.2=true) ∧ (fields.map Prod.fst).Nodup := by
  rw [readable,every,everyField_eq_all,readableHere]
  simp only [Bool.and_eq_true,List.all_eq_true,decide_eq_true_eq]
  constructor
  · rintro ⟨⟨hkeys,hnodup⟩,hvalues⟩
    exact ⟨fun e he => ⟨hkeys e he,hvalues e he⟩,hnodup⟩
  · rintro ⟨hall,hnodup⟩
    exact ⟨⟨fun e he => (hall e he).1,hnodup⟩,fun e he => (hall e he).2⟩

/-- Keys that are new are added in order. -/
theorem foldl_setItem {fields members : List (PyStr × Json)}
    (h : ((fields++members).map Prod.fst).Nodup) : members.foldl setItem fields=fields++members := by
  induction members generalizing fields with
  | nil => rw [List.append_nil]; rfl
  | cons e members ih =>
    have hnew : e.1∉fields.map Prod.fst := by
      intro hmem
      rw [List.map_append,List.map_cons] at h
      exact (List.nodup_append.mp h).2.2 _ hmem _ List.mem_cons_self rfl
    have hset : setItem fields e=fields++[e] := if_neg hnew
    rw [List.foldl_cons,hset,ih (by rwa [List.append_assoc,List.singleton_append]),List.append_assoc,
      List.singleton_append]

section RoundTrip
variable (codec : FloatCodec)

/-- A written integer. -/
theorem writes_int {n : ℤ} (h : intPrintable n=true) : Writes (some intMaxStrDigits) codec.parseFloat (intText n) (.value (.int n)) := by
  rw [intText_eq]
  exact .int ⟨by split <;> simp,(natDigits_whole _).1,.inl rfl,.inl rfl⟩ (intOfDigits_natDigits h)

/-- A written float. -/
theorem writes_float {bits : UInt64} (h : isFinite bits=true ∨ bits=infBits ∨ bits=negInfBits ∨ bits=nanBits) :
    Writes (some intMaxStrDigits) codec.parseFloat (floatText codec.floatRepr bits) (.value (.float bits)) := by
  rcases h with hfinite | rfl | rfl | rfl
  · obtain ⟨sign,whole,fraction,exponent,hn,hfloat,htext⟩ := codec.isNumber bits hfinite
    have hwrites := @Writes.float (some intMaxStrDigits) codec.parseFloat _ _ _ _ hn hfloat
    rw [← htext,codec.reads bits hfinite] at hwrites
    rw [floatText,if_pos hfinite,htext]
    simpa only [List.append_assoc] using hwrites
  · exact .word (w := (pyStr "Infinity",.float infBits)) (by simp [words])
  · exact .word (w := (pyStr "-Infinity",.float negInfBits)) (by simp [words])
  · exact .word (w := (pyStr "NaN",.float nanBits)) (by simp [words])

/-- A written text, up to and with its closing quote. -/
theorem dumpsText_eq (s : PyStr) : dumpsText s=0x22::(s.flatMap escapeCodePoint++[0x22]) := by
  rw [dumpsText,List.append_assoc]
  rfl

/-- One space, as the separators leave it. -/
theorem spaces_one : Spaces [0x20] := by
  intro c hc
  rw [List.mem_singleton.mp hc]
  decide

/-- No space. -/
theorem spaces_nil : Spaces [] := fun _ hc => nomatch hc

/-- The last member is the one before the brace. -/
theorem writes_lastMember {key a : PyStr} {value : Json} (hkey : separated key=true)
    (ha : Writes (some intMaxStrDigits) codec.parseFloat a (.value value)) :
    Writes (some intMaxStrDigits) codec.parseFloat (dumpsText key++(pyStr ": "++(a++pyStr "\x7d"))) (.members [(key,value)]) := by
  have hmember := Writes.lastMember (units_text key) spaces_nil spaces_one ha spaces_nil
  rw [joinSurrogates_unitsOf hkey] at hmember
  rw [dumpsText_eq]
  exact hmember

/-- A member before another one. -/
theorem writes_nextMember {key a b : PyStr} {value : Json} {fields : List (PyStr × Json)}
    (hkey : separated key=true) (ha : Writes (some intMaxStrDigits) codec.parseFloat a (.value value))
    (hb : Writes (some intMaxStrDigits) codec.parseFloat b (.members fields)) :
    Writes (some intMaxStrDigits) codec.parseFloat (dumpsText key++(pyStr ": "++(a++(pyStr ", "++b)))) (.members ((key,value)::fields)) := by
  have hmember := Writes.nextMember (units_text key) spaces_nil spaces_one ha spaces_nil spaces_one hb
  rw [joinSurrogates_unitsOf hkey] at hmember
  rw [dumpsText_eq]
  exact hmember

mutual

/-- The text of a readable value writes the value. -/
theorem writes_render (value : Json) (h : readable value=true) :
    Writes (some intMaxStrDigits) codec.parseFloat (renderValue codec.floatRepr value) (.value value) := by
  match value with
  | .null => exact .word (w := (pyStr "null",.null)) (by simp [words])
  | .bool true => exact .word (w := (pyStr "true",.bool true)) (by simp [words])
  | .bool false => exact .word (w := (pyStr "false",.bool false)) (by simp [words])
  | .int n => exact writes_int codec h
  | .float bits =>
    simp only [readable,every,readableHere,Bool.or_eq_true,List.contains_eq_mem,List.mem_cons,List.not_mem_nil,
      or_false,decide_eq_true_eq] at h
    exact writes_float codec h
  | .str s =>
    have htext := @Writes.text (some intMaxStrDigits) codec.parseFloat _ _ (units_text s)
    rw [joinSurrogates_unitsOf h] at htext
    rw [renderValue,dumpsText_eq]
    exact htext
  | .arr [] => exact .emptyList spaces_nil
  | .arr (item::items) =>
    simp only [readable,every,everyItem,Bool.and_eq_true] at h
    rw [renderValue,List.append_assoc]
    exact .list spaces_nil (writes_items items h.2.2 item (writes_render item h.2.1))
  | .obj [] => exact .emptyDict spaces_nil
  | .obj ((key,item)::fields) =>
    simp only [readable,every,everyField,readableHere,List.all_cons,Bool.and_eq_true] at h
    have hset := @foldl_setItem [] ((key,item)::fields) (of_decide_eq_true h.1.2)
    have hmembers := writes_fields fields (by rw [h.1.1.2,h.2.2]; rfl) key item h.1.1.1 (writes_render item h.2.1)
    have hdict := Writes.dict spaces_nil hmembers
    rw [hset] at hdict
    rw [renderValue]
    simp only [List.append_assoc]
    exact hdict

/-- The text of the items behind a first one, with the text of that one. -/
theorem writes_items (items : List Json) (h : everyItem readableHere items=true) (value : Json)
    (hvalue : Writes (some intMaxStrDigits) codec.parseFloat (renderValue codec.floatRepr value) (.value value)) :
    Writes (some intMaxStrDigits) codec.parseFloat (renderValue codec.floatRepr value++renderItems codec.floatRepr items)
      (.items (value::items)) := by
  match items with
  | [] => exact .lastItem hvalue spaces_nil
  | item::items =>
    simp only [everyItem,Bool.and_eq_true] at h
    have hitems := writes_items items h.2 item (writes_render item h.1)
    rw [renderItems,List.append_assoc]
    exact .nextItem hvalue spaces_nil spaces_one hitems

/-- The text of the members behind a first one, with the text of that one. -/
theorem writes_fields (fields : List (PyStr × Json))
    (h : ((fields.all fun e => separated e.1) && everyField readableHere fields)=true) (key : PyStr) (value : Json)
    (hkey : separated key=true)
    (hvalue : Writes (some intMaxStrDigits) codec.parseFloat (renderValue codec.floatRepr value) (.value value)) :
    Writes (some intMaxStrDigits) codec.parseFloat
      (dumpsText key++(pyStr ": "++(renderValue codec.floatRepr value++renderFields codec.floatRepr fields)))
      (.members ((key,value)::fields)) := by
  match fields with
  | [] => exact writes_lastMember codec hkey hvalue
  | (k,item)::fields =>
    simp only [List.all_cons,everyField,Bool.and_eq_true] at h
    have hmembers := writes_fields fields (by rw [h.1.2,h.2.2]; rfl) k item h.1.1 (writes_render item h.2.1)
    rw [renderFields]
    simp only [List.append_assoc]
    exact writes_nextMember codec hkey hvalue hmembers

end

/-- A readable value is written, and its text is read back as it. -/
theorem loads_dumps {value : Json} (h : readable value=true) :
    dumps codec.floatRepr value=.ok (renderValue codec.floatRepr value) ∧
      loads codec.parseFloat (renderValue codec.floatRepr value)=.ok value := by
  have hprintable : printable value=true := by
    rw [readable_eq,Bool.and_eq_true,Bool.and_eq_true] at h
    exact h.1.1
  refine ⟨by rw [dumps,if_pos hprintable],loads_iff.mpr ?_⟩
  exact ⟨[],_,[],spaces_nil,spaces_nil,by rw [List.nil_append,List.append_nil],writes_render codec value h⟩

end RoundTrip

/-- The bits of 0.5. -/
def halfBits : UInt64 := 0x3FE0000000000000

/-- A codec that writes one float as Python does and every other one by its bits. -/
def sampleCodec : FloatCodec where
  floatRepr bits := if bits=halfBits then pyStr "0.5" else natDigits bits.toNat++pyStr ".0"
  parseFloat text := if text=pyStr "0.5" then halfBits else UInt64.ofNat (digitsValue (spanDigits text).1)
  isNumber bits _ := by
    have htenth : ∀ d : Fin 0x110000,isDigit d=true → isFraction [0x2E,d] := fun d hd =>
      .inr ⟨[d],⟨List.cons_ne_nil _ _,fun c hc => by rw [List.mem_singleton.mp hc]; exact hd⟩,rfl⟩
    by_cases hhalf : bits=halfBits
    · exact ⟨[],[0x30],[0x2E,0x35],[],⟨.inl rfl,.inl rfl,htenth _ (by decide),.inl rfl⟩,by decide,if_pos hhalf⟩
    · refine ⟨[],natDigits bits.toNat,[0x2E,0x30],[],
        ⟨.inl rfl,(natDigits_whole _).1,htenth _ (by decide),.inl rfl⟩,by decide,?_⟩
      rw [if_neg hhalf,List.append_nil]
      rfl
  reads bits _ := by
    by_cases hhalf : bits=halfBits
    · rw [if_pos hhalf,if_pos rfl,hhalf]
    · have hother : natDigits bits.toNat++pyStr ".0"≠pyStr "0.5" := by
        intro heq
        have hlast := congrArg List.getLast? heq
        rw [List.getLast?_append_of_ne_nil _ (show pyStr ".0"≠[] by decide)] at hlast
        exact absurd hlast (by decide)
      obtain ⟨_,hvalue,⟨_,hdigits⟩,_⟩ := natDigits_whole bits.toNat
      have hspan := @spanDigits_append _ (pyStr ".0") hdigits fun c hc => by
        cases hc
        decide
      rw [if_neg hhalf,if_neg hother,hspan,hvalue]
      exact UInt64.ofNat_toNat

end GenericMlCache.JsonRoundTrip
