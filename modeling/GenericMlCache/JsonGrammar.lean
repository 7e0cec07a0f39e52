import GenericMlCache.JsonText

/-!
# The grammar of a JSON text

Which texts the scanner reads as which values, without fuel and without the rest
of the text: it reads nothing else, and it reads every text of the grammar off the
front of a longer one, as long as no character behind it carries a number on.
-/

namespace GenericMlCache.JsonGrammar

open PythonText ExecutionModel JsonText

/-- A word is found in front of any text. -/
theorem expect_append (word rest : PyStr) : expect word (word++rest)=some rest := by
  have hprefix : word.isPrefixOf (word++rest)=true := List.isPrefixOf_iff_prefix.mpr ⟨rest,rfl⟩
  rw [expect,if_pos hprefix,List.drop_left]

/-- A word is not found where another character stands. -/
theorem expect_of_ne {c d : Fin 0x110000} (word rest : PyStr) (h : c≠d) : expect (c::word) (d::rest)=none := by
  have hprefix : (c::word).isPrefixOf (d::rest)≠true := by
    intro hpos
    obtain ⟨tail,htail⟩ := List.isPrefixOf_iff_prefix.mp hpos
    exact h (List.cons.inj htail).1
  rw [expect,if_neg hprefix]

/-- Nothing is skipped in front of a character that is no space. -/
theorem skipSpace_of_not {c : Fin 0x110000} {rest : PyStr} (h : isJsonSpace c=false) :
    skipSpace (c::rest)=c::rest := by
  rw [skipSpace,List.dropWhile_cons_of_neg (by simp only [h,Bool.false_eq_true,not_false_eq_true])]

/-- The closing quote ends the units. -/
theorem literalUnits_close (rest : PyStr) : literalUnits (0x22::rest)=.ok ([],rest) := by
  rw [literalUnits.eq_def]
  exact if_pos rfl

/-- The scanner reads a two-character escape. -/
theorem literalUnits_shortEscape {e d : Fin 0x110000} (hu : e≠0x75) (h : shortEscape e=some d) (rest : PyStr) :
    literalUnits (0x5C::e::rest)=consScan (d,false) (literalUnits rest) := by
  rw [literalUnits.eq_def]
  simp only [show (0x5C : Fin 0x110000)≠0x22 by decide,if_false,if_true,hu,h]

/-- The scanner reads a character that stands for itself. -/
theorem literalUnits_plain {c : Fin 0x110000} (hquote : c≠0x22) (hslash : c≠0x5C) (h : 0x20 ≤ c.val)
    (rest : PyStr) : literalUnits (c::rest)=consScan (c,false) (literalUnits rest) := by
  rw [literalUnits.eq_def]
  have hcontrol : ¬c.val < 0x20 := by omega
  simp only [hquote,hslash,hcontrol,if_false]

/-- The units that a text writes, up to and with its closing quote. -/
inductive Units : PyStr → List LiteralUnit → Prop where
  | close : Units [0x22] []
  | plain {c : Fin 0x110000} {a : PyStr} {units : List LiteralUnit} : c≠0x22 → c≠0x5C → 0x20 ≤ c.val →
      Units a units → Units (c::a) ((c,false)::units)
  | short {e d : Fin 0x110000} {a : PyStr} {units : List LiteralUnit} : e≠0x75 → shortEscape e=some d →
      Units a units → Units (0x5C::e::a) ((d,false)::units)
  | unicode {h₁ h₂ h₃ h₄ unit : Fin 0x110000} {a : PyStr} {units : List LiteralUnit} :
      hexUnit h₁ h₂ h₃ h₄=some unit → Units a units → Units (0x5C::0x75::h₁::h₂::h₃::h₄::a) ((unit,true)::units)

/-- What was put in front of a scan that succeeded. -/
theorem consScan_ok {α : Type} {item : α} {scan : Scan (List α)} {items : List α} {rest : PyStr}
    (h : consScan item scan=.ok (items,rest)) : ∃ tail,scan=.ok (tail,rest) ∧ items=item::tail := by
  cases scan with
  | error e => exact nomatch h
  | ok r =>
    cases Except.ok.inj h
    exact ⟨r.1,rfl,rfl⟩

/-- The scanner reads what the text writes. -/
theorem units_of_scan {text : PyStr} {units : List LiteralUnit} {rest : PyStr}
    (h : literalUnits text=.ok (units,rest)) : ∃ a,text=a++rest ∧ Units a units := by
  fun_induction literalUnits text generalizing units with
  | case1 => exact nomatch h
  | case2 =>
    cases Except.ok.inj h
    exact ⟨[0x22],rfl,.close⟩
  | case3 => exact nomatch h
  | case4 h₁ h₂ h₃ h₄ behind unit hunit _ ih =>
    obtain ⟨tail,htail,rfl⟩ := consScan_ok h
    obtain ⟨a,rfl,ha⟩ := ih htail
    exact ⟨0x5C::0x75::h₁::h₂::h₃::h₄::a,rfl,.unicode hunit ha⟩
  | case5 => exact nomatch h
  | case6 => exact nomatch h
  | case7 e tail hu d hd _ ih =>
    obtain ⟨units',hunits,rfl⟩ := consScan_ok h
    obtain ⟨a,rfl,ha⟩ := ih hunits
    exact ⟨0x5C::e::a,rfl,.short hu hd ha⟩
  | case8 => exact nomatch h
  | case9 => exact nomatch h
  | case10 c rest' hc hslash hcontrol ih =>
    obtain ⟨tail,htail,rfl⟩ := consScan_ok h
    obtain ⟨a,rfl,ha⟩ := ih htail
    exact ⟨c::a,rfl,.plain hc hslash (by omega) ha⟩

/-- It reads all of it off the front of a text. -/
theorem scan_of_units {a : PyStr} {units : List LiteralUnit} (h : Units a units) (rest : PyStr) :
    literalUnits (a++rest)=.ok (units,rest) := by
  induction h with
  | close => exact literalUnits_close rest
  | plain hquote hslash hcontrol _ ih =>
    rw [List.cons_append,literalUnits_plain hquote hslash hcontrol,ih]
    rfl
  | short hu hd _ ih =>
    rw [List.cons_append,List.cons_append,literalUnits_shortEscape hu hd,ih]
    rfl
  | unicode hunit _ ih =>
    simp only [List.cons_append]
    rw [literalUnits.eq_def]
    simp only [show (0x5C : Fin 0x110000)≠0x22 by decide,if_false,if_true,hunit,ih]
    rfl

/-- A text whose first character does not carry a number on. -/
def numberEnd (rest : PyStr) : Prop :=
  ∀ c ∈ rest.head?,isDigit c=false ∧ c≠0x2E ∧ c≠0x65 ∧ c≠0x45

/-- Digits, at least one. -/
def isDigits (digits : PyStr) : Prop := digits≠[] ∧ ∀ c ∈ digits,isDigit c=true

/-- A whole part: a zero, or digits that start with another one. -/
def isWhole (whole : PyStr) : Prop := whole=[0x30] ∨ isDigits whole ∧ whole.head?≠some 0x30

/-- A fraction part, or none. -/
def isFraction (fraction : PyStr) : Prop := fraction=[] ∨ ∃ digits,isDigits digits ∧ fraction=0x2E::digits

/-- An exponent part, or none. -/
def isExponent (exponent : PyStr) : Prop :=
  exponent=[] ∨ ∃ mark sign digits,(mark=0x65 ∨ mark=0x45) ∧ (sign=[] ∨ sign=[0x2B] ∨ sign=[0x2D]) ∧
    isDigits digits ∧ exponent=mark::(sign++digits)

/-- The digits end where no digit follows. -/
theorem spanDigits_append {digits rest : PyStr} (h : ∀ c ∈ digits,isDigit c=true)
    (hrest : ∀ c ∈ rest.head?,isDigit c=false) : spanDigits (digits++rest)=(digits,rest) := by
  induction digits with
  | nil =>
    cases rest with
    | nil => rfl
    | cons c rest =>
      have hc : isDigit c=false := hrest c rfl
      rw [List.nil_append,spanDigits,List.takeWhile_cons_of_neg (by simp only [hc,Bool.false_eq_true,not_false_eq_true]),
        List.dropWhile_cons_of_neg (by simp only [hc,Bool.false_eq_true,not_false_eq_true])]
  | cons c digits ih =>
    have hc : isDigit c=true := h c List.mem_cons_self
    have htail := ih fun d hd => h d (List.mem_cons_of_mem c hd)
    simp only [spanDigits,Prod.mk.injEq] at htail
    rw [List.cons_append,spanDigits,List.takeWhile_cons_of_pos hc,List.dropWhile_cons_of_pos hc,htail.1,htail.2]

/-- A whole part is read up to its end. -/
theorem numberWhole_append {whole rest : PyStr} (h : isWhole whole)
    (hrest : ∀ c ∈ rest.head?,isDigit c=false) : numberWhole (whole++rest)=some (whole,rest) := by
  rcases h with rfl | ⟨⟨hne,hdigits⟩,hzero⟩
  · rfl
  · cases whole with
    | nil => exact absurd rfl hne
    | cons c whole =>
      have hc : c≠0x30 := fun h => hzero (by rw [h]; rfl)
      have hread := spanDigits_append hdigits hrest
      rw [List.cons_append] at hread
      rw [List.cons_append,numberWhole,if_neg hc,if_pos (hdigits c List.mem_cons_self),hread]

/-- A fraction part is read up to its end. -/
theorem numberFraction_append {fraction rest : PyStr} (h : isFraction fraction)
    (hrest : ∀ c ∈ rest.head?,isDigit c=false ∧ c≠0x2E) :
    numberFraction (fraction++rest)=(fraction,rest) := by
  rcases h with rfl | ⟨digits,⟨hne,hdigits⟩,rfl⟩
  · cases rest with
    | nil => rfl
    | cons c rest =>
      rw [List.nil_append,numberFraction,if_neg fun hpoint => (hrest c rfl).2 hpoint.1]
  · have hread := spanDigits_append hdigits fun c hc => (hrest c hc).1
    rw [List.cons_append,numberFraction,hread,if_pos ⟨rfl,hne⟩]

/-- An exponent part is read up to its end. -/
theorem numberExponent_append {exponent rest : PyStr} (h : isExponent exponent) (hrest : numberEnd rest) :
    numberExponent (exponent++rest)=(exponent,rest) := by
  rcases h with rfl | ⟨mark,sign,digits,hmark,hsign,⟨hne,hdigits⟩,rfl⟩
  · cases rest with
    | nil => rfl
    | cons c rest =>
      have hc := hrest c rfl
      have hmark : ¬((c=0x65 ∨ c=0x45) ∧ (spanDigits (exponentSign rest).2).1≠[]) := by
        rintro ⟨rfl | rfl,_⟩
        · exact hc.2.2.1 rfl
        · exact hc.2.2.2 rfl
      rw [List.nil_append,numberExponent]
      exact if_neg hmark
  · have hread := spanDigits_append hdigits fun c hc => (hrest c hc).1
    have hsigned : exponentSign (sign++digits++rest)=(sign,digits++rest) := by
      rcases hsign with rfl | rfl | rfl
      · cases digits with
        | nil => exact absurd rfl hne
        | cons c digits =>
          have hc : isDigit c=true := hdigits c List.mem_cons_self
          have hplain : ¬(c=0x2B ∨ c=0x2D) := by
            rintro (rfl | rfl) <;> exact absurd hc (by decide)
          exact if_neg hplain
      · rfl
      · rfl
    rw [List.cons_append,numberExponent,hsigned,hread]
    exact if_pos ⟨hmark,hne⟩

/-- A number in front of a text. -/
structure NumberText (sign whole fraction exponent : PyStr) : Prop where
  /-- A minus, or nothing. -/
  isSign : sign=[] ∨ sign=[0x2D]
  /-- The digits in front of the point. -/
  whole : isWhole whole
  /-- The fraction, or nothing. -/
  fraction : isFraction fraction
  /-- The exponent, or nothing. -/
  exponent : isExponent exponent

/-- The parts of a number are read one after the other. -/
theorem matchNumber_append {limit : Option ℕ} {parseFloat : PyStr → UInt64} {sign whole fraction exponent rest : PyStr}
    (h : NumberText sign whole fraction exponent) (hrest : numberEnd rest) :
    matchNumber limit parseFloat (sign++(whole++(fraction++(exponent++rest))))=
      if fraction=[] ∧ exponent=[] then (intOfDigits limit sign whole).map fun n => (n,fraction++(exponent++rest))
      else .ok (.float (parseFloat (sign++whole++fraction++exponent)),rest) := by
  have hexponent : ∀ c ∈ (exponent++rest).head?,isDigit c=false ∧ c≠0x2E := by
    rcases h.exponent with rfl | ⟨mark,s,digits,hmark,_,_,rfl⟩
    · exact fun c hc => ⟨(hrest c hc).1,(hrest c hc).2.1⟩
    · intro c hc
      cases hc
      rcases hmark with rfl | rfl <;> decide
  have hfraction : ∀ c ∈ (fraction++(exponent++rest)).head?,isDigit c=false := by
    rcases h.fraction with rfl | ⟨digits,_,rfl⟩
    · exact fun c hc => (hexponent c hc).1
    · intro c hc
      cases hc
      decide
  have hsign : numberSign (sign++(whole++(fraction++(exponent++rest))))=
      (sign,whole++(fraction++(exponent++rest))) := by
    rcases h.isSign with rfl | rfl
    · obtain ⟨c,tail,rfl,hc⟩ : ∃ c tail,whole=c::tail ∧ isDigit c=true := by
        rcases h.whole with rfl | ⟨⟨hne,hdigits⟩,_⟩
        · exact ⟨_,_,rfl,by decide⟩
        · cases whole with
          | nil => exact absurd rfl hne
          | cons c tail => exact ⟨c,tail,rfl,hdigits c List.mem_cons_self⟩
      have hplain : c≠0x2D := by
        rintro rfl
        exact absurd hc (by decide)
      exact if_neg hplain
    · rfl
  unfold matchNumber
  simp only [hsign,numberWhole_append h.whole hfraction,numberFraction_append h.fraction hexponent,
    numberExponent_append h.exponent hrest]

/-- The sign that is read. -/
theorem numberSign_parts (text : PyStr) : text=(numberSign text).1++(numberSign text).2 ∧
    ((numberSign text).1=[] ∨ (numberSign text).1=[0x2D]) := by
  unfold numberSign
  split
  next => exact ⟨rfl,.inl rfl⟩
  next c rest =>
    split
    next h => exact ⟨rfl,.inr (by rw [h])⟩
    next => exact ⟨rfl,.inl rfl⟩

/-- The digits that are read. -/
theorem spanDigits_parts (text : PyStr) : text=(spanDigits text).1++(spanDigits text).2 ∧
    ∀ c ∈ (spanDigits text).1,isDigit c=true :=
  ⟨List.takeWhile_append_dropWhile.symm,List.all_eq_true.mp List.all_takeWhile⟩

/-- The whole part that is read. -/
theorem numberWhole_parts {text whole rest : PyStr} (h : numberWhole text=some (whole,rest)) :
    text=whole++rest ∧ isWhole whole := by
  unfold numberWhole at h
  split at h
  next => exact nomatch h
  next c tail =>
    split at h
    next hzero =>
      cases Option.some.inj h
      exact ⟨rfl,.inl (by rw [hzero])⟩
    next hzero =>
      split at h
      next hdigit =>
        have hparts := spanDigits_parts (c::tail)
        have hwhole : (spanDigits (c::tail)).1=c::(tail.takeWhile isDigit) := List.takeWhile_cons_of_pos hdigit
        have hpair : (spanDigits (c::tail)).1=whole ∧ (spanDigits (c::tail)).2=rest := by
          rw [Option.some.inj h]
          exact ⟨rfl,rfl⟩
        rw [hpair.1,hpair.2] at hparts
        rw [hpair.1] at hwhole
        refine ⟨hparts.1,.inr ⟨⟨by rw [hwhole]; exact List.cons_ne_nil _ _,hparts.2⟩,fun hhead => hzero ?_⟩⟩
        rw [hwhole] at hhead
        exact Option.some.inj hhead
      next => exact nomatch h

/-- The fraction part that is read. -/
theorem numberFraction_parts (text : PyStr) : text=(numberFraction text).1++(numberFraction text).2 ∧
    isFraction (numberFraction text).1 := by
  unfold numberFraction
  split
  next => exact ⟨rfl,.inl rfl⟩
  next c rest =>
    have hparts := spanDigits_parts rest
    split
    next h =>
      refine ⟨?_,.inr ⟨(spanDigits rest).1,⟨h.2,hparts.2⟩,by rw [h.1]⟩⟩
      rw [List.cons_append,← hparts.1]
    next => exact ⟨rfl,.inl rfl⟩

/-- The exponent's sign that is read. -/
theorem exponentSign_parts (text : PyStr) : text=(exponentSign text).1++(exponentSign text).2 ∧
    ((exponentSign text).1=[] ∨ (exponentSign text).1=[0x2B] ∨ (exponentSign text).1=[0x2D]) := by
  unfold exponentSign
  split
  next => exact ⟨rfl,.inl rfl⟩
  next c rest =>
    split
    next h => exact ⟨rfl,.inr (h.imp (fun hc => by rw [hc]) fun hc => by rw [hc])⟩
    next => exact ⟨rfl,.inl rfl⟩

/-- The exponent part that is read. -/
theorem numberExponent_parts (text : PyStr) : text=(numberExponent text).1++(numberExponent text).2 ∧
    isExponent (numberExponent text).1 := by
  unfold numberExponent
  split
  next => exact ⟨rfl,.inl rfl⟩
  next c rest =>
    have hsign := exponentSign_parts rest
    have hparts := spanDigits_parts (exponentSign rest).2
    dsimp only
    split
    next h =>
      refine ⟨?_,.inr ⟨c,(exponentSign rest).1,(spanDigits (exponentSign rest).2).1,h.1,hsign.2,⟨h.2,hparts.2⟩,rfl⟩⟩
      rw [List.cons_append,List.append_assoc,← hparts.1,← hsign.1]
    next => exact ⟨rfl,.inl rfl⟩

/-- A number that is read. -/
theorem number_of_scan {limit : Option ℕ} {parseFloat : PyStr → UInt64} {text rest : PyStr} {value : Json}
    (h : matchNumber limit parseFloat text=.ok (value,rest)) :
    ∃ sign whole fraction exponent,NumberText sign whole fraction exponent ∧
      text=sign++(whole++(fraction++(exponent++rest))) ∧
      ((fraction=[] ∧ exponent=[]) ∧ intOfDigits limit sign whole=.ok value ∨
        ¬(fraction=[] ∧ exponent=[]) ∧ value=.float (parseFloat (sign++whole++fraction++exponent))) := by
  have hsign := numberSign_parts text
  unfold matchNumber at h
  dsimp only at h
  cases hw : numberWhole (numberSign text).2 with
  | none =>
    rw [hw] at h
    exact nomatch h
  | some w =>
    have hwhole := @numberWhole_parts _ w.1 w.2 hw
    have hfraction := numberFraction_parts w.2
    have hexponent := numberExponent_parts (numberFraction w.2).2
    rw [hw] at h
    dsimp only at h
    split at h
    next hnone =>
      cases hint : intOfDigits limit (numberSign text).1 w.1 with
      | error e =>
        rw [hint] at h
        exact nomatch h
      | ok n =>
        rw [hint] at h
        cases Except.ok.inj h
        refine ⟨(numberSign text).1,w.1,[],[],⟨hsign.2,hwhole.2,.inl rfl,.inl rfl⟩,?_,.inl ⟨⟨rfl,rfl⟩,hint⟩⟩
        simp only [List.nil_append]
        rw [← hwhole.1]
        exact hsign.1
    next hsome =>
      cases Except.ok.inj h
      refine ⟨_,w.1,(numberFraction w.2).1,(numberExponent (numberFraction w.2).2).1,
        ⟨hsign.2,hwhole.2,hfraction.2,hexponent.2⟩,?_,.inr ⟨hsome,rfl⟩⟩
      rw [← hexponent.1,← hfraction.1,← hwhole.1]
      exact hsign.1

/-- A number's first characters. -/
theorem numberText_head {sign whole fraction exponent : PyStr} (h : NumberText sign whole fraction exponent) :
    ∃ d tail,isDigit d=true ∧ whole=d::tail := by
  rcases h.whole with rfl | ⟨⟨hne,hdigits⟩,_⟩
  · exact ⟨_,_,by decide,rfl⟩
  · cases whole with
    | nil => exact absurd rfl hne
    | cons d tail => exact ⟨d,tail,hdigits d List.mem_cons_self,rfl⟩

/-- A number is none of the words. -/
theorem scanScalar_number {limit : Option ℕ} {parseFloat : PyStr → UInt64} {sign whole fraction exponent : PyStr}
    (h : NumberText sign whole fraction exponent) (rest : PyStr) :
    scanScalar limit parseFloat (sign++(whole++rest))=matchNumber limit parseFloat (sign++(whole++rest)) := by
  obtain ⟨d,tail,hd,rfl⟩ := numberText_head h
  have hne : ∀ c : Fin 0x110000,isDigit c=false → c≠d := fun c hc heq => by
    rw [heq,hd] at hc
    exact absurd hc (by decide)
  have hnone : (words.findSome? fun w => (expect w.1 (sign++(d::tail++rest))).map fun r => (w.2,r))=none := by
    rw [List.findSome?_eq_none_iff]
    intro w hw
    rw [Option.map_eq_none_iff]
    simp only [words,List.mem_cons,List.not_mem_nil,or_false] at hw
    rcases h.isSign with rfl | rfl
    · rcases hw with rfl | rfl | rfl | rfl | rfl | rfl <;> exact expect_of_ne _ _ (hne _ (by decide))
    · rcases hw with rfl | rfl | rfl | rfl | rfl | rfl
      iterate 5 exact expect_of_ne _ _ (by decide)
      -- the one word that starts with a minus sign goes on with a letter
      have hprefix : (pyStr "-Infinity").isPrefixOf ([0x2D]++(d::tail++rest))≠true := by
        intro hpos
        obtain ⟨behind,hbehind⟩ := List.isPrefixOf_iff_prefix.mp hpos
        exact hne _ (by decide) (List.cons.inj (List.cons.inj hbehind).2).1
      rw [expect,if_neg hprefix]
  rw [scanScalar,hnone]

/-- A number is scanned as one. -/
theorem scanOnce_number {limit : Option ℕ} {parseFloat : PyStr → UInt64} {sign whole fraction exponent : PyStr}
    (h : NumberText sign whole fraction exponent) (fuel : ℕ) (rest : PyStr) :
    scanOnce limit parseFloat (fuel+1) (sign++(whole++rest))=matchNumber limit parseFloat (sign++(whole++rest)) := by
  rw [← scanScalar_number h]
  obtain ⟨d,tail,hd,rfl⟩ := numberText_head h
  have hplain : ∀ (c : Fin 0x110000) (behind : PyStr),c≠0x22 → c≠0x7B → c≠0x5B →
      scanOnce limit parseFloat (fuel+1) (c::behind)=scanScalar limit parseFloat (c::behind) := by
    intro c behind h₁ h₂ h₃
    rw [scanOnce,if_neg h₁,if_neg h₂,if_neg h₃]
  have hne : ∀ c : Fin 0x110000,isDigit c=false → d≠c := fun c hc heq => by
    rw [← heq,hd] at hc
    exact absurd hc (by decide)
  rcases h.isSign with rfl | rfl
  · exact hplain d _ (hne _ (by decide)) (hne _ (by decide)) (hne _ (by decide))
  · exact hplain 0x2D _ (by decide) (by decide) (by decide)

/-- A word is scanned as what it stands for. -/
theorem scanOnce_word {limit : Option ℕ} {parseFloat : PyStr → UInt64} {w : PyStr × Json} (h : w∈words) (fuel : ℕ) (rest : PyStr) :
    scanOnce limit parseFloat (fuel+1) (w.1++rest)=.ok (w.2,rest) := by
  have hread : ∀ w ∈ words,(words.findSome? fun v => (expect v.1 (w.1++rest)).map fun r => (v.2,r))=
      some (w.2,rest) := by
    intro w hw
    simp only [words,List.mem_cons,List.not_mem_nil,or_false] at hw
    rcases hw with rfl | rfl | rfl | rfl | rfl | rfl <;> rfl
  have hscalar : scanScalar limit parseFloat (w.1++rest)=.ok (w.2,rest) := by
    rw [scanScalar,hread w h]
  rw [← hscalar]
  simp only [words,List.mem_cons,List.not_mem_nil,or_false] at h
  rcases h with rfl | rfl | rfl | rfl | rfl | rfl <;> rfl

/-- A stretch of whitespace. -/
def Spaces (ws : PyStr) : Prop := ∀ c ∈ ws,isJsonSpace c=true

/-- What is skipped is whitespace. -/
theorem skipSpace_parts (text : PyStr) : ∃ ws,Spaces ws ∧ text=ws++skipSpace text :=
  ⟨text.takeWhile isJsonSpace,List.all_eq_true.mp List.all_takeWhile,List.takeWhile_append_dropWhile.symm⟩

/-- Whitespace is skipped. -/
theorem skipSpace_append {ws : PyStr} (h : Spaces ws) (text : PyStr) : skipSpace (ws++text)=skipSpace text :=
  List.dropWhile_append_of_pos h

/-- A word that was found stands in front of the rest. -/
theorem text_of_expect {word text rest : PyStr} (h : expect word text=some rest) : text=word++rest := by
  unfold expect at h
  split at h
  next hprefix =>
    obtain ⟨tail,rfl⟩ := List.isPrefixOf_iff_prefix.mp hprefix
    rw [List.drop_left] at h
    rw [Option.some.inj h]
  next => exact nomatch h

/-- A scalar that is read is a word or a number. -/
theorem scalar_of_scan {limit : Option ℕ} {parseFloat : PyStr → UInt64} {text rest : PyStr} {value : Json}
    (h : scanScalar limit parseFloat text=.ok (value,rest)) :
    (∃ w ∈ words,text=w.1++rest ∧ value=w.2) ∨ matchNumber limit parseFloat text=.ok (value,rest) := by
  unfold scanScalar at h
  split at h
  next r hfind =>
    obtain ⟨w,hw,hexpect⟩ := List.exists_of_findSome?_eq_some hfind
    obtain ⟨tail,htail,rfl⟩ := Option.map_eq_some_iff.mp hexpect
    cases Except.ok.inj h
    exact .inl ⟨w,hw,text_of_expect htail,rfl⟩
  next => exact .inr h

/-- What a stretch of a text is read as: a value, the items of a list up to its
bracket, or the members of a dict up to its brace. -/
inductive Part where
  | value (v : Json)
  | items (l : List Json)
  | members (l : List (PyStr × Json))

section Grammar
variable (limit : Option ℕ) (parseFloat : PyStr → UInt64)

/-- The texts that write a part. -/
inductive Writes : PyStr → Part → Prop where
  | text {a : PyStr} {units : List LiteralUnit} : Units a units →
      Writes (0x22::a) (.value (.str (joinSurrogates units)))
  | word {w : PyStr × Json} : w∈words → Writes w.1 (.value w.2)
  | int {sign whole : PyStr} {v : Json} : NumberText sign whole [] [] → intOfDigits limit sign whole=.ok v →
      Writes (sign++whole) (.value v)
  | float {sign whole fraction exponent : PyStr} : NumberText sign whole fraction exponent →
      ¬(fraction=[] ∧ exponent=[]) → Writes (sign++(whole++(fraction++exponent)))
        (.value (.float (parseFloat (sign++whole++fraction++exponent))))
  | emptyList {ws : PyStr} : Spaces ws → Writes (0x5B::(ws++[0x5D])) (.value (.arr []))
  | list {ws a : PyStr} {l : List Json} : Spaces ws → Writes a (.items l) →
      Writes (0x5B::(ws++a)) (.value (.arr l))
  | emptyDict {ws : PyStr} : Spaces ws → Writes (0x7B::(ws++[0x7D])) (.value (.obj []))
  | dict {ws a : PyStr} {l : List (PyStr × Json)} : Spaces ws → Writes a (.members l) →
      Writes (0x7B::(ws++a)) (.value (.obj (l.foldl setItem [])))
  | lastItem {a ws : PyStr} {v : Json} : Writes a (.value v) → Spaces ws → Writes (a++(ws++[0x5D])) (.items [v])
  | nextItem {a ws ws' b : PyStr} {v : Json} {l : List Json} : Writes a (.value v) → Spaces ws → Spaces ws' →
      Writes b (.items l) → Writes (a++(ws++(0x2C::(ws'++b)))) (.items (v::l))
  | lastMember {k ws ws' a ws'' : PyStr} {units : List LiteralUnit} {v : Json} : Units k units → Spaces ws →
      Spaces ws' → Writes a (.value v) → Spaces ws'' →
      Writes (0x22::(k++(ws++(0x3A::(ws'++(a++(ws''++[0x7D]))))))) (.members [(joinSurrogates units,v)])
  | nextMember {k ws ws' a ws'' ws₄ b : PyStr} {units : List LiteralUnit} {v : Json} {l : List (PyStr × Json)} :
      Units k units → Spaces ws → Spaces ws' → Writes a (.value v) → Spaces ws'' → Spaces ws₄ →
      Writes b (.members l) → Writes (0x22::(k++(ws++(0x3A::(ws'++(a++(ws''++(0x2C::(ws₄++b)))))))))
        (.members ((joinSurrogates units,v)::l))

/-- That the scanner reads a part off the front of a text. -/
def Scans (fuel : ℕ) (text : PyStr) : Part → PyStr → Prop
  | .value v,rest => scanOnce limit parseFloat fuel text=.ok (v,rest)
  | .items l,rest => scanItems limit parseFloat fuel text=.ok (l,rest)
  | .members l,rest => scanMembers limit parseFloat fuel text=.ok (l,rest)

variable {limit parseFloat}

/-- What was read before a scan went on. -/
theorem scanThen_ok {α β : Type} {scan : Scan α} {next : α → PyStr → Scan β} {r : β × PyStr}
    (h : scanThen scan next=.ok r) : ∃ a mid,scan=.ok (a,mid) ∧ next a mid=.ok r := by
  cases scan with
  | error e => exact nomatch h
  | ok p => exact ⟨p.1,p.2,rfl,h⟩

/-- What a mapped scan read. -/
theorem map_ok {α β : Type} {scan : Scan α} {f : α × PyStr → β × PyStr} {r : β × PyStr}
    (h : scan.map f=.ok r) : ∃ a mid,scan=.ok (a,mid) ∧ f (a,mid)=r := by
  cases scan with
  | error e => exact nomatch h
  | ok p => exact ⟨p.1,p.2,rfl,Except.ok.inj h⟩

/-- A literal that is read. -/
theorem text_of_scan {text rest s : PyStr} (h : scanString text=.ok (s,rest)) :
    ∃ a units,text=a++rest ∧ Units a units ∧ s=joinSurrogates units := by
  obtain ⟨units,mid,hunits,hs⟩ := map_ok h
  cases hs
  obtain ⟨a,htext,ha⟩ := units_of_scan hunits
  exact ⟨a,units,htext,ha,rfl⟩

/-- A literal is read off the front of a text. -/
theorem scan_of_text {a : PyStr} {units : List LiteralUnit} (h : Units a units) (rest : PyStr) :
    scanString (a++rest)=.ok (joinSurrogates units,rest) := by
  rw [scanString,scan_of_units h]
  rfl

/-- The scanner reads what the text writes, a value at a time. -/
theorem writes_of_scanOnce {fuel : ℕ} {text rest : PyStr} {v : Json}
    (ih : ∀ text p rest,Scans limit parseFloat fuel text p rest → ∃ a,text=a++rest ∧ Writes limit parseFloat a p)
    (h : scanOnce limit parseFloat (fuel+1) text=.ok (v,rest)) : ∃ a,text=a++rest ∧ Writes limit parseFloat a (.value v) := by
  cases text with
  | nil => exact nomatch h
  | cons c body =>
    rw [scanOnce] at h
    obtain ⟨ws,hws,hbody⟩ := skipSpace_parts body
    split at h
    next hc =>
      obtain ⟨s,mid,hs,heq⟩ := map_ok h
      cases heq
      obtain ⟨a,units,rfl,ha,rfl⟩ := text_of_scan hs
      exact ⟨0x22::a,by rw [hc]; rfl,.text ha⟩
    split at h
    next _ hc =>
      split at h
      next tail htail =>
        cases Except.ok.inj h
        rw [text_of_expect htail] at hbody
        exact ⟨0x7B::(ws++[0x7D]),by rw [hc,hbody,List.cons_append,List.append_assoc]; rfl,.emptyDict hws⟩
      next =>
        obtain ⟨l,mid,hl,heq⟩ := map_ok h
        cases heq
        obtain ⟨a,ha,hwrites⟩ := ih _ (.members l) _ hl
        rw [ha] at hbody
        exact ⟨0x7B::(ws++a),by rw [hc,hbody]; simp,.dict hws hwrites⟩
    split at h
    next _ _ hc =>
      split at h
      next tail htail =>
        cases Except.ok.inj h
        rw [text_of_expect htail] at hbody
        exact ⟨0x5B::(ws++[0x5D]),by rw [hc,hbody,List.cons_append,List.append_assoc]; rfl,.emptyList hws⟩
      next =>
        obtain ⟨l,mid,hl,heq⟩ := map_ok h
        cases heq
        obtain ⟨a,ha,hwrites⟩ := ih _ (.items l) _ hl
        rw [ha] at hbody
        exact ⟨0x5B::(ws++a),by rw [hc,hbody]; simp,.list hws hwrites⟩
    next =>
      rcases scalar_of_scan h with ⟨w,hw,htext,rfl⟩ | hnumber
      · exact ⟨w.1,htext,.word hw⟩
      · obtain ⟨sign,whole,fraction,exponent,hn,htext,⟨⟨rfl,rfl⟩,hint⟩ | ⟨hsome,rfl⟩⟩ := number_of_scan hnumber
        · exact ⟨sign++whole,by rw [htext]; simp,.int hn hint⟩
        · exact ⟨_,by rw [htext]; simp,.float hn hsome⟩

/-- The scanner reads what the text writes, an item at a time. -/
theorem writes_of_scanItems {fuel : ℕ} {text rest : PyStr} {l : List Json}
    (ih : ∀ text p rest,Scans limit parseFloat fuel text p rest → ∃ a,text=a++rest ∧ Writes limit parseFloat a p)
    (h : scanItems limit parseFloat (fuel+1) text=.ok (l,rest)) : ∃ a,text=a++rest ∧ Writes limit parseFloat a (.items l) := by
  rw [scanItems] at h
  obtain ⟨v,mid,hv,hnext⟩ := scanThen_ok h
  obtain ⟨a,htext,ha⟩ := ih _ (.value v) _ hv
  obtain ⟨ws,hws,hmid⟩ := skipSpace_parts mid
  clear h
  split at hnext
  next tail htail =>
    cases Except.ok.inj hnext
    rw [text_of_expect htail] at hmid
    exact ⟨a++(ws++[0x5D]),by rw [htext,hmid,List.append_assoc,List.append_assoc]; rfl,.lastItem ha hws⟩
  next =>
    split at hnext
    next tail htail =>
      obtain ⟨items,hitems,rfl⟩ := consScan_ok hnext
      obtain ⟨b,hb,hwrites⟩ := ih _ (.items items) _ hitems
      obtain ⟨ws',hws',htail'⟩ := skipSpace_parts tail
      rw [text_of_expect htail] at hmid
      rw [hb] at htail'
      rw [htail'] at hmid
      refine ⟨a++(ws++(0x2C::(ws'++b))),?_,.nextItem ha hws hws' hwrites⟩
      rw [htext,hmid]
      simp only [List.append_assoc,List.cons_append]
      rfl
    next => exact nomatch hnext

/-- The scanner reads what the text writes, a member at a time. -/
theorem writes_of_scanMembers {fuel : ℕ} {text rest : PyStr} {l : List (PyStr × Json)}
    (ih : ∀ text p rest,Scans limit parseFloat fuel text p rest → ∃ a,text=a++rest ∧ Writes limit parseFloat a p)
    (h : scanMembers limit parseFloat (fuel+1) text=.ok (l,rest)) :
    ∃ a,text=a++rest ∧ Writes limit parseFloat a (.members l) := by
  rw [scanMembers] at h
  split at h
  next => exact nomatch h
  next body hbody =>
    obtain ⟨key,mid,hkey,hnext⟩ := scanThen_ok h
    obtain ⟨k,units,hbody',hk,rfl⟩ := text_of_scan hkey
    obtain ⟨ws,hws,hmid⟩ := skipSpace_parts mid
    rw [hbody'] at hbody
    clear h
    split at hnext
    next => exact nomatch hnext
    next behind hcolon =>
      obtain ⟨v,mid',hv,hlast⟩ := scanThen_ok hnext
      clear hnext
      obtain ⟨a,ha,hwrites⟩ := ih _ (.value v) _ hv
      obtain ⟨ws',hws',hbehind⟩ := skipSpace_parts behind
      obtain ⟨ws'',hws'',hmid'⟩ := skipSpace_parts mid'
      rw [ha] at hbehind
      rw [text_of_expect hcolon,hbehind] at hmid
      split at hlast
      next tail htail =>
        cases Except.ok.inj hlast
        rw [text_of_expect htail] at hmid'
        refine ⟨0x22::(k++(ws++(0x3A::(ws'++(a++(ws''++[0x7D])))))),?_,.lastMember hk hws hws' hwrites hws''⟩
        rw [text_of_expect hbody,hmid,hmid']
        simp only [List.append_assoc,List.cons_append]
        rfl
      next =>
        split at hlast
        next tail htail =>
          obtain ⟨members,hmembers,rfl⟩ := consScan_ok hlast
          obtain ⟨b,hb,hrest⟩ := ih _ (.members members) _ hmembers
          obtain ⟨ws₄,hws₄,htail'⟩ := skipSpace_parts tail
          rw [hb] at htail'
          rw [text_of_expect htail,htail'] at hmid'
          refine ⟨0x22::(k++(ws++(0x3A::(ws'++(a++(ws''++(0x2C::(ws₄++b)))))))),?_,
            .nextMember hk hws hws' hwrites hws'' hws₄ hrest⟩
          rw [text_of_expect hbody,hmid,hmid']
          simp only [List.append_assoc,List.cons_append]
          rfl
        next => exact nomatch hlast

/-- The scanner reads what the text writes. -/
theorem writes_of_scan (fuel : ℕ) : ∀ text p rest,Scans limit parseFloat fuel text p rest →
    ∃ a,text=a++rest ∧ Writes limit parseFloat a p := by
  induction fuel with
  | zero =>
    intro text p rest h
    cases p with
    | value v => exact nomatch h
    | items l => exact nomatch h
    | members l => exact nomatch h
  | succ fuel ih =>
    intro text p rest h
    cases p with
    | value v => exact writes_of_scanOnce ih h
    | items l => exact writes_of_scanItems ih h
    | members l => exact writes_of_scanMembers ih h

/-- What the text of a part starts with. -/
def startsPart (c : Fin 0x110000) : Part → Prop
  | .value _ | .items _ => isJsonSpace c=false ∧ c≠0x5D ∧ c≠0xFEFF
  | .members _ => c=0x22

/-- A number starts with a digit or a minus sign. -/
theorem number_starts {sign whole fraction exponent : PyStr} (h : NumberText sign whole fraction exponent)
    (rest : PyStr) : ∃ c tail,sign++(whole++rest)=c::tail ∧ (isDigit c=true ∨ c=0x2D) := by
  obtain ⟨d,digits,hd,rfl⟩ := numberText_head h
  rcases h.isSign with rfl | rfl
  · exact ⟨d,_,rfl,.inl hd⟩
  · exact ⟨0x2D,_,rfl,.inr rfl⟩

/-- Such a character opens a value. -/
theorem startsPart_of_digit {c : Fin 0x110000} (h : isDigit c=true ∨ c=0x2D) :
    isJsonSpace c=false ∧ c≠0x5D ∧ c≠0xFEFF := by
  rcases h with hd | rfl
  · have hne : ∀ d : Fin 0x110000,isDigit d=false → c≠d := fun d hd' heq => by
      rw [← heq,hd] at hd'
      exact absurd hd' (by decide)
    refine ⟨?_,hne _ (by decide),hne _ (by decide)⟩
    simp only [isDigit,Bool.and_eq_true,decide_eq_true_eq] at hd
    simp only [isJsonSpace,List.contains_eq_mem,List.mem_cons,List.not_mem_nil,or_false,
      decide_eq_false_iff_not]
    omega
  · decide

/-- Every part starts with a character of its own. -/
theorem writes_starts {a : PyStr} {p : Part} (h : Writes limit parseFloat a p) :
    ∃ c tail,a=c::tail ∧ startsPart c p := by
  induction h with
  | text => exact ⟨_,_,rfl,by decide,by decide,by decide⟩
  | word hw =>
    simp only [words,List.mem_cons,List.not_mem_nil,or_false] at hw
    rcases hw with rfl | rfl | rfl | rfl | rfl | rfl <;> exact ⟨_,_,rfl,by decide,by decide,by decide⟩
  | int hn =>
    obtain ⟨c,tail,hc,hstart⟩ := number_starts hn []
    rw [List.append_nil] at hc
    exact ⟨c,tail,hc,startsPart_of_digit hstart⟩
  | float hn =>
    obtain ⟨c,tail,hc,hstart⟩ := number_starts hn _
    exact ⟨c,tail,hc,startsPart_of_digit hstart⟩
  | emptyList | list | emptyDict | dict => exact ⟨_,_,rfl,by decide,by decide,by decide⟩
  | lastItem _ _ ih =>
    obtain ⟨c,tail,rfl,hc⟩ := ih
    exact ⟨c,_,rfl,hc⟩
  | nextItem _ _ _ _ ih =>
    obtain ⟨c,tail,rfl,hc⟩ := ih
    exact ⟨c,_,rfl,hc⟩
  | lastMember | nextMember => exact ⟨_,_,rfl,rfl⟩

/-- The fuel with which a part is read off the front of any text. -/
def enoughFuel (a : PyStr) : Part → ℕ
  | .value _ => 2*a.length
  | .items _ | .members _ => 2*a.length+1

/-- Whether any text may follow a part: a list's items and a dict's members are
closed, a value may be a number. -/
def mayFollow (rest : PyStr) : Part → Prop
  | .value _ => numberEnd rest
  | .items _ | .members _ => True

/-- Whitespace before something that ends a number ends it too. -/
theorem numberEnd_spaces {ws rest : PyStr} (h : Spaces ws) (hrest : numberEnd rest) : numberEnd (ws++rest) := by
  cases ws with
  | nil => exact hrest
  | cons c ws =>
    intro d hd
    cases hd
    have hspace := h c List.mem_cons_self
    simp only [isJsonSpace,List.contains_eq_mem,List.mem_cons,List.not_mem_nil,or_false,decide_eq_true_eq] at hspace
    have hval : ∀ d : Fin 0x110000,d.val≠c.val → c≠d := fun d hd heq => hd (by rw [heq])
    refine ⟨?_,hval _ (by rcases hspace with h | h | h | h <;> rw [h] <;> decide),
      hval _ (by rcases hspace with h | h | h | h <;> rw [h] <;> decide),
      hval _ (by rcases hspace with h | h | h | h <;> rw [h] <;> decide)⟩
    simp only [isDigit,Bool.and_eq_false_iff,decide_eq_false_iff_not]
    omega

/-- What stands behind whitespace is found. -/
theorem expect_spaces {ws : PyStr} (h : Spaces ws) {c : Fin 0x110000} (hc : isJsonSpace c=false) (rest : PyStr) :
    expect [c] (skipSpace (ws++(c::rest)))=some rest := by
  rw [skipSpace_append h,skipSpace_of_not hc]
  exact expect_append [c] rest

/-- Something else is not. -/
theorem expect_spaces_of_ne {ws : PyStr} (h : Spaces ws) {c d : Fin 0x110000} (hd : isJsonSpace d=false)
    (hne : c≠d) (rest : PyStr) : expect [c] (skipSpace (ws++(d::rest)))=none := by
  rw [skipSpace_append h,skipSpace_of_not hd]
  exact expect_of_ne [] rest hne

/-- A list is read with its items. -/
theorem scanOnce_list {ws a rest : PyStr} {l : List Json} {fuel : ℕ} (hws : Spaces ws)
    (ha : Writes limit parseFloat a (.items l)) (h : scanItems limit parseFloat fuel (a++rest)=.ok (l,rest)) :
    scanOnce limit parseFloat (fuel+1) (0x5B::(ws++(a++rest)))=.ok (.arr l,rest) := by
  obtain ⟨c,tail,rfl,hspace,hbracket,_⟩ := writes_starts ha
  have hopen : expect (pyStr "]") (skipSpace (ws++(c::tail++rest)))=none :=
    expect_spaces_of_ne hws hspace (Ne.symm hbracket) _
  rw [scanOnce,if_neg (by decide),if_neg (by decide),if_pos rfl,hopen]
  simp only [skipSpace_append hws,List.cons_append,skipSpace_of_not hspace]
  rw [List.cons_append] at h
  rw [h]
  rfl

/-- A dict is read with its members. -/
theorem scanOnce_dict {ws a rest : PyStr} {l : List (PyStr × Json)} {fuel : ℕ} (hws : Spaces ws)
    (ha : Writes limit parseFloat a (.members l)) (h : scanMembers limit parseFloat fuel (a++rest)=.ok (l,rest)) :
    scanOnce limit parseFloat (fuel+1) (0x7B::(ws++(a++rest)))=.ok (.obj (l.foldl setItem []),rest) := by
  obtain ⟨c,tail,rfl,hc⟩ := writes_starts ha
  have hquote : c=0x22 := hc
  have hspace : isJsonSpace c=false := by
    rw [hquote]
    decide
  have hopen : expect (pyStr "\x7d") (skipSpace (ws++(c::tail++rest)))=none :=
    expect_spaces_of_ne hws hspace (by rw [hquote]; decide) _
  rw [scanOnce,if_neg (by decide),if_pos rfl,hopen]
  simp only [skipSpace_append hws,List.cons_append,skipSpace_of_not hspace]
  rw [List.cons_append] at h
  rw [h]
  rfl

/-- The last item is read with the bracket. -/
theorem scanItems_last {a ws rest : PyStr} {v : Json} {fuel : ℕ} (hws : Spaces ws)
    (h : scanOnce limit parseFloat fuel (a++(ws++(0x5D::rest)))=.ok (v,ws++(0x5D::rest))) :
    scanItems limit parseFloat (fuel+1) (a++(ws++(0x5D::rest)))=.ok ([v],rest) := by
  have hclose : expect (pyStr "]") (skipSpace (ws++(0x5D::rest)))=some rest := expect_spaces hws (by decide) rest
  rw [scanItems,h]
  simp only [scanThen,Except.bind,hclose]

/-- An item is read before the other ones. -/
theorem scanItems_next {a ws ws' b rest : PyStr} {v : Json} {l : List Json} {fuel : ℕ} (hws : Spaces ws)
    (hws' : Spaces ws') (hb : Writes limit parseFloat b (.items l))
    (h : scanOnce limit parseFloat fuel (a++(ws++(0x2C::(ws'++(b++rest)))))=.ok (v,ws++(0x2C::(ws'++(b++rest)))))
    (hrest : scanItems limit parseFloat fuel (b++rest)=.ok (l,rest)) :
    scanItems limit parseFloat (fuel+1) (a++(ws++(0x2C::(ws'++(b++rest)))))=.ok (v::l,rest) := by
  obtain ⟨c,tail,rfl,hspace,_,_⟩ := writes_starts hb
  have hclose : expect (pyStr "]") (skipSpace (ws++(0x2C::(ws'++((c::tail)++rest)))))=none :=
    expect_spaces_of_ne hws (by decide) (by decide) _
  have hcomma : expect (pyStr ",") (skipSpace (ws++(0x2C::(ws'++((c::tail)++rest)))))=
      some (ws'++((c::tail)++rest)) := expect_spaces hws (by decide) _
  rw [scanItems,h]
  simp only [scanThen,Except.bind,hclose,hcomma,skipSpace_append hws']
  rw [List.cons_append] at hrest
  rw [List.cons_append,skipSpace_of_not hspace,hrest]
  rfl

/-- A member is read up to what stands behind its value. -/
theorem scanMembers_value {k ws ws' a mid : PyStr} {units : List LiteralUnit} {v : Json} {fuel : ℕ}
    (hk : Units k units) (hws : Spaces ws) (hws' : Spaces ws') (ha : Writes limit parseFloat a (.value v))
    (h : scanOnce limit parseFloat fuel (a++mid)=.ok (v,mid)) :
    scanMembers limit parseFloat (fuel+1) (0x22::(k++(ws++(0x3A::(ws'++(a++mid))))))=
      match expect (pyStr "\x7d") (skipSpace mid) with
      | some rest => .ok ([(joinSurrogates units,v)],rest)
      | none =>
        match expect (pyStr ",") (skipSpace mid) with
        | some rest => consScan (joinSurrogates units,v) (scanMembers limit parseFloat fuel (skipSpace rest))
        | none => .error .jsonDecodeError := by
  obtain ⟨c,tail,rfl,hspace,_,_⟩ := writes_starts ha
  have hquote : ∀ text,expect (pyStr "\"") (0x22::text)=some text := fun text => expect_append [0x22] text
  have hcolon : expect (pyStr ":") (skipSpace (ws++(0x3A::(ws'++((c::tail)++mid)))))=
      some (ws'++((c::tail)++mid)) := expect_spaces hws (by decide) _
  rw [scanMembers,hquote]
  simp only [scan_of_text hk,scanThen,Except.bind,hcolon,skipSpace_append hws']
  rw [List.cons_append] at h
  rw [List.cons_append,skipSpace_of_not hspace,h]
  try rfl

/-- A character that no number goes on with ends a number. -/
theorem numberEnd_cons {c : Fin 0x110000} (h : isDigit c=false ∧ c≠0x2E ∧ c≠0x65 ∧ c≠0x45) (rest : PyStr) :
    numberEnd (c::rest) := by
  intro d hd
  cases hd
  exact h

/-- The scanner reads every text of the grammar off the front of a longer one. -/
theorem scan_of_writes {a : PyStr} {p : Part} (h : Writes limit parseFloat a p) :
    ∀ fuel rest,enoughFuel a p < fuel → mayFollow rest p → Scans limit parseFloat fuel (a++rest) p rest := by
  intro fuel rest hfuel hrest
  obtain ⟨fuel,rfl⟩ : ∃ n,fuel=n+1 := ⟨fuel-1,by omega⟩
  induction h generalizing fuel rest with
  | @text a units hunits =>
    show scanOnce limit parseFloat (fuel+1) (0x22::(a++rest))=_
    rw [scanOnce,if_pos rfl,scan_of_text hunits]
    rfl
  | @word w hw => exact scanOnce_word hw fuel rest
  | @int sign whole v hn hint =>
    have hread := @matchNumber_append limit parseFloat _ _ _ _ _ hn hrest
    rw [if_pos ⟨rfl,rfl⟩] at hread
    simp only [List.nil_append] at hread
    show scanOnce limit parseFloat (fuel+1) (sign++whole++rest)=_
    rw [List.append_assoc,scanOnce_number hn,hread,hint]
    rfl
  | @float sign whole fraction exponent hn hsome =>
    have hread := @matchNumber_append limit parseFloat _ _ _ _ _ hn hrest
    rw [if_neg hsome] at hread
    show scanOnce limit parseFloat (fuel+1) (sign++(whole++(fraction++exponent))++rest)=_
    simp only [List.append_assoc] at hread ⊢
    rw [scanOnce_number hn,hread]
  | @emptyList ws hws =>
    have hclose : expect (pyStr "]") (skipSpace (ws++(0x5D::rest)))=some rest := expect_spaces hws (by decide) rest
    show scanOnce limit parseFloat (fuel+1) (0x5B::((ws++[0x5D])++rest))=_
    rw [scanOnce,if_neg (by decide),if_neg (by decide),if_pos rfl,List.append_assoc,List.singleton_append,hclose]
  | @list ws a l hws ha ih =>
    simp only [enoughFuel,List.length_cons,List.length_append] at hfuel ih
    obtain ⟨fuel,rfl⟩ : ∃ n,fuel=n+1 := ⟨fuel-1,by omega⟩
    have hitems := ih rest trivial fuel (by omega)
    show scanOnce limit parseFloat (fuel+1+1) (0x5B::((ws++a)++rest))=_
    rw [List.append_assoc]
    exact scanOnce_list hws ha hitems
  | @emptyDict ws hws =>
    have hclose : expect (pyStr "\x7d") (skipSpace (ws++(0x7D::rest)))=some rest :=
      expect_spaces hws (by decide) rest
    show scanOnce limit parseFloat (fuel+1) (0x7B::((ws++[0x7D])++rest))=_
    rw [scanOnce,if_neg (by decide),if_pos rfl,List.append_assoc,List.singleton_append,hclose]
  | @dict ws a l hws ha ih =>
    simp only [enoughFuel,List.length_cons,List.length_append] at hfuel ih
    obtain ⟨fuel,rfl⟩ : ∃ n,fuel=n+1 := ⟨fuel-1,by omega⟩
    have hmembers := ih rest trivial fuel (by omega)
    show scanOnce limit parseFloat (fuel+1+1) (0x7B::((ws++a)++rest))=_
    rw [List.append_assoc]
    exact scanOnce_dict hws ha hmembers
  | @lastItem a ws v ha hws ih =>
    simp only [enoughFuel,List.length_cons,List.length_append] at hfuel ih
    obtain ⟨fuel,rfl⟩ : ∃ n,fuel=n+1 := ⟨fuel-1,by omega⟩
    have hvalue := ih (ws++(0x5D::rest)) (numberEnd_spaces hws (numberEnd_cons (by decide) _)) fuel (by omega)
    show scanItems limit parseFloat (fuel+1+1) (a++(ws++[0x5D])++rest)=_
    rw [List.append_assoc,List.append_assoc]
    exact scanItems_last hws hvalue
  | @nextItem a ws ws' b v l ha hws hws' hb ih ih' =>
    simp only [enoughFuel,List.length_cons,List.length_append] at hfuel ih ih'
    obtain ⟨fuel,rfl⟩ : ∃ n,fuel=n+1 := ⟨fuel-1,by omega⟩
    have hvalue := ih (ws++(0x2C::(ws'++(b++rest))))
      (numberEnd_spaces hws (numberEnd_cons (by decide) _)) fuel (by omega)
    have hitems := ih' rest trivial fuel (by omega)
    show scanItems limit parseFloat (fuel+1+1) (a++(ws++(0x2C::(ws'++b)))++rest)=_
    simp only [List.append_assoc,List.cons_append]
    exact scanItems_next hws hws' hb hvalue hitems
  | @lastMember k ws ws' a ws'' units v hk hws hws' ha hws'' ih =>
    simp only [enoughFuel,List.length_cons,List.length_append] at hfuel ih
    obtain ⟨fuel,rfl⟩ : ∃ n,fuel=n+1 := ⟨fuel-1,by omega⟩
    have hvalue := ih (ws''++(0x7D::rest)) (numberEnd_spaces hws'' (numberEnd_cons (by decide) _)) fuel (by omega)
    have hclose : expect (pyStr "\x7d") (skipSpace (ws''++(0x7D::rest)))=some rest :=
      expect_spaces hws'' (by decide) rest
    have hmember := scanMembers_value hk hws hws' ha hvalue
    rw [hclose] at hmember
    show scanMembers limit parseFloat (fuel+1+1) (0x22::(k++(ws++(0x3A::(ws'++(a++(ws''++[0x7D]))))))++rest)=_
    simp only [List.append_assoc,List.cons_append,List.nil_append]
    exact hmember
  | @nextMember k ws ws' a ws'' ws₄ b units v l hk hws hws' ha hws'' hws₄ hb ih ih' =>
    simp only [enoughFuel,List.length_cons,List.length_append] at hfuel ih ih'
    obtain ⟨fuel,rfl⟩ : ∃ n,fuel=n+1 := ⟨fuel-1,by omega⟩
    have hvalue := ih (ws''++(0x2C::(ws₄++(b++rest))))
      (numberEnd_spaces hws'' (numberEnd_cons (by decide) _)) fuel (by omega)
    have hmembers := ih' rest trivial fuel (by omega)
    obtain ⟨c,tail,rfl,hc⟩ := writes_starts hb
    have hspace : isJsonSpace c=false := by
      rw [show c=0x22 from hc]
      decide
    have hclose : expect (pyStr "\x7d") (skipSpace (ws''++(0x2C::(ws₄++((c::tail)++rest)))))=none :=
      expect_spaces_of_ne hws'' (by decide) (by decide) _
    have hcomma : expect (pyStr ",") (skipSpace (ws''++(0x2C::(ws₄++((c::tail)++rest)))))=
        some (ws₄++((c::tail)++rest)) := expect_spaces hws'' (by decide) _
    have hmember := scanMembers_value hk hws hws' ha hvalue
    have hskip : skipSpace (ws₄++((c::tail)++rest))=(c::tail)++rest := by
      rw [skipSpace_append hws₄,List.cons_append,skipSpace_of_not hspace]
    have hrest : scanMembers limit parseFloat (fuel+1) ((c::tail)++rest)=.ok (l,rest) := hmembers
    simp only [hclose,hcomma,hskip,hrest] at hmember
    show scanMembers limit parseFloat (fuel+1+1) (0x22::(k++(ws++(0x3A::(ws'++(a++(ws''++(0x2C::(ws₄++(c::tail)))))))))++rest)=_
    simp only [List.append_assoc,List.cons_append] at hmember ⊢
    exact hmember

/-- Whitespace carries no number on. -/
theorem numberEnd_of_spaces {ws : PyStr} (h : Spaces ws) : numberEnd ws := by
  have hend : numberEnd (ws++[]) := numberEnd_spaces h fun c hc => nomatch hc
  rwa [List.append_nil] at hend

/-- A value with whitespace before it does not start with a byte order mark. -/
theorem no_mark {ws a : PyStr} {v : Json} (hws : Spaces ws) (ha : Writes limit parseFloat a (.value v)) (rest : PyStr) :
    ¬(expect [0xFEFF] (ws++(a++rest))).isSome=true := by
  obtain ⟨c,tail,rfl,_,_,hmark⟩ := writes_starts ha
  cases ws with
  | nil =>
    rw [List.nil_append,List.cons_append,expect_of_ne [] _ (Ne.symm hmark)]
    decide
  | cons d ws =>
    have hspace := hws d List.mem_cons_self
    have hne : (0xFEFF : Fin 0x110000)≠d := by
      intro heq
      rw [← heq] at hspace
      exact absurd hspace (by decide)
    rw [List.cons_append,expect_of_ne [] _ hne]
    decide

/-- What the scanner makes of a value behind whitespace, whatever follows that
does not carry a number on. -/
theorem scan_behind_spaces {ws a rest : PyStr} {v : Json} (hws : Spaces ws) (ha : Writes limit parseFloat a (.value v))
    (hrest : numberEnd rest) :
    scanOnce limit parseFloat (2*(ws++(a++rest)).length+1) (skipSpace (ws++(a++rest)))=.ok (v,rest) := by
  have hscan := scan_of_writes ha (2*(ws++(a++rest)).length+1) rest
    (by simp only [enoughFuel,List.length_append]; omega) hrest
  obtain ⟨c,tail,rfl,hspace,_,_⟩ := writes_starts ha
  rw [skipSpace_append hws,List.cons_append,skipSpace_of_not hspace]
  exact hscan

/-- A text is read as a value when it writes the value between whitespace. -/
theorem loads_iff {text : PyStr} {v : Json} : loadsWithin limit parseFloat text=.ok v ↔
    ∃ ws a ws',Spaces ws ∧ Spaces ws' ∧ text=ws++(a++ws') ∧ Writes limit parseFloat a (.value v) := by
  constructor
  · intro h
    unfold loadsWithin at h
    split at h
    next => exact nomatch h
    next =>
      obtain ⟨ws,hws,htext⟩ := skipSpace_parts text
      split at h
      next value rest hscan =>
        split at h
        next hend =>
          cases Except.ok.inj h
          obtain ⟨a,ha,hwrites⟩ := writes_of_scan _ _ (.value v) _ hscan
          obtain ⟨ws',hws',hrest⟩ := skipSpace_parts rest
          rw [hend,List.append_nil] at hrest
          refine ⟨ws,a,ws',hws,hws',?_,hwrites⟩
          rw [← hrest,← ha]
          exact htext
        next => exact nomatch h
      next => exact nomatch h
  · rintro ⟨ws,a,ws',hws,hws',rfl,ha⟩
    have hscan := scan_behind_spaces hws ha (numberEnd_of_spaces hws')
    have hend : skipSpace ws'=[] := by
      have hskip := skipSpace_append hws' []
      rw [List.append_nil] at hskip
      exact hskip
    rw [loadsWithin,if_neg (no_mark hws ha ws'),hscan]
    exact if_pos hend

/-- An integer that is read under a limit is read without one. -/
theorem intOfDigits_unlimited {sign digits : PyStr} {v : Json} (h : intOfDigits limit sign digits=.ok v) :
    intOfDigits none sign digits=.ok v := by
  unfold intOfDigits at h ⊢
  split at h
  next => exact (if_pos fun maximum hmaximum => by cases hmaximum).trans h
  next => cases h

/-- What is written under a limit is written without one. -/
theorem Writes.unlimited {a : PyStr} {p : Part} (h : Writes limit parseFloat a p) : Writes none parseFloat a p := by
  induction h with
  | text hu => exact .text hu
  | word hw => exact .word hw
  | int hn hint => exact .int hn (intOfDigits_unlimited hint)
  | float hn hfloat => exact .float hn hfloat
  | emptyList hws => exact .emptyList hws
  | list hws _ ih => exact .list hws ih
  | emptyDict hws => exact .emptyDict hws
  | dict hws _ ih => exact .dict hws ih
  | lastItem _ hws ih => exact .lastItem ih hws
  | nextItem _ hws hws' _ ih ih' => exact .nextItem ih hws hws' ih'
  | lastMember hk hws hws' _ hws'' ih => exact .lastMember hk hws hws' ih hws''
  | nextMember hk hws hws' _ hws'' hws₄ _ ih ih' => exact .nextMember hk hws hws' ih hws'' hws₄ ih'

/-- What is read under a limit is read without one. -/
theorem loadsWithin_unlimited {text : PyStr} {v : Json} (h : loadsWithin limit parseFloat text=.ok v) :
    loadsWithin none parseFloat text=.ok v := by
  obtain ⟨ws,a,ws',hws,hws',htext,hwrites⟩ := loads_iff.mp h
  exact loads_iff.mpr ⟨ws,a,ws',hws,hws',htext,hwrites.unlimited⟩

/-- A value with something else behind it is extra data. -/
theorem loads_extra {ws a ws' rest : PyStr} {v : Json} {c : Fin 0x110000} (hws : Spaces ws)
    (ha : Writes limit parseFloat a (.value v)) (hws' : Spaces ws') (hc : isJsonSpace c=false)
    (hend : numberEnd (ws'++(c::rest))) :
    loadsWithin limit parseFloat (ws++(a++(ws'++(c::rest))))=.error .jsonDecodeError := by
  have hscan := scan_behind_spaces hws ha hend
  have hextra : ¬skipSpace (ws'++(c::rest))=[] := by
    rw [skipSpace_append hws',skipSpace_of_not hc]
    exact List.cons_ne_nil _ _
  rw [loadsWithin,if_neg (no_mark hws ha _),hscan]
  exact if_neg hextra

end Grammar

end GenericMlCache.JsonGrammar
