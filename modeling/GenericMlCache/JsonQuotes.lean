import GenericMlCache.JsonGrammar

/-!
# Inside and outside of string literals

A run over a JSON text that only tells literals from what stands between them.
What stands between them has few characters, so a piece of a text that starts
inside a literal can be JSON of its own only with the two exchanged: its keys are
then made of what stood between the literals of the whole text.
-/

namespace GenericMlCache.JsonQuotes

open PythonText ExecutionModel JsonText JsonGrammar

/-- Where in a text a character stands. -/
inductive QuoteState where
  | outside
  | inside
  /-- Behind a backslash. -/
  | escape
deriving DecidableEq

/-- The characters between literals: punctuation, whitespace, and those of numbers
and words. -/
def isStructural (c : Fin 0x110000) : Bool :=
  isJsonSpace c || isDigit c || (pyStr "[]\x7b\x7d:,+-.eE" ++ words.flatMap Prod.fst).contains c

/-- One character of the run. -/
def quoteStep : QuoteState → Fin 0x110000 → Option QuoteState
  | .outside,c => if c=0x22 then some .inside else if isStructural c=true then some .outside else none
  | .inside,c => if c=0x22 then some .outside else if c=0x5C then some .escape else some .inside
  | .escape,c => if c=0x75 ∨ (shortEscape c).isSome=true then some .inside else none

/-- The run over a text. -/
def quoteRun : QuoteState → PyStr → Option QuoteState
  | q,[] => some q
  | q,c::text => (quoteStep q c).bind fun q' => quoteRun q' text

/-- A run over two texts. -/
theorem quoteRun_append (q : QuoteState) (a b : PyStr) :
    quoteRun q (a++b)=(quoteRun q a).bind fun q' => quoteRun q' b := by
  induction a generalizing q with
  | nil => rfl
  | cons c a ih =>
    rw [List.cons_append,quoteRun,quoteRun]
    cases quoteStep q c with
    | none => rfl
    | some q' => exact ih q'

/-- A run that gets to the end of two texts gets to the end of the first. -/
theorem run_parts {q r : QuoteState} {a b : PyStr} (h : quoteRun q (a++b)=some r) :
    ∃ q',quoteRun q a=some q' ∧ quoteRun q' b=some r := by
  rw [quoteRun_append] at h
  exact Option.bind_eq_some_iff.mp h

/-- It got past the first character. -/
theorem run_cons {q r : QuoteState} {c : Fin 0x110000} {a : PyStr} (h : quoteRun q (c::a)=some r) :
    ∃ q',quoteStep q c=some q' ∧ quoteRun q' a=some r := by
  rw [quoteRun] at h
  exact Option.bind_eq_some_iff.mp h

/-- Characters that keep a state. -/
theorem run_of_step {q : QuoteState} {a : PyStr} (h : ∀ c ∈ a,quoteStep q c=some q) : quoteRun q a=some q := by
  induction a with
  | nil => rfl
  | cons c a ih =>
    rw [quoteRun,h c List.mem_cons_self]
    exact ih fun d hd => h d (List.mem_cons_of_mem c hd)

/-- A structural character is neither a quote nor a backslash. -/
theorem structural_ne {c : Fin 0x110000} (h : isStructural c=true) : c≠0x22 ∧ c≠0x5C := by
  constructor <;> (rintro rfl; exact absurd h (by decide))

/-- A structural character keeps either state. -/
theorem step_structural {c : Fin 0x110000} (h : isStructural c=true) :
    quoteStep .outside c=some .outside ∧ quoteStep .inside c=some .inside := by
  obtain ⟨hquote,hslash⟩ := structural_ne h
  constructor
  · rw [quoteStep,if_neg hquote,if_pos h]
  · rw [quoteStep,if_neg hquote,if_neg hslash]

/-- So does a stretch of them. -/
theorem run_structural {a : PyStr} (h : ∀ c ∈ a,isStructural c=true) :
    quoteRun .outside a=some .outside ∧ quoteRun .inside a=some .inside :=
  ⟨run_of_step fun c hc => (step_structural (h c hc)).1,run_of_step fun c hc => (step_structural (h c hc)).2⟩

/-- Whitespace is structural. -/
theorem structural_spaces {ws : PyStr} (h : Spaces ws) : ∀ c ∈ ws,isStructural c=true := by
  intro c hc
  simp only [isStructural,h c hc,Bool.true_or]

/-- So are digits. -/
theorem structural_digit {c : Fin 0x110000} (h : isDigit c=true) : isStructural c=true := by
  simp only [isStructural,h,Bool.or_true,Bool.true_or]

/-- So are the words. -/
theorem structural_word {w : PyStr × Json} (h : w∈words) : ∀ c ∈ w.1,isStructural c=true := by
  intro c hc
  have hmem : c∈pyStr "[]\x7b\x7d:,+-.eE" ++ words.flatMap Prod.fst :=
    List.mem_append_right _ (List.mem_flatMap.mpr ⟨w,h,hc⟩)
  simp only [isStructural,List.contains_iff_mem.mpr hmem,Bool.or_true]

/-- So are the parts of a number. -/
theorem structural_number {sign whole fraction exponent : PyStr} (h : NumberText sign whole fraction exponent) :
    ∀ c ∈ sign++(whole++(fraction++exponent)),isStructural c=true := by
  have hdigits : ∀ digits,isDigits digits → ∀ c ∈ digits,isStructural c=true := fun digits hd c hc =>
    structural_digit (hd.2 c hc)
  intro c hc
  rcases List.mem_append.mp hc with hc | hc
  · rcases h.isSign with rfl | rfl
    · exact nomatch hc
    · rw [List.mem_singleton.mp hc]
      decide
  rcases List.mem_append.mp hc with hc | hc
  · rcases h.whole with rfl | ⟨hd,_⟩
    · rw [List.mem_singleton.mp hc]
      decide
    · exact hdigits _ hd c hc
  rcases List.mem_append.mp hc with hc | hc
  · rcases h.fraction with rfl | ⟨digits,hd,rfl⟩
    · exact nomatch hc
    · rcases List.mem_cons.mp hc with rfl | hc
      · decide
      · exact hdigits _ hd c hc
  · rcases h.exponent with rfl | ⟨mark,sign,digits,hmark,hsign,hd,rfl⟩
    · exact nomatch hc
    · rcases List.mem_cons.mp hc with rfl | hc
      · rcases hmark with rfl | rfl <;> decide
      rcases List.mem_append.mp hc with hc | hc
      · rcases hsign with rfl | rfl | rfl
        · exact nomatch hc
        · rw [List.mem_singleton.mp hc]
          decide
        · rw [List.mem_singleton.mp hc]
          decide
      · exact hdigits _ hd c hc

/-- The units of a literal lead from behind its opening quote to behind its closing
one. -/
theorem run_units {a : PyStr} {units : List LiteralUnit} (h : Units a units) :
    quoteRun .inside a=some .outside := by
  have hhex : ∀ c : Fin 0x110000,(hexDigit c).isSome=true → quoteStep .inside c=some .inside := by
    intro c hc
    have hquote : c≠0x22 := by
      rintro rfl
      exact absurd hc (by decide)
    have hslash : c≠0x5C := by
      rintro rfl
      exact absurd hc (by decide)
    rw [quoteStep,if_neg hquote,if_neg hslash]
  induction h with
  | close => rfl
  | plain hquote hslash _ _ ih =>
    rw [quoteRun,quoteStep,if_neg hquote,if_neg hslash]
    exact ih
  | @short e d a units _ hd _ ih =>
    have hstep : quoteStep .escape e=some .inside := by
      rw [quoteStep,if_pos (.inr (by rw [hd]; rfl))]
    rw [quoteRun,show quoteStep .inside 0x5C=some .escape from rfl,Option.bind_some,quoteRun,hstep]
    exact ih
  | @unicode h₁ h₂ h₃ h₄ unit a units hunit _ ih =>
    unfold hexUnit at hunit
    simp only [Option.bind_eq_bind,Option.bind_eq_some_iff] at hunit
    obtain ⟨_,h₁',_,h₂',_,h₃',_,h₄',_⟩ := hunit
    have hdigit : ∀ {c : Fin 0x110000} {n : ℕ},hexDigit c=some n → quoteStep .inside c=some .inside :=
      fun {c n} hc => hhex c (by rw [hc]; rfl)
    rw [quoteRun,show quoteStep .inside 0x5C=some .escape from rfl,Option.bind_some,quoteRun,
      show quoteStep .escape 0x75=some .inside by decide,Option.bind_some,quoteRun,hdigit h₁',Option.bind_some,
      quoteRun,hdigit h₂',Option.bind_some,quoteRun,hdigit h₃',Option.bind_some,quoteRun,hdigit h₄']
    exact ih

/-- Two stretches that both lead from outside a literal to outside one. -/
theorem run_outside {a b : PyStr} (ha : quoteRun .outside a=some .outside) (hb : quoteRun .outside b=some .outside) :
    quoteRun .outside (a++b)=some .outside := by
  rw [quoteRun_append,ha]
  exact hb

/-- A structural character in front. -/
theorem run_outside_cons {c : Fin 0x110000} {a : PyStr} (hc : isStructural c=true)
    (ha : quoteRun .outside a=some .outside) : quoteRun .outside (c::a)=some .outside := by
  rw [quoteRun,(step_structural hc).1]
  exact ha

/-- A literal in front. -/
theorem run_outside_units {k a : PyStr} {units : List LiteralUnit} (hk : Units k units)
    (ha : quoteRun .outside a=some .outside) : quoteRun .outside (0x22::(k++a))=some .outside := by
  rw [quoteRun,show quoteStep .outside 0x22=some .inside from rfl,Option.bind_some,quoteRun_append,run_units hk]
  exact ha

section Parts
variable {limit : Option ℕ} {parseFloat : PyStr → UInt64}

/-- A part leads from outside a literal to outside one. -/
theorem run_writes {a : PyStr} {p : Part} (h : Writes limit parseFloat a p) : quoteRun .outside a=some .outside := by
  have hspaces : ∀ {ws : PyStr},Spaces ws → quoteRun .outside ws=some .outside :=
    fun hws => (run_structural (structural_spaces hws)).1
  induction h with
  | text hu =>
    have hrun := run_outside_units hu (a := []) rfl
    rwa [List.append_nil] at hrun
  | word hw => exact (run_structural (structural_word hw)).1
  | int hn =>
    have hrun := (run_structural (structural_number hn)).1
    rwa [List.append_nil,List.append_nil] at hrun
  | float hn => exact (run_structural (structural_number hn)).1
  | emptyList hws => exact run_outside_cons (by decide) (run_outside (b := [0x5D]) (hspaces hws) (by decide))
  | emptyDict hws => exact run_outside_cons (by decide) (run_outside (b := [0x7D]) (hspaces hws) (by decide))
  | list hws _ ih | dict hws _ ih => exact run_outside_cons (by decide) (run_outside (hspaces hws) ih)
  | lastItem _ hws ih => exact run_outside ih (run_outside (b := [0x5D]) (hspaces hws) (by decide))
  | nextItem _ hws hws' _ ih ih' =>
    exact run_outside ih (run_outside (hspaces hws) (run_outside_cons (by decide) (run_outside (hspaces hws') ih')))
  | lastMember hk hws hws' _ hws'' ih =>
    have hvalue := run_outside ih (run_outside (b := [0x7D]) (hspaces hws'') (by decide))
    exact run_outside_units hk (run_outside (hspaces hws) (run_outside_cons (by decide)
      (run_outside (hspaces hws') hvalue)))
  | nextMember hk hws hws' _ hws'' hws₄ _ ih ih' =>
    have hnext := run_outside_cons (c := 0x2C) (by decide) (run_outside (hspaces hws₄) ih')
    have hvalue := run_outside ih (run_outside (hspaces hws'') hnext)
    exact run_outside_units hk (run_outside (hspaces hws) (run_outside_cons (by decide)
      (run_outside (hspaces hws') hvalue)))

end Parts

/-- Where literals and what is between them are exchanged, the units of a literal are
structural characters. -/
theorem exchanged_units {a : PyStr} {units : List LiteralUnit} {q : QuoteState} (h : Units a units)
    (hrun : quoteRun .outside a=some q) : q=.inside ∧ ∀ u ∈ units,isStructural u.1=true ∧ u.2=false := by
  have hslash : ∀ {b : PyStr},quoteRun .outside (0x5C::b)≠some q := by
    intro b hb
    obtain ⟨q',hstep,_⟩ := run_cons hb
    exact absurd hstep (by rw [show quoteStep .outside 0x5C=none by decide]; exact nofun)
  induction h with
  | close =>
    cases Option.some.inj hrun
    exact ⟨rfl,fun u hu => nomatch hu⟩
  | @plain c a units hquote _ _ _ ih =>
    obtain ⟨q',hstep,htail⟩ := run_cons hrun
    rw [quoteStep,if_neg hquote] at hstep
    split at hstep
    next hc =>
      cases Option.some.inj hstep
      obtain ⟨hq,hunits⟩ := ih htail
      exact ⟨hq,List.forall_mem_cons.mpr ⟨⟨hc,rfl⟩,hunits⟩⟩
    next => exact nomatch hstep
  | short => exact absurd hrun hslash
  | unicode => exact absurd hrun hslash

/-- Without escapes the units are the code points. -/
theorem joinSurrogates_plain {units : List LiteralUnit} (h : ∀ u ∈ units,u.2=false) :
    joinSurrogates units=units.map Prod.fst := by
  induction units with
  | nil => rfl
  | cons unit units ih =>
    have htail := ih fun u hu => h u (List.mem_cons_of_mem unit hu)
    cases units with
    | nil => rfl
    | cons low tail =>
      have hpair : ¬isPair unit low=true := by
        rw [isPair,h unit List.mem_cons_self]
        exact Bool.false_ne_true
      rw [joinSurrogates,if_neg hpair,htail]
      rfl

/-- The literal then is structural. -/
theorem exchanged_text {a : PyStr} {units : List LiteralUnit} {q : QuoteState} (h : Units a units)
    (hrun : quoteRun .outside a=some q) : q=.inside ∧ ∀ c ∈ joinSurrogates units,isStructural c=true := by
  obtain ⟨hq,hunits⟩ := exchanged_units h hrun
  refine ⟨hq,fun c hc => ?_⟩
  rw [joinSurrogates_plain fun u hu => (hunits u hu).2] at hc
  obtain ⟨u,hu,rfl⟩ := List.mem_map.mp hc
  exact (hunits u hu).1

/-- The keys of a part. -/
def partKeys : Part → List PyStr
  | .value (.obj fields) | .members fields => fields.map Prod.fst
  | _ => []

/-- A key is what was set. -/
theorem keys_setItem {fields : List (PyStr × Json)} {item : PyStr × Json} {key : PyStr}
    (h : key∈(setItem fields item).map Prod.fst) : key∈fields.map Prod.fst ∨ key=item.1 := by
  unfold setItem at h
  split at h
  next =>
    refine .inl ?_
    obtain ⟨e,he,rfl⟩ := List.mem_map.mp h
    obtain ⟨d,hd,rfl⟩ := List.mem_map.mp he
    refine List.mem_map.mpr ⟨d,hd,?_⟩
    split <;> simp_all
  next =>
    simpa using h

/-- So the keys of a dict are those of its members. -/
theorem keys_members {l fields : List (PyStr × Json)} {key : PyStr}
    (h : key∈(l.foldl setItem fields).map Prod.fst) : key∈fields.map Prod.fst ∨ key∈l.map Prod.fst := by
  induction l generalizing fields with
  | nil => exact .inl h
  | cons e l ih =>
    rcases ih h with hkey | hkey
    · rcases keys_setItem hkey with hold | rfl
      · exact .inl hold
      · exact .inr List.mem_cons_self
    · exact .inr (List.mem_cons_of_mem _ hkey)

/-- A stretch that keeps the inside, and one behind it. -/
theorem inside_append {a b : PyStr} {q : QuoteState} (ha : quoteRun .inside a=some .inside)
    (h : quoteRun .inside (a++b)=some q) : quoteRun .inside b=some q := by
  rw [quoteRun_append,ha] at h
  exact h

/-- A structural character keeps the inside. -/
theorem inside_cons {c : Fin 0x110000} {a : PyStr} {q : QuoteState} (hc : isStructural c=true)
    (h : quoteRun .inside (c::a)=some q) : quoteRun .inside a=some q := by
  rw [quoteRun,(step_structural hc).2] at h
  exact h

/-- A literal leads from the inside to the inside. -/
theorem inside_units {k a : PyStr} {units : List LiteralUnit} {q : QuoteState} (hk : Units k units)
    (h : quoteRun .inside (0x22::(k++a))=some q) :
    quoteRun .inside a=some q ∧ ∀ c ∈ joinSurrogates units,isStructural c=true := by
  rw [quoteRun,show quoteStep .inside 0x22=some .outside from rfl,Option.bind_some] at h
  obtain ⟨q',hliteral,hbehind⟩ := run_parts h
  obtain ⟨rfl,hkey⟩ := exchanged_text hk hliteral
  exact ⟨hbehind,hkey⟩

section Exchanged
variable {limit : Option ℕ} {parseFloat : PyStr → UInt64}

/-- A part that is run over from within a literal ends within one, and its keys are
structural. -/
theorem exchanged_writes {a : PyStr} {p : Part} (h : Writes limit parseFloat a p) :
    ∀ q,quoteRun .inside a=some q → q=.inside ∧ ∀ key ∈ partKeys p,∀ c ∈ key,isStructural c=true := by
  have hspaces : ∀ {ws b : PyStr} {q : QuoteState},Spaces ws → quoteRun .inside (ws++b)=some q →
      quoteRun .inside b=some q := fun hws => inside_append (run_structural (structural_spaces hws)).2
  have hplain : ∀ {b : PyStr} {q : QuoteState},(∀ c ∈ b,isStructural c=true) → quoteRun .inside b=some q →
      q=.inside := by
    intro b q hb hrun
    rw [(run_structural hb).2] at hrun
    exact (Option.some.inj hrun).symm
  have hclose : ∀ {c : Fin 0x110000} {q : QuoteState},isStructural c=true → quoteRun .inside [c]=some q →
      q=.inside := fun hc => hplain fun d hd => by rwa [List.mem_singleton.mp hd]
  have hbehind : ∀ {b rest : PyStr} {q : QuoteState} {P : Prop},
      (∀ q,quoteRun .inside b=some q → q=.inside ∧ P) → quoteRun .inside (b++rest)=some q →
      quoteRun .inside rest=some q ∧ P := by
    intro b rest q P hb hrun
    obtain ⟨q',hfirst,hrest⟩ := run_parts hrun
    obtain ⟨rfl,hP⟩ := hb q' hfirst
    exact ⟨hrest,hP⟩
  have hempty : ∀ key ∈ ([] : List PyStr),∀ c ∈ key,isStructural c=true := fun key hkey => (by cases hkey)
  induction h with
  | @text a units hu =>
    intro q hrun
    rw [← List.append_nil a] at hrun
    exact ⟨(Option.some.inj (inside_units hu hrun).1).symm,hempty⟩
  | @word w hw =>
    intro q hrun
    have hkeys : partKeys (.value w.2)=[] := by
      simp only [words,List.mem_cons,List.not_mem_nil,or_false] at hw
      rcases hw with rfl | rfl | rfl | rfl | rfl | rfl <;> rfl
    rw [hkeys]
    exact ⟨hplain (structural_word hw) hrun,hempty⟩
  | @int sign whole v hn hint =>
    intro q hrun
    have hstructural := structural_number hn
    rw [List.append_nil,List.append_nil] at hstructural
    have hkeys : partKeys (.value v)=[] := by
      unfold intOfDigits at hint
      split at hint
      next => cases Except.ok.inj hint; rfl
      next => cases hint
    rw [hkeys]
    exact ⟨hplain hstructural hrun,hempty⟩
  | float hn => exact fun q hrun => ⟨hplain (structural_number hn) hrun,hempty⟩
  | emptyList hws | emptyDict hws =>
    intro q hrun
    exact ⟨hclose (by decide) (hspaces hws (inside_cons (by decide) hrun)),hempty⟩
  | list hws _ ih =>
    intro q hrun
    exact ⟨(ih q (hspaces hws (inside_cons (by decide) hrun))).1,hempty⟩
  | dict hws _ ih =>
    intro q hrun
    obtain ⟨hq,hkeys⟩ := ih q (hspaces hws (inside_cons (by decide) hrun))
    refine ⟨hq,fun key hkey => hkeys key ?_⟩
    rcases keys_members hkey with hnone | hmember
    · cases hnone
    · exact hmember
  | lastItem _ hws ih =>
    intro q hrun
    exact ⟨hclose (by decide) (hspaces hws (hbehind ih hrun).1),hempty⟩
  | nextItem _ hws hws' _ ih ih' =>
    intro q hrun
    have hnext := hspaces hws' (inside_cons (by decide) (hspaces hws (hbehind ih hrun).1))
    exact ⟨(ih' q hnext).1,hempty⟩
  | lastMember hk hws hws' _ hws'' ih =>
    intro q hrun
    obtain ⟨hkeyed,hkey⟩ := inside_units hk hrun
    have hvalue := hspaces hws' (inside_cons (by decide) (hspaces hws hkeyed))
    refine ⟨hclose (by decide) (hspaces hws'' (hbehind ih hvalue).1),?_⟩
    exact List.forall_mem_cons.mpr ⟨hkey,hempty⟩
  | nextMember hk hws hws' _ hws'' hws₄ _ ih ih' =>
    intro q hrun
    obtain ⟨hkeyed,hkey⟩ := inside_units hk hrun
    have hvalue := hspaces hws' (inside_cons (by decide) (hspaces hws hkeyed))
    have hnext := hspaces hws₄ (inside_cons (by decide) (hspaces hws'' (hbehind ih hvalue).1))
    obtain ⟨hq,hkeys⟩ := ih' q hnext
    exact ⟨hq,List.forall_mem_cons.mpr ⟨hkey,hkeys⟩⟩

end Exchanged

end GenericMlCache.JsonQuotes
