import Mathlib.Data.List.Infix

/-!
# Backtracking patterns

A pattern of classes, repetitions, boundaries, alternatives and one group, with
the ways it matches in the order a backtracking matcher tries them. Substitution
replaces the matches from left to right. Two facts about words in the result:
none is made where the replacements stand apart from it, and none is left where
the pattern matches wherever it begins.
-/

namespace GenericMlCache.TextPatterns

variable {C : Type}

/-- A pattern. -/
inductive Regex (C : Type) where
  /-- One character of each class. -/
  | word (classes : List (C → Bool))
  /-- A class repeated, as often as it goes. -/
  | many (accepts : C → Bool) (least : ℕ) (most : Option ℕ)
  /-- A word character on one side only. -/
  | boundary (isWord : C → Bool)
  | seq (first second : Regex C)
  | alt (first second : Regex C)
  | group (body : Regex C)

/-- A way to match. -/
structure Match (C : Type) where
  /-- How much of the text it takes. -/
  length : ℕ
  /-- What the group matched. -/
  captured : Option (List C) := none

/-- The classes accept the characters in front. -/
def accepts : List (C → Bool) → List C → Bool
  | [],_ => true
  | _::_,[] => false
  | p::ps,c::rest => p c && accepts ps rest

/-- The character before, after so many more. -/
def before (prev : Option C) (rest : List C) (n : ℕ) : Option C :=
  if n=0 then prev else rest[n-1]?

/-- How often a class repeats in front. -/
def runLength (p : C → Bool) (most : Option ℕ) (rest : List C) : ℕ :=
  match most with
  | none => (rest.takeWhile p).length
  | some n => min n (rest.takeWhile p).length

/-- The ways to match at a position, in the order they are tried. -/
def Regex.ways : Regex C → Option C → List C → List (Match C)
  | .word classes,_,rest => if accepts classes rest=true then [⟨classes.length,none⟩] else []
  | .many p least most,_,rest =>
    (List.range (runLength p most rest+1-least)).reverse.map fun n => ⟨least+n,none⟩
  | .boundary isWord,prev,rest => if prev.any isWord=rest.head?.any isWord then [] else [⟨0,none⟩]
  | .seq first second,prev,rest => (first.ways prev rest).flatMap fun m =>
      (second.ways (before prev rest m.length) (rest.drop m.length)).map fun m' =>
        ⟨m.length+m'.length,m'.captured.or m.captured⟩
  | .alt first second,prev,rest => first.ways prev rest ++ second.ways prev rest
  | .group body,prev,rest => (body.ways prev rest).map fun m => ⟨m.length,some (rest.take m.length)⟩

/-- The match at a position. -/
def Regex.matchAt (r : Regex C) (prev : Option C) (rest : List C) : Option (Match C) := (r.ways prev rest).head?

/-- A length that every match has at least. -/
def Regex.least : Regex C → ℕ
  | .word classes => classes.length
  | .many _ least _ => least
  | .boundary _ => 0
  | .seq first second => first.least+second.least
  | .alt first second => min first.least second.least
  | .group body => body.least

/-- A word of classes matches where they accept what is in front. -/
theorem ways_word {classes : List (C → Bool)} {prev : Option C} {rest : List C} (h : accepts classes rest=true) :
    (Regex.word classes).ways prev rest=[⟨classes.length,none⟩] := by
  rw [Regex.ways,if_pos h]

/-- A sequence matches where its second part does behind a match of the first. -/
theorem ways_seq_ne_nil {first second : Regex C} {prev : Option C} {rest : List C} {m : Match C}
    (hm : m∈first.ways prev rest)
    (h : second.ways (before prev rest m.length) (rest.drop m.length)≠[]) : (Regex.seq first second).ways prev rest≠[] := by
  obtain ⟨m',hm'⟩ := List.exists_mem_of_ne_nil _ h
  exact List.ne_nil_of_mem (List.mem_flatMap.mpr ⟨m,hm,List.mem_map_of_mem hm'⟩)

/-- There is a match where there is a way. -/
theorem matchAt_ne_none {r : Regex C} {prev : Option C} {rest : List C} (h : r.ways prev rest≠[]) :
    r.matchAt prev rest≠none := fun hnone => h (List.head?_eq_none_iff.mp hnone)

/-- A repetition matches where the class goes on long enough. -/
theorem ways_many_ne_nil {p : C → Bool} {least : ℕ} {prev : Option C} {rest : List C}
    (h : least≤(rest.takeWhile p).length) : (Regex.many p least none).ways prev rest≠[] := by
  intro hnil
  have hrange := List.map_eq_nil_iff.mp hnil
  rw [List.reverse_eq_nil_iff,List.range_eq_nil] at hrange
  simp only [runLength] at hrange
  omega

/-- A pattern that matches no empty text, with what replaces its matches. -/
structure Rule (C : Type) where
  /-- The pattern. -/
  regex : Regex C
  /-- What replaces a match. -/
  template : Match C → List C
  /-- No match is empty. -/
  positive : 0 < regex.least

/-- Substitution, with so much of the last match to pass, and the character before. -/
def Rule.subAt (rule : Rule C) : ℕ → Option C → List C → List C
  | _,_,[] => []
  | skip+1,_,c::rest => rule.subAt skip (some c) rest
  | 0,prev,c::rest =>
    match rule.regex.matchAt prev (c::rest) with
    | some m => rule.template m ++ rule.subAt (m.length-1) (some c) rest
    | none => c::rule.subAt 0 (some c) rest

/-- Every match, from left to right, replaced. -/
def Rule.sub (rule : Rule C) (text : List C) : List C := rule.subAt 0 none text

section Words
variable {w : List C}

/-- A word without a character lies on one side of it. -/
theorem infix_split {x : C} (hx : x∉w) (a b : List C) : w <:+: a ++ x::b ↔ w <:+: a ∨ w <:+: b := by
  constructor
  · intro h
    rcases List.infix_append_iff.mp h with h | h | ⟨u,v,rfl,hu,hv⟩
    · exact Or.inl h
    · rcases List.infix_cons_iff.mp h with h | h
      · cases w with
        | nil => exact Or.inl List.nil_infix
        | cons y w =>
          obtain ⟨rfl,_⟩ := List.cons_prefix_cons.mp h
          exact absurd List.mem_cons_self hx
      · exact Or.inr h
    · cases v with
      | nil =>
        rw [List.append_nil]
        exact Or.inl hu.isInfix
      | cons y v =>
        obtain ⟨rfl,_⟩ := List.cons_prefix_cons.mp hv
        exact absurd (List.mem_append_right _ List.mem_cons_self) hx
  · rintro (h | h)
    · exact h.trans (List.prefix_append a _).isInfix
    · exact h.trans ((List.suffix_cons x b).isInfix.trans (List.suffix_append a _).isInfix)

/-- No word lies in a text without one of its characters. -/
theorem not_infix_of_notMem {y : C} {text : List C} (hy : y∈w) (htext : y∉text) : ¬ w <:+: text :=
  fun h => htext (h.subset hy)

/-- A text that no word reaches into, from either side. -/
def Isolates (w text : List C) : Prop := ∀ a b : List C,w <:+: a ++ (text ++ b) → w <:+: a ∨ w <:+: b

/-- A text with marks at both ends and no word between them. -/
theorem isolates_marked {x y : C} {middle : List C} (hx : x∉w) (hy : y∉w) (hmiddle : ¬ w <:+: middle) :
    Isolates w (x::(middle ++ [y])) := by
  intro a b h
  rw [List.cons_append,List.append_assoc,List.singleton_append] at h
  rcases (infix_split hx a _).mp h with h | h
  · exact Or.inl h
  · rcases (infix_split hy middle b).mp h with h | h
    · exact absurd h hmiddle
    · exact Or.inr h

variable {rule : Rule C}

/-- Where the replacements stand apart from a word, substitution makes none: behind the rest of
a match, and behind a text that was kept. -/
theorem infix_subAt (hrule : ∀ m,Isolates w (rule.template m)) (rest : List C) :
    (∀ skip prev,w <:+: rule.subAt skip prev rest → w <:+: rest) ∧
      ∀ prev kept,w <:+: kept ++ rule.subAt 0 prev rest → w <:+: kept ++ rest := by
  induction rest with
  | nil =>
    constructor
    · intro skip prev h
      exact h
    · intro prev kept h
      exact h
  | cons c rest ih =>
    have hkept : ∀ prev kept,w <:+: kept ++ rule.subAt 0 prev (c::rest) → w <:+: kept ++ c::rest := by
      intro prev kept h
      unfold Rule.subAt at h
      split at h
      next m hm =>
        rcases hrule m kept _ h with h | h
        · exact h.trans (List.prefix_append kept _).isInfix
        · exact ((ih.1 _ _ h).trans (List.suffix_cons c rest).isInfix).trans (List.suffix_append kept _).isInfix
      next =>
        rw [List.append_cons] at h ⊢
        exact ih.2 _ _ h
    refine ⟨fun skip prev h => ?_,hkept⟩
    cases skip with
    | zero => exact hkept prev [] h
    | succ skip => exact (ih.1 _ _ h).trans (List.suffix_cons c rest).isInfix

/-- Substitution makes no word. -/
theorem infix_of_infix_sub (rule : Rule C) (hrule : ∀ m,Isolates w (rule.template m)) {text : List C}
    (h : w <:+: rule.sub text) : w <:+: text := (infix_subAt hrule text).1 0 none h

/-- No word begins in the text that was kept. -/
def Passed (w kept rest : List C) : Prop := ∀ a b,kept=a ++ b → b≠[] → ¬ w <+: b ++ rest

/-- Where the pattern matches wherever the word begins, substitution leaves none. -/
theorem not_infix_subAt (hw : w≠[]) (hrule : ∀ m,Isolates w (rule.template m))
    (hmatch : ∀ prev rest,w <+: rest → rule.regex.matchAt prev rest≠none) (rest : List C) :
    (∀ skip prev,¬ w <:+: rule.subAt skip prev rest) ∧
      ∀ prev kept,Passed w kept rest → ¬ w <:+: kept ++ rule.subAt 0 prev rest := by
  have hpassed : ∀ kept rest,Passed w kept rest → ¬ w <:+: kept := by
    rintro kept rest hkept ⟨a,b,rfl⟩
    refine hkept a (w ++ b) (List.append_assoc a w b) (fun h => hw (List.append_eq_nil_iff.mp h).1) ?_
    rw [List.append_assoc]
    exact List.prefix_append w _
  induction rest with
  | nil =>
    have hnone : ¬ w <:+: ([] : List C) := fun h => hw (List.infix_nil.mp h)
    refine ⟨fun skip prev => ?_,fun prev kept hkept => ?_⟩
    · unfold Rule.subAt
      exact hnone
    · unfold Rule.subAt
      rw [List.append_nil]
      exact hpassed kept [] hkept
  | cons c rest ih =>
    have hkept : ∀ prev kept,Passed w kept (c::rest) → ¬ w <:+: kept ++ rule.subAt 0 prev (c::rest) := by
      intro prev kept hkept h
      unfold Rule.subAt at h
      split at h
      next m hm =>
        rcases hrule m kept _ h with h | h
        · exact hpassed kept _ hkept h
        · exact ih.1 _ _ h
      next hm =>
        rw [List.append_cons] at h
        refine ih.2 _ _ (fun a b hab hb hbegin => ?_) h
        rcases List.eq_nil_or_concat b with rfl | ⟨b',d,rfl⟩
        · exact hb rfl
        · rw [List.concat_eq_append,← List.append_assoc] at hab
          obtain ⟨rfl,hd⟩ := List.append_inj' hab rfl
          rw [List.concat_eq_append,← hd,List.append_assoc,List.singleton_append] at hbegin
          cases b' with
          | nil => exact hmatch prev _ hbegin hm
          | cons x b' => exact hkept a _ rfl (fun hnil => nomatch hnil) hbegin
    refine ⟨fun skip prev => ?_,hkept⟩
    cases skip with
    | zero =>
      refine hkept prev [] fun a b hab hb => ?_
      exact absurd (List.append_eq_nil_iff.mp hab.symm).2 hb
    | succ skip => exact ih.1 _ _

/-- Substitution leaves no word that the pattern finds. -/
theorem not_infix_sub (hw : w≠[]) (hrule : ∀ m,Isolates w (rule.template m))
    (hmatch : ∀ prev rest,w <+: rest → rule.regex.matchAt prev rest≠none) (text : List C) :
    ¬ w <:+: rule.sub text := (not_infix_subAt hw hrule hmatch text).1 0 none

end Words

/-- Escapes begin with a mark, or leave the character as it is. -/
def Escapes (escape : C → List C) (mark : C) : Prop := ∀ c,escape c=[c] ∨ ∃ tail,escape c=mark::tail

section Escaped
variable {w : List C} {escape : C → List C} {mark : C}

/-- A word without the mark begins the escaped text only where it begins the text. -/
theorem prefix_of_escaped (hescape : Escapes escape mark) (hmark : mark∉w) {text : List C}
    (h : w <+: text.flatMap escape) : w <+: text := by
  induction w generalizing text with
  | nil => exact List.nil_prefix
  | cons x w ih =>
    cases text with
    | nil => exact absurd (List.prefix_nil.mp h) (List.cons_ne_nil x w)
    | cons c text =>
      rw [List.flatMap_cons] at h
      rcases hescape c with heq | ⟨tail,heq⟩
      · rw [heq,List.singleton_append] at h
        obtain ⟨rfl,hrest⟩ := List.cons_prefix_cons.mp h
        exact List.cons_prefix_cons.mpr ⟨rfl,ih (fun hmem => hmark (List.mem_cons_of_mem x hmem)) hrest⟩
      · rw [heq,List.cons_append] at h
        obtain ⟨rfl,_⟩ := List.cons_prefix_cons.mp h
        exact absurd List.mem_cons_self hmark

/-- Escaping makes no word whose first character is in no escape. -/
theorem infix_of_escaped {first : C} (hescape : Escapes escape mark) (hmark : mark∉first::w)
    (hfirst : ∀ c,first∈escape c → escape c=[c]) {text : List C} (h : first::w <:+: text.flatMap escape) :
    first::w <:+: text := by
  induction text with
  | nil => exact h
  | cons c text ih =>
    rw [List.flatMap_cons] at h
    rcases List.infix_append_iff.mp h with hin | hin | ⟨u,v,heq,hu,hv⟩
    · have hone := hfirst c (hin.subset List.mem_cons_self)
      rw [hone] at hin
      exact hin.trans (List.prefix_append [c] text).isInfix
    · exact (ih hin).trans (List.suffix_cons c text).isInfix
    · cases u with
      | nil =>
        rw [List.nil_append] at heq
        exact (ih (heq ▸ hv.isInfix)).trans (List.suffix_cons c text).isInfix
      | cons x u =>
        obtain ⟨rfl,rfl⟩ := List.cons.inj heq
        have hone := hfirst c (hu.subset List.mem_cons_self)
        have hwhole : first::(u ++ v) <+: (c::text).flatMap escape := by
          rw [hone] at hu
          obtain ⟨a,ha⟩ := hu
          have hu' : a=[] ∧ first=c ∧ u=[] := by
            cases a with
            | nil =>
              rw [List.nil_append] at ha
              obtain ⟨hc,hu⟩ := List.cons.inj ha
              exact ⟨rfl,hc,hu⟩
            | cons y a =>
              have hlength := congrArg List.length ha
              simp only [List.length_append,List.length_cons,List.length_nil] at hlength
              omega
          obtain ⟨_,rfl,rfl⟩ := hu'
          rw [List.flatMap_cons,hone,List.nil_append,List.singleton_append]
          exact List.cons_prefix_cons.mpr ⟨rfl,hv⟩
        exact (prefix_of_escaped hescape hmark hwhole).isInfix

/-- Escaping keeps a word of characters that are no escapes. -/
theorem infix_flatMap_escape (hword : ∀ c∈w,escape c=[c]) {text : List C} (h : w <:+: text) :
    w <:+: text.flatMap escape := by
  obtain ⟨a,b,rfl⟩ := h
  have hflat : w.flatMap escape=w := by
    induction w with
    | nil => rfl
    | cons c w ih =>
      rw [List.flatMap_cons,hword c List.mem_cons_self,ih fun d hd => hword d (List.mem_cons_of_mem c hd)]
      rfl
  rw [List.flatMap_append,List.flatMap_append,hflat]
  exact ⟨_,_,rfl⟩

end Escaped

end GenericMlCache.TextPatterns
