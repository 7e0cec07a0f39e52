import GenericMlCache.ForwardedRequests
import GenericMlCache.KeySoundness

/-!
# Fingerprints of argument lists

A list of arguments is joined by NULs and hashed. The joined text keeps the
pieces between the NULs, not which of them came as one argument, and it does not
tell no argument from one empty argument. A passthrough identity holds nothing
else of its arguments; a managed one omits the fingerprint of an empty list.
-/

namespace GenericMlCache.ArgumentFingerprints

open PythonText ExecutionModel CachedExecution CallIdentityKeys MlExecutionCommands ForwardedRequests

/-- The arguments, each cut at its NULs. No argument reads as one empty piece. -/
def pieces (arguments : List PyStr) : List PyStr :=
  if arguments=[] then [[]] else arguments.flatMap fun argument => argument.splitOn 0

/-- The lists are the same, or their pieces differ. -/
def Separable (a b : List PyStr) : Prop := a=b ∨ pieces a≠pieces b

instance (a b : List PyStr) : Decidable (Separable a b) := inferInstanceAs (Decidable (_ ∨ _))

/-- The joined text, cut at its NULs. -/
theorem splitOn_joined (arguments : List PyStr) :
    (joinText [0] arguments).splitOn 0=pieces arguments := by
  unfold pieces
  split
  next hnil =>
    rw [hnil]
    rfl
  next hnil => exact splitOn_joinText hnil

/-- Two lists join to one text exactly when they have the same pieces. -/
theorem joined_eq_iff {a b : List PyStr} : joinText [0] a=joinText [0] b ↔ pieces a=pieces b := by
  rw [← splitOn_joined,← splitOn_joined]
  constructor
  · intro h
    rw [h]
  · intro h
    have hback : [0].intercalate ((joinText [0] a).splitOn 0)=joinText [0] a := List.intercalate_splitOn 0
    rw [h,List.intercalate_splitOn] at hback
    exact hback.symm

/-- A condition that only the pieces decide, and what it says of the lists. -/
theorem separable_iff {a b : List PyStr} {P : Prop} (h : P ↔ pieces a=pieces b) :
    (P → a=b) ↔ Separable a b := by
  unfold Separable
  rw [h]
  by_cases hpieces : pieces a=pieces b
  · simp [hpieces]
  · simp [hpieces]

/-- Arguments without a NUL are their own pieces. -/
theorem pieces_of_no_nul {arguments : List PyStr} (h : ∀ argument∈arguments,0∉argument) :
    pieces arguments=if arguments=[] then [[]] else arguments := by
  unfold pieces
  split
  next => rfl
  next =>
    have hone : ∀ argument∈arguments,argument.splitOn 0=[argument] :=
      fun argument hargument => List.splitOn_eq_singleton (h argument hargument)
    rw [List.flatMap_congr hone]
    simp

/-- Lists without a NUL are separable but for no argument and one empty one. -/
theorem separable_of_no_nul {a b : List PyStr} (ha : ∀ argument∈a,0∉argument) (hb : ∀ argument∈b,0∉argument) :
    Separable a b ↔ ¬(a=[] ∧ b=[[]]) ∧ ¬(a=[[]] ∧ b=[]) := by
  unfold Separable
  rw [pieces_of_no_nul ha,pieces_of_no_nul hb]
  by_cases hnone : a=[]
  · subst hnone
    by_cases hnone' : b=[]
    · simp [hnone']
    · simp [hnone',Ne.symm hnone',eq_comm]
  · by_cases hnone' : b=[]
    · simp [hnone,hnone']
    · simp [hnone,hnone',em]

/-- Arguments that encode join to a text that encodes. -/
theorem encodable_joined {arguments : List PyStr} (h : ∀ argument∈arguments,encodable argument=true) :
    encodable (joinText [0] arguments)=true := by
  induction arguments with
  | nil => rfl
  | cons argument rest ih =>
    have hargument := h argument List.mem_cons_self
    have hrest := ih fun next hnext => h next (List.mem_cons_of_mem _ hnext)
    cases rest with
    | nil => simpa [joinText] using hargument
    | cons next rest =>
      have hjoin : joinText [0] (argument::next::rest)=argument ++ 0::joinText [0] (next::rest) := by
        simp [joinText,List.intercalate_cons_cons]
      have hsep : isSurrogate 0=false := by decide
      unfold encodable at *
      rw [hjoin,List.all_append,List.all_cons,hargument,hrest,hsep]
      rfl

/-- No other list joins to the text of a list exactly when it is one argument,
not empty and without a NUL. -/
theorem unshared_iff {a : List PyStr} (ha : ∀ argument∈a,encodable argument=true) :
    (∀ b : List PyStr,(∀ argument∈b,encodable argument=true) → joinText [0] a=joinText [0] b → a=b) ↔
      ∃ argument,a=[argument] ∧ argument≠[] ∧ 0∉argument := by
  constructor
  · intro h
    -- The joined text, given as one argument, joins to itself.
    have hone : a=[joinText [0] a] := by
      apply h
      · intro argument hargument
        rw [List.mem_singleton.mp hargument]
        exact encodable_joined ha
      · simp [joinText]
    refine ⟨joinText [0] a,hone,?_,?_⟩
    · intro hempty
      have hnil : a=[] := h [] (by simp) (by rw [hempty]; rfl)
      rw [hone] at hnil
      cases hnil
    · intro hnul
      obtain ⟨x,y,hcut⟩ := List.append_of_mem hnul
      have htwo : a=[x,y] := by
        have hencodable := encodable_joined ha
        unfold encodable at *
        rw [hcut,List.all_append,List.all_cons,Bool.and_eq_true,Bool.and_eq_true] at hencodable
        apply h
        · intro argument hargument
          rcases List.mem_cons.mp hargument with rfl | hargument
          · exact hencodable.1
          · rw [List.mem_singleton.mp hargument]
            exact hencodable.2.2
        · rw [hcut]
          simp [joinText,List.intercalate_cons_cons]
      have hlength := congrArg List.length (hone.symm.trans htwo)
      simp at hlength
  · rintro ⟨argument,rfl,hargument,hnul⟩ b _ hjoined
    cases b with
    | nil => exact absurd (by simpa [joinText] using hjoined) hargument
    | cons x rest =>
      cases rest with
      | nil => simpa [joinText] using hjoined
      | cons y rest =>
        have hmem : 0∈joinText [0] [argument] := by
          rw [hjoined]
          simp [joinText,List.intercalate_cons_cons]
        exact absurd (by simpa [joinText] using hmem) hnul

section Hashed
variable {sha256 : Bytes → Digest} {fileFingerprint : PyStr → Except PyExc PyStr} {a b : List PyStr}

/-- SHA-256 tells the bytes of the two joined texts apart. -/
def Distinguishes (sha256 : Bytes → Digest) (a b : List PyStr) : Prop :=
  ∀ x∈encodeUtf8 (joinText [0] a),∀ y∈encodeUtf8 (joinText [0] b),
    hexdigest (sha256 x)=hexdigest (sha256 y) → x=y

/-- A list of encodable arguments has a fingerprint. -/
theorem fingerprintArguments_ok (sha256 : Bytes → Digest) (ha : ∀ argument∈a,encodable argument=true) :
    ∃ bytes,encodeUtf8 (joinText [0] a)=some bytes ∧
      fingerprintArguments sha256 a=.ok (hexdigest (sha256 bytes)) := by
  have hbytes : encodeUtf8 (joinText [0] a)=some ((joinText [0] a).flatMap encodeCodePoint) := by
    rw [encodeUtf8,if_pos (encodable_joined ha)]
  refine ⟨_,hbytes,?_⟩
  unfold fingerprintArguments textChecksum encodeText
  rw [hbytes]
  rfl

/-- Two lists have one fingerprint exactly when they have the same pieces. -/
theorem fingerprintArguments_eq_iff (ha : ∀ argument∈a,encodable argument=true)
    (hb : ∀ argument∈b,encodable argument=true) (hsha : Distinguishes sha256 a b) :
    fingerprintArguments sha256 a=fingerprintArguments sha256 b ↔ pieces a=pieces b := by
  obtain ⟨x,hx,hfx⟩ := fingerprintArguments_ok sha256 ha
  obtain ⟨y,hy,hfy⟩ := fingerprintArguments_ok sha256 hb
  rw [hfx,hfy,← joined_eq_iff]
  constructor
  · intro h
    have hxy : x=y := hsha x hx y hy (Except.ok.inj h)
    exact encodeUtf8_injective hx (hxy ▸ hy)
  · intro h
    rw [h,hy] at hx
    rw [Option.some.inj hx]

/-- A managed identity tells lists apart by whether they are empty, and by their pieces. -/
theorem argsFingerprint_iff (ha : ∀ argument∈a,encodable argument=true)
    (hb : ∀ argument∈b,encodable argument=true) (hsha : Distinguishes sha256 a b) :
    (argsFingerprint sha256 a=argsFingerprint sha256 b → a=b) ↔ a=[] ∨ b=[] ∨ Separable a b := by
  obtain ⟨x,_,hfx⟩ := fingerprintArguments_ok sha256 ha
  obtain ⟨y,_,hfy⟩ := fingerprintArguments_ok sha256 hb
  have hiff := fingerprintArguments_eq_iff ha hb hsha
  unfold argsFingerprint
  rw [hfx,hfy] at hiff ⊢
  cases a with
  | nil =>
    cases b with
    | nil => simp
    | cons v b => simp [Except.map]
  | cons u a =>
    cases b with
    | nil => simp [Except.map]
    | cons v b =>
      have hsame : (Except.map some (.ok (hexdigest (sha256 x))) : Except PyExc (Option PyStr))=
          Except.map some (.ok (hexdigest (sha256 y))) ↔ pieces (u::a)=pieces (v::b) := by
        rw [← hiff]
        simp [Except.map]
      have hseparable := separable_iff (a := u::a) (b := v::b) hsame
      simpa using hseparable

/-- A passthrough identity tells lists apart by their pieces. -/
theorem passthrough_iff {command : RunMlExecutionCommand} (hkind : command.executionKind=.localPassthrough)
    (ha : ∀ argument∈a,encodable argument=true) (hb : ∀ argument∈b,encodable argument=true)
    (hsha : Distinguishes sha256 a b) :
    keyedIdentity sha256 fileFingerprint { command with nativeArgs := a }=
      keyedIdentity sha256 fileFingerprint { command with nativeArgs := b } ↔ pieces a=pieces b := by
  rw [← fingerprintArguments_eq_iff ha hb hsha]
  obtain ⟨x,_,hfx⟩ := fingerprintArguments_ok sha256 ha
  obtain ⟨y,_,hfy⟩ := fingerprintArguments_ok sha256 hb
  simp only [keyedIdentity,hkind,hfx,hfy]
  constructor
  · intro h
    injection h with h
    injection h with h
    exact congrArg Except.ok (congrArg PassthroughCallIdentity.nativeArgsFingerprint h)
  · intro h
    rw [Except.ok.inj h]

end Hashed

/-- Equal joined texts come from equal lists, and equal identities too, exactly
where the lists are separable: without NULs, but for no argument and one empty
one. A managed identity also sets the empty list apart. -/
theorem fingerprintArguments_injective_iff {sha256 : Bytes → Digest} {a b : List PyStr}
    (ha : ∀ argument∈a,encodable argument=true) (hb : ∀ argument∈b,encodable argument=true)
    (hsha : Distinguishes sha256 a b) (fileFingerprint : PyStr → Except PyExc PyStr)
    (command : RunMlExecutionCommand) :
    ((joinText [0] a=joinText [0] b → a=b) ↔ Separable a b) ∧
    ((∀ argument∈a,0∉argument) → (∀ argument∈b,0∉argument) →
      ((joinText [0] a=joinText [0] b → a=b) ↔ ¬(a=[] ∧ b=[[]]) ∧ ¬(a=[[]] ∧ b=[]))) ∧
    (command.executionKind=.localPassthrough →
      ((keyedIdentity sha256 fileFingerprint { command with nativeArgs := a }=
        keyedIdentity sha256 fileFingerprint { command with nativeArgs := b } → a=b) ↔ Separable a b)) ∧
    (∀ files i j,fromKeyedInputs sha256 { command.toKeyedCallInputs with clientArgs := a } files=.ok i →
      fromKeyedInputs sha256 { command.toKeyedCallInputs with clientArgs := b } files=.ok j →
      ((i.clientArgsFingerprint=j.clientArgsFingerprint → a=b) ↔ a=[] ∨ b=[] ∨ Separable a b)) ∧
    ((∀ c : List PyStr,(∀ argument∈c,encodable argument=true) → joinText [0] a=joinText [0] c → a=c) ↔
      ∃ argument,a=[argument] ∧ argument≠[] ∧ 0∉argument) := by
  refine ⟨separable_iff joined_eq_iff,fun hnul hnul' => (separable_iff joined_eq_iff).trans (separable_of_no_nul hnul hnul'),
    fun hkind => separable_iff (passthrough_iff hkind ha hb hsha),?_,unshared_iff ha⟩
  intro files i j hi hj
  obtain ⟨args,_,_,_,hargs,_,_,_,rfl⟩ := fromKeyedInputs_ok hi
  obtain ⟨args',_,_,_,hargs',_,_,_,rfl⟩ := fromKeyedInputs_ok hj
  have hiff := argsFingerprint_iff ha hb hsha
  simp only [hargs,hargs',Except.ok.injEq] at hiff
  exact hiff

/-- A local call of the given arguments, its own and its client's. -/
def argumentCall (executionKind : ExecutionKind) (arguments : List PyStr) : RunMlExecutionCommand where
  executionKind := executionKind
  client := pyStr "codex"
  model := pyStr "m"
  clientArgs := arguments
  nativeArgs := arguments

/-- Two flags and one flag tell apart. -/
theorem fingerprintArguments_injective_iff_flags :
    Separable [pyStr "-a",pyStr "-b"] [pyStr "-a"] ∧
    ((joinText [0] [pyStr "-a",pyStr "-b"]=joinText [0] [pyStr "-a"] →
      [pyStr "-a",pyStr "-b"]=[pyStr "-a"]) ↔ Separable [pyStr "-a",pyStr "-b"] [pyStr "-a"]) := by
  refine ⟨by decide,?_⟩
  have hsha : Distinguishes positional [pyStr "-a",pyStr "-b"] [pyStr "-a"] := by
    unfold Distinguishes
    decide +kernel
  exact (fingerprintArguments_injective_iff (by decide) (by decide) hsha noFiles
    (argumentCall .localPassthrough [])).1

/-- No argument is fingerprinted like one empty argument, and two like the one
argument that holds them around a NUL; the passthrough identities of both pairs
and the managed ones of the second are the same. -/
theorem fingerprintArguments_fails :
    joinText [0] []=joinText [0] [pyStr ""] ∧
    joinText [0] [pyStr "a",pyStr "b"]=joinText [0] [pyStr "a\x00b"] ∧
    (∃ identity,keyedIdentity positional noFiles (argumentCall .localPassthrough [])=.ok identity ∧
      keyedIdentity positional noFiles (argumentCall .localPassthrough [pyStr ""])=.ok identity) ∧
    (∃ i j fingerprint,
      buildCallIdentity positional noFiles (argumentCall .localManaged [pyStr "a",pyStr "b"]).toKeyedCallInputs=.ok i ∧
      buildCallIdentity positional noFiles (argumentCall .localManaged [pyStr "a\x00b"]).toKeyedCallInputs=.ok j ∧
      i.clientArgsFingerprint=some fingerprint ∧ j.clientArgsFingerprint=some fingerprint) := by
  refine ⟨rfl,by decide,⟨_,rfl,rfl⟩,⟨_,_,_,rfl,rfl,rfl,?_⟩⟩
  decide +kernel

end GenericMlCache.ArgumentFingerprints
