import GenericMlCache.MlExecutionCommands

/-!
# What the key says of the request

A run's identity folds the command's fields into the key; its request forwards
them to the client. The two are written apart. The fields of one command that
the identity forgets, and that the request still carries, are named here: how
often a path is listed, whether an empty system prompt is given at all, where
arguments hold the separator they are joined with, and for API calls every
file-system field.
-/

namespace GenericMlCache.ForwardedRequests

open CallProgram PythonText ExecutionModel ExecutionRepository CachedExecution CallIdentityKeys MlExecutionCommands

/-- `ManagedLocalRequest`, as a run fills it in. -/
structure ManagedLocalRequest where
  /-- The model's name. -/
  model : PyStr
  /-- The effort asked for. -/
  effort : PyStr
  /-- The context. -/
  context : PyStr
  /-- The prompt. -/
  prompt : PyStr
  /-- The caller's system prompt. -/
  userSystemPrompt : Option PyStr
  /-- The folders that may be read. -/
  allowedReadPaths : List PyStr
  /-- The folders handed to the client. -/
  addDirPaths : List PyStr
  /-- The client's arguments. -/
  clientArgs : List PyStr
  /-- The permissions granted. -/
  grants : Finset PyStr
deriving DecidableEq

/-- `MlRequest`. -/
structure MlRequest where
  /-- The model's name. -/
  model : PyStr
  /-- The effort asked for. -/
  effort : PyStr
  /-- The context. -/
  context : PyStr
  /-- The prompt. -/
  prompt : PyStr
  /-- The caller's system prompt. -/
  userSystemPrompt : Option PyStr
  /-- The input files. -/
  inputFilePaths : List PyStr
  /-- The folders allowed. -/
  allowPaths : List PyStr
  /-- The client's arguments. -/
  clientArgs : List PyStr
  /-- The permissions granted. -/
  grants : Finset PyStr
deriving DecidableEq

/-- A request of any kind. Of an API passthrough it is the raw body. -/
inductive ClientRequest where
  | managed (request : ManagedLocalRequest)
  | passthrough (nativeArgs : List PyStr)
  | api (request : MlRequest)
  | apiPassthrough (rawBody : Bytes)
deriving DecidableEq

/-- `sorted(texts)`. -/
def sortedTexts (texts : List PyStr) : List PyStr := texts.insertionSort (· ≤ ·)

/-- The request of `_run_managed`. -/
def managedRequest (command : RunMlExecutionCommand) : ManagedLocalRequest where
  model := command.model
  effort := command.effort
  context := command.context
  prompt := command.prompt
  userSystemPrompt := command.userSystemPrompt
  allowedReadPaths := sortedTexts (command.inputFilePaths ++ command.allowPaths)
  addDirPaths := sortedTexts command.allowPaths
  clientArgs := command.clientArgs
  grants := command.grants.toFinset

/-- The request of `_run_api`. -/
def apiRequest (command : RunMlExecutionCommand) : MlRequest where
  model := command.model
  effort := command.effort
  context := command.context
  prompt := command.prompt
  userSystemPrompt := command.userSystemPrompt
  inputFilePaths := command.inputFilePaths
  allowPaths := command.allowPaths
  clientArgs := command.clientArgs
  grants := command.grants.toFinset

/-- The request that `_run_client` builds for a command's kind. -/
def clientRequest (command : RunMlExecutionCommand) : ClientRequest :=
  match command.executionKind with
  | .localManaged => .managed (managedRequest command)
  | .localPassthrough => .passthrough command.nativeArgs
  | .apiPassthrough => .apiPassthrough command.rawBody
  | .api => .api (apiRequest command)

/-- Identities are equal as values; the declared files are a mapping, whose
order does not count. -/
def SameIdentity : KeyedIdentity → KeyedIdentity → Prop
  | .managed a,.managed b =>
    { a with inputFileFingerprints := .empty }={ b with inputFileFingerprints := .empty } ∧
      ∀ path,a.inputFileFingerprints.get? path=b.inputFileFingerprints.get? path
  | a,b => a=b

/-- The texts of a command that its identity keeps by their SHA-256 only. -/
def digestedTexts (command : RunMlExecutionCommand) : List PyStr :=
  match command.executionKind with
  | .localManaged => command.context::command.prompt::(truthy command.userSystemPrompt).toList ++
      if command.clientArgs.isEmpty=true then [] else [joinText [0] command.clientArgs]
  | .localPassthrough => [joinText [0] command.nativeArgs]
  | .apiPassthrough => []
  | .api => command.context::command.prompt::(truthy command.userSystemPrompt).toList

/-- The bytes of a command that SHA-256 is applied to, but for its files. -/
def digestedBytes (command : RunMlExecutionCommand) : List Bytes :=
  (digestedTexts command).filterMap encodeUtf8 ++
    if command.executionKind=.apiPassthrough then [command.rawBody] else []

/-- SHA-256 is injective on the bytes that it is applied to for two commands. -/
def InjectiveOn (sha256 : Bytes → Digest) (a b : RunMlExecutionCommand) : Prop :=
  ∀ x∈digestedBytes a ++ digestedBytes b,∀ y∈digestedBytes a ++ digestedBytes b,
    hexdigest (sha256 x)=hexdigest (sha256 y) → x=y

section Joining
variable {separator : Fin 0x110000}

/-- Two texts that hold the separator equally often end at the same place. -/
theorem split_of_count {x y r r' : PyStr} (h : x ++ separator::r=y ++ separator::r')
    (hcount : x.count separator=y.count separator) : x=y ∧ r=r' := by
  rcases List.append_eq_append_iff.mp h with ⟨middle,hy,hr⟩ | ⟨middle,hx,hr⟩
  · cases middle with
    | nil => exact ⟨by simpa using hy.symm,by simpa using hr⟩
    | cons c middle =>
      cases List.head_eq_of_cons_eq hr
      simp [hy] at hcount
  · cases middle with
    | nil => exact ⟨by simpa using hx,by simpa using hr.symm⟩
    | cons c middle =>
      cases List.head_eq_of_cons_eq hr
      simp [hx] at hcount

/-- Argument lists with the same joined text are the same where their
arguments hold the separator equally often. -/
theorem arguments_of_joined {a b : List PyStr} (h : joinText [separator] a=joinText [separator] b)
    (hcount : a.map (·.count separator)=b.map (·.count separator)) : a=b := by
  induction a generalizing b with
  | nil => exact (List.map_eq_nil_iff.mp hcount.symm).symm
  | cons x a ih =>
    cases b with
    | nil => exact nomatch hcount
    | cons y b =>
      obtain ⟨hx,hrest⟩ := List.cons.inj hcount
      cases a with
      | nil =>
        obtain rfl : b=[] := List.map_eq_nil_iff.mp hrest.symm
        simpa [joinText] using h
      | cons x' a =>
        cases b with
        | nil => exact nomatch hrest
        | cons y' b =>
          have hsplit := @split_of_count separator x y (joinText [separator] (x'::a))
            (joinText [separator] (y'::b)) (by simpa [joinText,List.intercalate] using h) hx
          rw [hsplit.1,ih hsplit.2 hrest]

end Joining

/-- What the request carries and the identity forgets is the same for both
commands. What the identity keeps is left out. -/
def ForwardsAlike (a b : RunMlExecutionCommand) : Prop :=
  match a.executionKind with
  | .localManaged =>
    -- Sets of folders and files are kept, not how often one is listed.
    (a.userSystemPrompt=none ↔ b.userSystemPrompt=none) ∧ a.inputFilePaths.Perm b.inputFilePaths ∧
      a.allowPaths.Perm b.allowPaths ∧ a.clientArgs.map (·.count 0)=b.clientArgs.map (·.count 0)
  | .localPassthrough => a.nativeArgs.map (·.count 0)=b.nativeArgs.map (·.count 0)
  | .apiPassthrough => True
  | .api => (a.userSystemPrompt=none ↔ b.userSystemPrompt=none) ∧ a.inputFilePaths=b.inputFilePaths ∧
      a.allowPaths=b.allowPaths ∧ a.clientArgs=b.clientArgs ∧ a.grants.toFinset=b.grants.toFinset

section Determined
variable {sha256 : Bytes → Digest} {fileFingerprint : PyStr → Except PyExc PyStr}
  {a b : RunMlExecutionCommand}

/-- A checksum is that of its text's bytes. -/
theorem textChecksum_ok {text checksum : PyStr} (h : textChecksum sha256 text=.ok checksum) :
    ∃ content,encodeUtf8 text=some content ∧ checksum=hexdigest (sha256 content) := by
  obtain ⟨content,hcontent,h⟩ := ok_of_bind h
  refine ⟨content,?_,(Except.ok.inj h).symm⟩
  unfold encodeText at hcontent
  split at hcontent
  next content' he =>
    cases Except.ok.inj hcontent
    exact he
  next => exact nomatch hcontent

/-- Texts of the two commands with one checksum are one text. -/
theorem text_of_checksum (hinj : InjectiveOn sha256 a b) {x y checksum : PyStr} (hx : x∈digestedTexts a)
    (hy : y∈digestedTexts b) (hcx : textChecksum sha256 x=.ok checksum)
    (hcy : textChecksum sha256 y=.ok checksum) : x=y := by
  obtain ⟨u,hu,rfl⟩ := textChecksum_ok hcx
  obtain ⟨v,hv,heq⟩ := textChecksum_ok hcy
  have hmemU : u∈digestedBytes a := List.mem_append_left _ (List.mem_filterMap.mpr ⟨x,hx,hu⟩)
  have hmemV : v∈digestedBytes b := List.mem_append_left _ (List.mem_filterMap.mpr ⟨y,hy,hv⟩)
  have huv := hinj u (List.mem_append_left _ hmemU) v (List.mem_append_right _ hmemV) heq
  exact encodeUtf8_injective hu (huv ▸ hv)

/-- The context, the prompt and a system prompt that counts are digested. -/
theorem digested_texts {command : RunMlExecutionCommand}
    (h : command.executionKind=.localManaged ∨ command.executionKind=.api) :
    command.context∈digestedTexts command ∧ command.prompt∈digestedTexts command ∧
      (truthy command.userSystemPrompt).toList ⊆ digestedTexts command := by
  rcases h with h | h <;> simp only [digestedTexts,h]
  · refine ⟨by simp,by simp,fun x hx => List.mem_append_left _ ?_⟩
    exact List.mem_cons_of_mem _ (List.mem_cons_of_mem _ hx)
  · exact ⟨by simp,by simp,fun x hx => List.mem_cons_of_mem _ (List.mem_cons_of_mem _ hx)⟩

/-- System prompts with one checksum are one prompt, where they count at all. -/
theorem truthy_of_checksum (hinj : InjectiveOn sha256 a b)
    (ha : (truthy a.userSystemPrompt).toList ⊆ digestedTexts a)
    (hb : (truthy b.userSystemPrompt).toList ⊆ digestedTexts b) {checksum : Option PyStr}
    (hca : checksumPresent sha256 a.userSystemPrompt=.ok checksum)
    (hcb : checksumPresent sha256 b.userSystemPrompt=.ok checksum) :
    truthy a.userSystemPrompt=truthy b.userSystemPrompt := by
  unfold checksumPresent at hca hcb
  cases hta : truthy a.userSystemPrompt with
  | none =>
    simp only [hta] at hca
    cases htb : truthy b.userSystemPrompt with
    | none => rfl
    | some y =>
      simp only [htb] at hcb
      obtain ⟨c,_,hcb⟩ := ok_of_bind hcb
      cases (Except.ok.inj hca).trans (Except.ok.inj hcb).symm
  | some x =>
    simp only [hta] at hca
    obtain ⟨c,hc,hca⟩ := ok_of_bind hca
    cases htb : truthy b.userSystemPrompt with
    | none =>
      simp only [htb] at hcb
      cases (Except.ok.inj hca).trans (Except.ok.inj hcb).symm
    | some y =>
      simp only [htb] at hcb
      obtain ⟨c',hc',hcb⟩ := ok_of_bind hcb
      have hsame : c=c' := Option.some.inj ((Except.ok.inj hca).trans (Except.ok.inj hcb).symm)
      subst hsame
      rw [text_of_checksum hinj (ha (by simp [hta])) (hb (by simp [htb])) hc hc']

/-- Prompts that count alike are the same where none is given for both or neither. -/
theorem prompt_eq_iff {x y : Option PyStr} (h : truthy x=truthy y) : x=y ↔ (x=none ↔ y=none) := by
  constructor
  · rintro rfl
    exact Iff.rfl
  · intro hnone
    cases x with
    | none => exact (hnone.mp rfl).symm
    | some x =>
      cases y with
      | none => exact nomatch hnone.mpr rfl
      | some y => by_cases hx : x=[] <;> by_cases hy : y=[] <;> simp_all [truthy,Option.filter]

/-- Sorted texts are the same exactly when the texts are, as often as they occur. -/
theorem sortedTexts_eq_iff {xs ys : List PyStr} : sortedTexts xs=sortedTexts ys ↔ xs.Perm ys := by
  constructor
  · intro h
    have hxs := (List.perm_insertionSort (· ≤ ·) xs).symm
    have hsorted : xs.Perm (sortedTexts ys) := h ▸ hxs
    exact hsorted.trans (List.perm_insertionSort _ ys)
  · intro h
    have hperm := (List.perm_insertionSort (· ≤ ·) xs).trans (h.trans (List.perm_insertionSort (· ≤ ·) ys).symm)
    exact hperm.eq_of_pairwise' (List.pairwise_insertionSort _ xs) (List.pairwise_insertionSort _ ys)

/-- The arguments' fingerprint of a managed identity. -/
def argsFingerprint (sha256 : Bytes → Digest) (clientArgs : List PyStr) : Except PyExc (Option PyStr) :=
  if clientArgs.isEmpty=true then .ok none else (fingerprintArguments sha256 clientArgs).map some

/-- A managed identity, by its checksums. -/
theorem fromKeyedInputs_ok {inputs : KeyedCallInputs} {files : PyDict} {i : ManagedCallIdentity}
    (h : fromKeyedInputs sha256 inputs files=.ok i) :
    ∃ args system context prompt,argsFingerprint sha256 inputs.clientArgs=.ok args ∧
      checksumPresent sha256 inputs.userSystemPrompt=.ok system ∧
      textChecksum sha256 inputs.context=.ok context ∧ textChecksum sha256 inputs.prompt=.ok prompt ∧
      i=⟨inputs.client,inputs.model,inputs.effort,context,prompt,files,args,system,inputs.grants.toFinset,
        inputs.allowPaths.toFinset⟩ := by
  have hstart : fromKeyedInputs sha256 inputs files=(argsFingerprint sha256 inputs.clientArgs >>= fun args => do
      let system ← checksumPresent sha256 inputs.userSystemPrompt
      let context ← textChecksum sha256 inputs.context
      let prompt ← textChecksum sha256 inputs.prompt
      return ⟨inputs.client,inputs.model,inputs.effort,context,prompt,files,args,system,inputs.grants.toFinset,
        inputs.allowPaths.toFinset⟩) := by
    unfold fromKeyedInputs argsFingerprint
    split <;> rfl
  rw [hstart] at h
  obtain ⟨args,hargs,h⟩ := ok_of_bind h
  obtain ⟨system,hsystem,h⟩ := ok_of_bind h
  obtain ⟨context,hcontext,h⟩ := ok_of_bind h
  obtain ⟨prompt,hprompt,h⟩ := ok_of_bind h
  exact ⟨args,system,context,prompt,hargs,hsystem,hcontext,hprompt,(Except.ok.inj h).symm⟩

/-- Two managed commands with one identity build one request exactly when they
list every path equally often, hold NULs in their arguments alike, and agree on
whether there is a system prompt. -/
theorem managedRequest_eq_iff (hinj : InjectiveOn sha256 a b) (hka : a.executionKind=.localManaged)
    (hkb : b.executionKind=.localManaged) {ia ib : ManagedCallIdentity}
    (ha : buildCallIdentity sha256 fileFingerprint a.toKeyedCallInputs=.ok ia)
    (hb : buildCallIdentity sha256 fileFingerprint b.toKeyedCallInputs=.ok ib)
    (hsame : SameIdentity (.managed ia) (.managed ib)) :
    managedRequest a=managedRequest b ↔ ForwardsAlike a b := by
  obtain ⟨itemsA,_,ha⟩ := ok_of_bind ha
  obtain ⟨itemsB,_,hb⟩ := ok_of_bind hb
  obtain ⟨argsA,systemA,contextA,promptA,hargsA,hsystemA,hcontextA,hpromptA,rfl⟩ := fromKeyedInputs_ok ha
  obtain ⟨argsB,systemB,contextB,promptB,hargsB,hsystemB,hcontextB,hpromptB,rfl⟩ := fromKeyedInputs_ok hb
  have hfields := hsame.1
  simp only [ManagedCallIdentity.mk.injEq] at hfields
  obtain ⟨_,hmodel,heffort,hcontext,hprompt,_,hargs,hsystem,hgrants,_⟩ := hfields
  subst hargs hsystem hcontext hprompt
  obtain ⟨hca,hpa,hsa⟩ := digested_texts (Or.inl hka)
  obtain ⟨hcb,hpb,hsb⟩ := digested_texts (Or.inl hkb)
  have hcontext : a.context=b.context := text_of_checksum hinj hca hcb hcontextA hcontextB
  have hprompt : a.prompt=b.prompt := text_of_checksum hinj hpa hpb hpromptA hpromptB
  have htruthy : truthy a.userSystemPrompt=truthy b.userSystemPrompt :=
    truthy_of_checksum hinj hsa hsb hsystemA hsystemB
  have hclientArgs : a.clientArgs.map (·.count 0)=b.clientArgs.map (·.count 0) → a.clientArgs=b.clientArgs := by
    intro hcount
    by_cases hempty : a.clientArgs.isEmpty=true
    · have hnil : a.clientArgs=[] := List.isEmpty_iff.mp hempty
      rw [hnil] at hcount ⊢
      exact (List.map_eq_nil_iff.mp hcount.symm).symm
    · have hempty' : ¬b.clientArgs.isEmpty=true := by
        intro hb'
        rw [List.isEmpty_iff.mp hb'] at hcount
        exact hempty (List.isEmpty_iff.mpr (List.map_eq_nil_iff.mp hcount))
      unfold argsFingerprint at hargsA hargsB
      rw [if_neg hempty] at hargsA
      rw [if_neg hempty'] at hargsB
      unfold fingerprintArguments at hargsA hargsB
      cases hca : textChecksum sha256 (joinText [0] a.clientArgs) with
      | error e => simp [hca,Except.map] at hargsA
      | ok c =>
        cases hcb : textChecksum sha256 (joinText [0] b.clientArgs) with
        | error e => simp [hcb,Except.map] at hargsB
        | ok c' =>
          rw [hca] at hargsA
          rw [hcb] at hargsB
          have hcc : c=c' := Option.some.inj ((Except.ok.inj hargsA).trans (Except.ok.inj hargsB).symm)
          subst hcc
          refine arguments_of_joined (text_of_checksum hinj ?_ ?_ hca hcb) hcount
          · simp [digestedTexts,hka,hempty]
          · simp [digestedTexts,hkb,hempty']
  unfold ForwardsAlike managedRequest
  simp only [hka,ManagedLocalRequest.mk.injEq,sortedTexts_eq_iff]
  constructor
  · rintro ⟨_,_,_,_,hsystem,hread,hadd,hargs,_⟩
    exact ⟨(prompt_eq_iff htruthy).mp hsystem,(List.perm_append_right_iff _).mp (hread.trans (hadd.symm.append_left _)),hadd,by rw [hargs]⟩
  · rintro ⟨hnone,hfiles,hfolders,hcount⟩
    exact ⟨hmodel,heffort,hcontext,hprompt,(prompt_eq_iff htruthy).mpr hnone,hfiles.append hfolders,hfolders,
      hclientArgs hcount,hgrants⟩

/-- Two API commands with one identity build one request exactly when the
fields that the identity leaves out are the same. -/
theorem apiRequest_eq_iff (hinj : InjectiveOn sha256 a b) (hka : a.executionKind=.api)
    (hkb : b.executionKind=.api) {ia : KeyedIdentity} (ha : keyedIdentity sha256 fileFingerprint a=.ok ia)
    (hb : keyedIdentity sha256 fileFingerprint b=.ok ia) : apiRequest a=apiRequest b ↔ ForwardsAlike a b := by
  simp only [keyedIdentity,hka] at ha
  simp only [keyedIdentity,hkb] at hb
  obtain ⟨contextA,hcontextA,ha⟩ := ok_of_bind ha
  obtain ⟨promptA,hpromptA,ha⟩ := ok_of_bind ha
  obtain ⟨systemA,hsystemA,ha⟩ := ok_of_bind ha
  obtain ⟨contextB,hcontextB,hb⟩ := ok_of_bind hb
  obtain ⟨promptB,hpromptB,hb⟩ := ok_of_bind hb
  obtain ⟨systemB,hsystemB,hb⟩ := ok_of_bind hb
  have hfields := (Except.ok.inj ha).trans (Except.ok.inj hb).symm
  simp only [KeyedIdentity.api.injEq,ApiCallIdentity.mk.injEq] at hfields
  obtain ⟨_,hmodel,hcontext,hprompt,hsystem,heffort⟩ := hfields
  subst hcontext hprompt hsystem
  obtain ⟨hca,hpa,hsa⟩ := digested_texts (Or.inr hka)
  obtain ⟨hcb,hpb,hsb⟩ := digested_texts (Or.inr hkb)
  have hcontext : a.context=b.context := text_of_checksum hinj hca hcb hcontextA hcontextB
  have hprompt : a.prompt=b.prompt := text_of_checksum hinj hpa hpb hpromptA hpromptB
  have htruthy : truthy a.userSystemPrompt=truthy b.userSystemPrompt :=
    truthy_of_checksum hinj hsa hsb hsystemA hsystemB
  unfold ForwardsAlike apiRequest
  simp only [hka,MlRequest.mk.injEq,hmodel,heffort,hcontext,hprompt,true_and,prompt_eq_iff htruthy]

/-- For two commands of one kind and one identity, the requests are the same
exactly when the two are alike in what the identity forgets. -/
theorem clientRequest_eq_iff (hkind : a.executionKind=b.executionKind) (hinj : InjectiveOn sha256 a b)
    {ia ib : KeyedIdentity} (ha : keyedIdentity sha256 fileFingerprint a=.ok ia)
    (hb : keyedIdentity sha256 fileFingerprint b=.ok ib) (hsame : SameIdentity ia ib) :
    clientRequest a=clientRequest b ↔ ForwardsAlike a b := by
  cases hka : a.executionKind with
  | localManaged =>
    have hkb := hkind.symm.trans hka
    simp only [keyedIdentity,hka] at ha
    simp only [keyedIdentity,hkb] at hb
    cases hia : buildCallIdentity sha256 fileFingerprint a.toKeyedCallInputs with
    | error e => simp [hia,Except.map] at ha
    | ok i =>
      cases hib : buildCallIdentity sha256 fileFingerprint b.toKeyedCallInputs with
      | error e => simp [hib,Except.map] at hb
      | ok i' =>
        rw [hia] at ha
        rw [hib] at hb
        cases Except.ok.inj ha
        cases Except.ok.inj hb
        simp only [clientRequest,hka,hkb,ClientRequest.managed.injEq]
        exact managedRequest_eq_iff hinj hka hkb hia hib hsame
  | localPassthrough =>
    have hkb := hkind.symm.trans hka
    simp only [keyedIdentity,hka] at ha
    simp only [keyedIdentity,hkb] at hb
    obtain ⟨c,hc,ha⟩ := ok_of_bind ha
    obtain ⟨c',hc',hb⟩ := ok_of_bind hb
    cases Except.ok.inj ha
    cases Except.ok.inj hb
    have hcc : c=c' := by
      injection hsame with hsame
      exact congrArg PassthroughCallIdentity.nativeArgsFingerprint hsame
    subst hcc
    simp only [clientRequest,hka,hkb,ClientRequest.passthrough.injEq,ForwardsAlike]
    constructor
    · intro h
      rw [h]
    · exact arguments_of_joined
        (text_of_checksum hinj (by simp [digestedTexts,hka]) (by simp [digestedTexts,hkb]) hc hc')
  | apiPassthrough =>
    have hkb := hkind.symm.trans hka
    simp only [keyedIdentity,hka] at ha
    simp only [keyedIdentity,hkb] at hb
    cases Except.ok.inj ha
    cases Except.ok.inj hb
    have hbody : hexdigest (sha256 a.rawBody)=hexdigest (sha256 b.rawBody) := by
      injection hsame with hsame
      exact congrArg ApiPassthroughCallIdentity.bodyFingerprint hsame
    have hraw := hinj a.rawBody (by simp [digestedBytes,hka]) b.rawBody (by simp [digestedBytes,hkb]) hbody
    simp [clientRequest,hka,hkb,hraw,ForwardsAlike]
  | api =>
    have hkb := hkind.symm.trans hka
    have hsame' : ia=ib := by
      simp only [keyedIdentity,hka] at ha
      obtain ⟨_,_,ha⟩ := ok_of_bind ha
      obtain ⟨_,_,ha⟩ := ok_of_bind ha
      obtain ⟨_,_,ha⟩ := ok_of_bind ha
      cases Except.ok.inj ha
      cases ib <;> exact hsame
    subst hsame'
    simp only [clientRequest,hka,hkb,ClientRequest.api.injEq]
    exact apiRequest_eq_iff hinj hka hkb ha hb

end Determined

/-- An API call of one prompt, with client arguments. -/
def apiCall (clientArgs : List PyStr) : RunMlExecutionCommand where
  executionKind := .api
  client := pyStr "gemini"
  model := pyStr "m"
  prompt := pyStr "p"
  clientArgs := clientArgs

/-- Two cacheable API calls with one identity send different requests. -/
theorem clientRequest_fails : ∃ a b : RunMlExecutionCommand,a.executionKind=b.executionKind ∧
    a.isUncacheable=false ∧ b.isUncacheable=false ∧ InjectiveOn positional a b ∧
    (∃ identity,keyedIdentity positional noFiles a=.ok identity ∧
      keyedIdentity positional noFiles b=.ok identity) ∧
    clientRequest a≠clientRequest b := by
  refine ⟨apiCall [],apiCall [pyStr "--deep"],rfl,rfl,rfl,?_,⟨_,rfl,rfl⟩,by decide +kernel⟩
  unfold InjectiveOn
  decide +kernel

/-- A managed call of one prompt, with folders that may be scanned. -/
def folderCall (folders : List PyStr) : RunMlExecutionCommand where
  executionKind := .localManaged
  client := pyStr "claude"
  model := pyStr "m"
  prompt := pyStr "p"
  allowPaths := folders
  scanTrust := true

/-- The identity of such a call. -/
def folderIdentity (folders : List PyStr) : ManagedCallIdentity where
  client := pyStr "claude"
  model := pyStr "m"
  effort := []
  contextFingerprint := hexdigest (positional [])
  promptFingerprint := hexdigest (positional [0x70])
  allowPaths := folders.toFinset

/-- The order of folders is in neither identity nor request. -/
theorem clientRequest_eq_folderCall :
    clientRequest (folderCall [pyStr "a",pyStr "b"])=clientRequest (folderCall [pyStr "b",pyStr "a"]) := by
  have hidentity : ∀ folders,keyedIdentity positional noFiles (folderCall folders)=
      .ok (.managed (folderIdentity folders)) := fun folders => rfl
  have hsame : SameIdentity (.managed (folderIdentity [pyStr "a",pyStr "b"]))
      (.managed (folderIdentity [pyStr "b",pyStr "a"])) := by
    refine ⟨?_,fun _ => rfl⟩
    have hset : [pyStr "a",pyStr "b"].toFinset=[pyStr "b",pyStr "a"].toFinset := by decide +kernel
    simp only [folderIdentity,hset]
  have hinj : InjectiveOn positional (folderCall [pyStr "a",pyStr "b"]) (folderCall [pyStr "b",pyStr "a"]) := by
    unfold InjectiveOn
    decide +kernel
  have halike : ForwardsAlike (folderCall [pyStr "a",pyStr "b"]) (folderCall [pyStr "b",pyStr "a"]) :=
    ⟨Iff.rfl,.nil,List.Perm.swap _ _ _,rfl⟩
  have hkind : (folderCall [pyStr "a",pyStr "b"]).executionKind=(folderCall [pyStr "b",pyStr "a"]).executionKind := rfl
  exact (clientRequest_eq_iff hkind hinj (hidentity _) (hidentity _) hsame).mpr halike

end GenericMlCache.ForwardedRequests
