import GenericMlCache.GatewayRelay
import GenericMlCache.UndisturbedRecordings

/-!
# What the gateway's caller sees

Requests one after another, no port faults and no purge. The cache behind the
gateway is a map from keys to bodies: the first 200 whose usage is read decides
what its key replays. Every exchange is what that map says, so the gateway is
transparent unless reading the usage of a 200 raises.
-/

namespace GenericMlCache.GatewayTransparency

open CallProgram CallAutomaton PythonText ExecutionModel SqliteStore ExecutionRepository ExecutionQueries
  RepositoryCalls ServicePorts StorePurge CachedExecution StoreSoundness UndisturbedRuns AnsweredRuns
  UndisturbedRecordings CallIdentityKeys MlExecutionCommands JsonText HttpRedirects GatewayRelay

/-- A request, what the upstream would answer, and what came of it. -/
structure Exchange where
  /-- The session of the gateway. -/
  sessionId : PyStr
  /-- The body of the request. -/
  rawBody : Bytes
  /-- What the upstream would answer. -/
  upstream : Upstream
  /-- Whether it was asked. -/
  calledUpstream : Bool
  /-- What the request was answered with. -/
  reply : Except PyExc HttpResponse

section Gateway
variable (lib : GatewayLibrary) (sha256 : Bytes → Digest)

/-- The identity of a request. -/
def messagesIdentity (rawBody : Bytes) : KeyedIdentity :=
  .apiPassthrough ⟨pyStr "anthropic-subscription",fileContentFingerprint sha256 rawBody⟩

/-- The key of a request. -/
def requestKey (rawBody : Bytes) : Option ExecutionKey := (messagesIdentity sha256 rawBody).generateKey sha256

/-- The usage of a response is read, or there is none. -/
def Accountable (response : UpstreamResponse) : Prop :=
  ∃ usage,parseUsage lib.toJsonLibrary response.body response.contentType=.ok usage

/-- What the relay finds of the usage fits the store. -/
def UsageFits (upstream : Upstream) : Prop :=
  ∀ response,lib.reached upstream=.responded response →
    ∀ usage,parseUsage lib.toJsonLibrary response.body response.contentType=.ok (some usage) → usage.storable=true

/-- What an upstream's answer is returned as, none where the relay raises. -/
def relayed (upstream : Upstream) : Option HttpResponse :=
  match lib.reached upstream with
  | .responded response =>
    if response.statusCode=200 then
      match parseUsage lib.toJsonLibrary response.body response.contentType with
      | .ok _ => some (200,response.body)
      | .error _ => none
    else some (response.statusCode,response.body)
  | .unreachable _ | .raised _ => none

/-- The body that an upstream's answer leaves to be replayed: a 200's. -/
def recording (upstream : Upstream) : Option Bytes :=
  ((relayed lib upstream).filter fun response => response.1=200).map Prod.snd

/-- The body that a key replays: the first one recorded under it. -/
def recalled (log : List Exchange) (key : ExecutionKey) : Option Bytes :=
  log.findSome? fun x => if requestKey sha256 x.rawBody=some key then recording lib x.upstream else none

/-- A reply is what the map of recorded bodies says: the body recorded, or the upstream's answer. -/
def Conforms (log : List Exchange) (key : ExecutionKey) (upstream : Upstream) (calledUpstream : Bool)
    (reply : Except PyExc HttpResponse) : Prop :=
  match recalled lib sha256 log key with
  | some body => calledUpstream=false ∧ reply=.ok (200,body)
  | none => calledUpstream=true ∧ match relayed lib upstream with
    | some response => reply=.ok response
    | none => ∃ e,reply=.error e

variable (fileFingerprint : PyStr → Except PyExc PyStr) (fingerprint : Bytes → Digest) (locks : LockMode)

/-- The requests so far, and the store they left. -/
inductive Exchanges : List Exchange → World → Prop
  | start : Exchanges [] World.empty
  | request {log : List Exchange} {w w' : World} {x : Exchange} {thread : ThreadId} {t : RunTrace}
      (h : Exchanges log w) (hformed : rejectMalformed lib.toJsonLibrary x.rawBody=.ok ()) (hfits : UsageFits lib x.upstream)
      (hrun : Ends (replyingRun RunMlExecutionCommand locks thread (relay lib x.upstream))
        (proxyMessages lib.toJsonLibrary sha256 fileFingerprint fingerprint x.sessionId x.rawBody) (w,RunTrace.blank)
        x.reply (w',t))
      (hcalled : x.calledUpstream=t.calledClient) : Exchanges (log ++ [x]) w'

end Gateway

section Keys
variable (sha256 : Bytes → Digest) {lib : GatewayLibrary}

/-- A digest's text encodes. -/
theorem encodable_hexdigest (digest : Digest) : encodable (hexdigest digest)=true := by
  have hpad : encodable (List.replicate (64-(pyStr (String.ofList (Nat.toDigits 16 digest))).length) 0x30)=true := by
    refine List.all_eq_true.mpr fun c hc => ?_
    rw [(List.mem_replicate.mp hc).2]
    rfl
  have hdigits := encodable_pyStr (String.ofList (Nat.toDigits 16 digest))
  have hboth : encodable (hexdigest digest)=(encodable _ && encodable _) := List.all_append
  rw [hboth,hpad,hdigits]
  rfl

/-- Every request has a key. -/
theorem requestKey_total (rawBody : Bytes) : ∃ key,requestKey sha256 rawBody=some key := by
  have hitems : ∀ e∈(messagesIdentity sha256 rawBody).keyData.items,encodable e.1=true ∧ encodable e.2=true := by
    intro e he
    rcases PyDict.mem_setItems _ he with hmem | hmem
    · simp only [ApiPassthroughCallIdentity.literal,List.mem_cons,List.not_mem_nil,or_false] at hmem
      rcases hmem with rfl | rfl | rfl
      · exact ⟨encodable_pyStr _,encodable_pyStr _⟩
      · exact ⟨encodable_pyStr _,encodable_pyStr _⟩
      · exact ⟨encodable_pyStr _,encodable_hexdigest _⟩
    · cases hmem
  obtain ⟨bytes,hbytes⟩ := checksumInputData_total hitems
  refine ⟨⟨sha256 bytes⟩,?_⟩
  unfold requestKey KeyedIdentity.generateKey KeyedIdentity.preimage
  rw [hbytes]
  rfl

/-- The identity that a request's command builds. -/
theorem runIdentity_messages {fileFingerprint : PyStr → Except PyExc PyStr} {sessionId : PyStr} {rawBody : Bytes}
    {key : ExecutionKey} (h : requestKey sha256 rawBody=some key) :
    runIdentity sha256 fileFingerprint (messagesCommand sessionId rawBody)=
      .ok ⟨key,pyStr "anthropic-subscription",[]⟩ := by
  have hkey : (messagesIdentity sha256 rawBody).generateKey sha256=some key := h
  have hidentity : keyedIdentity sha256 fileFingerprint (messagesCommand sessionId rawBody)=
      .ok (messagesIdentity sha256 rawBody) := rfl
  unfold runIdentity
  rw [hidentity]
  simp only [bind,Except.bind]
  unfold withKey
  rw [hkey]
  rfl

/-- What one more exchange adds to the map. -/
theorem recalled_snoc (log : List Exchange) (x : Exchange) (key : ExecutionKey) :
    recalled lib sha256 (log ++ [x]) key=
      (recalled lib sha256 log key).or
        (if requestKey sha256 x.rawBody=some key then recording lib x.upstream else none) := by
  unfold recalled
  rw [List.findSome?_append]
  cases hbody : (if requestKey sha256 x.rawBody=some key then recording lib x.upstream else none) with
  | none => rw [List.findSome?_cons,hbody,List.findSome?_nil]
  | some body => rw [List.findSome?_cons,hbody]

end Keys

section Documents
variable (fingerprint : Bytes → Digest) {lib : GatewayLibrary}

/-- The documents of a response: its body, and an empty stderr. -/
def messageDocuments (id : ExecutionId) (body : Bytes) (status : ArtifactStatus) : List Artifact :=
  [makeArtifact fingerprint id .stdout none body status,makeArtifact fingerprint id .stderr none [] status]

variable {fingerprint}

/-- The documents of a result whose text is a body. -/
theorem buildArtifacts_body {result : ClientRunResult} {body : Bytes} (hout : encodeUtf8 result.stdout=some body)
    (herr : result.stderr=[]) (hfiles : result.files=[]) (id : ExecutionId) (status : ArtifactStatus) :
    buildArtifacts fingerprint id result status=.ok (messageDocuments fingerprint id body status) := by
  have hstdout : encodeText result.stdout=.ok body := by
    unfold encodeText
    rw [hout]
  unfold buildArtifacts
  rw [hstdout,herr,hfiles]
  rfl

/-- Rows of a response's documents. -/
theorem insertArtifacts_message {id : ExecutionId} {body : Bytes} {status : ArtifactStatus}
    (hfits : body.length < 2^63) :
    ∀ document∈messageDocuments fingerprint id body status,insertArtifacts [document]=.ok [artifactRow document] := by
  intro document hdocument
  rcases List.mem_cons.mp hdocument with rfl | hlast
  · exact insertArtifacts_unnamed hfits
  · rw [List.mem_singleton.mp hlast]
    exact insertArtifacts_unnamed (Nat.two_pow_pos 63)

/-- A result whose text is a body fits the store. -/
theorem isStorable_body {result : ClientRunResult} {body : Bytes} (hout : encodeUtf8 result.stdout=some body)
    (herr : result.stderr=[]) (hfiles : result.files=[]) (hcode : sqliteInteger result.exitCode=true)
    (husage : result.tokenUsage.all TokenUsage.storable=true) (hfits : body.length < 2^63) :
    IsStorable fingerprint result where
  code := hcode
  usage := husage
  documents id status := ⟨_,buildArtifacts_body hout herr hfiles id status,insertArtifacts_message hfits⟩

/-- A response's text is its body. -/
theorem encodes (response : UpstreamResponse) : encodeUtf8 response.text=some response.body :=
  encodeUtf8_of_decodeUtf8 response.decodes

/-- The blobs of a response's documents. -/
theorem get_putDocuments (hempty : ∀ content,fingerprint content=fingerprint [] → content=[]) (blobs : BlobStore)
    (id : ExecutionId) (body : Bytes) (status : ArtifactStatus) :
    (putDocuments blobs (messageDocuments fingerprint id body status)).get (blobKeyFor fingerprint id body)=
        some body ∧
      (putDocuments blobs (messageDocuments fingerprint id body status)).get (blobKeyFor fingerprint id [])=
        some [] := by
  have hput : putDocuments blobs (messageDocuments fingerprint id body status)=
      (blobs.put (blobKeyFor fingerprint id body) body).put (blobKeyFor fingerprint id []) [] := rfl
  rw [hput]
  simp only [BlobStore.get_put,if_true,and_true]
  by_cases hkey : blobKeyFor fingerprint id body=blobKeyFor fingerprint id []
  · have hdigest : fingerprint body=fingerprint [] := (BlobKey.forExecution.inj hkey).2
    rw [if_pos hkey,hempty body hdigest]
  · rw [if_neg hkey]

/-- Blobs of other executions stay. -/
theorem get_putDocuments_other {id other : ExecutionId} (h : other≠id) (blobs : BlobStore) (body content : Bytes)
    (status : ArtifactStatus) :
    (putDocuments blobs (messageDocuments fingerprint id body status)).get (blobKeyFor fingerprint other content)=
      blobs.get (blobKeyFor fingerprint other content) := by
  have hput : putDocuments blobs (messageDocuments fingerprint id body status)=
      (blobs.put (blobKeyFor fingerprint id body) body).put (blobKeyFor fingerprint id []) [] := rfl
  have hne : ∀ kept,blobKeyFor fingerprint other content≠blobKeyFor fingerprint id kept := fun kept hkey =>
    h (BlobKey.forExecution.inj hkey).1
  rw [hput]
  simp only [BlobStore.get_put,if_neg (hne _)]

end Documents

section Stores
variable (lib : GatewayLibrary) (sha256 fingerprint : Bytes → Digest)

/-- A row serves a body. -/
structure Holds (w : World) (row : ExecutionRow) (body : Bytes) : Prop where
  /-- Its artifact rows are those of the body's documents. -/
  artifacts : ∃ status,List.Forall₂ IsRowOf (messageDocuments fingerprint row.executionId body status) row.artifacts
  /-- The body is stored. -/
  stdout : w.blobs.get (blobKeyFor fingerprint row.executionId body)=some body
  /-- So is the empty standard error. -/
  stderr : w.blobs.get (blobKeyFor fingerprint row.executionId [])=some []

/-- A key serves what the map says, and nothing where it says nothing. -/
def Serves (w : World) (key : ExecutionKey) : Option Bytes → Prop
  | none => w.db.currentRow key=none
  | some body => ∃ row,w.db.currentRow key=some row ∧ Holds fingerprint w row body

/-- The store keeps the map of recorded bodies. -/
structure Recalls (log : List Exchange) (w : World) : Prop where
  /-- Every row decodes. -/
  wf : WellFormed w.db
  /-- Every stored id was minted. -/
  minted : ∀ r∈w.db.executions,r.executionId∈w.minted
  /-- Each key serves what the map has for it. -/
  serves : ∀ key,Serves fingerprint w key (recalled lib sha256 log key)

variable {lib sha256 fingerprint} {log : List Exchange} {w w₀ : World}

/-- A new store keeps the empty map. -/
theorem Recalls.start : Recalls lib sha256 fingerprint [] World.empty where
  wf := WellFormed.empty
  minted _ hr := (List.not_mem_nil hr).elim
  serves _ := rfl

/-- A map depends on the content only. -/
theorem Recalls.same (h : Recalls lib sha256 fingerprint log w₀) (hsame : SameContent w₀ w) :
    Recalls lib sha256 fingerprint log w where
  wf := hsame.db ▸ h.wf
  minted := by
    rw [hsame.db,hsame.minted]
    exact h.minted
  serves key := by
    have hkey := h.serves key
    cases hbody : recalled lib sha256 log key with
    | none =>
      rw [hbody] at hkey
      show w.db.currentRow key=none
      rw [hsame.db]
      exact hkey
    | some body =>
      rw [hbody] at hkey
      obtain ⟨row,hrow,hholds⟩ := hkey
      refine ⟨row,by rw [hsame.db]; exact hrow,hholds.artifacts,?_,?_⟩
      · rw [hsame.blobs]
        exact hholds.stdout
      · rw [hsame.blobs]
        exact hholds.stderr

/-- A row added is among those with a generated id. -/
theorem minted_added {row : ExecutionRow} {documents : List Artifact} (h : Recalls lib sha256 fingerprint log w₀)
    (hadded : Added w₀ row documents w) : ∀ r∈w.db.executions,r.executionId∈w.minted := by
  intro r hr
  rw [hadded.rows] at hr
  rw [hadded.minted]
  rcases List.mem_append.mp hr with hold | hlast
  · exact List.mem_cons_of_mem _ (h.minted r hold)
  · rw [List.mem_singleton.mp hlast]
    exact List.mem_cons_self

/-- An exchange that records nothing keeps the map. -/
theorem Recalls.unserved (h : Recalls lib sha256 fingerprint log w₀) (hunserved : Unserved w₀ w) {x : Exchange}
    (hnone : recording lib x.upstream=none) : Recalls lib sha256 fingerprint (log ++ [x]) w := by
  obtain ⟨row,hadded,hcurrent⟩ := hunserved
  have hblobs : w.blobs=w₀.blobs := hadded.blobs
  refine ⟨hadded.wf,minted_added h hadded,fun key => ?_⟩
  have hkey := h.serves key
  have hrow : w.db.currentRow key=w₀.db.currentRow key := by
    rw [currentRow_last hadded.rows key,hcurrent key]
    rfl
  rw [recalled_snoc,hnone,ite_self,Option.or_none]
  cases hbody : recalled lib sha256 log key with
  | none =>
    rw [hbody] at hkey
    exact hrow.trans hkey
  | some body =>
    rw [hbody] at hkey
    obtain ⟨old,hold,hholds⟩ := hkey
    refine ⟨old,hrow.trans hold,hholds.artifacts,?_,?_⟩
    · rw [hblobs]
      exact hholds.stdout
    · rw [hblobs]
      exact hholds.stderr

/-- An exchange whose body is recorded adds it to the map. -/
theorem Recalls.recorded (hempty : ∀ content,fingerprint content=fingerprint [] → content=[])
    (h : Recalls lib sha256 fingerprint log w₀) {row : ExecutionRow} {x : Exchange} {body : Bytes}
    {key : ExecutionKey} {status : ArtifactStatus} {id : ExecutionId} (hkey : requestKey sha256 x.rawBody=some key)
    (hnone : recalled lib sha256 log key=none) (hbody : recording lib x.upstream=some body)
    (hid : row.executionId=id) (hadded : Added w₀ row (messageDocuments fingerprint id body status) w)
    (hcurrent : isCurrent key row=true)
    (hrows : List.Forall₂ IsRowOf (messageDocuments fingerprint id body status) row.artifacts) :
    Recalls lib sha256 fingerprint (log ++ [x]) w := by
  subst hid
  refine ⟨hadded.wf,minted_added h hadded,fun other => ?_⟩
  rw [recalled_snoc,hkey,hbody]
  by_cases hother : other=key
  · subst hother
    rw [hnone,if_pos rfl]
    have hget := get_putDocuments hempty w₀.blobs row.executionId body status
    refine ⟨row,?_,⟨status,hrows⟩,?_,?_⟩
    · rw [currentRow_last hadded.rows,if_pos hcurrent]
    · rw [hadded.blobs]
      exact hget.1
    · rw [hadded.blobs]
      exact hget.2
  · have hne : ¬some key=some other := fun heq => hother (Option.some.inj heq).symm
    have hrow : w.db.currentRow other=w₀.db.currentRow other := by
      have hnot : ¬isCurrent other row=true := fun hcur =>
        hother (((isCurrent_iff _ _).mp hcur).1.symm.trans ((isCurrent_iff _ _).mp hcurrent).1)
      rw [currentRow_last hadded.rows,if_neg hnot]
    have hserves := h.serves other
    rw [if_neg hne,Option.or_none]
    cases hold : recalled lib sha256 log other with
    | none =>
      rw [hold] at hserves
      exact hrow.trans hserves
    | some kept =>
      rw [hold] at hserves
      obtain ⟨old,hcur,hholds⟩ := hserves
      have hids : old.executionId≠row.executionId := hadded.fresh old (Db.currentRow_mem hcur).1
      refine ⟨old,hrow.trans hcur,hholds.artifacts,?_,?_⟩
      · rw [hadded.blobs,get_putDocuments_other hids]
        exact hholds.stdout
      · rw [hadded.blobs,get_putDocuments_other hids]
        exact hholds.stderr

end Stores

/-- What the relay answers, and what it leaves for the caller. -/
inductive RelayCase (lib : GatewayLibrary) (upstream : Upstream) : Prop where
  | raised (e : PyExc) (he : e.isInterrupt=false) (h : relay lib upstream=.error e)
      (hrelayed : relayed lib upstream=none)
  | success (response : UpstreamResponse) (usage : Option TokenUsage)
      (hreached : lib.reached upstream=.responded response)
      (husage : parseUsage lib.toJsonLibrary response.body response.contentType=.ok usage)
      (h : relay lib upstream=.ok { exitCode := 0, stdout := response.text, tokenUsage := usage })
      (hrelayed : relayed lib upstream=some (200,response.body))
  | failure (response : UpstreamResponse) (hstatus : response.statusCode≠200)
      (h : relay lib upstream=.ok { exitCode := response.statusCode, stdout := response.text })
      (hrelayed : relayed lib upstream=some ((response.statusCode : ℤ),response.body))

/-- The answer of a 200. -/
theorem toAnswer_ok {lib : JsonLibrary} {response : UpstreamResponse} (hstatus : response.statusCode=200) :
    toAnswer lib response.statusCode response.contentType response.body=
      (parseUsage lib response.body response.contentType >>= fun usage =>
        .ok { exitCode := 0, stdout := response.text, tokenUsage := usage }) := by
  have hdecoded : decodeOkBody lib response.body=.ok response.text := by
    unfold decodeOkBody
    rw [response.decodes]
  unfold toAnswer
  rw [if_pos hstatus,hdecoded]
  rfl

/-- The answer of any other status. -/
theorem toAnswer_other {lib : JsonLibrary} {response : UpstreamResponse} (hstatus : response.statusCode≠200) :
    toAnswer lib response.statusCode response.contentType response.body=
      .ok { exitCode := response.statusCode, stdout := response.text } := by
  have htext : decodeReplace lib response.body=response.text := by
    unfold decodeReplace
    rw [response.decodes]
    rfl
  unfold toAnswer
  rw [if_neg hstatus,htext]

/-- The relay raises, or answers with a 200 or with another status. -/
theorem relay_cases (lib : GatewayLibrary) (upstream : Upstream) : RelayCase lib upstream := by
  cases hreached : lib.reached upstream with
  | unreachable message =>
    refine .raised (providerApiError 0 message) rfl ?_ ?_
    · unfold relay
      rw [hreached]
    · unfold relayed
      rw [hreached]
  | raised message =>
    refine .raised (.other true message) rfl ?_ ?_
    · unfold relay
      rw [hreached]
    · unfold relayed
      rw [hreached]
  | responded response =>
    have hanswer : relay lib upstream=
        toAnswer lib.toJsonLibrary response.statusCode response.contentType response.body := by
      unfold relay
      rw [hreached]
    have hrelayed : relayed lib upstream=
        if response.statusCode=200 then
          match parseUsage lib.toJsonLibrary response.body response.contentType with
          | .ok _ => some (200,response.body)
          | .error _ => none
        else some ((response.statusCode : ℤ),response.body) := by
      unfold relayed
      rw [hreached]
    by_cases hstatus : response.statusCode=200
    · rw [toAnswer_ok hstatus] at hanswer
      rw [if_pos hstatus] at hrelayed
      cases husage : parseUsage lib.toJsonLibrary response.body response.contentType with
      | ok usage =>
        rw [husage] at hanswer hrelayed
        exact .success response usage hreached husage hanswer hrelayed
      | error e =>
        rw [husage] at hanswer hrelayed
        exact .raised e (parseUsage_error husage) hanswer hrelayed
    · rw [toAnswer_other hstatus] at hanswer
      rw [if_neg hstatus] at hrelayed
      exact .failure response hstatus hanswer hrelayed

section Step
variable {lib : GatewayLibrary} {sha256 fingerprint : Bytes → Digest} {fileFingerprint : PyStr → Except PyExc PyStr}
  {locks : LockMode} {thread : ThreadId} {log : List Exchange} {w : World} {x : Exchange} {key : ExecutionKey}

/-- A request keeps no input, has no tags, and evicts nothing. -/
theorem isPlain_messages (sessionId : PyStr) (rawBody : Bytes) :
    IsPlain (runMlExecutionService sha256 fileFingerprint none) (messagesCommand sessionId rawBody) where
  input := rfl
  tags := by
    show normalizeTags []=[]
    simp [normalizeTags]
  quota := rfl

/-- A body is found again among the documents. -/
theorem stdoutBytes_messages (id : ExecutionId) (body : Bytes) (status : ArtifactStatus) :
    stdoutBytes (messageDocuments fingerprint id body status)=body := rfl

/-- What the gateway returns for a replayed row. -/
theorem toHttpResponse_replayed {row : ExecutionRow} {body : Bytes} {r : Except PyExc MlExecution}
    (hserv : row.servable=true) (hholds : Holds fingerprint w row body) (h : Replayed row w r) :
    r.map toHttpResponse=.ok (200,body) := by
  obtain ⟨current,served,hload,rfl,hall⟩ := h
  obtain ⟨status,hrows⟩ := hholds.artifacts
  have hstate : current.executionState=.success :=
    loadExecution_state hload ((MutableColumns.servable_iff _).mp hserv).1
  rw [(loadExecution_ok hload).2.1] at hrows
  have hout : stdoutBytes served=body := by
    cases hartifacts : current.artifacts with
    | nil =>
      rw [hartifacts] at hrows
      exact nomatch hrows
    | cons first rest =>
      rw [hartifacts] at hrows hall
      cases hall with
      | cons hfirst _ =>
        obtain ⟨content,hget,rfl⟩ := hfirst
        obtain ⟨htype,_,hkey⟩ : IsRowOf _ (artifactRow first) := by
          cases hrows
          assumption
        have hkey : first.blobKey=blobKeyFor fingerprint row.executionId body := Column.value.inj hkey
        have htype : first.artifactType=.stdout := Column.value.inj htype
        rw [hkey,hholds.stdout] at hget
        cases hget
        unfold stdoutBytes
        simp only [htype]
  have hresponse : toHttpResponse { current with artifacts := served }=(200,body) :=
    toHttpResponse_success hstate hout
  exact congrArg Except.ok hresponse

/-- Without a recorded body the request is a miss. -/
theorem isMiss_messages (h : Recalls lib sha256 fingerprint log w) (hkey : requestKey sha256 x.rawBody=some key)
    (hnone : recalled lib sha256 log key=none) :
    IsMiss (runMlExecutionService sha256 fileFingerprint none) (messagesCommand x.sessionId x.rawBody)
      ⟨key,pyStr "anthropic-subscription",[]⟩ w where
  plain := isPlain_messages x.sessionId x.rawBody
  built := runIdentity_messages sha256 hkey
  cacheable := rfl
  mode := rfl
  depth := rfl
  client := by
    unfold bindText
    rw [if_pos (encodable_pyStr _)]
  model := rfl
  absent := by
    have hserves := h.serves key
    rw [hnone] at hserves
    exact hserves
  wf := h.wf
  minted := h.minted

/-- A status fits its column. -/
theorem sqliteInteger_status (response : UpstreamResponse) : sqliteInteger response.statusCode=true := by
  have hstatus := response.isStatus
  have hlower : -(2^63 : ℤ) ≤ response.statusCode := by omega
  have hupper : (response.statusCode : ℤ) < 2^63 := by omega
  unfold sqliteInteger
  rw [decide_eq_true hlower,decide_eq_true hupper]
  rfl

/-- A request persists what succeeded. -/
theorem shouldPersist_messages (sessionId : PyStr) (rawBody : Bytes) (succeeded : Bool) :
    (runMlExecutionService sha256 fileFingerprint none).shouldPersist (messagesCommand sessionId rawBody) succeeded=
      succeeded := by
  cases succeeded <;> rfl

/-- With a recorded body the request is a hit. -/
theorem isHit_messages (h : Recalls lib sha256 fingerprint log w) (hkey : requestKey sha256 x.rawBody=some key)
    {row : ExecutionRow} {body : Bytes} (hrow : w.db.currentRow key=some row) (hholds : Holds fingerprint w row body) :
    IsHit (runMlExecutionService sha256 fileFingerprint none) (messagesCommand x.sessionId x.rawBody)
      ⟨key,pyStr "anthropic-subscription",[]⟩ row w where
  plain := isPlain_messages x.sessionId x.rawBody
  built := runIdentity_messages sha256 hkey
  cacheable := rfl
  mode := rfl
  depth := rfl
  current := hrow
  wf := h.wf
  blobs a ha blobKey hblob := by
    obtain ⟨status,hrows⟩ := hholds.artifacts
    obtain ⟨document,hdocument,hrowOf⟩ := (mem_of_forall₂ hrows).1 a ha
    have hsame : document.blobKey=blobKey := Column.value.inj (hrowOf.2.2.symm.trans hblob)
    rcases List.mem_cons.mp hdocument with rfl | hlast
    · rw [← hsame]
      exact Option.isSome_of_eq_some hholds.stdout
    · rw [List.mem_singleton.mp hlast] at hsame
      rw [← hsame]
      exact Option.isSome_of_eq_some hholds.stderr

/-- A replay keeps the map. -/
theorem recalled_hit (hkey : requestKey sha256 x.rawBody=some key) {body : Bytes}
    (hbody : recalled lib sha256 log key=some body) (other : ExecutionKey) :
    recalled lib sha256 (log ++ [x]) other=recalled lib sha256 log other := by
  rw [recalled_snoc,hkey]
  by_cases hother : other=key
  · rw [hother,hbody]
    rfl
  · rw [if_neg fun heq => hother (Option.some.inj heq).symm,Option.or_none]

/-! The service and the command stay variables where a run is followed, so that
no step computes with the request. -/

variable {service : CachedMlExecutionService RunMlExecutionCommand} {command : RunMlExecutionCommand}
  {identity : CallIdentity}

/-- A request whose key has a body replays it. -/
theorem safe_hit (h : Recalls lib sha256 fingerprint log w) (hkey : requestKey sha256 x.rawBody=some key)
    {row : ExecutionRow} {body : Bytes} (hbody : recalled lib sha256 log key=some body)
    (hrow : w.db.currentRow key=some row) (hholds : Holds fingerprint w row body)
    (hhit : IsHit service command identity row w) :
    Safe (replyingRun RunMlExecutionCommand locks thread (relay lib x.upstream)) (fun _ => True)
      (fun r s => Conforms lib sha256 log key x.upstream s.2.calledClient (r.map toHttpResponse) ∧
        Recalls lib sha256 fingerprint (log ++ [x]) s.1)
      (execute service fingerprint command) (w,RunTrace.blank) := by
  refine (safe_execute_hit hhit).mono fun r s _ hr => ?_
  obtain ⟨⟨hreplayed,hsame⟩,hcalled⟩ := hr
  have hrecalls := h.same hsame
  have hreply : r.map toHttpResponse=.ok (200,body) :=
    toHttpResponse_replayed (Db.currentRow_mem hrow).2.2 hholds hreplayed
  refine ⟨?_,hrecalls.wf,hrecalls.minted,fun other => ?_⟩
  · unfold Conforms
    rw [hbody]
    exact ⟨hcalled,hreply⟩
  · rw [recalled_hit hkey hbody]
    exact hrecalls.serves other

/-- A reply is made of what the run returned. -/
theorem safe_mapped {α β : Type} {f : α → β} {p : ServiceM RunMlExecutionCommand α}
    {q : ServiceM RunMlExecutionCommand β} {sem : Sem (Call RunMlExecutionCommand) Call.Ret PyExc (World × RunTrace)}
    {Q : Except PyExc β → World × RunTrace → Prop} {s : World × RunTrace}
    (hq : q=(p >>= fun a => (pure (f a) : ServiceM RunMlExecutionCommand β)))
    (h : Safe sem (fun _ => True) (fun r s => Q (r.map f) s) p s) : Safe sem (fun _ => True) Q q s := by
  subst hq
  exact Safe.seq h (fun _ _ _ hr => Safe.pure trivial hr) fun _ _ _ hr => hr

/-- What a reply to a miss says. -/
theorem conforms_miss {called : Bool} {reply : Except PyExc HttpResponse} {upstream : Upstream}
    (hnone : recalled lib sha256 log key=none) (hcalled : called=true)
    (hreply : match relayed lib upstream with
      | some response => reply=.ok response
      | none => ∃ e,reply=.error e) : Conforms lib sha256 log key upstream called reply := by
  unfold Conforms
  rw [hnone]
  exact ⟨hcalled,hreply⟩

/-- A relay that raised is an error, and records nothing. -/
theorem safe_raised {e : PyExc} (h : Recalls lib sha256 fingerprint log w)
    (hnone : recalled lib sha256 log key=none) (hmiss : IsMiss service command identity w)
    (he : e.isInterrupt=false) (hrelay : relay lib x.upstream=.error e) (hrelayed : relayed lib x.upstream=none) :
    Safe (replyingRun RunMlExecutionCommand locks thread (relay lib x.upstream)) (fun _ => True)
      (fun r s => Conforms lib sha256 log key x.upstream s.2.calledClient (r.map toHttpResponse) ∧
        Recalls lib sha256 fingerprint (log ++ [x]) s.1)
      (execute service fingerprint command) (w,RunTrace.blank) := by
  have hrecording : recording lib x.upstream=none := by
    unfold recording
    rw [hrelayed]
    rfl
  rw [hrelay]
  refine (safe_execute_raised hmiss he).mono fun r s _ hr => ?_
  obtain ⟨⟨⟨e',rfl⟩,hunserved⟩,hcalled⟩ := hr
  refine ⟨conforms_miss hnone hcalled ?_,h.unserved hunserved hrecording⟩
  rw [hrelayed]
  exact ⟨e',rfl⟩

/-- A status other than 200 is returned with its body, and records nothing. -/
theorem safe_failure {response : UpstreamResponse} (h : Recalls lib sha256 fingerprint log w)
    (hnone : recalled lib sha256 log key=none) (hmiss : IsMiss service command identity w)
    (hpersist : ∀ succeeded,service.shouldPersist command succeeded=succeeded) (hstatus : response.statusCode≠200)
    (hrelay : relay lib x.upstream=.ok { exitCode := response.statusCode, stdout := response.text })
    (hrelayed : relayed lib x.upstream=some ((response.statusCode : ℤ),response.body)) :
    Safe (replyingRun RunMlExecutionCommand locks thread (relay lib x.upstream)) (fun _ => True)
      (fun r s => Conforms lib sha256 log key x.upstream s.2.calledClient (r.map toHttpResponse) ∧
        Recalls lib sha256 fingerprint (log ++ [x]) s.1)
      (execute service fingerprint command) (w,RunTrace.blank) := by
  have hrecording : recording lib x.upstream=none := by
    have hne : ¬(response.statusCode : ℤ)=200 := fun heq => hstatus (by omega)
    unfold recording
    rw [hrelayed,Option.filter_some,if_neg (by simpa using hne)]
    rfl
  have hfailed : ({ exitCode := response.statusCode, stdout := response.text } : ClientRunResult).succeeded=
      false := by
    have hpos := response.isStatus
    exact decide_eq_false (by show ¬(response.statusCode : ℤ)=0; omega)
  have hstorable : IsStorable fingerprint { exitCode := response.statusCode, stdout := response.text } :=
    isStorable_body (encodes response) rfl rfl (sqliteInteger_status response) rfl response.fits
  rw [hrelay]
  refine (safe_execute_unstored hmiss hstorable ((hpersist _).trans hfailed)).mono fun r s _ hr => ?_
  obtain ⟨⟨id,documents,hbuild,rfl,hunserved⟩,hcalled⟩ := hr
  cases hbuild.symm.trans (buildArtifacts_body (encodes response) rfl rfl id .stored)
  refine ⟨conforms_miss hnone hcalled ?_,h.unserved hunserved hrecording⟩
  rw [hrelayed]
  have hstate : (withOutcome (inProgressExecution service identity id command)
      { exitCode := response.statusCode, stdout := response.text }).executionState=.failed := by
    unfold withOutcome ClientRunResult.outcome
    rw [hfailed]
    rfl
  have hfailure : (withOutcome (inProgressExecution service identity id command)
      { exitCode := response.statusCode, stdout := response.text }).failure.bind (·.exitCode)=
        some (response.statusCode : ℤ) := by
    unfold withOutcome ClientRunResult.failure
    rw [hfailed]
    rfl
  exact congrArg Except.ok (toHttpResponse_failed hstate hfailure (stdoutBytes_messages id response.body .stored))

/-- A 200 whose usage is read is returned with its body, and recorded. -/
theorem safe_success {response : UpstreamResponse} {usage : Option TokenUsage}
    (hempty : ∀ content,fingerprint content=fingerprint [] → content=[]) (h : Recalls lib sha256 fingerprint log w)
    (hkey : requestKey sha256 x.rawBody=some identity.generateKey)
    (hnone : recalled lib sha256 log identity.generateKey=none) (hmiss : IsMiss service command identity w)
    (hpersist : ∀ succeeded,service.shouldPersist command succeeded=succeeded)
    (husage : usage.all TokenUsage.storable=true)
    (hrelay : relay lib x.upstream=.ok { exitCode := 0, stdout := response.text, tokenUsage := usage })
    (hrelayed : relayed lib x.upstream=some (200,response.body)) :
    Safe (replyingRun RunMlExecutionCommand locks thread (relay lib x.upstream)) (fun _ => True)
      (fun r s => Conforms lib sha256 log identity.generateKey x.upstream s.2.calledClient (r.map toHttpResponse) ∧
        Recalls lib sha256 fingerprint (log ++ [x]) s.1)
      (execute service fingerprint command) (w,RunTrace.blank) := by
  have hrecording : recording lib x.upstream=some response.body := by
    unfold recording
    rw [hrelayed]
    rfl
  have hstorable : IsStorable fingerprint { exitCode := 0, stdout := response.text, tokenUsage := usage } :=
    isStorable_body (encodes response) rfl rfl rfl husage response.fits
  rw [hrelay]
  refine (safe_execute_stored hmiss hstorable rfl (hpersist _)).mono fun r s _ hr => ?_
  obtain ⟨⟨id,documents,row,hbuild,rfl,hadded,hpromoted⟩,hcalled⟩ := hr
  cases hbuild.symm.trans (buildArtifacts_body (encodes response) rfl rfl id .pending)
  refine ⟨conforms_miss hnone hcalled ?_,h.recorded hempty hkey hnone hrecording hpromoted.id hadded
    hpromoted.current hpromoted.artifacts⟩
  rw [hrelayed]
  exact congrArg Except.ok (toHttpResponse_success rfl rfl)

/-- A call that hits where the map says so, and else misses, replies what the map says. -/
theorem safe_call (identity : CallIdentity) (hempty : ∀ content,fingerprint content=fingerprint [] → content=[])
    (h : Recalls lib sha256 fingerprint log w) (hfits : UsageFits lib x.upstream)
    (hkey : requestKey sha256 x.rawBody=some identity.generateKey)
    (hmiss : recalled lib sha256 log identity.generateKey=none → IsMiss service command identity w)
    (hhit : ∀ row body,w.db.currentRow identity.generateKey=some row → Holds fingerprint w row body →
      IsHit service command identity row w)
    (hpersist : ∀ succeeded,service.shouldPersist command succeeded=succeeded) :
    Safe (replyingRun RunMlExecutionCommand locks thread (relay lib x.upstream)) (fun _ => True)
      (fun r s => Conforms lib sha256 log identity.generateKey x.upstream s.2.calledClient (r.map toHttpResponse) ∧
        Recalls lib sha256 fingerprint (log ++ [x]) s.1)
      (execute service fingerprint command) (w,RunTrace.blank) := by
  cases hbody : recalled lib sha256 log identity.generateKey with
  | some body =>
    have hserves := h.serves identity.generateKey
    rw [hbody] at hserves
    obtain ⟨row,hrow,hholds⟩ := hserves
    exact safe_hit h hkey hbody hrow hholds (hhit row body hrow hholds)
  | none =>
    have hmiss := hmiss hbody
    cases relay_cases lib x.upstream with
    | raised e he hrelay hrelayed => exact safe_raised h hbody hmiss he hrelay hrelayed
    | failure response hstatus hrelay hrelayed =>
      exact safe_failure h hbody hmiss hpersist hstatus hrelay hrelayed
    | success response usage hreached husage hrelay hrelayed =>
      have hstorable : usage.all TokenUsage.storable=true := by
        cases usage with
        | none => rfl
        | some usage => exact hfits response hreached usage husage
      exact safe_success hempty h hkey hbody hmiss hpersist hstorable hrelay hrelayed

/-- A finished call replies what the map says, and the store keeps the map. -/
theorem ends_call (identity : CallIdentity) (hempty : ∀ content,fingerprint content=fingerprint [] → content=[])
    (h : Recalls lib sha256 fingerprint log w) (hfits : UsageFits lib x.upstream)
    (hkey : requestKey sha256 x.rawBody=some identity.generateKey)
    (hmiss : recalled lib sha256 log identity.generateKey=none → IsMiss service command identity w)
    (hhit : ∀ row body,w.db.currentRow identity.generateKey=some row → Holds fingerprint w row body →
      IsHit service command identity row w)
    (hpersist : ∀ succeeded,service.shouldPersist command succeeded=succeeded)
    {q : ServiceM RunMlExecutionCommand HttpResponse} {r : Except PyExc HttpResponse} {s : World × RunTrace}
    (hq : q=(execute service fingerprint command >>= fun execution =>
      (pure (toHttpResponse execution) : ServiceM RunMlExecutionCommand HttpResponse)))
    (hrun : Ends (replyingRun RunMlExecutionCommand locks thread (relay lib x.upstream)) q (w,RunTrace.blank) r s) :
    Conforms lib sha256 log identity.generateKey x.upstream s.2.calledClient r ∧
      Recalls lib sha256 fingerprint (log ++ [x]) s.1 := by
  have hsafe : Safe (replyingRun RunMlExecutionCommand locks thread (relay lib x.upstream)) (fun _ => True)
      (fun r s => Conforms lib sha256 log identity.generateKey x.upstream s.2.calledClient r ∧
        Recalls lib sha256 fingerprint (log ++ [x]) s.1) q (w,RunTrace.blank) :=
    safe_mapped hq (safe_call identity hempty h hfits hkey hmiss hhit hpersist)
  exact hsafe.result hrun

/-- One request: its reply is what the map says, and the store keeps the map. -/
theorem ends_messages (hempty : ∀ content,fingerprint content=fingerprint [] → content=[])
    (h : Recalls lib sha256 fingerprint log w) (hformed : rejectMalformed lib.toJsonLibrary x.rawBody=.ok ())
    (hfits : UsageFits lib x.upstream) (hkey : requestKey sha256 x.rawBody=some key) {s : World × RunTrace}
    (hrun : Ends (replyingRun RunMlExecutionCommand locks thread (relay lib x.upstream))
      (proxyMessages lib.toJsonLibrary sha256 fileFingerprint fingerprint x.sessionId x.rawBody) (w,RunTrace.blank) x.reply s) :
    Conforms lib sha256 log key x.upstream s.2.calledClient x.reply ∧
      Recalls lib sha256 fingerprint (log ++ [x]) s.1 := by
  have hstart : proxyMessages lib.toJsonLibrary sha256 fileFingerprint fingerprint x.sessionId x.rawBody=
      (execute (runMlExecutionService sha256 fileFingerprint none) fingerprint
        (messagesCommand x.sessionId x.rawBody) >>= fun execution =>
          (pure (toHttpResponse execution) : ServiceM RunMlExecutionCommand HttpResponse)) := by
    unfold proxyMessages
    rw [hformed]
    exact ofExcept_ok_bind _ _
  exact ends_call ⟨key,pyStr "anthropic-subscription",[]⟩ hempty h hfits hkey (isMiss_messages h hkey)
    (fun _ _ hrow hholds => isHit_messages h hkey hrow hholds) (shouldPersist_messages x.sessionId x.rawBody) hstart
    hrun

end Step

section Histories
variable {lib : GatewayLibrary} {sha256 fingerprint : Bytes → Digest} {fileFingerprint : PyStr → Except PyExc PyStr}
  {locks : LockMode} {log : List Exchange} {w : World} {key : ExecutionKey}

/-- Every exchange of a history replied what the exchanges before it say. -/
def ConformsAll (lib : GatewayLibrary) (sha256 : Bytes → Digest) (log : List Exchange) : Prop :=
  ∀ earlier x later,log=earlier ++ x::later → ∃ key,requestKey sha256 x.rawBody=some key ∧
    Conforms lib sha256 earlier key x.upstream x.calledUpstream x.reply

/-- One more exchange. -/
theorem ConformsAll.snoc (h : ConformsAll lib sha256 log) {x : Exchange}
    (hkey : requestKey sha256 x.rawBody=some key)
    (hx : Conforms lib sha256 log key x.upstream x.calledUpstream x.reply) :
    ConformsAll lib sha256 (log ++ [x]) := by
  intro earlier y later heq
  rcases List.eq_nil_or_concat later with rfl | ⟨later,z,rfl⟩
  · obtain ⟨hlog,hlast⟩ := List.append_inj' heq rfl
    cases hlast
    subst hlog
    exact ⟨key,hkey,hx⟩
  · rw [List.concat_eq_append,← List.cons_append,← List.append_assoc] at heq
    obtain ⟨hlog,_⟩ := List.append_inj' heq rfl
    exact h earlier y later hlog

/-- A history's store keeps its map, and every exchange conforms to it. -/
theorem Exchanges.conforms (hempty : ∀ content,fingerprint content=fingerprint [] → content=[])
    (h : Exchanges lib sha256 fileFingerprint fingerprint locks log w) :
    Recalls lib sha256 fingerprint log w ∧ ConformsAll lib sha256 log := by
  induction h with
  | start =>
    refine ⟨.start,fun earlier x later heq => ?_⟩
    exact absurd heq.symm (List.append_ne_nil_of_right_ne_nil _ (List.cons_ne_nil _ _))
  | @request log w w' x thread t h hformed hfits hrun hcalled ih =>
    obtain ⟨key,hkey⟩ := requestKey_total sha256 x.rawBody
    obtain ⟨hconforms,hrecalls⟩ := ends_messages hempty ih.1 hformed hfits hkey hrun
    refine ⟨hrecalls,ih.2.snoc hkey ?_⟩
    rw [hcalled]
    exact hconforms

/-- What more exchanges add to the map. -/
theorem recalled_append (log more : List Exchange) (key : ExecutionKey) :
    recalled lib sha256 (log ++ more) key=(recalled lib sha256 log key).or (recalled lib sha256 more key) :=
  List.findSome?_append

/-- The body of a key comes from the first exchange that recorded one under it. -/
theorem recalled_mem {body : Bytes} (h : recalled lib sha256 log key=some body) :
    ∃ earlier x later,log=earlier ++ x::later ∧ requestKey sha256 x.rawBody=some key ∧
      recording lib x.upstream=some body ∧ recalled lib sha256 earlier key=none := by
  induction log using List.reverseRecOn with
  | nil => cases h
  | append_singleton log x ih =>
    rw [recalled_snoc] at h
    cases hlog : recalled lib sha256 log key with
    | some kept =>
      rw [hlog] at h
      cases h
      obtain ⟨earlier,y,later,rfl,hfound⟩ := ih hlog
      exact ⟨earlier,y,later ++ [x],by simp,hfound⟩
    | none =>
      rw [hlog,Option.none_or] at h
      by_cases hkey : requestKey sha256 x.rawBody=some key
      · rw [if_pos hkey] at h
        exact ⟨log,x,[],rfl,hkey,h,hlog⟩
      · rw [if_neg hkey] at h
        cases h

/-- An exchange that recorded under a key leaves a body there. -/
theorem recalled_of_mem {x : Exchange} (hx : x∈log) (hkey : requestKey sha256 x.rawBody=some key) {body : Bytes}
    (hbody : recording lib x.upstream=some body) : recalled lib sha256 log key≠none := by
  intro hnone
  have hall := List.findSome?_eq_none_iff.mp hnone x hx
  rw [if_pos hkey,hbody] at hall
  exact nomatch hall

/-- What is relayed is the status and body of the response that is reached. -/
theorem relayed_eq_some {upstream : Upstream} {status : ℤ} {body : Bytes} :
    relayed lib upstream=some (status,body) ↔ ∃ response,lib.reached upstream=.responded response ∧
      (response.statusCode : ℤ)=status ∧ response.body=body ∧ (response.statusCode=200 → Accountable lib response) := by
  unfold relayed
  cases lib.reached upstream with
  | unreachable message | raised message =>
    constructor
    · exact fun h => nomatch h
    · rintro ⟨response,hresponse,_⟩
      exact nomatch hresponse
  | responded response =>
    simp only [Reached.responded.injEq,exists_eq_left',Accountable]
    by_cases hstatus : response.statusCode=200
    · simp only [hstatus,if_true,forall_true_left]
      cases husage : parseUsage lib.toJsonLibrary response.body response.contentType with
      | ok usage => simp
      | error e => simp
    · simp [hstatus]

/-- What is recorded is the body of a 200 whose usage is read. -/
theorem recording_eq_some {upstream : Upstream} {body : Bytes} :
    recording lib upstream=some body ↔ ∃ response,lib.reached upstream=.responded response ∧
      response.statusCode=200 ∧ Accountable lib response ∧ response.body=body := by
  have hrecording : recording lib upstream=some body ↔ relayed lib upstream=some (200,body) := by
    unfold recording
    cases relayed lib upstream with
    | none => simp
    | some response =>
      obtain ⟨status,kept⟩ := response
      by_cases hstatus : status=200
      · simp [hstatus]
      · simp [hstatus]
  rw [hrecording,relayed_eq_some]
  constructor
  · rintro ⟨response,hreached,hstatus,hbody,haccountable⟩
    have hok : response.statusCode=200 := by omega
    exact ⟨response,hreached,hok,haccountable hok,hbody⟩
  · rintro ⟨response,hreached,hok,haccountable,hbody⟩
    exact ⟨response,hreached,by omega,hbody,fun _ => haccountable⟩

omit lib in
/-- A 200 is what is reached. -/
theorem reached_ok {lib : GatewayLibrary} {response : UpstreamResponse} (hstatus : response.statusCode=200)
    (onward : Upstream) : lib.reached (.responded response onward)=.responded response := by
  have hother : isRedirect response.statusCode=false := by rw [hstatus]; rfl
  unfold GatewayLibrary.reached follow
  rw [redirection_other hother]

variable (lib sha256 log)

/-- What a transparent gateway's caller sees. -/
structure Transparent : Prop where
  /-- A miss returns the upstream's status and body. -/
  miss : ∀ x∈log,x.calledUpstream=true → ∀ response onward,x.upstream=.responded response onward →
    x.reply=.ok (response.statusCode,response.body)
  /-- After a 200 the same request gets the same 200, and the upstream is not called. -/
  replay : ∀ earlier x later y rest,log=earlier ++ x::later ++ y::rest → y.rawBody=x.rawBody →
    ∀ body,x.reply=.ok (200,body) → y.reply=.ok (200,body) ∧ y.calledUpstream=false
  /-- What is replayed is an earlier miss's 200 of the same key, so no other status is. -/
  replayed : ∀ earlier y rest,log=earlier ++ y::rest → y.calledUpstream=false →
    ∃ x∈earlier,requestKey sha256 x.rawBody=requestKey sha256 y.rawBody ∧ x.calledUpstream=true ∧
      ∃ response onward,x.upstream=.responded response onward ∧ response.statusCode=200 ∧
        y.reply=.ok (200,response.body)

/-- A response that can be returned: it is no redirect that is followed, or the redirects lead
to the same status and body; and reading the usage of a 200 raises nothing. -/
def Returnable (response : UpstreamResponse) (onward : Upstream) : Prop :=
  ∃ final,lib.reached (.responded response onward)=.responded final ∧ final.statusCode=response.statusCode ∧
    final.body=response.body ∧ (final.statusCode=200 → Accountable lib final)

/-- Where a response cannot be returned, the key has had a 200 whose usage was read. -/
def Accounted : Prop :=
  ∀ earlier x rest,log=earlier ++ x::rest → ∀ response onward,x.upstream=.responded response onward →
    ¬Returnable lib response onward →
      ∃ y∈earlier,requestKey sha256 y.rawBody=requestKey sha256 x.rawBody ∧
        ∃ first onward',y.upstream=.responded first onward' ∧ first.statusCode=200 ∧ Accountable lib first

variable {lib sha256 log}

/-- A response is returned as it is exactly when it can be. -/
theorem relayed_responded {response : UpstreamResponse} {onward : Upstream} :
    relayed lib (.responded response onward)=some ((response.statusCode : ℤ),response.body) ↔
      Returnable lib response onward := by
  rw [relayed_eq_some]
  simp only [Returnable,Nat.cast_inj]

/-- A 200 whose usage is read is recorded. -/
theorem recording_ok {response : UpstreamResponse} (hstatus : response.statusCode=200)
    (h : Accountable lib response) (onward : Upstream) :
    recording lib (.responded response onward)=some response.body :=
  recording_eq_some.mpr ⟨response,reached_ok hstatus onward,hstatus,h,rfl⟩

/-- An exchange that missed was a request of a key without a body. -/
theorem Conforms.of_called {upstream : Upstream} {reply : Except PyExc HttpResponse}
    (h : Conforms lib sha256 log key upstream true reply) : recalled lib sha256 log key=none ∧
      match relayed lib upstream with
      | some response => reply=.ok response
      | none => ∃ e,reply=.error e := by
  unfold Conforms at h
  cases hbody : recalled lib sha256 log key with
  | some body =>
    rw [hbody] at h
    exact nomatch h.1
  | none =>
    rw [hbody] at h
    exact ⟨rfl,h.2⟩

/-- An exchange that did not replayed the body of its key. -/
theorem Conforms.of_replayed {upstream : Upstream} {reply : Except PyExc HttpResponse}
    (h : Conforms lib sha256 log key upstream false reply) :
    ∃ body,recalled lib sha256 log key=some body ∧ reply=.ok (200,body) := by
  unfold Conforms at h
  cases hbody : recalled lib sha256 log key with
  | some body =>
    rw [hbody] at h
    exact ⟨body,rfl,h.2⟩
  | none =>
    rw [hbody] at h
    exact nomatch h.1

/-- Once a key has a body, every exchange replays it. -/
theorem Conforms.of_recalled {upstream : Upstream} {called : Bool} {reply : Except PyExc HttpResponse}
    {body : Bytes} (h : Conforms lib sha256 log key upstream called reply)
    (hbody : recalled lib sha256 log key=some body) : called=false ∧ reply=.ok (200,body) := by
  unfold Conforms at h
  rw [hbody] at h
  exact h

/-- A 200 leaves its body for its key. -/
theorem recalled_after {x : Exchange} {body : Bytes} (hkey : requestKey sha256 x.rawBody=some key)
    (h : Conforms lib sha256 log key x.upstream x.calledUpstream x.reply) (hreply : x.reply=.ok (200,body)) :
    recalled lib sha256 (log ++ [x]) key=some body := by
  rw [recalled_snoc,if_pos hkey]
  cases hcalled : x.calledUpstream with
  | false =>
    rw [hcalled] at h
    obtain ⟨kept,hkept,hsame⟩ := h.of_replayed
    cases hreply.symm.trans hsame
    rw [hkept]
    rfl
  | true =>
    rw [hcalled] at h
    obtain ⟨hnone,hrelayed⟩ := h.of_called
    rw [hnone,Option.none_or]
    unfold recording
    cases hresponse : relayed lib x.upstream with
    | none =>
      rw [hresponse] at hrelayed
      obtain ⟨e,he⟩ := hrelayed
      exact nomatch hreply.symm.trans he
    | some response =>
      rw [hresponse] at hrelayed
      cases hreply.symm.trans hrelayed
      rfl

/-- A history that conforms to its map is transparent where every response is accounted for. -/
theorem ConformsAll.transparent (h : ConformsAll lib sha256 log) (haccounted : Accounted lib sha256 log) :
    Transparent sha256 log := by
  -- A response of a key without a body can be returned.
  have hreturnable : ∀ earlier x rest,log=earlier ++ x::rest → ∀ key,requestKey sha256 x.rawBody=some key →
      recalled lib sha256 earlier key=none → ∀ response onward,x.upstream=.responded response onward →
        Returnable lib response onward := by
    intro earlier x rest heq key hkey hnone response onward hupstream
    by_contra hlost
    obtain ⟨y,hy,hsame,first,onward',hfirst,hok,hread⟩ :=
      haccounted earlier x rest heq response onward hupstream hlost
    have hrecording : recording lib y.upstream=some first.body := by
      rw [hfirst]
      exact recording_ok hok hread onward'
    exact recalled_of_mem hy (hsame.trans hkey) hrecording hnone
  refine ⟨fun x hx hcalled response onward hupstream => ?_,fun earlier x later y rest heq hraw body hreply => ?_,
    fun earlier y rest heq hcalled => ?_⟩
  · obtain ⟨earlier,rest,rfl⟩ := List.append_of_mem hx
    obtain ⟨key,hkey,hconforms⟩ := h earlier x rest rfl
    rw [hcalled,hupstream] at hconforms
    obtain ⟨hnone,hreply⟩ := hconforms.of_called
    rw [relayed_responded.mpr (hreturnable earlier x rest rfl key hkey hnone response onward hupstream)] at hreply
    exact hreply
  · obtain ⟨key,hkey,hx⟩ := h earlier x (later ++ y::rest) (by simp [heq])
    obtain ⟨key',hkey',hy⟩ := h (earlier ++ x::later) y rest heq
    rw [hraw,hkey] at hkey'
    cases hkey'
    have hafter : recalled lib sha256 (earlier ++ x::later) key=some body := by
      rw [List.append_cons,recalled_append,recalled_after hkey hx hreply]
      rfl
    obtain ⟨hcalled,hsame⟩ := hy.of_recalled hafter
    exact ⟨hsame,hcalled⟩
  · obtain ⟨key,hkey,hy⟩ := h earlier y rest heq
    rw [hcalled] at hy
    obtain ⟨body,hbody,hreply⟩ := hy.of_replayed
    obtain ⟨before,x,after,rfl,hsame,hrecording,hnone⟩ := recalled_mem hbody
    obtain ⟨key',hkey',hx⟩ := h before x (after ++ y::rest) (by simp [heq])
    cases hsame.symm.trans hkey'
    have hmissed : x.calledUpstream=true := by
      unfold Conforms at hx
      rw [hnone] at hx
      exact hx.1
    obtain ⟨final,hreached,hok,_,hfinal⟩ := recording_eq_some.mp hrecording
    cases hupstream : x.upstream with
    | unreachable message =>
      rw [hupstream] at hreached
      exact nomatch hreached
    | responded response onward =>
      rw [hupstream] at hreached
      obtain ⟨final',hreached',hstatus,hsameBody,_⟩ :=
        hreturnable before x (after ++ y::rest) (by simp [heq]) key hsame hnone response onward hupstream
      cases hreached.symm.trans hreached'
      refine ⟨x,by simp,hsame.trans hkey.symm,hmissed,response,onward,hupstream,hstatus.symm.trans hok,?_⟩
      rw [hreply,← hsameBody,hfinal]

/-- A transparent history that conforms to its map accounts for every response. -/
theorem ConformsAll.accounted (h : ConformsAll lib sha256 log) (htransparent : Transparent sha256 log) :
    Accounted lib sha256 log := by
  intro earlier x rest heq response onward hupstream hlost
  obtain ⟨key,hkey,hx⟩ := h earlier x rest heq
  cases hcalled : x.calledUpstream with
  | false =>
    obtain ⟨y,hy,hsame,hmissed,first,onward',hfirst,hok,_⟩ := htransparent.replayed earlier x rest heq hcalled
    refine ⟨y,hy,hsame,first,onward',hfirst,hok,?_⟩
    obtain ⟨before,after,rfl⟩ := List.append_of_mem hy
    obtain ⟨key',_,hconforms⟩ := h before y (after ++ x::rest) (by simp [heq])
    rw [hmissed,hfirst] at hconforms
    obtain ⟨_,hreply⟩ := hconforms.of_called
    have hreturned := htransparent.miss y (by simp [heq]) hmissed first onward' hfirst
    cases hrelayed : relayed lib (.responded first onward') with
    | none =>
      rw [hrelayed] at hreply
      obtain ⟨e,he⟩ := hreply
      exact nomatch he.symm.trans hreturned
    | some reply =>
      obtain ⟨final,hreached,_,_,haccountable⟩ := relayed_eq_some.mp hrelayed
      cases hreached.symm.trans (reached_ok hok onward')
      exact haccountable hok
  | true =>
    rw [hcalled,hupstream] at hx
    obtain ⟨_,hreply⟩ := hx.of_called
    have hreturned := htransparent.miss x (by simp [heq]) hcalled response onward hupstream
    refine absurd (relayed_responded.mp ?_) hlost
    cases hrelayed : relayed lib (.responded response onward) with
    | none =>
      rw [hrelayed] at hreply
      obtain ⟨e,he⟩ := hreply
      exact nomatch he.symm.trans hreturned
    | some reply =>
      rw [hrelayed] at hreply
      cases hreply.symm.trans hreturned
      rfl

/-- The gateway is transparent exactly where every response can be returned, unless its key
has a body already: no redirect leads elsewhere, and reading the usage of a 200 raises nothing. -/
theorem gateway_transparent_iff (hempty : ∀ content,fingerprint content=fingerprint [] → content=[])
    (h : Exchanges lib sha256 fileFingerprint fingerprint locks log w) :
    Transparent sha256 log ↔ Accounted lib sha256 log := by
  obtain ⟨_,hconforms⟩ := h.conforms hempty
  exact ⟨hconforms.accounted,hconforms.transparent⟩

end Histories

/-- `sys.set_int_max_str_digits()`: what its default rejects. -/
def digitsMessage : PyStr := pyStr "Exceeds the limit (4300 digits) for integer string conversion"

/-- A reader of one request, of the empty object and of natural numbers. -/
def smallLoads (text : PyStr) : Except LoadsError Json :=
  if text=pyStr "\x7b\"model\": \"\"\x7d" then .ok (.obj [(pyStr "model",.str [])])
  else if text=pyStr "\x7b\x7d" then .ok (.obj [])
  else if text≠[] ∧ ∀ c∈text,0x30 ≤ c.val ∧ c.val ≤ 0x39 then
    if 4300 < text.length then .error (.valueError digitsMessage)
    else .ok (.int (text.foldl (fun n c => n*10+(c.val-0x30)) 0 : ℕ))
  else .error .jsonDecodeError

/-- The reader of bytes. -/
def smallLoadsBytes (body : Bytes) : Except LoadsError Json :=
  match decodeUtf8 body with
  | some text => smallLoads text
  | none => .error .unicodeDecodeError

/-- Bytes are read as their text. -/
theorem smallLoadsBytes_of_decodes {body : Bytes} {text : PyStr} (h : decodeUtf8 body=some text) :
    smallLoadsBytes body=smallLoads text := by
  unfold smallLoadsBytes
  rw [h]

/-- The library with that reader, where a `Location` is the URL that it names. -/
def smallLibrary : GatewayLibrary where
  loads := smallLoads
  loadsBytes := smallLoadsBytes
  int
    | .int n => .ok n
    | _ => .error .typeError
  freeze _ := .ok ()
  replaced _ := []
  target _ named := .place named

/-- The body of the request. -/
def smallRequest : Bytes := (encodeUtf8 (pyStr "\x7b\"model\": \"\"\x7d")).getD []

/-- A 200 with an empty object. -/
def emptyObject : UpstreamResponse where
  statusCode := 200
  contentType := pyStr "application/json"
  body := [0x7b,0x7d]
  isStatus := by decide
  text := pyStr "\x7b\x7d"
  decodes := by decide
  fits := by decide

/-- Digits decode to themselves. -/
theorem decodeUtf8_ones (n : ℕ) : decodeUtf8 (List.replicate n 0x31)=some (List.replicate n 0x31) := by
  induction n with
  | zero => rfl
  | succ n ih =>
    have hstep : decodeUtf8 (0x31::List.replicate n 0x31)=
        (decodeUtf8 (List.replicate n 0x31)).map (Fin.ofNat 0x110000 0x31 :: ·) := by
      rw [decodeUtf8.eq_def]
      rfl
    rw [List.replicate_succ,List.replicate_succ,hstep,ih]
    rfl

/-- A 200 that is a number of so many digits. -/
def longNumber (n : ℕ) (h : n < 2^63) : UpstreamResponse where
  statusCode := 200
  contentType := pyStr "application/json"
  body := List.replicate n 0x31
  isStatus := by decide
  text := List.replicate n 0x31
  decodes := decodeUtf8_ones n
  fits := by rw [List.length_replicate]; exact h

/-- One request, driven. -/
def driven (client : Except PyExc ClientRunResult) (fresh : ExecutionId) (w : World) :
    ServiceM RunMlExecutionCommand HttpResponse × (World × RunTrace) :=
  drive (List.replicate 60 ((answerWith .exclusive 0 0 client fresh).watched watchRun))
    (proxyMessages smallLibrary.toJsonLibrary List.length (fun path => .ok path) List.length [] smallRequest)
    (w,RunTrace.blank)

/-- The text of the request. -/
theorem decodes_smallRequest : decodeUtf8 smallRequest=some (pyStr "\x7b\"model\": \"\"\x7d") := by
  decide +kernel

/-- The request is well formed. -/
theorem rejectMalformed_smallRequest : rejectMalformed smallLibrary.toJsonLibrary smallRequest=.ok () := by
  have hloads : smallLoadsBytes smallRequest=.ok (.obj [(pyStr "model",.str [])]) := by
    rw [smallLoadsBytes_of_decodes decodes_smallRequest]
    unfold smallLoads
    rw [if_pos rfl]
  have hmodel : (getItem [(pyStr "model",Json.str [])] "model").isSome=true := by decide
  have hlib : smallLibrary.loadsBytes=smallLoadsBytes := rfl
  unfold rejectMalformed
  rw [hlib,hloads]
  exact if_pos hmodel

/-- A request whose run ended is the next exchange. -/
theorem Exchanges.ended {log : List Exchange} {w : World} {upstream : Upstream}
    (h : Exchanges smallLibrary List.length (fun path => .ok path) List.length .exclusive log w)
    (hfits : UsageFits smallLibrary upstream) {reply : Except PyExc HttpResponse}
    {outcome : ServiceM RunMlExecutionCommand HttpResponse × (World × RunTrace)}
    (hrun : Reach (replyingRun RunMlExecutionCommand .exclusive 0 (relay smallLibrary upstream))
      (proxyMessages smallLibrary.toJsonLibrary List.length (fun path => .ok path) List.length [] smallRequest) (w,RunTrace.blank)
      outcome.1 outcome.2)
    (hreply : outcome.1=.done reply) :
    Exchanges smallLibrary List.length (fun path => .ok path) List.length .exclusive
      (log ++ [⟨[],smallRequest,upstream,outcome.2.2.calledClient,reply⟩]) outcome.2.1 := by
  obtain ⟨ended,w',t⟩ := outcome
  have hend : ended=.done reply := hreply
  subst hend
  exact .request h rejectMalformed_smallRequest hfits hrun rfl

/-- A driven request is a run. -/
theorem driven_reach (client : Except PyExc ClientRunResult) (fresh : ExecutionId) (w : World) :
    Reach (replyingRun RunMlExecutionCommand .exclusive 0 client)
      (proxyMessages smallLibrary.toJsonLibrary List.length (fun path => .ok path) List.length [] smallRequest) (w,RunTrace.blank)
      (driven client fresh w).1 (driven client fresh w).2 := by
  refine drive_reach _ (fun handler hmem => ?_) _ _
  rw [List.eq_of_mem_replicate hmem]
  exact answerWith_replies fresh

/-- JSON is no event stream. -/
theorem not_eventStream : ¬pyStr "text/event-stream" <:+: lower (pyStr "application/json") := by decide +kernel

/-- Reading the usage of the empty object finds none. -/
theorem parseUsage_emptyObject : parseUsage smallLibrary.toJsonLibrary emptyObject.body emptyObject.contentType=.ok none := by
  have htext : emptyObject.text=pyStr "\x7b\x7d" := rfl
  have hother : pyStr "\x7b\x7d"≠pyStr "\x7b\"model\": \"\"\x7d" := by decide
  have hloads : smallLoadsBytes emptyObject.body=.ok (.obj []) := by
    rw [smallLoadsBytes_of_decodes emptyObject.decodes,htext]
    unfold smallLoads
    rw [if_neg hother,if_pos rfl]
  have hstream : ¬pyStr "text/event-stream" <:+: lower emptyObject.contentType := not_eventStream
  have hlib : smallLibrary.loadsBytes=smallLoadsBytes := rfl
  unfold parseUsage
  rw [if_neg hstream]
  unfold parseUsageJson
  rw [hlib,hloads]
  rfl

section LongNumber
variable {n : ℕ} (hlong : 4300 < n) (hfits : n < 2^63)
include hlong

/-- The number is rejected as too long. -/
theorem smallLoads_ones : smallLoads (List.replicate n 0x31)=.error (.valueError digitsMessage) := by
  have hother : ∀ text : PyStr,text.length ≤ 4300 → List.replicate n (0x31 : Fin 0x110000)≠text := by
    rintro text hlength rfl
    rw [List.length_replicate] at hlength
    omega
  have hdigits : List.replicate n (0x31 : Fin 0x110000)≠[] ∧
      ∀ c∈List.replicate n (0x31 : Fin 0x110000),0x30 ≤ c.val ∧ c.val ≤ 0x39 := by
    refine ⟨hother [] (Nat.zero_le _),fun c hc => ?_⟩
    rw [List.eq_of_mem_replicate hc]
    decide
  have hrequest : (pyStr "\x7b\"model\": \"\"\x7d").length ≤ 4300 := by decide
  have hobject : (pyStr "\x7b\x7d").length ≤ 4300 := by decide
  have hlength : 4300 < (List.replicate n (0x31 : Fin 0x110000)).length := by rwa [List.length_replicate]
  unfold smallLoads
  rw [if_neg (hother _ hrequest),if_neg (hother _ hobject),if_pos hdigits,if_pos hlength]

/-- Reading the usage of the number raises. -/
theorem parseUsage_longNumber : parseUsage smallLibrary.toJsonLibrary (longNumber n hfits).body (longNumber n hfits).contentType=
    .error (.other true digitsMessage) := by
  have hloads : smallLoadsBytes (longNumber n hfits).body=.error (.valueError digitsMessage) := by
    rw [smallLoadsBytes_of_decodes (longNumber n hfits).decodes]
    exact smallLoads_ones hlong
  have htype : (longNumber n hfits).contentType=pyStr "application/json" := rfl
  have hlib : smallLibrary.loadsBytes=smallLoadsBytes := rfl
  unfold parseUsage
  rw [htype,if_neg not_eventStream]
  unfold parseUsageJson
  rw [hlib,hloads]

/-- What the relay answers for the number. -/
theorem relay_longNumber (onward : Upstream) : relay smallLibrary (.responded (longNumber n hfits) onward)=
    .error (.other true digitsMessage) := by
  have hstatus : (longNumber n hfits).statusCode=200 := rfl
  unfold relay
  rw [reached_ok hstatus]
  dsimp only
  rw [toAnswer_ok hstatus,parseUsage_longNumber hlong hfits]
  rfl

end LongNumber

/-- What the relay answers for the empty object. -/
theorem relay_emptyObject (onward : Upstream) : relay smallLibrary (.responded emptyObject onward)=
    .ok { exitCode := 0, stdout := pyStr "\x7b\x7d" } := by
  have hstatus : emptyObject.statusCode=200 := rfl
  unfold relay
  rw [reached_ok hstatus]
  dsimp only
  rw [toAnswer_ok hstatus,parseUsage_emptyObject]
  rfl

/-- What the first request of the empty object leaves. -/
def answeredStore : ServiceM RunMlExecutionCommand HttpResponse × (World × RunTrace) :=
  driven (.ok { exitCode := 0, stdout := pyStr "\x7b\x7d" }) ⟨1⟩ World.empty

/-- The same request again, while the upstream cannot be reached. -/
def repeatedRequest : ServiceM RunMlExecutionCommand HttpResponse × (World × RunTrace) :=
  driven (.error (providerApiError 0 [])) ⟨2⟩ answeredStore.2.1

/-- A 200 with an empty object, and no other request. -/
def emptyAnswered : Upstream := .responded emptyObject (.unreachable [])

/-- The two requests. -/
def repeatedLog : List Exchange :=
  [⟨[],smallRequest,emptyAnswered,true,.ok (200,[0x7b,0x7d])⟩,
    ⟨[],smallRequest,.unreachable [],false,.ok (200,[0x7b,0x7d])⟩]

/-- The usage of the empty object fits: there is none. -/
theorem fits_emptyAnswered : UsageFits smallLibrary emptyAnswered := by
  intro response hreached usage husage
  cases hreached.symm.trans (reached_ok rfl _)
  exact nomatch parseUsage_emptyObject.symm.trans husage

/-- The two requests are a history. -/
theorem repeatedLog_exchanges :
    Exchanges smallLibrary List.length (fun path => .ok path) List.length .exclusive repeatedLog repeatedRequest.2.1 := by
  have hfirst : answeredStore.1.value=some (200,[0x7b,0x7d]) ∧ answeredStore.2.2.calledClient=true := by
    decide +kernel
  have hsecond : repeatedRequest.1.value=some (200,[0x7b,0x7d]) ∧ repeatedRequest.2.2.calledClient=false := by
    decide +kernel
  have hrun : Reach (replyingRun RunMlExecutionCommand .exclusive 0 (relay smallLibrary emptyAnswered))
      (proxyMessages smallLibrary.toJsonLibrary List.length (fun path => .ok path) List.length [] smallRequest)
      (World.empty,RunTrace.blank) answeredStore.1 answeredStore.2 := by
    unfold emptyAnswered
    rw [relay_emptyObject]
    exact driven_reach _ _ _
  have hone := Exchanges.start.ended fits_emptyAnswered hrun (Prog.value_eq_some.mp hfirst.1)
  have hrepeat : Reach (replyingRun RunMlExecutionCommand .exclusive 0 (relay smallLibrary (.unreachable [])))
      (proxyMessages smallLibrary.toJsonLibrary List.length (fun path => .ok path) List.length [] smallRequest)
      (answeredStore.2.1,RunTrace.blank) repeatedRequest.1 repeatedRequest.2 := driven_reach _ _ _
  have hunreachable : UsageFits smallLibrary (.unreachable []) := fun _ hreached => nomatch hreached
  have htwo := hone.ended hunreachable hrepeat (Prog.value_eq_some.mp hsecond.1)
  rw [hfirst.2,hsecond.2] at htwo
  exact htwo

/-- The empty object is returned and replayed. -/
theorem gateway_transparent_repeated : Transparent List.length repeatedLog ∧
    (repeatedLog.map fun x => x.calledUpstream)=[true,false] := by
  have hempty : ∀ content : Bytes,content.length=([] : Bytes).length → content=[] := fun content h =>
    List.length_eq_zero_iff.mp h
  refine ⟨(gateway_transparent_iff hempty repeatedLog_exchanges).mpr ?_,rfl⟩
  intro earlier x rest heq response onward hupstream hlost
  have hx : x∈repeatedLog := by
    rw [heq]
    simp
  simp only [repeatedLog,List.mem_cons,List.not_mem_nil,or_false] at hx
  rcases hx with rfl | rfl
  · cases hupstream
    exact absurd ⟨emptyObject,reached_ok rfl _,rfl,rfl,fun _ => ⟨_,parseUsage_emptyObject⟩⟩ hlost
  · cases hupstream

/-- A request that is answered with a number of 4301 digits. -/
def numberedRequest : ServiceM RunMlExecutionCommand HttpResponse × (World × RunTrace) :=
  driven (.error (.other true digitsMessage)) ⟨1⟩ World.empty

/-- A 200 that is a number of 4301 digits is not returned: the request raises. -/
theorem gateway_transparent_longNumber : ∃ log w,
    Exchanges smallLibrary List.length (fun path => .ok path) List.length .exclusive log w ∧
      ¬Transparent List.length log := by
  have hbound : 4301 < 2^63 := by omega
  have hraised : numberedRequest.1.raised=some (.other true digitsMessage) ∧
      numberedRequest.2.2.calledClient=true := by decide +kernel
  have hlong : 4300 < 4301 := by omega
  have hfits : UsageFits smallLibrary (.responded (longNumber 4301 hbound) (.unreachable [])) := by
    intro response hreached usage husage
    cases hreached.symm.trans (reached_ok rfl _)
    exact nomatch (parseUsage_longNumber hlong hbound).symm.trans husage
  have hrun : Reach (replyingRun RunMlExecutionCommand .exclusive 0
        (relay smallLibrary (.responded (longNumber 4301 hbound) (.unreachable []))))
      (proxyMessages smallLibrary.toJsonLibrary List.length (fun path => .ok path) List.length [] smallRequest)
      (World.empty,RunTrace.blank) numberedRequest.1 numberedRequest.2 := by
    rw [relay_longNumber hlong hbound]
    exact driven_reach _ _ _
  have hlog := Exchanges.start.ended hfits hrun (Prog.raised_eq_some.mp hraised.1)
  rw [hraised.2] at hlog
  refine ⟨_,_,hlog,fun htransparent => ?_⟩
  have hreturned := htransparent.miss _ (List.mem_singleton_self _) rfl _ _ rfl
  exact nomatch hreturned

end GenericMlCache.GatewayTransparency
