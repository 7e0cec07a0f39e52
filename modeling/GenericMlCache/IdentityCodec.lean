import GenericMlCache.CallIdentityKeys
import GenericMlCache.JsonRoundTrip

/-!
# The identity codec

An identity of any kind as one JSON text and back. The fields stand under their
dataclass names, beside the kind that selects the class and three columns that
only a store adapter reads.
-/

namespace GenericMlCache.IdentityCodec

open PythonText ExecutionModel CallIdentityKeys JsonText JsonRoundTrip

/-- An optional text as JSON. -/
def optionalJson : Option PyStr → Json
  | none => .null
  | some s => .str s

/-- `_jsonable` of a mapping of texts. -/
def mappingJson (d : PyDict) : Json := .obj (d.items.map fun e => (e.1,.str e.2))

/-- `_jsonable` of a set of texts. -/
def setJson (texts : Finset PyStr) : Json := .arr ((texts.sort (· ≤ ·)).map .str)

/-- The dataclass fields of an identity, in their order. -/
def identityFields : KeyedIdentity → List (PyStr × Json)
  | .managed i =>
    [(pyStr "client",.str i.client),(pyStr "model",.str i.model),(pyStr "effort",.str i.effort),
      (pyStr "context_fingerprint",.str i.contextFingerprint),
      (pyStr "prompt_fingerprint",.str i.promptFingerprint),
      (pyStr "input_file_fingerprints",mappingJson i.inputFileFingerprints),
      (pyStr "client_args_fingerprint",optionalJson i.clientArgsFingerprint),
      (pyStr "system_fingerprint",optionalJson i.systemFingerprint),(pyStr "grants",setJson i.grants),
      (pyStr "allow_paths",setJson i.allowPaths)]
  | .passthrough i =>
    [(pyStr "client",.str i.client),(pyStr "native_args_fingerprint",.str i.nativeArgsFingerprint)]
  | .api i =>
    [(pyStr "provider",.str i.provider),(pyStr "model",.str i.model),
      (pyStr "context_fingerprint",.str i.contextFingerprint),
      (pyStr "prompt_fingerprint",.str i.promptFingerprint),
      (pyStr "system_fingerprint",optionalJson i.systemFingerprint),(pyStr "effort",.str i.effort)]
  | .apiPassthrough i => [(pyStr "client",.str i.client),(pyStr "body_fingerprint",.str i.bodyFingerprint)]

/-- `summary_client`. -/
def summaryClient : KeyedIdentity → PyStr
  | .managed i => i.client
  | .passthrough i => i.client
  | .api i => i.provider
  | .apiPassthrough i => i.client

/-- `summary_model`. -/
def summaryModel : KeyedIdentity → PyStr
  | .managed i => i.model
  | .api i => i.model
  | .passthrough _ | .apiPassthrough _ => []

/-- `str(fields.get("effort", ""))`. -/
def summaryEffort : KeyedIdentity → PyStr
  | .managed i => i.effort
  | .api i => i.effort
  | .passthrough _ | .apiPassthrough _ => []

/-- The payload of an identity. -/
def identityPayload (i : KeyedIdentity) : Json :=
  .obj [(pyStr "kind",.str (kindValue i.kind)),(pyStr "client",.str (summaryClient i)),
    (pyStr "model",.str (summaryModel i)),(pyStr "effort",.str (summaryEffort i)),
    (pyStr "fields",.obj (identityFields i))]

/-- `serialize_call_identity`. -/
def serializeCallIdentity (floatRepr : UInt64 → PyStr) (i : KeyedIdentity) : Except PyExc PyStr :=
  dumps floatRepr (identityPayload i)

/-- What `deserialize_call_identity` raises, and what it builds without a complaint
but no identity of the declared field types is. -/
inductive DeserializeError where
  | loads (e : LoadsError)
  | attributeError
  /-- ValueError: cannot deserialize unknown identity kind. -/
  | unknownKind
  | typeError
  | illTyped

/-- A text field. -/
def textField (fields : List (PyStr × Json)) (name : String) : Except DeserializeError PyStr :=
  match getItem fields name with
  | some (.str s) => .ok s
  | some _ => .error .illTyped
  | none => .error .typeError

/-- A text field with a default. -/
def defaultedField (fields : List (PyStr × Json)) (name : String) (default : PyStr) :
    Except DeserializeError PyStr :=
  match getItem fields name with
  | some (.str s) => .ok s
  | some _ => .error .illTyped
  | none => .ok default

/-- An optional text field, None by default. -/
def optionalField (fields : List (PyStr × Json)) (name : String) : Except DeserializeError (Option PyStr) :=
  match getItem fields name with
  | some (.str s) => .ok (some s)
  | some .null | none => .ok none
  | some _ => .error .illTyped

/-- A text among the items of a list or a dict. -/
def asText : Json → Except DeserializeError PyStr
  | .str s => .ok s
  | _ => .error .illTyped

/-- A field that `frozenset` is applied to, empty by default. -/
def setField (fields : List (PyStr × Json)) (name : String) : Except DeserializeError (Finset PyStr) :=
  match getItem fields name with
  | some (.arr items) => (items.mapM asText).map List.toFinset
  | some _ => .error .illTyped
  | none => .ok ∅

/-- A field that `dict` is applied to, empty by default. -/
def mappingField (fields : List (PyStr × Json)) (name : String) : Except DeserializeError PyDict :=
  match getItem fields name with
  | some (.obj items) => do
    let texts ← items.mapM fun e => (asText e.2).map fun s => (e.1,s)
    return PyDict.empty.setItems texts
  | some _ => .error .illTyped
  | none => .ok .empty

/-- `ManagedCallIdentity(**kwargs)`. -/
def managedOf (fields : List (PyStr × Json)) : Except DeserializeError ManagedCallIdentity := do
  let client ← textField fields "client"
  let model ← textField fields "model"
  let effort ← textField fields "effort"
  let contextFingerprint ← textField fields "context_fingerprint"
  let promptFingerprint ← textField fields "prompt_fingerprint"
  let inputFileFingerprints ← mappingField fields "input_file_fingerprints"
  let clientArgsFingerprint ← optionalField fields "client_args_fingerprint"
  let systemFingerprint ← optionalField fields "system_fingerprint"
  let grants ← setField fields "grants"
  let allowPaths ← setField fields "allow_paths"
  return { client,model,effort,contextFingerprint,promptFingerprint,inputFileFingerprints,
           clientArgsFingerprint,systemFingerprint,grants,allowPaths }

/-- `PassthroughCallIdentity(**kwargs)`. -/
def passthroughOf (fields : List (PyStr × Json)) : Except DeserializeError PassthroughCallIdentity := do
  let client ← textField fields "client"
  let nativeArgsFingerprint ← textField fields "native_args_fingerprint"
  return { client,nativeArgsFingerprint }

/-- `ApiCallIdentity(**kwargs)`. -/
def apiOf (fields : List (PyStr × Json)) : Except DeserializeError ApiCallIdentity := do
  let provider ← textField fields "provider"
  let model ← textField fields "model"
  let contextFingerprint ← textField fields "context_fingerprint"
  let promptFingerprint ← textField fields "prompt_fingerprint"
  let systemFingerprint ← optionalField fields "system_fingerprint"
  let effort ← defaultedField fields "effort" []
  return { provider,model,contextFingerprint,promptFingerprint,systemFingerprint,effort }

/-- `ApiPassthroughCallIdentity(**kwargs)`. -/
def apiPassthroughOf (fields : List (PyStr × Json)) : Except DeserializeError ApiPassthroughCallIdentity := do
  let client ← textField fields "client"
  let bodyFingerprint ← textField fields "body_fingerprint"
  return { client,bodyFingerprint }

/-- `_TYPE_BY_KIND.get(kind)`. -/
def typeByKind (kind : Option Json) : Except DeserializeError ExecutionKind :=
  match kind with
  | some (.str s) =>
    match [ExecutionKind.localManaged,.localPassthrough,.api,.apiPassthrough].find? fun k => kindValue k=s with
    | some kind => .ok kind
    | none => .error .unknownKind
  -- a list and a dict cannot be looked up
  | some (.arr _) | some (.obj _) => .error .typeError
  | _ => .error .unknownKind

/-- The class of a kind, applied to the fields it has. -/
def identityOf (kind : ExecutionKind) (fields : List (PyStr × Json)) : Except DeserializeError KeyedIdentity :=
  match kind with
  | .localManaged => (managedOf fields).map .managed
  | .localPassthrough => (passthroughOf fields).map .passthrough
  | .api => (apiOf fields).map .api
  | .apiPassthrough => (apiPassthroughOf fields).map .apiPassthrough

/-- What `deserialize_call_identity` makes of the payload. -/
def identityOfPayload : Json → Except DeserializeError KeyedIdentity
  | .obj payload => do
    let kind ← typeByKind (getItem payload "kind")
    match getItem payload "fields" with
    | some (.obj fields) => identityOf kind fields
    | none => identityOf kind []
    | some _ => .error .attributeError
  | _ => .error .attributeError

/-- `deserialize_call_identity`. -/
def deserializeCallIdentity (parseFloat : PyStr → UInt64) (data : PyStr) :
    Except DeserializeError KeyedIdentity :=
  match loads parseFloat data with
  | .ok payload => identityOfPayload payload
  | .error e => .error (.loads e)

/-- Assignments of new keys are added in order. -/
theorem setItems_new {d : PyDict} {ps : List (PyStr × PyStr)} (h : ((d.items++ps).map Prod.fst).Nodup) :
    (d.setItems ps).items=d.items++ps := by
  induction ps generalizing d with
  | nil => exact (List.append_nil _).symm
  | cons p ps ih =>
    have hnew : p.1∉d.items.map Prod.fst := by
      intro hmem
      rw [List.map_append,List.map_cons] at h
      exact (List.nodup_append.mp h).2.2 _ hmem _ List.mem_cons_self rfl
    have hset : (d.setItem p.1 p.2).items=d.items++[p] := if_neg hnew
    have hrest := ih (d := d.setItem p.1 p.2) (by rwa [hset,List.append_assoc,List.singleton_append])
    rw [hset,List.append_assoc,List.singleton_append] at hrest
    exact hrest

/-- A dict built from its own items is itself. -/
theorem setItems_items (d : PyDict) : PyDict.empty.setItems d.items=d :=
  PyDict.ext (setItems_new (d := .empty) d.nodup)

/-- Texts are read off the list they make. -/
theorem asText_map (texts : List PyStr) : (texts.map Json.str).mapM asText=.ok texts := by
  induction texts with
  | nil => rfl
  | cons text texts ih =>
    rw [List.map_cons,List.mapM_cons,ih]
    rfl

/-- Texts are read off the members they make. -/
theorem asText_members (items : List (PyStr × PyStr)) :
    ((items.map fun e => (e.1,Json.str e.2)).mapM fun e => (asText e.2).map fun s => (e.1,s))=.ok items := by
  induction items with
  | nil => rfl
  | cons e items ih =>
    rw [List.map_cons,List.mapM_cons,ih]
    rfl

/-- A set is read back. -/
theorem setField_setJson {fields : List (PyStr × Json)} {name : String} {texts : Finset PyStr}
    (h : getItem fields name=some (setJson texts)) : setField fields name=.ok texts := by
  unfold setField
  rw [h]
  show (((texts.sort (· ≤ ·)).map Json.str).mapM asText).map List.toFinset=_
  rw [asText_map]
  show Except.ok (texts.sort (· ≤ ·)).toFinset=_
  rw [Finset.sort_toFinset]

/-- A mapping is read back. -/
theorem mappingField_mappingJson {fields : List (PyStr × Json)} {name : String} {d : PyDict}
    (h : getItem fields name=some (mappingJson d)) : mappingField fields name=.ok d := by
  unfold mappingField
  rw [h]
  show (do
    let texts ← (d.items.map fun e => (e.1,Json.str e.2)).mapM fun e => (asText e.2).map fun s => (e.1,s)
    return PyDict.empty.setItems texts : Except DeserializeError PyDict)=_
  rw [asText_members]
  show Except.ok (PyDict.empty.setItems d.items)=_
  rw [setItems_items]

/-- An optional text is read back. -/
theorem optionalField_optionalJson {fields : List (PyStr × Json)} {name : String} {text : Option PyStr}
    (h : getItem fields name=some (optionalJson text)) : optionalField fields name=.ok text := by
  unfold optionalField
  rw [h]
  cases text <;> rfl

/-- The fields of an identity make up the identity. -/
theorem identityOf_fields (i : KeyedIdentity) : identityOf i.kind (identityFields i)=.ok i := by
  cases i with
  | managed i =>
    have hmapping : mappingField (identityFields (.managed i)) "input_file_fingerprints"=
        .ok i.inputFileFingerprints := mappingField_mappingJson rfl
    have hargs : optionalField (identityFields (.managed i)) "client_args_fingerprint"=
        .ok i.clientArgsFingerprint := optionalField_optionalJson rfl
    have hsystem : optionalField (identityFields (.managed i)) "system_fingerprint"=
        .ok i.systemFingerprint := optionalField_optionalJson rfl
    have hgrants : setField (identityFields (.managed i)) "grants"=.ok i.grants := setField_setJson rfl
    have hpaths : setField (identityFields (.managed i)) "allow_paths"=.ok i.allowPaths := setField_setJson rfl
    show (managedOf (identityFields (.managed i))).map KeyedIdentity.managed=_
    unfold managedOf
    rw [hmapping,hargs,hsystem,hgrants,hpaths]
    rfl
  | passthrough i => rfl
  | api i =>
    have hsystem : optionalField (identityFields (.api i)) "system_fingerprint"=
        .ok i.systemFingerprint := optionalField_optionalJson rfl
    show (apiOf (identityFields (.api i))).map KeyedIdentity.api=_
    unfold apiOf
    rw [hsystem]
    rfl
  | apiPassthrough i => rfl

/-- So does the payload. -/
theorem identityOfPayload_payload (i : KeyedIdentity) : identityOfPayload (identityPayload i)=.ok i := by
  have hkind : typeByKind (some (.str (kindValue i.kind)))=.ok i.kind := by
    cases i.kind <;> rfl
  show (do
    let kind ← typeByKind (some (.str (kindValue i.kind)))
    identityOf kind (identityFields i))=_
  rw [hkind]
  exact identityOf_fields i

/-- Every text of an identity. -/
def identityTexts : KeyedIdentity → List PyStr
  | .managed i =>
    [i.client,i.model,i.effort,i.contextFingerprint,i.promptFingerprint]++
      (i.inputFileFingerprints.items.flatMap fun e => [e.1,e.2])++i.clientArgsFingerprint.toList++
      i.systemFingerprint.toList++i.grants.sort (· ≤ ·)++i.allowPaths.sort (· ≤ ·)
  | .passthrough i => [i.client,i.nativeArgsFingerprint]
  | .api i =>
    [i.provider,i.model,i.contextFingerprint,i.promptFingerprint,i.effort]++i.systemFingerprint.toList
  | .apiPassthrough i => [i.client,i.bodyFingerprint]

/-- Whether UTF-8 encodes every text of an identity. -/
def encodableIdentity (i : KeyedIdentity) : Prop := ∀ text ∈ identityTexts i,encodable text=true

/-- A text that UTF-8 encodes survives. -/
theorem readable_text {text : PyStr} (h : encodable text=true) : readable (.str text)=true :=
  separated_of_encodable h

/-- So does an optional one. -/
theorem readable_optional {text : Option PyStr} (h : ∀ s ∈ text.toList,encodable s=true) :
    readable (optionalJson text)=true := by
  cases text with
  | none => rfl
  | some s => exact readable_text (h s (List.mem_singleton_self s))

/-- So does a set of them. -/
theorem readable_set {texts : Finset PyStr} (h : ∀ s ∈ texts.sort (· ≤ ·),encodable s=true) :
    readable (setJson texts)=true := by
  refine readable_arr.mpr fun item hitem => ?_
  obtain ⟨s,hs,rfl⟩ := List.mem_map.mp hitem
  exact readable_text (h s hs)

/-- So does a mapping between them. -/
theorem readable_mapping {d : PyDict} (h : ∀ e ∈ d.items,encodable e.1=true ∧ encodable e.2=true) :
    readable (mappingJson d)=true := by
  refine readable_obj.mpr ⟨fun e he => ?_,?_⟩
  · obtain ⟨item,hitem,rfl⟩ := List.mem_map.mp he
    exact ⟨separated_of_encodable (h item hitem).1,readable_text (h item hitem).2⟩
  · rw [List.map_map]
    exact d.nodup

/-- The fields of an identity have distinct names without surrogates. -/
theorem fieldNames (i : KeyedIdentity) :
    (∀ name ∈ (identityFields i).map Prod.fst,encodable name=true) ∧ ((identityFields i).map Prod.fst).Nodup := by
  cases i <;> (simp only [identityFields,List.map_cons,List.map_nil]; exact ⟨by decide,by decide⟩)

/-- The values of an identity's fields survive. -/
theorem readable_fields {i : KeyedIdentity} (h : encodableIdentity i) :
    ∀ e ∈ identityFields i,readable e.2=true := by
  cases i with
  | managed i =>
    have hitems : ∀ e ∈ i.inputFileFingerprints.items,∀ s ∈ [e.1,e.2],encodable s=true := by
      intro e he s hs
      apply h s
      simp only [identityTexts,List.mem_append,List.mem_flatMap]
      exact .inl (.inl (.inl (.inl (.inr ⟨e,he,hs⟩))))
    have hmapping : readable (mappingJson i.inputFileFingerprints)=true := readable_mapping fun e he =>
      ⟨hitems e he e.1 (by simp),hitems e he e.2 (by simp)⟩
    have hargs : readable (optionalJson i.clientArgsFingerprint)=true := readable_optional fun s hs =>
      h s (by simp only [identityTexts,List.mem_append]; exact .inl (.inl (.inl (.inr hs))))
    have hsystem : readable (optionalJson i.systemFingerprint)=true := readable_optional fun s hs =>
      h s (by simp only [identityTexts,List.mem_append]; exact .inl (.inl (.inr hs)))
    have hgrants : readable (setJson i.grants)=true := readable_set fun s hs =>
      h s (by simp only [identityTexts,List.mem_append]; exact .inl (.inr hs))
    have hpaths : readable (setJson i.allowPaths)=true := readable_set fun s hs =>
      h s (by simp only [identityTexts,List.mem_append]; exact .inr hs)
    have hfixed : ∀ s ∈ [i.client,i.model,i.effort,i.contextFingerprint,i.promptFingerprint],
        readable (.str s)=true := fun s hs => readable_text (h s (by
      simp only [identityTexts,List.mem_append]; exact .inl (.inl (.inl (.inl (.inl hs))))))
    simp only [List.mem_cons,List.not_mem_nil,or_false,forall_eq_or_imp,forall_eq] at hfixed
    simp only [identityFields,List.mem_cons,List.not_mem_nil,or_false,forall_eq_or_imp,forall_eq]
    exact ⟨hfixed.1,hfixed.2.1,hfixed.2.2.1,hfixed.2.2.2.1,hfixed.2.2.2.2,hmapping,hargs,hsystem,hgrants,hpaths⟩
  | api i =>
    have hsystem : readable (optionalJson i.systemFingerprint)=true := readable_optional fun s hs =>
      h s (List.mem_append_right _ hs)
    have hfixed : ∀ s ∈ [i.provider,i.model,i.contextFingerprint,i.promptFingerprint,i.effort],
        readable (.str s)=true := fun s hs => readable_text (h s (List.mem_append_left _ hs))
    simp only [List.mem_cons,List.not_mem_nil,or_false,forall_eq_or_imp,forall_eq] at hfixed
    simp only [identityFields,List.mem_cons,List.not_mem_nil,or_false,forall_eq_or_imp,forall_eq]
    exact ⟨hfixed.1,hfixed.2.1,hfixed.2.2.1,hfixed.2.2.2.1,hsystem,hfixed.2.2.2.2⟩
  | passthrough i =>
    intro e he
    simp only [identityFields,List.mem_cons,List.not_mem_nil,or_false] at he
    rcases he with rfl | rfl
    · exact readable_text (h i.client (by simp [identityTexts]))
    · exact readable_text (h i.nativeArgsFingerprint (by simp [identityTexts]))
  | apiPassthrough i =>
    intro e he
    simp only [identityFields,List.mem_cons,List.not_mem_nil,or_false] at he
    rcases he with rfl | rfl
    · exact readable_text (h i.client (by simp [identityTexts]))
    · exact readable_text (h i.bodyFingerprint (by simp [identityTexts]))

/-- The columns are texts of the identity, or empty. -/
theorem encodable_summary {i : KeyedIdentity} (h : encodableIdentity i) :
    encodable (summaryClient i)=true ∧ encodable (summaryModel i)=true ∧ encodable (summaryEffort i)=true := by
  cases i with
  | managed i =>
    exact ⟨h i.client (by simp [identityTexts]),h i.model (by simp [identityTexts]),
      h i.effort (by simp [identityTexts])⟩
  | passthrough i => exact ⟨h i.client (by simp [identityTexts]),rfl,rfl⟩
  | api i =>
    exact ⟨h i.provider (by simp [identityTexts]),h i.model (by simp [identityTexts]),
      h i.effort (by simp [identityTexts])⟩
  | apiPassthrough i => exact ⟨h i.client (by simp [identityTexts]),rfl,rfl⟩

/-- The payload of an encodable identity survives. -/
theorem readable_payload {i : KeyedIdentity} (h : encodableIdentity i) : readable (identityPayload i)=true := by
  have hkind : readable (.str (kindValue i.kind))=true := by
    cases i.kind <;> decide
  have hsummary := encodable_summary h
  have hfields : readable (.obj (identityFields i))=true := readable_obj.mpr
    ⟨fun e he => ⟨separated_of_encodable ((fieldNames i).1 e.1 (List.mem_map_of_mem he)),readable_fields h e he⟩,
      (fieldNames i).2⟩
  have hnames : ∀ name ∈ ["kind","client","model","effort","fields"],separated (pyStr name)=true :=
    fun name _ => separated_of_encodable (encodable_pyStr name)
  refine readable_obj.mpr ⟨?_,by simp only [List.map_cons,List.map_nil]; decide⟩
  simp only [List.mem_cons,List.not_mem_nil,or_false,forall_eq_or_imp,forall_eq] at hnames ⊢
  exact ⟨⟨hnames.1,hkind⟩,⟨hnames.2.1,readable_text hsummary.1⟩,⟨hnames.2.2.1,readable_text hsummary.2.1⟩,
    ⟨hnames.2.2.2.1,readable_text hsummary.2.2⟩,⟨hnames.2.2.2.2,hfields⟩⟩

/-- What an encodable identity is written as. -/
theorem serialize_eq (codec : FloatCodec) {i : KeyedIdentity} (h : encodableIdentity i) :
    serializeCallIdentity codec.floatRepr i=.ok (renderValue codec.floatRepr (identityPayload i)) :=
  (loads_dumps codec (readable_payload h)).1

/-- It is read back as itself. -/
theorem deserialize_serialized (codec : FloatCodec) {i : KeyedIdentity} (h : encodableIdentity i) :
    deserializeCallIdentity codec.parseFloat (renderValue codec.floatRepr (identityPayload i))=.ok i := by
  unfold deserializeCallIdentity
  rw [(loads_dumps codec (readable_payload h)).2]
  exact identityOfPayload_payload i

/-- An identity is written as a text that is read back as the same identity, under
the same key, and that no other identity is written as. -/
theorem identity_codec_lossless (codec : FloatCodec) (sha256 : Bytes → Digest) {i : KeyedIdentity}
    (h : encodableIdentity i) :
    ∃ text,serializeCallIdentity codec.floatRepr i=.ok text ∧
      (∃ restored,deserializeCallIdentity codec.parseFloat text=.ok restored ∧ restored.kind=i.kind ∧
        restored=i ∧ restored.generateKey sha256=i.generateKey sha256) ∧
      ∀ other,encodableIdentity other → serializeCallIdentity codec.floatRepr other=.ok text → other=i := by
  refine ⟨_,serialize_eq codec h,⟨i,deserialize_serialized codec h,rfl,rfl,rfl⟩,fun other hother htext => ?_⟩
  have hread := deserialize_serialized codec hother
  rw [serialize_eq codec hother] at htext
  rw [Except.ok.inj htext,deserialize_serialized codec h] at hread
  exact (Except.ok.inj hread).symm

/-- A managed identity with a file, a system prompt, a grant and a folder. -/
def sampleIdentity : KeyedIdentity := .managed
  { client := pyStr "claude"
    model := pyStr "opus"
    effort := []
    contextFingerprint := pyStr "ctx"
    promptFingerprint := pyStr "prompt"
    inputFileFingerprints := ⟨[(pyStr "/src/é.py",pyStr "sha_a")],List.nodup_singleton _⟩
    systemFingerprint := some (pyStr "sys")
    grants := {pyStr "net"}
    allowPaths := {pyStr "/repo/\"a\""} }

/-- It is read back. -/
theorem identity_codec_lossless_sample :
    ∃ text,serializeCallIdentity sampleCodec.floatRepr sampleIdentity=.ok text ∧
      (∃ restored,deserializeCallIdentity sampleCodec.parseFloat text=.ok restored ∧
        restored.kind=sampleIdentity.kind ∧ restored=sampleIdentity ∧
        restored.generateKey List.length=sampleIdentity.generateKey List.length) ∧
      ∀ other,encodableIdentity other → serializeCallIdentity sampleCodec.floatRepr other=.ok text →
        other=sampleIdentity := by
  refine identity_codec_lossless sampleCodec List.length fun text htext => ?_
  simp only [sampleIdentity,identityTexts,Finset.sort_singleton,Option.toList,List.flatMap_cons,List.flatMap_nil,
    List.cons_append,List.nil_append,List.append_nil,List.mem_cons,List.not_mem_nil,or_false] at htext
  rcases htext with rfl | rfl | rfl | rfl | rfl | rfl | rfl | rfl | rfl | rfl <;> decide

end GenericMlCache.IdentityCodec
