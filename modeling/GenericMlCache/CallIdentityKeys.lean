import GenericMlCache.LengthFraming
import GenericMlCache.ExecutionQueries
import Mathlib.Data.List.Lex
import Mathlib.Data.List.Sort
import Mathlib.Data.Finset.Sort

/-!
# Call identities and their key material

The four kinds of call identity, the dict of texts each one keys, and the bytes
that `checksum_input_data` feeds to SHA-256 for such a dict. Equal bytes mean
equal dicts unless a key imitates the head of a record of the other identity.
-/

namespace GenericMlCache.CallIdentityKeys

open PythonText LengthFraming ExecutionModel ExecutionQueries

/-- A Python dict of texts, in insertion order. -/
@[ext] structure PyDict where
  /-- Its items. -/
  items : List (PyStr × PyStr)
  /-- A key occurs once. -/
  nodup : (items.map Prod.fst).Nodup

/-- The empty dict. -/
def PyDict.empty : PyDict := ⟨[],List.nodup_nil⟩

/-- `d.get(key)`. -/
def PyDict.get? (d : PyDict) (key : PyStr) : Option PyStr :=
  (d.items.find? fun e => e.1=key).map Prod.snd

/-- `d[key] = value`: a present key keeps its place, a new one goes last. -/
def PyDict.setItem (d : PyDict) (key value : PyStr) : PyDict where
  items :=
    if key∈d.items.map Prod.fst then d.items.map fun e => if e.1=key then (key,value) else e
    else d.items ++ [(key,value)]
  nodup := by
    split
    · have hkeys : (d.items.map fun e => if e.1=key then (key,value) else e).map Prod.fst=
          d.items.map Prod.fst := by
        rw [List.map_map]
        apply List.map_congr_left
        intro e _
        by_cases he : e.1=key
        · simp [he]
        · simp [he]
      rw [hkeys]
      exact d.nodup
    · rename_i hnew
      rw [List.map_append,List.map_singleton]
      exact List.Nodup.append d.nodup (List.nodup_singleton _)
        (List.disjoint_singleton.mpr hnew)

/-- Assignments made one after the other. -/
def PyDict.setItems (d : PyDict) (assignments : List (PyStr × PyStr)) : PyDict :=
  assignments.foldl (fun d e => d.setItem e.1 e.2) d

/-- `sorted(d.items())`. The keys differ, so they alone decide the order. -/
def PyDict.sortedItems (d : PyDict) : List (PyStr × PyStr) :=
  d.items.insertionSort fun e f => e.1 ≤ f.1

namespace PyDict
variable {d d' : PyDict} {key value : PyStr} {e : PyStr × PyStr}

/-- What an item looks up to. -/
theorem mem_items : (key,value)∈d.items ↔ d.get? key=some value := by
  unfold get?
  constructor
  · intro hmem
    cases hfind : d.items.find? fun e => decide (e.1=key) with
    | none =>
      have hnone := List.find?_eq_none.mp hfind (key,value) hmem
      simp at hnone
    | some e =>
      have hkey : e.1=key := by simpa using List.find?_some hfind
      have he : e∈d.items := List.mem_of_find?_eq_some hfind
      have hsame : e=(key,value) := List.inj_on_of_nodup_map d.nodup he hmem hkey
      rw [hsame]
      rfl
  · intro hget
    obtain ⟨e,hfind,rfl⟩ := Option.map_eq_some_iff.mp hget
    have hkey : e.1=key := by simpa using List.find?_some hfind
    have he : e∈d.items := List.mem_of_find?_eq_some hfind
    rw [← hkey]
    exact he

/-- Where an item comes from. -/
theorem mem_setItem (h : e∈(d.setItem key value).items) :
    e=(key,value) ∨ e.1≠key ∧ e∈d.items := by
  simp only [setItem] at h
  split at h
  · obtain ⟨f,hf,rfl⟩ := List.mem_map.mp h
    by_cases hkey : f.1=key
    · exact Or.inl (by simp [hkey])
    · exact Or.inr (by simp [hkey,hf])
  · rename_i hnew
    rcases List.mem_append.mp h with hold | hadded
    · have hne : e.1≠key := fun heq => hnew (heq ▸ List.mem_map_of_mem hold)
      exact Or.inr ⟨hne,hold⟩
    · exact Or.inl (List.mem_singleton.mp hadded)

/-- An assigned item is there. -/
theorem mem_setItem_self : (key,value)∈(d.setItem key value).items := by
  simp only [setItem]
  split
  · rename_i hold
    obtain ⟨f,hf,hkey⟩ := List.mem_map.mp hold
    exact List.mem_map.mpr ⟨f,hf,by simp [hkey]⟩
  · simp

/-- An item of another key stays. -/
theorem mem_setItem_of_ne (hne : e.1≠key) (h : e∈d.items) : e∈(d.setItem key value).items := by
  simp only [setItem]
  split
  · exact List.mem_map.mpr ⟨e,h,by simp [hne]⟩
  · exact List.mem_append_left _ h

/-- Looking up after an assignment. -/
@[simp] theorem get?_setItem (k : PyStr) :
    (d.setItem key value).get? k=if k=key then some value else d.get? k := by
  by_cases hk : k=key
  · rw [if_pos hk,hk]
    exact mem_items.mp mem_setItem_self
  · rw [if_neg hk]
    ext v
    rw [← mem_items,← mem_items]
    constructor
    · intro hmem
      rcases mem_setItem hmem with heq | ⟨-,hold⟩
      · exact absurd (congrArg Prod.fst heq) hk
      · exact hold
    · exact mem_setItem_of_ne hk

@[simp] theorem get?_empty (k : PyStr) : empty.get? k=none := rfl

/-- Looking up a key that is not among the assignments. -/
theorem get?_setItems_of_notMem (ps : List (PyStr × PyStr)) (h : key∉ps.map Prod.fst) :
    (d.setItems ps).get? key=d.get? key := by
  induction ps generalizing d with
  | nil => rfl
  | cons p ps ih =>
    simp only [List.map_cons,List.mem_cons,not_or] at h
    have hrest := ih (d := d.setItem p.1 p.2) h.2
    have hhead : (d.setItem p.1 p.2).get? key=d.get? key := by
      rw [get?_setItem,if_neg h.1]
    exact hrest.trans hhead

/-- Looking up a key that is assigned once. -/
theorem get?_setItems_of_mem (ps : List (PyStr × PyStr)) (hnodup : (ps.map Prod.fst).Nodup)
    (h : (key,value)∈ps) : (d.setItems ps).get? key=some value := by
  induction ps generalizing d with
  | nil => cases h
  | cons p ps ih =>
    have hcons := List.nodup_cons.mp hnodup
    rcases List.mem_cons.mp h with rfl | htail
    · have hrest := get?_setItems_of_notMem (d := d.setItem key value) ps hcons.1
      have hhead : (d.setItem key value).get? key=some value := by
        rw [get?_setItem,if_pos rfl]
      exact hrest.trans hhead
    · exact ih hcons.2 htail

/-- Where an item comes from, after several assignments. -/
theorem mem_setItems (ps : List (PyStr × PyStr)) (h : e∈(d.setItems ps).items) :
    e∈ps ∨ e∈d.items := by
  induction ps generalizing d with
  | nil => exact Or.inr h
  | cons p ps ih =>
    rcases ih h with hmem | hmem
    · exact Or.inl (List.mem_cons_of_mem _ hmem)
    · rcases mem_setItem hmem with rfl | ⟨-,hold⟩
      · exact Or.inl List.mem_cons_self
      · exact Or.inr hold

/-- The keys of a dict literal. -/
theorem key_of_literal {ps : List (PyStr × PyStr)} (h : e∈(empty.setItems ps).items) :
    e.1∈ps.map Prod.fst := by
  rcases mem_setItems ps h with hmem | hmem
  · exact List.mem_map_of_mem hmem
  · exact nomatch hmem

/-- The sorted items are the items. -/
theorem mem_sortedItems : e∈d.sortedItems ↔ e∈d.items := List.mem_insertionSort _

/-- Dicts with the same sorted items look up the same. -/
theorem get?_of_sortedItems (h : d.sortedItems=d'.sortedItems) (k : PyStr) :
    d.get? k=d'.get? k := by
  ext v
  rw [← mem_items,← mem_items,← mem_sortedItems,← mem_sortedItems,h]

/-- The sorted items have different keys. -/
theorem nodup_sortedItems : (d.sortedItems.map Prod.fst).Nodup := by
  have hperm : d.sortedItems.Perm d.items := List.perm_insertionSort _ _
  exact (hperm.map Prod.fst).nodup_iff.mpr d.nodup

end PyDict

/-- `_FIELD_SEP` as a code point of a text. -/
def fieldSep : Fin 0x110000 := 0x1f

/-- `_FIELD_SEP`, `_RECORD_SEP` and the decimal length between them. -/
def recordFraming : Framing UInt8 where
  sep := 0x1f
  stop := 0x1e
  digits := asciiDigits
  digits_injective := asciiDigits_injective
  sep_notMem_digits := notMem_asciiDigits (by decide)

/-- The encoded key and value, none where `encode` raises. -/
def encodeItem (e : PyStr × PyStr) : Option (Record UInt8) := do
  let value ← encodeUtf8 e.2
  let key ← encodeUtf8 e.1
  pure (key,value)

/-- The bytes `checksum_input_data` feeds to SHA-256, none where it raises. -/
def checksumInputData (inputData : PyDict) : Option Bytes := do
  let records ← inputData.sortedItems.mapM encodeItem
  pure (recordFraming.stream records)

/-- Items that encode have records. -/
theorem records_total {es : List (PyStr × PyStr)} (h : ∀ e∈es,encodable e.1=true ∧ encodable e.2=true) :
    ∃ rs,es.mapM encodeItem=some rs := by
  induction es with
  | nil => exact ⟨[],rfl⟩
  | cons e es ih =>
    obtain ⟨hkey,hvalue⟩ := h e List.mem_cons_self
    obtain ⟨rs,hrs⟩ := ih fun f hf => h f (List.mem_cons_of_mem _ hf)
    have hitem : encodeItem e=some (e.1.flatMap encodeCodePoint,e.2.flatMap encodeCodePoint) := by
      simp only [encodeItem,encodeUtf8,hkey,hvalue,if_true]
      rfl
    rw [List.mapM_cons,hitem,hrs]
    exact ⟨_,rfl⟩

/-- A dict whose items encode has bytes. -/
theorem checksumInputData_total {d : PyDict} (h : ∀ e∈d.items,encodable e.1=true ∧ encodable e.2=true) :
    ∃ bytes,checksumInputData d=some bytes := by
  obtain ⟨rs,hrs⟩ := records_total fun e he => h e (PyDict.mem_sortedItems.mp he)
  exact ⟨_,by unfold checksumInputData; rw [hrs]; rfl⟩

/-- The text that opens an item's record: its key and the length of its value. -/
def recordHead (e : PyStr × PyStr) : PyStr :=
  e.1 ++ fieldSep::pyStr (toString (e.2.flatMap encodeCodePoint).length) ++ [fieldSep]

/-- The second item's key begins as the first item's record does. -/
def Imitates (e f : PyStr × PyStr) : Prop := recordHead e <+: f.1 ++ [fieldSep]

instance (e f : PyStr × PyStr) : Decidable (Imitates e f) :=
  inferInstanceAs (Decidable (_ <+: _))

/-- The record of an encodable item. -/
theorem encodeItem_eq_some {e : PyStr × PyStr} {r : Record UInt8} (h : encodeItem e=some r) :
    encodeUtf8 e.1=some r.1 ∧ encodeUtf8 e.2=some r.2 := by
  unfold encodeItem at h
  cases hvalue : encodeUtf8 e.2 with
  | none => simp [hvalue] at h
  | some value =>
    cases hkey : encodeUtf8 e.1 with
    | none => simp [hvalue,hkey] at h
    | some key =>
      simp only [hvalue,hkey] at h
      cases h
      exact ⟨rfl,rfl⟩

/-- Items with the same record are the same item. -/
theorem encodeItem_injective {e f : PyStr × PyStr} {r : Record UInt8} (he : encodeItem e=some r)
    (hf : encodeItem f=some r) : e=f := by
  have he' := encodeItem_eq_some he
  have hf' := encodeItem_eq_some hf
  exact Prod.ext (encodeUtf8_injective he'.1 hf'.1) (encodeUtf8_injective he'.2 hf'.2)

/-- Imitation between records is imitation between the texts. -/
theorem imitates_of_encoded {e f : PyStr × PyStr} {r s : Record UInt8} (he : encodeItem e=some r)
    (hf : encodeItem f=some s) (h : recordFraming.Imitates r s) : Imitates e f := by
  have hkey := encodeUtf8_eq_some (encodeItem_eq_some he).1
  have hvalue := encodeUtf8_eq_some (encodeItem_eq_some he).2
  have hkey' := encodeUtf8_eq_some (encodeItem_eq_some hf).1
  have hsep : encodeCodePoint fieldSep=[0x1f] := by decide
  apply prefix_of_encoded
  have hleft : (recordHead e).flatMap encodeCodePoint=recordFraming.head r := by
    simp only [recordHead,List.flatMap_append,List.flatMap_cons,List.flatMap_nil,hsep,
      encoded_toString,hkey,hvalue,Framing.head]
    rfl
  have hright : (f.1 ++ [fieldSep]).flatMap encodeCodePoint=s.1 ++ [recordFraming.sep] := by
    simp only [List.flatMap_append,List.flatMap_cons,List.flatMap_nil,hsep,hkey']
    rfl
  rw [hleft,hright]
  exact h

/-- The records of a list of items, one by one. -/
theorem records_of_mapM {es : List (PyStr × PyStr)} {rs : List (Record UInt8)}
    (h : es.mapM encodeItem=some rs) : List.Forall₂ (fun e r => encodeItem e=some r) es rs := by
  induction es generalizing rs with
  | nil =>
    cases h
    exact .nil
  | cons e es ih =>
    rw [List.mapM_cons] at h
    cases hr : encodeItem e with
    | none => simp [hr] at h
    | some r =>
      cases hrest : es.mapM encodeItem with
      | none => simp [hr,hrest] at h
      | some rest =>
        simp only [hr,hrest] at h
        cases h
        exact .cons hr (ih hrest)

/-- Items whose records agree one by one are the same. -/
theorem items_of_records {es fs : List (PyStr × PyStr)} {rs : List (Record UInt8)}
    (he : List.Forall₂ (fun e r => encodeItem e=some r) es rs)
    (hf : List.Forall₂ (fun f r => encodeItem f=some r) fs rs) : es=fs := by
  induction he generalizing fs with
  | nil =>
    cases hf
    rfl
  | cons hhead _ ih =>
    cases hf with
    | cons hhead' htail' =>
      have heq := encodeItem_injective hhead hhead'
      rw [heq,ih htail']

/-- Equal bytes come from equal dicts, unless a key imitates a record of the other dict. -/
theorem checksumInputData_injective {d d' : PyDict} {bytes : Bytes}
    (h : checksumInputData d=some bytes) (h' : checksumInputData d'=some bytes)
    (hapart : ∀ e∈d.items,∀ f∈d'.items,¬Imitates e f ∧ ¬Imitates f e) (key : PyStr) :
    d.get? key=d'.get? key := by
  unfold checksumInputData at h h'
  obtain ⟨rs,hrs,hstream⟩ := Option.bind_eq_some_iff.mp h
  obtain ⟨ss,hss,hstream'⟩ := Option.bind_eq_some_iff.mp h'
  have hitems := records_of_mapM hrs
  have hitems' := records_of_mapM hss
  have hsame : rs=ss := by
    apply Framing.stream_injective (F := recordFraming)
    · intro r hr s hs
      obtain ⟨e,he,her⟩ := (mem_of_forall₂ hitems).1 r hr
      obtain ⟨f,hf,hfs⟩ := (mem_of_forall₂ hitems').1 s hs
      have hpair := hapart e (PyDict.mem_sortedItems.mp he) f (PyDict.mem_sortedItems.mp hf)
      exact ⟨fun himitates => hpair.1 (imitates_of_encoded her hfs himitates),
        fun himitates => hpair.2 (imitates_of_encoded hfs her himitates)⟩
    · exact (Option.some.inj hstream).trans (Option.some.inj hstream').symm
  subst hsame
  exact PyDict.get?_of_sortedItems (items_of_records hitems hitems') key

/-- Whether an optional text counts in a condition: present and not empty. -/
def truthy (text : Option PyStr) : Option PyStr := text.filter fun s => s≠[]

/-- `data[key] = value` where the text is present. -/
def PyDict.setPresent (d : PyDict) (key : PyStr) : Option PyStr → PyDict
  | some value => d.setItem key value
  | none => d

/-- The identity of a fully managed local call. -/
structure ManagedCallIdentity where
  /-- The client's name. -/
  client : PyStr
  /-- The model's name. -/
  model : PyStr
  /-- The effort asked for, empty where none is. -/
  effort : PyStr
  /-- The checksum of the context. -/
  contextFingerprint : PyStr
  /-- The checksum of the prompt. -/
  promptFingerprint : PyStr
  /-- The checksum of each input file, by its name. -/
  inputFileFingerprints : PyDict := .empty
  /-- The checksum of the client's arguments, where there are some. -/
  clientArgsFingerprint : Option PyStr := none
  /-- The checksum of the system prompt, where there is one. -/
  systemFingerprint : Option PyStr := none
  /-- The permissions granted. -/
  grants : Finset PyStr := ∅
  /-- The folders allowed. -/
  allowPaths : Finset PyStr := ∅

/-- The identity of a passthrough call. -/
structure PassthroughCallIdentity where
  /-- The client's name. -/
  client : PyStr
  /-- The checksum of its arguments. -/
  nativeArgsFingerprint : PyStr
deriving DecidableEq

/-- The identity of a direct API call. -/
structure ApiCallIdentity where
  /-- The provider's name. -/
  provider : PyStr
  /-- The model's name. -/
  model : PyStr
  /-- The checksum of the context. -/
  contextFingerprint : PyStr
  /-- The checksum of the prompt. -/
  promptFingerprint : PyStr
  /-- The checksum of the system prompt, where there is one. -/
  systemFingerprint : Option PyStr := none
  /-- The effort asked for, empty where none is. -/
  effort : PyStr := []
deriving DecidableEq

/-- The identity of a verbatim relay call. -/
structure ApiPassthroughCallIdentity where
  /-- The client's name. -/
  client : PyStr
  /-- The checksum of the body. -/
  bodyFingerprint : PyStr
deriving DecidableEq

/-- `ExecutionKind.value`. -/
def kindValue : ExecutionKind → PyStr
  | .localManaged => pyStr "local_managed"
  | .localPassthrough => pyStr "local_passthrough"
  | .api => pyStr "api"
  | .apiPassthrough => pyStr "api_passthrough"

/-- The code point of `","`. -/
def comma : Fin 0x110000 := 0x2c

/-- `",".join(sorted(texts))`, left out for the empty set. -/
def joinedSet (texts : Finset PyStr) : Option PyStr :=
  if texts.Nonempty then some (joinText [comma] (texts.sort (· ≤ ·))) else none

/-- The items of the dict literal in `ManagedCallIdentity.generate_key`. -/
def ManagedCallIdentity.literal (i : ManagedCallIdentity) : List (PyStr × PyStr) :=
  [(pyStr "kind",kindValue .localManaged),(pyStr "client",i.client),(pyStr "model",i.model),
    (pyStr "effort",i.effort),(pyStr "context",i.contextFingerprint),
    (pyStr "prompt",i.promptFingerprint)]

/-- The dict that `ManagedCallIdentity.generate_key` starts from. -/
def ManagedCallIdentity.fixedData (i : ManagedCallIdentity) : PyDict :=
  PyDict.empty.setItems i.literal

/-- The key of an input file: the path enters beside the fingerprint. -/
def fileItem (e : PyStr × PyStr) : PyStr × PyStr := (pyStr "file:" ++ e.1,e.2)

/-- The key of the arguments. Their fingerprint is in the key and is the value. -/
def argsItem (fingerprint : PyStr) : PyStr × PyStr := (pyStr "args:" ++ fingerprint,fingerprint)

/-- The dict `ManagedCallIdentity.generate_key` checksums. -/
def ManagedCallIdentity.keyData (i : ManagedCallIdentity) : PyDict :=
  let data := i.fixedData.setPresent (pyStr "system") (truthy i.systemFingerprint)
  let data := data.setItems (i.inputFileFingerprints.sortedItems.map fileItem)
  let data := data.setItems (i.clientArgsFingerprint.toList.map argsItem)
  let data := data.setPresent (pyStr "grants") (joinedSet i.grants)
  data.setPresent (pyStr "allow_paths") (joinedSet i.allowPaths)

/-- The items of the dict literal in `PassthroughCallIdentity.generate_key`. -/
def PassthroughCallIdentity.literal (i : PassthroughCallIdentity) : List (PyStr × PyStr) :=
  [(pyStr "kind",kindValue .localPassthrough),(pyStr "client",i.client),
    (pyStr "args",i.nativeArgsFingerprint)]

/-- The dict `PassthroughCallIdentity.generate_key` checksums. -/
def PassthroughCallIdentity.keyData (i : PassthroughCallIdentity) : PyDict :=
  PyDict.empty.setItems i.literal

/-- The items of the dict literal in `ApiCallIdentity.generate_key`. -/
def ApiCallIdentity.literal (i : ApiCallIdentity) : List (PyStr × PyStr) :=
  [(pyStr "kind",kindValue .api),(pyStr "provider",i.provider),(pyStr "model",i.model),
    (pyStr "context",i.contextFingerprint),(pyStr "prompt",i.promptFingerprint),
    (pyStr "effort",i.effort)]

/-- The dict `ApiCallIdentity.generate_key` checksums. -/
def ApiCallIdentity.keyData (i : ApiCallIdentity) : PyDict :=
  (PyDict.empty.setItems i.literal).setPresent (pyStr "system") (truthy i.systemFingerprint)

/-- The items of the dict literal in `ApiPassthroughCallIdentity.generate_key`. -/
def ApiPassthroughCallIdentity.literal (i : ApiPassthroughCallIdentity) : List (PyStr × PyStr) :=
  [(pyStr "kind",kindValue .apiPassthrough),(pyStr "client",i.client),
    (pyStr "body",i.bodyFingerprint)]

/-- The dict `ApiPassthroughCallIdentity.generate_key` checksums. -/
def ApiPassthroughCallIdentity.keyData (i : ApiPassthroughCallIdentity) : PyDict :=
  PyDict.empty.setItems i.literal

/-- A call identity of any kind. -/
inductive KeyedIdentity where
  | managed (i : ManagedCallIdentity)
  | passthrough (i : PassthroughCallIdentity)
  | api (i : ApiCallIdentity)
  | apiPassthrough (i : ApiPassthroughCallIdentity)

namespace KeyedIdentity

/-- The execution kind an identity folds into its key. -/
def kind : KeyedIdentity → ExecutionKind
  | managed _ => .localManaged
  | passthrough _ => .localPassthrough
  | api _ => .api
  | apiPassthrough _ => .apiPassthrough

/-- The dict its `generate_key` checksums. -/
def keyData : KeyedIdentity → PyDict
  | managed i => i.keyData
  | passthrough i => i.keyData
  | api i => i.keyData
  | apiPassthrough i => i.keyData

/-- The bytes its `generate_key` feeds to SHA-256. -/
def preimage (i : KeyedIdentity) : Option Bytes := checksumInputData i.keyData

/-- `generate_key`, none where it raises UnicodeEncodeError. -/
def generateKey (sha256 : Bytes → Digest) (i : KeyedIdentity) : Option ExecutionKey :=
  i.preimage.map fun bytes => ⟨sha256 bytes⟩

end KeyedIdentity

end GenericMlCache.CallIdentityKeys
