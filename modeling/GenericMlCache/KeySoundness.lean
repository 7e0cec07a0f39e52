import GenericMlCache.CallIdentityKeys

/-!
# Soundness of the cache key

What equal bytes under the checksum say about two call identities. Identities of
two kinds never share them; outside the managed kind the fields are determined;
two managed calls agree as well, unless a path, an arguments' fingerprint or a
comma of one is mistaken for a part of the framing.
-/

namespace GenericMlCache.CallIdentityKeys

open PythonText LengthFraming ExecutionModel

/-- A key without the separator that opens neither a file's nor the arguments' record. -/
def Plain (key : PyStr) : Prop :=
  fieldSep∉key ∧ ¬pyStr "file:" <+: key ∧ ¬pyStr "args:" <+: key

instance (key : PyStr) : Decidable (Plain key) := inferInstanceAs (Decidable (_ ∧ _))

/-- Looking up after an assignment that may be skipped. -/
theorem PyDict.get?_setPresent (d : PyDict) (key : PyStr) (value : Option PyStr) (k : PyStr) :
    (d.setPresent key value).get? k=if k=key then value.or (d.get? k) else d.get? k := by
  cases value with
  | none => simp [setPresent]
  | some v => simp [setPresent]

/-- Where an item comes from, after an assignment that may be skipped. -/
theorem PyDict.mem_setPresent {d : PyDict} {key : PyStr} {value : Option PyStr} {e : PyStr × PyStr}
    (h : e∈(d.setPresent key value).items) : e.1=key ∨ e∈d.items := by
  cases value with
  | none => exact Or.inr h
  | some v =>
    rcases mem_setItem h with rfl | ⟨-,hold⟩
    · exact Or.inl rfl
    · exact Or.inr hold

/-- What imitates a record of a file or of the arguments is keyed like it. -/
theorem prefix_of_imitates {e f : PyStr × PyStr} {word : PyStr} (hsep : fieldSep∉word)
    (hword : word <+: f.1) (h : Imitates e f) : word <+: e.1 := by
  have hopen : e.1 ++ [fieldSep] <+: f.1 ++ [fieldSep] := by
    refine List.IsPrefix.trans ?_ h
    exact ⟨pyStr (toString (e.2.flatMap encodeCodePoint).length) ++ [fieldSep],by simp [recordHead]⟩
  have hword' : word <+: f.1 ++ [fieldSep] := hword.trans (List.prefix_append _ _)
  rcases List.prefix_or_prefix_of_prefix hword' hopen with hin | hout
  · rcases List.prefix_concat_iff.mp hin with heq | hin
    · exact absurd (heq ▸ by simp) hsep
    · exact hin
  · exact absurd (hout.subset (by simp)) hsep

/-- Nothing imitates a record through a key without the separator. -/
theorem not_imitates_of_notMem {e f : PyStr × PyStr} (h : fieldSep∉f.1) : ¬Imitates e f := by
  intro himitates
  rcases List.prefix_concat_iff.mp himitates with heq | hin
  · have hkey := List.append_cancel_right heq
    exact h (by simp [← hkey])
  · exact h (hin.subset (by simp [recordHead]))

/-- Texts behind one common word imitate as the keys do. -/
theorem imitates_append {word : PyStr} {e f : PyStr × PyStr}
    (h : Imitates (word ++ e.1,e.2) (word ++ f.1,f.2)) : Imitates e f := by
  have hcommon : word ++ recordHead e <+: word ++ (f.1 ++ [fieldSep]) := by
    simpa [Imitates,recordHead] using h
  exact (List.prefix_append_right_inj word).mp hcommon

/-- Two words of which neither begins the other begin no common text. -/
theorem not_prefix_of_extended {word word' key : PyStr} (h : ¬word <+: word' ∧ ¬word' <+: word)
    (hkey : word <+: key) : ¬word' <+: key := by
  intro hkey'
  rcases List.prefix_or_prefix_of_prefix hkey hkey' with hin | hin
  · exact h.1 hin
  · exact h.2 hin

namespace ManagedCallIdentity
variable (i : ManagedCallIdentity)

/-- Input files and arguments are keyed by different words. -/
theorem words_apart : ¬pyStr "file:" <+: pyStr "args:" ∧ ¬pyStr "args:" <+: pyStr "file:" := by
  decide

/-- The keys of the input files differ. -/
theorem nodup_fileItems :
    ((i.inputFileFingerprints.sortedItems.map fileItem).map Prod.fst).Nodup := by
  have hnodup := PyDict.nodup_sortedItems (d := i.inputFileFingerprints)
  have hkeys : (i.inputFileFingerprints.sortedItems.map fileItem).map Prod.fst=
      (i.inputFileFingerprints.sortedItems.map Prod.fst).map (pyStr "file:" ++ ·) := by
    simp [fileItem,List.map_map,Function.comp_def]
  rw [hkeys]
  exact hnodup.map (List.append_right_injective _)

/-- A key that opens no file's record is no file's key. -/
theorem notMem_fileItems {key : PyStr} (h : ¬pyStr "file:" <+: key) :
    key∉(i.inputFileFingerprints.sortedItems.map fileItem).map Prod.fst := by
  intro hmem
  simp only [List.map_map,List.mem_map] at hmem
  obtain ⟨e,-,rfl⟩ := hmem
  exact h (List.prefix_append _ _)

/-- A key that opens no arguments' record is no key of the arguments. -/
theorem notMem_argsItems {key : PyStr} (h : ¬pyStr "args:" <+: key) :
    key∉(i.clientArgsFingerprint.toList.map argsItem).map Prod.fst := by
  intro hmem
  simp only [List.map_map,List.mem_map] at hmem
  obtain ⟨fingerprint,-,rfl⟩ := hmem
  exact h (List.prefix_append _ _)

/-- Looking up a key that opens neither a file's nor the arguments' record. -/
theorem get?_plain {key : PyStr} (h : Plain key) :
    i.keyData.get? key=(((i.fixedData.setPresent (pyStr "system") (truthy i.systemFingerprint)).setPresent
      (pyStr "grants") (joinedSet i.grants)).setPresent
      (pyStr "allow_paths") (joinedSet i.allowPaths)).get? key := by
  have hargs := i.notMem_argsItems h.2.2
  have hfiles := i.notMem_fileItems h.2.1
  simp only [keyData,PyDict.get?_setPresent,PyDict.get?_setItems_of_notMem _ hargs,
    PyDict.get?_setItems_of_notMem _ hfiles]

/-- Looking up a key of the dict literal. -/
theorem get?_fixed {key : PyStr} (h : Plain key)
    (hkey : key∉[pyStr "system",pyStr "grants",pyStr "allow_paths"]) :
    i.keyData.get? key=i.fixedData.get? key := by
  simp only [List.mem_cons,List.not_mem_nil,or_false,not_or] at hkey
  rw [i.get?_plain h]
  simp only [PyDict.get?_setPresent,hkey.1,hkey.2.1,hkey.2.2,if_false]

/-- The keys of the dict literal differ. -/
theorem nodup_literal : (i.literal.map Prod.fst).Nodup := by
  have hkeys : [pyStr "kind",pyStr "client",pyStr "model",pyStr "effort",pyStr "context",
      pyStr "prompt"].Nodup := by decide
  exact hkeys

/-- No other key is in the dict literal. -/
theorem get?_fixedData_of_notMem {key : PyStr} (h : key∉[pyStr "kind",pyStr "client",
    pyStr "model",pyStr "effort",pyStr "context",pyStr "prompt"]) : i.fixedData.get? key=none :=
  PyDict.get?_setItems_of_notMem _ h

/-- The entries of the dict literal. -/
theorem get?_literal : i.keyData.get? (pyStr "client")=some i.client ∧
    i.keyData.get? (pyStr "model")=some i.model ∧ i.keyData.get? (pyStr "effort")=some i.effort ∧
    i.keyData.get? (pyStr "context")=some i.contextFingerprint ∧
    i.keyData.get? (pyStr "prompt")=some i.promptFingerprint := by
  have hclient : i.fixedData.get? (pyStr "client")=some i.client :=
    PyDict.get?_setItems_of_mem _ i.nodup_literal (by simp only [literal,List.mem_cons,true_or,or_true])
  have hmodel : i.fixedData.get? (pyStr "model")=some i.model :=
    PyDict.get?_setItems_of_mem _ i.nodup_literal (by simp only [literal,List.mem_cons,true_or,or_true])
  have heffort : i.fixedData.get? (pyStr "effort")=some i.effort :=
    PyDict.get?_setItems_of_mem _ i.nodup_literal (by simp only [literal,List.mem_cons,true_or,or_true])
  have hcontext : i.fixedData.get? (pyStr "context")=some i.contextFingerprint :=
    PyDict.get?_setItems_of_mem _ i.nodup_literal (by simp only [literal,List.mem_cons,true_or,or_true])
  have hprompt : i.fixedData.get? (pyStr "prompt")=some i.promptFingerprint :=
    PyDict.get?_setItems_of_mem _ i.nodup_literal (by simp only [literal,List.mem_cons,true_or,or_true])
  rw [i.get?_fixed (by decide) (by decide),i.get?_fixed (by decide) (by decide),
    i.get?_fixed (by decide) (by decide),i.get?_fixed (by decide) (by decide),
    i.get?_fixed (by decide) (by decide)]
  exact ⟨hclient,hmodel,heffort,hcontext,hprompt⟩

/-- The system prompt's entry. -/
theorem get?_system : i.keyData.get? (pyStr "system")=truthy i.systemFingerprint := by
  have hgrants : pyStr "system"≠pyStr "grants" := by decide
  have hfolders : pyStr "system"≠pyStr "allow_paths" := by decide
  have hfixed : i.fixedData.get? (pyStr "system")=none :=
    i.get?_fixedData_of_notMem (by decide)
  rw [i.get?_plain (by decide)]
  simp only [PyDict.get?_setPresent,hgrants,hfolders,if_false,if_true,hfixed,Option.or_none]

/-- The grants' entry. -/
theorem get?_grants : i.keyData.get? (pyStr "grants")=joinedSet i.grants := by
  have hsystem : pyStr "grants"≠pyStr "system" := by decide
  have hfolders : pyStr "grants"≠pyStr "allow_paths" := by decide
  have hfixed : i.fixedData.get? (pyStr "grants")=none :=
    i.get?_fixedData_of_notMem (by decide)
  rw [i.get?_plain (by decide)]
  simp only [PyDict.get?_setPresent,hsystem,hfolders,if_false,if_true,hfixed,Option.or_none]

/-- The allowed folders' entry. -/
theorem get?_allowPaths : i.keyData.get? (pyStr "allow_paths")=joinedSet i.allowPaths := by
  have hsystem : pyStr "allow_paths"≠pyStr "system" := by decide
  have hgrants : pyStr "allow_paths"≠pyStr "grants" := by decide
  have hfixed : i.fixedData.get? (pyStr "allow_paths")=none :=
    i.get?_fixedData_of_notMem (by decide)
  rw [i.get?_plain (by decide)]
  simp only [PyDict.get?_setPresent,hsystem,hgrants,if_false,if_true,hfixed,Option.or_none]

/-- The keys of the dict literal are plain. -/
theorem plain_fixedData {e : PyStr × PyStr} (h : e∈i.fixedData.items) : Plain e.1 := by
  have hplain : ∀ key∈[pyStr "kind",pyStr "client",pyStr "model",pyStr "effort",pyStr "context",
      pyStr "prompt"],Plain key := by decide
  exact hplain e.1 (PyDict.key_of_literal h)

/-- Where an item comes from. -/
theorem mem_keyData {e : PyStr × PyStr} (h : e∈i.keyData.items) :
    Plain e.1 ∨ (∃ f∈i.inputFileFingerprints.items,e=fileItem f) ∨
      ∃ fingerprint,i.clientArgsFingerprint=some fingerprint ∧ e=argsItem fingerprint := by
  rcases PyDict.mem_setPresent h with hkey | h
  · rw [hkey]
    exact Or.inl (by decide)
  rcases PyDict.mem_setPresent h with hkey | h
  · rw [hkey]
    exact Or.inl (by decide)
  rcases PyDict.mem_setItems _ h with hargs | h
  · obtain ⟨fingerprint,hmem,rfl⟩ := List.mem_map.mp hargs
    exact Or.inr (Or.inr ⟨fingerprint,Option.mem_toList.mp hmem,rfl⟩)
  rcases PyDict.mem_setItems _ h with hfile | h
  · obtain ⟨f,hmem,rfl⟩ := List.mem_map.mp hfile
    exact Or.inr (Or.inl ⟨f,PyDict.mem_sortedItems.mp hmem,rfl⟩)
  rcases PyDict.mem_setPresent h with hkey | h
  · rw [hkey]
    exact Or.inl (by decide)
  · exact Or.inl (i.plain_fixedData h)

/-- A key that opens a file's record looks up the file. -/
theorem get?_file (path : PyStr) :
    i.keyData.get? (pyStr "file:" ++ path)=i.inputFileFingerprints.get? path := by
  have hfile : pyStr "file:" <+: pyStr "file:" ++ path := List.prefix_append _ _
  ext v
  constructor
  · intro hget
    rcases i.mem_keyData (PyDict.mem_items.mpr hget) with hplain | ⟨f,hf,heq⟩ | ⟨fp,-,heq⟩
    · exact absurd hfile hplain.2.1
    · obtain ⟨hkey,hvalue⟩ := Prod.mk.inj heq
      have hpath : path=f.1 := List.append_cancel_left hkey
      rw [hpath,hvalue]
      exact PyDict.mem_items.mp hf
    · have hargs : pyStr "args:" <+: pyStr "file:" ++ path :=
        ⟨fp,(congrArg Prod.fst heq).symm⟩
      exact absurd hargs (not_prefix_of_extended words_apart hfile)
  · intro hget
    have hmem : (pyStr "file:" ++ path,v)∈i.inputFileFingerprints.sortedItems.map fileItem :=
      List.mem_map.mpr ⟨(path,v),PyDict.mem_sortedItems.mpr (PyDict.mem_items.mpr hget),rfl⟩
    have hgrants : pyStr "file:" ++ path≠pyStr "grants" := by
      intro heq
      exact absurd (heq ▸ hfile) (by decide)
    have hfolders : pyStr "file:" ++ path≠pyStr "allow_paths" := by
      intro heq
      exact absurd (heq ▸ hfile) (by decide)
    simp only [keyData,PyDict.get?_setPresent,hgrants,hfolders,if_false]
    rw [PyDict.get?_setItems_of_notMem _
      (i.notMem_argsItems (not_prefix_of_extended words_apart hfile))]
    exact PyDict.get?_setItems_of_mem _ i.nodup_fileItems hmem

/-- A key that opens the arguments' record is there for these arguments only. -/
theorem get?_args (fingerprint : PyStr) :
    i.keyData.get? (pyStr "args:" ++ fingerprint)=some fingerprint ↔
      i.clientArgsFingerprint=some fingerprint := by
  have hargs : pyStr "args:" <+: pyStr "args:" ++ fingerprint := List.prefix_append _ _
  constructor
  · intro hget
    rcases i.mem_keyData (PyDict.mem_items.mpr hget) with hplain | ⟨f,-,heq⟩ | ⟨fp,hfp,heq⟩
    · exact absurd hargs hplain.2.2
    · have hfile : pyStr "file:" <+: pyStr "args:" ++ fingerprint :=
        ⟨f.1,(congrArg Prod.fst heq).symm⟩
      exact absurd hargs (not_prefix_of_extended words_apart hfile)
    · rw [hfp]
      exact congrArg some (congrArg Prod.snd heq).symm
  · intro hfp
    have hgrants : pyStr "args:" ++ fingerprint≠pyStr "grants" := by
      intro heq
      exact absurd (heq ▸ hargs) (by decide)
    have hfolders : pyStr "args:" ++ fingerprint≠pyStr "allow_paths" := by
      intro heq
      exact absurd (heq ▸ hargs) (by decide)
    simp only [keyData,PyDict.get?_setPresent,hgrants,hfolders,if_false,hfp,Option.toList_some,
      List.map_cons,List.map_nil]
    exact PyDict.get?_setItems_of_mem _ (List.nodup_singleton _) (List.mem_singleton.mpr rfl)

end ManagedCallIdentity

/-- Two managed identities agree in every keyed field. An empty system
fingerprint counts as absent. -/
structure SameKeyedFields (a b : ManagedCallIdentity) : Prop where
  /-- The clients are the same. -/
  client : a.client=b.client
  /-- The models are the same. -/
  model : a.model=b.model
  /-- The efforts are the same. -/
  effort : a.effort=b.effort
  /-- The contexts are the same. -/
  context : a.contextFingerprint=b.contextFingerprint
  /-- The prompts are the same. -/
  prompt : a.promptFingerprint=b.promptFingerprint
  /-- The system prompts are the same, an empty one as none. -/
  system : truthy a.systemFingerprint=truthy b.systemFingerprint
  /-- The same files, whatever order they were declared in. -/
  inputFiles : ∀ path,a.inputFileFingerprints.get? path=b.inputFileFingerprints.get? path
  /-- The client's arguments are the same. -/
  clientArgs : a.clientArgsFingerprint=b.clientArgsFingerprint
  /-- The permissions are the same. -/
  grants : a.grants=b.grants
  /-- The folders are the same. -/
  allowPaths : a.allowPaths=b.allowPaths

/-- The words of a set: its sorted texts, each cut at every comma. -/
def commaWords (texts : Finset PyStr) : List PyStr :=
  (texts.sort (· ≤ ·)).flatMap fun text => text.splitOn comma

/-- No text of one identity is mistaken for more or less than one text of the other. -/
structure Unambiguous (a b : ManagedCallIdentity) : Prop where
  /-- No path of one opens as a file of the other does, with its separator and length. -/
  inputFiles : ∀ e∈a.inputFileFingerprints.items,∀ f∈b.inputFileFingerprints.items,
    ¬Imitates e f ∧ ¬Imitates f e
  /-- Nor do the arguments' fingerprints. -/
  clientArgs : ∀ x∈a.clientArgsFingerprint,∀ y∈b.clientArgsFingerprint,
    ¬Imitates (x,x) (y,y) ∧ ¬Imitates (y,y) (x,x)
  /-- Only the same grants break at their commas into the same words. -/
  grants : commaWords a.grants=commaWords b.grants → a.grants=b.grants
  /-- Nor do other folders. -/
  allowPaths : commaWords a.allowPaths=commaWords b.allowPaths → a.allowPaths=b.allowPaths

/-- Joined texts, cut at every separator, are the texts cut at every separator. -/
theorem splitOn_joinText {separator : Fin 0x110000} {texts : List PyStr} (h : texts≠[]) :
    (joinText [separator] texts).splitOn separator=
      texts.flatMap fun text => text.splitOn separator := by
  induction texts with
  | nil => exact absurd rfl h
  | cons text rest ih =>
    cases rest with
    | nil => simp [joinText]
    | cons next rest =>
      have hjoin : joinText [separator] (text::next::rest)=
          text ++ separator::joinText [separator] (next::rest) := by
        simp [joinText,List.intercalate_cons_cons]
      rw [hjoin,List.splitOn_append_cons_self,ih (by simp)]
      rfl

/-- A set of texts that is not empty sorts to a list that is not empty. -/
theorem sort_ne_nil {texts : Finset PyStr} (h : texts.Nonempty) : texts.sort (· ≤ ·)≠[] := by
  intro hnil
  have hempty : texts=∅ := by
    rw [← Finset.sort_toFinset texts (· ≤ ·),hnil,List.toFinset_nil]
  exact h.ne_empty hempty

/-- Two sets join to the same text exactly when they break into the same words. -/
theorem joinedSet_eq_iff {texts texts' : Finset PyStr} (h : texts.Nonempty) (h' : texts'.Nonempty) :
    joinedSet texts=joinedSet texts' ↔ commaWords texts=commaWords texts' := by
  have hwords : (joinText [comma] _).splitOn comma=_ := splitOn_joinText (sort_ne_nil h)
  have hwords' : (joinText [comma] _).splitOn comma=_ := splitOn_joinText (sort_ne_nil h')
  unfold joinedSet commaWords
  rw [if_pos h,if_pos h',← hwords,← hwords',Option.some.injEq]
  constructor
  · intro hjoin
    rw [hjoin]
  · intro hcut
    have hback : [comma].intercalate ((joinText [comma] (texts.sort (· ≤ ·))).splitOn comma)=
        joinText [comma] (texts.sort (· ≤ ·)) := List.intercalate_splitOn comma
    rw [hcut,List.intercalate_splitOn] at hback
    exact hback.symm

/-- Sets that join to the same text are the same set, when their words tell them apart. -/
theorem joinedSet_injective {texts texts' : Finset PyStr}
    (hwords : commaWords texts=commaWords texts' → texts=texts')
    (h : joinedSet texts=joinedSet texts') : texts=texts' := by
  by_cases hs : texts.Nonempty
  · by_cases hs' : texts'.Nonempty
    · exact hwords ((joinedSet_eq_iff hs hs').mp h)
    · simp [joinedSet,hs,hs'] at h
  · by_cases hs' : texts'.Nonempty
    · simp [joinedSet,hs,hs'] at h
    · rw [Finset.not_nonempty_iff_eq_empty.mp hs,Finset.not_nonempty_iff_eq_empty.mp hs']

/-- Imitation between the dicts comes from two files or from both arguments. -/
theorem ManagedCallIdentity.not_imitates {a b : ManagedCallIdentity}
    (hfiles : ∀ e∈a.inputFileFingerprints.items,∀ f∈b.inputFileFingerprints.items,¬Imitates e f)
    (hargs : ∀ x∈a.clientArgsFingerprint,∀ y∈b.clientArgsFingerprint,¬Imitates (x,x) (y,y))
    {e f : PyStr × PyStr} (he : e∈a.keyData.items) (hf : f∈b.keyData.items) : ¬Imitates e f := by
  intro himitates
  rcases b.mem_keyData hf with hplain | ⟨f',hf',rfl⟩ | ⟨y,hy,rfl⟩
  · exact not_imitates_of_notMem hplain.1 himitates
  · have hword : pyStr "file:" <+: e.1 :=
      prefix_of_imitates (by decide) (List.prefix_append _ _) himitates
    rcases a.mem_keyData he with hplain | ⟨e',he',rfl⟩ | ⟨x,-,rfl⟩
    · exact hplain.2.1 hword
    · exact hfiles e' he' f' hf' (imitates_append himitates)
    · exact not_prefix_of_extended words_apart hword (List.prefix_append _ _)
  · have hword : pyStr "args:" <+: e.1 :=
      prefix_of_imitates (by decide) (List.prefix_append _ _) himitates
    rcases a.mem_keyData he with hplain | ⟨e',-,rfl⟩ | ⟨x,hx,rfl⟩
    · exact hplain.2.2 hword
    · exact not_prefix_of_extended words_apart (List.prefix_append _ _) hword
    · have htexts : Imitates (x,x) (y,y) := imitates_append himitates
      exact hargs x hx y hy htexts


/-- Dicts that look up the same come from the same fields, when no set is ambiguous. -/
theorem SameKeyedFields.of_get? {a b : ManagedCallIdentity} (h : Unambiguous a b)
    (hget : ∀ key,a.keyData.get? key=b.keyData.get? key) : SameKeyedFields a b := by
  obtain ⟨hclient,hmodel,heffort,hcontext,hprompt⟩ := a.get?_literal
  obtain ⟨hclient',hmodel',heffort',hcontext',hprompt'⟩ := b.get?_literal
  rw [hget] at hclient hmodel heffort hcontext hprompt
  have hargs : ∀ x,a.clientArgsFingerprint=some x ↔ b.clientArgsFingerprint=some x := by
    intro x
    rw [← a.get?_args,← b.get?_args,hget]
  have hgrants := hget (pyStr "grants")
  have hfolders := hget (pyStr "allow_paths")
  rw [a.get?_grants,b.get?_grants] at hgrants
  rw [a.get?_allowPaths,b.get?_allowPaths] at hfolders
  exact {
    client := Option.some.inj (hclient.symm.trans hclient')
    model := Option.some.inj (hmodel.symm.trans hmodel')
    effort := Option.some.inj (heffort.symm.trans heffort')
    context := Option.some.inj (hcontext.symm.trans hcontext')
    prompt := Option.some.inj (hprompt.symm.trans hprompt')
    system := by rw [← a.get?_system,← b.get?_system,hget]
    inputFiles := fun path => by rw [← a.get?_file,← b.get?_file,hget]
    clientArgs := Option.ext hargs
    grants := joinedSet_injective h.grants hgrants
    allowPaths := joinedSet_injective h.allowPaths hfolders }

/-- Managed identities with the same bytes under the checksum agree in every
keyed field, when no text of one is mistaken for a text of the other. -/
theorem sameKeyedFields_of_preimage {a b : ManagedCallIdentity} {bytes : Bytes}
    (ha : (KeyedIdentity.managed a).preimage=some bytes)
    (hb : (KeyedIdentity.managed b).preimage=some bytes) (h : Unambiguous a b) :
    SameKeyedFields a b := by
  have hget : ∀ key,a.keyData.get? key=b.keyData.get? key := by
    apply checksumInputData_injective ha hb
    intro e he f hf
    constructor
    · exact ManagedCallIdentity.not_imitates (fun e he f hf => (h.inputFiles e he f hf).1)
        (fun x hx y hy => (h.clientArgs x hx y hy).1) he hf
    · exact ManagedCallIdentity.not_imitates (fun f hf e he => (h.inputFiles e he f hf).2)
        (fun y hy x hx => (h.clientArgs x hx y hy).2) hf he
  exact .of_get? h hget

/-- A call that keys the given files and folders. -/
def fileCall (files : PyDict) (folders : Finset PyStr) : ManagedCallIdentity where
  client := pyStr "codex"
  model := pyStr "m"
  effort := []
  contextFingerprint := pyStr "0a"
  promptFingerprint := pyStr "0b"
  inputFileFingerprints := files
  allowPaths := folders

/-- Two files. -/
def twoFiles : PyDict := PyDict.empty.setItems [(pyStr "p",pyStr "0c"),(pyStr "q",pyStr "0d")]

/-- One file whose path holds the whole record of the first of two files. -/
def oneFile : PyDict := PyDict.empty.setItems [(pyStr "p\x1f2\x1f0c\x1efile:q",pyStr "0d")]

/-- One text joins to itself. -/
theorem joinedSet_singleton (text : PyStr) : joinedSet {text}=some text := by
  unfold joinedSet
  rw [if_pos (Finset.singleton_nonempty text),Finset.sort_singleton]
  simp [joinText]

/-- Two texts join around a comma. -/
theorem joinedSet_pair {x y : PyStr} (h : x < y) : joinedSet {x,y}=some (x ++ comma::y) := by
  have hsort : Finset.sort {x,y} (· ≤ ·)=[x,y] := by
    rw [Finset.sort_insert,Finset.sort_singleton]
    · intro b hb
      rw [Finset.mem_singleton.mp hb]
      exact h.le
    · rw [Finset.mem_singleton]
      exact h.ne
  unfold joinedSet
  rw [if_pos (Finset.insert_nonempty x _),hsort]
  simp [joinText,List.intercalate_cons_cons]

/-- Two folders are keyed like the one folder whose name joins theirs, and two
files like the one file whose path holds the first one's whole record. -/
theorem sameKeyedFields_fails :
    (∃ a b : ManagedCallIdentity,∃ bytes,(KeyedIdentity.managed a).preimage=some bytes ∧
      (KeyedIdentity.managed b).preimage=some bytes ∧ a.allowPaths≠b.allowPaths) ∧
    ∃ a b : ManagedCallIdentity,∃ bytes,(KeyedIdentity.managed a).preimage=some bytes ∧
      (KeyedIdentity.managed b).preimage=some bytes ∧
      a.inputFileFingerprints.get? (pyStr "p")≠b.inputFileFingerprints.get? (pyStr "p") := by
  constructor
  · have hpair : joinedSet {pyStr "/a",pyStr "/b"}=some (pyStr "/a,/b") :=
      joinedSet_pair (by decide)
    have hone : joinedSet {pyStr "/a,/b"}=some (pyStr "/a,/b") := joinedSet_singleton _
    let data := (fileCall .empty ∅).fixedData.setPresent (pyStr "allow_paths")
      (some (pyStr "/a,/b"))
    have htwo : (fileCall .empty {pyStr "/a",pyStr "/b"}).keyData=data := by
      simp only [ManagedCallIdentity.keyData,fileCall,hpair]
      apply PyDict.ext
      decide
    have hjoined : (fileCall .empty {pyStr "/a,/b"}).keyData=data := by
      simp only [ManagedCallIdentity.keyData,fileCall,hone]
      apply PyDict.ext
      decide
    have hencodes : (checksumInputData data).isSome=true := by decide
    obtain ⟨bytes,hbytes⟩ := Option.isSome_iff_exists.mp hencodes
    refine ⟨fileCall .empty {pyStr "/a",pyStr "/b"},fileCall .empty {pyStr "/a,/b"},bytes,?_,?_,?_⟩
    · exact (congrArg checksumInputData htwo).trans hbytes
    · exact (congrArg checksumInputData hjoined).trans hbytes
    · intro heq
      have hmem : pyStr "/a"∈({pyStr "/a,/b"} : Finset PyStr) := by
        rw [← show (fileCall .empty {pyStr "/a,/b"}).allowPaths={pyStr "/a,/b"} from rfl,← heq]
        exact Finset.mem_insert_self _ _
      exact absurd (Finset.mem_singleton.mp hmem) (by decide)
  · have hencodes : (KeyedIdentity.managed (fileCall twoFiles ∅)).preimage.isSome=true := by decide
    obtain ⟨bytes,hbytes⟩ := Option.isSome_iff_exists.mp hencodes
    have hsame : (KeyedIdentity.managed (fileCall twoFiles ∅)).preimage=
        (KeyedIdentity.managed (fileCall oneFile ∅)).preimage := by decide
    exact ⟨fileCall twoFiles ∅,fileCall oneFile ∅,bytes,hbytes,hsame.symm.trans hbytes,by decide⟩

/-- The same files declared in the other order, and an empty system prompt. -/
theorem sameKeyedFields_of_preimage_reordered :
    SameKeyedFields (fileCall twoFiles {pyStr "/a,b"})
      { fileCall (PyDict.empty.setItems [(pyStr "q",pyStr "0d"),(pyStr "p",pyStr "0c")])
        {pyStr "/a,b"} with systemFingerprint := some [] } := by
  have hone : joinedSet {pyStr "/a,b"}=some (pyStr "/a,b") := joinedSet_singleton _
  let data := ((fileCall .empty ∅).fixedData.setItems (twoFiles.sortedItems.map fileItem)).setPresent
    (pyStr "allow_paths") (some (pyStr "/a,b"))
  have hleft : (fileCall twoFiles {pyStr "/a,b"}).keyData=data := by
    simp only [ManagedCallIdentity.keyData,fileCall,hone]
    apply PyDict.ext
    decide
  have hright : ManagedCallIdentity.keyData { fileCall (PyDict.empty.setItems
      [(pyStr "q",pyStr "0d"),(pyStr "p",pyStr "0c")]) {pyStr "/a,b"} with
        systemFingerprint := some [] }=data := by
    simp only [ManagedCallIdentity.keyData,fileCall,hone]
    apply PyDict.ext
    decide
  have hencodes : (checksumInputData data).isSome=true := by decide
  obtain ⟨bytes,hbytes⟩ := Option.isSome_iff_exists.mp hencodes
  apply sameKeyedFields_of_preimage ((congrArg checksumInputData hleft).trans hbytes)
    ((congrArg checksumInputData hright).trans hbytes)
  exact ⟨by decide,by decide,fun _ => rfl,fun _ => rfl⟩

namespace PassthroughCallIdentity
variable (i : PassthroughCallIdentity)

/-- The keys of the dict literal differ. -/
theorem nodup_literal : (i.literal.map Prod.fst).Nodup := by
  have hkeys : [pyStr "kind",pyStr "client",pyStr "args"].Nodup := by decide
  exact hkeys

/-- The keys of the dict are plain. -/
theorem plain_keyData {e : PyStr × PyStr} (h : e∈i.keyData.items) : Plain e.1 := by
  have hplain : ∀ key∈[pyStr "kind",pyStr "client",pyStr "args"],Plain key := by decide
  exact hplain e.1 (PyDict.key_of_literal h)

/-- The fields, looked up. -/
theorem get?_literal : i.keyData.get? (pyStr "client")=some i.client ∧
    i.keyData.get? (pyStr "args")=some i.nativeArgsFingerprint := by
  constructor <;> apply PyDict.get?_setItems_of_mem _ i.nodup_literal <;>
    simp only [literal,List.mem_cons,true_or,or_true]

/-- Identities whose dicts look up the same are the same. -/
theorem of_get? {a b : PassthroughCallIdentity} (hget : ∀ key,a.keyData.get? key=b.keyData.get? key) :
    a=b := by
  obtain ⟨hclient,hargs⟩ := a.get?_literal
  obtain ⟨hclient',hargs'⟩ := b.get?_literal
  rw [hget] at hclient hargs
  cases a
  cases b
  cases hclient.symm.trans hclient'
  cases hargs.symm.trans hargs'
  rfl

end PassthroughCallIdentity

namespace ApiPassthroughCallIdentity
variable (i : ApiPassthroughCallIdentity)

/-- The keys of the dict literal differ. -/
theorem nodup_literal : (i.literal.map Prod.fst).Nodup := by
  have hkeys : [pyStr "kind",pyStr "client",pyStr "body"].Nodup := by decide
  exact hkeys

/-- The keys of the dict are plain. -/
theorem plain_keyData {e : PyStr × PyStr} (h : e∈i.keyData.items) : Plain e.1 := by
  have hplain : ∀ key∈[pyStr "kind",pyStr "client",pyStr "body"],Plain key := by decide
  exact hplain e.1 (PyDict.key_of_literal h)

/-- The fields, looked up. -/
theorem get?_literal : i.keyData.get? (pyStr "client")=some i.client ∧
    i.keyData.get? (pyStr "body")=some i.bodyFingerprint := by
  constructor <;> apply PyDict.get?_setItems_of_mem _ i.nodup_literal <;>
    simp only [literal,List.mem_cons,true_or,or_true]

/-- Identities whose dicts look up the same are the same. -/
theorem of_get? {a b : ApiPassthroughCallIdentity} (hget : ∀ key,a.keyData.get? key=b.keyData.get? key) :
    a=b := by
  obtain ⟨hclient,hbody⟩ := a.get?_literal
  obtain ⟨hclient',hbody'⟩ := b.get?_literal
  rw [hget] at hclient hbody
  cases a
  cases b
  cases hclient.symm.trans hclient'
  cases hbody.symm.trans hbody'
  rfl

end ApiPassthroughCallIdentity

namespace ApiCallIdentity
variable (i : ApiCallIdentity)

/-- The keys of the dict literal differ. -/
theorem nodup_literal : (i.literal.map Prod.fst).Nodup := by
  have hkeys : [pyStr "kind",pyStr "provider",pyStr "model",pyStr "context",pyStr "prompt",
      pyStr "effort"].Nodup := by decide
  exact hkeys

/-- The keys of the dict are plain. -/
theorem plain_keyData {e : PyStr × PyStr} (h : e∈i.keyData.items) : Plain e.1 := by
  have hplain : ∀ key∈[pyStr "kind",pyStr "provider",pyStr "model",pyStr "context",pyStr "prompt",
      pyStr "effort"],Plain key := by decide
  rcases PyDict.mem_setPresent h with hkey | h
  · rw [hkey]
    decide
  · exact hplain e.1 (PyDict.key_of_literal h)

/-- Looking up another key than the system prompt's. -/
theorem get?_keyData {key value : PyStr} (hkey : key≠pyStr "system") (h : (key,value)∈i.literal) :
    i.keyData.get? key=some value := by
  have hliteral := PyDict.get?_setItems_of_mem (d := .empty) _ i.nodup_literal h
  rw [keyData,PyDict.get?_setPresent,if_neg hkey,hliteral]

/-- The system prompt's entry. -/
theorem get?_system : i.keyData.get? (pyStr "system")=truthy i.systemFingerprint := by
  have hnone : (PyDict.empty.setItems i.literal).get? (pyStr "system")=none := by
    have hkeys : pyStr "system"∉[pyStr "kind",pyStr "provider",pyStr "model",pyStr "context",
        pyStr "prompt",pyStr "effort"] := by decide
    exact PyDict.get?_setItems_of_notMem _ hkeys
  rw [keyData,PyDict.get?_setPresent,if_pos rfl,hnone,Option.or_none]

/-- The fields, looked up. -/
theorem get?_literal : i.keyData.get? (pyStr "provider")=some i.provider ∧
    i.keyData.get? (pyStr "model")=some i.model ∧
    i.keyData.get? (pyStr "context")=some i.contextFingerprint ∧
    i.keyData.get? (pyStr "prompt")=some i.promptFingerprint ∧
    i.keyData.get? (pyStr "effort")=some i.effort := by
  refine ⟨?_,?_,?_,?_,?_⟩ <;> apply i.get?_keyData (by decide) <;>
    simp only [literal,List.mem_cons,true_or,or_true]

/-- Identities whose dicts look up the same are the same up to an empty system fingerprint. -/
theorem of_get? {a b : ApiCallIdentity} (hget : ∀ key,a.keyData.get? key=b.keyData.get? key) :
    { a with systemFingerprint := truthy a.systemFingerprint }=
      { b with systemFingerprint := truthy b.systemFingerprint } := by
  obtain ⟨hprovider,hmodel,hcontext,hprompt,heffort⟩ := a.get?_literal
  obtain ⟨hprovider',hmodel',hcontext',hprompt',heffort'⟩ := b.get?_literal
  have hsystem : truthy a.systemFingerprint=truthy b.systemFingerprint := by
    rw [← a.get?_system,← b.get?_system,hget]
  rw [hget] at hprovider hmodel hcontext hprompt heffort
  cases a
  cases b
  cases hprovider.symm.trans hprovider'
  cases hmodel.symm.trans hmodel'
  cases hcontext.symm.trans hcontext'
  cases hprompt.symm.trans hprompt'
  cases heffort.symm.trans heffort'
  simp only [hsystem]

end ApiCallIdentity

namespace KeyedIdentity

/-- An identity with an empty system fingerprint dropped, where only that sets it apart. -/
def normalized : KeyedIdentity → KeyedIdentity
  | api i => api { i with systemFingerprint := truthy i.systemFingerprint }
  | i => i

/-- The kind an identity is keyed by. -/
theorem get?_kind (i : KeyedIdentity) : i.keyData.get? (pyStr "kind")=some (kindValue i.kind) := by
  cases i with
  | managed i =>
    have hfixed : i.fixedData.get? (pyStr "kind")=some (kindValue .localManaged) :=
      PyDict.get?_setItems_of_mem _ i.nodup_literal List.mem_cons_self
    exact (i.get?_fixed (by decide) (by decide)).trans hfixed
  | passthrough i => exact PyDict.get?_setItems_of_mem _ i.nodup_literal List.mem_cons_self
  | api i => exact i.get?_keyData (by decide) List.mem_cons_self
  | apiPassthrough i => exact PyDict.get?_setItems_of_mem _ i.nodup_literal List.mem_cons_self

/-- No two kinds are keyed by the same word. -/
theorem kindValue_injective : Function.Injective kindValue := by
  intro k k' h
  cases k <;> cases k' <;> first | rfl | exact absurd h (by decide)

/-- The keys of the last three kinds are plain. -/
theorem plain_of_kind {i : KeyedIdentity} (hkind : i.kind≠.localManaged) {e : PyStr × PyStr}
    (h : e∈i.keyData.items) : Plain e.1 := by
  cases i with
  | managed i => exact absurd rfl hkind
  | passthrough i => exact i.plain_keyData h
  | api i => exact i.plain_keyData h
  | apiPassthrough i => exact i.plain_keyData h

/-- A key of any kind is plain, or opens a file's or the arguments' record. -/
theorem key_cases {i : KeyedIdentity} {e : PyStr × PyStr} (h : e∈i.keyData.items) :
    Plain e.1 ∨ pyStr "file:" <+: e.1 ∨ pyStr "args:" <+: e.1 := by
  cases i with
  | managed i =>
    rcases i.mem_keyData h with hplain | ⟨f,-,rfl⟩ | ⟨x,-,rfl⟩
    · exact Or.inl hplain
    · exact Or.inr (Or.inl (List.prefix_append _ _))
    · exact Or.inr (Or.inr (List.prefix_append _ _))
  | passthrough i => exact Or.inl (i.plain_keyData h)
  | api i => exact Or.inl (i.plain_keyData h)
  | apiPassthrough i => exact Or.inl (i.plain_keyData h)

/-- A plain key imitates no record, and no key imitates a record of a plain key. -/
theorem not_imitates_plain {i : KeyedIdentity} {e f : PyStr × PyStr} (he : Plain e.1)
    (hf : f∈i.keyData.items) : ¬Imitates e f ∧ ¬Imitates f e := by
  constructor
  · intro himitates
    rcases key_cases hf with hplain | hfile | hargs
    · exact not_imitates_of_notMem hplain.1 himitates
    · exact he.2.1 (prefix_of_imitates (by decide) hfile himitates)
    · exact he.2.2 (prefix_of_imitates (by decide) hargs himitates)
  · exact not_imitates_of_notMem he.1

/-- Outside two managed calls, equal bytes come from dicts that look up the same. -/
theorem get?_of_preimage {a b : KeyedIdentity} {bytes : Bytes} (ha : a.preimage=some bytes)
    (hb : b.preimage=some bytes) (h : a.kind≠.localManaged ∨ b.kind≠.localManaged) (key : PyStr) :
    a.keyData.get? key=b.keyData.get? key := by
  apply checksumInputData_injective ha hb
  intro e he f hf
  rcases h with hkind | hkind
  · exact not_imitates_plain (plain_of_kind hkind he) hf
  · exact (not_imitates_plain (plain_of_kind hkind hf) he).symm

/-- Identities with the same bytes under the checksum have one kind. -/
theorem kind_of_preimage {a b : KeyedIdentity} {bytes : Bytes} (ha : a.preimage=some bytes)
    (hb : b.preimage=some bytes) : a.kind=b.kind := by
  by_cases h : a.kind≠.localManaged ∨ b.kind≠.localManaged
  · have hvalue := get?_of_preimage ha hb h (pyStr "kind")
    rw [get?_kind,get?_kind] at hvalue
    exact kindValue_injective (Option.some.inj hvalue)
  · have hmanaged := not_or.mp h
    rw [not_not.mp hmanaged.1,not_not.mp hmanaged.2]

/-- Identities with the same bytes under the checksum have one kind, and outside
the managed kind they are the same identity up to an empty system fingerprint. -/
theorem normalized_of_preimage {a b : KeyedIdentity} {bytes : Bytes} (ha : a.preimage=some bytes)
    (hb : b.preimage=some bytes) :
    a.kind=b.kind ∧ (a.kind≠.localManaged → a.normalized=b.normalized) := by
  have hkind := kind_of_preimage ha hb
  refine ⟨hkind,fun hopaque => ?_⟩
  have hget := get?_of_preimage ha hb (Or.inl hopaque)
  cases a with
  | managed a => exact absurd rfl hopaque
  | passthrough a =>
    cases b with
    | passthrough b =>
      have hsame : a=b := PassthroughCallIdentity.of_get? hget
      rw [hsame]
    | managed b | api b | apiPassthrough b => cases hkind
  | api a =>
    cases b with
    | api b =>
      have hsame := ApiCallIdentity.of_get? hget
      exact congrArg api hsame
    | managed b | passthrough b | apiPassthrough b => cases hkind
  | apiPassthrough a =>
    cases b with
    | apiPassthrough b =>
      have hsame : a=b := ApiPassthroughCallIdentity.of_get? hget
      rw [hsame]
    | managed b | passthrough b | api b => cases hkind

/-- An API call whose model imitates the framing. -/
def imitatingCall (system : Option PyStr) : KeyedIdentity :=
  api ⟨pyStr "openai",pyStr "m\x1f1\x1fx\x1eprompt",pyStr "0a",pyStr "0b",system,[]⟩

/-- With no system prompt and with an empty one it is the same call. -/
theorem normalized_of_preimage_emptySystem :
    (imitatingCall none).kind=(imitatingCall (some [])).kind ∧
      ((imitatingCall none).kind≠.localManaged →
        (imitatingCall none).normalized=(imitatingCall (some [])).normalized) := by
  have hencodes : (imitatingCall none).preimage.isSome=true := by decide
  obtain ⟨bytes,hbytes⟩ := Option.isSome_iff_exists.mp hencodes
  have hbytes' : (imitatingCall (some [])).preimage=some bytes := hbytes
  exact normalized_of_preimage hbytes hbytes'

end KeyedIdentity

end GenericMlCache.CallIdentityKeys
